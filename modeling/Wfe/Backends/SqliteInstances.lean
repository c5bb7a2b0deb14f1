import Wfe.Library.Sql
import Wfe.Library.Table
import Wfe.Models.Instance
import Wfe.Models.Text

/-!
# Instances in SQLite

How the SQLite provider writes an instance into the tables `workflows` and `execution_pointers`, and
reads it back. Twelve and twenty-one columns are bound by position and read by name, with a
conversion for each kind of field. The texts of JSON values and of times are parameters: what is
relied on is that they can be read back.

The store is for a table of instances. Each statement does to the rows what it is for in that table,
so after any calls an instance is read back as it was last written, with the time at which it was
created.

## Main definitions

* `Texts`: `serde_json` and the RFC 3339 texts of `chrono`
* `createNewWorkflow`, `persistWorkflow`, `getWorkflowInstance`: the provider
* `rowToWorkflow`, `rowToPointer`: the conversions
* `Represents`: the rows are those of a table of instances

## Main results

* `rowToWorkflow_workflowRow`, `rowToPointer_pointerRow`: what is written is read back
* `Represents.createNewWorkflow`, `Represents.persistWorkflow`: what the calls are for
* `getWorkflowInstance_writes`: an instance is read back as it was last written
-/

namespace Wfe.Sqlite

open Sql (Row Value)

/-! ## Texts -/

/-- The texts that `serde_json` and `chrono` write and read. -/
structure Texts where
  jsonText : Json → String
  parseJson : String → Except String Json
  timeText : DateTime → String
  parseTime : String → Except String DateTime

/-- The name of a variant, as `serde` writes it. -/
def workflowStatusName : WorkflowStatus → String
  | .runnable => "Runnable"
  | .suspended => "Suspended"
  | .complete => "Complete"
  | .terminated => "Terminated"

def workflowStatuses : List WorkflowStatus := [.runnable, .suspended, .complete, .terminated]

def pointerStatusName : PointerStatus → String
  | .pending => "Pending"
  | .running => "Running"
  | .complete => "Complete"
  | .skipped => "Skipped"
  | .sleeping => "Sleeping"
  | .waitingForEvent => "WaitingForEvent"
  | .failed => "Failed"
  | .compensated => "Compensated"
  | .cancelled => "Cancelled"
  | .pendingPredecessor => "PendingPredecessor"

def pointerStatuses : List PointerStatus :=
  [.pending, .running, .complete, .skipped, .sleeping, .waitingForEvent, .failed, .compensated,
    .cancelled, .pendingPredecessor]

/-- `to_value(status)`: a variant without fields is serialized as its name. -/
def statusText (name : String) (default : String) : String :=
  ((Json.string name).asStr).getD default

section Texts

variable (T : Texts)

/-- `serde_json::from_str` of a text in quotes, into an enumeration of variants without fields. -/
def parseVariant {α : Type} (variants : List α) (name : α → String) (s : String) :
    Except String α := do
  match ← T.parseJson ("\"" ++ s ++ "\"") with
  | .string v =>
    match variants.find? fun a => name a = v with
    | some a => return a
    | none => .error s!"unknown variant {v}"
  | v => .error s!"invalid type: {v.display}"

/-- `serde_json::to_string` of a list of strings. -/
def stringsText (ss : List String) : String := T.jsonText (.array (ss.map Json.string))

def expectString : Json → Except String String
  | .string s => .ok s
  | v => .error s!"invalid type: {v.display}"

/-- `serde_json::from_str` into a list of strings. -/
def parseStrings (s : String) : Except String (List String) := do
  match ← T.parseJson s with
  | .array xs => xs.mapM expectString
  | v => .error s!"invalid type: {v.display}"

/-- `serde_json::from_str` into a hash map. -/
def parseAttributes (s : String) : Except String (List (String × Json)) := do
  match ← T.parseJson s with
  | .object m => return m
  | v => .error s!"invalid type: {v.display}"

/-- `as_ref().map(serde_json::to_string)`. -/
def optJsonText (v : Option Json) : Value := .ofOptText (v.map T.jsonText)

def optDtToString (t : Option DateTime) : Value := .ofOptText (t.map T.timeText)

def stringToDt (s : String) : Except WfeError DateTime :=
  (T.parseTime s).mapError fun e => .persistence s!"Failed to parse datetime '{s}': {e}"

def stringToOptDt : Option String → Except WfeError (Option DateTime)
  | some s => some <$> stringToDt T s
  | none => .ok none

end Texts

/-! ## Rows -/

def workflowColumns : List String :=
  ["id", "name", "root_workflow_id", "definition_id", "version", "description", "reference",
    "status", "data", "next_execution", "create_time", "complete_time"]

/-- The row `create_new_workflow` inserts. -/
def workflowRow (T : Texts) (w : WorkflowInstance) : Row :=
  Sql.bind workflowColumns
    [.text w.id, .text w.name, .ofOptText w.rootWorkflowId, .text w.workflowDefinitionId,
      .integer (Sql.asI64 w.version), .ofOptText w.description, .ofOptText w.reference,
      .text (statusText (workflowStatusName w.status) "Runnable"), .text (T.jsonText w.data),
      .ofOptInteger w.nextExecution, .text (T.timeText w.createTime),
      optDtToString T w.completeTime]

/-- The columns `persist_workflow` sets. -/
def persistedColumns (T : Texts) (w : WorkflowInstance) : Row :=
  Sql.bind
    ["name", "root_workflow_id", "definition_id", "version", "description", "reference", "status",
      "data", "next_execution", "complete_time"]
    [.text w.name, .ofOptText w.rootWorkflowId, .text w.workflowDefinitionId,
      .integer (Sql.asI64 w.version), .ofOptText w.description, .ofOptText w.reference,
      .text (statusText (workflowStatusName w.status) "Runnable"), .text (T.jsonText w.data),
      .ofOptInteger w.nextExecution, optDtToString T w.completeTime]

def pointerColumns : List String :=
  ["id", "workflow_id", "step_id", "active", "status", "sleep_until", "persistence_data",
    "start_time", "end_time", "event_name", "event_key", "event_published", "event_data",
    "step_name", "retry_count", "children", "context_item", "predecessor_id", "outcome", "scope",
    "extension_attributes"]

/-- The row `insert_pointer` inserts. -/
def pointerRow (T : Texts) (workflowId : String) (ptr : ExecutionPointer) : Row :=
  Sql.bind pointerColumns
    [.text ptr.id, .text workflowId, .integer (Sql.asI64 ptr.stepId), .ofBool ptr.active,
      .text (statusText (pointerStatusName ptr.status) "Pending"), optDtToString T ptr.sleepUntil,
      optJsonText T ptr.persistenceData, optDtToString T ptr.startTime, optDtToString T ptr.endTime,
      .ofOptText ptr.eventName, .ofOptText ptr.eventKey, .ofBool ptr.eventPublished,
      optJsonText T ptr.eventData, .ofOptText ptr.stepName, .integer (Sql.asI64 ptr.retryCount),
      .text (stringsText T ptr.children), optJsonText T ptr.contextItem,
      .ofOptText ptr.predecessorId, optJsonText T ptr.outcome, .text (stringsText T ptr.scope),
      .text (T.jsonText (.object ptr.extensionAttributes))]

/-! ## Conversions -/

/-- `map_err(to_persistence_err)`. -/
def toPersistenceErr {α : Type} (r : Except String α) : Except WfeError α := r.mapError .persistence

/-- `map_err(|e| WfeError::Persistence(format!("Failed to deserialize ..: {e}")))`. -/
def deserialized {α : Type} (what : String) (r : Except String α) : Except WfeError α :=
  r.mapError fun e => .persistence s!"Failed to deserialize {what}: {e}"

/-- A column with the text of an optional JSON value. -/
def optJson (T : Texts) (row : Row) (column : String) : Except WfeError (Option Json) := do
  match ← toPersistenceErr (row.optText column) with
  | some s => some <$> deserialized column (T.parseJson s)
  | none => return none

def rowToWorkflow (T : Texts) (row : Row) (pointers : List ExecutionPointer) :
    Except WfeError WorkflowInstance := do
  let statusStr ← toPersistenceErr (row.text "status")
  let status ← deserialized "WorkflowStatus"
    (parseVariant T workflowStatuses workflowStatusName statusStr)
  let dataStr ← toPersistenceErr (row.text "data")
  let data ← deserialized "data" (T.parseJson dataStr)
  let createTimeStr ← toPersistenceErr (row.text "create_time")
  let completeTimeStr ← toPersistenceErr (row.optText "complete_time")
  return {
    id := ← toPersistenceErr (row.text "id")
    name := ← toPersistenceErr (row.text "name")
    rootWorkflowId := ← toPersistenceErr (row.optText "root_workflow_id")
    workflowDefinitionId := ← toPersistenceErr (row.text "definition_id")
    version := Sql.asUnsigned 32 (← toPersistenceErr (row.integer "version"))
    description := ← toPersistenceErr (row.optText "description")
    reference := ← toPersistenceErr (row.optText "reference")
    executionPointers := pointers
    nextExecution := ← toPersistenceErr (row.optInteger "next_execution")
    status := status
    data := data
    createTime := ← stringToDt T createTimeStr
    completeTime := ← stringToOptDt T completeTimeStr }

def rowToPointer (T : Texts) (row : Row) : Except WfeError ExecutionPointer := do
  let statusStr ← toPersistenceErr (row.text "status")
  let status ← deserialized "PointerStatus"
    (parseVariant T pointerStatuses pointerStatusName statusStr)
  let persistenceData ← optJson T row "persistence_data"
  let eventData ← optJson T row "event_data"
  let contextItem ← optJson T row "context_item"
  let outcome ← optJson T row "outcome"
  let childrenStr ← toPersistenceErr (row.text "children")
  let children ← deserialized "children" (parseStrings T childrenStr)
  let scopeStr ← toPersistenceErr (row.text "scope")
  let scope ← deserialized "scope" (parseStrings T scopeStr)
  let extStr ← toPersistenceErr (row.text "extension_attributes")
  let extensionAttributes ← deserialized "extension_attributes" (parseAttributes T extStr)
  let sleepUntilStr ← toPersistenceErr (row.optText "sleep_until")
  let startTimeStr ← toPersistenceErr (row.optText "start_time")
  let endTimeStr ← toPersistenceErr (row.optText "end_time")
  return {
    id := ← toPersistenceErr (row.text "id")
    stepId := Sql.asUnsigned 64 (← toPersistenceErr (row.integer "step_id"))
    active := ← toPersistenceErr (row.bool "active")
    status := status
    sleepUntil := ← stringToOptDt T sleepUntilStr
    persistenceData := persistenceData
    startTime := ← stringToOptDt T startTimeStr
    endTime := ← stringToOptDt T endTimeStr
    eventName := ← toPersistenceErr (row.optText "event_name")
    eventKey := ← toPersistenceErr (row.optText "event_key")
    eventPublished := ← toPersistenceErr (row.bool "event_published")
    eventData := eventData
    stepName := ← toPersistenceErr (row.optText "step_name")
    retryCount := Sql.asUnsigned 32 (← toPersistenceErr (row.integer "retry_count"))
    children := children
    contextItem := contextItem
    predecessorId := ← toPersistenceErr (row.optText "predecessor_id")
    outcome := outcome
    scope := scope
    extensionAttributes := extensionAttributes }

/-! ## The provider -/

/-- The tables that hold instances. -/
structure Database where
  workflows : List Row := []
  executionPointers : List Row := []
deriving DecidableEq, Repr

section Provider

variable (T : Texts)

/-- `insert_pointer`: the row must refer to a workflow that exists. -/
def insertPointer (workflowId : String) (db : Database) (ptr : ExecutionPointer) :
    Except WfeError Database := do
  let pointers ← toPersistenceErr
    (Sql.insert ["id"] (pointerRow T workflowId ptr) db.executionPointers)
  if db.workflows.any fun row => row.has "id" (.text workflowId) then
    return { db with executionPointers := pointers }
  else .error (.persistence "FOREIGN KEY constraint failed")

/-- The transaction of `create_new_workflow`. The instance has an id and a name: those of the
caller, or else the UUID that is drawn. -/
def insertWorkflow (w : WorkflowInstance) (db : Database) : Except WfeError Database := do
  let workflows ← toPersistenceErr (Sql.insert ["id", "name"] (workflowRow T w) db.workflows)
  w.executionPointers.foldlM (insertPointer T w.id) { db with workflows := workflows }

/-- The instance with the id and the name it is stored under. -/
def withIdAndName (uuid : String) (w : WorkflowInstance) : WorkflowInstance :=
  let id := if w.id = "" then uuid else w.id
  { w with id := id, name := if w.name = "" then id else w.name }

/-- `create_new_workflow`. A transaction that is dropped leaves nothing. -/
def createNewWorkflow (uuid : String) (w : WorkflowInstance) (db : Database) :
    Except WfeError String × Database :=
  let w := withIdAndName uuid w
  match insertWorkflow T w db with
  | .ok db' => (.ok w.id, db')
  | .error e => (.error e, db)

/-- The transaction of `persist_workflow`: all pointers are replaced. -/
def updateWorkflow (w : WorkflowInstance) (db : Database) : Except WfeError Database := do
  let workflows ← toPersistenceErr
    (Sql.update ["id", "name"] (fun row => row.has "id" (.text w.id)) (persistedColumns T w)
      db.workflows)
  let pointers := Sql.delete (fun row => row.has "workflow_id" (.text w.id)) db.executionPointers
  w.executionPointers.foldlM (insertPointer T w.id)
    { workflows := workflows, executionPointers := pointers }

def persistWorkflow (w : WorkflowInstance) (db : Database) : Except WfeError Unit × Database :=
  match updateWorkflow T w db with
  | .ok db' => (.ok (), db')
  | .error e => (.error e, db)

def getWorkflowInstance (id : String) (db : Database) : Except WfeError WorkflowInstance :=
  match (Sql.select (fun row => row.has "id" (.text id)) db.workflows).head? with
  | none => .error (.workflowNotFound id)
  | some row => do
    let pointers ←
      (Sql.select (fun row => row.has "workflow_id" (.text id)) db.executionPointers).mapM
        (rowToPointer T)
    rowToWorkflow T row pointers

end Provider

/-! ## What is read back -/

/-- The numbers of a pointer have the widths of their types. -/
def PointerFits (p : ExecutionPointer) : Prop := p.stepId < 2 ^ 64 ∧ p.retryCount < 2 ^ 32

def Fits (w : WorkflowInstance) : Prop :=
  w.version < 2 ^ 32 ∧ ∀ p ∈ w.executionPointers, PointerFits p

/-- The JSON values and the times of a pointer can be read back from their texts, and so can the
name of its status in quotes. -/
structure PointerReadable (T : Texts) (p : ExecutionPointer) : Prop where
  json : ∀ v ∈ [p.persistenceData, p.eventData, p.contextItem, p.outcome].filterMap id ++
      [.array (p.children.map .string), .array (p.scope.map .string),
        .object p.extensionAttributes],
    T.parseJson (T.jsonText v) = .ok v
  time : ∀ t ∈ [p.sleepUntil, p.startTime, p.endTime].filterMap id,
    T.parseTime (T.timeText t) = .ok t
  status : T.parseJson ("\"" ++ pointerStatusName p.status ++ "\"") =
    .ok (.string (pointerStatusName p.status))

/-- The same of an instance with its pointers. -/
structure Readable (T : Texts) (w : WorkflowInstance) : Prop where
  json : T.parseJson (T.jsonText w.data) = .ok w.data
  createTime : T.parseTime (T.timeText w.createTime) = .ok w.createTime
  completeTime : ∀ t ∈ w.completeTime, T.parseTime (T.timeText t) = .ok t
  status : T.parseJson ("\"" ++ workflowStatusName w.status ++ "\"") =
    .ok (.string (workflowStatusName w.status))
  pointers : ∀ p ∈ w.executionPointers, PointerReadable T p

section ReadBack

variable {T : Texts}

theorem parseVariant_name {α : Type} {variants : List α} {name : α → String} {a : α}
    (hmem : a ∈ variants) (hinj : ∀ b ∈ variants, name b = name a → b = a)
    (hquoted : T.parseJson ("\"" ++ name a ++ "\"") = .ok (.string (name a))) :
    parseVariant T variants name (name a) = .ok a := by
  rw [parseVariant, hquoted]
  have hfind : variants.find? (fun b => decide (name b = name a)) = some a := by
    obtain ⟨b, hb⟩ : ∃ b, variants.find? (fun b => decide (name b = name a)) = some b :=
      Option.isSome_iff_exists.mp (List.find?_isSome.mpr ⟨a, hmem, by simp⟩)
    rw [hb, hinj b (List.mem_of_find?_eq_some hb) (by simpa using List.find?_some hb)]
  show (match variants.find? _ with | some a => _ | none => _) = _
  rw [hfind]
  rfl

theorem mapM_map_ok {ε α β : Type} {f : β → Except ε α} {g : α → β} {as : List α}
    (h : ∀ a ∈ as, f (g a) = .ok a) : (as.map g).mapM f = .ok as := by
  induction as with
  | nil => rfl
  | cons a as ih =>
    obtain ⟨ha, has⟩ := List.forall_mem_cons.mp h
    rw [List.map_cons, List.mapM_cons, ha, ih has]
    rfl

theorem parseStrings_stringsText {ss : List String}
    (h : T.parseJson (T.jsonText (.array (ss.map .string))) = .ok (.array (ss.map .string))) :
    parseStrings T (stringsText T ss) = .ok ss := by
  rw [parseStrings, stringsText, h]
  exact mapM_map_ok fun s _ => rfl

theorem stringToOptDt_text {t : Option DateTime}
    (h : ∀ u ∈ t, T.parseTime (T.timeText u) = .ok u) :
    stringToOptDt T (t.map T.timeText) = .ok t := by
  cases t with
  | none => rfl
  | some u =>
    rw [Option.map_some, stringToOptDt, stringToDt, h u rfl]
    rfl

section Reads

variable {row : Row} {c : String}

theorem text_ok {s : String} (h : row.lookup c = some (.text s)) :
    toPersistenceErr (row.text c) = .ok s := congrArg toPersistenceErr (Row.text_eq h)

theorem optText_ok {x : Option String} (h : row.lookup c = some (.ofOptText x)) :
    toPersistenceErr (row.optText c) = .ok x := congrArg toPersistenceErr (Row.optText_eq h)

theorem integer_ok {n : Int} (h : row.lookup c = some (.integer n)) :
    toPersistenceErr (row.integer c) = .ok n := congrArg toPersistenceErr (Row.integer_eq h)

theorem optInteger_ok {x : Option Int} (h : row.lookup c = some (.ofOptInteger x)) :
    toPersistenceErr (row.optInteger c) = .ok x := congrArg toPersistenceErr (Row.optInteger_eq h)

theorem bool_ok {b : Bool} (h : row.lookup c = some (.ofBool b)) :
    toPersistenceErr (row.bool c) = .ok b := congrArg toPersistenceErr (Row.bool_eq h)

theorem optJson_ok {v : Option Json} (h : row.lookup c = some (optJsonText T v))
    (hv : ∀ u ∈ v, T.parseJson (T.jsonText u) = .ok u) : optJson T row c = .ok v := by
  rw [optJson, optText_ok h]
  cases v with
  | none => rfl
  | some u =>
    simp only [Option.map_some, bind, Except.bind, hv u rfl]
    rfl

end Reads

/-- **A workflow row is read back.** -/
theorem rowToWorkflow_workflowRow {w : WorkflowInstance} (hfits : Fits w) (h : Readable T w)
    (pointers : List ExecutionPointer) :
    rowToWorkflow T (workflowRow T w) pointers =
      .ok { w with executionPointers := pointers } := by
  have hstatus : deserialized "WorkflowStatus" (parseVariant T workflowStatuses workflowStatusName
      (statusText (workflowStatusName w.status) "Runnable")) = .ok w.status :=
    congrArg (deserialized _) (parseVariant_name (by cases w.status <;> decide)
      (by cases w.status <;> decide) h.status)
  have hdata : deserialized "data" (T.parseJson (T.jsonText w.data)) = .ok w.data :=
    congrArg (deserialized _) h.json
  have hversion : Sql.asUnsigned 32 (Sql.asI64 w.version) = w.version :=
    Sql.asUnsigned_asI64 (by decide) hfits.1
  have hcreate : stringToDt T (T.timeText w.createTime) = .ok w.createTime := by
    rw [stringToDt, h.createTime]
    rfl
  rw [rowToWorkflow, text_ok (c := "status") rfl, text_ok (c := "data") rfl,
    text_ok (c := "create_time") rfl, optText_ok (c := "complete_time") rfl,
    text_ok (c := "id") rfl, text_ok (c := "name") rfl, optText_ok (c := "root_workflow_id") rfl,
    text_ok (c := "definition_id") rfl, integer_ok (c := "version") rfl,
    optText_ok (c := "description") rfl, optText_ok (c := "reference") rfl,
    optInteger_ok (c := "next_execution") rfl]
  -- The reads are done; what remains are the conversions.
  simp only [bind, Except.bind, hstatus, hdata, hcreate, stringToOptDt_text h.completeTime,
    hversion]
  rfl

/-- **A pointer row is read back.** -/
theorem rowToPointer_pointerRow {p : ExecutionPointer} (hfits : PointerFits p)
    (h : PointerReadable T p) (workflowId : String) :
    rowToPointer T (pointerRow T workflowId p) = .ok p := by
  have hstatus : deserialized "PointerStatus" (parseVariant T pointerStatuses pointerStatusName
      (statusText (pointerStatusName p.status) "Pending")) = .ok p.status :=
    congrArg (deserialized _) (parseVariant_name (by cases p.status <;> decide)
      (by cases p.status <;> decide) h.status)
  have hchildren : deserialized "children" (parseStrings T (stringsText T p.children)) =
      .ok p.children :=
    congrArg (deserialized _) (parseStrings_stringsText (h.json _ (by simp)))
  have hscope : deserialized "scope" (parseStrings T (stringsText T p.scope)) = .ok p.scope :=
    congrArg (deserialized _) (parseStrings_stringsText (h.json _ (by simp)))
  have hattributes : deserialized "extension_attributes"
      (parseAttributes T (T.jsonText (.object p.extensionAttributes))) =
        .ok p.extensionAttributes := by
    rw [parseAttributes, h.json _ (by simp)]
    rfl
  have hstepId : Sql.asUnsigned 64 (Sql.asI64 p.stepId) = p.stepId :=
    Sql.asUnsigned_asI64 (by decide) hfits.1
  have hretryCount : Sql.asUnsigned 32 (Sql.asI64 p.retryCount) = p.retryCount :=
    Sql.asUnsigned_asI64 (by decide) hfits.2
  have hsleep : stringToOptDt T (p.sleepUntil.map T.timeText) = .ok p.sleepUntil :=
    stringToOptDt_text fun u hu => h.time u (by simp_all)
  have hstart : stringToOptDt T (p.startTime.map T.timeText) = .ok p.startTime :=
    stringToOptDt_text fun u hu => h.time u (by simp_all)
  have hend : stringToOptDt T (p.endTime.map T.timeText) = .ok p.endTime :=
    stringToOptDt_text fun u hu => h.time u (by simp_all)
  rw [rowToPointer, text_ok (c := "status") rfl,
    optJson_ok (c := "persistence_data") rfl fun u hu => h.json u (by simp_all),
    optJson_ok (c := "event_data") rfl fun u hu => h.json u (by simp_all),
    optJson_ok (c := "context_item") rfl fun u hu => h.json u (by simp_all),
    optJson_ok (c := "outcome") rfl fun u hu => h.json u (by simp_all),
    text_ok (c := "children") rfl, text_ok (c := "scope") rfl,
    text_ok (c := "extension_attributes") rfl, optText_ok (c := "sleep_until") rfl,
    optText_ok (c := "start_time") rfl, optText_ok (c := "end_time") rfl, text_ok (c := "id") rfl,
    integer_ok (c := "step_id") rfl, bool_ok (c := "active") rfl,
    optText_ok (c := "event_name") rfl, optText_ok (c := "event_key") rfl,
    bool_ok (c := "event_published") rfl, optText_ok (c := "step_name") rfl,
    integer_ok (c := "retry_count") rfl, optText_ok (c := "predecessor_id") rfl]
  -- The reads are done; what remains are the conversions.
  simp only [bind, Except.bind, hstatus, hchildren, hscope, hattributes, hsleep, hstart, hend,
    hstepId, hretryCount]
  rfl

end ReadBack

/-! ## Tables of instances -/

/-- The rows are those of the instances, each with its pointers in order. -/
structure Represents (T : Texts) (db : Database) (insts : List WorkflowInstance) : Prop where
  workflows : db.workflows = insts.map (workflowRow T)
  ids : (insts.map WorkflowInstance.id).Nodup
  names : (insts.map WorkflowInstance.name).Nodup
  pointerIds : Sql.Unique ["id"] db.executionPointers
  pointers : ∀ w ∈ insts,
    Sql.select (fun row => row.has "workflow_id" (.text w.id)) db.executionPointers =
      w.executionPointers.map (pointerRow T w.id)
  owned : ∀ row ∈ db.executionPointers, ∃ w ∈ insts, row.has "workflow_id" (.text w.id) = true

section Tables

variable {T : Texts} {db db' : Database} {insts : List WorkflowInstance} {w : WorkflowInstance}

theorem Represents.empty : Represents T {} [] where
  workflows := rfl
  ids := List.nodup_nil
  names := List.nodup_nil
  pointerIds := by simp [Sql.Unique]
  pointers := by simp
  owned := by simp

@[simp] theorem workflowRow_has_id (w : WorkflowInstance) (id : String) :
    (workflowRow T w).has "id" (.text id) = decide (w.id = id) := by
  show decide (some (Value.text w.id) = some (.text id)) = _
  simp

@[simp] theorem pointerRow_has_workflow (workflowId id : String) (p : ExecutionPointer) :
    (pointerRow T workflowId p).has "workflow_id" (.text id) = decide (workflowId = id) := by
  show decide (some (Value.text workflowId) = some (.text id)) = _
  simp

/-- What `persist_workflow` sets makes the row that of the new instance, but for the id and the time
of creation. -/
theorem set_persistedColumns (u w : WorkflowInstance) :
    (workflowRow T u).set (persistedColumns T w) =
      workflowRow T { w with id := u.id, createTime := u.createTime } := rfl

theorem insertPointer_eq_ok {workflowId : String} {p : ExecutionPointer} :
    insertPointer T workflowId db p = .ok db' ↔
      (Sql.Unique ["id"] (db.executionPointers ++ [pointerRow T workflowId p]) ∧
        db.workflows.any (fun row => row.has "id" (.text workflowId)) = true) ∧
      db' = { db with
        executionPointers := db.executionPointers ++ [pointerRow T workflowId p] } := by
  rw [insertPointer, Sql.insert, Sql.checked]
  by_cases hunique : Sql.Unique ["id"] (db.executionPointers ++ [pointerRow T workflowId p])
  · rw [if_pos hunique]
    by_cases hexists : db.workflows.any (fun row => row.has "id" (.text workflowId)) = true
    · simp only [if_pos hexists]
      refine ⟨?_, ?_⟩
      · rintro ⟨⟩
        exact ⟨⟨hunique, hexists⟩, rfl⟩
      · rintro ⟨-, rfl⟩
        rfl
    · simp only [if_neg hexists]
      exact iff_of_false (by rintro ⟨⟩) fun h => hexists h.1.2
  · rw [if_neg hunique]
    exact iff_of_false (by rintro ⟨⟩) fun h => hunique h.1.1

/-- The pointers are inserted in order, one row each. -/
theorem foldlM_insertPointer {workflowId : String} {ps : List ExecutionPointer} :
    ps.foldlM (insertPointer T workflowId) db = .ok db' ↔
      (ps = [] ∨ Sql.Unique ["id"] (db.executionPointers ++ ps.map (pointerRow T workflowId)) ∧
        db.workflows.any (fun row => row.has "id" (.text workflowId)) = true) ∧
      db' = { db with
        executionPointers := db.executionPointers ++ ps.map (pointerRow T workflowId) } := by
  induction ps generalizing db with
  | nil =>
    rw [List.map_nil, List.append_nil]
    constructor
    · rintro ⟨⟩
      exact ⟨.inl rfl, rfl⟩
    · rintro ⟨-, rfl⟩
      rfl
  | cons p ps ih =>
    rw [List.foldlM_cons]
    have hstep (r : Except WfeError Database) :
        (r >>= fun db => ps.foldlM (insertPointer T workflowId) db) = .ok db' ↔
          ∃ db₁, r = .ok db₁ ∧ ps.foldlM (insertPointer T workflowId) db₁ = .ok db' := by
      cases r <;> simp [bind, Except.bind]
    rw [hstep]
    constructor
    · rintro ⟨db₁, hfirst, hrest⟩
      obtain ⟨⟨hunique, hexists⟩, rfl⟩ := insertPointer_eq_ok.mp hfirst
      obtain ⟨hall, hdb⟩ := ih.mp hrest
      refine ⟨.inr ⟨?_, hexists⟩, by simpa using hdb⟩
      rcases hall with rfl | ⟨hunique', -⟩
      · exact hunique
      · simpa using hunique'
    · rintro ⟨hinsert, rfl⟩
      obtain ⟨hunique, hexists⟩ := hinsert.resolve_left (by simp)
      rw [List.map_cons, List.append_cons] at hunique
      refine ⟨_, insertPointer_eq_ok.mpr ⟨⟨hunique.of_append, hexists⟩, rfl⟩, ih.mpr ⟨?_, by simp⟩⟩
      exact .inr ⟨hunique, hexists⟩

/-- `insert_workflow` appends the row of the instance, and the rows of its pointers. -/
theorem insertWorkflow_eq_ok : insertWorkflow T w db = .ok db' ↔
    Sql.Unique ["id", "name"] (db.workflows ++ [workflowRow T w]) ∧
      (w.executionPointers = [] ∨
        Sql.Unique ["id"] (db.executionPointers ++ w.executionPointers.map (pointerRow T w.id))) ∧
      db' = {
        workflows := db.workflows ++ [workflowRow T w]
        executionPointers :=
          db.executionPointers ++ w.executionPointers.map (pointerRow T w.id) } := by
  rw [insertWorkflow, Sql.insert, Sql.checked]
  split_ifs with hunique
  · show w.executionPointers.foldlM (insertPointer T w.id) _ = _ ↔ _
    rw [foldlM_insertPointer]
    simp [hunique]
  · exact iff_of_false (by rintro ⟨⟩) fun h => hunique h.1

theorem updateWorkflow_eq_ok : updateWorkflow T w db = .ok db' ↔
    Sql.Unique ["id", "name"] (db.workflows.map fun row =>
        if row.has "id" (.text w.id) then row.set (persistedColumns T w) else row) ∧
      (w.executionPointers = [] ∨
        Sql.Unique ["id"]
          (Sql.delete (fun row => row.has "workflow_id" (.text w.id)) db.executionPointers ++
            w.executionPointers.map (pointerRow T w.id)) ∧
        (db.workflows.map fun row =>
          if row.has "id" (.text w.id) then row.set (persistedColumns T w) else row).any
            (fun row => row.has "id" (.text w.id)) = true) ∧
      db' = {
        workflows := db.workflows.map fun row =>
          if row.has "id" (.text w.id) then row.set (persistedColumns T w) else row
        executionPointers :=
          Sql.delete (fun row => row.has "workflow_id" (.text w.id)) db.executionPointers ++
            w.executionPointers.map (pointerRow T w.id) } := by
  rw [updateWorkflow, Sql.update, Sql.checked]
  split_ifs with hunique
  · show w.executionPointers.foldlM (insertPointer T w.id) _ = _ ↔ _
    rw [foldlM_insertPointer]
    simp [hunique]
  · exact iff_of_false (by rintro ⟨⟩) fun h => hunique h.1

/-- The instance that a persisted one leaves of `u`: all of it but the time of creation. -/
def persisted (w u : WorkflowInstance) : WorkflowInstance :=
  if u.id = w.id then { w with createTime := u.createTime } else u

@[simp] theorem persisted_id (w u : WorkflowInstance) : (persisted w u).id = u.id := by
  unfold persisted
  split_ifs with h
  · exact h.symm
  · rfl

/-- The update of the workflow rows. -/
theorem map_set_workflowRow (w : WorkflowInstance) (insts : List WorkflowInstance) :
    ((insts.map (workflowRow T)).map fun row =>
      if row.has "id" (.text w.id) then row.set (persistedColumns T w) else row) =
      (insts.map (persisted w)).map (workflowRow T) := by
  rw [List.map_map, List.map_map]
  refine List.map_congr_left fun u _ => ?_
  show (if (workflowRow T u).has "id" (.text w.id) then _ else _) = workflowRow T (persisted w u)
  rw [workflowRow_has_id, persisted]
  by_cases h : u.id = w.id
  · rw [if_pos (decide_eq_true h), if_pos h, set_persistedColumns, h]
  · rw [if_neg (by simpa using h), if_neg h]

/-- Unique columns of workflow rows are unique ids and names. -/
theorem unique_workflowRows : Sql.Unique ["id", "name"] (insts.map (workflowRow T)) ↔
    (insts.map WorkflowInstance.id).Nodup ∧ (insts.map WorkflowInstance.name).Nodup := by
  have hinj : Function.Injective fun s : String => some (Value.text s) := by
    rintro a b ⟨⟩
    rfl
  have hcolumn (column : String) (f : WorkflowInstance → String)
      (hf : ∀ w, (workflowRow T w).lookup column = some (.text (f w))) :
      ((insts.map (workflowRow T)).map fun row => row.lookup column).Nodup ↔
        (insts.map f).Nodup := by
    have hmap : (insts.map (workflowRow T)).map (fun row => row.lookup column) =
        (insts.map f).map fun s => some (Value.text s) := by
      rw [List.map_map, List.map_map]
      exact List.map_congr_left fun w _ => hf w
    rw [hmap, List.nodup_map_iff hinj]
  rw [← hcolumn "id" _ fun _ => rfl, ← hcolumn "name" _ fun _ => rfl]
  simp [Sql.Unique]

/-- Rows of pointers can be added if their ids are distinct, and none is there. -/
theorem unique_pointerRows {rows : List Row} {workflowId : String} {ps : List ExecutionPointer} :
    Sql.Unique ["id"] (rows ++ ps.map (pointerRow T workflowId)) ↔
      Sql.Unique ["id"] rows ∧ (ps.map ExecutionPointer.id).Nodup ∧
        ∀ row ∈ rows, ∀ q ∈ ps, row.lookup "id" ≠ some (.text q.id) := by
  have hinj : Function.Injective fun s : String => some (Value.text s) := by
    rintro a b ⟨⟩
    rfl
  have hmap : (ps.map (pointerRow T workflowId)).map (fun row => row.lookup "id") =
      (ps.map ExecutionPointer.id).map fun s => some (Value.text s) := by
    rw [List.map_map, List.map_map]
    rfl
  simp only [Sql.Unique, List.mem_singleton, forall_eq]
  rw [List.map_append, List.nodup_append, hmap, List.nodup_map_iff hinj]
  simp

/-- The rows of pointers of one instance, and of no other. -/
theorem select_pointerRows (ps : List ExecutionPointer) (workflowId id : String) :
    Sql.select (fun row => row.has "workflow_id" (.text id)) (ps.map (pointerRow T workflowId)) =
      if workflowId = id then ps.map (pointerRow T workflowId) else [] := by
  split_ifs with hid
  · refine List.filter_eq_self.mpr fun row hrow => ?_
    obtain ⟨p, -, rfl⟩ := List.mem_map.mp hrow
    simpa using hid
  · refine List.filter_eq_nil_iff.mpr fun row hrow => ?_
    obtain ⟨p, -, rfl⟩ := List.mem_map.mp hrow
    simpa using hid

namespace Represents

variable (h : Represents T db insts)
include h

/-- The rows of pointers of an instance that is not there are not there. -/
theorem select_eq_nil {id : String} (hid : id ∉ insts.map WorkflowInstance.id) :
    Sql.select (fun row => row.has "workflow_id" (.text id)) db.executionPointers = [] := by
  refine List.filter_eq_nil_iff.mpr fun row hrow hhas => hid ?_
  obtain ⟨u, hu, hhas'⟩ := h.owned row hrow
  cases Row.has_unique hhas hhas'
  exact List.mem_map_of_mem hu

/-- The rows of pointers of an instance that is added. -/
theorem insertWorkflow (hinsert : Sqlite.insertWorkflow T w db = .ok db') :
    Represents T db' (insts ++ [w]) := by
  obtain ⟨hunique, hpointers, rfl⟩ := insertWorkflow_eq_ok.mp hinsert
  have hrows : db.workflows ++ [workflowRow T w] = (insts ++ [w]).map (workflowRow T) := by
    rw [h.workflows, List.map_append]
    rfl
  rw [hrows] at hunique
  obtain ⟨hids, hnames⟩ := unique_workflowRows.mp hunique
  have hnew : w.id ∉ insts.map WorkflowInstance.id := by
    rw [List.map_append, List.nodup_append] at hids
    intro hmem
    exact hids.2.2 _ hmem w.id (by simp) rfl
  refine ⟨hrows, hids, hnames, ?_, ?_, ?_⟩
  · -- Without pointers there is no statement, and nothing new to be unique.
    rcases hpointers with hnil | hpointers
    · rw [hnil, List.map_nil, List.append_nil]
      exact h.pointerIds
    · exact hpointers
  · intro u hu
    rw [Sql.select_append, select_pointerRows]
    rcases List.mem_append.mp hu with hu | hu
    · have hne : w.id ≠ u.id := fun hid => hnew (hid ▸ List.mem_map_of_mem hu)
      rw [h.pointers u hu, if_neg hne, List.append_nil]
    · rw [List.mem_singleton.mp hu, h.select_eq_nil hnew, List.nil_append, if_pos rfl]
  · intro row hrow
    rcases List.mem_append.mp hrow with hrow | hrow
    · obtain ⟨u, hu, hhas⟩ := h.owned row hrow
      exact ⟨u, List.mem_append_left _ hu, hhas⟩
    · obtain ⟨p, -, rfl⟩ := List.mem_map.mp hrow
      exact ⟨w, by simp, by simp⟩

/-- The rows after an update: those of the other instances stay. -/
theorem updateWorkflow (hupdate : Sqlite.updateWorkflow T w db = .ok db') :
    Represents T db' (insts.map (persisted w)) := by
  obtain ⟨hunique, hexists, rfl⟩ := updateWorkflow_eq_ok.mp hupdate
  rw [h.workflows, map_set_workflowRow] at hunique hexists ⊢
  obtain ⟨hids, hnames⟩ := unique_workflowRows.mp hunique
  refine ⟨rfl, hids, hnames, ?_, ?_, ?_⟩
  · rcases hexists with hnil | ⟨hpointers, -⟩
    · rw [hnil, List.map_nil, List.append_nil]
      exact h.pointerIds.filter _
    · exact hpointers
  · intro u' hu'
    obtain ⟨u, hu, rfl⟩ := List.mem_map.mp hu'
    rw [Sql.select_append, select_pointerRows, persisted_id, persisted]
    by_cases hid : u.id = w.id
    · rw [if_pos hid, if_pos hid.symm, hid, Sql.select_delete_self, List.nil_append]
    · have hne : Value.text u.id ≠ .text w.id := by simpa using hid
      rw [if_neg hid, if_neg (Ne.symm hid), Sql.select_delete_of_ne hne, List.append_nil,
        h.pointers u hu]
  · intro row hrow
    rcases List.mem_append.mp hrow with hrow | hrow
    · obtain ⟨u, hu, hhas⟩ := h.owned row (List.mem_of_mem_filter hrow)
      exact ⟨persisted w u, List.mem_map_of_mem hu, by rwa [persisted_id]⟩
    · obtain ⟨p, hp, rfl⟩ := List.mem_map.mp hrow
      -- The pointers have been inserted, so there is a row for the instance.
      obtain ⟨-, hany⟩ := hexists.resolve_left (List.ne_nil_of_mem hp)
      obtain ⟨row, hrow, hhas⟩ := List.any_eq_true.mp hany
      obtain ⟨u', hu', rfl⟩ := List.mem_map.mp hrow
      have hid : u'.id = w.id := by simpa using hhas
      exact ⟨u', hu', by simp [hid]⟩

/-- **Creation adds the instance** to the table. -/
theorem createNewWorkflow {uuid id : String}
    (hcreate : Sqlite.createNewWorkflow T uuid w db = (.ok id, db')) :
    id = (withIdAndName uuid w).id ∧ Represents T db' (insts ++ [withIdAndName uuid w]) := by
  unfold Sqlite.createNewWorkflow at hcreate
  dsimp only at hcreate
  split at hcreate
  case h_1 db₁ hinsert =>
    cases hcreate
    exact ⟨rfl, h.insertWorkflow hinsert⟩
  case h_2 => cases hcreate

/-- **A persisted instance** replaces the one that is there, up to the time of creation. -/
theorem persistWorkflow (hpersist : Sqlite.persistWorkflow T w db = (.ok (), db')) :
    Represents T db' (insts.map (persisted w)) := by
  unfold Sqlite.persistWorkflow at hpersist
  split at hpersist
  case h_1 db₁ hupdate =>
    cases hpersist
    exact h.updateWorkflow hupdate
  case h_2 => cases hpersist

/-- The rows of pointers are those of the instances. -/
theorem mem_executionPointers {row : Row} :
    row ∈ db.executionPointers ↔
      ∃ u ∈ insts, ∃ p ∈ u.executionPointers, row = pointerRow T u.id p := by
  constructor
  · intro hrow
    obtain ⟨u, hu, hhas⟩ := h.owned row hrow
    have hmem : row ∈ Sql.select (fun row => row.has "workflow_id" (.text u.id))
        db.executionPointers := List.mem_filter.mpr ⟨hrow, hhas⟩
    rw [h.pointers u hu] at hmem
    obtain ⟨p, hp, rfl⟩ := List.mem_map.mp hmem
    exact ⟨u, hu, p, hp, rfl⟩
  · rintro ⟨u, hu, p, hp, rfl⟩
    have hmem := List.mem_map_of_mem (f := pointerRow T u.id) hp
    rw [← h.pointers u hu] at hmem
    exact List.mem_of_mem_filter hmem

/-- **When an instance is created**: exactly if its id, its name and the ids of its pointers are
new. -/
theorem insertWorkflow_ok_iff : (∃ db', Sqlite.insertWorkflow T w db = .ok db') ↔
    (∀ u ∈ insts, u.id ≠ w.id ∧ u.name ≠ w.name) ∧
      (w.executionPointers.map ExecutionPointer.id).Nodup ∧
      ∀ u ∈ insts, ∀ p ∈ u.executionPointers, ∀ q ∈ w.executionPointers, p.id ≠ q.id := by
  have hrows : db.workflows ++ [workflowRow T w] = (insts ++ [w]).map (workflowRow T) := by
    rw [h.workflows, List.map_append]
    rfl
  have hworkflows : Sql.Unique ["id", "name"] (db.workflows ++ [workflowRow T w]) ↔
      ∀ u ∈ insts, u.id ≠ w.id ∧ u.name ≠ w.name := by
    rw [hrows, unique_workflowRows, List.map_append, List.map_append, List.nodup_append,
      List.nodup_append]
    simp [h.ids, h.names, forall_and]
  have hpointers : (w.executionPointers = [] ∨ Sql.Unique ["id"]
        (db.executionPointers ++ w.executionPointers.map (pointerRow T w.id))) ↔
      (w.executionPointers.map ExecutionPointer.id).Nodup ∧
        ∀ u ∈ insts, ∀ p ∈ u.executionPointers, ∀ q ∈ w.executionPointers, p.id ≠ q.id := by
    rw [unique_pointerRows]
    constructor
    · rintro (hnil | ⟨-, hnodup, hnew⟩)
      · simp [hnil]
      · refine ⟨hnodup, fun u hu p hp q hq hpq => ?_⟩
        refine hnew _ (h.mem_executionPointers.mpr ⟨u, hu, p, hp, rfl⟩) q hq ?_
        exact congrArg (fun id => some (Value.text id)) hpq
    · rintro ⟨hnodup, hnew⟩
      refine .inr ⟨h.pointerIds, hnodup, fun row hrow q hq hid => ?_⟩
      obtain ⟨u, hu, p, hp, rfl⟩ := h.mem_executionPointers.mp hrow
      have hpq : some (Value.text p.id) = some (.text q.id) := hid
      exact hnew u hu p hp q hq (Value.text.inj (Option.some.inj hpq))
  -- The two statements fail on nothing but the unique columns.
  rw [← hworkflows, ← hpointers]
  constructor
  · rintro ⟨db', hinsert⟩
    obtain ⟨hunique, hpointers, -⟩ := insertWorkflow_eq_ok.mp hinsert
    exact ⟨hunique, hpointers⟩
  · rintro ⟨hunique, hpointers⟩
    exact ⟨_, insertWorkflow_eq_ok.mpr ⟨hunique, hpointers, rfl⟩⟩

/-- **An instance of the table is read back.** -/
theorem getWorkflowInstance (hw : w ∈ insts) (hfits : Fits w) (hread : Readable T w) :
    Sqlite.getWorkflowInstance T w.id db = .ok w := by
  have hrow : (Sql.select (fun row => row.has "id" (.text w.id)) db.workflows).head? =
      some (workflowRow T w) := by
    rw [h.workflows, Sql.select, List.head?_filter, List.find?_map]
    have hid : (fun row : Row => row.has "id" (.text w.id)) ∘ workflowRow T =
        fun u : WorkflowInstance => decide (u.id = w.id) :=
      funext fun u => workflowRow_has_id u w.id
    have hfound : insts.find? (fun u => decide (u.id = w.id)) = some w :=
      Table.get_of_mem h.ids hw
    rw [hid, hfound]
    rfl
  have hpointers : (w.executionPointers.map (pointerRow T w.id)).mapM (rowToPointer T) =
      .ok w.executionPointers :=
    mapM_map_ok fun p hp =>
      rowToPointer_pointerRow (hfits.2 p hp) (hread.pointers p hp) w.id
  rw [Sqlite.getWorkflowInstance, hrow, h.pointers w hw]
  simp only [hpointers, bind, Except.bind]
  exact rowToWorkflow_workflowRow hfits hread _

end Represents

end Tables

/-! ## Calls -/

/-- The calls that write; `uuid` is drawn for an instance without an id. -/
inductive Call
  | create (uuid : String) (w : WorkflowInstance)
  | persist (w : WorkflowInstance)

/-- The database after calls, whatever they return. -/
def after (T : Texts) : List Call → Database → Database
  | [], db => db
  | .create uuid w :: calls, db => after T calls (createNewWorkflow T uuid w db).2
  | .persist w :: calls, db => after T calls (persistWorkflow T w db).2

/-- The instance that was last written under its id, by calls of `persist_workflow` after `w`. -/
def lastWritten (T : Texts) : List WorkflowInstance → WorkflowInstance → Database → WorkflowInstance
  | [], w, _ => w
  | v :: vs, w, db =>
    match persistWorkflow T v db with
    | (.ok _, db') => lastWritten T vs v db'
    -- The transaction has been rolled back.
    | (.error _, db') => lastWritten T vs w db'

section Calls

variable {T : Texts} {db db' : Database} {insts : List WorkflowInstance} {w : WorkflowInstance}

theorem createNewWorkflow_error {uuid : String} {e : WfeError}
    (h : createNewWorkflow T uuid w db = (.error e, db')) : db' = db := by
  unfold createNewWorkflow at h
  dsimp only at h
  split at h <;> cases h
  rfl

theorem persistWorkflow_error {e : WfeError} (h : persistWorkflow T w db = (.error e, db')) :
    db' = db := by
  unfold persistWorkflow at h
  split at h <;> cases h
  rfl

/-- After any calls the rows are those of a table of instances. -/
theorem Represents.after (calls : List Call) (h : Represents T db insts) :
    ∃ insts', Represents T (Sqlite.after T calls db) insts' := by
  induction calls generalizing db insts with
  | nil => exact ⟨insts, h⟩
  | cons call calls ih =>
    cases call with
    | create uuid w =>
      rw [Sqlite.after]
      rcases hcreate : Sqlite.createNewWorkflow T uuid w db with ⟨e | id, db'⟩
      · cases createNewWorkflow_error hcreate
        exact ih h
      · exact ih (h.createNewWorkflow hcreate).2
    | persist w =>
      rw [Sqlite.after]
      rcases hpersist : Sqlite.persistWorkflow T w db with ⟨e | ⟨⟩, db'⟩
      · cases persistWorkflow_error hpersist
        exact ih h
      · exact ih (h.persistWorkflow hpersist)

/-- What was last written under an id is in the table, with the time of creation. -/
theorem Represents.lastWritten {ws : List WorkflowInstance} {createTime : DateTime}
    (h : Represents T db insts) (hw : { w with createTime := createTime } ∈ insts)
    (hws : ∀ v ∈ ws, v.id = w.id) :
    ∃ insts', Represents T (Sqlite.after T (ws.map .persist) db) insts' ∧
      { Sqlite.lastWritten T ws w db with createTime := createTime } ∈ insts' ∧
      (Sqlite.lastWritten T ws w db).id = w.id := by
  induction ws generalizing db insts w with
  | nil => exact ⟨insts, h, hw, rfl⟩
  | cons v ws ih =>
    obtain ⟨hv, hws⟩ := List.forall_mem_cons.mp hws
    rw [List.map_cons, Sqlite.after, Sqlite.lastWritten]
    rcases hpersist : Sqlite.persistWorkflow T v db with ⟨e | ⟨⟩, db'⟩
    · cases persistWorkflow_error hpersist
      exact ih h hw hws
    · have hmem : { v with createTime := createTime } ∈ insts.map (persisted v) := by
        refine List.mem_map.mpr ⟨_, hw, ?_⟩
        rw [persisted, if_pos hv.symm]
      rw [← hv] at hws ⊢
      exact ih (h.persistWorkflow hpersist) hmem hws

theorem lastWritten_mem (ws : List WorkflowInstance) (w : WorkflowInstance) (db : Database) :
    lastWritten T ws w db ∈ w :: ws := by
  induction ws generalizing w db with
  | nil => exact List.mem_cons_self
  | cons v ws ih =>
    rw [lastWritten]
    split
    · exact List.mem_cons_of_mem w (ih v _)
    · rcases List.mem_cons.mp (ih w _) with hw | hws
      · rw [hw]
        exact List.mem_cons_self
      · exact List.mem_cons_of_mem w (List.mem_cons_of_mem v hws)

theorem withIdAndName_eq {uuid : String} (hid : w.id ≠ "") (hname : w.name ≠ "") :
    withIdAndName uuid w = w := by
  unfold withIdAndName
  dsimp only
  rw [if_neg hid, if_neg hname]

/-- **SQLite stores instances faithfully**: after an instance has been created, and any number of
instances persisted under its id, it is read back as it was last written, field for field and with
its pointers in order, with the time at which it was created. -/
theorem getWorkflowInstance_writes (calls : List Call) {uuid : String} {ws : List WorkflowInstance}
    (hid : w.id ≠ "") (hname : w.name ≠ "") (hws : ∀ v ∈ ws, v.id = w.id)
    (hfits : ∀ v ∈ w :: ws, Fits v) (hread : ∀ v ∈ w :: ws, Readable T v)
    (hcreate : createNewWorkflow T uuid w (after T calls {}) = (.ok w.id, db)) :
    getWorkflowInstance T w.id (after T (ws.map .persist) db) =
      .ok { lastWritten T ws w db with createTime := w.createTime } := by
  obtain ⟨insts, h⟩ := Represents.empty.after (T := T) calls
  have hcreated := (h.createNewWorkflow hcreate).2
  rw [withIdAndName_eq hid hname] at hcreated
  have hw : { w with createTime := w.createTime } ∈ insts ++ [w] :=
    List.mem_append_right _ (List.mem_singleton.mpr rfl)
  obtain ⟨insts', h', hmem, hlast⟩ := hcreated.lastWritten hw hws
  have hv := lastWritten_mem (T := T) ws w db
  rw [← hlast]
  refine h'.getWorkflowInstance hmem (hfits (lastWritten T ws w db) hv) ?_
  exact { hread _ hv with createTime := (hread w List.mem_cons_self).createTime }

end Calls

/-! ## An instance with a null value -/

/-- The texts of a few values. -/
def someTexts : Texts where
  jsonText := Json.display
  parseJson s :=
    if s = "null" then .ok .null
    else if s = "[]" then .ok (.array [])
    else if s = "\"Runnable\"" then .ok (.string "Runnable")
    else if s = "\"Pending\"" then .ok (.string "Pending")
    else if s = "\x7b\x7d" then .ok (.object [])
    else .error "EOF while parsing a value"
  timeText _ := "1970-01-01T00:00:00+00:00"
  parseTime s :=
    if s = "1970-01-01T00:00:00+00:00" then .ok 0 else .error "premature end of input"

def someInstance (description : Option String) : WorkflowInstance where
  id := "5e4c"
  name := "ci-1"
  rootWorkflowId := none
  workflowDefinitionId := "ci"
  version := 1
  description := description
  reference := none
  executionPointers := [{ ExecutionPointer.new "p" 0 with persistenceData := some .null }]
  nextExecution := some 0
  status := .runnable
  data := .object []
  createTime := 0
  completeTime := none

theorem someInstance_readable (description : Option String) :
    Readable someTexts (someInstance description) := by
  have hnull : someTexts.parseJson (someTexts.jsonText .null) = .ok .null := by decide
  have harray : someTexts.parseJson (someTexts.jsonText (.array [])) = .ok (.array []) := by
    decide
  have hobject : someTexts.parseJson (someTexts.jsonText (.object [])) = .ok (.object []) := by
    decide
  refine ⟨hobject, rfl, by simp [someInstance], rfl, fun p hp => ?_⟩
  cases List.mem_singleton.mp hp
  refine ⟨fun v hv => ?_, by simp [ExecutionPointer.new], rfl⟩
  have hcases : v = .null ∨ v = .array [] ∨ v = .object [] := by
    simpa [ExecutionPointer.new] using hv
  rcases hcases with rfl | rfl | rfl
  · exact hnull
  · exact harray
  · exact hobject

/-- The database in which the instance has been created. -/
def someDatabase : Database := (createNewWorkflow someTexts "" (someInstance none) {}).2

theorem createNewWorkflow_someInstance :
    createNewWorkflow someTexts "" (someInstance none) {} =
      (.ok (someInstance none).id, someDatabase) := by
  refine Prod.ext ?_ rfl
  decide

theorem lastWritten_someInstance :
    lastWritten someTexts [someInstance (some "nightly")] (someInstance none) someDatabase =
      someInstance (some "nightly") := by
  have hpersist : (persistWorkflow someTexts (someInstance (some "nightly")) someDatabase).1 =
      .ok () := by
    decide
  rw [lastWritten]
  split
  case h_1 => rfl
  case h_2 h =>
    rw [h] at hpersist
    cases hpersist

/-- An instance with a pointer whose persistence data is a null value, described later on. -/
theorem getWorkflowInstance_described :
    getWorkflowInstance someTexts (someInstance none).id
        (after someTexts ([someInstance (some "nightly")].map .persist) someDatabase) =
      .ok { someInstance (some "nightly") with createTime := (someInstance none).createTime } := by
  have hmem (v : WorkflowInstance) (hv : v ∈ [someInstance none, someInstance (some "nightly")]) :
      ∃ description, v = someInstance description := by
    rcases List.mem_cons.mp hv with rfl | hv
    · exact ⟨none, rfl⟩
    · exact ⟨some "nightly", List.mem_singleton.mp hv⟩
  rw [← lastWritten_someInstance]
  refine getWorkflowInstance_writes [] (by decide) (by decide)
    (List.forall_mem_singleton.mpr rfl) (fun v hv => ?_) (fun v hv => ?_)
    createNewWorkflow_someInstance
  · obtain ⟨description, rfl⟩ := hmem v hv
    refine ⟨?_, List.forall_mem_singleton.mpr ⟨?_, ?_⟩⟩ <;>
      simp [someInstance, ExecutionPointer.new]
  · obtain ⟨description, rfl⟩ := hmem v hv
    exact someInstance_readable description

end Wfe.Sqlite
