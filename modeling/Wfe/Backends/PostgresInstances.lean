import Mathlib.Data.List.Perm.Basic
import Wfe.Backends.Migrations
import Wfe.Backends.SqliteInstances
import Wfe.Backends.Subscriptions
import Wfe.Library.Transactions

/-!
# Instances in Postgres

How the Postgres provider stores instances. An instance is written in one transaction, which
replaces its row in `workflows` and all its rows in `execution_pointers`, and may add rows to
`event_subscriptions`; it is read back with two statements that are in no transaction. Callers on
any number of connections share the server: a statement may be refused, and a connection may go down
before or after the server has done what it was asked to.

Numbers are cast to the widths of their columns and back, and rows come in any order where a
statement does not ask for one. What `JSONB` keeps of a value and `TIMESTAMPTZ` of a time are
parameters.

## Main definitions

* `createNewWorkflow`, `persistWorkflow`, `persistWorkflowWithSubscriptions`,
  `getWorkflowInstance`: the provider
* `rowToWorkflow`, `rowToPointer`, `rowToSubscription`: the conversions
* `Database`, `Write.apply`: the tables
* `store`: the machine of all callers
* `stored`: what is left of an instance that is written and read

## Main results

* `rowToWorkflow_workflowRow`, `mapM_rowToPointer`: what is written is read back
-/

namespace Wfe.Postgres

open Migrations (Fault)
open Sqlite (withIdAndName)
open Subscriptions (Columns)
open Transactions (Server)

/-! ## Rows -/

structure WorkflowRow where
  id : String
  name : String
  rootWorkflowId : Option String
  definitionId : String
  version : Int
  description : Option String
  reference : Option String
  status : String
  data : Json
  nextExecution : Option Int
  createTime : DateTime
  completeTime : Option DateTime
deriving DecidableEq, Repr

structure PointerRow where
  id : String
  workflowId : String
  stepId : Int
  active : Bool
  status : String
  sleepUntil : Option DateTime
  persistenceData : Option Json
  startTime : Option DateTime
  endTime : Option DateTime
  eventName : Option String
  eventKey : Option String
  eventPublished : Bool
  eventData : Option Json
  stepName : Option String
  retryCount : Int
  children : Json
  contextItem : Option Json
  predecessorId : Option String
  outcome : Option Json
  scope : Json
  extensionAttributes : Json
deriving DecidableEq, Repr

structure SubscriptionRow where
  id : String
  workflowId : String
  stepId : Int
  executionPointerId : String
  eventName : String
  eventKey : String
  subscribeAsOf : DateTime
  subscriptionData : Option Json
  externalToken : Option String
  externalWorkerId : Option String
  externalTokenExpiry : Option DateTime
deriving DecidableEq, Repr

/-- `as i32`. -/
def asI32 (n : ℕ) : Int := (n : Int).bmod (2 ^ 32)

def statusToStr : WorkflowStatus → String
  | .runnable => "Runnable"
  | .suspended => "Suspended"
  | .complete => "Complete"
  | .terminated => "Terminated"

def strToStatus (s : String) : Except WfeError WorkflowStatus :=
  match [WorkflowStatus.runnable, .suspended, .complete, .terminated].find? fun status =>
    statusToStr status = s with
  | some status => .ok status
  | none => .error (.persistence s!"Unknown workflow status: {s}")

def pointerStatusToStr : PointerStatus → String
  | .pending => "Pending"
  | .running => "Running"
  | .complete => "Complete"
  | .skipped => "Skipped"
  | .sleeping => "Sleeping"
  | .waitingForEvent => "WaitingForEvent"
  | .failed => "Failed"
  | .compensated => "Compensated"
  | .cancelled => "Cancelled"
  | .pendingPredecessor => "PendingPredecessor"

def strToPointerStatus (s : String) : Except WfeError PointerStatus :=
  match [PointerStatus.pending, .running, .complete, .skipped, .sleeping, .waitingForEvent,
      .failed, .compensated, .cancelled, .pendingPredecessor].find? fun status =>
    pointerStatusToStr status = s with
  | some status => .ok status
  | none => .error (.persistence s!"Unknown pointer status: {s}")

/-- `serde_json::to_value` of a list of strings. -/
def stringsValue (ss : List String) : Json := .array (ss.map Json.string)

section Rows

variable (cols : Columns)

/-- The columns that `create_new_workflow` inserts, and that `persist_workflow` sets. -/
def workflowRow (w : WorkflowInstance) : WorkflowRow where
  id := w.id
  name := w.name
  rootWorkflowId := w.rootWorkflowId
  definitionId := w.workflowDefinitionId
  version := asI32 w.version
  description := w.description
  reference := w.reference
  status := statusToStr w.status
  data := cols.document w.data
  nextExecution := w.nextExecution
  createTime := cols.time w.createTime
  completeTime := w.completeTime.map cols.time

/-- The row that `insert_pointers` inserts for a pointer. -/
def pointerRow (workflowId : String) (p : ExecutionPointer) : PointerRow where
  id := p.id
  workflowId := workflowId
  stepId := asI32 p.stepId
  active := p.active
  status := pointerStatusToStr p.status
  sleepUntil := p.sleepUntil.map cols.time
  persistenceData := p.persistenceData.map cols.document
  startTime := p.startTime.map cols.time
  endTime := p.endTime.map cols.time
  eventName := p.eventName
  eventKey := p.eventKey
  eventPublished := p.eventPublished
  eventData := p.eventData.map cols.document
  stepName := p.stepName
  retryCount := asI32 p.retryCount
  children := cols.document (stringsValue p.children)
  contextItem := p.contextItem.map cols.document
  predecessorId := p.predecessorId
  outcome := p.outcome.map cols.document
  scope := cols.document (stringsValue p.scope)
  extensionAttributes := cols.document (.object p.extensionAttributes)

/-- The row of a subscription, with the UUID drawn for one without an id. -/
def subscriptionRow (uuid : String) (sub : EventSubscription) : SubscriptionRow where
  id := if sub.id = "" then uuid else sub.id
  workflowId := sub.workflowId
  stepId := asI32 sub.stepId
  executionPointerId := sub.executionPointerId
  eventName := sub.eventName
  eventKey := sub.eventKey
  subscribeAsOf := cols.time sub.subscribeAsOf
  subscriptionData := sub.subscriptionData.map cols.document
  externalToken := sub.externalToken
  externalWorkerId := sub.externalWorkerId
  externalTokenExpiry := sub.externalTokenExpiry.map cols.time

end Rows

/-! ## Conversions -/

/-- `map_err(|e| WfeError::Persistence(format!("Failed to deserialize ..: {e}")))`. -/
def deserialized {α : Type} (what : String) (r : Except String α) : Except WfeError α :=
  r.mapError fun e => .persistence s!"Failed to deserialize {what}: {e}"

/-- `serde_json::from_value` into a list of strings. -/
def strings : Json → Except String (List String)
  | .array vs => vs.mapM Sqlite.expectString
  | v => .error s!"invalid type: {v.display}"

/-- `serde_json::from_value` into a hash map. -/
def attributes : Json → Except String (List (String × Json))
  | .object m => .ok m
  | v => .error s!"invalid type: {v.display}"

def rowToPointer (row : PointerRow) : Except WfeError ExecutionPointer := do
  let children ← deserialized "children" (strings row.children)
  let scope ← deserialized "scope" (strings row.scope)
  let extensionAttributes ←
    deserialized "extension_attributes" (attributes row.extensionAttributes)
  let status ← strToPointerStatus row.status
  return {
    id := row.id
    stepId := Sql.asUnsigned 64 row.stepId
    active := row.active
    status := status
    sleepUntil := row.sleepUntil
    persistenceData := row.persistenceData
    startTime := row.startTime
    endTime := row.endTime
    eventName := row.eventName
    eventKey := row.eventKey
    eventPublished := row.eventPublished
    eventData := row.eventData
    stepName := row.stepName
    retryCount := Sql.asUnsigned 32 row.retryCount
    children := children
    contextItem := row.contextItem
    predecessorId := row.predecessorId
    outcome := row.outcome
    scope := scope
    extensionAttributes := extensionAttributes }

/-- The end of `get_workflow_instance`. -/
def rowToWorkflow (row : WorkflowRow) (pointers : List ExecutionPointer) :
    Except WfeError WorkflowInstance := do
  let status ← strToStatus row.status
  return {
    id := row.id
    name := row.name
    rootWorkflowId := row.rootWorkflowId
    workflowDefinitionId := row.definitionId
    version := Sql.asUnsigned 32 row.version
    description := row.description
    reference := row.reference
    executionPointers := pointers
    nextExecution := row.nextExecution
    status := status
    data := row.data
    createTime := row.createTime
    completeTime := row.completeTime }

/-! ## The statements -/

inductive Statement
  | begin
  | insertWorkflow (row : WorkflowRow)
  | updateWorkflow (row : WorkflowRow)
  | deletePointers (workflowId : String)
  | insertPointer (row : PointerRow)
  | insertSubscription (row : SubscriptionRow)
  | commit
  | rollback
  | selectWorkflow (id : String)
  | selectPointers (workflowId : String)
deriving DecidableEq, Repr

/-- What a statement returns: the rows, or the number of rows affected. -/
@[reducible] def Statement.Answer : Statement → Type
  | updateWorkflow _ | deletePointers _ => ℕ
  | selectWorkflow _ => Option WorkflowRow
  | selectPointers _ => List PointerRow
  | _ => Unit

abbrev Statements : Interface := ⟨Statement, fun c => Except String c.Answer⟩

abbrev Fallible (α : Type) := ExceptT WfeError (Program Statements) α

def perform (c : Statement) : Program Statements (Except String c.Answer) :=
  Program.perform (I := Statements) c

/-- A statement with `map_sqlx_err`. -/
def query (c : Statement) : Fallible c.Answer := ExceptT.mk do
  match ← perform c with
  | .ok a => return .ok a
  | .error e => return .error (.persistence e)

/-- A transaction that is dropped before its commit is rolled back. -/
def inTransaction (body : Fallible Unit) : Fallible Unit := ExceptT.mk do
  match ← body.run with
  | .ok _ => return .ok ()
  | .error e =>
    let _ ← perform .rollback
    return .error e

/-! ## The provider -/

section Provider

variable (cols : Columns)

def insertPointers (workflowId : String) : List ExecutionPointer → Fallible Unit
  | [] => return ()
  | p :: ps => do
    query (.insertPointer (pointerRow cols workflowId p))
    insertPointers workflowId ps

/-- The loop over the subscriptions. -/
def insertSubscriptions : List SubscriptionRow → Fallible Unit
  | [] => return ()
  | row :: rows => do
    query (.insertSubscription row)
    insertSubscriptions rows

def createNewWorkflow (uuid : String) (inst : WorkflowInstance) : Fallible String := do
  let w := withIdAndName uuid inst
  query .begin
  inTransaction do
    query (.insertWorkflow (workflowRow cols w))
    insertPointers cols w.id w.executionPointers
    query .commit
  return w.id

/-- The transaction in which an instance is persisted. Nothing looks at how many rows there were. -/
def persist (w : WorkflowInstance) (subscriptions : List SubscriptionRow) : Fallible Unit := do
  query .begin
  inTransaction do
    let _ ← query (.updateWorkflow (workflowRow cols w))
    let _ ← query (.deletePointers w.id)
    insertPointers cols w.id w.executionPointers
    insertSubscriptions subscriptions
    query .commit

def persistWorkflow (w : WorkflowInstance) : Fallible Unit := persist cols w []

/-- `uuid k` is drawn for the subscription `k`. -/
def persistWorkflowWithSubscriptions (uuid : ℕ → String) (w : WorkflowInstance)
    (subscriptions : List EventSubscription) : Fallible Unit :=
  persist cols w (subscriptions.mapIdx fun k sub => subscriptionRow cols (uuid k) sub)

def loadPointers (workflowId : String) : Fallible (List ExecutionPointer) := do
  let rows ← query (.selectPointers workflowId)
  ExceptT.mk (pure (rows.mapM rowToPointer))

def getWorkflowInstance (id : String) : Fallible WorkflowInstance := do
  match ← query (.selectWorkflow id) with
  | none => throw (.workflowNotFound id)
  | some row =>
    let pointers ← loadPointers id
    ExceptT.mk (pure (rowToWorkflow row pointers))

end Provider

/-! ## The tables -/

structure Database where
  workflows : List WorkflowRow := []
  executionPointers : List PointerRow := []
  eventSubscriptions : List SubscriptionRow := []
deriving DecidableEq, Repr

/-- What statements do to the tables. Rows are deleted that a statement has found. -/
inductive Write
  | insertWorkflow (row : WorkflowRow)
  | updateWorkflow (row : WorkflowRow)
  | deletePointers (workflowId : String) (ids : List String)
  | insertPointer (row : PointerRow)
  | insertSubscription (row : SubscriptionRow)
deriving DecidableEq, Repr

namespace Write

def apply (db : Database) : Write → Database
  | insertWorkflow row => { db with workflows := db.workflows ++ [row] }
  | updateWorkflow row =>
    { db with workflows := db.workflows.map fun r => if r.id = row.id then row else r }
  | deletePointers workflowId ids =>
    { db with
      executionPointers :=
        db.executionPointers.filter fun r => ¬(r.workflowId = workflowId ∧ r.id ∈ ids) }
  | insertPointer row => { db with executionPointers := db.executionPointers ++ [row] }
  | insertSubscription row => { db with eventSubscriptions := db.eventSubscriptions ++ [row] }

/-- The row of `workflows` that is written. -/
def header : Write → Option WorkflowRow
  | insertWorkflow row | updateWorkflow row => some row
  | _ => none

/-- The row of `execution_pointers` that is inserted. -/
def pointer : Write → Option PointerRow
  | insertPointer row => some row
  | _ => none

/-- The keys of `execution_pointers` that are written. -/
def pointerIds : Write → List String
  | insertPointer row => [row.id]
  | deletePointers _ ids => ids
  | _ => []

def subscriptionId : Write → Option String
  | insertSubscription row => some row.id
  | _ => none

/-- Two writes of one row, or of one value in a unique column. -/
def conflict (w w' : Write) : Bool :=
  (w.header.any fun row => w'.header.any fun row' => row.id = row'.id ∨ row.name = row'.name) ||
  (w.pointerIds.any fun id => id ∈ w'.pointerIds) ||
  (w.subscriptionId.isSome && w.subscriptionId = w'.subscriptionId)

/-- A unique column would have a value twice, or a pointer would refer to no workflow. -/
def violates (db : Database) : Write → Bool
  | insertWorkflow row => db.workflows.any fun r => r.id = row.id ∨ r.name = row.name
  | updateWorkflow row => db.workflows.any fun r => r.id ≠ row.id ∧ r.name = row.name
  | deletePointers _ _ => false
  | insertPointer row =>
    (db.executionPointers.any fun r => r.id = row.id) ||
      !(db.workflows.any fun r => r.id = row.workflowId)
  | insertSubscription row => db.eventSubscriptions.any fun r => r.id = row.id

end Write

/-- The tables after writes. -/
def replay (ws : List Write) : Database := ws.foldl Write.apply {}

/-! ## The server -/

/-- The tables as everyone sees them. -/
def tables (s : Server Write) : Database := replay s.log.flatten

/-- The tables as the transaction of `t` sees them. -/
def tablesOf (s : Server Write) (t : ℕ) : Database := replay (s.seen t)

/-- How a statement ends, and the order in which rows come. -/
structure Oracle where
  fault : Fault := .none
  order : List PointerRow → List PointerRow := id

section Execute

variable (s : Server Write) (t : ℕ)

/-- A statement that writes. -/
def write {α : Type} (w : Write) (affected : α) : Option (Except String α × Server Write) :=
  match s.status t with
  | .closed => some (.error "no transaction", s)
  | .aborted => some (.error "current transaction is aborted", s)
  | .opened =>
    if s.waits t Write.conflict w then none
    else if w.violates (tablesOf s t) then some (.error "constraint violated", s.discard t .aborted)
    else some (.ok affected, s.write t w)

/-- A statement of a transaction that finds no rows. -/
def writeNothing : Option (Except String ℕ × Server Write) :=
  match s.status t with
  | .closed => some (.error "no transaction", s)
  | .aborted => some (.error "current transaction is aborted", s)
  | .opened => some (.ok 0, s)

/-- What the server does for a statement, if it need not wait. -/
def execute (order : List PointerRow → List PointerRow) :
    (c : Statement) → Option (Except String c.Answer × Server Write)
  | .begin =>
    match s.status t with
    | .closed => some (.ok (), s.setStatus t .opened)
    | _ => some (.error "already in a transaction", s)
  | .insertWorkflow row => write s t (.insertWorkflow row) ()
  | .updateWorkflow row =>
    if (tablesOf s t).workflows.any fun r => r.id = row.id then
      write s t (.updateWorkflow row) 1
    else writeNothing s t
  | .deletePointers workflowId =>
    let ids := ((tablesOf s t).executionPointers.filter fun r => r.workflowId = workflowId).map
      PointerRow.id
    write s t (.deletePointers workflowId ids) ids.length
  | .insertPointer row => write s t (.insertPointer row) ()
  | .insertSubscription row => write s t (.insertSubscription row) ()
  | .commit =>
    match s.status t with
    | .opened => some (.ok (), s.commit t)
    | _ => some (.error "no transaction", s.discard t .closed)
  | .rollback => some (.ok (), s.discard t .closed)
  | .selectWorkflow id => some (.ok ((tables s).workflows.find? fun r => r.id = id), s)
  | .selectPointers workflowId =>
    let rows := (tables s).executionPointers.filter fun r => r.workflowId = workflowId
    if (order rows).isPerm rows then some (.ok (order rows), s) else none

/-- A statement on the connection of the transaction. The others take one from the pool. -/
def Statement.inTransaction : Statement → Bool
  | .begin | .selectWorkflow _ | .selectPointers _ => false
  | _ => true

/-- What becomes of a statement; a rollback fails only with the connection. -/
def answer (o : Oracle) (c : Statement) : Option (Except String c.Answer × Server Write) :=
  let ended (s : Server Write) := if c.inTransaction then s.discard t .closed else s
  match o.fault with
  | .none => execute s t o.order c
  | .refused e =>
    if c = .rollback then none
    else some (.error e, if c.inTransaction then s.discard t .aborted else s)
  | .lostBefore e => some (.error e, ended s)
  | .lostAfter e => (execute s t o.order c).map fun r =>
      (.error e, if c = .begin then r.2.discard t .closed else ended r.2)

end Execute

/-! ## Callers -/

inductive Call
  | create (uuid : String) (w : WorkflowInstance)
  | persist (w : WorkflowInstance)
  | persistWithSubscriptions (uuid : ℕ → String) (w : WorkflowInstance)
      (subscriptions : List EventSubscription)
  | get (id : String)

inductive Outcome
  | idle
  | created (uuid : String) (w : WorkflowInstance) (r : Except WfeError String)
  | persisted (w : WorkflowInstance) (r : Except WfeError Unit)
  | got (id : String) (r : Except WfeError WorkflowInstance)

def program (cols : Columns) : Call → Program Statements Outcome
  | .create uuid w => (createNewWorkflow cols uuid w).run >>= fun r => pure (.created uuid w r)
  | .persist w => (persistWorkflow cols w).run >>= fun r => pure (.persisted w r)
  | .persistWithSubscriptions uuid w subscriptions =>
    (persistWorkflowWithSubscriptions cols uuid w subscriptions).run >>=
      fun r => pure (.persisted w r)
  | .get id => (getWorkflowInstance id).run >>= fun r => pure (.got id r)

/-- Any number of callers. -/
abbrev store (cols : Columns) : Machine Statements where
  Op := Call
  Outcome := Outcome
  idle := .idle
  State := Server Write
  Oracle := Oracle
  program := program cols
  answer := fun o t s c => answer s t o c

/-! ## What is read back -/

/-- What is left of a pointer that is stored. -/
def storedPointer (cols : Columns) (p : ExecutionPointer) : ExecutionPointer :=
  { p with
    stepId := Subscriptions.asI32 p.stepId
    sleepUntil := p.sleepUntil.map cols.time
    persistenceData := p.persistenceData.map cols.document
    startTime := p.startTime.map cols.time
    endTime := p.endTime.map cols.time
    eventData := p.eventData.map cols.document
    retryCount := p.retryCount % 2 ^ 32
    contextItem := p.contextItem.map cols.document
    outcome := p.outcome.map cols.document
    extensionAttributes :=
      match cols.document (.object p.extensionAttributes) with
      | .object m => m
      | _ => [] }

/-- What is left of an instance that is stored. -/
def stored (cols : Columns) (w : WorkflowInstance) : WorkflowInstance :=
  { w with
    version := w.version % 2 ^ 32
    executionPointers := w.executionPointers.map (storedPointer cols)
    data := cols.document w.data
    createTime := cols.time w.createTime
    completeTime := w.completeTime.map cols.time }

/-- `JSONB` keeps lists of strings, and objects are objects. -/
structure Documents (cols : Columns) : Prop where
  strings : ∀ ss, cols.document (stringsValue ss) = stringsValue ss
  object : ∀ m, ∃ m', cols.document (.object m) = .object m'

section ReadBack

variable {cols : Columns}

theorem toNat_bmod_emod_self (n m : ℕ) : ((n : Int).bmod m % (m : Int)).toNat = n % m := by
  rw [Int.bmod_emod, ← Int.natCast_emod, Int.toNat_natCast]

theorem asUnsigned_asI32 (n : ℕ) : Sql.asUnsigned 32 (asI32 n) = n % 2 ^ 32 :=
  toNat_bmod_emod_self n (2 ^ 32)

/-- A `usize` that has gone through an `i32`. -/
theorem asUnsigned_64_asI32 (n : ℕ) : Sql.asUnsigned 64 (asI32 n) = Subscriptions.asI32 n := by
  unfold Sql.asUnsigned asI32 Subscriptions.asI32
  rw [Int.bmod_def]
  split_ifs <;> omega

theorem strToStatus_statusToStr (status : WorkflowStatus) :
    strToStatus (statusToStr status) = .ok status := by
  cases status <;> decide

theorem strToPointerStatus_pointerStatusToStr (status : PointerStatus) :
    strToPointerStatus (pointerStatusToStr status) = .ok status := by
  cases status <;> decide

theorem strings_stringsValue (ss : List String) : strings (stringsValue ss) = .ok ss :=
  Sqlite.mapM_map_ok fun _ _ => rfl

/-- **A pointer row is read back.** -/
theorem rowToPointer_pointerRow (hcols : Documents cols) (workflowId : String)
    (p : ExecutionPointer) : rowToPointer (pointerRow cols workflowId p) =
      .ok (storedPointer cols p) := by
  obtain ⟨m, hm⟩ := hcols.object p.extensionAttributes
  unfold rowToPointer pointerRow
  simp only [hcols.strings, strings_stringsValue, hm, attributes, deserialized,
    strToPointerStatus_pointerStatusToStr, asUnsigned_asI32, asUnsigned_64_asI32, Except.mapError,
    bind, Except.bind, storedPointer]
  rfl

/-- **A workflow row is read back.** -/
theorem rowToWorkflow_workflowRow (w : WorkflowInstance) (pointers : List ExecutionPointer) :
    rowToWorkflow (workflowRow cols w) pointers =
      .ok { stored cols w with executionPointers := pointers } := by
  unfold rowToWorkflow workflowRow
  simp only [strToStatus_statusToStr, asUnsigned_asI32, bind, Except.bind, stored]
  rfl

theorem mapM_eq_ok {ε α β : Type} {f : α → Except ε β} {as : List α} {bs : List β}
    (h : List.Forall₂ (fun a b => f a = .ok b) as bs) : as.mapM f = .ok bs := by
  induction h with
  | nil => rfl
  | cons hab _ ih =>
    rw [List.mapM_cons, hab, ih]
    rfl

/-- **The rows of the pointers are read back**, in the order in which they come. -/
theorem mapM_rowToPointer (hcols : Documents cols) {w : WorkflowInstance} {rows : List PointerRow}
    (hrows : rows.Perm (w.executionPointers.map (pointerRow cols w.id))) :
    ∃ ps, rows.mapM rowToPointer = .ok ps ∧ ps.Perm (stored cols w).executionPointers := by
  have hread : List.Forall₂ (fun row p => rowToPointer row = .ok p)
      (w.executionPointers.map (pointerRow cols w.id)) (stored cols w).executionPointers := by
    unfold stored
    rw [List.forall₂_map_left_iff, List.forall₂_map_right_iff]
    apply List.forall₂_same.mpr
    intro p _
    exact rowToPointer_pointerRow hcols w.id p
  obtain ⟨ps, hps, hperm⟩ := List.perm_comp_forall₂ hrows hread
  exact ⟨ps, mapM_eq_ok hps, hperm⟩

end ReadBack

end Wfe.Postgres
