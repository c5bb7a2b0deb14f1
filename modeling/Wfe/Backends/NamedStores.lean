import Wfe.Backends.SqliteInstances
import Wfe.Host.Starts

/-!
# Two stores of named instances

The in-memory store and the SQLite store, as starts and lookups see them. In memory nothing is asked
of names; in SQLite the column of names is declared unique, so a second instance of a name is
refused. Both number the instances of a definition by a counter of their own.

## Main definitions

* `inMemory`: the in-memory store
* `Sqlite.State`, `sqlite`: the SQLite store with its counters

## Main results

* `inMemory_lawful`, `sqlite_lawful`: both do what starts and lookups ask of them
-/

namespace Wfe

/-! ## In memory -/

/-- The in-memory provider. It does not look at the ids of pointers. -/
def inMemory : Store where
  State := Shared
  empty := .empty
  answer o σ := σ.answer o 0
  named σ := σ.workflows.map fun w => (w.id, w.name)
  pointerIds _ := []
  sequence := Shared.sequence
  uniqueNames := false

section InMemory

variable {o : Oracle} {σ : inMemory.State}

theorem mem_named_inMemory {id name : String} :
    (id, name) ∈ inMemory.named σ ↔ ∃ w ∈ σ.workflows, w.id = id ∧ w.name = name := by
  simp [inMemory]

theorem ids_inMemory : (inMemory.named σ).map Prod.fst = σ.workflows.map WorkflowInstance.id := by
  simp [inMemory, Function.comp_def]

theorem names_inMemory :
    (inMemory.named σ).map Prod.snd = σ.workflows.map WorkflowInstance.name := by
  simp [inMemory, Function.comp_def]

/-- A request that does not fail. -/
theorem answer_inMemory {q : Request} {v : Except WfeError q.Value} (ho : o.failure = none)
    (hv : Shared.answered o σ q = some v) :
    inMemory.answer o σ (.request q) = some (v, Shared.effect 0 σ (.request q) v) := by
  refine Shared.answer_eq_some.mpr ⟨?_, rfl⟩
  simp only [Shared.reply, ho]
  exact hv

theorem workflow_eq_none {id : String} (h : id ∉ σ.workflows.map WorkflowInstance.id) :
    Shared.workflow σ id = none := by
  refine Table.get_eq_none.mpr fun w hw hid => h ?_
  rw [← hid]
  exact List.mem_map_of_mem hw

/-- `next_definition_sequence` counts the instances of one definition. -/
theorem next_inMemory (ho : o.failure = none) (definitionId : String) :
    ∃ σ', inMemory.answer o σ (.request (.nextDefinitionSequence definitionId)) =
        some (.ok (inMemory.sequence σ definitionId + 1), σ') ∧
      Shared.workflows σ' = Shared.workflows σ ∧
      inMemory.sequence σ' = Function.update (inMemory.sequence σ) definitionId
        (inMemory.sequence σ definitionId + 1) := by
  refine ⟨_, answer_inMemory ho rfl, rfl, funext fun definitionId' => ?_⟩
  show Shared.sequence _ definitionId' = _
  simp only [Shared.sequence, Shared.effect, Shared.granted, Table.get_put]
  by_cases hid : definitionId = definitionId'
  · subst hid
    simp [inMemory, Shared.sequence]
  · rw [if_neg hid, Function.update_of_ne (Ne.symm hid)]
    rfl

/-- `create_new_workflow` appends an instance whose id is new. -/
theorem create_inMemory {w : WorkflowInstance} (ho : o.failure = none) (hid : w.id ≠ "")
    (hname : w.name ≠ "") (hnew : w.id ∉ (Shared.workflows σ).map WorkflowInstance.id) :
    ∃ σ', inMemory.answer o σ (.request (.createNewWorkflow w)) = some (.ok w.id, σ') ∧
      Shared.workflows σ' = Shared.workflows σ ++ [w] ∧
      inMemory.sequence σ' = inMemory.sequence σ := by
  have hnone := workflow_eq_none hnew
  have hput : Table.put WorkflowInstance.id (Shared.named w.id w) (Shared.workflows σ) =
      Shared.workflows σ ++ [w] := by
    have hnamed : Shared.named w.id w = w := by simp [Shared.named, hname]
    rw [hnamed]
    refine Table.put_of_forall_ne fun u hu huid => hnew ?_
    rw [← huid]
    exact List.mem_map_of_mem hu
  refine ⟨Shared.effect 0 σ (.request (.createNewWorkflow w)) (.ok w.id),
    answer_inMemory ho ?_, ?_, rfl⟩
  · simp [Shared.answered, Shared.newId, hid, hnone]
  · simp only [Shared.effect, Shared.granted, hput]

/-- `get_workflow_instance` finds the instance of an id, and no other. -/
theorem get_inMemory (ho : o.failure = none) (id : String) :
    (id ∉ (inMemory.named σ).map Prod.fst ∧
      inMemory.answer o σ (.request (.getWorkflowInstance id)) =
        some (.error (.workflowNotFound id), σ)) ∨
    ∃ w, (id, w.name) ∈ inMemory.named σ ∧ w.id = id ∧
      inMemory.answer o σ (.request (.getWorkflowInstance id)) = some (.ok w, σ) := by
  cases hget : Shared.workflow σ id with
  | none =>
    refine .inl ⟨?_, answer_inMemory ho (by simp [Shared.answered, hget])⟩
    rw [ids_inMemory]
    intro hmem
    obtain ⟨w, hw, rfl⟩ := List.mem_map.1 hmem
    exact Table.get_eq_none.mp hget w hw rfl
  | some w =>
    have hid : w.id = id := Table.key_of_get hget
    refine .inr ⟨w, mem_named_inMemory.2 ⟨w, Table.mem_of_get hget, hid, rfl⟩, hid, ?_⟩
    exact answer_inMemory ho (by simp [Shared.answered, hget])

/-- `get_workflow_instance_by_name` finds some instance of the name, if there is one. -/
theorem getByName_inMemory {name : String} {r : Except WfeError WorkflowInstance}
    {σ' : inMemory.State} (ho : o.failure = none) (hname : name ∈ (inMemory.named σ).map Prod.snd)
    (hanswer : inMemory.answer o σ (.request (.getWorkflowInstanceByName name)) = some (r, σ')) :
    ∃ w, r = .ok w ∧ (w.id, name) ∈ inMemory.named σ ∧ w.name = name ∧ σ' = σ := by
  rw [names_inMemory] at hname
  obtain ⟨u, hu, huname⟩ := List.mem_map.1 hname
  obtain ⟨hreply, rfl⟩ := Shared.answer_eq_some.mp hanswer
  simp only [Shared.reply, ho, Shared.answered, Shared.workflowByName] at hreply
  split at hreply
  · next w hfound =>
    obtain ⟨hget, hwname⟩ := Option.filter_eq_some_iff.1 hfound
    cases hreply
    have hwname := of_decide_eq_true hwname
    exact ⟨w, rfl, mem_named_inMemory.2 ⟨w, Table.mem_of_get hget, rfl, hwname⟩, hwname, rfl⟩
  · -- There is an instance of the name, so the search does not end without one.
    rw [if_pos (List.any_eq_true.2 ⟨u, hu, decide_eq_true huname⟩)] at hreply
    cases hreply

/-- **The in-memory store does what starts and lookups ask of it.** -/
theorem inMemory_lawful : inMemory.Lawful (fun _ => True)
    fun σ : Shared => (σ.workflows.map WorkflowInstance.id).Nodup where
  valid_empty := .nil
  named_empty := rfl
  sequence_empty _ := rfl
  ambient o σ hne := Shared.answer_eq_some.mpr ⟨by simp [Shared.reply, hne], rfl⟩
  publish _ _ _ := rfl
  queue o σ id queue ho hσ := ⟨_, answer_inMemory ho rfl, hσ, rfl, rfl⟩
  next o σ definitionId ho hσ := by
    obtain ⟨σ', hanswer, hworkflows, hsequence⟩ := next_inMemory (σ := σ) ho definitionId
    have hnamed : inMemory.named σ' = inMemory.named σ := by
      simp only [inMemory, hworkflows]
    exact ⟨σ', hanswer, hworkflows ▸ hσ, hnamed, rfl, hsequence⟩
  refuse o σ w _ _ _ _ hrefuses := absurd hrefuses.1 Bool.false_ne_true
  create o σ w ho hσ hid hname _ hnew _ _ _ := by
    rw [ids_inMemory] at hnew
    obtain ⟨σ', hanswer, hworkflows, hsequence⟩ := create_inMemory ho hid hname hnew
    refine ⟨σ', hanswer, ?_, ?_, hsequence⟩
    · rw [hworkflows, List.map_append]
      exact List.nodup_append.2 ⟨hσ, List.pairwise_singleton _ _, fun x hx y hy => by
        rw [List.map_singleton, List.mem_singleton] at hy
        rintro rfl
        exact hnew (by rwa [hy] at hx)⟩
    · simp only [inMemory, hworkflows, List.map_append]
      rfl
  get o σ id ho hσ := get_inMemory ho id
  getByName o σ name r σ' ho hσ hname hanswer := getByName_inMemory ho hname hanswer
  getByName_exists σ name hσ hname := by
    rw [names_inMemory] at hname
    obtain ⟨w, hw, rfl⟩ := List.mem_map.1 hname
    have hget : Shared.workflow σ w.id = some w := Table.get_of_mem hσ hw
    -- The choice of the search falls on this instance.
    refine ⟨{ ambient := default, choice := w.id }, .ok w, rfl, ?_⟩
    refine answer_inMemory rfl ?_
    simp [Shared.answered, Shared.workflowByName, hget, Option.filter]

end InMemory

/-! ## SQLite -/

namespace Sqlite

/-- The tables of instances, and the last number drawn for each definition. -/
structure State where
  database : Database
  definitionSequences : List (String × Nat)

section Provider

variable (T : Texts)

/-- `get_workflow_instance_by_name`. -/
def getWorkflowInstanceByName (name : String) (db : Database) : Except WfeError WorkflowInstance :=
  match (Sql.select (fun row => row.has "name" (.text name)) db.workflows).head? with
  | none => .error (.workflowNotFound name)
  | some row => do
    let id ← toPersistenceErr (row.text "id")
    getWorkflowInstance T id db

/-- `next_definition_sequence`: the number is 1 in a row that is inserted, and one more in a row
that is there. -/
def nextDefinitionSequence (definitionId : String) (rows : List (String × Nat)) :
    Nat × List (String × Nat) :=
  let next :=
    match Table.get Prod.fst rows definitionId with
    | none => 1
    | some row => row.2 + 1
  (next, Table.put Prod.fst (definitionId, next) rows)

/-- The answers to the calls of starts and of lookups; the others are not made by them. -/
def answer (o : Oracle) (s : State) : (c : Wfe.Call) → Option (c.Reply × State)
  | .ambient => if o.ambient.uuid 0 = "" then none else some (o.ambient, s)
  | .trace _ | .publishLifecycle _ => some ((), s)
  | .external _ => none
  | .request q =>
    match o.failure with
    | some e => some (.error e, s)
    | none =>
      match q with
      | .queueWork _ _ => some (.ok (), s)
      | .createNewWorkflow w =>
        let (r, database) := createNewWorkflow T (o.ambient.uuid 0) w s.database
        some (r, { s with database })
      | .getWorkflowInstance id => some (getWorkflowInstance T id s.database, s)
      | .getWorkflowInstanceByName name => some (getWorkflowInstanceByName T name s.database, s)
      | .nextDefinitionSequence definitionId =>
        let (n, definitionSequences) := nextDefinitionSequence definitionId s.definitionSequences
        some (.ok n, { s with definitionSequences })
      | _ => none

/-- The text in a column. -/
def textOf (row : Sql.Row) (column : String) : String := (row.text column).toOption.getD ""

end Provider

end Sqlite

/-- The SQLite provider. -/
def sqlite (T : Sqlite.Texts) : Store where
  State := Sqlite.State
  empty := ⟨{}, []⟩
  answer := Sqlite.answer T
  named s := s.database.workflows.map fun row =>
    (Sqlite.textOf row "id", Sqlite.textOf row "name")
  pointerIds s := s.database.executionPointers.map fun row => Sqlite.textOf row "id"
  sequence s definitionId :=
    ((Table.get Prod.fst s.definitionSequences definitionId).map Prod.snd).getD 0
  uniqueNames := true

section Sqlite

open Sqlite

variable {T : Texts} {o : Oracle} {s : (sqlite T).State} {insts : List WorkflowInstance}

/-- The rows are those of instances that can be read back. -/
def SqliteValid (T : Texts) (s : (sqlite T).State) : Prop :=
  ∃ insts, Represents T s.database insts ∧ ∀ w ∈ insts, Fits w ∧ Readable T w

theorem named_sqlite (h : Represents T s.database insts) :
    (sqlite T).named s = insts.map fun w => (w.id, w.name) := by
  show List.map _ s.database.workflows = _
  rw [h.workflows, List.map_map]
  rfl

theorem pointerIds_sqlite (h : Represents T s.database insts) {w : WorkflowInstance}
    {p : ExecutionPointer} (hw : w ∈ insts) (hp : p ∈ w.executionPointers) :
    p.id ∈ (sqlite T).pointerIds s :=
  List.mem_map.2 ⟨_, h.mem_executionPointers.2 ⟨w, hw, p, hp, rfl⟩, rfl⟩

/-- What a request of a start or a lookup is answered. -/
theorem answer_queueWork (ho : o.failure = none) (id : String) (queue : QueueType) :
    (sqlite T).answer o s (.request (.queueWork id queue)) = some (.ok (), s) := by
  simp only [sqlite, answer, ho]

theorem workflowRow_has_name (w : WorkflowInstance) (name : String) :
    (workflowRow T w).has "name" (.text name) = decide (w.name = name) := by
  show decide (some (Sql.Value.text w.name) = some (.text name)) = _
  simp

/-- Looking for an instance that is not there. -/
theorem getWorkflowInstance_of_notMem (h : Represents T s.database insts) {id : String}
    (hid : id ∉ insts.map WorkflowInstance.id) :
    Sqlite.getWorkflowInstance T id s.database = .error (.workflowNotFound id) := by
  have hnone : (Sql.select (fun row => row.has "id" (.text id)) s.database.workflows).head? =
      none := by
    rw [h.workflows, Sql.select, List.head?_eq_none_iff, List.filter_eq_nil_iff]
    intro row hrow hhas
    obtain ⟨w, hw, rfl⟩ := List.mem_map.1 hrow
    rw [workflowRow_has_id, decide_eq_true_eq] at hhas
    exact hid (hhas ▸ List.mem_map_of_mem hw)
  rw [Sqlite.getWorkflowInstance, hnone]

/-- Looking for an instance by its name. -/
theorem getWorkflowInstanceByName_of_mem (h : Represents T s.database insts)
    {w : WorkflowInstance} (hw : w ∈ insts) (hfits : Fits w) (hread : Readable T w) :
    Sqlite.getWorkflowInstanceByName T w.name s.database = .ok w := by
  have hrow : (Sql.select (fun row => row.has "name" (.text w.name)) s.database.workflows).head? =
      some (workflowRow T w) := by
    rw [h.workflows, Sql.select, List.head?_filter, List.find?_map]
    have hname : (fun row : Sql.Row => row.has "name" (.text w.name)) ∘ workflowRow T =
        fun u : WorkflowInstance => decide (u.name = w.name) :=
      funext fun u => workflowRow_has_name u w.name
    have hfound : insts.find? (fun u => decide (u.name = w.name)) = some w :=
      Table.get_of_mem h.names hw
    rw [hname, hfound]
    rfl
  rw [Sqlite.getWorkflowInstanceByName, hrow]
  exact h.getWorkflowInstance hw hfits hread

/-- `next_definition_sequence` counts the instances of one definition. -/
theorem next_sqlite (ho : o.failure = none) (definitionId : String) :
    ∃ rows, (sqlite T).answer o s (.request (.nextDefinitionSequence definitionId)) =
        some (.ok ((sqlite T).sequence s definitionId + 1), ⟨s.database, rows⟩) ∧
      (sqlite T).sequence ⟨s.database, rows⟩ = Function.update ((sqlite T).sequence s) definitionId
        ((sqlite T).sequence s definitionId + 1) := by
  have hnext : (Sqlite.nextDefinitionSequence definitionId s.definitionSequences).1 =
      (sqlite T).sequence s definitionId + 1 := by
    simp only [Sqlite.nextDefinitionSequence, sqlite]
    cases Table.get Prod.fst s.definitionSequences definitionId <;> rfl
  refine ⟨(Sqlite.nextDefinitionSequence definitionId s.definitionSequences).2, ?_,
    funext fun definitionId' => ?_⟩
  · rw [← hnext]
    simp only [sqlite, answer, ho]
  · rw [← hnext]
    simp only [sqlite, Sqlite.nextDefinitionSequence, Table.get_put]
    by_cases hid : definitionId = definitionId'
    · subst hid
      simp
    · rw [if_neg hid, Function.update_of_ne (Ne.symm hid)]

/-- A name that is taken fails the UNIQUE column. -/
theorem refuse_sqlite {w : WorkflowInstance} (h : Represents T s.database insts)
    (ho : o.failure = none) (hid : w.id ≠ "") (hname : w.name ≠ "")
    (hrefuses : (sqlite T).Refuses s w.name) :
    ∃ e, (sqlite T).answer o s (.request (.createNewWorkflow w)) = some (.error e, s) := by
  have hmem := hrefuses.2
  rw [named_sqlite h, List.map_map] at hmem
  obtain ⟨u, hu, huname⟩ := List.mem_map.1 hmem
  cases hinsert : Sqlite.insertWorkflow T w s.database with
  | ok db' => exact absurd huname (h.insertWorkflow_ok_iff.1 ⟨db', hinsert⟩ |>.1 u hu).2
  | error e =>
    refine ⟨e, ?_⟩
    simp only [sqlite, answer, ho, Sqlite.createNewWorkflow, withIdAndName_eq hid hname, hinsert]
    rfl

/-- `create_new_workflow` inserts the rows of an instance whose keys are all new. -/
theorem create_sqlite {w : WorkflowInstance} (h : Represents T s.database insts)
    (ho : o.failure = none) (hid : w.id ≠ "") (hname : w.name ≠ "")
    (hnew : w.id ∉ insts.map WorkflowInstance.id)
    (hnames : w.name ∉ insts.map WorkflowInstance.name)
    (hnodup : (w.executionPointers.map ExecutionPointer.id).Nodup)
    (hpointers : ∀ p ∈ w.executionPointers, p.id ∉ (sqlite T).pointerIds s) :
    ∃ db', (sqlite T).answer o s (.request (.createNewWorkflow w)) =
        some (.ok w.id, { s with database := db' }) ∧ Represents T db' (insts ++ [w]) := by
  have hfree (u : WorkflowInstance) (hu : u ∈ insts) : u.id ≠ w.id ∧ u.name ≠ w.name :=
    ⟨fun huid => hnew (huid ▸ List.mem_map_of_mem hu),
      fun huname => hnames (huname ▸ List.mem_map_of_mem hu)⟩
  obtain ⟨db', hinsert⟩ := h.insertWorkflow_ok_iff.2 ⟨hfree, hnodup,
    fun u hu p hp q hq hpq => hpointers q hq (hpq ▸ pointerIds_sqlite h hu hp)⟩
  refine ⟨db', ?_, h.insertWorkflow hinsert⟩
  simp only [sqlite, answer, ho, Sqlite.createNewWorkflow, withIdAndName_eq hid hname, hinsert]

/-- **The SQLite store does what starts and lookups ask of it**, with instances whose data can be
read back. -/
theorem sqlite_lawful (T : Texts) :
    (sqlite T).Lawful (fun w => Fits w ∧ Readable T w) (SqliteValid T) where
  valid_empty := ⟨[], .empty, by simp⟩
  named_empty := rfl
  sequence_empty _ := rfl
  ambient o s hne := if_neg hne
  publish _ _ _ := rfl
  queue o s id queue ho hs := ⟨s, answer_queueWork ho id queue, hs, rfl, rfl⟩
  next o s definitionId ho hs := by
    obtain ⟨rows, hanswer, hsequence⟩ := next_sqlite (s := s) ho definitionId
    exact ⟨_, hanswer, hs, rfl, rfl, hsequence⟩
  refuse o s w ho hs hid hname hrefuses := by
    obtain ⟨insts, h, -⟩ := hs
    exact refuse_sqlite h ho hid hname hrefuses
  create o s w ho hs hid hname hreads hnew hnodup hpointers hrefuses := by
    obtain ⟨insts, h, hread⟩ := hs
    rw [named_sqlite h, List.map_map] at hnew
    have hnames : w.name ∉ insts.map WorkflowInstance.name := fun hmem => hrefuses ⟨rfl, by
      rwa [named_sqlite h, List.map_map]⟩
    obtain ⟨db', hanswer, h'⟩ := create_sqlite h ho hid hname hnew hnames hnodup hpointers
    refine ⟨_, hanswer, ⟨insts ++ [w], h', ?_⟩, ?_, rfl⟩
    · intro u hu
      rcases List.mem_append.1 hu with hu | hu
      · exact hread u hu
      · exact List.mem_singleton.1 hu ▸ hreads
    · rw [named_sqlite (s := { s with database := db' }) h', named_sqlite h, List.map_append]
      rfl
  get o s id ho hs := by
    obtain ⟨insts, h, hread⟩ := hs
    by_cases hid : id ∈ insts.map WorkflowInstance.id
    · obtain ⟨w, hw, rfl⟩ := List.mem_map.1 hid
      refine .inr ⟨w, ?_, rfl, ?_⟩
      · rw [named_sqlite h]
        exact List.mem_map_of_mem hw
      · simp only [sqlite, answer, ho, h.getWorkflowInstance hw (hread w hw).1 (hread w hw).2]
    · refine .inl ⟨?_, ?_⟩
      · rwa [named_sqlite h, List.map_map]
      · simp only [sqlite, answer, ho, getWorkflowInstance_of_notMem h hid]
  getByName o s name r s' ho hs hname hanswer := by
    obtain ⟨insts, h, hread⟩ := hs
    rw [named_sqlite h, List.map_map] at hname
    obtain ⟨w, hw, rfl⟩ := List.mem_map.1 hname
    -- Names are unique, so it is this instance that the query finds.
    have hfound := getWorkflowInstanceByName_of_mem h hw (hread w hw).1 (hread w hw).2
    simp only [sqlite, answer, ho] at hanswer
    obtain ⟨rfl, rfl⟩ := Prod.mk.inj (Option.some_inj.1 hanswer)
    refine ⟨w, hfound, ?_, rfl, rfl⟩
    rw [named_sqlite h]
    exact List.mem_map_of_mem hw
  getByName_exists s name hs hname :=
    ⟨{ ambient := default }, Sqlite.getWorkflowInstanceByName T name s.database, rfl, rfl⟩

end Sqlite

end Wfe
