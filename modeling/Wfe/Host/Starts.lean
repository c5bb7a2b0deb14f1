import Wfe.Host.WorkflowHost
import Wfe.Library.Directory
import Wfe.Library.Execution

/-!
# Starting instances, one after the other

The three ways to start an instance, run against a store of their own: a persistence provider as far
as starts and lookups use it. What a start does to a store that keeps its laws is said once here,
for all such stores: the instance gets a name, its own or the next one of its definition, and is
stored under a new UUID, unless the store refuses a name that is taken.

## Main definitions

* `StartRequest`: the starts, and `StartRequest.assigned`: the names they assign
* `Store`, `Store.Lawful`: stores, and what they are to do
* `Store.Run`: starts one after the other

## Main results

* `Store.Lawful.start`: what a start does
* `Store.Lawful.finds`: what a lookup by name finds
-/

namespace Wfe

open Program Provider

/-- `start_workflow`: names the instance by its definition. -/
def WorkflowHost.startWorkflow (h : WorkflowHost) (definitionId : String) (version : Nat)
    (data : Json) : Fallible String :=
  h.startWorkflowWithName definitionId version data none

inductive StartRequest
  | start (definitionId : String) (version : Nat) (data : Json)
  | startWithName (definitionId : String) (version : Nat) (data : Json)
      (nameOverride : Option String)
  | child (definitionId : String) (version : Nat) (data : Json)
      (parentRootWorkflowId : Option String)

namespace StartRequest

def definitionId : StartRequest → String
  | start definitionId _ _ | startWithName definitionId _ _ _ | child definitionId _ _ _ =>
    definitionId

def version : StartRequest → Nat
  | start _ version _ | startWithName _ version _ _ | child _ version _ _ => version

/-- The name the caller wants. -/
def nameOverride : StartRequest → Option String
  | startWithName _ _ _ nameOverride => nameOverride
  | start _ _ _ | child _ _ _ _ => none

def program (h : WorkflowHost) : StartRequest → Fallible String
  | start definitionId version data => h.startWorkflow definitionId version data
  | startWithName definitionId version data nameOverride =>
    h.startWorkflowWithName definitionId version data nameOverride
  | child definitionId version data parentRootWorkflowId =>
    h.startChild definitionId version data parentRootWorkflowId

/-- The new instance, which has no name yet. -/
def instanceOf (env : Ambient) (definition : WorkflowDefinition) :
    StartRequest → WorkflowInstance
  | start definitionId version data | startWithName definitionId version data _ =>
    WorkflowHost.newInstance env definition definitionId version data
  | child definitionId version data parentRootWorkflowId =>
    WorkflowHost.newChild env definition definitionId version data parentRootWorkflowId

/-- The name that is assigned, after so many automatic ones of each definition. A start of a
definition that is not registered, or with a blank name, fails before that. -/
def assigned (h : WorkflowHost) (sequence : String → Nat) (request : StartRequest) :
    Option String :=
  if (h.registry.getDefinition request.definitionId request.version).isNone then none
  else
    match request.nameOverride with
    | some name => if Text.trim name = "" then none else some name
    | none =>
      let definitionId := request.definitionId
      let n := sequence definitionId + 1
      some s!"{definitionId}-{n}"

/-- The pointers of a new instance have the UUID that was drawn for them. -/
theorem instanceOf_pointers (env : Ambient) (definition : WorkflowDefinition)
    (request : StartRequest) :
    ((request.instanceOf env definition).executionPointers.map ExecutionPointer.id).Nodup ∧
      ∀ p ∈ (request.instanceOf env definition).executionPointers, p.id = env.uuid 1 := by
  cases request <;> by_cases hsteps : definition.steps = [] <;>
    simp [instanceOf, WorkflowHost.newInstance, WorkflowHost.newChild, hsteps,
      ExecutionPointer.new]

/-- Blank names are not assigned. -/
theorem assigned_ne_empty {h : WorkflowHost} {sequence : String → Nat} {request : StartRequest}
    {name : String} (hname : request.assigned h sequence = some name) : name ≠ "" := by
  rintro rfl
  unfold assigned at hname
  split_ifs at hname
  split at hname
  · next name' _ =>
    split_ifs at hname with htrim
    cases hname
    exact htrim (by decide)
  · have hlength := congrArg String.length (Option.some_inj.1 hname)
    simp [String.length_append] at hlength

end StartRequest

/-! ## Stores -/

/-- A store as starts and lookups see it: the instances by ids and names, the ids of pointers, and
the numbers drawn for each definition. -/
structure Store where
  State : Type
  empty : State
  answer : Oracle → State → (c : Call) → Option (c.Reply × State)
  named : State → List (String × String)
  pointerIds : State → List String
  sequence : State → String → Nat
  /-- A second instance of a name is refused. -/
  uniqueNames : Bool

namespace Store

/-- The UUIDs to be drawn are in use neither for an instance nor for a pointer. -/
structure New (S : Store) (σ : S.State) (env : Ambient) : Prop where
  ne_empty : env.uuid 0 ≠ ""
  id : env.uuid 0 ∉ (S.named σ).map Prod.fst
  pointer : env.uuid 1 ∉ S.pointerIds σ

/-- The store refuses the name. -/
def Refuses (S : Store) (σ : S.State) (name : String) : Prop :=
  S.uniqueNames = true ∧ name ∈ (S.named σ).map Prod.snd

/-- The calls of a start and of a lookup do what they are for. `Reads` are the instances that the
store can read back, `Valid` the states it keeps itself in. -/
structure Lawful (S : Store) (Reads : WorkflowInstance → Prop) (Valid : S.State → Prop) :
    Prop where
  valid_empty : Valid S.empty
  named_empty : S.named S.empty = []
  sequence_empty : ∀ definitionId, S.sequence S.empty definitionId = 0
  ambient : ∀ o σ, o.ambient.uuid 0 ≠ "" → S.answer o σ .ambient = some (o.ambient, σ)
  publish : ∀ o σ e, S.answer o σ (.publishLifecycle e) = some ((), σ)
  queue : ∀ o σ id queue, o.failure = none → Valid σ →
    ∃ σ', S.answer o σ (.request (.queueWork id queue)) = some (.ok (), σ') ∧ Valid σ' ∧
      S.named σ' = S.named σ ∧ S.sequence σ' = S.sequence σ
  next : ∀ o σ definitionId, o.failure = none → Valid σ →
    ∃ σ', S.answer o σ (.request (.nextDefinitionSequence definitionId)) =
        some (.ok (S.sequence σ definitionId + 1), σ') ∧ Valid σ' ∧
      S.named σ' = S.named σ ∧ S.pointerIds σ' = S.pointerIds σ ∧
      S.sequence σ' = Function.update (S.sequence σ) definitionId (S.sequence σ definitionId + 1)
  refuse : ∀ o σ w, o.failure = none → Valid σ → w.id ≠ "" → w.name ≠ "" →
    S.Refuses σ w.name →
    ∃ e, S.answer o σ (.request (.createNewWorkflow w)) = some (.error e, σ)
  create : ∀ o σ w, o.failure = none → Valid σ → w.id ≠ "" → w.name ≠ "" → Reads w →
    w.id ∉ (S.named σ).map Prod.fst → (w.executionPointers.map ExecutionPointer.id).Nodup →
    (∀ p ∈ w.executionPointers, p.id ∉ S.pointerIds σ) → ¬S.Refuses σ w.name →
    ∃ σ', S.answer o σ (.request (.createNewWorkflow w)) = some (.ok w.id, σ') ∧ Valid σ' ∧
      S.named σ' = S.named σ ++ [(w.id, w.name)] ∧ S.sequence σ' = S.sequence σ
  get : ∀ o σ id, o.failure = none → Valid σ →
    (id ∉ (S.named σ).map Prod.fst ∧
      S.answer o σ (.request (.getWorkflowInstance id)) =
        some (.error (.workflowNotFound id), σ)) ∨
    ∃ w, (id, w.name) ∈ S.named σ ∧ w.id = id ∧
      S.answer o σ (.request (.getWorkflowInstance id)) = some (.ok w, σ)
  getByName : ∀ o σ name r σ', o.failure = none → Valid σ → name ∈ (S.named σ).map Prod.snd →
    S.answer o σ (.request (.getWorkflowInstanceByName name)) = some (r, σ') →
    ∃ w, r = .ok w ∧ (w.id, name) ∈ S.named σ ∧ w.name = name ∧ σ' = σ
  getByName_exists : ∀ σ name, Valid σ → name ∈ (S.named σ).map Prod.snd →
    ∃ o r, o.failure = none ∧
      S.answer o σ (.request (.getWorkflowInstanceByName name)) = some (r, σ)

/-! ## Starts -/

/-- A start in a run: what was asked for, the state it was made in, the clock and the UUIDs, and
what it returned. -/
structure Start (S : Store) where
  request : StartRequest
  before : S.State
  ambient : Ambient
  result : Except WfeError String

/-- How a start that has a name ends: the store refuses the name, or has an instance more. -/
def Settles (S : Store) (σ σ' : S.State) (id name : String) (r : Except WfeError String) : Prop :=
  (S.Refuses σ name ∧ (∃ e, r = .error e) ∧ S.named σ' = S.named σ) ∨
    (¬S.Refuses σ name ∧ r = .ok id ∧ S.named σ' = S.named σ ++ [(id, name)])

/-- What counts is which names there are before. -/
theorem settles_congr {S : Store} {σ σ₁ σ' : S.State} {id name : String}
    {r : Except WfeError String} (hnamed : S.named σ₁ = S.named σ) :
    S.Settles σ₁ σ' id name r ↔ S.Settles σ σ' id name r := by
  rw [Settles, Settles, Refuses, Refuses, hnamed]

/-- Starts one after the other from an empty store, no call of a provider failing. -/
inductive Run (S : Store) (h : WorkflowHost) : List (Start S) → S.State → Prop
  | nil : Run S h [] S.empty
  | start {log : List (Start S)} {σ σ' : S.State} {request : StartRequest} {o : Oracle}
      {r : Except WfeError String} : Run S h log σ → o.failure = none → S.New σ o.ambient →
      execE (S.answer o) (request.program h) σ = some (r, σ') →
      Run S h (log ++ [⟨request, σ, o.ambient, r⟩]) σ'

/-- Looking for `name` gives the instance `id`: whatever the store's order is, and in some order. -/
def Finds (S : Store) (σ : S.State) (name id : String) : Prop :=
  (∃ o w, o.failure = none ∧ execE (S.answer o) (getWorkflow name) σ = some (.ok w, σ)) ∧
    ∀ o r σ', o.failure = none → execE (S.answer o) (getWorkflow name) σ = some (r, σ') →
      ∃ w, r = .ok w ∧ w.id = id ∧ w.name = name

section Spec

variable {S : Store} {Reads : WorkflowInstance → Prop} {Valid : S.State → Prop} {o : Oracle}
  {σ σ' : S.State} {h : WorkflowHost}

theorem execE_tell {c : Call} {r : c.Reply} (hc : S.answer o σ c = some (r, σ')) :
    execE (S.answer o) (tell c) σ = some (.ok r, σ') := exec_call hc

theorem execE_ask {q : Request} {r : Except WfeError q.Value}
    (hq : S.answer o σ (.request q) = some (r, σ')) :
    execE (S.answer o) (ask q) σ = some (r, σ') := exec_call hq

theorem execE_ask_eq (q : Request) :
    execE (S.answer o) (ask q) σ = S.answer o σ (.request q) := by
  show (S.answer o σ (.request q)).bind some = _
  exact Option.bind_fun_some _

theorem execE_attempt {α : Type} {x : Fallible α} {r : Except WfeError α}
    (hx : execE (S.answer o) x σ = some (r, σ')) :
    execE (S.answer o) (attempt x) σ = some (.ok r, σ') := by
  have hbind : (attempt x).run = x.run >>= fun r => pure (.ok r) := rfl
  unfold execE at hx ⊢
  rw [hbind, exec_bind, hx]
  rfl

/-- A lookup that finds an instance by its id. -/
theorem execE_getWorkflow_of_id {idOrName : String} {w : WorkflowInstance}
    (hget : S.answer o σ (.request (.getWorkflowInstance idOrName)) = some (.ok w, σ)) :
    execE (S.answer o) (getWorkflow idOrName) σ = some (.ok w, σ) := by
  rw [getWorkflow, execE_bind_ok (execE_attempt (execE_ask hget))]
  rfl

/-- A lookup that finds no instance by its id. -/
theorem execE_getWorkflow_of_name {idOrName : String}
    (hget : S.answer o σ (.request (.getWorkflowInstance idOrName)) =
      some (.error (.workflowNotFound idOrName), σ)) :
    execE (S.answer o) (getWorkflow idOrName) σ =
      S.answer o σ (.request (.getWorkflowInstanceByName idOrName)) := by
  rw [getWorkflow, execE_bind_ok (execE_attempt (execE_ask hget))]
  exact execE_ask_eq _

variable (hS : S.Lawful Reads Valid)
include hS

/-- The name of a new instance is assigned. -/
theorem Lawful.instanceName {definitionId : String} {nameOverride : Option String}
    (ho : o.failure = none) (hσ : Valid σ) (hblank : nameOverride.map Text.trim ≠ some "") :
    ∃ σ', execE (S.answer o) (WorkflowHost.instanceName definitionId nameOverride) σ =
        some (.ok (nameOverride.getD s!"{definitionId}-{S.sequence σ definitionId + 1}"), σ') ∧
      Valid σ' ∧ S.named σ' = S.named σ ∧ S.pointerIds σ' = S.pointerIds σ ∧
      S.sequence σ' = if nameOverride = none then
        Function.update (S.sequence σ) definitionId (S.sequence σ definitionId + 1)
      else S.sequence σ := by
  cases nameOverride with
  | some name =>
    have htrim : Text.trim name ≠ "" := fun h => hblank (congrArg some h)
    refine ⟨σ, ?_, hσ, rfl, rfl, rfl⟩
    rw [WorkflowHost.instanceName, if_neg htrim]
    rfl
  | none =>
    obtain ⟨σ', hnext, hvalid, hnamed, hpointers, hsequence⟩ := hS.next o σ definitionId ho hσ
    refine ⟨σ', ?_, hvalid, hnamed, hpointers, hsequence⟩
    exact execE_bind_ok (execE_ask hnext)

/-- The new instance is stored and queued, unless its name is refused. -/
theorem Lawful.createAndQueue {w : WorkflowInstance} {k : String → Fallible String}
    (hk : ∀ id σ, execE (S.answer o) (k id) σ = some (.ok id, σ)) (ho : o.failure = none)
    (hσ : Valid σ) (hid : w.id ≠ "") (hname : w.name ≠ "") (hreads : Reads w)
    (hnew : w.id ∉ (S.named σ).map Prod.fst)
    (hnodup : (w.executionPointers.map ExecutionPointer.id).Nodup)
    (hpointers : ∀ p ∈ w.executionPointers, p.id ∉ S.pointerIds σ) :
    ∃ r σ', execE (S.answer o)
        (createNewWorkflow w >>= fun id => queueWork id .workflow >>= fun _ => k id) σ =
          some (r, σ') ∧
      Valid σ' ∧ S.sequence σ' = S.sequence σ ∧
      S.Settles σ σ' w.id w.name r := by
  by_cases hrefuses : S.Refuses σ w.name
  · obtain ⟨e, hcreate⟩ := hS.refuse o σ w ho hσ hid hname hrefuses
    exact ⟨.error e, σ, execE_bind_error (execE_ask hcreate), hσ, rfl,
      .inl ⟨hrefuses, ⟨e, rfl⟩, rfl⟩⟩
  · obtain ⟨σ₁, hcreate, hσ₁, hnamed₁, hsequence₁⟩ :=
      hS.create o σ w ho hσ hid hname hreads hnew hnodup hpointers hrefuses
    obtain ⟨σ₂, hqueue, hσ₂, hnamed₂, hsequence₂⟩ := hS.queue o σ₁ w.id .workflow ho hσ₁
    refine ⟨.ok w.id, σ₂, ?_, hσ₂, hsequence₂.trans hsequence₁, .inr ⟨hrefuses, rfl, ?_⟩⟩
    · rw [execE_bind_ok (execE_ask hcreate), execE_bind_ok (execE_ask hqueue), hk]
    · rw [hnamed₂, hnamed₁]

/-- A start by name, of a definition that is registered. -/
theorem Lawful.startWorkflowWithName {definitionId : String} {version : Nat} {data : Json}
    {nameOverride : Option String} {definition : WorkflowDefinition} {name : String}
    (hdefinition : h.registry.getDefinition definitionId version = some definition)
    (hblank : nameOverride.map Text.trim ≠ some "")
    (hname : name = nameOverride.getD s!"{definitionId}-{S.sequence σ definitionId + 1}")
    (hempty : name ≠ "") (ho : o.failure = none) (hσ : Valid σ) (hnew : S.New σ o.ambient)
    (hreads : Reads
      { (StartRequest.startWithName definitionId version data nameOverride).instanceOf o.ambient
        definition with name := name }) :
    ∃ r σ', execE (S.answer o)
        (h.startWorkflowWithName definitionId version data nameOverride) σ = some (r, σ') ∧
      Valid σ' ∧
      (S.sequence σ' = if nameOverride = none then
        Function.update (S.sequence σ) definitionId (S.sequence σ definitionId + 1)
      else S.sequence σ) ∧
      S.Settles σ σ' (o.ambient.uuid 0) name r := by
  obtain ⟨σ₁, hinstance, hσ₁, hnamed, hpointers, hsequence⟩ :=
    hS.instanceName ho hσ hblank
  rw [← hname] at hinstance
  let request := StartRequest.startWithName definitionId version data nameOverride
  have hpointer := request.instanceOf_pointers o.ambient definition
  -- What remains is to store the instance and to queue it; drawing a number has kept all names.
  obtain ⟨r, σ₂, hexec, hσ₂, hsequence₂, hcases⟩ := hS.createAndQueue
    (w := { request.instanceOf o.ambient definition with name := name })
    (k := fun id => do
      publishLifecycle ⟨id, definitionId, version, .started⟩
      return id)
    (fun id σ => by rw [execE_bind_ok (execE_tell (hS.publish o σ _))]; rfl) ho hσ₁ hnew.ne_empty
    hempty hreads (by rw [hnamed]; exact hnew.id) hpointer.1 (fun p hp => by
      rw [hpointers, hpointer.2 p hp]
      exact hnew.pointer)
  refine ⟨r, σ₂, ?_, hσ₂, hsequence₂.trans hsequence, ?_⟩
  · simp only [WorkflowHost.startWorkflowWithName, hdefinition]
    rw [execE_bind_ok (execE_tell (hS.ambient o σ hnew.ne_empty)), execE_bind_ok hinstance]
    exact hexec
  · exact (settles_congr hnamed).1 hcases

/-- A start of a child, of a definition that is registered. -/
theorem Lawful.startChild {definitionId : String} {version : Nat} {data : Json}
    {parentRootWorkflowId : Option String} {definition : WorkflowDefinition} {name : String}
    (hdefinition : h.registry.getDefinition definitionId version = some definition)
    (hname : name = s!"{definitionId}-{S.sequence σ definitionId + 1}")
    (hempty : name ≠ "") (ho : o.failure = none) (hσ : Valid σ) (hnew : S.New σ o.ambient)
    (hreads : Reads
      { (StartRequest.child definitionId version data parentRootWorkflowId).instanceOf o.ambient
        definition with name := name }) :
    ∃ r σ', execE (S.answer o)
        (h.startChild definitionId version data parentRootWorkflowId) σ = some (r, σ') ∧
      Valid σ' ∧
      S.sequence σ' =
        Function.update (S.sequence σ) definitionId (S.sequence σ definitionId + 1) ∧
      S.Settles σ σ' (o.ambient.uuid 0) name r := by
  obtain ⟨σ₁, hnext, hσ₁, hnamed, hpointers, hsequence⟩ := hS.next o σ definitionId ho hσ
  let request := StartRequest.child definitionId version data parentRootWorkflowId
  have hpointer := request.instanceOf_pointers o.ambient definition
  obtain ⟨r, σ₂, hexec, hσ₂, hsequence₂, hcases⟩ := hS.createAndQueue
    (w := { request.instanceOf o.ambient definition with name := name })
    (k := fun id => pure id) (fun id σ => rfl) ho hσ₁ hnew.ne_empty hempty hreads
    (by rw [hnamed]; exact hnew.id) hpointer.1 (fun p hp => by
      rw [hpointers, hpointer.2 p hp]
      exact hnew.pointer)
  refine ⟨r, σ₂, ?_, hσ₂, hsequence₂.trans hsequence, ?_⟩
  · simp only [WorkflowHost.startChild, hdefinition]
    rw [execE_bind_ok (execE_tell (hS.ambient o σ hnew.ne_empty)),
      execE_bind_ok (execE_ask hnext), ← hname]
    exact hexec
  · exact (settles_congr hnamed).1 hcases

/-- **A start that assigns no name** fails and leaves the store alone. -/
theorem Lawful.start_none {request : StartRequest} (hnew : S.New σ o.ambient)
    (hassigned : request.assigned h (S.sequence σ) = none) :
    ∃ e, execE (S.answer o) (request.program h) σ = some (.error e, σ) := by
  have hambient := execE_tell (hS.ambient o σ hnew.ne_empty)
  unfold StartRequest.assigned at hassigned
  split_ifs at hassigned with hdefinition
  · -- The definition is not registered.
    have hnone := Option.isNone_iff_eq_none.1 hdefinition
    cases request with
    | start definitionId version data =>
      refine ⟨.definitionNotFound definitionId version, ?_⟩
      simp only [StartRequest.definitionId, StartRequest.version] at hnone
      simp only [StartRequest.program, WorkflowHost.startWorkflow,
        WorkflowHost.startWorkflowWithName, hnone, execE_throw]
    | startWithName definitionId version data nameOverride =>
      refine ⟨.definitionNotFound definitionId version, ?_⟩
      simp only [StartRequest.definitionId, StartRequest.version] at hnone
      simp only [StartRequest.program, WorkflowHost.startWorkflowWithName, hnone, execE_throw]
    | child definitionId version data parentRootWorkflowId =>
      refine ⟨.definitionNotFound definitionId version, ?_⟩
      simp only [StartRequest.definitionId, StartRequest.version] at hnone
      simp only [StartRequest.program, WorkflowHost.startChild, hnone, execE_throw]
  · -- The name is blank.
    cases request with
    | start definitionId version data => simp [StartRequest.nameOverride] at hassigned
    | child definitionId version data parentRootWorkflowId =>
      simp [StartRequest.nameOverride] at hassigned
    | startWithName definitionId version data nameOverride =>
      cases nameOverride with
      | none => simp [StartRequest.nameOverride] at hassigned
      | some name =>
        have htrim : Text.trim name = "" := by
          by_contra htrim
          simp [StartRequest.nameOverride, htrim] at hassigned
        obtain ⟨definition, hsome⟩ := Option.ne_none_iff_exists'.1 fun hnone =>
          hdefinition (Option.isNone_iff_eq_none.2 hnone)
        rw [StartRequest.definitionId, StartRequest.version] at hsome
        refine ⟨.stepExecution "workflow name override must be non-empty", ?_⟩
        simp only [StartRequest.program, WorkflowHost.startWorkflowWithName, hsome]
        rw [execE_bind_ok hambient]
        refine execE_bind_error ?_
        rw [WorkflowHost.instanceName, if_pos htrim]
        rfl

/-- **A start that assigns a name** stores the instance under it, unless the store refuses it. -/
theorem Lawful.start {request : StartRequest} {name : String} (ho : o.failure = none)
    (hσ : Valid σ) (hnew : S.New σ o.ambient)
    (hassigned : request.assigned h (S.sequence σ) = some name)
    (hreads : ∀ definition,
      h.registry.getDefinition request.definitionId request.version = some definition →
      Reads { request.instanceOf o.ambient definition with name := name }) :
    ∃ r σ', execE (S.answer o) (request.program h) σ = some (r, σ') ∧ Valid σ' ∧
      (S.sequence σ' = if request.nameOverride = none then
        Function.update (S.sequence σ) request.definitionId
          (S.sequence σ request.definitionId + 1)
      else S.sequence σ) ∧
      S.Settles σ σ' (o.ambient.uuid 0) name r := by
  have hempty := StartRequest.assigned_ne_empty hassigned
  unfold StartRequest.assigned at hassigned
  split_ifs at hassigned with hnone
  obtain ⟨definition, hdefinition⟩ := Option.ne_none_iff_exists'.1 fun h =>
    hnone (Option.isNone_iff_eq_none.2 h)
  have hread := hreads definition hdefinition
  -- The name is the override, if there is one, and else the next of its definition.
  cases request with
  | start definitionId version data =>
    have hname := (Option.some_inj.1 hassigned).symm
    exact hS.startWorkflowWithName hdefinition (by simp) hname hempty ho hσ hnew hread
  | child definitionId version data parentRootWorkflowId =>
    have hname := (Option.some_inj.1 hassigned).symm
    exact hS.startChild hdefinition hname hempty ho hσ hnew hread
  | startWithName definitionId version data nameOverride =>
    cases nameOverride with
    | none =>
      have hname := (Option.some_inj.1 hassigned).symm
      exact hS.startWorkflowWithName hdefinition (by simp) hname hempty ho hσ hnew hread
    | some name' =>
      simp only [StartRequest.nameOverride] at hassigned
      split_ifs at hassigned with hblank
      have hname := (Option.some_inj.1 hassigned).symm
      exact hS.startWorkflowWithName hdefinition (by simpa using hblank) hname hempty ho hσ hnew
        hread

/-! ## Lookups -/

/-- **In a sound store, a name leads to the instance that has it**: ids are tried first, but no
other instance has the name for an id. -/
theorem Lawful.finds {id name : String} (hσ : Valid σ) (hsound : Directory.Sound (S.named σ))
    (hmem : (id, name) ∈ S.named σ) : S.Finds σ name id := by
  have hname : name ∈ (S.named σ).map Prod.snd := List.mem_map_of_mem hmem
  have hcase (o : Oracle) (ho : o.failure = none) :
      (∃ w, w.id = id ∧ w.name = name ∧
        execE (S.answer o) (getWorkflow name) σ = some (.ok w, σ)) ∨
      execE (S.answer o) (getWorkflow name) σ =
        S.answer o σ (.request (.getWorkflowInstanceByName name)) := by
    rcases hS.get o σ name ho hσ with ⟨-, hget⟩ | ⟨w, hw, hid, hget⟩
    · exact .inr (execE_getWorkflow_of_name hget)
    · -- Only the instance itself can have its name for an id.
      obtain ⟨hidname, hwname⟩ := Prod.mk.inj (hsound.cross _ hmem _ hw rfl)
      exact .inl ⟨w, hid.trans hidname.symm, hwname.symm, execE_getWorkflow_of_id hget⟩
  constructor
  · obtain ⟨o, r, ho, hanswer⟩ := hS.getByName_exists σ name hσ hname
    rcases hcase o ho with ⟨w, -, -, hexec⟩ | hexec
    · exact ⟨o, w, ho, hexec⟩
    · obtain ⟨w, rfl, -⟩ := hS.getByName o σ name r σ ho hσ hname hanswer
      exact ⟨o, w, ho, hexec.trans hanswer⟩
  · intro o r σ' ho hexec
    rcases hcase o ho with ⟨w, hid, hwname, hexec'⟩ | hexec'
    · rw [hexec] at hexec'
      cases hexec'
      exact ⟨w, rfl, hid, hwname⟩
    · obtain ⟨w, rfl, hw, hwname, -⟩ :=
        hS.getByName o σ name r σ' ho hσ hname (hexec'.symm.trans hexec)
      have heq := hsound.eq_of_name hw hmem rfl
      exact ⟨w, rfl, congrArg Prod.fst heq, hwname⟩

end Spec

end Store

end Wfe
