import Wfe.Executor.Primitives
import Wfe.Executor.Serial
import Wfe.Host.WorkflowHost

/-!
# The life of an instance

How the stored value of one instance changes: a host starts it, passes execute it against its
definition, and the operations of the hosts deliver events to it, put the endpoints of its
services into its data, and change its status. Each value is computed from one that was loaded,
so whatever operations run at the same time, every value ever stored is reached in this way.

## Main definitions

* `Started`: the values an instance starts with
* `Evolves`: one change
* `Reachable`: all values

## Main results

* `startWorkflow_creates`, `startChild_creates`: what the hosts create is started
* `Evolves.of_execute`, `Evolves.of_deliver`, `Evolves.of_inject`, `Evolves.of_suspend`,
  `Evolves.of_resume`, `Evolves.of_terminate`: what they write is a change
-/

namespace Wfe

open Program Provider

/-- A new instance of `definition`, started by an application or as a child. -/
inductive Started (definition : WorkflowDefinition) : WorkflowInstance → Prop
  | root (env : Ambient) (definitionId : String) (version : Nat) (data : Json) (name : String) :
      Started definition
        { WorkflowHost.newInstance env definition definitionId version data with name := name }
  | child (env : Ambient) (definitionId : String) (version : Nat) (data : Json)
      (parentRoot : Option String) (name : String) :
      Started definition { WorkflowHost.newChild env definition definitionId version data parentRoot
        with name := name }

/-- One change of the stored value of an instance. A pass may be made by any host that knows the
definition. -/
inductive Evolves (definition : WorkflowDefinition) (w : WorkflowInstance) :
    WorkflowInstance → Prop
  | pass {resolve : StepResolver} {host : Option HostContext} {ran : List Ran}
      {w' : WorkflowInstance} (hhost : HostContext.Starts host w.id)
      (h : Pass definition resolve host w ran w') : Evolves definition w w'
  | deliver (event : Event) (sub : EventSubscription) :
      Evolves definition w (deliverEvent event sub w)
  | inject (endpoints : List ServiceEndpoint) : Evolves definition w (withEndpoints endpoints w)
  | suspend (h : w.status = .runnable) : Evolves definition w { w with status := .suspended }
  | resume (h : w.status = .suspended) : Evolves definition w { w with status := .runnable }
  | terminate (t : DateTime) (h : ¬(w.status = .complete ∨ w.status = .terminated)) :
      Evolves definition w { w with status := .terminated, completeTime := some t }

/-- The values of the instances of `definition`. -/
def Reachable (definition : WorkflowDefinition) (w : WorkflowInstance) : Prop :=
  ∃ w₀, Started definition w₀ ∧ Relation.ReflTransGen (Evolves definition) w₀ w

section Reachable

variable {definition : WorkflowDefinition} {w w' : WorkflowInstance}

/-- What holds at the start and is kept by every change holds of all values. -/
theorem Reachable.invariant {N : WorkflowInstance → Prop} (h : Reachable definition w)
    (hstart : ∀ w, Started definition w → N w)
    (hstep : ∀ w w', N w → Evolves definition w w' → N w') : N w := by
  obtain ⟨w₀, hw₀, hrun⟩ := h
  induction hrun with
  | refl => exact hstart w₀ hw₀
  | tail _ h ih => exact hstep _ _ ih h

theorem Reachable.step (h : Reachable definition w) (h' : Evolves definition w w') :
    Reachable definition w' := by
  obtain ⟨w₀, hw₀, hrun⟩ := h
  exact ⟨w₀, hw₀, hrun.tail h'⟩

section Forall

variable {N : ExecutionPointer → Prop} (hlater : ∀ p q, N p → p.Later q → N q)
  (hspawned : ∀ p q, N p → Spawned definition p q → N q)

include hlater hspawned

theorem Evolves.forall_pointers (h : Evolves definition w w')
    (hw : ∀ p ∈ w.executionPointers, N p) : ∀ p ∈ w'.executionPointers, N p := by
  cases h with
  | pass hhost h => exact h.forall_pointers hlater hspawned hw
  | deliver event sub =>
    intro q hq
    obtain ⟨p, hp, rfl⟩ := List.mem_map.mp hq
    split_ifs
    · exact hlater p _ (hw p hp) ⟨rfl, rfl, rfl, rfl⟩
    · exact hw p hp
  | inject endpoints =>
    rw [withEndpoints_executionPointers]
    exact hw
  | suspend | resume | terminate => exact hw

/-- A property of pointers that holds of the first pointer, is kept over time and passed on to new
pointers holds of all pointers. -/
theorem Reachable.forall_pointers (h : Reachable definition w)
    (hstart : ∀ w, Started definition w → ∀ p ∈ w.executionPointers, N p) :
    ∀ p ∈ w.executionPointers, N p :=
  h.invariant (N := fun w => ∀ p ∈ w.executionPointers, N p) hstart
    fun _ _ hw h => h.forall_pointers hlater hspawned hw

end Forall

/-- A new instance has a pointer at step 0, if the definition has steps at all. -/
theorem Started.pointers (h : Started definition w) :
    (definition.steps = [] ∧ w.executionPointers = []) ∨
      ∃ p, definition.steps ≠ [] ∧ w.executionPointers = [p] ∧ p.stepId = 0 ∧ p.active ∧
        p.status = .pending ∧ p.scope = [] ∧ p.predecessorId = none ∧ p.sleepUntil = none := by
  by_cases hsteps : definition.steps = []
  · cases h <;> exact .inl ⟨hsteps, if_pos hsteps⟩
  · cases h <;> exact .inr ⟨_, hsteps, if_neg hsteps, rfl, rfl, rfl, rfl, rfl, rfl⟩

/-- A new instance of `d`. -/
def startOf (d : WorkflowDefinition) (data : Json := .null) : WorkflowInstance :=
  { WorkflowHost.newInstance default d d.id d.version data with name := d.id }

theorem startOf_started (d : WorkflowDefinition) (data : Json := .null) :
    Started d (startOf d data) :=
  .root default d.id d.version data d.id

/-- Containers as a host registers them, and bodies that proceed. -/
def proceeding : StepResolver := fun stepType =>
  if stepType = sequenceKey then some SequenceStep.run else some proceedBody

theorem Started.status (h : Started definition w) : w.status = .runnable := by
  cases h <;> rfl

end Reachable

/-! ## The operations of the hosts -/

section Operations

variable {definition : WorkflowDefinition} {w w' : WorkflowInstance}

/-- The instances created are new instances of the definition. -/
def Call.createsStarted (definition : Option WorkflowDefinition) (c : Call) : Prop :=
  ∀ v, c = .request (.createNewWorkflow v) → ∃ d ∈ definition, Started d v

theorem startWorkflow_creates (h : WorkflowHost) (definitionId : String) (version : Nat)
    (data : Json) (nameOverride : Option String) :
    MeetsE (Monitor.only (Call.createsStarted (h.registry.getDefinition definitionId version)))
      (fun _ _ => True) (fun _ _ => True)
      (h.startWorkflowWithName definitionId version data nameOverride) () := by
  unfold WorkflowHost.startWorkflowWithName
  split
  · trivial
  · next definition hdef =>
    have hname : MeetsE (Monitor.only (Call.createsStarted (some definition))) (fun _ _ => True)
        (fun _ _ => True) (WorkflowHost.instanceName definitionId nameOverride) () := by
      cases nameOverride with
      | some n =>
        simp only [WorkflowHost.instanceName]
        split_ifs <;> trivial
      | none => simp [-bind_pure_comp, WorkflowHost.instanceName, Monitor.only, Call.createsStarted]
    rw [hdef]
    refine meetsE_bind.mpr ⟨by simp [Monitor.only, Call.createsStarted], fun env _ => ?_⟩
    refine hname.bind fun _ name _ => ?_
    -- What is stored is a fresh instance, with its name filled in.
    have hstarted : Started definition
        { WorkflowHost.newInstance env definition definitionId version data with name := name } :=
      .root env definitionId version data name
    simp [-bind_pure_comp, Monitor.only, Call.createsStarted, hstarted]

theorem startChild_creates (h : WorkflowHost) (definitionId : String) (version : Nat)
    (data : Json) (parentRoot : Option String) :
    MeetsE (Monitor.only (Call.createsStarted (h.registry.getDefinition definitionId version)))
      (fun _ _ => True) (fun _ _ => True)
      (h.startChild definitionId version data parentRoot) () := by
  unfold WorkflowHost.startChild
  split
  · trivial
  · next definition hdef =>
    rw [hdef]
    simp [-bind_pure_comp, Monitor.only, Call.createsStarted]
    exact fun env n => .child env definitionId version data parentRoot _

theorem Evolves.of_execute {resolve : StepResolver} {host : Option HostContext}
    (hhost : HostContext.Starts host w.id)
    (h : Writes (execute w.id definition resolve host) w w') : Evolves definition w w' := by
  obtain ⟨ran, hpass⟩ := (execute_writes hhost w').mp h
  exact .pass hhost hpass

theorem Evolves.of_deliver {eventId : String} {event : Event} {sub : EventSubscription}
    (h : Writes (Wfe.deliver eventId event sub) w w') : Evolves definition w w' := by
  obtain rfl : w' = deliverEvent event sub w := by
    refine h.of_meetsE (P := fun w' => w' = deliverEvent event sub w) ?_
    refine (serial_load fun _ h => h).bind ?_
    rintro _ v rfl
    simp [serial]
  exact .deliver event sub

theorem Evolves.of_inject {id : String} {endpoints : List ServiceEndpoint}
    (h : Writes (injectServiceEndpoints id endpoints) w w') : Evolves definition w w' := by
  obtain rfl : w' = withEndpoints endpoints w := by
    refine h.of_meetsE (P := fun w' => w' = withEndpoints endpoints w) ?_
    refine (serial_load fun _ h => h).bind ?_
    rintro _ v rfl
    simp [serial]
  exact .inject endpoints

theorem serial_getWorkflow {P : WorkflowInstance → Prop} (idOrName : String) :
    MeetsE (serial w P fun _ => True) (fun _ v => v = w) (fun _ _ => True) (getWorkflow idOrName)
      () := by
  refine meetsE_bind.mpr (meetsE_attempt.mpr
    ((serial_load (E := fun _ => True) fun _ _ => trivial).mono (fun _ _ h => h) fun _ e _ => ?_))
  cases e with
  | workflowNotFound id =>
    refine ⟨by simp [serial], fun r hr => ?_⟩
    cases r with
    | ok v => exact hr.1
    | error e => trivial
  | _ => trivial

theorem Evolves.of_suspend {idOrName : String} (h : Writes (suspendWorkflow idOrName) w w') :
    Evolves definition w w' := by
  have hw' : w.status = .runnable ∧ w' = { w with status := .suspended } := by
    refine h.of_meetsE (P := fun w' => w.status = .runnable ∧ w' = { w with status := .suspended })
      ((serial_getWorkflow idOrName).bind ?_)
    rintro _ v rfl
    split_ifs with hr
    · trivial
    · simp_all [-bind_pure_comp, serial]
  obtain ⟨hr, rfl⟩ := hw'
  exact .suspend hr

theorem Evolves.of_resume {idOrName : String} (h : Writes (resumeWorkflow idOrName) w w') :
    Evolves definition w w' := by
  have hw' : w.status = .suspended ∧ w' = { w with status := .runnable } := by
    refine h.of_meetsE (P := fun w' => w.status = .suspended ∧ w' = { w with status := .runnable })
      ((serial_getWorkflow idOrName).bind ?_)
    rintro _ v rfl
    split_ifs with hr
    · trivial
    · simp_all [-bind_pure_comp, serial]
  obtain ⟨hr, rfl⟩ := hw'
  exact .resume hr

theorem Evolves.of_terminate {idOrName : String} (h : Writes (terminateWorkflow idOrName) w w') :
    Evolves definition w w' := by
  have hw' : ¬(w.status = .complete ∨ w.status = .terminated) ∧
      ∃ t, w' = { w with status := .terminated, completeTime := some t } := by
    refine h.of_meetsE (P := fun w' => ¬(w.status = .complete ∨ w.status = .terminated) ∧
      ∃ t, w' = { w with status := .terminated, completeTime := some t })
      ((serial_getWorkflow idOrName).bind ?_)
    rintro _ v rfl
    split_ifs with hr
    · trivial
    · simp_all [-bind_pure_comp, serial]
  obtain ⟨hr, t, rfl⟩ := hw'
  exact .terminate t hr

end Operations

end Wfe
