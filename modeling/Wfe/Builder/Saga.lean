import Mathlib.Data.List.Forall2
import Wfe.Builder.WorkflowBuilder
import Wfe.Host.Completion
import Wfe.Host.Origins

/-!
# Sagas

A saga is to undo its work when one of its steps fails: the step itself and the steps that were
completed before, in reverse order. The error handler sees one pointer only, so just the failing
step is compensated, and nothing is left out only if no step completed before has a compensation.
The builder makes every step added in the body of a saga a child of it, the compensation steps
included, so these run without any failure.

## Main definitions

* `StepBuilder.sagaChildren`: the children of a saga
* `Compensates`: the compensation of a turn
* `completions`: the steps to undo

## Main results

* `mem_sagaChildren`: every step added in the body is a child
* `saga_rolled_back`: when a saga is rolled back
* `saga_not_rolled_back`: a saga that is not
-/

namespace Wfe

open Program Provider

/-- The children that `saga` gives to the container. -/
def StepBuilder.sagaChildren (self : StepBuilder) (body : WorkflowBuilder → WorkflowBuilder) :
    List Nat :=
  (((self.saga body).builder.steps[(self.saga body).stepId]?).map WorkflowStep.children).getD []

/-- The builder that is handed to the body of a saga. -/
def StepBuilder.inSaga (self : StepBuilder) : WorkflowBuilder :=
  ((self.builder.addStep StepBuilder.sagaKey).modifyStep self.builder.steps.length
    ({ · with saga := true })).wireOutcome self.stepId self.builder.steps.length none

/-- Every step that is added in the body of a saga is a child of it. -/
theorem mem_sagaChildren (self : StepBuilder) (body : WorkflowBuilder → WorkflowBuilder)
    (hbody : (body self.inSaga).steps[self.builder.steps.length]?.isSome = true) (k : Nat)
    (hk : self.inSaga.steps.length ≤ k) (hk' : k < (body self.inSaga).steps.length) :
    k ∈ self.sagaChildren body := by
  obtain ⟨step, hstep⟩ := Option.isSome_iff_exists.mp hbody
  have hsaga : (self.saga body).builder.steps[(self.saga body).stepId]? =
      (self.inSaga.addBody self.builder.steps.length body).steps[self.builder.steps.length]? := rfl
  rw [StepBuilder.sagaChildren, hsaga, WorkflowBuilder.getElem?_addBody, hstep]
  simp only [Option.map_some, Option.getD_some, List.mem_append, List.mem_range'_1]
  exact .inr ⟨hk, by omega⟩

/-- The compensation step of a step. -/
def WorkflowDefinition.compensationOf (d : WorkflowDefinition) (stepId : Nat) : Option Nat :=
  (d.findStep stepId).bind WorkflowStep.compensationStepId

/-- `q` is a pointer that compensates what the turn `u` has done. -/
def Compensates (d : WorkflowDefinition) (u : Turn) (q : ExecutionPointer) : Prop :=
  ∃ k, d.compensationOf u.pointer.stepId = some k ∧ Follows u k q

/-- The turns in which children in a scope have proceeded that can be compensated. -/
def completions (d : WorkflowDefinition) (children : List Nat) (scope : List String)
    (turns : List Turn) : List Turn :=
  turns.filter fun u => u.pointer.scope = scope ∧ u.pointer.stepId ∈ children ∧
    u.proceeds = true ∧ (d.compensationOf u.pointer.stepId).isSome = true

section Saga

variable {d : WorkflowDefinition} {w₀ w : WorkflowInstance} {changes : List Change}
  {before after : List Turn} {t u : Turn} {c : ExecutionPointer}

theorem Turn.successor_of_failsToCompensate (h : t.failsToCompensate d = true) :
    t.successor d = d.compensationOf t.pointer.stepId := by
  obtain ⟨hfailed, hbehavior⟩ := Bool.and_eq_true_iff.mp h
  rw [Turn.successor, WorkflowDefinition.compensationOf]
  split at hfailed
  · next hran => simp [hran, of_decide_eq_true hbehavior]
  · cases hfailed

/-- A failure is compensated. -/
theorem Lives.compensated (h : Lives d w₀ changes w) (ht : t ∈ turnsOf changes)
    (hfails : t.failsToCompensate d = true) (hcomp : (d.compensationOf t.pointer.stepId).isSome) :
    ∃ q ∈ w.executionPointers, Compensates d t q := by
  obtain ⟨k, hk⟩ := Option.isSome_iff_exists.mp hcomp
  obtain ⟨q, hq, hfollows⟩ :=
    h.follows ht ((Turn.successor_of_failsToCompensate hfails).trans hk)
  exact ⟨q, hq, k, hk, hfollows⟩

end Saga

/-- **When a saga is rolled back.** Suppose that, whenever a child of a saga fails under the
behaviour to compensate, no child completed before in the same container has a compensation step,
and that the compensation steps of the children are no children themselves and no outcome leads to
them. Then each such failure leads to compensation pointers for the failing child and for the
children completed before, in reverse order, and a compensation step runs only after a failure. -/
theorem saga_rolled_back (s : StepBuilder) (body : WorkflowBuilder → WorkflowBuilder)
    (d : WorkflowDefinition)
    (hsaga : (d.findStep (s.saga body).stepId).map WorkflowStep.children =
      some (s.sagaChildren body))
    (w₀ w : WorkflowInstance) (changes : List Change) (hstarted : Started d w₀)
    (hlives : Lives d w₀ changes w) (hids : w.pointerIds.Nodup)
    (hfirst : ∀ before t after, turnsOf changes = before ++ t :: after →
      t.failsToCompensate d = true → t.pointer.stepId ∈ s.sagaChildren body →
      completions d (s.sagaChildren body) t.pointer.scope before = [])
    (hapart : ∀ child ∈ s.sagaChildren body, ∀ k, d.compensationOf child = some k →
      k ∉ s.sagaChildren body ∧ ∀ step ∈ d.steps, ∀ o ∈ step.outcomes, o.nextStep ≠ k)
    (c : ExecutionPointer) (hc : c ∈ w.executionPointers)
    (hstep : c.stepId = (s.saga body).stepId) :
    (∀ before t after, turnsOf changes = before ++ t :: after → t.failsToCompensate d = true →
      t.pointer.stepId ∈ s.sagaChildren body → t.pointer.scope = c.scope ++ [c.id] →
      List.SublistForall₂ (Compensates d)
        ((t :: (completions d (s.sagaChildren body) (c.scope ++ [c.id]) before).reverse).filter
          fun u => (d.compensationOf u.pointer.stepId).isSome) w.executionPointers) ∧
    ∀ before u after, turnsOf changes = before ++ u :: after →
      u.pointer.scope = c.scope ++ [c.id] →
      (∃ child ∈ s.sagaChildren body, d.compensationOf child = some u.pointer.stepId) →
      ∃ t ∈ before, t.failsToCompensate d = true ∧ t.pointer.scope = c.scope ++ [c.id] := by
  refine ⟨fun before t after hsplit hfails hchild hscope => ?_,
    fun before u after hsplit hscope ⟨child, hchild, hcomp⟩ => ?_⟩
  · rw [← hscope, hfirst before t after hsplit hfails hchild, List.reverse_nil]
    cases hcomp : (d.compensationOf t.pointer.stepId).isSome with
    | false => simpa [hcomp] using List.SublistForall₂.nil
    | true =>
      have ht : t ∈ turnsOf changes := hsplit ▸ List.mem_append_right _ List.mem_cons_self
      obtain ⟨q, hq, hq'⟩ := hlives.compensated ht hfails hcomp
      rw [List.filter_cons_of_pos (by simpa using hcomp), List.filter_nil,
        List.sublistForall₂_iff]
      exact ⟨[q], .cons hq' .nil, List.singleton_sublist.mpr hq⟩
  · obtain ⟨hapart₁, hapart₂⟩ := hapart child hchild _ hcomp
    rcases hlives.born_before hstarted hsplit with ⟨hempty, -⟩ | ⟨t, ht, hborn⟩
    · simp [hempty] at hscope
    · cases hborn with
      | successor k hsuccessor hfollows =>
        rw [hfollows.stepId] at hapart₂
        obtain ⟨step, hfind, hleads⟩ := Turn.successor_cases hsuccessor
        rcases hleads with ⟨o, ho, hnext⟩ | ⟨-, hfails⟩
        · exact absurd hnext (hapart₂ step (List.mem_of_find?_eq_some hfind) o ho)
        · exact ⟨t, ht, hfails, hfollows.scope ▸ hscope⟩
      | child step hfind hmem _ hinner =>
        -- The turn is one of the container.
        exfalso
        have ht' : t ∈ turnsOf changes := hsplit ▸ List.mem_append_left _ ht
        obtain ⟨c', hc', hlater⟩ := hlives.exists_later ht'
        have hcc' : c'.inner = c.inner := hlater.inner.trans (hinner.symm.trans hscope)
        obtain rfl := eq_of_inner hids hc' hc hcc'
        rw [← hlater.stepId, hstep] at hfind
        rw [hfind, Option.map_some, Option.some_inj] at hsaga
        exact hapart₁ (hsaga ▸ hmem)

/-! ## A booking -/

/-- A step, and the step that undoes a booking. -/
def beforeBooking : StepBuilder :=
  (WorkflowBuilder.startWith {} "start").compensateWith "undo"

/-- Two steps, of which one can be undone; the failure of the second one is to be compensated. -/
def bookingSteps (undoable : Nat) (b : WorkflowBuilder) : WorkflowBuilder :=
  let b := (b.addStepTyped "reserve" "reserve" none).addStepTyped "charge" "charge" none
  (b.modifyStep undoable ({ · with compensationStepId := some 1 })).modifyStep 4
    ({ · with errorBehavior := some .compensate })

/-- The workflow with these two steps in a saga. -/
def booking (undoable : Nat) : WorkflowDefinition :=
  (beforeBooking.saga (bookingSteps undoable)).builder.build "booking" 1

/-- The saga container as a host registers it, a charge that fails, and bodies that proceed. -/
def bookingBodies : StepResolver := fun stepType =>
  if stepType = StepBuilder.sagaKey then some SagaContainerStep.run
  else if stepType = "charge" then some failingBody
  else some proceedBody

/-- Nothing that was completed before can be undone when the charge fails, and the charge is
undone. -/
theorem saga_rolled_back_charge : ∃ changes w before t after,
    Lives (booking 4) (startOf (booking 4)) changes w ∧ turnsOf changes = before ++ t :: after ∧
    t.failsToCompensate (booking 4) = true ∧
    List.SublistForall₂ (Compensates (booking 4)) [t] w.executionPointers := by
  obtain ⟨changes, w, hlives, hw⟩ := Simulation.history_any (d := booking 4)
    (w := startOf (booking 4)) (l := ["e", "d", "c", "b", "a"].map (.pass bookingBodies))
    (f := fun changes w => w.pointerIds.Nodup ∧
      (∀ i ∈ List.range (turnsOf changes).length, ∀ t ∈ (turnsOf changes)[i]?,
        t.failsToCompensate (booking 4) = true →
        (completions (booking 4) [3, 4] t.pointer.scope ((turnsOf changes).take i)).isEmpty) ∧
      ∃ c ∈ w.executionPointers, c.stepId = 2 ∧ ∃ t ∈ turnsOf changes,
        t.failsToCompensate (booking 4) = true ∧ t.pointer.stepId = 4 ∧
        t.pointer.scope = c.scope ++ [c.id])
    (by decide)
  obtain ⟨hids, hfirst, c, hc, hstep, t, ht, hfails, hcharge, hscope⟩ := of_decide_eq_true hw
  -- The condition, read off the finite list of turns.
  have hfirst' (before : List Turn) (t : Turn) (after : List Turn)
      (hsplit : turnsOf changes = before ++ t :: after)
      (hfails : t.failsToCompensate (booking 4) = true) :
      completions (booking 4) [3, 4] t.pointer.scope before = [] := by
    have := hfirst before.length (by simp [hsplit]) t (by simp [hsplit]) hfails
    simpa [hsplit] using this
  obtain ⟨before, after, hsplit⟩ := List.append_of_mem ht
  obtain ⟨hrolled, -⟩ := saga_rolled_back beforeBooking (bookingSteps 4) (booking 4) rfl _ w changes
    (startOf_started _) hlives hids
    (fun before t after hsplit hfails _ => hfirst' before t after hsplit hfails)
    (by decide) c hc hstep
  have hchildren : beforeBooking.sagaChildren (bookingSteps 4) = [3, 4] := rfl
  have h := hrolled before t after hsplit hfails (by simp [hchildren, hcharge]) hscope
  rw [hchildren, ← hscope, hfirst' before t after hsplit hfails, List.reverse_nil,
    List.filter_cons_of_pos (by rw [hcharge]; rfl), List.filter_nil] at h
  exact ⟨changes, w, before, t, after, hlives, hsplit, hfails, h⟩

/-- The reservation is completed, the charge fails, and the workflow ends with no pointer that
compensates the reservation. -/
theorem saga_not_rolled_back : ∃ changes w c before u t after,
    Lives (booking 3) (startOf (booking 3)) changes w ∧ c ∈ w.executionPointers ∧
    c.stepId = (beforeBooking.saga (bookingSteps 3)).stepId ∧
    turnsOf changes = before ++ u :: t :: after ∧
    u.pointer.stepId ∈ beforeBooking.sagaChildren (bookingSteps 3) ∧ u.proceeds = true ∧
    (booking 3).compensationOf u.pointer.stepId = some 1 ∧ u.pointer.scope = c.scope ++ [c.id] ∧
    t.pointer.stepId ∈ beforeBooking.sagaChildren (bookingSteps 3) ∧
    t.failsToCompensate (booking 3) = true ∧ t.pointer.scope = c.scope ++ [c.id] ∧
    w.status = .complete ∧ ∀ q ∈ w.executionPointers, ¬Compensates (booking 3) u q := by
  obtain ⟨changes, w, hlives, hw⟩ := Simulation.history_any (d := booking 3)
    (w := startOf (booking 3)) (l := ["d", "c", "b", "a"].map (.pass bookingBodies))
    (f := fun changes w => w.status = .complete ∧ ∃ c ∈ w.executionPointers, c.stepId = 2 ∧
      ∃ u ∈ (turnsOf changes)[3]?, ∃ t ∈ (turnsOf changes)[4]?,
        u.pointer.stepId = 3 ∧ u.proceeds = true ∧ u.pointer.scope = c.scope ++ [c.id] ∧
        t.pointer.stepId = 4 ∧ t.failsToCompensate (booking 3) = true ∧
        t.pointer.scope = c.scope ++ [c.id] ∧
        ∀ q ∈ w.executionPointers, q.predecessorId ≠ some u.pointer.id)
    (by decide)
  obtain ⟨hstatus, c, hc, hstep, u, hu, t, ht, hstep₃, hproceeds, hscope, hstep₄, hfails, hscope',
    hnone⟩ := of_decide_eq_true hw
  -- The reservation is the fourth turn, and the failing charge the fifth.
  have hsplit : turnsOf changes =
      (turnsOf changes).take 3 ++ u :: t :: (turnsOf changes).drop 5 := by
    obtain ⟨hlt₃, rfl⟩ := List.getElem?_eq_some_iff.mp hu
    obtain ⟨hlt₄, rfl⟩ := List.getElem?_eq_some_iff.mp ht
    rw [← List.drop_eq_getElem_cons hlt₄, ← List.drop_eq_getElem_cons hlt₃,
      List.take_append_drop]
  refine ⟨changes, w, c, _, u, t, _, hlives, hc, hstep, hsplit, by rw [hstep₃]; decide, hproceeds,
    by rw [hstep₃]; rfl, hscope, by rw [hstep₄]; decide, hfails, hscope', hstatus, ?_⟩
  rintro q hq ⟨k, -, hfollows⟩
  exact hnone q hq hfollows.predecessorId

end Wfe
