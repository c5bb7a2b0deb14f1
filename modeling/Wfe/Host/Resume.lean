import Mathlib.Data.List.Infix
import Wfe.Host.Completion

/-!
# Failures and resumption

A failure that suspends the workflow leaves its pointer failed. A failed pointer counts as done, and
`resume_workflow` changes nothing but the status, so a workflow that is resumed with such a failure
can go on and complete without its step ever having succeeded.

## Main definitions

* `Settled`: every failure that has suspended the workflow has been made up for

## Main results

* `failures_settled`: a workflow that is resumed only with settled failures completes only so
* `failure_swallowed`: a workflow that completes with a failure
-/

namespace Wfe

open Program Provider

/-- After every failure that suspends the workflow, a pointer at the same step has proceeded. -/
def Settled (definition : WorkflowDefinition) : List Turn → Prop
  | [] => True
  | t :: turns => (t.asks definition = some .suspended → ∃ t' ∈ turns,
      t'.proceeds = true ∧ t'.pointer.stepId = t.pointer.stepId) ∧ Settled definition turns

instance Settled.decidable (definition : WorkflowDefinition) :
    (turns : List Turn) → Decidable (Settled definition turns)
  | [] => isTrue trivial
  | _ :: turns => @instDecidableAnd _ _ inferInstance (Settled.decidable definition turns)

section Settled

variable {definition : WorkflowDefinition} {turns turns' : List Turn} {w w' : WorkflowInstance}
  {changes : List Change} {c : Change}

theorem Settled.append (h : Settled definition turns) (h' : Settled definition turns') :
    Settled definition (turns ++ turns') := by
  induction turns with
  | nil => exact h'
  | cons t turns ih =>
    refine ⟨fun hasks => ?_, ih h.2⟩
    obtain ⟨t', ht', hsettles⟩ := h.1 hasks
    exact ⟨t', List.mem_append_left _ ht', hsettles⟩

theorem settled_of_asked (h : asked definition turns = []) : Settled definition turns := by
  induction turns with
  | nil => trivial
  | cons t turns ih =>
    have hnone : ∀ t' ∈ t :: turns, t'.asks definition = none := by simpa [asked] using h
    refine ⟨fun hasks => ?_, ih ?_⟩
    · simp [hnone t List.mem_cons_self] at hasks
    · simpa [asked] using fun t' ht' => hnone t' (List.mem_cons_of_mem _ ht')

/-- As long as an instance runs or is complete, its failures are settled. -/
theorem Does.settled (h : Does definition w c w')
    (hw : w.status = .runnable ∨ w.status = .complete → Settled definition turns)
    (hresume : c = .resume → Settled definition turns)
    (hw' : w'.status = .runnable ∨ w'.status = .complete) :
    Settled definition (turns ++ c.turns) := by
  cases h with
  | pass hhost h => exact (hw (.inl h.1)).append (settled_of_asked (h.asked_eq_nil hw'))
  | deliver event sub => exact (hw hw').append trivial
  | inject endpoints =>
    rw [withEndpoints_status] at hw'
    exact (hw hw').append trivial
  | resume => exact (hresume rfl).append trivial
  | suspend | terminate => simp at hw'

end Settled

/-- **No failure is swallowed**, as long as a workflow is resumed only when the failures that
suspended it have been made up for: it is complete only when they have. Where it is resumed and all
its pointers are done, the next pass completes it, so there this is also necessary. -/
theorem failures_settled (definition : WorkflowDefinition) (w₀ w : WorkflowInstance)
    (changes : List Change) (hlives : Lives definition w₀ changes w)
    (hresume : ∀ done, done ++ [.resume] <+: changes → Settled definition (turnsOf done)) :
    (w.status = .complete → Settled definition (turnsOf changes)) ∧
    ∀ (resolve : StepResolver) (host : Option HostContext) (turns : List Turn)
      (w' : WorkflowInstance), w.status = .suspended → w.executionPointers ≠ [] →
      (∀ p ∈ w.executionPointers, p.status.isDone = true) →
      Conducts definition resolve host { w with status := .runnable } turns w' →
      w'.status = .complete ∧
        (Settled definition (turnsOf changes ++ turns) ↔ Settled definition (turnsOf changes)) := by
  refine ⟨fun hcomplete => ?_, fun resolve host turns w' _ hne hdone hconducts => ?_⟩
  · refine hlives.rule (N := fun done w => w.status = .runnable ∨ w.status = .complete →
      Settled definition (turnsOf done)) (fun _ => trivial)
      (fun done c w w' hdone hw hdoes hw' => ?_) (.inr hcomplete)
    rw [turnsOf_snoc]
    exact hdoes.settled hw (fun hc => hresume done (hc ▸ hdone)) hw'
  · -- No pointer has a turn.
    have hturns : turns = [] := by
      refine List.eq_nil_iff_forall_not_mem.mpr fun t ht => ?_
      obtain ⟨hpointer, now, hrun⟩ := hconducts.pointer ht
      have ht := hdone t.pointer (List.mem_of_getElem? hpointer)
      rw [(isPointerRunnable_active hrun).2] at ht
      cases ht
    have hpointers : w'.executionPointers = w.executionPointers := by
      obtain ⟨-, now, tm, st, hst, -, rfl⟩ := hconducts
      rw [concluded_executionPointers, hst.eq_of_nil hturns]
    subst hturns
    refine ⟨hconducts.status_eq_complete.mpr ⟨?_, rfl⟩, by rw [List.append_nil]⟩
    rw [allDone, hpointers]
    simpa [hne] using hdone

/-- One step, whose failure suspends the workflow. -/
def suspending : WorkflowDefinition :=
  { WorkflowDefinition.new "suspending" 1 with
    steps := [{ WorkflowStep.new 0 "step" with errorBehavior := some .suspend }] }

/-- The step fails, the workflow is resumed, and is complete. -/
theorem failure_swallowed : ∃ changes w, Lives suspending (startOf suspending) changes w ∧
    w.status = .complete ∧ ¬Settled suspending (turnsOf changes) := by
  obtain ⟨changes, w, hlives, hw⟩ := Simulation.history_any (d := suspending)
    (w := startOf suspending)
    (l := [.pass (failingAt ["step"]) "b", .resume, .pass (failingAt ["step"]) "a"])
    (f := fun changes w => w.status = .complete ∧ ¬Settled suspending (turnsOf changes))
    (by decide)
  obtain ⟨hcomplete, hsettled⟩ := of_decide_eq_true hw
  exact ⟨changes, w, hlives, hcomplete, hsettled⟩

/-- A loop over two items, and a step whose failure suspends the workflow. -/
def suspendingLoop : WorkflowDefinition :=
  { WorkflowDefinition.new "loop" 1 with
    steps := [
      { WorkflowStep.new 0 "each" with children := [1] },
      { WorkflowStep.new 1 "step" with errorBehavior := some .suspend }] }

/-- The step fails for the item `true`. -/
def suspendingLoopBodies : StepResolver := fun stepType =>
  if stepType = "each" then some (ForEachStep.run { collection := [.bool true, .bool false] })
  else some fun context =>
    if context.item = some (.bool true) then throw (.other "failed") else return .next

/-- The step fails for the first item and proceeds for the second one; then the workflow is resumed
and completes. -/
theorem failures_settled_loop : ∃ changes w,
    Lives suspendingLoop (startOf suspendingLoop) changes w ∧ w.status = .complete ∧
    (∃ t ∈ turnsOf changes, t.asks suspendingLoop = some .suspended) ∧
    Settled suspendingLoop (turnsOf changes) := by
  obtain ⟨changes, w, hlives, hw⟩ := Simulation.history_any (d := suspendingLoop)
    (w := startOf suspendingLoop)
    (l := [.pass suspendingLoopBodies "c", .resume, .pass suspendingLoopBodies "b",
      .pass suspendingLoopBodies "a"])
    (f := fun changes w => w.status = .complete ∧
      (∃ t ∈ turnsOf changes, t.asks suspendingLoop = some .suspended) ∧
      ∀ done ∈ changes.inits, Settled suspendingLoop (turnsOf done))
    (by decide)
  obtain ⟨hcomplete, hasks, hsettled⟩ := of_decide_eq_true hw
  refine ⟨changes, w, hlives, hcomplete, hasks, ?_⟩
  refine (failures_settled suspendingLoop _ w changes hlives fun done hdone => ?_).1 hcomplete
  exact hsettled done ((List.mem_inits _ _).mpr ((List.prefix_append _ _).trans hdone))

end Wfe
