import Wfe.Executor.Pass

/-!
# The successor of a skipped step

A step that is skipped and a step that completes both go on to a successor, but choose it by
different rules: the skip path follows the first outcome, `find_next_step` without a value the first
default outcome, and the first outcome only where there is no default.

## Main definitions

* `skipSuccessors`, `completeSuccessors`: the steps of the pointers each path creates
* `FirstAsDefault`: the first outcome leads where the first default leads

## Main results

* `skipSuccessors_eq_iff`: when a skipped step continues like a completed one
-/

namespace Wfe

/-- The steps of the pointers the skip path adds to the instance. -/
def skipSuccessors (env : Ambient) (definition : WorkflowDefinition) (step : WorkflowStep)
    (pointer : ExecutionPointer) (idx : Nat) (w : WorkflowInstance) : List Nat :=
  ((skipPointer env definition step pointer idx w).executionPointers.drop
    w.executionPointers.length).map ExecutionPointer.stepId

/-- The steps of the pointers a result adds. -/
def completeSuccessors (env : Ambient) (definition : WorkflowDefinition) (result : ExecutionResult)
    (pointer : ExecutionPointer) (workflowId : String) : List Nat :=
  (processResult env result pointer definition workflowId).2.newPointers.map ExecutionPointer.stepId

/-- The first default outcome, if there is one, leads to the step the first outcome leads to. -/
def FirstAsDefault (step : WorkflowStep) : Prop :=
  ∀ o, step.outcomes.find? (fun o => o.value.isNone) = some o →
    step.outcomes.head?.map StepOutcome.nextStep = some o.nextStep

theorem skipSuccessors_eq (env : Ambient) (definition : WorkflowDefinition) (step : WorkflowStep)
    (pointer : ExecutionPointer) (idx : Nat) (w : WorkflowInstance) :
    skipSuccessors env definition step pointer idx w =
      (step.outcomes.head?.map StepOutcome.nextStep).toList := by
  rw [skipSuccessors, skipPointer, WorkflowInstance.pushPointers, WorkflowInstance.setPointer]
  dsimp only
  rw [List.drop_append_of_le_length (Nat.le_of_eq List.length_set.symm),
    List.drop_eq_nil_of_le (Nat.le_of_eq List.length_set)]
  cases step.outcomes.head? <;> rfl

/-- A step that proceeds without a value goes on to `find_next_step(step, None)`. -/
theorem completeSuccessors_eq {env : Ambient} {definition : WorkflowDefinition}
    {step : WorkflowStep} {pointer : ExecutionPointer} {result : ExecutionResult}
    {workflowId : String} (hstep : definition.findStep pointer.stepId = some step)
    (hproceed : result.proceed = true) (hvalue : result.outcomeValue = none) :
    completeSuccessors env definition result pointer workflowId =
      (findNextStep step none).toList := by
  rw [completeSuccessors, processResult, if_pos hproceed, hstep, hvalue]
  dsimp only [Option.bind_some]
  cases findNextStep step none <;> rfl

/-- The two rules choose the same step exactly if the first outcome leads where the first default
leads. -/
theorem head?_eq_findNextStep_iff (step : WorkflowStep) :
    step.outcomes.head?.map StepOutcome.nextStep = findNextStep step none ↔
      FirstAsDefault step := by
  rw [findNextStep, FirstAsDefault]
  cases step.outcomes.find? (fun o => o.value.isNone) with
  | none => simp
  | some o => simp

/-- The first outcome is a default, or none is: the single outcomes of most steps are of this
kind. -/
theorem firstAsDefault_of_head {step : WorkflowStep}
    (h : ∀ o, step.outcomes.head? = some o → o.value = none) : FirstAsDefault step := by
  intro o ho
  cases houtcomes : step.outcomes with
  | nil =>
    rw [houtcomes] at ho
    cases ho
  | cons first rest =>
    rw [houtcomes, List.find?_cons_of_pos (by simp [h first (by rw [houtcomes]; rfl)])] at ho
    cases ho
    rfl

/-- **A skipped step continues like a completed one** exactly if its first outcome leads where its
first default outcome leads, or it has no default outcome. -/
theorem skipSuccessors_eq_iff {env env' : Ambient} {definition : WorkflowDefinition}
    {resolve : StepResolver} {w : WorkflowInstance} {idx : Nat} {pointer : ExecutionPointer}
    {step : WorkflowStep} {result : ExecutionResult} {workflowId : String}
    (hskip : examinePointer definition resolve w idx = .skip pointer step)
    (hproceed : result.proceed = true) (hvalue : result.outcomeValue = none) :
    skipSuccessors env definition step pointer idx w =
      completeSuccessors env' definition result pointer workflowId ↔ FirstAsDefault step := by
  obtain ⟨-, hstep, -⟩ := examinePointer_eq_skip hskip
  rw [skipSuccessors_eq, completeSuccessors_eq hstep hproceed hvalue,
    ← head?_eq_findNextStep_iff step]
  constructor
  · intro h
    -- At most one step stands in each list.
    cases hfirst : step.outcomes.head?.map StepOutcome.nextStep <;>
      cases hnext : findNextStep step none <;> simp_all
  · intro h
    rw [h]

section Examples

/-- A step that never runs, with the given outcomes. -/
def skippedStep (outcomes : List StepOutcome) : WorkflowStep :=
  { WorkflowStep.new 0 "check" with outcomes := outcomes, when := some (.any []) }

def skippedDefinition (outcomes : List StepOutcome) : WorkflowDefinition :=
  { WorkflowDefinition.new "d" 1 with
    steps := [skippedStep outcomes, WorkflowStep.new 1 "yes", WorkflowStep.new 2 "no"] }

/-- An instance at its first step. -/
def atFirstStep (env : Ambient) : WorkflowInstance :=
  { WorkflowInstance.new env "d" 1 (.object []) with
    executionPointers := [ExecutionPointer.new (env.uuid 1) 0] }

theorem examinePointer_skipped (env : Ambient) (resolve : StepResolver)
    (outcomes : List StepOutcome) :
    examinePointer (skippedDefinition outcomes) resolve (atFirstStep env) 0 =
      .skip (ExecutionPointer.new (env.uuid 1) 0) (skippedStep outcomes) := rfl

/-- The default outcome stands first. -/
theorem skipSuccessors_default_first :
    skipSuccessors default (skippedDefinition [⟨2, none, none⟩, ⟨1, none, some (.bool true)⟩])
        (skippedStep [⟨2, none, none⟩, ⟨1, none, some (.bool true)⟩])
        (ExecutionPointer.new ((default : Ambient).uuid 1) 0) 0 (atFirstStep default) =
      completeSuccessors default (skippedDefinition [⟨2, none, none⟩, ⟨1, none, some (.bool true)⟩])
        ExecutionResult.next (ExecutionPointer.new ((default : Ambient).uuid 1) 0) "w" := by
  refine (skipSuccessors_eq_iff (examinePointer_skipped default (fun _ => none) _) rfl rfl).mpr ?_
  apply firstAsDefault_of_head
  intro o ho
  cases ho
  rfl

/-- The outcome with a value stands first: the skipped step follows it, the completed one does
not. -/
theorem skipSuccessors_valued_first :
    ¬ ∀ (env : Ambient) (definition : WorkflowDefinition) (resolve : StepResolver)
      (w : WorkflowInstance) (idx : Nat) (pointer : ExecutionPointer) (step : WorkflowStep),
      examinePointer definition resolve w idx = .skip pointer step →
      skipSuccessors env definition step pointer idx w =
        completeSuccessors env definition .next pointer w.id := by
  intro h
  have hsame := h default _ _ _ _ _ _
    (examinePointer_skipped default (fun _ => none) [⟨1, none, some (.bool true)⟩, ⟨2, none, none⟩])
  have hskip : [1] = [2] := hsame
  cases hskip

end Examples

end Wfe
