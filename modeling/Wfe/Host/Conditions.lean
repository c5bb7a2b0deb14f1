import Wfe.Host.History

/-!
# Conditions of steps that have started

The condition of a step is checked before every turn of its pointers, on the data of that moment. A
pointer that has run before, and has slept, polled, waited or kept data since, is skipped if its
condition has become false. Only where no condition becomes false in this way, a step that has
started is never skipped.

## Main definitions

* `Turn.Steady`: the condition of a started step is not false

## Main results

* `started_never_skipped`: with steady turns, a step that has started is never skipped
* `started_step_skipped`: without, it may be
-/

namespace Wfe

open Program Provider

/-- If the pointer has run before, the condition of its step is not false. -/
def Turn.Steady (definition : WorkflowDefinition) (t : Turn) : Prop :=
  t.pointer.startTime.isSome = true →
    ((definition.findStep t.pointer.stepId).bind WorkflowStep.when).all
      (fun c => !(Condition.evaluate c t.data matches .ok false)) = true

instance (definition : WorkflowDefinition) : DecidablePred (Turn.Steady definition) :=
  fun _ => inferInstanceAs (Decidable (_ → _))

section Steady

variable {definition : WorkflowDefinition} {resolve : StepResolver} {host : Option HostContext}
  {workflowId : String} {st st' : PassState} {t : Turn} {turns : List Turn} {i : Nat}
  {w w' : WorkflowInstance} {c : Change} {p p' : ExecutionPointer}

/-- A steady turn of a pointer that has run before does not skip it. -/
theorem Turn.Steady.ne_skipped (ht : t.Steady definition) (hstart : t.pointer.startTime.isSome)
    (hdata : st.workflow.data = t.data) {step : WorkflowStep}
    (hstep : definition.findStep t.pointer.stepId = some step) {stepId : Nat} :
    ¬Cause definition resolve host st t.index t.pointer step (.skipped stepId) := by
  intro hcause
  obtain ⟨cond, hcond, hfalse⟩ := Option.map_eq_some_iff.mp hcause
  have hsteady := ht hstart
  rw [hstep, Option.bind_some, hcond, Option.all_some, ← hdata, hfalse] at hsteady
  cases hsteady

/-- A pointer that has run and has not been skipped. -/
def ExecutionPointer.Underway (p : ExecutionPointer) : Prop :=
  p.startTime.isSome = true ∧ p.status ≠ .skipped

theorem Round.underway (hround : Round definition resolve host workflowId st t.index [t.ran] st')
    (hpointer : st.workflow.executionPointers[t.index]? = some t.pointer)
    (hdata : st.workflow.data = t.data) (ht : t.Steady definition)
    (hst : ∃ p, st.workflow.executionPointers[i]? = some p ∧ p.Underway) :
    ∃ p, st'.workflow.executionPointers[i]? = some p ∧ p.Underway := by
  obtain ⟨p, hp, hunderway⟩ := hst
  obtain ⟨step, r, p', new, hr, hstep, heffect, hlater, -, hst'⟩ := hround.effect hpointer
  rw [hr] at hround
  have hcause := hround.cause hpointer hstep
  rw [hst']
  -- A turn of another pointer leaves this one alone.
  by_cases h : t.index = i
  · subst h
    obtain rfl : p = t.pointer := Option.some_inj.mp (hp.symm.trans hpointer)
    refine ⟨p', getElem?_set_append_self hp, ?_⟩
    cases heffect with
    | skipped => exact absurd hcause (ht.ne_skipped hunderway.1 hdata hstep)
    | proceeded _ _ _ hstatus _ hstart | branched _ _ _ _ _ hstatus _ hstart
    | waits _ _ _ _ hstatus _ hstart | retries _ _ hstatus _ hstart
    | failed _ _ hstatus _ hstart => exact ⟨hstart, by simp [hstatus]⟩
    | pauses _ _ _ _ hstatus _ hstart =>
      obtain hstatus | hstatus := hstatus <;> exact ⟨hstart, by simp [hstatus]⟩
  · exact ⟨p, getElem?_set_append_ne hp h, hunderway⟩

theorem Does.underway (h : Does definition w c w') (hsteady : ∀ t ∈ c.turns, t.Steady definition)
    (hw : ∃ p, w.executionPointers[i]? = some p ∧ p.Underway) :
    ∃ p, w'.executionPointers[i]? = some p ∧ p.Underway := by
  rcases h.pass_or_woken with ⟨resolve, host, turns, rfl, -, h⟩ | ⟨-, f, hf, hw'⟩
  · obtain ⟨-, now, tm, st, hturns, -, rfl⟩ := h
    rw [concluded_executionPointers]
    refine hturns.rule (N := fun _ st => ∃ p, st.workflow.executionPointers[i]? = some p ∧
      p.Underway) hw fun done t st st' hdone hst hpointer hdata hround => ?_
    exact hround.underway hpointer hdata (hsteady t (hdone.subset (by simp))) hst
  · obtain ⟨p, hp, hunderway⟩ := hw
    refine ⟨f p, by rw [hw', List.getElem?_map, hp, Option.map_some], ?_⟩
    rw [ExecutionPointer.Underway, (hf p).startTime, (hf p).status]
    exact hunderway

end Steady

/-- **A step that has started is not skipped**, as long as its condition is not false when its
pointer comes to a later turn. -/
theorem started_never_skipped (definition : WorkflowDefinition) (w w' : WorkflowInstance)
    (changes : List Change) (h : Lives definition w changes w')
    (hsteady : ∀ c ∈ changes, ∀ t ∈ c.turns, t.Steady definition) (i : Nat)
    (p p' : ExecutionPointer) (hp : w.executionPointers[i]? = some p)
    (hstart : p.startTime.isSome = true) (hskipped : p.status ≠ .skipped)
    (hp' : w'.executionPointers[i]? = some p') : p'.status ≠ .skipped := by
  obtain ⟨q, hq, -, hstatus⟩ := h.rule
    (N := fun _ w => ∃ p, w.executionPointers[i]? = some p ∧ p.Underway) ⟨p, hp, hstart, hskipped⟩
    fun done c w w' hdone hw hdoes => hdoes.underway (hsteady c (hdone.subset (by simp))) hw
  obtain rfl : q = p' := Option.some_inj.mp (hq.symm.trans hp')
  exact hstatus

/-- A body that keeps its pointer running. -/
def keepBody : StepBody := fun _ => pure (.persist .null)

/-- A body that proceeds, and sets `stop`. -/
def stopBody : StepBody := fun _ =>
  pure { ExecutionResult.next with outputData := some (.object [("stop", .bool true)]) }

/-- A container that is to run as long as `stop` is not set, with a child that keeps running and
one that sets `stop`. -/
def stoppable : WorkflowDefinition :=
  { WorkflowDefinition.new "stoppable" 1 with
    steps := [
      { WorkflowStep.new 0 sequenceKey with
        children := [1, 2]
        when := some (.comparison ⟨"stop", .equals, some (.bool false)⟩) },
      WorkflowStep.new 1 "keep",
      WorkflowStep.new 2 "stop"] }

def stoppableBodies : StepResolver := fun stepType =>
  if stepType = sequenceKey then some SequenceStep.run
  else if stepType = "keep" then some keepBody
  else some stopBody

/-- The container is skipped when its children have started. -/
theorem started_step_skipped : ∃ w w' p p', Reachable stoppable w ∧
    Relation.ReflTransGen (Evolves stoppable) w w' ∧ w.executionPointers[0]? = some p ∧
    p.startTime.isSome = true ∧ p.status = .running ∧ w'.executionPointers[0]? = some p' ∧
    p'.status = .skipped := by
  obtain ⟨changes, w, hlives, hw⟩ := Simulation.history_any (d := stoppable)
    (w := startOf stoppable (.object [("stop", .bool false)]))
    (l := [.pass stoppableBodies "b", .pass stoppableBodies "a"])
    (f := fun _ w => (w.executionPointers[0]?.any fun p =>
        p.startTime.isSome ∧ p.status = .running) ∧
      (Simulation.history stoppable w [.pass stoppableBodies "c"]).any
        (Function.uncurry fun _ w' => w'.executionPointers[0]?.any fun p => p.status = .skipped))
    (by decide)
  -- After two passes the container is running; the third one skips it.
  obtain ⟨hp, hrun⟩ := of_decide_eq_true hw
  obtain ⟨changes', w', hlives', hw'⟩ := Simulation.history_any hrun
  obtain ⟨p, hp, hunderway⟩ := (Option.any_eq_true _ _).mp hp
  obtain ⟨p', hp', hskipped⟩ := (Option.any_eq_true _ _).mp hw'
  obtain ⟨hstart, hrunning⟩ := of_decide_eq_true hunderway
  exact ⟨w, w', p, p', ⟨_, startOf_started _ _, hlives.evolves⟩, hlives'.evolves, hp, hstart,
    hrunning, hp', of_decide_eq_true hskipped⟩

/-- As long as `stop` is not set, the container goes on. -/
theorem started_never_skipped_stoppable : ∃ changes w w' p p', Lives stoppable w changes w' ∧
    (∀ c ∈ changes, ∀ t ∈ c.turns, t.Steady stoppable) ∧ w.executionPointers[0]? = some p ∧
    p.startTime.isSome = true ∧ w'.executionPointers[0]? = some p' ∧ p'.status ≠ .skipped := by
  obtain ⟨_, w, _, hw⟩ := Simulation.history_any (d := stoppable)
    (w := startOf stoppable (.object [("stop", .bool false)]))
    (l := [.pass stoppableBodies "a"])
    (f := fun _ w => (w.executionPointers[0]?.any fun p =>
        p.startTime.isSome ∧ p.status ≠ .skipped) ∧
      (Simulation.history stoppable w [.pass stoppableBodies "b"]).any
        (Function.uncurry fun changes w' =>
          (∀ c ∈ changes, ∀ t ∈ c.turns, t.Steady stoppable) ∧ w'.executionPointers[0]?.isSome))
    (by decide)
  obtain ⟨hp, hrun⟩ := of_decide_eq_true hw
  obtain ⟨changes, w', hlives, hw'⟩ := Simulation.history_any hrun
  obtain ⟨hsteady, hp'⟩ := of_decide_eq_true hw'
  obtain ⟨p, hp, hunderway⟩ := (Option.any_eq_true _ _).mp hp
  obtain ⟨p', hp'⟩ := Option.isSome_iff_exists.mp hp'
  obtain ⟨hstart, hskipped⟩ := of_decide_eq_true hunderway
  exact ⟨changes, w, w', p, p', hlives, hsteady, hp, hstart, hp',
    started_never_skipped stoppable w w' changes hlives hsteady 0 p p' hp hstart hskipped hp'⟩

end Wfe
