import Wfe.Builder.WorkflowBuilder
import Wfe.Host.NextExecution
import Wfe.Host.Stories

/-!
# Steps that sleep

A body is built anew for every run of its step, and all it can know of an earlier run is what the
pointer carries. `DelayStep` looks at nothing: each time it wakes up, it goes back to sleep.
`ScheduleStep` and `RecurStep` take their children for active once they have slept. But only a
branch creates children, and neither of them branches: they wait for children that are not there.

## Main definitions

* `DelayEnds`: what a delay is for
* `RanChildren`, `WorkflowInstance.createdFor`: what a timed container is for

## Main results

* `delay_never_ends`: no delay ends
* `timed_containers_iff`: how long the timed containers do what they are for
-/

namespace Wfe

open Program Provider

/-! ## Turns of the steps that sleep -/

section Turns

variable {definition : WorkflowDefinition} {resolve : StepResolver} {host : Option HostContext}
  {v : WorkflowInstance} {i : Nat} {step : WorkflowStep} {p p' : ExecutionPointer} {r : Ran}
  {new : List ExecutionPointer}

/-- A delay sleeps, unless it is skipped. -/
theorem Turned.delays {self : DelayStep} (hbody : resolve step.stepType = some self.run)
    (h : Turned definition resolve host v i step p r p' new) :
    (r = .skipped step.id ∧ p'.status = .skipped ∧
      step.when.map (Condition.evaluate · v.data) = some (.ok false)) ∨
    r = .returned step.id (.sleep (self.durationOf step.stepConfig) none) ∧
      p'.status = .sleeping := by
  cases h with
  | skipped env hwhen => exact .inl ⟨rfl, rfl, hwhen⟩
  | returned env env' hbody' hyields =>
    obtain rfl := Option.some_inj.mp (hbody.symm.trans hbody')
    obtain ⟨tr, h⟩ := hyields
    obtain ⟨-, ⟨⟩⟩ := path_ret.mp h
    exact .inr ⟨rfl, rfl⟩
  | failed env env' hbody' hyields =>
    obtain rfl := Option.some_inj.mp (hbody.symm.trans hbody')
    obtain ⟨tr, h⟩ := hyields
    obtain ⟨-, ⟨⟩⟩ := path_ret.mp h

/-- The pointer takes its children for active. -/
def ExecutionPointer.expectsChildren (p : ExecutionPointer) : Bool :=
  ((p.persistenceData.bind (·.get "children_active")).bind Json.asBool).getD false

/-- A scope without pointers is done. -/
theorem childrenDone_of_empty {env : Ambient} (hi : v.executionPointers[i]? = some p)
    (hscope : ∀ q ∈ v.executionPointers, q.scope ≠ p.inner) :
    (stepContext definition host step (startPointer env p)
      (v.setPointer i (startPointer env p))).childrenDone = true :=
  (childrenDone_iff hi).mpr fun q hq hq' => absurd hq' (hscope q hq)

/-- A schedule sleeps at first, and is complete when it wakes up and has no pointers in its
scope. -/
theorem Turned.schedules {self : ScheduleStep} (hbody : resolve step.stepType = some self.run)
    (h : Turned definition resolve host v i step p r p' new) (hkept : r ≠ .skipped step.id)
    (hi : v.executionPointers[i]? = some p)
    (hscope : ∀ q ∈ v.executionPointers, q.scope ≠ p.inner) :
    p'.children = p.children ∧
      ((p.expectsChildren = false ∧ p'.status = .sleeping ∧
        p'.persistenceData = some childrenActive) ∨
      p.expectsChildren = true ∧ p'.status = .complete ∧
        p'.persistenceData = p.persistenceData) := by
  cases h with
  | skipped env hwhen => exact absurd rfl hkept
  | returned env env' hbody' hyields =>
    obtain rfl := Option.some_inj.mp (hbody.symm.trans hbody')
    obtain ⟨tr, h⟩ := hyields
    simp only [ScheduleStep.run, childrenDone_of_empty hi hscope, if_true] at h
    split_ifs at h with hflag
    · obtain ⟨-, ⟨⟩⟩ := path_ret.mp h
      exact ⟨rfl, .inr ⟨hflag, rfl, rfl⟩⟩
    · obtain ⟨-, ⟨⟩⟩ := path_ret.mp h
      exact ⟨rfl, .inl ⟨Bool.eq_false_iff.mpr hflag, rfl, rfl⟩⟩
  | failed env env' hbody' hyields =>
    obtain rfl := Option.some_inj.mp (hbody.symm.trans hbody')
    obtain ⟨tr, h⟩ := hyields
    simp only [ScheduleStep.run] at h
    split_ifs at h <;> obtain ⟨-, ⟨⟩⟩ := path_ret.mp h

/-- A recurring container creates nothing. -/
theorem Turned.recurs {self : RecurStep} (hbody : resolve step.stepType = some self.run)
    (h : Turned definition resolve host v i step p r p' new) : p'.children = p.children := by
  cases h with
  | skipped env hwhen => rfl
  | returned env env' hbody' hyields =>
    obtain rfl := Option.some_inj.mp (hbody.symm.trans hbody')
    obtain ⟨tr, h⟩ := hyields
    simp only [RecurStep.run] at h
    split_ifs at h <;>
    · obtain ⟨-, ⟨⟩⟩ := path_ret.mp h
      rfl
  | failed env env' hbody' hyields =>
    obtain rfl := Option.some_inj.mp (hbody.symm.trans hbody')
    obtain ⟨tr, h⟩ := hyields
    simp only [RecurStep.run] at h
    split_ifs at h <;> obtain ⟨-, ⟨⟩⟩ := path_ret.mp h

end Turns

/-! ## Delays -/

/-- The body has asked to sleep. -/
def Turn.sleeps (t : Turn) : Bool :=
  match t.ran with
  | .returned _ result => result.sleepFor.isSome
  | _ => false

/-- The delay `x` at `step` is over, after the turns `gs`: it has slept once, and the next step has
begun. -/
structure DelayEnds (step : WorkflowStep) (x : PointerKey) (gs : List Given)
    (w : WorkflowInstance) : Prop where
  completes : ∃ p, w.pointerAt x = some p ∧ p.status = .complete
  continues : ∃ o ∈ step.outcomes, ∃ q ∈ w.executionPointers,
    q.stepId = o.nextStep ∧ q.predecessorId = some x.id
  once : ((ownTurns x gs).filter (·.turn.sleeps)).length = 1

section Delays

variable {definition : WorkflowDefinition} {step : WorkflowStep} {d : Duration} {x : PointerKey}
  {w w' w₀ : WorkflowInstance} {changes : List Change} {p : ExecutionPointer} {now t : DateTime}
  {resolve : StepResolver} {host : Option HostContext} {turns : List Turn} {st : PassState}

/-- The step is a delay of `d` in all these turns. -/
def IsDelay (step : WorkflowStep) (d : Duration) (gs : List Given) : Prop :=
  ∀ g ∈ gs, ∃ self : DelayStep,
    g.resolve step.stepType = some self.run ∧ self.durationOf step.stepConfig = d

/-- What has become of a delay: it has not been run yet, or it has been put to sleep, or skipped. -/
inductive Delayed (step : WorkflowStep) : List Given → ExecutionPointer → Prop
  | new {p : ExecutionPointer} (hstatus : p.status = .pending) : Delayed step [] p
  | asleep {gs : List Given} {g : Given} {p : ExecutionPointer} (hsleeps : g.turn.sleeps = true)
      (hstatus : p.status = .sleeping) : Delayed step (gs ++ [g]) p
  | skipped {gs : List Given} {p : ExecutionPointer} (hwhen : step.when.isSome = true)
      (hstatus : p.status = .skipped) : Delayed step gs p

theorem Delayed.not_complete {gs : List Given} (h : Delayed step gs p) : p.status ≠ .complete := by
  cases h with
  | new hstatus | asleep _ hstatus | skipped _ hstatus => simp [hstatus]

theorem Lives.delayed (h : Lives definition w₀ changes w) (hstarted : Started definition w₀)
    (hstep : definition.findStep x.stepId = some step)
    (hdelay : IsDelay step d (ownTurns x (givenBy changes))) (hp : w.pointerAt x = some p) :
    Delayed step (ownTurns x (givenBy changes)) p ∧
      (step.when = none → ∀ g ∈ ownTurns x (givenBy changes), g.turn.sleeps = true) := by
  obtain ⟨hp, hkey⟩ := pointerAt_eq_some.mp hp
  refine h.story.pointer (D := fun _ => True) (M := fun gs p => IsDelay step d gs →
    Delayed step gs p ∧ (step.when = none → ∀ g ∈ gs, g.turn.sleeps = true))
    hstarted.fresh (fun _ _ _ _ => trivial) trivial ?_ ?_ ?_ hp hkey hdelay
  · exact fun q hq _ => ⟨.new hq.status, by simp⟩
  · rintro done p q hM hwoken hall
    obtain ⟨hdelayed, hsleeps⟩ := hM hall
    refine ⟨?_, hsleeps⟩
    cases hdelayed with
    | new hstatus => exact .new (hwoken.status.trans hstatus)
    | asleep hlast hstatus => exact .asleep hlast (hwoken.status.trans hstatus)
    | skipped hwhen hstatus => exact .skipped hwhen (hwoken.status.trans hstatus)
  · intro done g host v step' p' new _ _ hM _ _ hstep' hturned hall
    obtain rfl : step = step' := Option.some_inj.mp (hstep.symm.trans hstep')
    obtain ⟨-, hsleeps⟩ := hM fun g hg => hall g (List.mem_append_left _ hg)
    obtain ⟨self, hbody, -⟩ := hall g (by simp)
    rcases hturned.delays hbody with ⟨hran, hstatus, hwhen⟩ | ⟨hran, hstatus⟩
    · -- Only a step with a condition is skipped.
      have hsome : step.when.isSome = true := by
        cases hc : step.when with
        | none => simp [hc] at hwhen
        | some c => rfl
      exact ⟨.skipped hsome hstatus, fun hnone => by simp [hnone] at hsome⟩
    · have hlast : g.turn.sleeps = true := by
        rw [Turn.sleeps, hran]
        rfl
      refine ⟨.asleep hlast hstatus, fun hnone g' hg' => ?_⟩
      rcases List.mem_append.mp hg' with hg' | hg'
      · exact hsleeps hnone g' hg'
      · exact List.mem_singleton.mp hg' ▸ hlast

/-- A pass that finds a pointer runnable gives it a turn. -/
theorem Loops.gives_turn (h : Loops definition resolve host w now turns st)
    (hp : w.pointerAt x = some p) (hrun : isPointerRunnable p now = true) :
    ∃ t, t ∈ turns ∧ t.isOf x = true := by
  obtain ⟨hp, hkey⟩ := pointerAt_eq_some.mp hp
  obtain ⟨-, hindices, hturns⟩ := h
  have hmem := mem_runnableIndices_of hp hrun
  rw [← hindices] at hmem
  obtain ⟨t, ht, hindex⟩ := List.mem_map.mp hmem
  have hpointer := ((hturns.runnable ⟨[], (List.append_nil _).trans hindices⟩).2 t ht).1
  rw [hindex] at hpointer
  obtain rfl := Option.some_inj.mp (hp.symm.trans hpointer)
  exact ⟨t, ht, decide_eq_true ⟨hindex, hkey⟩⟩

/-- A delay that wakes up goes back to sleep. -/
theorem Loops.sleeps_again (h : Loops definition resolve host w now turns st)
    (hlives : Lives definition w₀ changes w) (hstarted : Started definition w₀)
    (hhost : HostContext.Starts host w.id)
    (hstep : definition.findStep x.stepId = some step)
    (hdelay : IsDelay step d (ownTurns x (givenBy (changes ++ [.pass resolve turns]))))
    (hp : w.pointerAt x = some p) (hasleep : p.status = .sleeping)
    (hrun : isPointerRunnable p now = true) :
    (∃ p', (concluded t st.workflow).pointerAt x = some p' ∧ p'.status ≠ .complete ∧
      (step.when = none → p'.status = .sleeping)) ∧
    (step.when = none → 2 ≤ ((ownTurns x
      (givenBy (changes ++ [.pass resolve turns]))).filter (·.turn.sleeps)).length) := by
  obtain ⟨u, hu, hof⟩ := h.gives_turn hp hrun
  have hlives' := Lives.snoc hlives (h.does hhost t)
  obtain ⟨-, -, hturns⟩ := h
  obtain ⟨hi, hkey⟩ := pointerAt_eq_some.mp hp
  obtain ⟨p', hp', hlater⟩ := hturns.later hi
  have hafter : (concluded t st.workflow).pointerAt x = some p' := by
    rw [pointerAt_concluded]
    exact pointerAt_eq_some.mpr ⟨hp', hlater.hasKey.trans hkey⟩
  obtain ⟨hdelayed, hsleeps⟩ := hlives'.delayed hstarted hstep hdelay hafter
  have hown : ownTurns x (givenBy (changes ++ [.pass resolve turns])) =
      ownTurns x (givenBy changes) ++ ownTurns x (turns.map (Given.mk resolve)) := by
    rw [givenBy_snoc, ownTurns, List.filter_append]
    rfl
  have hmem : ⟨resolve, u⟩ ∈ ownTurns x (turns.map (Given.mk resolve)) :=
    List.mem_filter.mpr ⟨List.mem_map_of_mem hu, hof⟩
  refine ⟨⟨p', hafter, hdelayed.not_complete, fun hnone => ?_⟩, fun hnone => ?_⟩
  · generalize hgs : ownTurns x (givenBy (changes ++ [.pass resolve turns])) = gs at hdelayed
    cases hdelayed with
    | new hstatus =>
      rw [hown, List.append_eq_nil_iff] at hgs
      rw [hgs.2] at hmem
      cases hmem
    | asleep hlast hstatus => exact hstatus
    | skipped hwhen hstatus => simp [hnone] at hwhen
  · rw [List.filter_eq_self.mpr (hsleeps hnone), hown, List.length_append]
    -- It has had a turn before, for it sleeps, and it has one in this pass.
    have hbefore : ownTurns x (givenBy changes) ≠ [] := by
      intro hnil
      have hdelayed := (hlives.delayed hstarted hstep (fun g hg => hdelay g (by
        rw [hown]
        exact List.mem_append_left _ hg)) hp).1
      rw [hnil] at hdelayed
      generalize hgs : ([] : List Given) = gs at hdelayed
      cases hdelayed with
      | new hstatus => simp [hstatus] at hasleep
      | asleep => simp at hgs
      | skipped hwhen hstatus => simp [hstatus] at hasleep
    have h₁ := List.length_pos_iff.mpr hbefore
    have h₂ := List.length_pos_of_mem hmem
    omega

/-- A pointer that sleeps can run once its time has come. -/
theorem Reachable.awake (h : Reachable definition w) (hp : w.pointerAt x = some p)
    (hasleep : p.status = .sleeping) {u : DateTime} (hu : p.sleepUntil = some u) (hnow : u ≤ now) :
    isPointerRunnable p now = true := by
  have hactive : p.active = true := by
    by_contra hinactive
    rw [Bool.not_eq_true] at hinactive
    have hmem := List.mem_of_getElem? (pointerAt_eq_some.mp hp).1
    have hstatus := (h.consistent p hmem).2 hinactive
    rw [hasleep] at hstatus
    simp [PointerStatus.isDone] at hstatus
  simp [isPointerRunnable, hactive, hasleep, hu, hnow]

/-- **No delay ends.** In every run of every definition, a pass at or after the time until which the
pointer of a delay sleeps does not complete the pointer: it goes back to sleep, so it sleeps more
than once, or is skipped if its step has a condition. -/
theorem delay_never_ends (definition : WorkflowDefinition) (step : WorkflowStep) (d : Duration)
    (x : PointerKey) (hstep : definition.findStep x.stepId = some step)
    (w₀ w : WorkflowInstance) (changes : List Change) (hstarted : Started definition w₀)
    (hlives : Lives definition w₀ changes w) (resolve : StepResolver) (host : Option HostContext)
    (hhost : HostContext.Starts host w.id) (now t : DateTime) (turns : List Turn) (st : PassState)
    (hpass : Loops definition resolve host w now turns st)
    (hdelay : IsDelay step d (ownTurns x (givenBy (changes ++ [.pass resolve turns]))))
    (p : ExecutionPointer) (u : DateTime) (hp : w.pointerAt x = some p)
    (hasleep : p.status = .sleeping) (hu : p.sleepUntil = some u) (hnow : u ≤ now) :
    ¬DelayEnds step x (givenBy (changes ++ [.pass resolve turns])) (concluded t st.workflow) ∧
      (step.when = none →
        (∃ p', (concluded t st.workflow).pointerAt x = some p' ∧ p'.status = .sleeping) ∧
        2 ≤ ((ownTurns x (givenBy (changes ++ [.pass resolve turns]))).filter
          (·.turn.sleeps)).length) := by
  have hreachable : Reachable definition w := ⟨w₀, hstarted, hlives.evolves⟩
  obtain ⟨⟨p', hp', hnot, hsleeping⟩, htwice⟩ := hpass.sleeps_again (t := t) hlives hstarted hhost
    hstep hdelay hp hasleep (hreachable.awake hp hasleep hu hnow)
  refine ⟨fun hends => ?_, fun hnone => ⟨⟨p', hp', hsleeping hnone⟩, htwice hnone⟩⟩
  obtain ⟨q, hq, hcomplete⟩ := hends.completes
  obtain rfl := Option.some_inj.mp (hp'.symm.trans hq)
  exact hnot hcomplete

end Delays

/-- A delay of an hour between two steps. -/
def delayed : WorkflowDefinition :=
  (((({} : WorkflowBuilder).startWith "A").delay 3600000000000).thenStep "B").endWorkflow.build
    "delayed" 1

def delaying : StepResolver := fun stepType =>
  if stepType = delayKey then some (DelayStep.run {}) else some proceedBody

/-- The delay of an hour has begun, and an hour has passed. -/
theorem delayed_wakes_up : ∃ changes w x p turns st, Lives delayed (startOf delayed) changes w ∧
    Loops delayed delaying none w 3600000000000 turns st ∧
    (∃ step, delayed.findStep x.stepId = some step ∧ step.stepType = delayKey ∧
      step.when = none ∧
      IsDelay step 3600000000000 (ownTurns x (givenBy (changes ++ [.pass delaying turns])))) ∧
    w.pointerAt x = some p ∧ p.status = .sleeping ∧ p.sleepUntil = some 3600000000000 := by
  obtain ⟨changes, w, hlives, hresolve, hw⟩ := Simulation.history_given (d := delayed)
    (w := startOf delayed) (r := delaying) (l := ["b", "a"])
    (f := fun _ w => w.status = .runnable ∧ runnableIndices w 3600000000000 = [1] ∧
      w.executionPointers[1]?.any fun p => p.stepId = 1 ∧ p.status = .sleeping ∧
        p.sleepUntil = some 3600000000000) (by decide)
  obtain ⟨hr, hindices, hp⟩ := of_decide_eq_true hw
  obtain ⟨p, hp, hp'⟩ := (Option.any_eq_true _ _).mp hp
  obtain ⟨hstepId, hasleep, hu⟩ := of_decide_eq_true hp'
  obtain ⟨step, hstep, hwhen, htype, hconfig⟩ : ∃ step, delayed.findStep 1 = some step ∧
      step.when = none ∧ step.stepType = delayKey ∧
      DelayStep.durationOf {} step.stepConfig = 3600000000000 := by
    refine ⟨_, rfl, rfl, rfl, ?_⟩
    decide
  have hbody : delaying step.stepType = some (DelayStep.run {}) := by rw [htype]; rfl
  obtain ⟨r, st, hloops⟩ := exists_loops none hr hindices hp (hstepId ▸ hstep) hwhen
    hbody
  refine ⟨changes, w, ⟨1, p.id, 1⟩, p, _, st, hlives, hloops,
    ⟨step, hstep, htype, hwhen, fun g hg => ⟨{}, ?_, hconfig⟩⟩,
    pointerAt_eq_some.mpr ⟨hp, by simp [ExecutionPointer.hasKey, hstepId]⟩, hasleep, hu⟩
  have hg : g.resolve = delaying := by
    obtain hg | ⟨_, _, rfl⟩ := by simpa [Change.given] using List.mem_of_mem_filter hg
    · exact hresolve g hg
    · rfl
  rw [hg, hbody]

/-- A delay of an hour has slept twice when it wakes up. -/
theorem delay_never_ends_hour : ∃ step x changes w turns st,
    Lives delayed (startOf delayed) changes w ∧
    Loops delayed delaying none w 3600000000000 turns st ∧
    ¬DelayEnds step x (givenBy (changes ++ [.pass delaying turns])) (concluded 0 st.workflow) ∧
    ∃ p', (concluded 0 st.workflow).pointerAt x = some p' ∧ p'.status = .sleeping := by
  obtain ⟨changes, w, x, p, turns, st, hlives, hloops, ⟨step, hstep, -, hwhen, hdelay⟩, hp, hasleep,
    hu⟩ := delayed_wakes_up
  obtain ⟨hends, hagain⟩ := delay_never_ends delayed step 3600000000000 x hstep (startOf delayed) w
    changes (startOf_started _) hlives delaying none (by rintro _ ⟨⟩) 3600000000000 0 turns st
    hloops hdelay p 3600000000000 hp hasleep hu (Int.le_refl _)
  exact ⟨step, x, changes, w, turns, st, hlives, hloops, hends, (hagain hwhen).1⟩

/-- The pass that finds the hour to be over leaves the delay asleep. -/
theorem delay_sleeps_again : ∃ step x changes w turns st p,
    Lives delayed (startOf delayed) changes w ∧ delayed.findStep x.stepId = some step ∧
    step.stepType = delayKey ∧ w.pointerAt x = some p ∧ p.sleepUntil = some 3600000000000 ∧
    Loops delayed delaying none w 3600000000000 turns st ∧
    ¬DelayEnds step x (givenBy (changes ++ [.pass delaying turns])) (concluded 0 st.workflow) := by
  obtain ⟨changes, w, x, p, turns, st, hlives, hloops, ⟨step, hstep, htype, -, hdelay⟩, hp, hasleep,
    hu⟩ := delayed_wakes_up
  have hreachable : Reachable delayed w := ⟨_, startOf_started _, hlives.evolves⟩
  obtain ⟨⟨p', hp', hnot, -⟩, -⟩ := hloops.sleeps_again (t := 0) hlives (startOf_started _)
    (by rintro _ ⟨⟩) hstep hdelay hp hasleep (hreachable.awake hp hasleep hu (Int.le_refl _))
  refine ⟨step, x, changes, w, turns, st, p, hlives, hstep, htype, hp, hu, hloops, fun hends => ?_⟩
  obtain ⟨q, hq, hcomplete⟩ := hends.completes
  obtain rfl := Option.some_inj.mp (hp'.symm.trans hq)
  exact hnot hcomplete

/-! ## Timed containers -/

/-- The pointers that `p` has created for the child step `child`. -/
def WorkflowInstance.createdFor (w : WorkflowInstance) (p : ExecutionPointer) (child : Nat) :
    List ExecutionPointer :=
  w.executionPointers.filter fun q =>
    q.stepId = child ∧ q.scope = p.inner ∧ q.predecessorId = some p.id

/-- The container `p` has created a pointer for each child, and it is done. -/
def RanChildren (step : WorkflowStep) (w : WorkflowInstance) (p : ExecutionPointer) : Prop :=
  ∀ child ∈ step.children, ∃ q ∈ w.createdFor p child, q.status.isDone = true

/-- The intervals that have elapsed for a recurring container whose turns are `gs`: it wakes up
before each turn but the first, and goes on if the stop condition does not hold. -/
def elapsed (recur : StepResolver → RecurStep) (gs : List Given) : Nat :=
  (gs.tail.filter fun g => !(recur g.resolve).stopCondition).length

section Timed

variable {definition : WorkflowDefinition} {step : WorkflowStep} {x : PointerKey}
  {w w₀ : WorkflowInstance} {changes : List Change} {p : ExecutionPointer} {gs : List Given}

/-- The body of the step is a schedule in all these turns, and the step is never skipped. -/
def IsSchedule (step : WorkflowStep) (gs : List Given) : Prop :=
  ∀ g ∈ gs, g.turn.ran ≠ .skipped step.id ∧
    ∃ self : ScheduleStep, g.resolve step.stepType = some self.run

/-- What has become of a schedule: it has not been run yet, or sleeps, or is complete. -/
inductive Scheduled : List Given → ExecutionPointer → Prop
  | new {p : ExecutionPointer} (hdata : p.persistenceData = none) (hstatus : p.status = .pending) :
      Scheduled [] p
  | asleep {g : Given} {p : ExecutionPointer} (hdata : p.persistenceData = some childrenActive)
      (hstatus : p.status = .sleeping) : Scheduled [g] p
  | ended {gs : List Given} {p : ExecutionPointer} (hlen : 2 ≤ gs.length)
      (hdata : p.persistenceData = some childrenActive) (hstatus : p.status = .complete) :
      Scheduled gs p

/-- A schedule is complete once it has had two turns. -/
theorem Scheduled.complete_iff (h : Scheduled gs p) : p.status = .complete ↔ ¬gs.length ≤ 1 := by
  cases h with
  | new _ hstatus | asleep _ hstatus => simp [hstatus]
  | ended hlen _ hstatus => simp [hstatus]; omega

theorem Scheduled.woken {q : ExecutionPointer} (h : Scheduled gs p) (hwoken : p.Woken q) :
    Scheduled gs q := by
  cases h with
  | new hdata hstatus =>
    exact .new (hwoken.persistenceData.trans hdata) (hwoken.status.trans hstatus)
  | asleep hdata hstatus =>
    exact .asleep (hwoken.persistenceData.trans hdata) (hwoken.status.trans hstatus)
  | ended hlen hdata hstatus =>
    exact .ended hlen (hwoken.persistenceData.trans hdata) (hwoken.status.trans hstatus)

theorem expectsChildren_of_none (h : p.persistenceData = none) : p.expectsChildren = false := by
  rw [ExecutionPointer.expectsChildren, h]
  rfl

theorem expectsChildren_of_active (h : p.persistenceData = some childrenActive) :
    p.expectsChildren = true := by
  rw [ExecutionPointer.expectsChildren, h]
  decide

theorem Scheduled.turn {p' : ExecutionPointer} (h : Scheduled gs p) (g : Given)
    (hturn : (p.expectsChildren = false ∧ p'.status = .sleeping ∧
        p'.persistenceData = some childrenActive) ∨
      p.expectsChildren = true ∧ p'.status = .complete ∧
        p'.persistenceData = p.persistenceData) : Scheduled (gs ++ [g]) p' := by
  cases h with
  | new hdata _ =>
    rw [expectsChildren_of_none hdata] at hturn
    obtain ⟨-, hstatus, hdata⟩ | ⟨⟨⟩, -⟩ := hturn
    exact .asleep hdata hstatus
  | asleep hdata _ =>
    rw [expectsChildren_of_active hdata] at hturn
    obtain ⟨⟨⟩, -⟩ | ⟨-, hstatus, hdata'⟩ := hturn
    exact .ended (by simp) (hdata'.trans hdata) hstatus
  | ended hlen hdata _ =>
    rw [expectsChildren_of_active hdata] at hturn
    obtain ⟨⟨⟩, -⟩ | ⟨-, hstatus, hdata'⟩ := hturn
    exact .ended (by simp; omega) (hdata'.trans hdata) hstatus

/-- Without a branch, the scope of a schedule stays empty. -/
theorem Lives.scheduled (h : Lives definition w₀ changes w) (hstarted : Started definition w₀)
    (hids : w.pointerIds.Nodup) (hstep : definition.findStep x.stepId = some step)
    (hschedule : IsSchedule step (ownTurns x (givenBy changes))) (hp : w.pointerAt x = some p) :
    p.children = [] ∧ Scheduled (ownTurns x (givenBy changes)) p := by
  obtain ⟨hp, hkey⟩ := pointerAt_eq_some.mp hp
  refine h.story.pointer (D := fun l => (l.map ExecutionPointer.id).Nodup)
    (M := fun gs p => IsSchedule step gs → p.children = [] ∧ Scheduled gs p) hstarted.fresh
    (fun _ _ hprefix hnodup => hnodup.sublist hprefix.sublist) hids ?_ ?_ ?_ hp hkey hschedule
  · exact fun q hq _ => ⟨hq.children, .new hq.persistenceData hq.status⟩
  · intro done p q hM hwoken hall
    obtain ⟨hchildren, hscheduled⟩ := hM hall
    exact ⟨hwoken.children.trans hchildren, hscheduled.woken hwoken⟩
  · intro done g host v step' p' new hstory hnodup hM hpointer _ hstep' hturned hall
    obtain rfl : step = step' := Option.some_inj.mp (hstep.symm.trans hstep')
    obtain ⟨hchildren, hscheduled⟩ := hM fun g hg => hall g (List.mem_append_left _ hg)
    obtain ⟨hkept, self, hbody⟩ := hall g (by simp)
    -- It lists no children, so there are no pointers in its scope.
    have hscope := (hstory.scopesOpened hstarted.scopesOpened).scope_ne_inner hnodup
      (List.mem_of_getElem? hpointer) hchildren
    obtain ⟨hsame, hturn⟩ := hturned.schedules hbody hkept hpointer hscope
    exact ⟨hsame.trans hchildren, hscheduled.turn g hturn⟩

theorem Lives.recurring (h : Lives definition w₀ changes w) (hstarted : Started definition w₀)
    (hstep : definition.findStep x.stepId = some step) {recur : StepResolver → RecurStep}
    (hrecur : ∀ g ∈ ownTurns x (givenBy changes),
      g.resolve step.stepType = some (recur g.resolve).run) (hp : w.pointerAt x = some p) :
    p.children = [] := by
  obtain ⟨hp, hkey⟩ := pointerAt_eq_some.mp hp
  refine h.story.pointer (D := fun _ => True) (M := fun gs p =>
    (∀ g ∈ gs, g.resolve step.stepType = some (recur g.resolve).run) → p.children = [])
    hstarted.fresh (fun _ _ _ _ => trivial) trivial (fun q hq _ => hq.children)
    (fun done p q hM hwoken hall => hwoken.children.trans (hM hall)) ?_ hp hkey hrecur
  intro done g host v step' p' new _ _ hM _ _ hstep' hturned hall
  obtain rfl : step = step' := Option.some_inj.mp (hstep.symm.trans hstep')
  have hbefore := hM fun g hg => hall g (List.mem_append_left _ hg)
  exact (hturned.recurs (hall g (by simp))).trans hbefore

/-- A pointer that lists no children has created none. -/
theorem createdFor_eq_nil (h : Reachable definition w) (hids : w.pointerIds.Nodup)
    (hp : p ∈ w.executionPointers) (hchildren : p.children = []) (child : Nat) :
    w.createdFor p child = [] := by
  have hbranch := (h.scopeTree hids).children p hp
  rw [hchildren, branchIds, eq_comm, List.map_eq_nil_iff, List.filter_eq_nil_iff] at hbranch
  refine List.filter_eq_nil_iff.mpr fun q hq hcreated => ?_
  obtain ⟨-, hscope, hpred⟩ := of_decide_eq_true hcreated
  exact hbranch q hq (decide_eq_true ⟨hscope, hpred⟩)

end Timed

/-- **When timed containers run their children.** As long as the ids drawn for pointers are
distinct, a schedule that has children and is never skipped completes only after it has run them
exactly if it has had one turn at most, hence never completes; and a recurring container creates
one pointer per child for every interval elapsed exactly if the stop condition holds from its second
turn on, hence no interval elapses. -/
theorem timed_containers_iff (definition : WorkflowDefinition) (step : WorkflowStep)
    (x : PointerKey) (hstep : definition.findStep x.stepId = some step)
    (hchildren : step.children ≠ []) (w₀ w : WorkflowInstance) (changes : List Change)
    (hstarted : Started definition w₀) (hlives : Lives definition w₀ changes w)
    (hids : w.pointerIds.Nodup) (p : ExecutionPointer) (hp : w.pointerAt x = some p)
    (hkept : ∀ g ∈ ownTurns x (givenBy changes), g.turn.ran ≠ .skipped step.id) :
    ((∀ g ∈ ownTurns x (givenBy changes), ∃ self : ScheduleStep,
        g.resolve step.stepType = some self.run) →
      ((p.status = .complete → RanChildren step w p) ↔
        (ownTurns x (givenBy changes)).length ≤ 1)) ∧
    ∀ recur : StepResolver → RecurStep,
      (∀ g ∈ ownTurns x (givenBy changes),
        g.resolve step.stepType = some (recur g.resolve).run) →
      ((∀ child ∈ step.children, (w.createdFor p child).length =
        elapsed recur (ownTurns x (givenBy changes)) * step.children.count child) ↔
        ∀ g ∈ (ownTurns x (givenBy changes)).tail, (recur g.resolve).stopCondition = true) := by
  have hreachable : Reachable definition w := ⟨w₀, hstarted, hlives.evolves⟩
  have hmem := List.mem_of_getElem? (pointerAt_eq_some.mp hp).1
  obtain ⟨child, hchild⟩ := List.exists_mem_of_ne_nil _ hchildren
  refine ⟨fun hschedule => ?_, fun recur hrecur => ?_⟩
  · obtain ⟨hnone, hscheduled⟩ := hlives.scheduled hstarted hids hstep
      (fun g hg => ⟨hkept g hg, hschedule g hg⟩) hp
    constructor
    · intro hran
      by_contra hlen
      -- It would have to have created a pointer for this child.
      obtain ⟨q, hq, -⟩ := hran (hscheduled.complete_iff.mpr hlen) child hchild
      rw [createdFor_eq_nil hreachable hids hmem hnone] at hq
      cases hq
    · exact fun hlen hcomplete => absurd hlen (hscheduled.complete_iff.mp hcomplete)
  · have hnone := hlives.recurring hstarted hstep hrecur hp
    have helapsed : elapsed recur (ownTurns x (givenBy changes)) = 0 ↔
        ∀ g ∈ (ownTurns x (givenBy changes)).tail, (recur g.resolve).stopCondition = true := by
      simp [elapsed, List.filter_eq_nil_iff]
    rw [← helapsed]
    -- No pointers are created, which is right only as long as no interval has elapsed.
    simp only [createdFor_eq_nil hreachable hids hmem hnone, List.length_nil]
    constructor
    · intro hcount
      have hpos := List.count_pos_iff.mpr hchild
      rcases Nat.mul_eq_zero.mp (hcount child hchild).symm with hzero | hzero
      · exact hzero
      · omega
    · intro hzero child _
      rw [hzero, Nat.zero_mul]

/-- A timed container with one child. -/
def timer : WorkflowStep := { WorkflowStep.new 0 "timer" with children := [1] }

def timed : WorkflowDefinition :=
  { WorkflowDefinition.new "timed" 1 with steps := [timer, WorkflowStep.new 1 "step"] }

/-- While it sleeps, a schedule has not completed. -/
theorem timed_containers_asleep : ∃ changes w x p, Lives timed (startOf timed) changes w ∧
    w.pointerAt x = some p ∧ p.status = .sleeping ∧
    (ownTurns x (givenBy changes)).length = 1 ∧ (p.status = .complete → RanChildren timer w p) := by
  obtain ⟨changes, w, hlives, hresolve, hw⟩ := Simulation.history_given (d := timed)
    (w := startOf timed) (r := fun _ => some (ScheduleStep.run {})) (l := ["a"])
    (f := fun changes w => w.pointerIds.Nodup ∧ ∃ p ∈ w.executionPointers,
      w.pointerAt ⟨0, p.id, 0⟩ = some p ∧ p.status = .sleeping ∧
      (ownTurns ⟨0, p.id, 0⟩ (givenBy changes)).length = 1 ∧
      ∀ g ∈ givenBy changes, g.turn.ran.isReturned = true) (by decide)
  obtain ⟨hids, p, -, hp, hstatus, hlen, hreturned⟩ := of_decide_eq_true hw
  obtain ⟨hschedule, -⟩ := timed_containers_iff timed timer ⟨0, p.id, 0⟩ rfl
    (List.cons_ne_nil _ _) (startOf timed) w changes (startOf_started _) hlives hids p hp
    (fun g hg hskipped => by
      simpa [hskipped, Ran.isReturned] using hreturned g (List.mem_of_mem_filter hg))
  refine ⟨changes, w, ⟨0, p.id, 0⟩, p, hlives, hp, hstatus, hlen, (hschedule ?_).mpr hlen.le⟩
  exact fun g hg => ⟨{}, by rw [hresolve g (List.mem_of_mem_filter hg)]⟩

/-- A schedule completes without its child, and a recurring container lets an interval elapse
without it. -/
theorem timed_without_children :
    (∃ changes w x p, Lives timed (startOf timed) changes w ∧ w.pointerIds.Nodup ∧
      (∀ g ∈ givenBy changes, g.resolve = fun _ => some (ScheduleStep.run {})) ∧
      w.pointerAt x = some p ∧ x.stepId = 0 ∧ p.status = .complete ∧ ¬RanChildren timer w p) ∧
    ∃ changes w x p, Lives timed (startOf timed) changes w ∧ w.pointerIds.Nodup ∧
      (∀ g ∈ givenBy changes, g.resolve = fun _ => some (RecurStep.run {})) ∧
      w.pointerAt x = some p ∧ x.stepId = 0 ∧
      elapsed (fun _ => {}) (ownTurns x (givenBy changes)) = 1 ∧ w.createdFor p 1 = [] := by
  constructor
  · obtain ⟨changes, w, hlives, hresolve, hw⟩ := Simulation.history_given (d := timed)
      (w := startOf timed) (r := fun _ => some (ScheduleStep.run {})) (l := ["b", "a"])
      (f := fun changes w => w.pointerIds.Nodup ∧ ∃ p ∈ w.executionPointers,
        w.pointerAt ⟨0, p.id, 0⟩ = some p ∧ p.status = .complete ∧ w.createdFor p 1 = [])
      (by decide)
    obtain ⟨hids, p, -, hp, hstatus, hnone⟩ := of_decide_eq_true hw
    refine ⟨changes, w, _, p, hlives, hids, hresolve, hp, rfl, hstatus, fun hran => ?_⟩
    obtain ⟨q, hq, -⟩ := hran 1 List.mem_cons_self
    rw [hnone] at hq
    cases hq
  · obtain ⟨changes, w, hlives, hresolve, hw⟩ := Simulation.history_given (d := timed)
      (w := startOf timed) (r := fun _ => some (RecurStep.run {})) (l := ["b", "a"])
      (f := fun changes w => w.pointerIds.Nodup ∧ ∃ p ∈ w.executionPointers,
        w.pointerAt ⟨0, p.id, 0⟩ = some p ∧
        elapsed (fun _ => {}) (ownTurns ⟨0, p.id, 0⟩ (givenBy changes)) = 1 ∧
        w.createdFor p 1 = []) (by decide)
    obtain ⟨hids, p, -, hp, helapsed, hnone⟩ := of_decide_eq_true hw
    exact ⟨changes, w, _, p, hlives, hids, hresolve, hp, rfl, helapsed, hnone⟩

end Wfe
