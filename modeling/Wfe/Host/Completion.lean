import Wfe.Host.History

/-!
# Completion and termination

The status a pass writes is decided by the failures in it. An error handler that suspends or
terminates the workflow overwrites its status at once, so the last one that does so decides; if
there is none, the workflow is complete when all its pointers are done. A suspension that comes
after a termination in the same pass revives the workflow.

## Main definitions

* `asked`: the statuses asked for by the failures of a pass
* `TerminatedLast`: no suspension overwrites a termination

## Main results

* `Conducts.status`: the status a pass writes
* `completion_exact`: a workflow is complete exactly when its pointers are done, and then frozen
* `terminate_wins`: a termination decides the pass, unless a suspension follows it
* `suspended_after_termination`: a terminated workflow that runs again
-/

namespace Wfe

open Program Provider

/-- The statuses asked for in the turns of a pass. -/
def asked (definition : WorkflowDefinition) (turns : List Turn) : List WorkflowStatus :=
  turns.filterMap (Turn.asks definition)

section Status

variable {definition : WorkflowDefinition} {resolve : StepResolver} {host : Option HostContext}
  {workflowId : String} {st st' : PassState} {t : Turn} {turns : List Turn}
  {w w' : WorkflowInstance} {c : Change}

@[simp] theorem mergeOutput_completeTime (w : WorkflowInstance) (out : Option Json) :
    (mergeOutput w out).completeTime = w.completeTime := by
  unfold mergeOutput
  split <;> rfl

@[simp] theorem applyStatus_status (env : Ambient) (status : Option WorkflowStatus)
    (w : WorkflowInstance) : (applyStatus env status w).status = status.getD w.status := by
  unfold applyStatus
  split <;> rfl

theorem applyStatus_completeTime (env : Ambient) (status : Option WorkflowStatus)
    (w : WorkflowInstance) : (applyStatus env status w).completeTime.isSome = true ↔
      w.completeTime.isSome = true ∨ status = some .terminated := by
  unfold applyStatus
  split
  · simp
  · simp
  · next s hstatus =>
    have hne : some s ≠ some WorkflowStatus.terminated := fun h => hstatus (Option.some_inj.mp h)
    simp [hne]

/-- An error handler suspends or terminates. -/
theorem askedStatus_eq_some {p : ExecutionPointer} {s : WorkflowStatus}
    (h : askedStatus p definition = some s) : s = .suspended ∨ s = .terminated := by
  unfold askedStatus at h
  split at h
  · split_ifs at h
    exact .inl (Option.some_inj.mp h).symm
  · exact .inl (Option.some_inj.mp h).symm
  · exact .inr (Option.some_inj.mp h).symm
  · cases h

theorem mem_asked {s : WorkflowStatus} :
    s ∈ asked definition turns ↔ ∃ t ∈ turns, t.asks definition = some s :=
  List.mem_filterMap

theorem eq_of_mem_asked {s : WorkflowStatus} (h : s ∈ asked definition turns) :
    s = .suspended ∨ s = .terminated := by
  obtain ⟨t, -, ht⟩ := mem_asked.mp h
  unfold Turn.asks at ht
  split at ht
  · exact askedStatus_eq_some ht
  · cases ht

theorem asked_append (turns turns' : List Turn) :
    asked definition (turns ++ turns') = asked definition turns ++ asked definition turns' :=
  List.filterMap_append

/-- What a turn does to the status of the workflow. -/
theorem Round.status (hround : Round definition resolve host workflowId st t.index [t.ran] st')
    (hpointer : st.workflow.executionPointers[t.index]? = some t.pointer) :
    st'.workflow.status = (t.asks definition).getD st.workflow.status ∧
      (st'.workflow.completeTime.isSome = true ↔ st.workflow.completeTime.isSome = true ∨
        t.asks definition = some .terminated) := by
  obtain ⟨index, pointer, data, ran⟩ := t
  dsimp only at hround hpointer
  cases hround with
  | skipped env p step h =>
    simp [skipPointer, Turn.asks, WorkflowInstance.pushPointers, WorkflowInstance.setPointer]
  | returned env env' p step body result h hbody =>
    simp [applyResult, Turn.asks, WorkflowInstance.pushPointers, WorkflowInstance.setPointer,
      PassState.started]
  | failed env env' p step body e h hbody =>
    -- Only a failure asks for a status, and marking the pointer as started does not change which.
    obtain ⟨hp, -⟩ := examinePointer_eq_run h
    obtain rfl : pointer = p := Option.some_inj.mp (hpointer.symm.trans hp)
    have hasked : askedStatus (startPointer env pointer) definition =
      askedStatus pointer definition := rfl
    refine ⟨?_, ?_⟩
    · simp [applyError, Turn.asks, WorkflowInstance.pushPointers, handleError_workflowStatus,
        hasked, WorkflowInstance.setPointer, PassState.started]
    · simp [applyError, Turn.asks, WorkflowInstance.pushPointers, handleError_workflowStatus,
        hasked, WorkflowInstance.setPointer, PassState.started, applyStatus_completeTime]

/-- The last failure that suspends or terminates the workflow decides. -/
theorem Turns.status (h : Turns definition resolve host workflowId st turns st') :
    st'.workflow.status = (asked definition turns).getLast?.getD st.workflow.status ∧
      (st'.workflow.completeTime.isSome = true ↔ st.workflow.completeTime.isSome = true ∨
        .terminated ∈ asked definition turns) := by
  induction h with
  | nil => simp [asked]
  | snoc hturns hpointer hdata hround ih =>
    rename_i turns t st' st''
    obtain ⟨hstatus, htime⟩ := hround.status hpointer
    have hone : asked definition [t] = (t.asks definition).toList := by
      cases ht : t.asks definition <;> simp [asked, ht]
    rw [hstatus, htime, ih.1, ih.2, asked_append, hone]
    cases t.asks definition with
    | none => simp
    | some s => simp [or_assoc, @eq_comm _ s]

/-- The status a pass writes: the last one asked for, or else complete or runnable. -/
theorem Conducts.status (h : Conducts definition resolve host w turns w') :
    w'.status = (asked definition turns).getLast?.getD
      (if allDone w' then .complete else .runnable) := by
  obtain ⟨hr, now, tm, st, hturns, -, rfl⟩ := h
  have hdone : allDone (concluded tm st.workflow) = allDone st.workflow := by
    rw [allDone, allDone, concluded_executionPointers]
  obtain ⟨hstatus, -⟩ := hturns.status
  rw [concluded_status, hdone, hstatus, hr]
  cases hlast : (asked definition turns).getLast? with
  | none => simp
  | some s =>
    have hs : s ≠ .runnable := by
      obtain rfl | rfl := eq_of_mem_asked (List.mem_of_getLast? hlast) <;> simp
    simp [hs]

theorem Conducts.status_eq_complete (h : Conducts definition resolve host w turns w') :
    w'.status = .complete ↔ allDone w' = true ∧ asked definition turns = [] := by
  rw [h.status]
  cases hlast : (asked definition turns).getLast? with
  | none => simp [List.getLast?_eq_none_iff.mp hlast]
  | some s =>
    have hs : s ≠ .complete := by
      obtain rfl | rfl := eq_of_mem_asked (List.mem_of_getLast? hlast) <;> simp
    have hasked : asked definition turns ≠ [] := List.ne_nil_of_mem (List.mem_of_getLast? hlast)
    simp [hs, hasked]

/-- If a pass leaves the workflow running or completes it, no failure has suspended or terminated
it. -/
theorem Conducts.asked_eq_nil (h : Conducts definition resolve host w turns w')
    (hw' : w'.status = .runnable ∨ w'.status = .complete) : asked definition turns = [] := by
  rw [h.status] at hw'
  rw [← List.getLast?_eq_none_iff]
  refine Option.eq_none_iff_forall_ne_some.mpr fun s hlast => ?_
  rw [hlast, Option.getD_some] at hw'
  obtain rfl | rfl := eq_of_mem_asked (List.mem_of_getLast? hlast) <;> simp at hw'

/-- The completion time a pass writes. -/
theorem Conducts.completeTime (h : Conducts definition resolve host w turns w') :
    w'.completeTime.isSome = true ↔ w.completeTime.isSome = true ∨
      .terminated ∈ asked definition turns ∨ w'.status = .complete := by
  obtain ⟨hr, now, tm, st, hturns, -, rfl⟩ := h
  obtain ⟨hstatus, htime⟩ := hturns.status
  have hcomplete : st.workflow.status ≠ .complete := by
    rw [hstatus, hr]
    cases hlast : (asked definition turns).getLast? with
    | none => simp
    | some s => obtain rfl | rfl := eq_of_mem_asked (List.mem_of_getLast? hlast) <;> simp
  rw [concluded_status, ← or_assoc, ← htime]
  unfold concluded
  split_ifs <;> simp [hcomplete]

/-! ## Completion -/

/-- What a complete instance looks like. -/
def WorkflowInstance.Finished (w : WorkflowInstance) : Prop :=
  w.status = .complete →
    w.completeTime.isSome = true ∧ ∀ p ∈ w.executionPointers, p.status.isDone = true

theorem Does.finished (h : Does definition w c w') (hw : w.Finished) : w'.Finished := by
  cases h with
  | pass hhost h =>
    intro hcomplete
    -- A pass completes the instance only when all pointers are done.
    obtain ⟨hdone, -⟩ := h.status_eq_complete.mp hcomplete
    refine ⟨h.completeTime.mpr (.inr (.inr hcomplete)), ?_⟩
    exact List.all_eq_true.mp (Bool.and_eq_true_iff.mp hdone).2
  | deliver event sub =>
    intro hcomplete
    obtain ⟨htime, hdone⟩ := hw hcomplete
    refine ⟨htime, fun q hq => ?_⟩
    obtain ⟨p, hp, rfl⟩ := List.mem_map.mp hq
    split_ifs <;> exact hdone p hp
  | inject endpoints =>
    rw [WorkflowInstance.Finished, withEndpoints_executionPointers, withEndpoints_status,
      withEndpoints_completeTime]
    exact hw
  | suspend | resume | terminate => rintro ⟨⟩

theorem Reachable.finished (h : Reachable definition w) : w.Finished := by
  refine h.invariant (N := WorkflowInstance.Finished) (fun w hw hcomplete => ?_)
    fun w w' hw hevolves => ?_
  · rw [hw.status] at hcomplete
    cases hcomplete
  · obtain ⟨c, hdoes⟩ := evolves_iff_does.mp hevolves
    exact hdoes.finished hw

/-- A complete instance is not changed, except by putting endpoints of services into its data. -/
theorem Does.frozen (h : Does definition w c w') (hw : w.Finished)
    (hcomplete : w.status = .complete) (hc : c ≠ .inject) :
    w'.status = w.status ∧ w'.data = w.data ∧
      w'.executionPointers = w.executionPointers ∧ w'.completeTime = w.completeTime := by
  cases h with
  | pass hhost h =>
    rw [h.1] at hcomplete
    cases hcomplete
  | deliver event sub =>
    refine ⟨rfl, rfl, ?_, rfl⟩
    -- Nobody waits for an event any more, so a late one changes nothing.
    have hsame : ∀ p ∈ w.executionPointers, ¬(p.id = sub.executionPointerId ∧
        p.status = .waitingForEvent) := by
      rintro p hp ⟨-, hwaits⟩
      have hdone := (hw hcomplete).2 p hp
      simp [hwaits, PointerStatus.isDone] at hdone
    exact (List.map_congr_left fun p hp => if_neg (hsame p hp)).trans (List.map_id _)
  | inject => exact absurd rfl hc
  | suspend h | resume h =>
    rw [hcomplete] at h
    cases h
  | terminate t h => exact absurd (.inl hcomplete) h

theorem Lives.frozen {changes : List Change} (h : Lives definition w changes w') (hw : w.Finished)
    (hcomplete : w.status = .complete) (hinject : .inject ∉ changes) :
    w'.status = w.status ∧ w'.data = w.data ∧ w'.executionPointers = w.executionPointers := by
  have hfrozen := h.rule (N := fun _ v => v.status = w.status ∧ v.data = w.data ∧
    v.executionPointers = w.executionPointers ∧ v.completeTime = w.completeTime)
    ⟨rfl, rfl, rfl, rfl⟩ ?_
  · exact ⟨hfrozen.1, hfrozen.2.1, hfrozen.2.2.1⟩
  · rintro done c v v' hdone ⟨hstatus, hdata, hpointers, htime⟩ hdoes
    have hv : v.Finished := by
      rw [WorkflowInstance.Finished, hstatus, hpointers, htime]
      exact hw
    have hc : c ≠ .inject := by
      rintro rfl
      exact hinject (hdone.subset (by simp))
    obtain ⟨hstatus', hdata', hpointers', htime'⟩ :=
      hdoes.frozen hv (hstatus.trans hcomplete) hc
    exact ⟨hstatus'.trans hstatus, hdata'.trans hdata, hpointers'.trans hpointers,
      htime'.trans htime⟩

/-- An instance of a definition with steps always has a pointer. -/
theorem Reachable.pointers_ne_nil (h : Reachable definition w) (hsteps : definition.steps ≠ []) :
    w.executionPointers ≠ [] := by
  refine h.invariant (N := fun w => w.executionPointers ≠ []) (fun w hw => ?_)
    fun w w' hw hevolves => ?_
  · rcases hw.pointers with ⟨hnil, -⟩ | ⟨p, -, hp, -⟩
    · exact absurd hnil hsteps
    · simp [hp]
  · obtain ⟨c, hdoes⟩ := evolves_iff_does.mp hevolves
    intro hnil
    have hpre := hdoes.pointerIds
    rw [WorkflowInstance.pointerIds, WorkflowInstance.pointerIds, hnil, List.map_nil,
      List.prefix_nil, List.map_eq_nil_iff] at hpre
    exact hw hpre

end Status

/-- **Completion is exact.** A pass completes a workflow exactly when all its pointers are done and
no failure has suspended or terminated it. A complete workflow has its completion time set, no
active pointer and none that waits, and is not changed by the operations of the hosts. -/
theorem completion_exact (definition : WorkflowDefinition) (hsteps : definition.steps ≠ [])
    (w : WorkflowInstance) (h : Reachable definition w) :
    (∀ (resolve : StepResolver) (host : Option HostContext) (turns : List Turn)
      (w' : WorkflowInstance), Conducts definition resolve host w turns w' →
      (w'.status = .complete ↔ (∀ p ∈ w'.executionPointers, p.status.isDone = true) ∧
        ∀ t ∈ turns, t.asks definition = none)) ∧
    (w.status = .complete → w.completeTime.isSome = true ∧
      (∀ p ∈ w.executionPointers, p.active = false ∧ p.status ≠ .waitingForEvent) ∧
      ∀ (changes : List Change) (w' : WorkflowInstance), Lives definition w changes w' →
        .inject ∉ changes → w'.status = .complete ∧ w'.data = w.data ∧
          w'.executionPointers = w.executionPointers) := by
  refine ⟨fun resolve host turns w' hconducts => ?_, fun hcomplete => ?_⟩
  · -- An instance of a definition with steps always has pointers.
    have hne : w'.executionPointers ≠ [] := by
      intro hnil
      have hpre := (pass_iff_conducts.mpr ⟨_, hconducts, rfl⟩).pointerIds
      rw [WorkflowInstance.pointerIds, WorkflowInstance.pointerIds, hnil, List.map_nil,
        List.prefix_nil, List.map_eq_nil_iff] at hpre
      exact h.pointers_ne_nil hsteps hpre
    have hall : allDone w' = true ↔ ∀ p ∈ w'.executionPointers, p.status.isDone = true := by
      simp [allDone, hne]
    have hnone : (∀ t ∈ turns, t.asks definition = none) ↔ asked definition turns = [] := by
      simp [asked]
    rw [hconducts.status_eq_complete, hall, hnone]
  · obtain ⟨htime, hdone⟩ := h.finished hcomplete
    refine ⟨htime, fun p hp => ⟨(h.consistent p hp).1 (hdone p hp), fun hwaits => ?_⟩,
      fun changes w' hlives hinject => ?_⟩
    · have hp := hdone p hp
      simp [hwaits, PointerStatus.isDone] at hp
    · obtain ⟨hstatus, hdata, hpointers⟩ := hlives.frozen h.finished hcomplete hinject
      exact ⟨hstatus.trans hcomplete, hdata, hpointers⟩

/-- The instance of two steps is complete after two passes. -/
theorem completion_exact_two_steps : ∃ w, Reachable twoSteps w ∧ w.status = .complete ∧
    w.completeTime.isSome = true ∧
    ∀ p ∈ w.executionPointers, p.active = false ∧ p.status ≠ .waitingForEvent := by
  obtain ⟨changes, w, hlives, hw⟩ := Simulation.history_any (d := twoSteps)
    (w := startOf twoSteps) (l := [.pass proceeding "b", .pass proceeding "a"])
    (f := fun _ w => w.status = .complete) (by decide)
  have hreachable : Reachable twoSteps w := ⟨_, startOf_started _, hlives.evolves⟩
  have hcomplete : w.status = .complete := of_decide_eq_true hw
  obtain ⟨htime, hpointers, -⟩ :=
    (completion_exact twoSteps (by decide) w hreachable).2 hcomplete
  exact ⟨w, hreachable, hcomplete, htime, hpointers⟩

/-! ## Termination -/

/-- Of the failures of a pass that suspend or terminate the workflow, the last one terminates it, if
any does. -/
def TerminatedLast (definition : WorkflowDefinition) (turns : List Turn) : Prop :=
  .terminated ∈ asked definition turns → (asked definition turns).getLast? = some .terminated

instance (definition : WorkflowDefinition) : DecidablePred (TerminatedLast definition) :=
  fun _ => inferInstanceAs (Decidable (_ → _))

section Termination

variable {definition : WorkflowDefinition} {resolve : StepResolver} {host : Option HostContext}
  {turns : List Turn} {w w' : WorkflowInstance} {c : Change}

/-- The completion time is set on complete and terminated instances only. -/
def WorkflowInstance.Timed (w : WorkflowInstance) : Prop :=
  w.completeTime.isSome = true → w.status = .complete ∨ w.status = .terminated

theorem WorkflowInstance.Timed.completeTime (h : w.Timed)
    (hstatus : w.status = .runnable ∨ w.status = .suspended) : ¬w.completeTime.isSome = true := by
  intro htime
  obtain h | h := h htime <;> simp [h] at hstatus

/-- A pass keeps the completion time in order, if no suspension follows a termination. -/
theorem Conducts.timed (h : Conducts definition resolve host w turns w') (hw : w.Timed)
    (hlast : TerminatedLast definition turns) : w'.Timed := by
  intro htime
  rcases h.completeTime.mp htime with htime | hterminated | hcomplete
  · exact absurd htime (hw.completeTime (.inl h.1))
  · right
    rw [h.status, hlast hterminated, Option.getD_some]
  · exact .inl hcomplete

theorem Does.timed (h : Does definition w c w') (hw : w.Timed)
    (hlast : TerminatedLast definition c.turns) : w'.Timed := by
  cases h with
  | pass hhost h => exact h.timed hw hlast
  | deliver event sub => exact hw
  | inject endpoints =>
    rw [WorkflowInstance.Timed, withEndpoints_completeTime, withEndpoints_status]
    exact hw
  | suspend h => exact fun htime => absurd htime (hw.completeTime (.inl h))
  | resume h => exact fun htime => absurd htime (hw.completeTime (.inr h))
  | terminate t h => exact fun _ => .inr rfl

/-- A terminated instance stays terminated. -/
theorem Does.terminated (h : Does definition w c w') (hw : w.status = .terminated) :
    w'.status = .terminated := by
  cases h with
  | pass hhost h =>
    rw [h.1] at hw
    cases hw
  | deliver event sub => exact hw
  | inject endpoints => rwa [withEndpoints_status]
  | suspend h | resume h =>
    rw [hw] at h
    cases h
  | terminate t h => rfl

theorem terminated_of_evolves (h : Relation.ReflTransGen (Evolves definition) w w')
    (hw : w.status = .terminated) : w'.status = .terminated := by
  induction h with
  | refl => exact hw
  | tail _ hevolves ih =>
    obtain ⟨c, hdoes⟩ := evolves_iff_does.mp hevolves
    exact hdoes.terminated ih

theorem Started.completeTime (h : Started definition w) : w.completeTime = none := by
  cases h <;> rfl

end Termination

/-- **A termination decides its pass** exactly where no suspension follows it. If that is so in all
passes of a run, a completion time is set on complete and terminated instances only; and a pass
over the instance terminates it for good when one of its failures does, if and only if the last
failure that suspends or terminates it is of that kind. -/
theorem terminate_wins (definition : WorkflowDefinition) (w₀ w : WorkflowInstance)
    (changes : List Change) (hstarted : Started definition w₀)
    (hlives : Lives definition w₀ changes w)
    (hlast : ∀ c ∈ changes, TerminatedLast definition c.turns) :
    (w.completeTime.isSome = true → w.status = .complete ∨ w.status = .terminated) ∧
    ∀ (resolve : StepResolver) (host : Option HostContext) (turns : List Turn)
      (w' : WorkflowInstance), Conducts definition resolve host w turns w' →
      (TerminatedLast definition turns ↔
        ((∃ t ∈ turns, t.asks definition = some .terminated) → w'.status = .terminated ∧
          w'.completeTime.isSome = true ∧
          ∀ w'', Relation.ReflTransGen (Evolves definition) w' w'' → w''.status ≠ .runnable) ∧
        (w'.completeTime.isSome = true → w'.status = .complete ∨ w'.status = .terminated)) := by
  -- In the runs considered, the completion time is set only with the final status.
  have htimed : w.Timed := hlives.rule (N := fun _ w => w.Timed)
    (fun htime => by simp [hstarted.completeTime] at htime)
    fun done c w w' hdone hw hdoes => hdoes.timed hw (hlast c (hdone.subset (by simp)))
  refine ⟨htimed, fun resolve host turns w' h => ⟨fun hlast => ⟨fun hasks => ?_, ?_⟩, ?_⟩⟩
  · have hmem : .terminated ∈ asked definition turns := mem_asked.mpr hasks
    have hstatus : w'.status = .terminated := by
      rw [h.status, hlast hmem, Option.getD_some]
    refine ⟨hstatus, h.completeTime.mpr (.inr (.inl hmem)), fun w'' hevolves hrunnable => ?_⟩
    rw [terminated_of_evolves hevolves hstatus] at hrunnable
    cases hrunnable
  · exact h.timed htimed hlast
  · rintro ⟨hwins, -⟩ hmem
    -- Conversely, the persisted status is the last one asked for.
    have hstatus := (hwins (mem_asked.mp hmem)).1
    rw [h.status] at hstatus
    cases hlast : (asked definition turns).getLast? with
    | none => simp [List.getLast?_eq_none_iff.mp hlast] at hmem
    | some s => rw [← hstatus, hlast, Option.getD_some]

/-- A body that fails. -/
def failingBody : StepBody := fun _ => throw (.other "failed")

/-- Two steps side by side, with what their failures do. -/
def failures (first second : ErrorBehavior) : WorkflowDefinition :=
  { WorkflowDefinition.new "failures" 1 with
    steps := [
      { WorkflowStep.new 0 sequenceKey with children := [1, 2] },
      { WorkflowStep.new 1 "first" with errorBehavior := some first },
      { WorkflowStep.new 2 "second" with errorBehavior := some second }] }

/-- The failure of the first step terminates the workflow, that of the second one suspends it. -/
def twoFailures : WorkflowDefinition := failures .terminate .suspend

/-- The failure of the first step suspends the workflow, that of the second one terminates it. -/
def suspendFirst : WorkflowDefinition := failures .suspend .terminate

/-- Containers, and bodies that fail for the step types given. -/
def failingAt (stepTypes : List String) : StepResolver := fun stepType =>
  if stepType ∈ stepTypes then some failingBody else proceeding stepType

/-- A termination after a suspension: the workflow is terminated. -/
theorem terminate_wins_second : ∃ changes w turns w',
    Lives suspendFirst (startOf suspendFirst) changes w ∧
    Conducts suspendFirst (failingAt ["first", "second"]) none w turns w' ∧
    asked suspendFirst turns = [.suspended, .terminated] ∧
    w'.status = .terminated ∧ w'.completeTime.isSome = true := by
  obtain ⟨changes, w, hlives, hw⟩ := Simulation.history_any (d := suspendFirst)
    (w := startOf suspendFirst) (l := [.pass proceeding "a"])
    (f := fun changes w => (∀ c ∈ changes, TerminatedLast suspendFirst c.turns) ∧
      (Simulation.conduct suspendFirst (failingAt ["first", "second"]) none "b" w).any
        (Function.uncurry fun turns _ => TerminatedLast suspendFirst turns ∧
          asked suspendFirst turns = [.suspended, .terminated]))
    (by decide)
  obtain ⟨hchanges, hconduct⟩ := of_decide_eq_true hw
  obtain ⟨⟨turns, w'⟩, hconducts, hturns⟩ := (Option.any_eq_true _ _).mp hconduct
  obtain ⟨hlast, hasked⟩ := of_decide_eq_true hturns
  have hpass := Simulation.conduct_sound hconducts
  obtain ⟨-, hwins⟩ := terminate_wins suspendFirst _ w changes (startOf_started _) hlives hchanges
  have hasks : .terminated ∈ asked suspendFirst turns := by
    rw [hasked]
    exact .tail _ (.head _)
  obtain ⟨hstatus, htime, -⟩ := ((hwins _ _ _ _ hpass).mp hlast).1 (mem_asked.mp hasks)
  exact ⟨changes, w, turns, w', hlives, hpass, hasked, hstatus, htime⟩

/-- The second failure suspends the workflow that the first one has terminated, and it can be
resumed. -/
theorem suspended_after_termination : ∃ w turns w' w'', Reachable twoFailures w ∧
    Conducts twoFailures (failingAt ["first", "second"]) none w turns w' ∧
    (∃ t ∈ turns, t.asks twoFailures = some .terminated) ∧ w'.status = .suspended ∧
    w'.completeTime.isSome = true ∧ Evolves twoFailures w' w'' ∧ w''.status = .runnable := by
  obtain ⟨changes, w, hlives, hw⟩ := Simulation.history_any (d := twoFailures)
    (w := startOf twoFailures) (l := [.pass proceeding "a"])
    (f := fun _ w =>
      (Simulation.conduct twoFailures (failingAt ["first", "second"]) none "b" w).any
        (Function.uncurry fun turns w' => (∃ t ∈ turns, t.asks twoFailures = some .terminated) ∧
          w'.status = .suspended ∧ w'.completeTime.isSome = true))
    (by decide)
  obtain ⟨⟨turns, w'⟩, hconducts, hturns⟩ := (Option.any_eq_true _ _).mp hw
  obtain ⟨hasks, hstatus, htime⟩ := of_decide_eq_true hturns
  exact ⟨w, turns, w', _, ⟨_, startOf_started _, hlives.evolves⟩,
    Simulation.conduct_sound hconducts, hasks, hstatus, htime, .resume hstatus, rfl⟩

end Wfe
