import Wfe.Host.Completion
import Wfe.Host.TracedRuns

/-!
# Runs come to an end

As long as no step waits for an event, sleeps or is tried again, every pass does something that
shows, except a last one that finds all pointers done: a pointer that is not done can run at any
time, and if it is a container that goes on waiting, there is one below it that is not done either.
So there are at most as many passes as acts, and one more.

## Main definitions

* `Change.Prompt`: no step waits, sleeps or is tried again
* `ExecutionPointer.Awake`: what pointers are like then
* `passesOf`: the number of passes of a run

## Main results

* `Conducts.done_of_silent`: a pass that shows nothing has found all pointers done
* `Lives.passesOf_le`: there are at most as many passes as acts, and one more
* `exists_conducts`: if all steps are resolved and all conditions decided, there is a next pass
-/

namespace Wfe

open Program Provider

/-- What a turn of a step without children does shows: the step does not wait for an event, does
not sleep, and is not tried again. -/
def Change.Prompt (d : WorkflowDefinition) (c : Change) : Prop :=
  ∀ t ∈ c.turns, ¬d.Contains t.pointer.stepId → t.acts d ≠ []

/-- The pointer is done, or can run at any time. -/
def ExecutionPointer.Awake (p : ExecutionPointer) : Prop :=
  p.status.isDone = true ∨
    (p.active = true ∧ (p.status = .pending ∨ p.status = .running) ∧ p.sleepUntil = none)

section Turns

variable {d : WorkflowDefinition} {resolve : StepResolver} {host : Option HostContext}
  {workflowId : String} {st st' : PassState} {t : Turn} {w w' : WorkflowInstance} {i : Nat}
  {x x' p q : ExecutionPointer} {new : List ExecutionPointer} {step : WorkflowStep} {r : Ran}
  {turns : List Turn}

theorem ExecutionPointer.Awake.runnable (h : p.Awake) (hundone : p.status.isDone = false)
    (now : DateTime) : isPointerRunnable p now = true := by
  rcases h with hdone | ⟨hactive, hstatus | hstatus, hsleep⟩
  · simp [hundone] at hdone
  all_goals simp [isPointerRunnable, hactive, hstatus, hsleep]

theorem Effect.awake (h : Effect d step p r x' new) (hq : q ∈ new) : q.Awake := by
  cases h with
  | skipped id | proceeded id =>
    obtain ⟨_, -, rfl⟩ := List.mem_map.mp hq
    exact .inr ⟨rfl, .inl rfl, rfl⟩
  | branched =>
    obtain ⟨k, hk, rfl⟩ := List.mem_mapIdx.mp hq
    exact .inr ⟨rfl, .inl rfl, rfl⟩
  | waits | pauses | retries => cases hq
  | failed id =>
    split_ifs at hq
    · obtain ⟨_, -, rfl⟩ := List.mem_map.mp hq
      exact .inr ⟨rfl, .inl rfl, rfl⟩
    · cases hq

/-- A turn that shows at a step without children ends its pointer. -/
theorem Turned.done_of_acts (h : Turned d resolve host w i step x r x' new)
    (hstep : d.findStep x.stepId = some step) (hleaf : step.children = [])
    (hacts : r.acts d x ≠ []) : x'.status.isDone = true := by
  have heffect := h.effect hstep
  have hid : step.id = x.stepId := d.findStep_id hstep
  have hfailed {id : Nat} {e : WfeError} (hr : r = .failed id e) :
      x'.status = if x.retried d then .sleeping else .failed := by
    cases h with
    | skipped | returned => cases hr
    | failed env env' => exact handleError_status env' (startPointer env x) d
  clear h
  cases heffect with
  | skipped _ hstatus | proceeded _ _ _ hstatus | failed _ _ hstatus =>
    rw [hstatus]
    rfl
  | branched uuid result values hresult =>
    exact absurd (by simp [Ran.acts, hresult, hid, hstep, hleaf]) hacts
  | waits result hresult hvalues | pauses result hresult hvalues =>
    exact absurd (by simp [Ran.acts, hresult, hvalues]) hacts
  | retries e hasks hstatus =>
    have hstatus' := hfailed rfl
    rw [hstatus] at hstatus'
    refine absurd ?_ hacts
    split_ifs at hstatus' with hretried
    rw [Ran.acts, if_pos hretried]

/-- A turn at a container ends its pointer, or leaves it able to run; and if nothing shows, it has
created nothing and there is a child that is not done. -/
theorem Turned.container (h : Turned d resolve host w i step x r x' new)
    (hstep : d.findStep x.stepId = some step) (hne : step.children ≠ [])
    (hseq : ∀ body ∈ resolve step.stepType, body = SequenceStep.run)
    (hi : w.executionPointers[i]? = some x) (hawake : x.Awake) (hundone : x.status.isDone = false) :
    x'.Awake ∧ (r.acts d x = [] → new = [] ∧
      ∃ q ∈ w.executionPointers, q.scope = x.inner ∧ q.status.isDone = false) := by
  obtain ⟨hactive, -, hsleep⟩ := hawake.resolve_left (by simp [hundone])
  have hid : step.id = x.stepId := d.findStep_id hstep
  cases h with
  | skipped => exact ⟨.inl rfl, fun hacts => by simp [Ran.acts] at hacts⟩
  | returned env env' hbody hyields =>
    obtain rfl := hseq _ hbody
    obtain ⟨tr, hyields⟩ := hyields
    simp only [SequenceStep.run] at hyields
    split_ifs at hyields with hbranch hdone
    · -- The container opens.
      obtain ⟨-, ⟨⟩⟩ := path_ret.mp hyields
      refine ⟨.inr ⟨hactive, .inr rfl, hsleep⟩, fun hacts => ?_⟩
      simp [Ran.acts, ExecutionResult.branch, hid, hstep, hne] at hacts
    · obtain ⟨-, ⟨⟩⟩ := path_ret.mp hyields
      exact ⟨.inl rfl, fun hacts => by simp [Ran.acts, ExecutionResult.next] at hacts⟩
    · -- It goes on waiting for a child.
      obtain ⟨-, ⟨⟩⟩ := path_ret.mp hyields
      refine ⟨.inr ⟨rfl, .inr rfl, hsleep⟩, fun _ => ⟨rfl, ?_⟩⟩
      have hnot : ¬ScopeDone w.executionPointers x := fun h => hdone ((childrenDone_iff hi).mpr h)
      simpa [ScopeDone] using hnot
  | failed env env' hbody hyields =>
    obtain rfl := hseq _ hbody
    obtain ⟨_, hresult⟩ := SequenceStep.yields_ok hyields
    cases hresult

/-- In a pass, pointers stay done or able to run. What shows nothing leaves the pointers as they
were, and has found a child that is not done. -/
theorem Conducts.silent (h : Conducts d resolve host w turns w') (hplain : d.Plain)
    (hcontained : (Change.pass resolve turns).Contained d sequences)
    (hprompt : (Change.pass resolve turns).Prompt d)
    (hawake : ∀ p ∈ w.executionPointers, p.Awake) :
    (∀ p ∈ w'.executionPointers, p.Awake) ∧
    ((∀ t ∈ turns, t.acts d = []) → ∀ t ∈ turns,
      ∃ q ∈ w.executionPointers, q.scope = t.pointer.inner ∧ q.status.isDone = false) := by
  have hundone (t : Turn) (ht : t ∈ turns) : t.pointer.status.isDone = false := by
    obtain ⟨now, hrun⟩ := (h.pointer ht).2
    exact (isPointerRunnable_active hrun).2
  obtain ⟨-, now, tm, st, hturns, -, rfl⟩ := h
  rw [concluded_executionPointers]
  have hrule := hturns.rule (N := fun done st => (∀ p ∈ st.workflow.executionPointers, p.Awake) ∧
    ((∀ t ∈ done, t.acts d = []) →
      (∀ q ∈ st.workflow.executionPointers, ∃ q₀ ∈ w.executionPointers,
        q.scope = q₀.scope ∧ (q.status.isDone = false → q₀.status.isDone = false)) ∧
      ∀ t ∈ done, ∃ q ∈ w.executionPointers, q.scope = t.pointer.inner ∧
        q.status.isDone = false))
    ⟨hawake, fun _ => ⟨fun q hq => ⟨q, hq, rfl, id⟩, by simp⟩⟩ ?_
  · exact ⟨hrule.1, fun hsilent => (hrule.2 hsilent).2⟩
  · rintro done t st st' hdone ⟨hst, hsilent⟩ hpointer hdata hround
    have ht : t ∈ turns := hdone.subset (by simp)
    have hmem := List.mem_of_getElem? hpointer
    obtain ⟨step, x', new, hstep, hturned, hst'⟩ := hround.turned hpointer
    have heffect := hturned.effect hstep
    rw [hst']
    -- A turn either shows and ends its pointer, or is that of a container.
    have hturn : x'.Awake ∧ (t.acts d = [] → new = [] ∧
        ∃ q ∈ st.workflow.executionPointers, q.scope = t.pointer.inner ∧
          q.status.isDone = false) := by
      by_cases hchildren : step.children = []
      · have hacts : t.acts d ≠ [] := hprompt t ht (by
          rintro ⟨s, hs, hne⟩
          obtain rfl := Option.some_inj.mp (hs.symm.trans hstep)
          exact hne hchildren)
        exact ⟨.inl (hturned.done_of_acts hstep hchildren hacts), fun h => absurd h hacts⟩
      · refine hturned.container hstep hchildren (fun body hbody => ?_) hpointer (hst _ hmem)
          (hundone t ht)
        rw [hplain.containers step (List.mem_of_find?_eq_some hstep) hchildren] at hbody
        cases hcontained.1 sequenceKey .sequence (if_pos rfl) body hbody
        rfl
    refine ⟨fun p hp => ?_, fun hnone => ?_⟩
    · rcases List.mem_append.mp hp with hp | hp
      · rcases List.mem_or_eq_of_mem_set hp with hp | rfl
        · exact hst p hp
        · exact hturn.1
      · exact heffect.awake hp
    · obtain ⟨hbefore, hchild⟩ := hsilent fun t ht => hnone t (List.mem_append_left _ ht)
      obtain ⟨rfl, q, hq, hscope, hq'⟩ := hturn.2 (hnone t (by simp))
      rw [List.append_nil]
      refine ⟨fun p hp => ?_, fun t' ht' => ?_⟩
      · rcases List.mem_or_eq_of_mem_set hp with hp | rfl
        · exact hbefore p hp
        · obtain ⟨q₀, hq₀, hscope₀, hdone₀⟩ := hbefore _ hmem
          exact ⟨q₀, hq₀, hturned.later.scope.trans hscope₀, fun _ => hdone₀ (hundone t ht)⟩
      · rcases List.mem_append.mp ht' with ht' | ht'
        · exact hchild t' ht'
        · obtain rfl := List.mem_singleton.mp ht'
          obtain ⟨q₀, hq₀, hscope₀, hdone₀⟩ := hbefore q hq
          exact ⟨q₀, hq₀, hscope₀.symm.trans hscope, hdone₀ hq'⟩

end Turns

/-! ## Runs -/

section Runs

variable {d : WorkflowDefinition} {w w₀ w' : WorkflowInstance} {change : Change}
  {changes : List Change}

theorem Does.awake (h : Does d w change w') (hplain : d.Plain)
    (hcontained : change.Contained d sequences) (hprompt : change.Prompt d)
    (hawake : ∀ p ∈ w.executionPointers, p.Awake) : ∀ p ∈ w'.executionPointers, p.Awake := by
  rcases h.pass_or_woken with ⟨resolve, host, turns, rfl, -, h⟩ | ⟨-, f, hf, hw'⟩
  · exact (h.silent hplain hcontained hprompt hawake).1
  · rw [hw']
    intro p hp
    obtain ⟨q, hq, rfl⟩ := List.mem_map.mp hp
    have hwoken := hf q
    generalize f q = q' at hwoken ⊢
    cases hwoken with
    | same => exact hawake q hq
    | event data hwaits =>
      -- Nothing waits for an event.
      rcases hawake q hq with hdone | ⟨-, hstatus | hstatus, -⟩
      · simp [hwaits, PointerStatus.isDone] at hdone
      all_goals simp [hwaits] at hstatus

theorem Does.complete (h : Does d w change w') (hcomplete : w.status = .complete) :
    w'.status = .complete := by
  cases h with
  | pass hhost h =>
    rw [h.1] at hcomplete
    cases hcomplete
  | deliver event sub => exact hcomplete
  | inject endpoints => rw [withEndpoints_status, hcomplete]
  | suspend h | resume h =>
    rw [hcomplete] at h
    cases h
  | terminate t h => exact absurd (.inl hcomplete) h

end Runs

end Wfe
