import Mathlib.Data.Finset.Dedup
import Mathlib.Data.Finset.Order
import Wfe.Host.Traces

/-!
# The traces of runs

Every turn does the first of what can still come of the pointers of its instance. A run, followed by
what can still come after it, is therefore a trace of the definition.

## Main definitions

* `WorkflowDefinition.Plain`: the definitions this is about

## Main results

* `Turned.rest`, `Round.rest`: what a turn does comes before what can come afterwards
* `Lives.rest`: a run, followed by what can still come, is what could come at its start
* `Lives.traces`: a run is a prefix of a trace, and a whole one when its pointers are done
-/

namespace Wfe

open Program Provider

/-! ## Turns -/

/-- Outcomes carry no values, and all containers are sequences. -/
structure WorkflowDefinition.Plain (d : WorkflowDefinition) : Prop where
  outcomes : ∀ s ∈ d.steps, ∀ o ∈ s.outcomes, o.value = none
  containers : ∀ s ∈ d.steps, s.children ≠ [] → s.stepType = sequenceKey

section Turns

variable {d : WorkflowDefinition} {resolve : StepResolver} {host : Option HostContext}
  {workflowId : String} {st st' : PassState} {t : Turn} {w : WorkflowInstance} {i : Nat}
  {a b new : List ExecutionPointer} {x x' : ExecutionPointer} {step : WorkflowStep} {r : Ran}
  {v : List (Act × Nat)}

/-- Without values, all outcomes lead where the first one leads. -/
theorem findNextStep_of_values {s : WorkflowStep} (h : ∀ o ∈ s.outcomes, o.value = none)
    (value : Option Json) : findNextStep s value = s.next := by
  have hmatching : (value.bind fun value =>
      s.outcomes.find? fun o => o.value.any fun ov => ov.same value) = none := by
    cases value with
    | none => rfl
    | some value =>
      refine List.find?_eq_none.mpr fun o ho => ?_
      rw [h o ho]
      exact Bool.false_ne_true
  rw [findNextStep, hmatching, WorkflowStep.next]
  cases hs : s.outcomes with
  | nil => rfl
  | cons o os =>
    have ho := h o (by simp [hs])
    simp [ho]

theorem SequenceStep.yields_ok {context : StepExecutionContext}
    {r : Except WfeError ExecutionResult} (h : Yields host SequenceStep.run context r) :
    ∃ result, r = .ok result := by
  obtain ⟨tr, h⟩ := h
  simp only [SequenceStep.run] at h
  split_ifs at h <;>
  · obtain ⟨-, rfl⟩ := path_ret.mp h
    exact ⟨_, rfl⟩

/-- A pointer whose body fails is retried, or fails for good. -/
theorem handleError_status (env : Ambient) (p : ExecutionPointer) (d : WorkflowDefinition) :
    (handleError env p d).1.status = if p.retried d then .sleeping else .failed := by
  unfold handleError ExecutionPointer.retried
  cases errorBehaviorOf p d with
  | retry interval maxRetries =>
    dsimp only
    split_ifs <;> simp_all
  | _ => rfl

theorem handleError_new (env : Ambient) {p : ExecutionPointer}
    (hstep : d.findStep p.stepId = some step) (hretried : p.retried d = false) :
    (handleError env p d).2.newPointers =
      (d.afterFailure step).toList.map fun id => successorPointer (env.uuid 0) id p d := by
  have hbehavior : errorBehaviorOf p d = step.errorBehavior.getD d.defaultErrorBehavior := by
    rw [errorBehaviorOf, hstep, Option.bind_some]
  rw [ExecutionPointer.retried, hbehavior] at hretried
  rw [handleError, hbehavior, WorkflowDefinition.afterFailure]
  cases hb : step.errorBehavior.getD d.defaultErrorBehavior with
  | retry interval maxRetries =>
    rw [hb] at hretried
    dsimp only at hretried ⊢
    rw [if_pos (by simpa using hretried)]
    rfl
  | compensate =>
    rw [hstep]
    rfl
  | _ => rfl

/-- The successors of a pointer. -/
theorem map_stepId_successors (uuid : String) (next : Option Nat) (p : ExecutionPointer) :
    (next.toList.map fun id => successorPointer uuid id p d).map ExecutionPointer.stepId =
      next.toList := by
  cases next <;> rfl

theorem Effect.ran_of_skipped (h : Effect d step x r x' new) (hstatus : x'.status = .skipped) :
    r = .skipped step.id := by
  cases h with
  | skipped => rfl
  | pauses _ _ _ _ h => rcases h with h | h <;> simp [h] at hstatus
  | proceeded _ _ _ h | branched _ _ _ _ _ h | waits _ _ _ _ h | retries _ _ h | failed _ _ h =>
    simp [h] at hstatus

/-- What a turn does comes before what can come afterwards. -/
theorem Turned.rest (hturned : Turned d resolve host w i step x r x' new)
    (hw : w.executionPointers = a ++ x :: b) (hi : w.executionPointers[i]? = some x)
    (hstep : d.findStep x.stepId = some step) (hplain : d.Plain)
    (hseq : ∀ body ∈ resolve sequenceKey, body = SequenceStep.run)
    (hadvance : Advance a b x x' new) (hundone : x.status.isDone = false)
    (hskipped : x'.status = .skipped → inScope (a ++ x :: b) x.inner = [])
    (hleaf : step.children = [] → inScope (a ++ x :: b) x.inner = [])
    (hclosed : x'.status = .complete → ∀ q ∈ inScope (a ++ x :: b) x.inner, q.status.isDone = true)
    (hfresh : ∀ q ∈ new, inScope (a ++ x' :: b ++ new) q.inner = [])
    (hrest : Rest d (a ++ x' :: b ++ new) (x' :: inScope new x.scope) v) :
    Rest d (a ++ x :: b) [x] (r.acts d x ++ v) := by
  have heffect := hturned.effect hstep
  have hmem : step ∈ d.steps := List.mem_of_find?_eq_some hstep
  have hid : step.id = x.stepId := d.findStep_id hstep
  have hnew : ∀ q ∈ new, q.status.isDone = false := fun q hq => by
    rw [(heffect.fresh hq).status]
    rfl
  have hsucc (hdone : x'.status.isDone = true) (hscope : ∀ q ∈ new, q.scope = x.scope) :
      Traces d (new.map ExecutionPointer.stepId) v := by
    rw [inScope_eq_self hscope] at hrest
    exact hrest.successors hdone hnew hfresh
  -- A step with children is run by `SequenceStep`.
  have hbody (htype : step.stepType = sequenceKey) {body : StepBody}
      (h : resolve step.stepType = some body) : body = SequenceStep.run := hseq body (htype ▸ h)
  have hyields (hne : step.children ≠ []) {id : Nat} {result : ExecutionResult}
      (hr : r = .returned id result) :
      (result = .branch [.null] none ∧ inScope (a ++ x :: b) x.inner = []) ∨
      (result = .next ∧ inScope (a ++ x :: b) x.inner ≠ []) ∨
      result = .persist (.object [("children_active", .bool true)]) := by
    cases hturned with
    | skipped | failed => cases hr
    | returned env env' hresolve h =>
      cases hr
      rw [hbody (hplain.containers step hmem hne) hresolve] at h
      have hiff (scope : List String) := @scope_started _ w x env hi scope
      simp only [hw] at hiff
      rcases SequenceStep.yields h with ⟨hresult, -, hnone⟩ | ⟨hresult, hsome⟩ | hresult
      · refine .inl ⟨hresult, inScope_eq_nil.mpr fun q hq hscope => ?_⟩
        obtain ⟨q', hq', hscope'⟩ := (hiff _).mpr ⟨q, hq, hscope⟩
        exact hnone q' hq' hscope'
      · obtain ⟨q, hq, hscope⟩ := (hiff _).mp (hsome hne)
        exact .inr (.inl ⟨hresult, List.ne_nil_of_mem (mem_inScope.mpr ⟨hq, hscope⟩)⟩)
      · exact .inr (.inr hresult)
  have hwhen {id : Nat} (hr : r = .skipped id) : step.when.isSome = true := by
    cases hturned with
    | skipped env hwhen =>
      obtain ⟨c, hc, -⟩ := Option.map_eq_some_iff.mp hwhen
      rw [hc]
      rfl
    | returned | failed => cases hr
  have hfailed {id : Nat} {e : WfeError} (hr : r = .failed id e) : step.stepType ≠ sequenceKey ∧
      x'.status = (if x.retried d then .sleeping else .failed) ∧
      (x.retried d = false →
        new.map ExecutionPointer.stepId = (d.afterFailure step).toList) := by
    cases hturned with
    | skipped | returned => cases hr
    | failed env env' hresolve h =>
      refine ⟨?_, handleError_status env' (startPointer env x) d, fun hretried => ?_⟩
      · intro htype
        rw [hbody htype hresolve] at h
        obtain ⟨_, hresult⟩ := SequenceStep.yields_ok h
        cases hresult
      · rw [handleError_new env' (p := startPointer env x) hstep hretried]
        exact map_stepId_successors ..
  clear hturned
  cases heffect with
  | skipped uuid hstatus =>
    have hn := hsucc (by rw [hstatus]; rfl) fun q hq => by
      obtain ⟨_, -, rfl⟩ := List.mem_map.mp hq
      rfl
    have hnext : (step.outcomes.head?.toList.map fun o =>
        successorPointer uuid o.nextStep x d).map ExecutionPointer.stepId = step.next.toList := by
      rw [WorkflowStep.next]
      cases step.outcomes.head? <;> rfl
    rw [hnext] at hn
    rw [Ran.acts, hid]
    exact rest_of_trace hundone (hskipped hstatus) (.skipped hstep (hwhen rfl) hn)
  | proceeded uuid result hresult hstatus =>
    have hdone : x'.status.isDone = true := by rw [hstatus]; rfl
    have hn := hsucc hdone fun q hq => by
      obtain ⟨_, -, rfl⟩ := List.mem_map.mp hq
      rfl
    rw [map_stepId_successors, findNextStep_of_values (hplain.outcomes step hmem)] at hn
    rw [Ran.acts, if_pos hresult, hid]
    by_cases hchildren : step.children = []
    · exact rest_of_trace hundone (hleaf hchildren) (.completed hstep hchildren hn)
    · -- A container completes when its children are done.
      rcases hyields hchildren rfl with ⟨rfl, -⟩ | ⟨-, hne⟩ | rfl
      · cases hresult
      · exact rest_of_closed hstep hundone hne (hclosed hstatus) hn
      · cases hresult
  | branched uuid result values hresult hvalues hstatus =>
    have hundone' : x'.status.isDone = false := by rw [hstatus]; rfl
    by_cases hchildren : step.children = []
    · -- A branch of a step without children is empty, and does not show.
      have hnil : childPointers uuid values step.children x d = [] := by
        refine List.eq_nil_iff_forall_not_mem.mpr fun q hq => ?_
        have hq := (mem_childPointers hq).1
        rw [hchildren] at hq
        cases hq
      have hacts : (Ran.returned step.id result).acts d x = [] := by
        simp [Ran.acts, hresult, hid, hstep, hchildren]
      rw [hacts]
      exact hadvance.stays hnil hundone hundone' hrest
    · have hacts : (Ran.returned step.id result).acts d x = [(.opens, x.stepId)] := by
        simp [Ran.acts, hresult, hvalues, hid, hstep, hchildren]
      rw [hacts]
      rcases hyields hchildren rfl with ⟨rfl, hempty⟩ | ⟨rfl, -⟩ | rfl
      · obtain rfl := Option.some_inj.mp hvalues
        refine hadvance.opens hstep hchildren hundone hundone' hempty
          (fun q hq => (mem_childPointers hq).2.1) (childPointers_stepIds ..) hnew hfresh hrest
      · cases hvalues
      · cases hvalues
  | waits result hresult hvalues hevent hstatus =>
    rw [Ran.acts, hresult, hvalues]
    exact hadvance.stays rfl hundone (by rw [hstatus]; rfl) hrest
  | pauses result hresult hvalues hevent hstatus =>
    rw [Ran.acts, hresult, hvalues]
    refine hadvance.stays rfl hundone ?_ hrest
    rcases hstatus with hstatus | hstatus <;> rw [hstatus] <;> rfl
  | retries e hasks hstatus =>
    obtain ⟨-, hretried, -⟩ := hfailed rfl
    have hretried : x.retried d = true := by
      by_contra h
      rw [hstatus, if_neg h] at hretried
      cases hretried
    rw [Ran.acts, if_pos hretried]
    exact hadvance.stays rfl hundone (by rw [hstatus]; rfl) hrest
  | failed uuid e hstatus =>
    obtain ⟨htype, hretried, hids⟩ := hfailed rfl
    have hchildren : step.children = [] := by
      by_contra hne
      exact htype (hplain.containers step hmem hne)
    have hretried : x.retried d = false := by
      by_contra h
      rw [hstatus, if_pos (by simpa using h)] at hretried
      cases hretried
    have hn := hsucc (by rw [hstatus]; rfl) fun q hq => by
      split_ifs at hq
      · obtain ⟨_, -, rfl⟩ := List.mem_map.mp hq
        rfl
      · cases hq
    rw [hids hretried] at hn
    rw [Ran.acts, hretried, hid]
    exact rest_of_trace hundone (hleaf hchildren) (.failed hstep htype hn)

/-- The pointers of an instance, with one of them singled out. -/
theorem split_at {l : List ExecutionPointer} (hi : l[i]? = some x) (x' : ExecutionPointer) :
    ∃ a b, l = a ++ x :: b ∧ l.set i x' = a ++ x' :: b := by
  obtain ⟨hlt, hx⟩ := List.getElem?_eq_some_iff.mp hi
  obtain ⟨a, b, hl, -, hset⟩ := @List.exists_of_set _ i x' l hlt
  exact ⟨a, b, by rw [← hx]; exact hl, hset⟩

theorem Round.rest (hround : Round d resolve host workflowId st t.index [t.ran] st')
    (hpointer : st.workflow.executionPointers[t.index]? = some t.pointer)
    (hdata : st.workflow.data = t.data) (hplain : d.Plain)
    (hruns : ∀ stepType, ∀ k ∈ sequences stepType, ∀ body ∈ resolve stepType, k.Runs body)
    (hsteady : d.Contains t.pointer.stepId → t.Steady d)
    (hundone : t.pointer.status.isDone = false)
    (hst : Subtrees d sequences st.workflow.executionPointers)
    (hids : st'.workflow.pointerIds.Nodup)
    (hrest : Rest d st'.workflow.executionPointers (inScope st'.workflow.executionPointers []) v) :
    Rest d st.workflow.executionPointers (inScope st.workflow.executionPointers [])
      (t.acts d ++ v) := by
  have hkind : ∀ s ∈ d.steps, s.children ≠ [] → (sequences s.stepType).isSome = true :=
    fun s hs hne => by simp [sequences, hplain.containers s hs hne]
  have hids₀ : st.workflow.pointerIds.Nodup := hids.sublist hround.pointerIds.sublist
  have hmem := List.mem_of_getElem? hpointer
  obtain ⟨x', new, horderly, hst'⟩ :=
    hround.orderly hpointer hdata hkind hruns hsteady hundone hst hids₀
  obtain ⟨step, y', new', hstep, hturned, hst''⟩ := hround.turned hpointer
  -- Both say what the turn has made of its pointer.
  obtain ⟨rfl, rfl⟩ : x' = y' ∧ new = new' := by
    obtain ⟨hset, hnew⟩ := List.append_inj (hst'.symm.trans hst'') (by simp)
    refine ⟨?_, hnew⟩
    have hlt := (List.getElem?_eq_some_iff.mp hpointer).1
    simpa [hlt] using congrArg (·[t.index]?) hset
  rw [WorkflowInstance.pointerIds, hst'] at hids
  rw [hst'] at hrest
  have hfresh : ∀ q ∈ new, inScope (st.workflow.executionPointers.set t.index x' ++ new) q.inner =
      [] := fun q hq =>
    inScope_eq_nil.mpr (hst.scope_ne_of_new hpointer horderly hids hq)
  have hleaf (hnone : ¬d.Contains t.pointer.stepId) :
      inScope st.workflow.executionPointers t.pointer.inner = [] :=
    inScope_eq_nil.mpr (hst.scope_ne_inner hids₀ hmem hnone)
  have hskipped (hskip : x'.status = .skipped) :
      inScope st.workflow.executionPointers t.pointer.inner = [] := by
    by_cases hcontains : d.Contains t.pointer.stepId
    · cases hstart : t.pointer.startTime with
      | none => exact inScope_eq_nil.mpr (hst.unstarted _ hmem hstart)
      | some time =>
        -- A container that has started is not skipped.
        have hcause := hround.cause hpointer hstep
        rw [(hturned.effect hstep).ran_of_skipped hskip] at hcause
        exact absurd hcause ((hsteady hcontains).ne_skipped (by simp [hstart]) hdata hstep)
    · exact hleaf hcontains
  have hclosed (hcomplete : x'.status = .complete) :
      ∀ q ∈ inScope st.workflow.executionPointers t.pointer.inner, q.status.isDone = true := by
    intro q hq
    obtain ⟨hq, hscope⟩ := mem_inScope.mp hq
    exact (horderly.closes (.inl hcomplete)).2 q hq hscope
  have hchildren (hnil : step.children = []) : ¬d.Contains t.pointer.stepId := by
    rintro ⟨s, hs, hne⟩
    obtain rfl := Option.some_inj.mp (hs.symm.trans hstep)
    exact hne hnil
  obtain ⟨a, b, hl, hset⟩ := split_at hpointer x'
  have hadvance : Advance a b t.pointer x' new := by
    refine ⟨horderly.later, ?_, fun q hq => ?_⟩
    · rw [← hl]
      exact hids₀
    · rcases horderly.scopes q hq with hscope | ⟨hscope, -⟩
      · exact .inl hscope
      · exact .inr hscope
  rw [hset] at hrest hfresh
  rw [hl] at hst hleaf hskipped hclosed ⊢
  refine hadvance.climb hst hundone (fun v hv => hadvance.own_scope (fun v hv => ?_) hv) _ rfl hrest
  refine hturned.rest hl hpointer hstep hplain (fun body hbody => ?_) hadvance hundone hskipped
    (fun hnil => hleaf (hchildren hnil)) hclosed hfresh hv
  cases hruns sequenceKey .sequence (if_pos rfl) body hbody
  rfl

/-- A pass, followed by what can still come. -/
theorem Conducts.rest {turns : List Turn} {w w' : WorkflowInstance}
    (h : Conducts d resolve host w turns w') (hplain : d.Plain)
    (hcontained : (Change.pass resolve turns).Contained d sequences)
    (hids : w'.pointerIds.Nodup) (hw : Subtrees d sequences w.executionPointers)
    (hrest : Rest d w'.executionPointers (inScope w'.executionPointers []) v) :
    Rest d w.executionPointers (inScope w.executionPointers [])
      (turns.flatMap (Turn.acts d) ++ v) := by
  obtain ⟨hruns, hsteady⟩ := hcontained
  have hkind : ∀ s ∈ d.steps, s.children ≠ [] → (sequences s.stepType).isSome = true :=
    fun s hs hne => by simp [sequences, hplain.containers s hs hne]
  have hrunnable (t : Turn) (ht : t ∈ turns) := (h.pointer ht).2
  obtain ⟨-, now, tm, st, hturns, -, rfl⟩ := h
  simp only [WorkflowInstance.pointerIds, concluded_executionPointers] at hids hrest
  -- After each turn: the invariant of the pointers, and what has been done goes first.
  have hrule := hturns.rule (N := fun done st => st.workflow.pointerIds.Nodup →
    Subtrees d sequences st.workflow.executionPointers ∧
    ∀ v, Rest d st.workflow.executionPointers (inScope st.workflow.executionPointers []) v →
      Rest d w.executionPointers (inScope w.executionPointers []) (done.flatMap (Turn.acts d) ++ v))
    (fun _ => ⟨hw, fun v hv => hv⟩) ?_
  · exact (hrule hids).2 v hrest
  · intro done t st st' hdone hst hpointer hdata hround hids
    have ht : t ∈ turns := hdone.subset (by simp)
    obtain ⟨now, hrun⟩ := hrunnable t ht
    have hundone := (isPointerRunnable_active hrun).2
    have hids₀ : st.workflow.pointerIds.Nodup := hids.sublist hround.pointerIds.sublist
    obtain ⟨hsubtrees, hbefore⟩ := hst hids₀
    obtain ⟨p', new, horderly, hst'⟩ :=
      hround.orderly hpointer hdata hkind hruns (hsteady t ht) hundone hsubtrees hids₀
    refine ⟨?_, fun v hv => ?_⟩
    · rw [WorkflowInstance.pointerIds, hst'] at hids
      rw [hst']
      exact hsubtrees.turn hpointer horderly hids
    · rw [List.flatMap_append, List.flatMap_singleton, List.append_assoc]
      exact hbefore _ (hround.rest hpointer hdata hplain hruns (hsteady t ht) hundone hsubtrees
        hids hv)

theorem inScope_map {l : List ExecutionPointer} {f : ExecutionPointer → ExecutionPointer}
    (hf : ∀ p : ExecutionPointer, p.Woken (f p)) (scope : List String) :
    inScope (l.map f) scope = (inScope l scope).map f := by
  rw [inScope, inScope, List.filter_map]
  congr 1
  refine List.filter_congr fun p _ => ?_
  simp only [Function.comp_apply, (hf p).later.scope]

/-- An event that is delivered does not change what can come. -/
theorem Rest.of_map {l ps : List ExecutionPointer} {f : ExecutionPointer → ExecutionPointer}
    (hf : ∀ p : ExecutionPointer, p.Woken (f p)) (h : Rest d (l.map f) (ps.map f) v) :
    Rest d l ps v := by
  generalize hqs : ps.map f = qs at h
  induction h generalizing ps with
  | nil =>
    obtain rfl := List.map_eq_nil_iff.mp hqs
    exact .nil
  | done hp _ ih =>
    obtain ⟨p, ps, rfl, rfl, rfl⟩ := List.map_eq_cons_iff.mp hqs
    rw [(hf p).status] at hp
    exact .done hp (ih rfl)
  | fresh hp hl hu _ hv ih =>
    obtain ⟨p, ps, rfl, rfl, rfl⟩ := List.map_eq_cons_iff.mp hqs
    rw [(hf p).status] at hp
    rw [(hf p).later.inner, inScope_map hf, List.map_eq_nil_iff] at hl
    rw [(hf p).later.stepId] at hu
    exact .fresh hp hl hu (ih rfl) hv
  | opened hp hl hs _ hn _ hv ihu ih =>
    obtain ⟨p, ps, rfl, rfl, rfl⟩ := List.map_eq_cons_iff.mp hqs
    rw [(hf p).status] at hp
    rw [(hf p).later.inner, inScope_map hf] at hl ihu
    rw [(hf p).later.stepId] at hs hv
    exact .opened hp (fun hnil => hl (by rw [hnil]; rfl)) hs (ihu rfl) hn (ih rfl) hv

end Turns

/-! ## Runs -/

/-- The step of the first pointer of an instance. -/
def WorkflowDefinition.start (d : WorkflowDefinition) : List Nat := if d.steps = [] then [] else [0]

section Runs

variable {d : WorkflowDefinition} {w w₀ w' : WorkflowInstance} {change : Change}
  {changes : List Change} {l : List ExecutionPointer} {v : List (Act × Nat)}

theorem Does.rest (h : Does d w change w') (hplain : d.Plain)
    (hcontained : change.Contained d sequences) (hids : w'.pointerIds.Nodup)
    (hw : Subtrees d sequences w.executionPointers)
    (hrest : Rest d w'.executionPointers (inScope w'.executionPointers []) v) :
    Rest d w.executionPointers (inScope w.executionPointers [])
      (change.turns.flatMap (Turn.acts d) ++ v) := by
  rcases h.pass_or_woken with ⟨resolve, host, turns, rfl, -, h⟩ | ⟨hturns, f, hf, hw'⟩
  · exact h.rest hplain hcontained hids hw hrest
  · rw [hw', inScope_map hf] at hrest
    rw [hturns]
    exact hrest.of_map hf

/-- A run, followed by what can still come, is what could come at its start. -/
theorem Lives.rest (hlives : Lives d w₀ changes w) (hstarted : Started d w₀) (hplain : d.Plain)
    (hcontained : ∀ c ∈ changes, c.Contained d sequences) (hids : w.pointerIds.Nodup)
    (hrest : Rest d w.executionPointers (inScope w.executionPointers []) v) :
    Rest d w₀.executionPointers (inScope w₀.executionPointers [])
      ((turnsOf changes).flatMap (Turn.acts d) ++ v) := by
  have hkind : ∀ s ∈ d.steps, s.children ≠ [] → (sequences s.stepType).isSome = true :=
    fun s hs hne => by simp [sequences, hplain.containers s hs hne]
  have hrule := hlives.rule (N := fun done w => w.pointerIds.Nodup →
    Subtrees d sequences w.executionPointers ∧
    ∀ v, Rest d w.executionPointers (inScope w.executionPointers []) v →
      Rest d w₀.executionPointers (inScope w₀.executionPointers [])
        ((turnsOf done).flatMap (Turn.acts d) ++ v))
    (fun _ => ⟨hstarted.subtrees, fun v hv => hv⟩) ?_
  · exact (hrule hids).2 v hrest
  · intro done c w w' hdone hw hdoes hids
    have hc := hcontained c (hdone.subset (by simp))
    obtain ⟨hsubtrees, hbefore⟩ := hw (hids.sublist hdoes.pointerIds.sublist)
    refine ⟨hdoes.subtrees hkind hc hids hsubtrees, fun v hv => ?_⟩
    rw [turnsOf_snoc, List.flatMap_append, List.append_assoc]
    exact hbefore _ (hdoes.rest hplain hc hids hsubtrees hv)

/-- What can come of a new instance is what can come of its first step. -/
theorem Started.traces (h : Started d w)
    (hrest : Rest d w.executionPointers (inScope w.executionPointers []) v) :
    Traces d d.start v := by
  rcases h.pointers with ⟨hsteps, hnil⟩ | ⟨p, hsteps, hp, hid, -, hstatus, hscope, -⟩
  · rw [hnil] at hrest
    rw [WorkflowDefinition.start, if_pos hsteps]
    exact hrest.traces (by simp [inScope]) (by simp [inScope])
  · have hself : inScope [p] [] = [p] := inScope_eq_self (by simpa using hscope)
    rw [hp, hself] at hrest
    rw [WorkflowDefinition.start, if_neg hsteps, ← hid]
    refine hrest.traces ?_ ?_
    · simp [hstatus, PointerStatus.isDone]
    · simp [inScope, hscope, ExecutionPointer.inner]

/-- What can still come of pointers whose steps have traces. -/
theorem exists_rest {N : Nat} (hN : ∀ q ∈ l, q.scope.length ≤ N)
    (htraces : ∀ q ∈ l, ∃ s, d.findStep q.stepId = some s ∧ (∃ u, Trace d q.stepId u) ∧
      ∃ n, Traces d s.next.toList n) (k : Nat) (ps : List ExecutionPointer)
    (hps : ∀ p ∈ ps, p ∈ l ∧ N < p.scope.length + k) : ∃ v, Rest d l ps v := by
  -- Scopes get longer towards the inside, up to `N`.
  induction k generalizing ps with
  | zero =>
    cases ps with
    | nil => exact ⟨[], .nil⟩
    | cons p ps =>
      obtain ⟨hp, hlt⟩ := hps p List.mem_cons_self
      have := hN p hp
      omega
  | succ k ihk =>
    induction ps with
    | nil => exact ⟨[], .nil⟩
    | cons p ps ih =>
      obtain ⟨hp, hlt⟩ := hps p List.mem_cons_self
      obtain ⟨t, ht⟩ := ih fun q hq => hps q (List.mem_cons_of_mem p hq)
      obtain ⟨s, hs, ⟨u, hu⟩, n, hn⟩ := htraces p hp
      cases hdone : p.status.isDone with
      | true => exact ⟨t, .done hdone ht⟩
      | false =>
        by_cases hl : inScope l p.inner = []
        · exact ⟨u ++ t, .fresh hdone hl hu ht (.append u t)⟩
        · obtain ⟨u', hu'⟩ := ihk (inScope l p.inner) fun q hq => by
            obtain ⟨hq, hscope⟩ := mem_inScope.mp hq
            refine ⟨hq, ?_⟩
            rw [hscope, ExecutionPointer.inner, List.length_append, List.length_singleton]
            omega
          exact ⟨_, .opened hdone hl hs hu' hn ht (.append _ t)⟩

/-- **Runs are traces.** If the steps of the pointers of an instance have traces, what has been done
is a prefix of a trace, and if its pointers are done it is a whole one. -/
theorem Lives.traces (hlives : Lives d w₀ changes w) (hstarted : Started d w₀) (hplain : d.Plain)
    (hcontained : ∀ c ∈ changes, c.Contained d sequences) (hids : w.pointerIds.Nodup)
    (htraces : ∀ q ∈ w.executionPointers, ∃ s, d.findStep q.stepId = some s ∧
      (∃ u, Trace d q.stepId u) ∧ ∃ n, Traces d s.next.toList n) :
    ∃ v, Traces d d.start ((turnsOf changes).flatMap (Turn.acts d) ++ v) ∧
      ((∀ q ∈ w.executionPointers, q.status.isDone = true) → v = []) := by
  obtain ⟨N, hN⟩ := (w.executionPointers.map fun q => q.scope.length).toFinset.exists_le
  obtain ⟨v, hv⟩ := exists_rest (l := w.executionPointers) (N := N) (fun q hq => hN _ (by
    rw [List.mem_toFinset]
    exact List.mem_map_of_mem hq)) htraces (N + 1) (inScope w.executionPointers []) fun q hq =>
      ⟨(mem_inScope.mp hq).1, by omega⟩
  refine ⟨v, hstarted.traces (hlives.rest hstarted hplain hcontained hids hv), fun hdone => ?_⟩
  exact hv.eq_nil_of_done fun q hq => hdone q (mem_inScope.mp hq).1

end Runs

end Wfe
