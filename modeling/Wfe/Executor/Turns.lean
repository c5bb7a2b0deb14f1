import Mathlib.Data.List.Nodup
import Wfe.Executor.Pass

/-!
# The turns of a pass

A pass gives one turn to each pointer that is runnable when it starts. A turn changes its own
pointer and appends new ones, so every pointer comes to its turn as it was when the pass started.

## Main definitions

* `Effect`: everything a turn can do to its pointer, and the pointers it creates
* `Cause`: why a turn went as it did
* `Turn`, `Turns`: a turn, and the turns of a pass
* `Turn.asks`: the workflow status asked for by the error handler in a turn
* `Conducts`: a pass with its turns

## Main results

* `Round.effect`: what a round does to the pointers
* `Conducts.pointer`: a pointer comes to its turn unchanged, and runnable
* `pass_iff_conducts`: every pass is made of turns
-/

namespace Wfe

open Program Provider

section Lists

variable {l new : List ExecutionPointer} {idx : Nat} {p q x x' : ExecutionPointer}

/-- Distinct pointers open distinct scopes. -/
theorem eq_of_inner (hnodup : (l.map ExecutionPointer.id).Nodup) (hp : p ∈ l) (hq : q ∈ l)
    (h : p.inner = q.inner) : p = q :=
  List.inj_on_of_nodup_map hnodup hp hq (by simpa using (List.append_inj' h rfl).2)

/-- With distinct ids, a pointer after a round over `x` is what became of `x`, another pointer, or a
new one. -/
theorem eq_or_mem_of_set_append (hx : l[idx]? = some x) (hlater : x.Later x')
    (hnodup : ((l.set idx x' ++ new).map ExecutionPointer.id).Nodup)
    (hq : q ∈ l.set idx x' ++ new) : q = x' ∨ (q ∈ l ∧ q.id ≠ x.id) ∨ q ∈ new := by
  have hx' : x' ∈ l.set idx x' ++ new :=
    List.mem_append_left _ (List.mem_set (List.getElem?_eq_some_iff.mp hx).1 x')
  by_cases hid : q.id = x.id
  · exact .inl (List.inj_on_of_nodup_map hnodup hq hx' (hid.trans hlater.id.symm))
  · rcases mem_set_append hx hlater hq with ⟨p, hp, -, rfl | ⟨rfl, rfl⟩⟩ | hq
    · exact .inr (.inl ⟨hp, hid⟩)
    · exact absurd hlater.id hid
    · exact .inr (.inr hq)

end Lists

/-- The workflow status an error handler asks for when the body of `p` fails: it depends on the
error behaviour and on the retries made. -/
def askedStatus (p : ExecutionPointer) (definition : WorkflowDefinition) : Option WorkflowStatus :=
  match errorBehaviorOf p definition with
  | .retry _ maxRetries =>
    if 0 < maxRetries ∧ maxRetries ≤ p.retryCount then some .suspended else none
  | .suspend => some .suspended
  | .terminate => some .terminated
  | .compensate => none

/-- Everything a turn can do to its pointer `p` at `step`: the pointer becomes `p'`, and `new` are
created. -/
inductive Effect (definition : WorkflowDefinition) (step : WorkflowStep) (p : ExecutionPointer) :
    Ran → ExecutionPointer → List ExecutionPointer → Prop
  | skipped {p' : ExecutionPointer} (id : String) (hstatus : p'.status = .skipped)
      (hactive : p'.active = false) (hstart : p'.startTime = p.startTime)
      (hchildren : p'.children = p.children) (hpersist : p'.persistenceData = p.persistenceData) :
      Effect definition step p (.skipped step.id) p' (step.outcomes.head?.toList.map fun o =>
        successorPointer id o.nextStep p definition)
  | proceeded {p' : ExecutionPointer} (id : String) (result : ExecutionResult)
      (hresult : result.proceed = true) (hstatus : p'.status = .complete)
      (hactive : p'.active = false) (hstart : p'.startTime.isSome)
      (hchildren : p'.children = p.children) (hpersist : p'.persistenceData = p.persistenceData) :
      Effect definition step p (.returned step.id result) p'
        ((findNextStep step result.outcomeValue).toList.map fun next =>
          successorPointer id next p definition)
  | branched {p' : ExecutionPointer} (uuid : Nat → String) (result : ExecutionResult)
      (values : List Json) (hresult : result.proceed = false)
      (hvalues : result.branchValues = some values) (hstatus : p'.status = .running)
      (hactive : p'.active = p.active) (hstart : p'.startTime.isSome)
      (hpersist : p'.persistenceData = result.persistenceData)
      (hchildren : p'.children = p.children ++
        (childPointers uuid values step.children p definition).map ExecutionPointer.id) :
      Effect definition step p (.returned step.id result) p'
        (childPointers uuid values step.children p definition)
  | waits {p' : ExecutionPointer} (result : ExecutionResult) (hresult : result.proceed = false)
      (hvalues : result.branchValues = none) (hevent : result.eventName.isSome)
      (hstatus : p'.status = .waitingForEvent)
      (hactive : p'.active = false) (hstart : p'.startTime.isSome)
      (hchildren : p'.children = p.children) :
      Effect definition step p (.returned step.id result) p' []
  | pauses {p' : ExecutionPointer} (result : ExecutionResult) (hresult : result.proceed = false)
      (hvalues : result.branchValues = none) (hevent : result.eventName = none)
      (hstatus : p'.status = .running ∨ p'.status = .sleeping)
      (hactive : p.active = true → p'.active = true) (hstart : p'.startTime.isSome)
      (hpersist : result.persistenceData.isSome → p'.persistenceData = result.persistenceData)
      (hchildren : p'.children = p.children) :
      Effect definition step p (.returned step.id result) p' []
  | retries {p' : ExecutionPointer} (e : WfeError)
      (hasks : askedStatus p definition = none)
      (hstatus : p'.status = .sleeping) (hactive : p'.active = true) (hstart : p'.startTime.isSome)
      (hchildren : p'.children = p.children)
      (hbehavior : errorBehaviorOf p definition ≠ .compensate) :
      Effect definition step p (.failed step.id e) p' []
  | failed {p' : ExecutionPointer} (id : String) (e : WfeError) (hstatus : p'.status = .failed)
      (hactive : p'.active = false) (hstart : p'.startTime.isSome)
      (hchildren : p'.children = p.children) :
      Effect definition step p (.failed step.id e) p'
        (if errorBehaviorOf p definition = .compensate then
          step.compensationStepId.toList.map fun next => successorPointer id next p definition
        else [])

section Effect

variable {definition : WorkflowDefinition} {resolve : StepResolver} {host : Option HostContext}
  {workflowId : String} {st st' : PassState} {idx : Nat} {ran : List Ran} {r : Ran}
  {p p' q : ExecutionPointer} {new : List ExecutionPointer} {step : WorkflowStep}

theorem processResult_effect (env env' : Ambient) (result : ExecutionResult)
    (hstep : definition.findStep p.stepId = some step) :
    Effect definition step p (.returned step.id result)
      (processResult env' result (startPointer env p) definition workflowId).1
      (processResult env' result (startPointer env p) definition workflowId).2.newPointers := by
  have hstart : (startPointer env p).startTime.isSome := by
    cases h : p.startTime <;> simp [startPointer, h]
  have hstep' : definition.findStep (startPointer env p).stepId = some step := hstep
  unfold processResult
  split
  · next hproceed =>
    rw [hstep', Option.bind_some]
    exact .proceeded (env'.uuid 0) result hproceed rfl rfl hstart rfl rfl
  · next hproceed =>
    rw [Bool.not_eq_true] at hproceed
    split
    · next values hvalues =>
      rw [hstep', Option.map_some, Option.getD_some]
      exact .branched env'.uuid result values hproceed hvalues rfl rfl hstart rfl rfl
    · next hvalues =>
      have hvalues : result.branchValues = none := Option.eq_none_iff_forall_ne_some.mpr hvalues
      split
      · next hevent => exact .waits result hproceed hvalues hevent rfl rfl hstart rfl
      · next hevent =>
        have hevent : result.eventName = none := by simpa using hevent
        -- Sleeping, polling, persisting, and no change at all.
        repeat' split
        · exact .pauses result hproceed hvalues hevent (.inr rfl) (fun _ => rfl) hstart
            (fun _ => rfl) rfl
        · exact .pauses result hproceed hvalues hevent (.inr rfl) (fun _ => rfl) hstart
            (fun _ => rfl) rfl
        · exact .pauses result hproceed hvalues hevent (.inl rfl) (fun _ => rfl) hstart
            (fun _ => rfl) rfl
        · next hpersist =>
          exact .pauses result hproceed hvalues hevent (.inl rfl) id hstart
            (fun h => absurd h hpersist) rfl

theorem handleError_workflowStatus (env : Ambient) (p : ExecutionPointer)
    (definition : WorkflowDefinition) :
    (handleError env p definition).2.workflowStatus = askedStatus p definition := by
  unfold handleError askedStatus
  cases errorBehaviorOf p definition with
  | retry interval maxRetries =>
    dsimp only
    split_ifs <;> rfl
  | _ => rfl

theorem handleError_effect (env env' : Ambient) (e : WfeError)
    (hstep : definition.findStep p.stepId = some step) :
    Effect definition step p (.failed step.id e)
      (handleError env' (startPointer env p) definition).1
      (handleError env' (startPointer env p) definition).2.newPointers := by
  have hstart : (startPointer env p).startTime.isSome := by
    cases h : p.startTime <;> simp [startPointer, h]
  have hasks : askedStatus (startPointer env p) definition = askedStatus p definition := rfl
  have hbehavior : errorBehaviorOf (startPointer env p) definition = errorBehaviorOf p definition :=
    rfl
  have hfailed (id : String) : Effect definition step p (.failed step.id e)
      { startPointer env p with active := false, status := .failed } _ :=
    .failed id e rfl rfl hstart rfl
  unfold handleError
  rw [hbehavior]
  cases hb : errorBehaviorOf p definition with
  | retry interval maxRetries =>
    dsimp only
    split_ifs with h
    · simpa [hb] using hfailed ""
    · refine .retries e ?_ rfl rfl hstart rfl (by simp [hb])
      rw [← hasks]
      simp only [askedStatus, hbehavior, hb, if_neg h]
  | suspend => simpa [hb] using hfailed ""
  | terminate => simpa [hb] using hfailed ""
  | compensate =>
    have hstep' : definition.findStep (startPointer env p).stepId = some step := hstep
    have hcomp := hfailed (env'.uuid 0)
    rw [hb, if_pos rfl] at hcomp
    simp only [hstep', Option.bind_some]
    exact hcomp

/-- A pointer that has just been created. -/
structure ExecutionPointer.Fresh (q : ExecutionPointer) : Prop where
  status : q.status = .pending
  active : q.active = true
  startTime : q.startTime = none
  children : q.children = []
  persistenceData : q.persistenceData = none

theorem successorPointer_fresh (id : String) (stepId : Nat) :
    (successorPointer id stepId p definition).Fresh := ⟨rfl, rfl, rfl, rfl, rfl⟩

theorem Effect.fresh (h : Effect definition step p r p' new) (hq : q ∈ new) : q.Fresh := by
  cases h with
  | skipped id | proceeded id =>
    obtain ⟨_, -, rfl⟩ := List.mem_map.mp hq
    exact successorPointer_fresh ..
  | branched =>
    obtain ⟨k, hk, rfl⟩ := List.mem_mapIdx.mp hq
    exact ⟨rfl, rfl, rfl, rfl, rfl⟩
  | waits | pauses | retries => cases hq
  | failed id =>
    split_ifs at hq
    · obtain ⟨_, -, rfl⟩ := List.mem_map.mp hq
      exact successorPointer_fresh ..
    · cases hq

/-- A round over `p` changes it and appends new pointers, as its effect says. -/
theorem Round.effect (h : Round definition resolve host workflowId st idx ran st')
    (hp : st.workflow.executionPointers[idx]? = some p) :
    ∃ step r p' new, ran = [r] ∧ definition.findStep p.stepId = some step ∧
      Effect definition step p r p' new ∧ p.Later p' ∧ (∀ q ∈ new, Spawned definition p q) ∧
      st'.workflow.executionPointers = st.workflow.executionPointers.set idx p' ++ new := by
  cases h with
  | absent h => simp [examinePointer_eq_absent h] at hp
  | skipped env pointer step h =>
    obtain ⟨hpointer, hstep, -⟩ := examinePointer_eq_skip h
    obtain rfl : p = pointer := Option.some_inj.mp (hp.symm.trans hpointer)
    let skipped : ExecutionPointer :=
      { p with status := .skipped, active := false, endTime := some env.now }
    have heffect : Effect definition step p (.skipped step.id) skipped _ :=
      .skipped (env.uuid 0) rfl rfl rfl rfl rfl
    refine ⟨step, _, _, _, rfl, hstep, heffect, ⟨rfl, rfl, rfl, rfl⟩, fun q hq => ?_, rfl⟩
    obtain ⟨o, ho, rfl⟩ := List.mem_map.mp hq
    exact .next _ hstep (List.mem_of_head? (Option.mem_toList.mp ho))
  | returned env env' pointer step body result h hbody =>
    obtain ⟨hpointer, hstep, -⟩ := examinePointer_eq_run h
    obtain rfl : p = pointer := Option.some_inj.mp (hp.symm.trans hpointer)
    have hstart := startPointer_later env p
    obtain ⟨hlater, hnew⟩ := processResult_advance env' result (startPointer env p) definition
      st.workflow.id
    exact ⟨step, _, _, _, rfl, hstep, processResult_effect env env' result hstep,
      hstart.trans hlater, fun q hq => (hnew q hq).of_later hstart,
      applyResult_executionPointers ..⟩
  | failed env env' pointer step body e h hbody =>
    obtain ⟨hpointer, hstep, -⟩ := examinePointer_eq_run h
    obtain rfl : p = pointer := Option.some_inj.mp (hp.symm.trans hpointer)
    have hstart := startPointer_later env p
    obtain ⟨hlater, hnew⟩ := handleError_advance env' (startPointer env p) definition
    exact ⟨step, _, _, _, rfl, hstep, handleError_effect env env' e hstep, hstart.trans hlater,
      fun q hq => (hnew q hq).of_later hstart, applyError_executionPointers env env' p e⟩

/-- Why a round went as it did: the condition of the step was false, or its body ended so. -/
def Cause (definition : WorkflowDefinition) (resolve : StepResolver) (host : Option HostContext)
    (st : PassState) (idx : Nat) (p : ExecutionPointer) (step : WorkflowStep) : Ran → Prop
  | .skipped _ => step.when.map (Condition.evaluate · st.workflow.data) = some (.ok false)
  | .returned _ result => ∃ body env, resolve step.stepType = some body ∧
      Yields host body (stepContext definition host step (startPointer env p)
        (st.started env idx p).workflow) (.ok result)
  | .failed _ e => ∃ body env, resolve step.stepType = some body ∧
      Yields host body (stepContext definition host step (startPointer env p)
        (st.started env idx p).workflow) (.error e)

theorem Round.cause (h : Round definition resolve host workflowId st idx [r] st')
    (hp : st.workflow.executionPointers[idx]? = some p)
    (hstep : definition.findStep p.stepId = some step) :
    Cause definition resolve host st idx p step r := by
  cases h with
  | skipped env pointer step' h =>
    obtain ⟨hpointer, hstep', hwhen⟩ := examinePointer_eq_skip h
    obtain rfl : p = pointer := Option.some_inj.mp (hp.symm.trans hpointer)
    obtain rfl : step = step' := Option.some_inj.mp (hstep.symm.trans hstep')
    exact hwhen
  | returned env env' pointer step' body result h hbody =>
    obtain ⟨hpointer, hstep', hresolve, -⟩ := examinePointer_eq_run h
    obtain rfl : p = pointer := Option.some_inj.mp (hp.symm.trans hpointer)
    obtain rfl : step = step' := Option.some_inj.mp (hstep.symm.trans hstep')
    exact ⟨body, env, hresolve, hbody⟩
  | failed env env' pointer step' body e h hbody =>
    obtain ⟨hpointer, hstep', hresolve, -⟩ := examinePointer_eq_run h
    obtain rfl : p = pointer := Option.some_inj.mp (hp.symm.trans hpointer)
    obtain rfl : step = step' := Option.some_inj.mp (hstep.symm.trans hstep')
    exact ⟨body, env, hresolve, hbody⟩

end Effect

/-! ## Turns -/

/-- A turn of a pass: the index of its pointer, the pointer, the workflow data and what happened. -/
structure Turn where
  index : Nat
  pointer : ExecutionPointer
  data : Json
  ran : Ran

/-- The workflow status asked for in a turn. -/
def Turn.asks (definition : WorkflowDefinition) (t : Turn) : Option WorkflowStatus :=
  match t.ran with
  | .failed _ _ => askedStatus t.pointer definition
  | _ => none

/-- The body has run, and has proceeded. -/
def Turn.proceeds (t : Turn) : Bool :=
  match t.ran with
  | .returned _ result => result.proceed
  | _ => false

section Relations

variable (definition : WorkflowDefinition) (resolve : StepResolver) (host : Option HostContext)

/-- Turns one after another, from `st` on. -/
inductive Turns (workflowId : String) (st : PassState) : List Turn → PassState → Prop
  | nil : Turns workflowId st [] st
  | snoc {turns : List Turn} {t : Turn} {st' st'' : PassState} (h : Turns workflowId st turns st')
      (hpointer : st'.workflow.executionPointers[t.index]? = some t.pointer)
      (hdata : st'.workflow.data = t.data)
      (hround : Round definition resolve host workflowId st' t.index [t.ran] st'') :
      Turns workflowId st (turns ++ [t]) st''

/-- A pass over `w` that gives the turns `turns` and writes `w'`. -/
def Conducts (w : WorkflowInstance) (turns : List Turn) (w' : WorkflowInstance) : Prop :=
  w.status = .runnable ∧ ∃ now t st,
    Turns definition resolve host w.id { workflow := w } turns st ∧
    turns.map Turn.index = runnableIndices w now ∧ w' = concluded t st.workflow

end Relations

section Turns

variable {definition : WorkflowDefinition} {resolve : StepResolver} {host : Option HostContext}
  {workflowId : String} {st st' st'' : PassState} {turns turns' : List Turn} {t : Turn}
  {w w' : WorkflowInstance} {p : ExecutionPointer}

theorem Turns.trans (h : Turns definition resolve host workflowId st turns st')
    (h' : Turns definition resolve host workflowId st' turns' st'') :
    Turns definition resolve host workflowId st (turns ++ turns') st'' := by
  induction h' with
  | nil => rwa [List.append_nil]
  | snoc _ hpointer hdata hround ih =>
    rw [← List.append_assoc]
    exact .snoc ih hpointer hdata hround

theorem Turns.eq_of_nil (h : Turns definition resolve host workflowId st turns st')
    (hnil : turns = []) : st' = st := by
  cases h with
  | nil => rfl
  | snoc => simp at hnil

/-- What holds at the start and is kept by each turn holds at the end. -/
theorem Turns.rule {N : List Turn → PassState → Prop}
    (h : Turns definition resolve host workflowId st turns st') (hst : N [] st)
    (hstep : ∀ done t st st', done ++ [t] <+: turns → N done st →
      st.workflow.executionPointers[t.index]? = some t.pointer → st.workflow.data = t.data →
      Round definition resolve host workflowId st t.index [t.ran] st' → N (done ++ [t]) st') :
    N turns st' := by
  induction h with
  | nil => exact hst
  | snoc _ hpointer hdata hround ih =>
    refine hstep _ _ _ _ List.prefix_rfl (ih fun done t st st' hdone => ?_) hpointer hdata hround
    exact hstep done t st st' (hdone.trans (List.prefix_append _ _))

theorem Turns.length_le (h : Turns definition resolve host workflowId st turns st') :
    st.workflow.executionPointers.length ≤ st'.workflow.executionPointers.length := by
  induction h with
  | nil => exact Nat.le_refl _
  | snoc hturns hpointer hdata hround ih =>
    obtain ⟨-, -, p', new, -, -, -, -, -, hst'⟩ := hround.effect hpointer
    rw [hst', List.length_append, List.length_set]
    exact Nat.le_add_right_of_le ih

/-- A pointer without a turn stays as it is. -/
theorem Turns.getElem? (h : Turns definition resolve host workflowId st turns st') {i : Nat}
    (hi : ∀ t ∈ turns, t.index ≠ i) (hp : st.workflow.executionPointers[i]? = some p) :
    st'.workflow.executionPointers[i]? = some p := by
  induction h with
  | nil => exact hp
  | snoc hturns hpointer hdata hround ih =>
    rename_i turns t st' st''
    have ih := ih fun t ht => hi t (List.mem_append_left _ ht)
    obtain ⟨-, -, p', new, -, -, -, -, -, hst'⟩ := hround.effect hpointer
    rw [hst']
    exact getElem?_set_append_ne ih (hi t (by simp))

/-- Each pointer comes to its turn as it was at the start. -/
theorem Turns.pointer (h : Turns definition resolve host workflowId st turns st')
    (hnodup : (turns.map Turn.index).Nodup)
    (hlt : ∀ t ∈ turns, t.index < st.workflow.executionPointers.length) {t : Turn}
    (ht : t ∈ turns) :
    st.workflow.executionPointers[t.index]? = some t.pointer := by
  induction h with
  | nil => cases ht
  | snoc hturns hpointer hdata hround ih =>
    rename_i turns t' st' st''
    rw [List.map_append, List.nodup_append] at hnodup
    obtain ⟨hnodup, -, hne⟩ := hnodup
    rcases List.mem_append.mp ht with ht | ht
    · exact ih hnodup (fun t ht => hlt t (List.mem_append_left _ ht)) ht
    · obtain rfl := List.mem_singleton.mp ht
      have hget := List.getElem?_eq_getElem (hlt t (by simp))
      have hother : ∀ t' ∈ turns, t'.index ≠ t.index := fun t' ht' =>
        hne _ (List.mem_map_of_mem ht') _ (by simp)
      have hsame := hturns.getElem? hother hget
      rw [hget, ← hsame, hpointer]

theorem mem_runnableIndices {now : DateTime} {i : Nat} (h : i ∈ runnableIndices w now) :
    ∃ p, w.executionPointers[i]? = some p ∧ isPointerRunnable p now = true := by
  obtain ⟨-, h⟩ := List.mem_filter.mp h
  obtain ⟨p, hp, hrun⟩ := (Option.any_eq_true _ _).mp h
  exact ⟨p, hp, hrun⟩

theorem Loop.exists_turns {indices : List Nat} {ran : List Ran}
    (h : Loop definition resolve host workflowId st indices ran st')
    (hlt : ∀ i ∈ indices, i < st.workflow.executionPointers.length) :
    ∃ turns, Turns definition resolve host workflowId st turns st' ∧
      turns.map Turn.index = indices ∧ turns.map Turn.ran = ran := by
  induction h with
  | nil => exact ⟨[], .nil, rfl, rfl⟩
  | cons hround hloop ih =>
    rename_i st st' st'' idx indices ran rans
    have hget := List.getElem?_eq_getElem (hlt idx List.mem_cons_self)
    obtain ⟨-, r, -, -, rfl, -⟩ := hround.effect hget
    have hone : Turns definition resolve host workflowId st [⟨idx, _, _, r⟩] st' :=
      .snoc (t := ⟨idx, _, _, r⟩) .nil hget rfl hround
    obtain ⟨turns, hturns, hindices, hrans⟩ := ih fun i hi =>
      Nat.lt_of_lt_of_le (hlt i (List.mem_cons_of_mem _ hi)) hone.length_le
    exact ⟨_ :: turns, hone.trans hturns, by simp [hindices], by simp [hrans]⟩

theorem Turns.loop (h : Turns definition resolve host workflowId st turns st') :
    Loop definition resolve host workflowId st (turns.map Turn.index) (turns.map Turn.ran) st' := by
  have happend {st st' st'' : PassState} {indices : List Nat} {ran rans : List Ran} {idx : Nat}
      (h : Loop definition resolve host workflowId st indices ran st')
      (hround : Round definition resolve host workflowId st' idx rans st'') :
      Loop definition resolve host workflowId st (indices ++ [idx]) (ran ++ rans) st'' := by
    induction h with
    | nil =>
      have := Loop.cons hround (.nil _)
      rwa [List.append_nil] at this
    | cons hround' _ ih =>
      rw [List.append_assoc]
      exact .cons hround' (ih hround)
  induction h with
  | nil => exact .nil _
  | snoc hturns hpointer hdata hround ih =>
    rw [List.map_append, List.map_append]
    exact happend ih hround

/-- Every pass is made of turns. -/
theorem pass_iff_conducts {ran : List Ran} : Pass definition resolve host w ran w' ↔
    ∃ turns, Conducts definition resolve host w turns w' ∧ turns.map Turn.ran = ran := by
  constructor
  · rintro ⟨hr, now, t, st, hloop, hw'⟩
    obtain ⟨turns, hturns, hindices, hran⟩ := hloop.exists_turns fun i hi => by
      obtain ⟨p, hp, -⟩ := mem_runnableIndices hi
      exact (List.getElem?_eq_some_iff.mp hp).1
    exact ⟨turns, ⟨hr, now, t, st, hturns, hindices, hw'⟩, hran⟩
  · rintro ⟨turns, ⟨hr, now, t, st, hturns, hindices, hw'⟩, rfl⟩
    have hloop := hturns.loop
    rw [hindices] at hloop
    exact ⟨hr, now, t, st, hloop, hw'⟩

/-- A pointer comes to its turn as it was when the pass started, and it was runnable then. -/
theorem Conducts.pointer (h : Conducts definition resolve host w turns w') {t : Turn}
    (ht : t ∈ turns) : w.executionPointers[t.index]? = some t.pointer ∧
      ∃ now, isPointerRunnable t.pointer now = true := by
  obtain ⟨-, now, tm, st, hturns, hindices, -⟩ := h
  have hmem (t : Turn) (ht : t ∈ turns) : t.index ∈ runnableIndices w now :=
    hindices ▸ List.mem_map_of_mem ht
  obtain ⟨p, hp, hrun⟩ := mem_runnableIndices (hmem t ht)
  have hnodup : (turns.map Turn.index).Nodup := by
    rw [hindices]
    exact List.nodup_range.filter _
  have hpointer := hturns.pointer hnodup (fun t ht => by
    obtain ⟨p, hp, -⟩ := mem_runnableIndices (hmem t ht)
    exact (List.getElem?_eq_some_iff.mp hp).1) ht
  obtain rfl : t.pointer = p := Option.some_inj.mp (hpointer.symm.trans hp)
  exact ⟨hp, now, hrun⟩

/-- A runnable pointer is active and not done. -/
theorem isPointerRunnable_active {now : DateTime} (h : isPointerRunnable p now = true) :
    p.active = true ∧ p.status.isDone = false := by
  obtain ⟨hactive, h⟩ := Bool.and_eq_true_iff.mp h
  refine ⟨hactive, ?_⟩
  cases hs : p.status <;> simp_all [PointerStatus.isDone]

end Turns

end Wfe
