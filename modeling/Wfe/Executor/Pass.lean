import Wfe.Executor.WorkflowExecutor

/-!
# What a pass can do

A pass over an instance, without the calls it makes: the rounds of the pointer loop as a relation
between pass states, each labelled with what happened to the pointer, and the decision at the end.
The clock and the UUIDs drawn in a round are arbitrary, and so is what a step body returns, as
long as it can return it.

## Main definitions

* `Yields`: the results a body can end with
* `Ran`, `Round`, `Loop`: a round of the pointer loop, and the loop
* `concluded`, `Pass`: the end of a pass, and a whole pass
* `Aborts`: a pointer loop left by an error
* `ExecutionPointer.Later`, `Spawned`: what a round does to the pointers

## Main results

* `Round.advance`: every round changes one pointer and pushes what its step refers to
* `Loop.continues`: a pass stays with its instance, and only its end completes it
-/

namespace Wfe

open Program Provider

/-- `Yields host body context r`: run by the host, the body can end with `r`. -/
def Yields (host : Option HostContext) (body : StepBody) (context : StepExecutionContext)
    (r : Except WfeError ExecutionResult) : Prop :=
  ∃ tr, Path (StepM.runOn host (body context)) tr r

/-- The replies of providers that refuse every request. -/
def refusal : (c : Call) → c.Reply
  | .ambient => default
  | .external _ => .null
  | .trace _ | .publishLifecycle _ => ()
  | .request _ => .error .cancelled

/-- Every body can end in some way. -/
theorem exists_yields (host : Option HostContext) (body : StepBody)
    (context : StepExecutionContext) : ∃ r, Yields host body context r :=
  ⟨_, _, path_answeredBy (I := Provider) refusal (StepM.runOn host (body context))⟩

/-- What a round of the pointer loop did: the step was skipped, or its body returned or failed. -/
inductive Ran
  | skipped (stepId : Nat)
  | returned (stepId : Nat) (result : ExecutionResult)
  | failed (stepId : Nat) (e : WfeError)

/-- The pass state while the body at `idx` runs. -/
def PassState.started (env : Ambient) (idx : Nat) (pointer : ExecutionPointer) (st : PassState) :
    PassState :=
  { st with workflow := st.workflow.setPointer idx (startPointer env pointer) }

section Relations

variable (definition : WorkflowDefinition) (resolve : StepResolver) (host : Option HostContext)
  (workflowId : String)

/-- One round of the pointer loop. -/
inductive Round (st : PassState) (idx : Nat) : List Ran → PassState → Prop
  | absent (h : examinePointer definition resolve st.workflow idx = .absent) : Round st idx [] st
  | skipped (env : Ambient) (pointer : ExecutionPointer) (step : WorkflowStep)
      (h : examinePointer definition resolve st.workflow idx = .skip pointer step) :
      Round st idx [.skipped step.id]
        { st with workflow := skipPointer env definition step pointer idx st.workflow }
  | returned (env env' : Ambient) (pointer : ExecutionPointer) (step : WorkflowStep)
      (body : StepBody) (result : ExecutionResult)
      (h : examinePointer definition resolve st.workflow idx = .run pointer step body)
      (hbody : Yields host body (stepContext definition host step (startPointer env pointer)
        (st.started env idx pointer).workflow) (.ok result)) :
      Round st idx [.returned step.id result]
        (applyResult env' definition idx (startPointer env pointer) result
          (st.started env idx pointer))
  | failed (env env' : Ambient) (pointer : ExecutionPointer) (step : WorkflowStep)
      (body : StepBody) (e : WfeError)
      (h : examinePointer definition resolve st.workflow idx = .run pointer step body)
      (hbody : Yields host body (stepContext definition host step (startPointer env pointer)
        (st.started env idx pointer).workflow) (.error e)) :
      Round st idx [.failed step.id e]
        (applyError env' definition workflowId idx (startPointer env pointer) e
          (st.started env idx pointer))

/-- The pointer loop over a list of indices. -/
inductive Loop : PassState → List Nat → List Ran → PassState → Prop
  | nil (st : PassState) : Loop st [] [] st
  | cons {st st' st'' : PassState} {idx : Nat} {indices : List Nat} {ran rans : List Ran}
      (hround : Round definition resolve host workflowId st idx ran st')
      (hloop : Loop st' indices rans st'') : Loop st (idx :: indices) (ran ++ rans) st''

/-- The pointer loop over `indices` is left by the error `e`. -/
def Aborts (st : PassState) (indices : List Nat) (e : WfeError) : Prop :=
  ∃ done idx rest ran st', indices = done ++ idx :: rest ∧
    Loop definition resolve host workflowId st done ran st' ∧
    examinePointer definition resolve st'.workflow idx = .abort e

/-- The instance a pass writes when its pointers have run, at time `t`. -/
def concluded (t : DateTime) (w : WorkflowInstance) : WorkflowInstance :=
  let w := if allDone w ∧ w.status = .runnable then
    { w with status := .complete, completeTime := some t } else w
  { w with nextExecution := nextExecutionOf w }

/-- A pass over `w` that ends by writing `w'`. -/
def Pass (w : WorkflowInstance) (ran : List Ran) (w' : WorkflowInstance) : Prop :=
  w.status = .runnable ∧ ∃ now t st,
    Loop definition resolve host w.id { workflow := w } (runnableIndices w now) ran st ∧
    w' = concluded t st.workflow

end Relations

@[simp] theorem concluded_executionPointers (t : DateTime) (w : WorkflowInstance) :
    (concluded t w).executionPointers = w.executionPointers := by
  unfold concluded
  split_ifs <;> rfl

@[simp] theorem concluded_id (t : DateTime) (w : WorkflowInstance) :
    (concluded t w).id = w.id := by
  unfold concluded
  split_ifs <;> rfl

theorem concluded_status (t : DateTime) (w : WorkflowInstance) :
    (concluded t w).status = if allDone w ∧ w.status = .runnable then .complete else w.status := by
  unfold concluded
  split_ifs <;> rfl

/-! ## What a round does to the pointers -/

section Examine

variable {definition : WorkflowDefinition} {resolve : StepResolver} {w : WorkflowInstance}
  {idx : Nat} {pointer : ExecutionPointer} {step : WorkflowStep} {body : StepBody} {e : WfeError}

theorem examinePointer_eq_absent (h : examinePointer definition resolve w idx = .absent) :
    w.executionPointers[idx]? = none := by
  unfold examinePointer at h
  split at h
  · assumption
  · split at h
    · cases h
    · split at h
      · cases h
      · cases h
      · split at h <;> cases h

theorem examinePointer_eq_skip
    (h : examinePointer definition resolve w idx = .skip pointer step) :
    w.executionPointers[idx]? = some pointer ∧ definition.findStep pointer.stepId = some step ∧
      step.when.map (Condition.evaluate · w.data) = some (.ok false) := by
  unfold examinePointer at h
  split at h
  · cases h
  · split at h
    · cases h
    · split at h
      · cases h
      · next hw =>
        cases h
        exact ⟨‹_›, ‹_›, hw⟩
      · split at h <;> cases h

theorem examinePointer_eq_run
    (h : examinePointer definition resolve w idx = .run pointer step body) :
    w.executionPointers[idx]? = some pointer ∧ definition.findStep pointer.stepId = some step ∧
      resolve step.stepType = some body ∧
      step.when.all fun c => Condition.evaluate c w.data matches .ok true := by
  unfold examinePointer at h
  split at h
  · cases h
  · split at h
    · cases h
    · split at h
      · cases h
      · cases h
      · next hw hw' =>
        split at h
        · cases h
        · cases h
          refine ⟨‹_›, ‹_›, ‹_›, ?_⟩
          cases hc : step.when with
          | none => rfl
          | some c =>
            match hev : Condition.evaluate c w.data with
            | .error e => exact absurd (by simp [hc, hev]) (hw e)
            | .ok false => exact absurd (by simp [hc, hev]) hw'
            | .ok true => simp [hev]

/-- A pointer whose step is in the definition, with a true condition and a registered type, is
run. -/
theorem examinePointer_of_when (hp : w.executionPointers[idx]? = some pointer)
    (hstep : definition.findStep pointer.stepId = some step)
    (hwhen : step.when.all fun c => Condition.evaluate c w.data matches .ok true)
    (hbody : resolve step.stepType = some body) :
    examinePointer definition resolve w idx = .run pointer step body := by
  unfold examinePointer
  rw [hp]
  dsimp only
  rw [hstep]
  dsimp only
  cases hc : step.when with
  | none => simp [hbody]
  | some c =>
    simp only [hc, Option.all_some] at hwhen
    match hev : Condition.evaluate c w.data with
    | .error e => simp [hev] at hwhen
    | .ok false => simp [hev] at hwhen
    | .ok true => simp [hev, hbody]

/-- A pass reports a missing step only for a pointer whose step is not in the definition. -/
theorem findStep_of_stepNotFound {stepId : Nat}
    (h : examinePointer definition resolve w idx = .abort (.stepNotFound stepId)) :
    ∃ p ∈ w.executionPointers, definition.findStep p.stepId = none := by
  unfold examinePointer at h
  split at h
  · cases h
  · next p hp =>
    split at h
    · exact ⟨p, List.mem_of_getElem? hp, ‹_›⟩
    · next step _ =>
      split at h
      · next hw =>
        cases h
        obtain ⟨c, -, hc⟩ := Option.map_eq_some_iff.mp hw
        obtain ⟨message, hm⟩ := Condition.evaluate_error hc
        cases hm
      · cases h
      · split at h <;> cases h

end Examine

/-- `p'` is the pointer `p` at a later time. -/
structure ExecutionPointer.Later (p p' : ExecutionPointer) : Prop where
  id : p'.id = p.id
  stepId : p'.stepId = p.stepId
  scope : p'.scope = p.scope
  predecessorId : p'.predecessorId = p.predecessorId

/-- The scope a pointer opens for its children. -/
def ExecutionPointer.inner (p : ExecutionPointer) : List String := p.scope ++ [p.id]

namespace ExecutionPointer.Later

variable {p p' p'' : ExecutionPointer}

theorem refl (p : ExecutionPointer) : Later p p := ⟨rfl, rfl, rfl, rfl⟩

theorem trans (h : Later p p') (h' : Later p' p'') : Later p p'' :=
  ⟨h'.id.trans h.id, h'.stepId.trans h.stepId, h'.scope.trans h.scope,
    h'.predecessorId.trans h.predecessorId⟩

theorem inner (h : Later p p') : p'.inner = p.inner := by
  rw [ExecutionPointer.inner, ExecutionPointer.inner, h.id, h.scope]

end ExecutionPointer.Later

theorem ExecutionPointer.scope_ne_inner (p : ExecutionPointer) : p.scope ≠ p.inner := fun h => by
  simpa [ExecutionPointer.inner] using congrArg List.length h

/-- Replacing an element by one with the same image does not change the images. -/
theorem map_set_of_eq {α β : Type} {f : α → β} {l : List α} {i : Nat} {a b : α}
    (ha : l[i]? = some a) (hf : f b = f a) : (l.set i b).map f = l.map f := by
  obtain ⟨hi, rfl⟩ := List.getElem?_eq_some_iff.mp ha
  rw [List.map_set, hf, ← List.getElem_map f (h := by simpa using hi), List.set_getElem_self]

/-- The pointers a round over `p` can create: at a step that the step of `p` refers to. -/
inductive Spawned (definition : WorkflowDefinition) (p : ExecutionPointer) :
    ExecutionPointer → Prop
  | next {step : WorkflowStep} {o : StepOutcome} (id : String)
      (hstep : definition.findStep p.stepId = some step) (ho : o ∈ step.outcomes) :
      Spawned definition p (successorPointer id o.nextStep p definition)
  | compensation {step : WorkflowStep} {stepId : Nat} (id : String)
      (hstep : definition.findStep p.stepId = some step)
      (hc : step.compensationStepId = some stepId) :
      Spawned definition p (successorPointer id stepId p definition)
  | child {step : WorkflowStep} {q : ExecutionPointer}
      (hstep : definition.findStep p.stepId = some step) (hq : q.stepId ∈ step.children)
      (hscope : q.scope = p.scope ++ [p.id]) (hpred : q.predecessorId = some p.id)
      (hstatus : q.status = .pending) : Spawned definition p q

section Spawned

variable {definition : WorkflowDefinition} {p q : ExecutionPointer}

theorem findNextStep_mem {step : WorkflowStep} {outcomeValue : Option Json} {next : Nat}
    (h : findNextStep step outcomeValue = some next) : ∃ o ∈ step.outcomes, o.nextStep = next := by
  simp only [findNextStep, Option.map_eq_some_iff, Option.orElse_eq_orElse,
    Option.orElse_eq_or, Option.or_eq_some_iff] at h
  obtain ⟨o, ho, rfl⟩ := h
  refine ⟨o, ?_, rfl⟩
  rcases ho with (ho | ⟨-, ho⟩) | ⟨-, ho⟩
  · obtain ⟨value, -, ho⟩ := Option.bind_eq_some_iff.mp ho
    exact List.mem_of_find?_eq_some ho
  · exact List.mem_of_find?_eq_some ho
  · exact List.mem_of_head? ho

theorem Spawned.predecessorId (h : Spawned definition p q) : q.predecessorId = some p.id := by
  cases h with
  | child _ _ _ hpred => exact hpred
  | _ => rfl

/-- New pointers are pending. -/
theorem Spawned.status (h : Spawned definition p q) : q.status = .pending := by
  cases h with
  | child _ _ _ _ hstatus => exact hstatus
  | _ => rfl

theorem Spawned.scope (h : Spawned definition p q) : q.scope = p.scope ∨ q.scope = p.inner := by
  cases h with
  | next | compensation => exact .inl rfl
  | child _ _ hscope => exact .inr hscope

theorem mem_childPointers {uuid : Nat → String} {values : List Json} {children : List Nat}
    (h : q ∈ childPointers uuid values children p definition) :
    q.stepId ∈ children ∧ q.scope = p.scope ++ [p.id] ∧ q.predecessorId = some p.id ∧
      q.status = .pending := by
  obtain ⟨k, hk, rfl⟩ := List.mem_mapIdx.mp h
  obtain ⟨value, -, hvc⟩ := List.mem_flatMap.mp (List.getElem_mem hk)
  obtain ⟨child, hchild, hvc⟩ := List.mem_map.mp hvc
  refine ⟨?_, rfl, rfl, rfl⟩
  simp only [← hvc]
  exact hchild

/-- The change of its pointer that a result makes, and the pointers it creates. -/
theorem processResult_advance (env : Ambient) (result : ExecutionResult) (p : ExecutionPointer)
    (definition : WorkflowDefinition) (workflowId : String) :
    p.Later (processResult env result p definition workflowId).1 ∧
      ∀ q ∈ (processResult env result p definition workflowId).2.newPointers,
        Spawned definition p q := by
  unfold processResult
  split
  · refine ⟨⟨rfl, rfl, rfl, rfl⟩, fun q hq => ?_⟩
    obtain ⟨next, hnext, rfl⟩ := List.mem_map.mp hq
    obtain ⟨step, hstep, hnext⟩ := Option.bind_eq_some_iff.mp (Option.mem_toList.mp hnext)
    obtain ⟨o, ho, rfl⟩ := findNextStep_mem hnext
    exact .next _ hstep ho
  · split
    · refine ⟨⟨rfl, rfl, rfl, rfl⟩, fun q hq => ?_⟩
      obtain ⟨hchild, hscope, hpred, hstatus⟩ := mem_childPointers hq
      cases hstep : definition.findStep p.stepId with
      | none => simp [hstep] at hchild
      | some step => exact .child hstep (by simpa [hstep] using hchild) hscope hpred hstatus
    · -- The other results create no pointers.
      repeat' split
      all_goals exact ⟨⟨rfl, rfl, rfl, rfl⟩, by simp⟩

/-- The change of its pointer that a failure makes, and the pointers it creates. -/
theorem handleError_advance (env : Ambient) (p : ExecutionPointer)
    (definition : WorkflowDefinition) :
    p.Later (handleError env p definition).1 ∧
      ∀ q ∈ (handleError env p definition).2.newPointers, Spawned definition p q := by
  unfold handleError
  split
  · split_ifs <;> exact ⟨⟨rfl, rfl, rfl, rfl⟩, by simp⟩
  · exact ⟨⟨rfl, rfl, rfl, rfl⟩, by simp⟩
  · exact ⟨⟨rfl, rfl, rfl, rfl⟩, by simp⟩
  · refine ⟨⟨rfl, rfl, rfl, rfl⟩, fun q hq => ?_⟩
    obtain ⟨stepId, hstepId, rfl⟩ := List.mem_map.mp hq
    obtain ⟨step, hstep, hc⟩ := Option.bind_eq_some_iff.mp (Option.mem_toList.mp hstepId)
    exact .compensation _ hstep hc

theorem startPointer_later (env : Ambient) (p : ExecutionPointer) : p.Later (startPointer env p) :=
  ⟨rfl, rfl, rfl, rfl⟩

theorem successorPointer_of_later {p' : ExecutionPointer} (h : p.Later p') (id : String)
    (stepId : Nat) :
    successorPointer id stepId p' definition = successorPointer id stepId p definition := by
  simp only [successorPointer, h.id, h.scope]

theorem Spawned.of_later {p' : ExecutionPointer} (h : p.Later p') (hq : Spawned definition p' q) :
    Spawned definition p q := by
  cases hq with
  | next id hstep ho =>
    rw [successorPointer_of_later h]
    exact .next id (h.stepId ▸ hstep) ho
  | compensation id hstep hc =>
    rw [successorPointer_of_later h]
    exact .compensation id (h.stepId ▸ hstep) hc
  | child hstep hq hscope hpred hstatus =>
    exact .child (h.stepId ▸ hstep) hq (by rw [hscope, h.scope, h.id]) (by rw [hpred, h.id]) hstatus

@[simp] theorem mergeOutput_executionPointers (w : WorkflowInstance) (out : Option Json) :
    (mergeOutput w out).executionPointers = w.executionPointers := by
  unfold mergeOutput
  split <;> rfl

@[simp] theorem applyStatus_executionPointers (env : Ambient) (status : Option WorkflowStatus)
    (w : WorkflowInstance) :
    (applyStatus env status w).executionPointers = w.executionPointers := by
  unfold applyStatus
  split <;> rfl

end Spawned

/-! ## Changed pointer lists -/

section Lists

variable {l new : List ExecutionPointer} {idx : Nat} {p q x x' : ExecutionPointer}

theorem map_id_set_append (hx : l[idx]? = some x) (hlater : x.Later x') :
    (l.set idx x' ++ new).map ExecutionPointer.id =
      l.map ExecutionPointer.id ++ new.map ExecutionPointer.id := by
  rw [List.map_append, map_set_of_eq hx hlater.id]

/-- A round changes its pointer in its place. -/
theorem getElem?_set_append_self (hx : l[idx]? = some x) :
    (l.set idx x' ++ new)[idx]? = some x' := by
  have hlt := (List.getElem?_eq_some_iff.mp hx).1
  rw [List.getElem?_append_left (by simpa using hlt), List.getElem?_set_self hlt]

/-- A round leaves the other pointers as they are. -/
theorem getElem?_set_append_ne {j : Nat} (hp : l[j]? = some p) (hne : idx ≠ j) :
    (l.set idx x' ++ new)[j]? = some p := by
  have hlt := (List.getElem?_eq_some_iff.mp hp).1
  rw [List.getElem?_append_left (by simpa using hlt), List.getElem?_set_ne hne, hp]

/-- A pointer after a round was there before, or is new. -/
theorem getElem?_set_append (hx : l[idx]? = some x) (hlater : x.Later x') {j : Nat}
    (hq : (l.set idx x' ++ new)[j]? = some q) :
    (∃ p, l[j]? = some p ∧ p.Later q ∧ (q = p ∨ p = x ∧ q = x')) ∨ (l.length ≤ j ∧ q ∈ new) := by
  by_cases hj : j < l.length
  · rw [List.getElem?_append_left (by simpa using hj)] at hq
    by_cases h : idx = j
    · subst h
      obtain rfl : x' = q := by simpa [hj] using hq
      exact .inl ⟨x, hx, hlater, .inr ⟨rfl, rfl⟩⟩
    · rw [List.getElem?_set_ne h] at hq
      exact .inl ⟨q, hq, .refl q, .inl rfl⟩
  · rw [List.getElem?_append_right (by simpa using hj)] at hq
    exact .inr ⟨Nat.le_of_not_lt hj, List.mem_of_getElem? hq⟩

variable (new) in
/-- A pointer is still there after a round. -/
theorem getElem?_later (hx : l[idx]? = some x) (hlater : x.Later x') {i : Nat}
    (hp : l[i]? = some p) : ∃ q, (l.set idx x' ++ new)[i]? = some q ∧ p.Later q := by
  by_cases h : idx = i
  · subst h
    obtain rfl : x = p := Option.some_inj.mp (hx.symm.trans hp)
    exact ⟨x', getElem?_set_append_self hx, hlater⟩
  · exact ⟨p, getElem?_set_append_ne hp h, .refl p⟩

theorem mem_set_append (hx : l[idx]? = some x) (hlater : x.Later x')
    (hq : q ∈ l.set idx x' ++ new) :
    (∃ p ∈ l, p.Later q ∧ (q = p ∨ p = x ∧ q = x')) ∨ q ∈ new := by
  obtain ⟨j, hj⟩ := List.mem_iff_getElem?.mp hq
  rcases getElem?_set_append hx hlater hj with ⟨p, hp, hpq⟩ | ⟨-, hq⟩
  · exact .inl ⟨p, List.mem_of_getElem? hp, hpq⟩
  · exact .inr hq

/-- A round leaves a scope empty if it creates nothing there. -/
theorem scope_ne_of_set_append (hx : l[idx]? = some x) (hlater : x.Later x') {scope : List String}
    (hl : ∀ q ∈ l, q.scope ≠ scope) (hnew : ∀ q ∈ new, q.scope ≠ scope) :
    ∀ q ∈ l.set idx x' ++ new, q.scope ≠ scope := by
  intro q hq
  rcases mem_set_append hx hlater hq with ⟨p, hp, hpq, -⟩ | hq
  · exact hpq.scope ▸ hl p hp
  · exact hnew q hq

variable (new) in
theorem exists_later (hx : l[idx]? = some x) (hlater : x.Later x') (hp : p ∈ l) :
    ∃ q ∈ l.set idx x' ++ new, p.Later q := by
  obtain ⟨i, hi⟩ := List.mem_iff_getElem?.mp hp
  obtain ⟨q, hq, hpq⟩ := getElem?_later new hx hlater hi
  exact ⟨q, List.mem_of_getElem? hq, hpq⟩

end Lists

/-- The ids of the pointers, in the order of their creation. -/
def WorkflowInstance.pointerIds (w : WorkflowInstance) : List String :=
  w.executionPointers.map ExecutionPointer.id

/-! ## What the pointer loop keeps of the instance -/

/-- `w'` is the same instance as `w`, and not complete unless `w` was. -/
def Continues (w w' : WorkflowInstance) : Prop :=
  w'.id = w.id ∧ (w.status ≠ .complete → w'.status ≠ .complete)

namespace Continues

variable {w w' w'' : WorkflowInstance}

theorem refl (w : WorkflowInstance) : Continues w w := ⟨rfl, id⟩

theorem trans (h : Continues w w') (h' : Continues w' w'') : Continues w w'' :=
  ⟨h'.1.trans h.1, fun hw => h'.2 (h.2 hw)⟩

theorem setPointer (w : WorkflowInstance) (idx : Nat) (p : ExecutionPointer) :
    Continues w (w.setPointer idx p) := ⟨rfl, id⟩

theorem pushPointers (w : WorkflowInstance) (ps : List ExecutionPointer) :
    Continues w (w.pushPointers ps) := ⟨rfl, id⟩

theorem mergeOutput (w : WorkflowInstance) (out : Option Json) :
    Continues w (mergeOutput w out) := by
  unfold Wfe.mergeOutput
  split <;> exact ⟨rfl, id⟩

/-- No error handler completes a workflow. -/
theorem handleError (env : Ambient) (pointer : ExecutionPointer)
    (definition : WorkflowDefinition) (w : WorkflowInstance) :
    Continues w (applyStatus env (handleError env pointer definition).2.workflowStatus w) := by
  unfold Wfe.handleError
  split
  · split_ifs
    · exact ⟨rfl, fun _ => by simp [applyStatus]⟩
    · exact refl w
  · exact ⟨rfl, fun _ => by simp [applyStatus]⟩
  · exact ⟨rfl, fun _ => by simp [applyStatus]⟩
  · exact refl w

end Continues

section Rounds

variable {definition : WorkflowDefinition} {resolve : StepResolver} {host : Option HostContext}
  {workflowId : String} {st st' st'' : PassState} {idx : Nat} {indices : List Nat}
  {ran ran' : List Ran}

variable (definition st idx) in
theorem applyResult_executionPointers (env env' : Ambient) (pointer : ExecutionPointer)
    (result : ExecutionResult) :
    (applyResult env' definition idx (startPointer env pointer) result
      (st.started env idx pointer)).workflow.executionPointers =
      st.workflow.executionPointers.set idx (processResult env' result (startPointer env pointer)
        definition st.workflow.id).1 ++ (processResult env' result (startPointer env pointer)
          definition st.workflow.id).2.newPointers := by
  simp [applyResult, WorkflowInstance.pushPointers, WorkflowInstance.setPointer, PassState.started]

theorem applyError_executionPointers (env env' : Ambient) (pointer : ExecutionPointer)
    (e : WfeError) :
    (applyError env' definition workflowId idx (startPointer env pointer) e
      (st.started env idx pointer)).workflow.executionPointers =
      st.workflow.executionPointers.set idx
        (handleError env' (startPointer env pointer) definition).1 ++
          (handleError env' (startPointer env pointer) definition).2.newPointers := by
  simp [applyError, WorkflowInstance.pushPointers, WorkflowInstance.setPointer, PassState.started]

/-- Every round changes one pointer and pushes what its step refers to. -/
theorem Round.advance (h : Round definition resolve host workflowId st idx ran st') :
    st' = st ∨ ∃ p p' new, st.workflow.executionPointers[idx]? = some p ∧ p.Later p' ∧
      (∀ q ∈ new, Spawned definition p q) ∧
      st'.workflow.executionPointers = st.workflow.executionPointers.set idx p' ++ new := by
  cases h with
  | absent => exact .inl rfl
  | skipped env pointer step h =>
    obtain ⟨hp, hstep, -⟩ := examinePointer_eq_skip h
    refine .inr ⟨pointer, _, _, hp, ?_, ?_, rfl⟩
    · exact ⟨rfl, rfl, rfl, rfl⟩
    intro q hq
    obtain ⟨o, ho, rfl⟩ := List.mem_map.mp hq
    exact .next _ hstep (List.mem_of_head? (Option.mem_toList.mp ho))
  | returned env env' pointer step body result h hbody =>
    obtain ⟨hlater, hnew⟩ := processResult_advance env' result (startPointer env pointer)
      definition st.workflow.id
    have hstart := startPointer_later env pointer
    exact .inr ⟨pointer, _, _, (examinePointer_eq_run h).1, hstart.trans hlater,
      fun q hq => (hnew q hq).of_later hstart, applyResult_executionPointers ..⟩
  | failed env env' pointer step body e h hbody =>
    obtain ⟨hlater, hnew⟩ := handleError_advance env' (startPointer env pointer) definition
    have hstart := startPointer_later env pointer
    exact .inr ⟨pointer, _, _, (examinePointer_eq_run h).1, hstart.trans hlater,
      fun q hq => (hnew q hq).of_later hstart, applyError_executionPointers env env' pointer e⟩

theorem Round.pointerIds (h : Round definition resolve host workflowId st idx ran st') :
    st.workflow.pointerIds <+: st'.workflow.pointerIds := by
  rcases h.advance with rfl | ⟨p, p', new, hp, hp', -, hst'⟩
  · exact List.prefix_rfl
  · simp only [WorkflowInstance.pointerIds, hst', map_id_set_append hp hp', List.prefix_append]

theorem Loop.pointerIds (h : Loop definition resolve host workflowId st indices ran st') :
    st.workflow.pointerIds <+: st'.workflow.pointerIds := by
  induction h with
  | nil => exact List.prefix_rfl
  | cons hround _ ih => exact hround.pointerIds.trans ih

theorem Pass.pointerIds {w w' : WorkflowInstance} (h : Pass definition resolve host w ran w') :
    w.pointerIds <+: w'.pointerIds := by
  obtain ⟨-, now, t, st, hloop, rfl⟩ := h
  simpa [WorkflowInstance.pointerIds] using hloop.pointerIds

theorem Round.continues (h : Round definition resolve host workflowId st idx ran st') :
    Continues st.workflow st'.workflow := by
  cases h with
  | absent => exact .refl _
  | skipped => exact (Continues.setPointer ..).trans (.pushPointers ..)
  | returned =>
    exact (Continues.setPointer ..).trans
      (((Continues.setPointer ..).trans (.mergeOutput ..)).trans (.pushPointers ..))
  | failed =>
    exact (Continues.setPointer ..).trans
      (((Continues.setPointer ..).trans (.handleError ..)).trans (.pushPointers ..))

theorem Loop.continues (h : Loop definition resolve host workflowId st indices ran st') :
    Continues st.workflow st'.workflow := by
  induction h with
  | nil st => exact .refl _
  | cons hround _ ih => exact hround.continues.trans ih

/-- What every round keeps, the loop keeps. -/
theorem Loop.keeps {N : PassState → Prop}
    (hN : ∀ st idx ran st', N st → Round definition resolve host workflowId st idx ran st' → N st')
    (h : Loop definition resolve host workflowId st indices ran st') (hst : N st) : N st' := by
  induction h with
  | nil st => exact hst
  | cons hround _ ih => exact ih (hN _ _ _ _ hst hround)

section Forall

variable {N : ExecutionPointer → Prop} (hlater : ∀ p q, N p → p.Later q → N q)
  (hspawned : ∀ p q, N p → Spawned definition p q → N q)

include hlater hspawned

theorem Round.forall_pointers (h : Round definition resolve host workflowId st idx ran st')
    (hst : ∀ p ∈ st.workflow.executionPointers, N p) :
    ∀ p ∈ st'.workflow.executionPointers, N p := by
  rcases h.advance with rfl | ⟨p, p', new, hp, hp', hnew, hst'⟩
  · exact hst
  · have hNp := hst p (List.mem_of_getElem? hp)
    rw [hst']
    intro q hq
    rcases List.mem_append.mp hq with hq | hq
    · rcases List.mem_or_eq_of_mem_set hq with hq | rfl
      · exact hst q hq
      · exact hlater p q hNp hp'
    · exact hspawned p q hNp (hnew q hq)

theorem Loop.forall_pointers (h : Loop definition resolve host workflowId st indices ran st')
    (hst : ∀ p ∈ st.workflow.executionPointers, N p) :
    ∀ p ∈ st'.workflow.executionPointers, N p :=
  h.keeps (N := fun st => ∀ p ∈ st.workflow.executionPointers, N p)
    (fun _ _ _ _ hst hround => hround.forall_pointers hlater hspawned hst) hst

/-- A property of pointers that is kept over time and passed on to new pointers is kept by a
pass. -/
theorem Pass.forall_pointers {w w' : WorkflowInstance}
    (h : Pass definition resolve host w ran w') (hw : ∀ p ∈ w.executionPointers, N p) :
    ∀ p ∈ w'.executionPointers, N p := by
  obtain ⟨-, now, t, st, hloop, rfl⟩ := h
  rw [concluded_executionPointers]
  exact hloop.forall_pointers hlater hspawned hw

end Forall

theorem Aborts.cons {e : WfeError}
    (hround : Round definition resolve host workflowId st idx ran st')
    (h : Aborts definition resolve host workflowId st' indices e) :
    Aborts definition resolve host workflowId st (idx :: indices) e := by
  obtain ⟨done, i, rest, rans, st'', rfl, hloop, hi⟩ := h
  exact ⟨idx :: done, i, rest, ran ++ rans, st'', rfl, .cons hround hloop, hi⟩

end Rounds

end Wfe
