import Wfe.Executor.OnePointer

/-!
# Counting retries

A pointer counts the failures of its body, until its step has no retries left and it has failed for
good. Nothing else in a pass touches the count.

## Main definitions

* `RetriesUpTo`: the steps that are retried
* `Becomes`: all that a pass can do to a pointer at such a step
* `Budget`, `Budgeted`: the state of a pointer whose body has failed so and so often

## Main results

* `Turns.becomes`: what the turns of a pass do to a pointer
* `Becomes.budgeted`, `Becomes.not_budgeted`: right counts stay right, and wrong ones wrong
-/

namespace Wfe

open Program Provider

/-! ## What a turn does to the count -/

/-- The body has failed. -/
def Ran.isFailure : Ran → Bool
  | .failed _ _ => true
  | _ => false

/-- The step is retried `m` times. -/
def RetriesUpTo (definition : WorkflowDefinition) (stepId m : Nat) : Prop :=
  ∃ interval, ((definition.findStep stepId).bind WorkflowStep.errorBehavior).getD
    definition.defaultErrorBehavior = .retry interval m

section Tally

variable {definition : WorkflowDefinition} {resolve : StepResolver} {host : Option HostContext}
  {workflowId : String} {st st' : PassState} {i m : Nat} {r : Ran} {p p' q : ExecutionPointer}
  {new : List ExecutionPointer} {step : WorkflowStep}

/-- What a turn does to the count, the status and the sleep of its pointer, if the step is retried
`m` times. -/
inductive Tally (m : Nat) (p p' : ExecutionPointer) : Bool → Prop
  | other (hcount : p'.retryCount = p.retryCount) (hstatus : p'.status ≠ .failed)
      (hsleep : p'.status = .waitingForEvent → p'.sleepUntil = p.sleepUntil) : Tally m p p' false
  | retried (hlt : p.retryCount < m) (hcount : p'.retryCount = p.retryCount + 1)
      (hstatus : p'.status = .sleeping) : Tally m p p' true
  | exhausted (hle : m ≤ p.retryCount) (hcount : p'.retryCount = p.retryCount)
      (hstatus : p'.status = .failed) (hactive : p'.active = false) : Tally m p p' true

/-- A pointer that now waits for an event sleeps no longer than before. -/
theorem Tally.sleepUntil {b : Bool} (h : Tally m p p' b) (hwaits : p'.status = .waitingForEvent) :
    p'.sleepUntil = p.sleepUntil := by
  cases h with
  | other hcount hstatus hsleep => exact hsleep hwaits
  | retried hlt hcount hstatus => simp [hstatus] at hwaits
  | exhausted hle hcount hstatus hactive => simp [hstatus] at hwaits

theorem processResult_tally (env env' : Ambient) (result : ExecutionResult) (p : ExecutionPointer) :
    Tally m p (processResult env' result (startPointer env p) definition workflowId).1 false := by
  unfold processResult
  -- Each branch sets the status, and only a wait for an event sets it without a new sleep.
  repeat' split
  all_goals exact .other rfl (by simp [startPointer]) (by simp [startPointer])

theorem handleError_tally (env env' : Ambient) (hm : 0 < m)
    (hretry : RetriesUpTo definition p.stepId m) :
    Tally m p (handleError env' (startPointer env p) definition).1 true := by
  obtain ⟨interval, hbehavior⟩ := hretry
  have hbehavior : errorBehaviorOf (startPointer env p) definition = .retry interval m := hbehavior
  have hcount : (startPointer env p).retryCount = p.retryCount := rfl
  unfold handleError
  rw [hbehavior]
  dsimp only
  split_ifs with h
  · exact .exhausted h.2 rfl rfl rfl
  · exact .retried (Nat.lt_of_not_le fun hle => h ⟨hm, hle⟩) rfl rfl

/-- The turn of a pointer changes its count as `Tally` says. -/
theorem Round.tally (h : Round definition resolve host workflowId st i [r] st') (hm : 0 < m)
    (hp : st.workflow.executionPointers[i]? = some p)
    (hretry : RetriesUpTo definition p.stepId m) :
    ∃ p', st'.workflow.executionPointers[i]? = some p' ∧ p.Later p' ∧ Tally m p p' r.isFailure := by
  cases h with
  | skipped env pointer step h =>
    obtain rfl : p = pointer :=
      Option.some_inj.mp (hp.symm.trans (examinePointer_eq_skip h).1)
    exact ⟨_, getElem?_set_append_self hp, ⟨rfl, rfl, rfl, rfl⟩, .other rfl (by simp) (by simp)⟩
  | returned env env' pointer step body result h hbody =>
    obtain rfl : p = pointer := Option.some_inj.mp (hp.symm.trans (examinePointer_eq_run h).1)
    obtain ⟨hlater, -⟩ := processResult_advance env' result (startPointer env p) definition
      st.workflow.id
    rw [applyResult_executionPointers]
    exact ⟨_, getElem?_set_append_self hp, (startPointer_later env p).trans hlater,
      processResult_tally env env' _ p⟩
  | failed env env' pointer step body e h hbody =>
    obtain rfl : p = pointer := Option.some_inj.mp (hp.symm.trans (examinePointer_eq_run h).1)
    obtain ⟨hlater, -⟩ := handleError_advance env' (startPointer env p) definition
    rw [applyError_executionPointers]
    exact ⟨_, getElem?_set_append_self hp, (startPointer_later env p).trans hlater,
      handleError_tally env env' hm hretry⟩

/-- New pointers have no failures behind them. -/
theorem Effect.retryCount (h : Effect definition step p r p' new) (hq : q ∈ new) :
    q.retryCount = 0 := by
  cases h with
  | skipped | proceeded =>
    obtain ⟨_, -, rfl⟩ := List.mem_map.mp hq
    rfl
  | branched =>
    obtain ⟨_, _, rfl⟩ := List.mem_mapIdx.mp hq
    rfl
  | waits | pauses | retries => cases hq
  | failed =>
    split_ifs at hq
    · obtain ⟨_, -, rfl⟩ := List.mem_map.mp hq
      rfl
    · cases hq

end Tally

/-! ## What a pass does to one pointer -/

/-- The body of this pointer has failed in the turn. -/
def Turn.fails (x : PointerKey) (t : Turn) : Bool := t.isOf x && t.ran.isFailure

section Turns

variable {definition : WorkflowDefinition} {resolve : StepResolver} {host : Option HostContext}
  {workflowId : String} {st st' : PassState} {turns : List Turn} {t : Turn} {x : PointerKey}
  {w w' : WorkflowInstance} {i m : Nat} {p q : ExecutionPointer}

/-- All that a pass can do to a pointer at a step that is retried `m` times: before, failures of its
body in the pass, after. -/
inductive Becomes (m : Nat) : Option ExecutionPointer → Nat → Option ExecutionPointer → Prop
  | absent : Becomes m none 0 none
  | created {q : ExecutionPointer} (hcount : q.retryCount = 0) (hstatus : q.status = .pending) :
      Becomes m none 0 (some q)
  | kept {p p' : ExecutionPointer} (hcount : p'.retryCount = p.retryCount)
      (hfailed : p'.status = .failed ↔ p.status = .failed)
      (hactive : p.status = .failed → p'.active = p.active) : Becomes m (some p) 0 (some p')
  | retried {p p' : ExecutionPointer} (hp : p.status ≠ .failed) (hlt : p.retryCount < m)
      (hcount : p'.retryCount = p.retryCount + 1) (hstatus : p'.status ≠ .failed) :
      Becomes m (some p) 1 (some p')
  | exhausted {p p' : ExecutionPointer} (hp : p.status ≠ .failed) (hle : m ≤ p.retryCount)
      (hcount : p'.retryCount = p.retryCount) (hstatus : p'.status = .failed)
      (hactive : p'.active = false) : Becomes m (some p) 1 (some p')

theorem Tally.becomes {p' : ExecutionPointer} {b : Bool} (h : Tally m p p' b)
    (hp : p.status ≠ .failed) : Becomes m (some p) (if b then 1 else 0) (some p') := by
  cases h with
  | other hcount hstatus hsleep => exact .kept hcount (by simp [hp, hstatus]) (absurd · hp)
  | retried hlt hcount hstatus => exact .retried hp hlt hcount (by simp [hstatus])
  | exhausted hle hcount hstatus hactive => exact .exhausted hp hle hcount hstatus hactive

/-- A pointer has one turn in a pass at most. -/
theorem countP_fails (hnodup : (turns.map Turn.index).Nodup) (ht : t ∈ turns) (hof : t.isOf x) :
    turns.countP (·.fails x) = if t.ran.isFailure then 1 else 0 := by
  have hindex (t : Turn) (h : t.isOf x = true) : t.index = x.index := (of_decide_eq_true h).1
  -- Two turns of one pointer would have one index.
  induction turns with
  | nil => cases ht
  | cons t' turns ih =>
    obtain ⟨hnotin, hnodup⟩ := List.nodup_cons.mp hnodup
    rcases List.mem_cons.mp ht with rfl | ht
    · have hrest : turns.countP (·.fails x) = 0 := by
        refine List.countP_eq_zero.mpr fun t' ht' hfails => hnotin ?_
        have hof' := (Bool.and_eq_true_iff.mp hfails).1
        rw [hindex t hof, ← hindex t' hof']
        exact List.mem_map_of_mem ht'
      rw [List.countP_cons, hrest, Turn.fails, hof, Bool.true_and, Nat.zero_add]
    · have hother : t'.fails x = false := by
        refine Bool.eq_false_iff.mpr fun hfails => hnotin ?_
        have hof' := (Bool.and_eq_true_iff.mp hfails).1
        rw [hindex t' hof', ← hindex t hof]
        exact List.mem_map_of_mem ht
      rw [List.countP_cons, hother, ih hnodup ht]
      simp

/-- A pass gives a pointer one turn, or leaves it as it is, or creates it. -/
theorem Turns.pointerAt (h : Turns definition resolve host workflowId { workflow := w } turns st')
    (hm : 0 < m) (hretry : RetriesUpTo definition x.stepId m)
    (hnodup : (turns.map Turn.index).Nodup)
    (hpointer : ∀ t ∈ turns, w.executionPointers[t.index]? = some t.pointer) :
    (∃ t ∈ turns, t.isOf x = true ∧ w.pointerAt x = some t.pointer ∧
      ∃ p', st'.workflow.pointerAt x = some p' ∧ Tally m t.pointer p' t.ran.isFailure) ∨
    ((∀ t ∈ turns, t.isOf x = false) ∧ (st'.workflow.pointerAt x = w.pointerAt x ∨
      w.pointerAt x = none ∧ ∃ q, st'.workflow.pointerAt x = some q ∧ q.retryCount = 0 ∧
        q.status = .pending)) := by
  rcases h.visited (x := x) hnodup hpointer with
    ⟨t, ht, hof, hbefore, st₁, st₂, p', hp₁, hround, hp', hafter⟩ | ⟨hother, hsame⟩
  · have hstep : t.pointer.stepId = x.stepId :=
      (of_decide_eq_true (of_decide_eq_true hof).2).2
    obtain ⟨p'', hp'', -, htally⟩ := hround.tally hm hp₁ (hstep ▸ hretry)
    obtain rfl : p' = p'' := Option.some_inj.mp (hp'.symm.trans hp'')
    exact .inl ⟨t, ht, hof, hbefore, p', hafter, htally⟩
  · refine .inr ⟨hother, hsame.imp_right ?_⟩
    rintro ⟨hbefore, q, hafter, t, -, step, p', new, heffect, hq⟩
    exact ⟨hbefore, q, hafter, heffect.retryCount hq, (heffect.fresh hq).status⟩

/-- **What the turns of a pass do to a pointer** at a step that is retried `m` times. -/
theorem Turns.becomes (h : Turns definition resolve host workflowId { workflow := w } turns st')
    (hm : 0 < m) (hretry : RetriesUpTo definition x.stepId m)
    (hnodup : (turns.map Turn.index).Nodup)
    (hpointer : ∀ t ∈ turns, w.executionPointers[t.index]? = some t.pointer ∧
      t.pointer.status.isDone = false) :
    Becomes m (w.pointerAt x) (turns.countP (·.fails x)) (st'.workflow.pointerAt x) := by
  rcases h.pointerAt hm hretry hnodup fun t ht => (hpointer t ht).1 with
    ⟨t, ht, hof, hbefore, p', hafter, htally⟩ | ⟨hother, hsame⟩
  · -- Its turn is that of a runnable pointer, so it had not failed for good.
    rw [countP_fails hnodup ht hof, hbefore, hafter]
    refine htally.becomes fun hfailed => ?_
    have hdone := (hpointer t ht).2
    simp [hfailed, PointerStatus.isDone] at hdone
  · have hcount : turns.countP (·.fails x) = 0 := by
      refine List.countP_eq_zero.mpr fun t ht hfails => ?_
      rw [Turn.fails, hother t ht] at hfails
      cases hfails
    rw [hcount]
    rcases hsame with hsame | ⟨hbefore, q, hafter, hcount, hstatus⟩
    · rw [hsame]
      cases w.pointerAt x with
      | none => exact .absent
      | some p => exact .kept rfl Iff.rfl fun _ => rfl
    · rw [hbefore, hafter]
      exact .created hcount hstatus

end Turns

/-! ## The budget -/

/-- The state of a pointer whose body has failed `k` times, at a step that is retried `m` times. -/
structure Budget (m k : Nat) (p : ExecutionPointer) : Prop where
  count : p.retryCount = min k m
  bound : k ≤ m + 1
  failed : p.status = .failed ↔ k = m + 1
  inactive : k = m + 1 → p.active = false

/-- There is a pointer, if its body has failed, and its count is right. -/
def Budgeted (m k : Nat) (p : Option ExecutionPointer) : Prop :=
  (0 < k → p.isSome = true) ∧ ∀ q, p = some q → Budget m k q

section Budget

variable {m n k j : Nat} {p p' : Option ExecutionPointer}

theorem budgeted_zero (h : ∀ q, p = some q → q.retryCount = 0 ∧ q.status = .pending) :
    Budgeted m 0 p := by
  refine ⟨fun h => absurd h (Nat.lt_irrefl 0), fun q hq => ?_⟩
  obtain ⟨hcount, hstatus⟩ := h q hq
  exact ⟨by rw [hcount, Nat.zero_min], Nat.zero_le _, by simp [hstatus], nofun⟩

/-- A pass keeps the count right. -/
theorem Becomes.budgeted (h : Becomes m p n p') (hp : Budgeted m k p) :
    Budgeted m (k + n) p' := by
  obtain ⟨hsome, hbudget⟩ := hp
  cases h with
  | absent => exact ⟨hsome, fun q hq => by cases hq⟩
  | created hcount hstatus =>
    obtain rfl : k = 0 := Nat.eq_zero_of_not_pos fun hk => by simpa using hsome hk
    exact budgeted_zero (by rintro _ ⟨⟩; exact ⟨hcount, hstatus⟩)
  | kept hcount hfailed hactive =>
    obtain ⟨hk, hbound, hfail, hinactive⟩ := hbudget _ rfl
    refine ⟨fun _ => rfl, ?_⟩
    rintro _ ⟨⟩
    refine ⟨hcount.trans hk, hbound, hfailed.trans hfail, fun h => ?_⟩
    rw [hactive (hfail.mpr h), hinactive h]
  | retried hp hlt hcount hstatus =>
    obtain ⟨hk, hbound, hfail, -⟩ := hbudget _ rfl
    refine ⟨fun _ => rfl, ?_⟩
    rintro _ ⟨⟩
    exact ⟨by omega, by omega, by simp only [hstatus, false_iff]; omega, by omega⟩
  | exhausted hp hle hcount hstatus hactive =>
    obtain ⟨hk, hbound, hfail, -⟩ := hbudget _ rfl
    -- All retries are used up, but it has not failed for good: there were `m` failures.
    have hne : k ≠ m + 1 := fun h => hp (hfail.mpr h)
    refine ⟨fun _ => rfl, ?_⟩
    rintro _ ⟨⟩
    exact ⟨by omega, by omega, by simp only [hstatus, true_iff]; omega, fun _ => hactive⟩

/-- A pass from a value that knows too few failures does not make up for the others. -/
theorem Becomes.not_budgeted (h : Becomes m p n p') (hm : 0 < m) (hp : Budgeted m k p)
    (hlt : k < j) : ¬Budgeted m (j + n) p' := by
  rintro ⟨hsome', hbudget'⟩
  obtain ⟨-, hbudget⟩ := hp
  cases h with
  | absent => simpa using hsome' (by omega)
  | created hcount hstatus =>
    obtain ⟨hj, -⟩ := hbudget' _ rfl
    omega
  | kept hcount hfailed hactive =>
    obtain ⟨hk, hbound, hfail, -⟩ := hbudget _ rfl
    obtain ⟨hj, hbound', hfail', -⟩ := hbudget' _ rfl
    -- The counts agree only if all retries are used up, and then only one value has failed.
    have hfailed := (hfail'.symm.trans hfailed).trans hfail
    omega
  | retried hp hlt' hcount hstatus =>
    obtain ⟨hk, hbound, hfail, -⟩ := hbudget _ rfl
    obtain ⟨hj, hbound', hfail', -⟩ := hbudget' _ rfl
    have hne : j + 1 ≠ m + 1 := fun h => hstatus (hfail'.mpr h)
    omega
  | exhausted hp hle hcount hstatus hactive =>
    obtain ⟨hk, hbound, hfail, -⟩ := hbudget _ rfl
    obtain ⟨hj, hbound', hfail', -⟩ := hbudget' _ rfl
    omega

/-- No value is right for two counts. -/
theorem Budgeted.eq_zero (h : Budgeted m k p) (h' : Budgeted m (k + n) p) : n = 0 := by
  obtain ⟨-, hbudget⟩ := h
  obtain ⟨hsome', hbudget'⟩ := h'
  cases p with
  | none => exact Nat.eq_zero_of_not_pos fun hn => by simpa using hsome' (by omega)
  | some q =>
    obtain ⟨hk, hbound, hfail, -⟩ := hbudget _ rfl
    obtain ⟨hk', hbound', hfail', -⟩ := hbudget' _ rfl
    have hsame := hfail.symm.trans hfail'
    omega

end Budget

end Wfe
