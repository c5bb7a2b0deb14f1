import Wfe.Executor.Pass

/-!
# Chains of steps

A chain is a list of steps each of which leads to the next one and the last of which leads
nowhere. Started at its first step, with bodies that all proceed, an instance goes through the
chain one step in each pass, and is complete when it has gone through all of it.

## Main definitions

* `Passes`: passes made one after another
* `Ran.Proceeded`: the body of a round proceeded, without an outcome value
* `WorkflowDefinition.Chain`: chains of steps
* `ChainAt ids k`: an instance after `k` steps of the chain `ids`

## Main results

* `ChainAt.pass`: a pass in which all bodies proceed goes on by one step
* `ChainAt.exists_pass`: if the next body proceeds, there is such a pass
* `ChainAt.passes`: runs along a chain
-/

namespace Wfe

/-- Passes made one after another, from `w` on. -/
inductive Passes (definition : WorkflowDefinition) (resolve : StepResolver)
    (host : Option HostContext) (w : WorkflowInstance) : List (List Ran) → WorkflowInstance → Prop
  | nil : Passes definition resolve host w [] w
  | snoc {rans : List (List Ran)} {ran : List Ran} {w' w'' : WorkflowInstance}
      (h : Passes definition resolve host w rans w')
      (hpass : Pass definition resolve host w' ran w'') :
      Passes definition resolve host w (rans ++ [ran]) w''

def Ran.stepId : Ran → Nat
  | skipped stepId | returned stepId _ | failed stepId _ => stepId

/-- The body ran and proceeded, without an outcome value. -/
def Ran.Proceeded : Ran → Prop
  | returned _ result => result.proceed = true ∧ result.outcomeValue = none
  | _ => False

/-- Each step of `ids` leads to the next one, and the last one nowhere. -/
def WorkflowDefinition.Chain (definition : WorkflowDefinition) : List Nat → Prop
  | [] => True
  | id :: ids =>
    (∃ step, definition.findStep id = some step ∧ findNextStep step none = ids.head?) ∧
      definition.Chain ids

/-- The first `k` steps of the chain have run: their pointers are complete, and the next step, if
there is one, has a pointer that is to run. -/
structure ChainAt (ids : List Nat) (k : Nat) (w : WorkflowInstance) : Prop where
  pointers : ∃ done current, w.executionPointers = done ++ current ∧ done.length = k ∧
    (∀ p ∈ done, p.active = false ∧ p.status = .complete) ∧
    current.map ExecutionPointer.stepId = ids[k]?.toList ∧
    ∀ p ∈ current, p.active = true ∧ p.status = .pending ∧ p.sleepUntil = none
  status : w.status = if k < ids.length then .runnable else .complete

section Chain

variable {definition : WorkflowDefinition} {resolve : StepResolver} {host : Option HostContext}
  {ids : List Nat} {k : Nat} {w w' : WorkflowInstance} {ran : List Ran}

theorem WorkflowDefinition.Chain.get (h : definition.Chain ids) {id : Nat}
    (hid : ids[k]? = some id) :
    ∃ step, definition.findStep id = some step ∧ findNextStep step none = ids[k + 1]? := by
  induction ids generalizing k with
  | nil => cases hid
  | cons id' ids ih =>
    cases k with
    | zero =>
      obtain rfl : id' = id := by simpa using hid
      obtain ⟨step, hstep, hnext⟩ := h.1
      exact ⟨step, hstep, by rw [hnext, List.head?_eq_getElem?, List.getElem?_cons_succ]⟩
    | succ k => simpa using ih h.2 hid

/-- Only the last of the pointers is runnable. -/
theorem runnableIndices_append {done : List ExecutionPointer} {p : ExecutionPointer}
    {now : DateTime} (hw : w.executionPointers = done ++ [p])
    (hdone : ∀ p ∈ done, p.active = false) (hp : isPointerRunnable p now = true) :
    runnableIndices w now = [done.length] := by
  unfold runnableIndices
  rw [hw, List.length_append, List.length_singleton, List.range_succ, List.filter_append,
    List.filter_eq_nil_iff.mpr]
  · simp [hp]
  · intro i hi
    have hi : i < done.length := List.mem_range.mp hi
    have hinactive := hdone _ (List.getElem_mem hi)
    simp [List.getElem?_append_left hi, List.getElem?_eq_getElem hi, isPointerRunnable, hinactive]

@[simp] theorem mergeOutput_status (w : WorkflowInstance) (out : Option Json) :
    (mergeOutput w out).status = w.status := by
  unfold mergeOutput
  split <;> rfl

theorem applyResult_status (env env' : Ambient) (idx : Nat) (pointer : ExecutionPointer)
    (result : ExecutionResult) (st : PassState) :
    (applyResult env' definition idx (startPointer env pointer) result
      (st.started env idx pointer)).workflow.status = st.workflow.status := by
  simp [applyResult, WorkflowInstance.pushPointers, WorkflowInstance.setPointer, PassState.started]

/-- A result that proceeds completes its pointer and creates one for the next step. -/
theorem processResult_proceed (env : Ambient) {result : ExecutionResult} (p : ExecutionPointer)
    (workflowId : String) {step : WorkflowStep} (hresult : result.proceed = true)
    (hstep : definition.findStep p.stepId = some step) :
    (processResult env result p definition workflowId).1.status = .complete ∧
    (processResult env result p definition workflowId).1.active = false ∧
    (processResult env result p definition workflowId).2.newPointers =
      (findNextStep step result.outcomeValue).toList.map fun id =>
        successorPointer (env.uuid 0) id p definition := by
  simp [processResult, hresult, hstep]

/-- What the end of a pass makes of pointers that are done but for those just created. -/
theorem ChainAt.concluded {st : PassState} {done new : List ExecutionPointer} (t : DateTime)
    (hst : st.workflow.executionPointers = done ++ new) (hlen : done.length = k)
    (hdone : ∀ p ∈ done, p.active = false ∧ p.status = .complete)
    (hnew : new.map ExecutionPointer.stepId = ids[k]?.toList)
    (hpending : ∀ p ∈ new, p.active = true ∧ p.status = .pending ∧ p.sleepUntil = none)
    (hk : 0 < k) (hstatus : st.workflow.status = .runnable) :
    ChainAt ids k (concluded t st.workflow) := by
  refine ⟨⟨done, new, by rw [concluded_executionPointers, hst], hlen, hdone, hnew, hpending⟩, ?_⟩
  rw [concluded_status]
  have hall : allDone st.workflow = true ↔ ¬k < ids.length := by
    by_cases hlt : k < ids.length
    · rw [List.getElem?_eq_getElem hlt] at hnew
      obtain ⟨p, rfl⟩ : ∃ p, new = [p] :=
        List.length_eq_one_iff.mp (by simpa using congrArg List.length hnew)
      simp [allDone, hst, hpending p, PointerStatus.isDone, hlt]
    · rw [List.getElem?_eq_none (Nat.le_of_not_lt hlt)] at hnew
      obtain rfl : new = [] := by simpa using hnew
      have hne : done ≠ [] := List.length_pos_iff.mp (hlen ▸ hk)
      simpa [allDone, hst, hne, hlt] using fun p hp => by
        simp [(hdone p hp).2, PointerStatus.isDone]
  rw [hstatus]
  split_ifs with h h' h'
  · exact absurd h' (hall.mp h.1)
  · rfl
  · rfl
  · exact absurd ⟨hall.mpr h', rfl⟩ h

/-- The body of the last pointer proceeded. -/
theorem ChainAt.returned (env env' : Ambient) (t : DateTime) {done : List ExecutionPointer}
    {p : ExecutionPointer} {step : WorkflowStep} {result : ExecutionResult}
    (hw : w.executionPointers = done ++ [p]) (hlen : done.length = k)
    (hdone : ∀ p ∈ done, p.active = false ∧ p.status = .complete)
    (hstep : definition.findStep p.stepId = some step)
    (hnext : findNextStep step none = ids[k + 1]?) (hrunnable : w.status = .runnable)
    (hresult : (Ran.returned step.id result).Proceeded) :
    ChainAt ids (k + 1) (Wfe.concluded t (applyResult env' definition k (startPointer env p) result
      (PassState.started env k p { workflow := w })).workflow) := by
  obtain ⟨hcomplete, hinactive, hnew⟩ := processResult_proceed env' (startPointer env p) w.id
    hresult.1 hstep
  rw [hresult.2, hnext] at hnew
  have hpointers := applyResult_executionPointers definition { workflow := w } k env env' p result
  rw [hnew, hw, ← hlen, List.set_append_right _ _ (Nat.le_refl _), Nat.sub_self, List.set_cons_zero,
    hlen] at hpointers
  refine ChainAt.concluded t hpointers (by simp [hlen]) ?_ ?_ ?_ (Nat.succ_pos k) ?_
  · intro q hq
    rcases List.mem_append.mp hq with hq | hq
    · exact hdone q hq
    · obtain rfl := List.mem_singleton.mp hq
      exact ⟨hinactive, hcomplete⟩
  · rw [List.map_map]
    exact List.map_id _
  · intro q hq
    obtain ⟨id, -, rfl⟩ := List.mem_map.mp hq
    exact ⟨rfl, rfl, rfl⟩
  · rw [applyResult_status]
    exact hrunnable

/-- **One step of a chain.** A pass in which all bodies proceed runs the next step, and no other. -/
theorem ChainAt.pass (hchain : definition.Chain ids) (h : ChainAt ids k w)
    (hpass : Pass definition resolve host w ran w') (hran : ∀ r ∈ ran, r.Proceeded) :
    k < ids.length ∧ ran.map Ran.stepId = ids[k]?.toList ∧ ChainAt ids (k + 1) w' := by
  obtain ⟨hrunnable, now, t, st, hloop, rfl⟩ := hpass
  obtain ⟨⟨done, current, hw, hlen, hdone, hcurrent, hpending⟩, hstatus⟩ := h
  have hk : k < ids.length := by
    by_contra hk
    simp [hrunnable, hk] at hstatus
  rw [List.getElem?_eq_getElem hk] at hcurrent
  obtain ⟨p, rfl⟩ : ∃ p, current = [p] :=
    List.length_eq_one_iff.mp (by simpa using congrArg List.length hcurrent)
  have hstepId : p.stepId = ids[k] := by simpa using hcurrent
  obtain ⟨hactive, hpstatus, hsleep⟩ := hpending p List.mem_cons_self
  rw [runnableIndices_append hw (fun p hp => (hdone p hp).1)
    (by simp [isPointerRunnable, hactive, hpstatus, hsleep]), hlen] at hloop
  obtain ⟨step, hstep, hnext⟩ := hchain.get (List.getElem?_eq_getElem hk)
  rcases hloop with _ | ⟨hround, hrest⟩
  cases hrest
  rw [List.append_nil] at hran ⊢
  have hget : w.executionPointers[k]? = some p := by simp [hw, ← hlen]
  refine ⟨hk, ?_⟩
  cases hround with
  | absent h => simp [examinePointer_eq_absent h] at hget
  | skipped env pointer step h => exact (hran _ List.mem_cons_self).elim
  | failed env env' pointer step body e h hbody => exact (hran _ List.mem_cons_self).elim
  | returned env env' pointer step' body result h hbody =>
    obtain ⟨hp, hstep', -⟩ := examinePointer_eq_run h
    obtain rfl : p = pointer := by simpa [hget] using hp
    obtain rfl : step = step' := by simpa [hstepId, hstep] using hstep'
    refine ⟨by simp [Ran.stepId, definition.findStep_id hstep', hstepId, hk], ?_⟩
    exact .returned env env' t hw hlen hdone hstep' hnext hrunnable (hran _ List.mem_cons_self)

/-- If the condition of the next step is true and its body proceeds, the pass can be made. -/
theorem ChainAt.exists_pass (h : ChainAt ids k w) (hk : k < ids.length) {step : WorkflowStep}
    (hstep : definition.findStep ids[k] = some step)
    (hwhen : step.when.all fun c => Condition.evaluate c w.data matches .ok true)
    {body : StepBody} (hbody : resolve step.stepType = some body)
    (hproceeds : ∀ context r, Yields host body context r →
      ∃ result, r = .ok result ∧ (Ran.returned step.id result).Proceeded) :
    ∃ ran w', Pass definition resolve host w ran w' ∧ ∀ r ∈ ran, r.Proceeded := by
  obtain ⟨⟨done, current, hw, hlen, hdone, hcurrent, hpending⟩, hstatus⟩ := h
  rw [List.getElem?_eq_getElem hk] at hcurrent
  obtain ⟨p, rfl⟩ : ∃ p, current = [p] :=
    List.length_eq_one_iff.mp (by simpa using congrArg List.length hcurrent)
  have hstepId : p.stepId = ids[k] := by simpa using hcurrent
  obtain ⟨hactive, hpstatus, hsleep⟩ := hpending p List.mem_cons_self
  have hexamine : examinePointer definition resolve w k = .run p step body :=
    examinePointer_of_when (by simp [hw, ← hlen]) (hstepId ▸ hstep) hwhen hbody
  obtain ⟨r, hyields⟩ := exists_yields host body (stepContext definition host step
    (startPointer default p) (PassState.started default k p { workflow := w }).workflow)
  obtain ⟨result, rfl, hresult⟩ := hproceeds _ r hyields
  have hround : Round definition resolve host w.id _ _ _ _ :=
    .returned default default p step body result hexamine hyields
  have hindices : runnableIndices w 0 = [k] := by
    rw [runnableIndices_append hw (fun p hp => (hdone p hp).1)
      (by simp [isPointerRunnable, hactive, hpstatus, hsleep]), hlen]
  have hloop := Loop.cons hround (.nil _)
  rw [← hindices] at hloop
  exact ⟨_, _, ⟨by simp [hstatus, hk], 0, 0, _, hloop, rfl⟩, by simpa using hresult⟩

/-- **Runs along a chain.** After `k` passes in which all bodies proceed, the first `k` steps have
run, one in each pass. -/
theorem ChainAt.passes {w₀ : WorkflowInstance} {rans : List (List Ran)}
    (hchain : definition.Chain ids) (h₀ : ChainAt ids 0 w₀)
    (hpasses : Passes definition resolve host w₀ rans w)
    (hran : ∀ ran ∈ rans, ∀ r ∈ ran, r.Proceeded) :
    ChainAt ids rans.length w ∧ rans.length ≤ ids.length ∧
      rans.map (List.map Ran.stepId) = (ids.take rans.length).map fun id => [id] := by
  induction hpasses with
  | nil => exact ⟨h₀, Nat.zero_le _, rfl⟩
  | snoc hpasses hpass ih =>
    rename_i rans ran w' w''
    obtain ⟨hat, -, hmap⟩ := ih fun ran hran' => hran ran (List.mem_append_left _ hran')
    obtain ⟨hlt, hids, hat'⟩ := hat.pass hchain hpass (hran ran (by simp))
    rw [List.length_append, List.length_singleton]
    refine ⟨hat', hlt, ?_⟩
    rw [List.map_append, hmap, List.map_singleton, hids, List.getElem?_eq_getElem hlt,
      List.take_succ_eq_append_getElem hlt, List.map_append]
    rfl

end Chain

end Wfe
