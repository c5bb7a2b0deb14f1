import Wfe.Executor.Turns

/-!
# What a pass does to one pointer

A pass gives a pointer one turn, or leaves it as it is, or creates it. A turn changes its pointer as
the result of the body says, and the pointer keeps its place, its id and its step.

## Main definitions

* `PointerKey`, `WorkflowInstance.pointerAt`: a pointer in all values of its instance
* `Turned`: a turn in full, with what it has made of its pointer

## Main results

* `Round.turned`: every round is a turn in full
* `Turns.round_of_mem`: the pointer of a turn ends up as this turn has left it
* `Turns.visited`: what a pass does to one pointer
-/

namespace Wfe

open Program Provider

/-! ## Turns in full -/

/-- A turn over the pointer `p` at the index `i` of `w`, which stands at `step`: the pointer becomes
`p'`, and `new` are created. -/
inductive Turned (definition : WorkflowDefinition) (resolve : StepResolver)
    (host : Option HostContext) (w : WorkflowInstance) (i : Nat) (step : WorkflowStep)
    (p : ExecutionPointer) : Ran → ExecutionPointer → List ExecutionPointer → Prop
  | skipped (env : Ambient)
      (hwhen : step.when.map (Condition.evaluate · w.data) = some (.ok false)) :
      Turned definition resolve host w i step p (.skipped step.id)
        { p with status := .skipped, active := false, endTime := some env.now }
        (step.outcomes.head?.toList.map fun o =>
          successorPointer (env.uuid 0) o.nextStep p definition)
  | returned (env env' : Ambient) {body : StepBody} {result : ExecutionResult}
      (hbody : resolve step.stepType = some body)
      (hyields : Yields host body (stepContext definition host step (startPointer env p)
        (w.setPointer i (startPointer env p))) (.ok result)) :
      Turned definition resolve host w i step p (.returned step.id result)
        (processResult env' result (startPointer env p) definition w.id).1
        (processResult env' result (startPointer env p) definition w.id).2.newPointers
  | failed (env env' : Ambient) {body : StepBody} {e : WfeError}
      (hbody : resolve step.stepType = some body)
      (hyields : Yields host body (stepContext definition host step (startPointer env p)
        (w.setPointer i (startPointer env p))) (.error e)) :
      Turned definition resolve host w i step p (.failed step.id e)
        (handleError env' (startPointer env p) definition).1
        (handleError env' (startPointer env p) definition).2.newPointers

section Turned

variable {definition : WorkflowDefinition} {resolve : StepResolver} {host : Option HostContext}
  {workflowId : String} {st st' : PassState} {w : WorkflowInstance} {i : Nat} {r : Ran}
  {p p' : ExecutionPointer} {new : List ExecutionPointer} {step : WorkflowStep}

/-- Every round over a pointer is a turn. -/
theorem Round.turned (h : Round definition resolve host workflowId st i [r] st')
    (hp : st.workflow.executionPointers[i]? = some p) :
    ∃ step p' new, definition.findStep p.stepId = some step ∧
      Turned definition resolve host st.workflow i step p r p' new ∧
      st'.workflow.executionPointers = st.workflow.executionPointers.set i p' ++ new := by
  cases h with
  | skipped env pointer step h =>
    obtain ⟨hpointer, hstep, hwhen⟩ := examinePointer_eq_skip h
    obtain rfl : p = pointer := Option.some_inj.mp (hp.symm.trans hpointer)
    exact ⟨step, _, _, hstep, .skipped env hwhen, rfl⟩
  | returned env env' pointer step body result h hbody =>
    obtain ⟨hpointer, hstep, hresolve, -⟩ := examinePointer_eq_run h
    obtain rfl : p = pointer := Option.some_inj.mp (hp.symm.trans hpointer)
    exact ⟨step, _, _, hstep, .returned env env' hresolve hbody,
      applyResult_executionPointers ..⟩
  | failed env env' pointer step body e h hbody =>
    obtain ⟨hpointer, hstep, hresolve, -⟩ := examinePointer_eq_run h
    obtain rfl : p = pointer := Option.some_inj.mp (hp.symm.trans hpointer)
    exact ⟨step, _, _, hstep, .failed env env' hresolve hbody,
      applyError_executionPointers env env' p e⟩

theorem Turned.effect (h : Turned definition resolve host w i step p r p' new)
    (hstep : definition.findStep p.stepId = some step) : Effect definition step p r p' new := by
  cases h with
  | skipped env hwhen => exact .skipped (env.uuid 0) rfl rfl rfl rfl rfl
  | returned env env' hbody hyields => exact processResult_effect env env' _ hstep
  | failed env env' hbody hyields => exact handleError_effect env env' _ hstep

theorem Turned.later (h : Turned definition resolve host w i step p r p' new) : p.Later p' := by
  cases h with
  | skipped env hwhen => exact ⟨rfl, rfl, rfl, rfl⟩
  | returned env env' hbody hyields =>
    exact (startPointer_later env p).trans (processResult_advance env' _ _ definition w.id).1
  | failed env env' hbody hyields =>
    exact (startPointer_later env p).trans (handleError_advance env' _ definition).1

theorem Turned.spawned (h : Turned definition resolve host w i step p r p' new)
    (hstep : definition.findStep p.stepId = some step) : ∀ q ∈ new, Spawned definition p q := by
  cases h with
  | skipped env hwhen =>
    intro q hq
    obtain ⟨o, ho, rfl⟩ := List.mem_map.mp hq
    exact .next _ hstep (List.mem_of_head? (Option.mem_toList.mp ho))
  | returned env env' hbody hyields =>
    exact fun q hq => ((processResult_advance env' _ _ definition w.id).2 q hq).of_later
      (startPointer_later env p)
  | failed env env' hbody hyields =>
    exact fun q hq => ((handleError_advance env' _ definition).2 q hq).of_later
      (startPointer_later env p)

/-- A pointer keeps the item of its branch. -/
theorem Turned.contextItem (h : Turned definition resolve host w i step p r p' new) :
    p'.contextItem = p.contextItem := by
  cases h with
  | skipped env hwhen => rfl
  | returned env env' hbody hyields =>
    unfold processResult
    repeat' split
    all_goals rfl
  | failed env env' hbody hyields =>
    unfold handleError
    split
    · split_ifs <;> rfl
    all_goals rfl

end Turned

/-! ## Pointers with a name -/

/-- What names a pointer in all values of its instance: its place, its id and its step. -/
structure PointerKey where
  index : Nat
  id : String
  stepId : Nat
deriving DecidableEq

/-- It is a pointer with this key. -/
def ExecutionPointer.hasKey (p : ExecutionPointer) (x : PointerKey) : Bool :=
  p.id = x.id ∧ p.stepId = x.stepId

/-- The pointer with this key. -/
def WorkflowInstance.pointerAt (w : WorkflowInstance) (x : PointerKey) : Option ExecutionPointer :=
  w.executionPointers[x.index]?.filter (·.hasKey x)

/-- It is a turn of this pointer. -/
def Turn.isOf (t : Turn) (x : PointerKey) : Bool := t.index = x.index ∧ t.pointer.hasKey x

section Turns

variable {definition : WorkflowDefinition} {resolve : StepResolver} {host : Option HostContext}
  {workflowId : String} {st st' : PassState} {turns : List Turn} {t : Turn} {x : PointerKey}
  {w w' : WorkflowInstance} {i : Nat} {p q : ExecutionPointer}

theorem pointerAt_eq_some :
    w.pointerAt x = some p ↔ w.executionPointers[x.index]? = some p ∧ p.hasKey x = true :=
  Option.filter_eq_some_iff

theorem ExecutionPointer.Later.hasKey (h : p.Later q) : q.hasKey x = p.hasKey x := by
  rw [ExecutionPointer.hasKey, ExecutionPointer.hasKey, h.id, h.stepId]

theorem pointerAt_concluded (t : DateTime) (w : WorkflowInstance) :
    (concluded t w).pointerAt x = w.pointerAt x := by
  rw [WorkflowInstance.pointerAt, WorkflowInstance.pointerAt, concluded_executionPointers]

/-- The pointer of a turn ends up as this turn has left it. -/
theorem Turns.round_of_mem (h : Turns definition resolve host workflowId st turns st')
    (hnodup : (turns.map Turn.index).Nodup) (ht : t ∈ turns) :
    ∃ st₁ st₂, st₁.workflow.executionPointers[t.index]? = some t.pointer ∧
      Round definition resolve host workflowId st₁ t.index [t.ran] st₂ ∧
      st'.workflow.executionPointers[t.index]? = st₂.workflow.executionPointers[t.index]? := by
  induction h with
  | nil => cases ht
  | snoc hturns hpointer hdata hround ih =>
    rename_i turns t' st' st''
    rw [List.map_append, List.nodup_append] at hnodup
    obtain ⟨hnodup, -, hne⟩ := hnodup
    rcases List.mem_append.mp ht with ht | ht
    · obtain ⟨st₁, st₂, hp, hround', hsame⟩ := ih hnodup ht
      have hother : t'.index ≠ t.index := fun h =>
        hne _ (List.mem_map_of_mem ht) _ (by simp) h.symm
      obtain ⟨-, -, p', new, -, -, -, -, -, hst''⟩ := hround.effect hpointer
      refine ⟨st₁, st₂, hp, hround', ?_⟩
      -- The last turn is that of another pointer, which is there all the time.
      obtain ⟨q, hq⟩ : ∃ q, st'.workflow.executionPointers[t.index]? = some q := by
        rw [hsame]
        obtain ⟨-, -, p'', new', -, -, -, hlater, -, hst₂⟩ := hround'.effect hp
        obtain ⟨q, hq, -⟩ := getElem?_later new' hp hlater hp
        exact ⟨q, hst₂ ▸ hq⟩
      rw [hst'', getElem?_set_append_ne hq hother, ← hsame, hq]
    · obtain rfl := List.mem_singleton.mp ht
      exact ⟨st', st'', hpointer, hround, rfl⟩

/-- A pointer keeps its place. -/
theorem Turns.later (h : Turns definition resolve host workflowId st turns st')
    (hp : st.workflow.executionPointers[i]? = some p) :
    ∃ q, st'.workflow.executionPointers[i]? = some q ∧ p.Later q := by
  induction h with
  | nil => exact ⟨p, hp, .refl p⟩
  | snoc hturns hpointer hdata hround ih =>
    obtain ⟨q, hq, hlater⟩ := ih
    obtain ⟨-, -, p', new, -, -, -, hlater', -, hst'⟩ := hround.effect hpointer
    obtain ⟨q', hq', hqq'⟩ := getElem?_later new hpointer hlater' hq
    exact ⟨q', hst' ▸ hq', hlater.trans hqq'⟩

/-- What a pass adds to the pointers is as it was created. -/
theorem Turns.created (h : Turns definition resolve host workflowId st turns st')
    (hlt : ∀ t ∈ turns, t.index < st.workflow.executionPointers.length)
    (hi : st.workflow.executionPointers.length ≤ i)
    (hq : st'.workflow.executionPointers[i]? = some q) : ∃ t ∈ turns, ∃ step p' new,
      Effect definition step t.pointer t.ran p' new ∧ q ∈ new := by
  refine h.rule (N := fun done st' => ∀ q, st'.workflow.executionPointers[i]? = some q →
    ∃ t ∈ done, ∃ step p' new, Effect definition step t.pointer t.ran p' new ∧ q ∈ new)
    (fun q hq => ?_) ?_ q hq
  · exact absurd (List.getElem?_eq_some_iff.mp hq).1 (Nat.not_lt_of_le hi)
  · intro done t st₁ st₂ hdone hst₁ hp _ hround q hq
    have hne : t.index ≠ i :=
      Nat.ne_of_lt (Nat.lt_of_lt_of_le (hlt t (hdone.subset (by simp))) hi)
    obtain ⟨step, r, p', new, hr, -, heffect, -, -, hst₂⟩ := hround.effect hp
    obtain rfl : t.ran = r := List.singleton_inj.mp hr
    rw [hst₂, List.getElem?_append] at hq
    split_ifs at hq
    · rw [List.getElem?_set_ne hne] at hq
      obtain ⟨t', ht', hcreated⟩ := hst₁ q hq
      exact ⟨t', List.mem_append_left _ ht', hcreated⟩
    · exact ⟨t, by simp, step, p', new, heffect, List.mem_of_getElem? hq⟩

/-- A pass gives a pointer one turn, or leaves it as it is, or creates it. -/
theorem Turns.visited (h : Turns definition resolve host workflowId { workflow := w } turns st')
    (hnodup : (turns.map Turn.index).Nodup)
    (hpointer : ∀ t ∈ turns, w.executionPointers[t.index]? = some t.pointer) :
    (∃ t ∈ turns, t.isOf x = true ∧ w.pointerAt x = some t.pointer ∧ ∃ st₁ st₂ p',
      st₁.workflow.executionPointers[t.index]? = some t.pointer ∧
      Round definition resolve host workflowId st₁ t.index [t.ran] st₂ ∧
      st₂.workflow.executionPointers[t.index]? = some p' ∧ st'.workflow.pointerAt x = some p') ∨
    ((∀ t ∈ turns, t.isOf x = false) ∧ (st'.workflow.pointerAt x = w.pointerAt x ∨
      w.pointerAt x = none ∧ ∃ q, st'.workflow.pointerAt x = some q ∧ ∃ t ∈ turns,
        ∃ step p' new, Effect definition step t.pointer t.ran p' new ∧ q ∈ new)) := by
  by_cases hof : ∃ t ∈ turns, t.isOf x = true
  · obtain ⟨t, ht, hof⟩ := hof
    obtain ⟨hindex, hkey⟩ := of_decide_eq_true hof
    obtain ⟨st₁, st₂, hp₁, hround, hsame⟩ := h.round_of_mem hnodup ht
    have hbefore : w.pointerAt x = some t.pointer :=
      pointerAt_eq_some.mpr ⟨hindex ▸ hpointer t ht, hkey⟩
    obtain ⟨-, -, p'', new, -, -, -, hlater, -, hst₂⟩ := hround.effect hp₁
    obtain ⟨p', hp', hlater⟩ := getElem?_later new hp₁ hlater hp₁
    rw [← hst₂] at hp'
    have hafter : st'.workflow.pointerAt x = some p' :=
      pointerAt_eq_some.mpr ⟨by rw [← hindex, hsame, hp'], hlater.hasKey.trans hkey⟩
    exact .inl ⟨t, ht, hof, hbefore, st₁, st₂, p', hp₁, hround, hp', hafter⟩
  · -- Without a turn the pointer is left as it is, and a new one is created at most.
    refine .inr ⟨fun t ht => Bool.eq_false_iff.mpr fun h => hof ⟨t, ht, h⟩, ?_⟩
    cases hbefore : w.pointerAt x with
    | some p =>
      obtain ⟨hp, hkey⟩ := pointerAt_eq_some.mp hbefore
      have hother : ∀ t ∈ turns, t.index ≠ x.index := by
        intro t ht hindex
        have ht' := hpointer t ht
        rw [hindex, hp] at ht'
        obtain rfl := Option.some_inj.mp ht'
        exact hof ⟨t, ht, decide_eq_true ⟨hindex, hkey⟩⟩
      exact .inl (pointerAt_eq_some.mpr ⟨h.getElem? hother hp, hkey⟩)
    | none =>
      cases hafter : st'.workflow.pointerAt x with
      | none => exact .inl rfl
      | some q =>
        obtain ⟨hq, hkey⟩ := pointerAt_eq_some.mp hafter
        have hnew : w.executionPointers.length ≤ x.index := by
          refine Nat.le_of_not_lt fun hold => ?_
          -- A pointer that was in this place already would have had the key.
          obtain ⟨q', hq', hlater⟩ := h.later (List.getElem?_eq_getElem hold)
          obtain rfl := Option.some_inj.mp (hq.symm.trans hq')
          rw [pointerAt_eq_some.mpr
            ⟨List.getElem?_eq_getElem hold, hlater.hasKey.symm.trans hkey⟩] at hbefore
          cases hbefore
        have hlt : ∀ t ∈ turns, t.index < w.executionPointers.length := fun t ht =>
          (List.getElem?_eq_some_iff.mp (hpointer t ht)).1
        exact .inr ⟨rfl, q, rfl, h.created hlt hnew hq⟩

end Turns

end Wfe
