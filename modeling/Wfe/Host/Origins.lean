import Wfe.Host.History

/-!
# The origins of pointers

Every pointer but the first one is created in a turn of its predecessor: as its successor, in the
same scope, or as one of its children. Conversely, the successor that a turn creates stays.

## Main definitions

* `Turn.successor`: the step a turn leads to
* `Turn.failsToCompensate`: failures that are to be compensated
* `Follows`: the pointer created for it
* `Born`: the turn in which a pointer was created

## Main results

* `Turn.successor_cases`: how a turn leads to a step
* `Round.born`: what a turn creates
* `Lives.exists_later`: pointers stay, and so do the pointers of turns
* `Lives.follows`: the successor of a turn is there
* `Lives.origin`, `Lives.born`: the origin of a pointer
* `Does.ended`: pointers end in turns
-/

namespace Wfe

open Program Provider

/-- The step that a turn leads to in the scope of its pointer: the next step, or the compensation
step of a step that has failed. -/
def Turn.successor (definition : WorkflowDefinition) (t : Turn) : Option Nat :=
  (definition.findStep t.pointer.stepId).bind fun step =>
    match t.ran with
    | .skipped _ => step.outcomes.head?.map StepOutcome.nextStep
    | .returned _ result => if result.proceed then findNextStep step result.outcomeValue else none
    | .failed _ _ =>
      if errorBehaviorOf t.pointer definition = .compensate then step.compensationStepId else none

/-- The body has failed, under the behaviour to compensate. -/
def Turn.failsToCompensate (definition : WorkflowDefinition) (t : Turn) : Bool :=
  (t.ran matches .failed _ _) && errorBehaviorOf t.pointer definition = .compensate

/-- `q` is a pointer at the step `stepId` that follows the pointer of a turn. -/
structure Follows (t : Turn) (stepId : Nat) (q : ExecutionPointer) : Prop where
  stepId : q.stepId = stepId
  predecessorId : q.predecessorId = some t.pointer.id
  scope : q.scope = t.pointer.scope

/-- `q` was created in the turn `t`. -/
inductive Born (definition : WorkflowDefinition) (t : Turn) (q : ExecutionPointer) : Prop
  | successor (stepId : Nat) (hsuccessor : t.successor definition = some stepId)
      (hfollows : Follows t stepId q)
  | child (step : WorkflowStep) (hstep : definition.findStep t.pointer.stepId = some step)
      (hchild : q.stepId ∈ step.children) (hpred : q.predecessorId = some t.pointer.id)
      (hscope : q.scope = t.pointer.inner)

section Origins

variable {definition : WorkflowDefinition} {resolve : StepResolver} {host : Option HostContext}
  {workflowId : String} {st st' : PassState} {t : Turn} {turns : List Turn}
  {w w' w₀ : WorkflowInstance} {c : Change} {changes : List Change} {p q q' : ExecutionPointer}
  {k : Nat}

/-- A turn leads to a step by an outcome, or by compensation. -/
theorem Turn.successor_cases (h : t.successor definition = some k) :
    ∃ s, definition.findStep t.pointer.stepId = some s ∧
      ((∃ o ∈ s.outcomes, o.nextStep = k) ∨
        s.compensationStepId = some k ∧ t.failsToCompensate definition = true) := by
  obtain ⟨s, hs, h⟩ := Option.bind_eq_some_iff.mp h
  refine ⟨s, hs, ?_⟩
  split at h
  · obtain ⟨o, ho, rfl⟩ := Option.map_eq_some_iff.mp h
    exact .inl ⟨o, List.mem_of_head? ho, rfl⟩
  · split_ifs at h
    obtain ⟨o, ho, rfl⟩ := findNextStep_mem h
    exact .inl ⟨o, ho, rfl⟩
  · next hran =>
    split_ifs at h with hbehavior
    exact .inr ⟨h, by simp [Turn.failsToCompensate, hran, hbehavior]⟩

theorem Follows.later (h : Follows t k q) (hlater : q.Later q') : Follows t k q' :=
  ⟨hlater.stepId.trans h.stepId, hlater.predecessorId.trans h.predecessorId,
    hlater.scope.trans h.scope⟩

theorem Born.later (h : Born definition t q) (hlater : q.Later q') : Born definition t q' := by
  cases h with
  | successor k hsuccessor hfollows => exact .successor k hsuccessor (hfollows.later hlater)
  | child step hstep hchild hpred hscope =>
    exact .child step hstep (hlater.stepId ▸ hchild) (hlater.predecessorId.trans hpred)
      (hlater.scope.trans hscope)

theorem Born.predecessorId (h : Born definition t q) :
    q.predecessorId = some t.pointer.id := by
  cases h with
  | successor _ _ hfollows => exact hfollows.predecessorId
  | child _ _ _ hpred => exact hpred

theorem successorPointer_follows (id : String) (k : Nat) :
    Follows t k (successorPointer id k t.pointer definition) := ⟨rfl, rfl, rfl⟩

/-- What a turn creates: the pointer for its successor, or children. -/
theorem Effect.born {step : WorkflowStep} {p' : ExecutionPointer} {new : List ExecutionPointer}
    (h : Effect definition step t.pointer t.ran p' new)
    (hstep : definition.findStep t.pointer.stepId = some step) :
    (∀ k, t.successor definition = some k → ∃ q ∈ new, Follows t k q) ∧
      ∀ q ∈ new, Born definition t q := by
  -- The successor read off the turn is the one the executor has looked up.
  have hsuccessor : t.successor definition = match t.ran with
      | .skipped _ => step.outcomes.head?.map StepOutcome.nextStep
      | .returned _ result => if result.proceed then findNextStep step result.outcomeValue else none
      | .failed _ _ => if errorBehaviorOf t.pointer definition = .compensate then
          step.compensationStepId else none := by
    rw [Turn.successor, hstep, Option.bind_some]
  -- The pointers made for an optional successor.
  have hmap {o : Option Nat} (id : String) (ho : t.successor definition = o)
      (hnew : new = o.toList.map fun k => successorPointer id k t.pointer definition) :
      (∀ k, t.successor definition = some k → ∃ q ∈ new, Follows t k q) ∧
        ∀ q ∈ new, Born definition t q := by
    subst hnew
    refine ⟨fun k hk => ?_, fun q hq => ?_⟩
    · exact ⟨_, List.mem_map.mpr ⟨k, by simpa [← ho] using hk, rfl⟩, successorPointer_follows id k⟩
    · obtain ⟨k, hk, rfl⟩ := List.mem_map.mp hq
      exact .successor k (ho.trans (Option.mem_toList.mp hk)) (successorPointer_follows id k)
  generalize hran : t.ran = ran at h hsuccessor
  cases h with
  | skipped id =>
    refine hmap id hsuccessor ?_
    cases step.outcomes.head? <;> rfl
  | proceeded id result hresult =>
    simp only [hresult, if_true] at hsuccessor
    exact hmap id hsuccessor rfl
  | branched uuid result values hresult =>
    simp only [hresult, Bool.false_eq_true, if_false] at hsuccessor
    refine ⟨fun k hk => by simp [hsuccessor] at hk, fun q hq => ?_⟩
    obtain ⟨hchild, hscope, hpred, -⟩ := mem_childPointers hq
    exact .child step hstep hchild hpred hscope
  | waits result hresult | pauses result hresult =>
    simp only [hresult, Bool.false_eq_true, if_false] at hsuccessor
    exact ⟨fun k hk => by simp [hsuccessor] at hk, by simp⟩
  | retries e _ _ _ _ _ hbehavior =>
    simp only [hbehavior, if_false] at hsuccessor
    exact ⟨fun k hk => by simp [hsuccessor] at hk, by simp⟩
  | failed id e =>
    refine hmap id hsuccessor ?_
    split_ifs <;> rfl

theorem Round.born (hround : Round definition resolve host workflowId st t.index [t.ran] st')
    (hpointer : st.workflow.executionPointers[t.index]? = some t.pointer) :
    ∃ p' new, t.pointer.Later p' ∧
      st'.workflow.executionPointers = st.workflow.executionPointers.set t.index p' ++ new ∧
      (∀ k, t.successor definition = some k → ∃ q ∈ new, Follows t k q) ∧
      (∀ q ∈ new, Born definition t q) ∧ ∀ q ∈ new, q.Fresh := by
  obtain ⟨step, r, p', new, hr, hstep, heffect, hlater, -, hst'⟩ := hround.effect hpointer
  obtain rfl : t.ran = r := List.singleton_inj.mp hr
  obtain ⟨hfollows, hborn⟩ := heffect.born hstep
  exact ⟨p', new, hlater, hst', hfollows, hborn, fun q hq => heffect.fresh hq⟩

/-- Pointers stay, also those that come to a turn. -/
theorem Conducts.exists_later (h : Conducts definition resolve host w turns w')
    (hp : p ∈ w.executionPointers) : ∃ q ∈ w'.executionPointers, p.Later q := by
  obtain ⟨-, now, tm, st, hturns, -, rfl⟩ := h
  rw [concluded_executionPointers]
  refine hturns.rule (N := fun _ st => ∃ q ∈ st.workflow.executionPointers, p.Later q)
    ⟨p, hp, .refl p⟩ fun done t st st' _ hst hpointer _ hround => ?_
  obtain ⟨q, hq, hlater⟩ := hst
  obtain ⟨p', new, hlater', hst', -⟩ := hround.born hpointer
  obtain ⟨q', hq', hqq'⟩ := Wfe.exists_later new hpointer hlater' hq
  rw [hst']
  exact ⟨q', hq', hlater.trans hqq'⟩

theorem Does.exists_later (h : Does definition w c w') (hp : p ∈ w.executionPointers) :
    ∃ q ∈ w'.executionPointers, p.Later q := by
  rcases h.pass_or_woken with ⟨resolve, host, turns, -, -, h⟩ | ⟨-, f, hf, hw'⟩
  · exact h.exists_later hp
  · exact ⟨f p, hw' ▸ List.mem_map_of_mem hp, (hf p).later⟩

/-- The pointers of a pass: the successors of its turns are there, and new pointers come from
them. -/
theorem Conducts.born (h : Conducts definition resolve host w turns w') :
    (∀ t ∈ turns, ∀ k, t.successor definition = some k →
      ∃ q ∈ w'.executionPointers, Follows t k q ∧ q.status = .pending) ∧
    ∀ q ∈ w'.executionPointers, (∃ p ∈ w.executionPointers, p.Later q) ∨
      ∃ t ∈ turns, Born definition t q := by
  have hpointers := fun t (ht : t ∈ turns) => (h.pointer ht).1
  obtain ⟨-, now, tm, st, hturns, hindices, rfl⟩ := h
  -- Turns are those of pointers that were there when the pass started.
  have hlt : ∀ t ∈ turns, t.index < w.executionPointers.length := fun t ht =>
    (List.getElem?_eq_some_iff.mp (hpointers t ht)).1
  rw [concluded_executionPointers]
  -- Successors stand behind the old pointers, where no turn of this pass changes them.
  have hrule := hturns.rule (N := fun done st =>
    w.executionPointers.length ≤ st.workflow.executionPointers.length ∧
    (∀ t ∈ done, ∀ k, t.successor definition = some k → ∃ i q, w.executionPointers.length ≤ i ∧
      st.workflow.executionPointers[i]? = some q ∧ Follows t k q ∧ q.status = .pending) ∧
    ∀ q ∈ st.workflow.executionPointers, (∃ p ∈ w.executionPointers, p.Later q) ∨
      ∃ t ∈ done, Born definition t q) ⟨Nat.le_refl _, by simp, fun q hq => .inl ⟨q, hq, .refl q⟩⟩
    ?_
  · obtain ⟨-, hsuccessors, hborn⟩ := hrule
    refine ⟨fun t ht k hk => ?_, hborn⟩
    obtain ⟨i, q, -, hq, hfollows⟩ := hsuccessors t ht k hk
    exact ⟨q, List.mem_of_getElem? hq, hfollows⟩
  · rintro done t st st' hdone ⟨hlen, hsuccessors, hborn⟩ hpointer - hround
    obtain ⟨p', new, hlater, hst', hfollows, hborn', hfresh⟩ := hround.born hpointer
    rw [hst']
    refine ⟨by simpa using Nat.le_add_right_of_le hlen, fun t' ht' k hk => ?_, fun q hq => ?_⟩
    · rcases List.mem_append.mp ht' with ht' | ht'
      · -- A successor of an earlier turn is not the pointer of this one.
        obtain ⟨i, q, hi, hq, hq'⟩ := hsuccessors t' ht' k hk
        have hne : t.index ≠ i := by
          have := hlt t (hdone.subset (by simp))
          omega
        exact ⟨i, q, hi, getElem?_set_append_ne hq hne, hq'⟩
      · obtain rfl := List.mem_singleton.mp ht'
        obtain ⟨q, hq, hq'⟩ := hfollows k hk
        obtain ⟨j, hj⟩ := List.mem_iff_getElem?.mp hq
        refine ⟨st.workflow.executionPointers.length + j, q, by omega, ?_, hq',
          (hfresh q hq).status⟩
        rw [List.getElem?_append_right (by simp)]
        simpa using hj
    · rcases mem_set_append hpointer hlater hq with ⟨q₀, hq₀, hlater₀, -⟩ | hq
      · rcases hborn q₀ hq₀ with ⟨p, hp, hpq⟩ | ⟨t', ht', hq'⟩
        · exact .inl ⟨p, hp, hpq.trans hlater₀⟩
        · exact .inr ⟨t', List.mem_append_left _ ht', hq'.later hlater₀⟩
      · exact .inr ⟨t, by simp, hborn' q hq⟩

/-- The pointers of turns are still there. -/
theorem Lives.exists_later (h : Lives definition w₀ changes w) (ht : t ∈ turnsOf changes) :
    ∃ q ∈ w.executionPointers, t.pointer.Later q := by
  induction h with
  | nil => cases ht
  | snoc _ hdoes ih =>
    rw [turnsOf_snoc] at ht
    rcases List.mem_append.mp ht with ht | ht
    · obtain ⟨q, hq, hlater⟩ := ih ht
      obtain ⟨q', hq', hlater'⟩ := hdoes.exists_later hq
      exact ⟨q', hq', hlater.trans hlater'⟩
    · -- The turn is one of the last pass.
      cases hdoes with
      | pass hhost h => exact h.exists_later (List.mem_of_getElem? (h.pointer ht).1)
      | _ => cases ht

/-- The successor of a turn is there ever after. -/
theorem Lives.follows (h : Lives definition w₀ changes w) (ht : t ∈ turnsOf changes)
    (hk : t.successor definition = some k) : ∃ q ∈ w.executionPointers, Follows t k q := by
  induction h with
  | nil => cases ht
  | snoc _ hdoes ih =>
    rw [turnsOf_snoc] at ht
    rcases List.mem_append.mp ht with ht | ht
    · obtain ⟨q, hq, hfollows⟩ := ih ht
      obtain ⟨q', hq', hlater⟩ := hdoes.exists_later hq
      exact ⟨q', hq', hfollows.later hlater⟩
    · cases hdoes with
      | pass hhost h =>
        obtain ⟨q, hq, hfollows, -⟩ := h.born.1 t ht k hk
        exact ⟨q, hq, hfollows⟩
      | _ => cases ht

/-- A pointer was there at the start, or was created in a turn. -/
theorem Lives.origin (h : Lives definition w₀ changes w) (hq : q ∈ w.executionPointers) :
    (∃ p ∈ w₀.executionPointers, p.Later q) ∨ ∃ t ∈ turnsOf changes, Born definition t q := by
  induction h generalizing q with
  | nil => exact .inl ⟨q, hq, .refl q⟩
  | snoc _ hdoes ih =>
    -- A pointer that was there before keeps its origin.
    have hbefore {changes : List Change} {c : Change} {p : ExecutionPointer} (hlater : p.Later q)
        (hp : (∃ p₀ ∈ w₀.executionPointers, p₀.Later p) ∨
          ∃ t ∈ turnsOf changes, Born definition t p) :
        (∃ p₀ ∈ w₀.executionPointers, p₀.Later q) ∨
          ∃ t ∈ turnsOf (changes ++ [c]), Born definition t q := by
      rcases hp with ⟨p₀, hp₀, hlater₀⟩ | ⟨t, ht, hborn⟩
      · exact .inl ⟨p₀, hp₀, hlater₀.trans hlater⟩
      · exact .inr ⟨t, by simp [ht], hborn.later hlater⟩
    rcases hdoes.pass_or_woken with ⟨resolve, host, turns, rfl, -, h⟩ | ⟨-, f, hf, hw'⟩
    · rcases h.born.2 q hq with ⟨p, hp, hlater⟩ | ⟨t, ht, hborn⟩
      · exact hbefore hlater (ih hp)
      · exact .inr ⟨t, by simp [Change.turns, ht], hborn⟩
    · obtain ⟨p, hp, rfl⟩ := List.mem_map.mp (hw' ▸ hq)
      exact hbefore (hf p).later (ih hp)

/-- A pointer is the first one, or was created in a turn. -/
theorem Lives.born (h : Lives definition w₀ changes w) (hstarted : Started definition w₀)
    (hq : q ∈ w.executionPointers) :
    (q.scope = [] ∧ q.predecessorId = none) ∨ ∃ t ∈ turnsOf changes, Born definition t q := by
  refine (h.origin hq).imp_left ?_
  rintro ⟨p₀, hp₀, hlater⟩
  rcases hstarted.pointers with ⟨-, hnil⟩ | ⟨p, -, hp, -, -, -, hscope, hpred, -⟩
  · simp [hnil] at hp₀
  · obtain rfl : p₀ = p := by simpa [hp] using hp₀
    exact ⟨hlater.scope.trans hscope, hlater.predecessorId.trans hpred⟩

/-- A pointer that is not pending after a pass was there before, or is what a turn has made of its
pointer. -/
theorem Conducts.effect (h : Conducts definition resolve host w turns w')
    (hq : q ∈ w'.executionPointers) (hpending : q.status ≠ .pending) :
    q ∈ w.executionPointers ∨ ∃ t ∈ turns, ∃ step new,
      definition.findStep t.pointer.stepId = some step ∧ t.pointer.Later q ∧
        Effect definition step t.pointer t.ran q new := by
  obtain ⟨-, now, tm, st, hturns, -, rfl⟩ := h
  rw [concluded_executionPointers] at hq
  refine hturns.rule (N := fun done st => ∀ q ∈ st.workflow.executionPointers,
    q.status ≠ .pending → q ∈ w.executionPointers ∨ ∃ t ∈ done, ∃ step new,
      definition.findStep t.pointer.stepId = some step ∧ t.pointer.Later q ∧
        Effect definition step t.pointer t.ran q new) (fun q hq _ => .inl hq) ?_ q hq hpending
  intro done t st st' _ hst hpointer _ hround q hq hpending
  obtain ⟨step, r, p', new, hr, hstep, heffect, hlater, -, hst'⟩ := hround.effect hpointer
  obtain rfl : t.ran = r := List.singleton_inj.mp hr
  rw [hst'] at hq
  -- Pointers created in the pass are pending, the others had their turn or were left alone.
  rcases List.mem_append.mp hq with hq | hq
  · rcases List.mem_or_eq_of_mem_set hq with hq | rfl
    · rcases hst q hq hpending with hq | ⟨t', ht', h⟩
      · exact .inl hq
      · exact .inr ⟨t', List.mem_append_left _ ht', h⟩
    · exact .inr ⟨t, by simp, step, new, hstep, hlater, heffect⟩
  · exact absurd (heffect.fresh hq).status hpending

/-- A pointer that is done was so before, or is what a turn has made of its pointer. -/
theorem Does.ended (h : Does definition w c w') (hq : q ∈ w'.executionPointers)
    (hdone : q.status.isDone = true) :
    q ∈ w.executionPointers ∨ ∃ t ∈ c.turns, ∃ step new,
      definition.findStep t.pointer.stepId = some step ∧ t.pointer.Later q ∧
        Effect definition step t.pointer t.ran q new := by
  rcases h.pass_or_woken with ⟨resolve, host, turns, rfl, -, h⟩ | ⟨-, f, hf, hw'⟩
  · refine h.effect hq ?_
    intro hpending
    simp [hpending, PointerStatus.isDone] at hdone
  · -- A pointer that gets an event is waiting, so it is not done.
    obtain ⟨p, hp, rfl⟩ := List.mem_map.mp (hw' ▸ hq)
    rw [(hf p).status] at hdone
    rw [(hf p).eq_of_isDone hdone]
    exact .inl hp

/-- The pointer of a turn is the first one, or was created in an earlier turn. -/
theorem Lives.born_before (h : Lives definition w₀ changes w) (hstarted : Started definition w₀)
    {before after : List Turn} (hsplit : turnsOf changes = before ++ t :: after) :
    (t.pointer.scope = [] ∧ t.pointer.predecessorId = none) ∨
      ∃ t' ∈ before, Born definition t' t.pointer := by
  induction h generalizing after with
  | nil => simp [turnsOf] at hsplit
  | snoc hlives hdoes ih =>
    rw [turnsOf_snoc] at hsplit
    rcases List.append_eq_append_iff.mp hsplit with ⟨rest, rfl, hrest⟩ | ⟨rest, hdone, hrest⟩
    · -- The turn is one of the last change, and its pointer was there before it.
      have ht : t ∈ Change.turns _ := hrest ▸ List.mem_append_right _ List.mem_cons_self
      cases hdoes with
      | pass hhost h =>
        rcases hlives.born hstarted (List.mem_of_getElem? (h.pointer ht).1) with
          hfirst | ⟨t', ht', hborn⟩
        · exact .inl hfirst
        · exact .inr ⟨t', List.mem_append_left _ ht', hborn⟩
      | _ => cases ht
    · cases rest with
      | nil =>
        have ht : t ∈ Change.turns _ := hrest ▸ List.mem_cons_self
        rw [List.append_nil] at hdone
        cases hdoes with
        | pass hhost h =>
          rw [← hdone]
          exact hlives.born hstarted (List.mem_of_getElem? (h.pointer ht).1)
        | _ => cases ht
      | cons t' rest =>
        obtain ⟨rfl, -⟩ := List.cons_eq_cons.mp hrest
        exact ih hdone

end Origins

end Wfe
