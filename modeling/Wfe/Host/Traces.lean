import Wfe.Executor.Containers
import Wfe.Host.Subtrees
import Wfe.Library.Shuffle

/-!
# The traces of a definition

What a run does, step by step: steps complete, are skipped or fail for good, and containers open
their scopes. A definition says what can come of a pointer at a step: the step itself, and after it
whatever its successor does; a container opens, lets its children run side by side, and completes.
The pointers of an instance say what can still come, and every turn does the first of it.

## Main definitions

* `Act`, `Ran.acts`: what a turn does
* `Trace`, `Traces`: what can come of a pointer at a step, and of several
* `Rest`: what can still come of the pointers of an instance

* `Advance`: a turn among the other pointers

## Main results

* `Rest.perm`: the order of the pointers does not matter
* `Advance.frame`: what pointers do whose scopes are left alone
* `Advance.climb`: what happens below a container happens in the scope of the container
-/

namespace Wfe

open Program Provider

/-- What shows of a step. -/
inductive Act
  | opens
  | completes
  | skips
  | fails
deriving DecidableEq, Repr

/-- A pointer that fails is tried again. -/
def ExecutionPointer.retried (p : ExecutionPointer) (d : WorkflowDefinition) : Bool :=
  match errorBehaviorOf p d with
  | .retry _ maxRetries => ¬(0 < maxRetries ∧ maxRetries ≤ p.retryCount)
  | _ => false

/-- What a turn of `p` does. Waiting, sleeping and trying again do not show. -/
def Ran.acts (d : WorkflowDefinition) (p : ExecutionPointer) : Ran → List (Act × Nat)
  | skipped id => [(.skips, id)]
  | returned id result =>
    if result.proceed then [(.completes, id)]
    else if result.branchValues.isSome ∧ (d.findStep id).any (·.children ≠ []) then [(.opens, id)]
    else []
  | failed id _ => if p.retried d then [] else [(.fails, id)]

def Turn.acts (d : WorkflowDefinition) (t : Turn) : List (Act × Nat) := t.ran.acts d t.pointer

/-- The step that a step leads to. -/
def WorkflowStep.next (s : WorkflowStep) : Option Nat := s.outcomes.head?.map StepOutcome.nextStep

/-- The step that the failure of a step leads to. -/
def WorkflowDefinition.afterFailure (d : WorkflowDefinition) (s : WorkflowStep) : Option Nat :=
  if s.errorBehavior.getD d.defaultErrorBehavior = .compensate then s.compensationStepId else none

mutual

/-- What can come of a pointer at step `id`. -/
inductive Trace (d : WorkflowDefinition) : Nat → List (Act × Nat) → Prop
  | skipped {id : Nat} {s : WorkflowStep} {n : List (Act × Nat)} (hs : d.findStep id = some s)
      (hwhen : s.when.isSome = true) (hn : Traces d s.next.toList n) :
      Trace d id ((.skips, id) :: n)
  | completed {id : Nat} {s : WorkflowStep} {n : List (Act × Nat)} (hs : d.findStep id = some s)
      (hleaf : s.children = []) (hn : Traces d s.next.toList n) :
      Trace d id ((.completes, id) :: n)
  | failed {id : Nat} {s : WorkflowStep} {n : List (Act × Nat)} (hs : d.findStep id = some s)
      (hbody : s.stepType ≠ sequenceKey) (hn : Traces d (d.afterFailure s).toList n) :
      Trace d id ((.fails, id) :: n)
  | opened {id : Nat} {s : WorkflowStep} {u n : List (Act × Nat)} (hs : d.findStep id = some s)
      (hne : s.children ≠ []) (hu : Traces d s.children u) (hn : Traces d s.next.toList n) :
      Trace d id ((.opens, id) :: (u ++ (.completes, id) :: n))

/-- What can come of pointers at these steps, side by side. -/
inductive Traces (d : WorkflowDefinition) : List Nat → List (Act × Nat) → Prop
  | nil : Traces d [] []
  | cons {id : Nat} {ids : List Nat} {u t v : List (Act × Nat)} (h : Trace d id u)
      (hs : Traces d ids t) (hv : Shuffle u t v) : Traces d (id :: ids) v

end

/-- The pointers in a scope. -/
def inScope (l : List ExecutionPointer) (scope : List String) : List ExecutionPointer :=
  l.filter (·.scope = scope)

/-- What can still come of some of the pointers `l`: nothing of those that are done, what their
pointers do and then their own completion of containers that are open, and all of the others. -/
inductive Rest (d : WorkflowDefinition) (l : List ExecutionPointer) :
    List ExecutionPointer → List (Act × Nat) → Prop
  | nil : Rest d l [] []
  | done {p : ExecutionPointer} {ps : List ExecutionPointer} {t : List (Act × Nat)}
      (hp : p.status.isDone = true) (h : Rest d l ps t) : Rest d l (p :: ps) t
  | fresh {p : ExecutionPointer} {ps : List ExecutionPointer} {u t v : List (Act × Nat)}
      (hp : p.status.isDone = false) (hl : inScope l p.inner = []) (hu : Trace d p.stepId u)
      (h : Rest d l ps t) (hv : Shuffle u t v) : Rest d l (p :: ps) v
  | opened {p : ExecutionPointer} {ps : List ExecutionPointer} {s : WorkflowStep}
      {u n t v : List (Act × Nat)} (hp : p.status.isDone = false) (hl : inScope l p.inner ≠ [])
      (hs : d.findStep p.stepId = some s) (hu : Rest d l (inScope l p.inner) u)
      (hn : Traces d s.next.toList n) (h : Rest d l ps t)
      (hv : Shuffle (u ++ (.completes, p.stepId) :: n) t v) : Rest d l (p :: ps) v

section Rest

variable {d : WorkflowDefinition} {l l' ps qs : List ExecutionPointer}
  {p x x' : ExecutionPointer} {t u v : List (Act × Nat)} {scope : List String}

theorem mem_inScope : p ∈ inScope l scope ↔ p ∈ l ∧ p.scope = scope := by
  rw [inScope, List.mem_filter, decide_eq_true_eq]

theorem inScope_append (l l' : List ExecutionPointer) (scope : List String) :
    inScope (l ++ l') scope = inScope l scope ++ inScope l' scope := List.filter_append ..

theorem inScope_eq_nil : inScope l scope = [] ↔ ∀ q ∈ l, q.scope ≠ scope := by
  simp [inScope]

theorem inScope_eq_self (h : ∀ q ∈ l, q.scope = scope) : inScope l scope = l :=
  List.filter_eq_self.mpr fun q hq => decide_eq_true (h q hq)

/-- What comes of pointers comes of the first and of the others, side by side. -/
theorem rest_cons :
    Rest d l (p :: ps) v ↔ ∃ u t, Rest d l [p] u ∧ Rest d l ps t ∧ Shuffle u t v := by
  constructor
  · intro h
    cases h with
    | done hp h => exact ⟨[], v, .done hp .nil, h, .nil_left v⟩
    | fresh hp hl hu h hv => exact ⟨_, _, .fresh hp hl hu .nil (.nil_right _), h, hv⟩
    | opened hp hl hs hu hn h hv =>
      exact ⟨_, _, .opened hp hl hs hu hn .nil (.nil_right _), h, hv⟩
  · rintro ⟨u, t, hu, ht, hv⟩
    cases hu with
    | done hp h =>
      cases h
      rw [hv.eq_of_nil_left]
      exact .done hp ht
    | fresh hp hl hu h hv' =>
      cases h
      rw [hv'.eq_of_nil_right] at hv
      exact .fresh hp hl hu ht hv
    | opened hp hl hs hu hn h hv' =>
      cases h
      rw [hv'.eq_of_nil_right] at hv
      exact .opened hp hl hs hu hn ht hv

theorem rest_append :
    Rest d l (ps ++ qs) v ↔ ∃ u t, Rest d l ps u ∧ Rest d l qs t ∧ Shuffle u t v := by
  induction ps generalizing v with
  | nil =>
    constructor
    · intro h
      exact ⟨[], v, .nil, h, .nil_left v⟩
    · rintro ⟨u, t, hu, ht, hv⟩
      cases hu
      rwa [hv.eq_of_nil_left]
  | cons p ps ih =>
    rw [List.cons_append, rest_cons]
    constructor
    · rintro ⟨u, w, hu, hw, hv⟩
      obtain ⟨u', t, hu', ht, hw⟩ := ih.mp hw
      -- The first pointer goes with the others of its list.
      obtain ⟨w', hw', hv⟩ := hw.comm.assoc hv.comm
      exact ⟨w', t, rest_cons.mpr ⟨u, u', hu, hu', hw'.comm⟩, ht, hv.comm⟩
    · rintro ⟨u, t, hu, ht, hv⟩
      obtain ⟨u₁, u₂, hu₁, hu₂, hu⟩ := rest_cons.mp hu
      obtain ⟨w, hw, hv⟩ := hu.assoc hv
      exact ⟨u₁, w, hu₁, ih.mpr ⟨u₂, t, hu₂, ht, hw⟩, hv⟩

/-- The order of the pointers does not matter. -/
theorem Rest.perm (h : Rest d l ps v) (hperm : ps.Perm qs) : Rest d l qs v := by
  induction hperm generalizing v with
  | nil => exact h
  | cons p _ ih =>
    obtain ⟨u, t, hu, ht, hv⟩ := rest_cons.mp h
    exact rest_cons.mpr ⟨u, t, hu, ih ht, hv⟩
  | swap p q ps =>
    obtain ⟨u, w, hu, hw, hv⟩ := rest_cons.mp h
    obtain ⟨u', t, hu', ht, hw⟩ := rest_cons.mp hw
    obtain ⟨w', hw', hv⟩ := hw.left_comm hv
    exact rest_cons.mpr ⟨u', w', hu', rest_cons.mpr ⟨u, t, hu, ht, hw'⟩, hv⟩
  | trans _ _ ih ih' => exact ih' (ih h)

/-- Nothing comes of pointers that are done. -/
theorem rest_of_done (h : ∀ q ∈ ps, q.status.isDone = true) : Rest d l ps [] := by
  induction ps with
  | nil => exact .nil
  | cons p ps ih =>
    exact .done (h p List.mem_cons_self) (ih fun q hq => h q (List.mem_cons_of_mem p hq))

theorem Rest.eq_nil_of_done (h : Rest d l ps v) (hps : ∀ q ∈ ps, q.status.isDone = true) :
    v = [] := by
  induction h with
  | nil => rfl
  | done hp h ih => exact ih fun q hq => hps q (List.mem_cons_of_mem _ hq)
  | fresh hp | opened hp =>
    rw [hps _ List.mem_cons_self] at hp
    cases hp

/-- What comes of pointers that have opened no scope is what comes of pointers at their steps. -/
theorem Rest.traces (h : Rest d l ps v) (hps : ∀ q ∈ ps, q.status.isDone = false)
    (hl : ∀ q ∈ ps, inScope l q.inner = []) : Traces d (ps.map ExecutionPointer.stepId) v := by
  induction h with
  | nil => exact .nil
  | done hp =>
    rw [hps _ List.mem_cons_self] at hp
    cases hp
  | fresh hp _ hu h hv ih =>
    refine .cons hu (ih ?_ ?_) hv
    · exact fun q hq => hps q (List.mem_cons_of_mem _ hq)
    · exact fun q hq => hl q (List.mem_cons_of_mem _ hq)
  | opened hp hne => exact absurd (hl _ List.mem_cons_self) hne

/-- What comes of the successors of a pointer that is done. -/
theorem Rest.successors (h : Rest d l (p :: ps) v) (hdone : p.status.isDone = true)
    (hps : ∀ q ∈ ps, q.status.isDone = false) (hl : ∀ q ∈ ps, inScope l q.inner = []) :
    Traces d (ps.map ExecutionPointer.stepId) v := by
  cases h with
  | done _ h => exact h.traces hps hl
  | fresh hundone | opened hundone => simp [hdone] at hundone

/-- A container whose children are done completes. -/
theorem rest_of_closed {s : WorkflowStep} (hs : d.findStep p.stepId = some s)
    (hp : p.status.isDone = false) (hne : inScope l p.inner ≠ [])
    (hdone : ∀ q ∈ inScope l p.inner, q.status.isDone = true) (hn : Traces d s.next.toList v) :
    Rest d l [p] ((.completes, p.stepId) :: v) :=
  .opened hp hne hs (rest_of_done hdone) hn .nil (.nil_right _)

theorem rest_of_trace (hp : p.status.isDone = false) (hl : inScope l p.inner = [])
    (hu : Trace d p.stepId u) : Rest d l [p] u := .fresh hp hl hu .nil (.nil_right u)

end Rest

/-! ## A turn among the other pointers -/

/-- The pointer `x` between `a` and `b` becomes `x'`, and `new` are created, in its scope or in the
one it opens. -/
structure Advance (a b : List ExecutionPointer) (x x' : ExecutionPointer)
    (new : List ExecutionPointer) : Prop where
  later : x.Later x'
  nodup : ((a ++ x :: b).map ExecutionPointer.id).Nodup
  scopes : ∀ q ∈ new, q.scope = x.scope ∨ q.scope = x.inner

section Advance

variable {d : WorkflowDefinition} {a b new ps : List ExecutionPointer} {p x x' : ExecutionPointer}
  {v acts : List (Act × Nat)} {scope : List String}

theorem ExecutionPointer.inner_ne_scope_of_prefix (h : p.inner <+: scope) : p.scope ≠ scope := by
  rintro rfl
  exact p.not_inner_prefix h

namespace Advance

variable (h : Advance a b x x' new)

include h

theorem inScope_of_ne (hscope : scope ≠ x.scope) (hinner : scope ≠ x.inner) :
    inScope (a ++ x' :: b ++ new) scope = inScope (a ++ x :: b) scope := by
  have hnew : inScope new scope = [] := by
    refine inScope_eq_nil.mpr fun q hq heq => ?_
    rcases h.scopes q hq with hq | hq
    · exact hscope (heq.symm.trans hq)
    · exact hinner (heq.symm.trans hq)
  have hx : x.scope ≠ scope := hscope.symm
  have hx' : x'.scope ≠ scope := h.later.scope ▸ hx
  rw [inScope_append, hnew, List.append_nil, inScope_append, inScope_append]
  simp [inScope, hx, hx']

/-- Pointers with distinct ids open distinct scopes. -/
theorem inner_ne (hp : p ∈ a ++ x :: b) (hne : p.id ≠ x.id) : p.inner ≠ x.inner := by
  intro heq
  exact hne (congrArg _ (eq_of_inner h.nodup hp (by simp) heq))

theorem eq_of_id (hp : p ∈ a ++ x :: b) (heq : p.id = x.id) : p = x :=
  List.inj_on_of_nodup_map h.nodup hp (by simp) heq

/-- Pointers above which the turn does not happen do what they did. -/
theorem frame (hrest : Rest d (a ++ x' :: b ++ new) ps v)
    (hps : ∀ p ∈ ps, p ∈ a ++ x :: b ∧ p.id ≠ x.id ∧ ¬p.inner <+: x.scope) :
    Rest d (a ++ x :: b) ps v := by
  induction hrest with
  | nil => exact .nil
  | done hp _ ih => exact .done hp (ih fun q hq => hps q (List.mem_cons_of_mem _ hq))
  | fresh hp hl hu _ hv ih =>
    obtain ⟨hmem, hne, hpre⟩ := hps _ List.mem_cons_self
    have hscope : ExecutionPointer.inner _ ≠ x.scope := fun heq => hpre (heq ▸ List.prefix_rfl)
    rw [h.inScope_of_ne hscope (h.inner_ne hmem hne)] at hl
    exact .fresh hp hl hu (ih fun q hq => hps q (List.mem_cons_of_mem _ hq)) hv
  | opened hp hl hs _ hn _ hv ihu ih =>
    obtain ⟨hmem, hne, hpre⟩ := hps _ List.mem_cons_self
    have hscope : ExecutionPointer.inner _ ≠ x.scope := fun heq => hpre (heq ▸ List.prefix_rfl)
    rw [h.inScope_of_ne hscope (h.inner_ne hmem hne)] at hl ihu
    refine .opened hp hl hs (ihu fun q hq => ?_) hn
      (ih fun q hq => hps q (List.mem_cons_of_mem _ hq)) hv
    -- Neither is the turn below the children.
    obtain ⟨hq, hqscope⟩ := mem_inScope.mp hq
    refine ⟨hq, fun heq => ?_, fun hqpre => ?_⟩
    · rw [h.eq_of_id hq heq] at hqscope
      exact hscope hqscope.symm
    · refine hpre (List.IsPrefix.trans ?_ hqpre)
      change _ <+: q.scope ++ [q.id]
      rw [hqscope]
      exact List.prefix_append _ _

/-- A scope that has pointers keeps them. -/
theorem inScope_ne_nil (hmem : p ∈ a ++ x :: b) (hscope : p.scope = scope) :
    inScope (a ++ x' :: b ++ new) scope ≠ [] := by
  by_cases hp : p = x
  · subst hp
    exact List.ne_nil_of_mem (mem_inScope.mpr ⟨by simp, h.later.scope.trans hscope⟩)
  · refine List.ne_nil_of_mem (mem_inScope.mpr ⟨?_, hscope⟩)
    simp only [List.mem_append, List.mem_cons] at hmem ⊢
    tauto

/-- What the turn does in its own scope. -/
theorem own_scope
    (hlocal : ∀ v, Rest d (a ++ x' :: b ++ new) (x' :: inScope new x.scope) v →
      Rest d (a ++ x :: b) [x] (acts ++ v))
    (hrest : Rest d (a ++ x' :: b ++ new) (inScope (a ++ x' :: b ++ new) x.scope) v) :
    Rest d (a ++ x :: b) (inScope (a ++ x :: b) x.scope) (acts ++ v) := by
  have hscope (y : ExecutionPointer) (hy : y.scope = x.scope) (l : List ExecutionPointer) :
      inScope (a ++ y :: l) x.scope = inScope a x.scope ++ y :: inScope l x.scope := by
    rw [inScope_append]
    simp [inScope, hy]
  have hl' : inScope (a ++ x' :: b ++ new) x.scope =
      inScope a x.scope ++ x' :: (inScope b x.scope ++ inScope new x.scope) := by
    rw [List.append_assoc, List.cons_append, hscope x' h.later.scope, inScope_append]
  rw [hl'] at hrest
  rw [hscope x rfl]
  -- The pointer and the new ones on one side, those that are as they were on the other.
  have hperm : (inScope a x.scope ++ x' :: (inScope b x.scope ++ inScope new x.scope)).Perm
      ((x' :: inScope new x.scope) ++ (inScope a x.scope ++ inScope b x.scope)) := by
    refine List.perm_middle.trans (List.Perm.cons x' ?_)
    rw [← List.append_assoc]
    exact List.perm_append_comm
  obtain ⟨u, t, hu, ht, hv⟩ := rest_append.mp (hrest.perm hperm)
  refine Rest.perm (rest_cons.mpr ⟨_, t, hlocal u hu, h.frame ht ?_, hv.append_left acts⟩)
    List.perm_middle.symm
  intro p hp
  have hmem : p ∈ a ++ b ∧ p.scope = x.scope := by
    rw [← inScope_append] at hp
    exact mem_inScope.mp hp
  refine ⟨?_, fun heq => ?_, fun hpre => ?_⟩
  · rcases List.mem_append.mp hmem.1 with hp | hp
    · exact List.mem_append_left _ hp
    · exact List.mem_append_right _ (List.mem_cons_of_mem x hp)
  · have hnodup := h.nodup
    rw [List.map_append, List.map_cons, List.nodup_middle, List.nodup_cons, ← List.map_append,
      ← heq] at hnodup
    exact hnodup.1 (List.mem_map_of_mem hmem.1)
  · exact p.inner_ne_scope_of_prefix hpre hmem.2

/-- What happens below a container happens in the scope of the container. -/
theorem climb {kind : String → Option Container} (hl : Subtrees d kind (a ++ x :: b))
    (hundone : x.status.isDone = false)
    (hbase : ∀ v, Rest d (a ++ x' :: b ++ new) (inScope (a ++ x' :: b ++ new) x.scope) v →
      Rest d (a ++ x :: b) (inScope (a ++ x :: b) x.scope) (acts ++ v))
    (rest : List String) (hscope : x.scope = scope ++ rest)
    (hrest : Rest d (a ++ x' :: b ++ new) (inScope (a ++ x' :: b ++ new) scope) v) :
    Rest d (a ++ x :: b) (inScope (a ++ x :: b) scope) (acts ++ v) := by
  induction rest generalizing scope v with
  | nil =>
    obtain rfl : x.scope = scope := by rw [hscope, List.append_nil]
    exact hbase v hrest
  | cons i rest ih =>
    -- The container in this scope on the way to the turn.
    obtain ⟨c, hc, hcscope, rfl, hcontains⟩ := hl.ancestor scope rest i (by simp) hscope
    have hinner : c.inner = scope ++ [c.id] := by rw [ExecutionPointer.inner, hcscope]
    have hsplit : x.scope = c.inner ++ rest := by rw [hinner, hscope, List.append_assoc]; rfl
    have hcundone : c.status.isDone = false := by
      by_contra hdone
      have hended := hl.ended c hc hcontains (by simpa using hdone)
      have hx := hl.closed c hc hended x (by simp) ⟨rest, hsplit.symm⟩
      rw [hundone] at hx
      cases hx
    have hlength : scope.length < x.scope.length := by simp [hscope]
    have hne : scope ≠ x.scope := fun heq => by simp [← heq] at hlength
    have hne' : scope ≠ x.inner := fun heq => by
      simp only [heq, ExecutionPointer.inner, List.length_append, List.length_singleton] at hlength
      omega
    rw [h.inScope_of_ne hne hne'] at hrest
    have hcmem := mem_inScope.mpr ⟨hc, hcscope⟩
    obtain ⟨α, β, hαβ⟩ := List.append_of_mem hcmem
    rw [hαβ] at hrest ⊢
    obtain ⟨w, t, hw, ht, hv⟩ := rest_cons.mp (hrest.perm List.perm_middle)
    refine Rest.perm (rest_cons.mpr ⟨acts ++ w, t, ?_, h.frame ht ?_, hv.append_left acts⟩)
      List.perm_middle.symm
    · -- Some pointer in the scope of the container is, or is above, the one whose turn it is.
      have hkids : ∃ q ∈ a ++ x :: b, q.scope = c.inner := by
        cases rest with
        | nil => exact ⟨x, by simp, by rw [hsplit, List.append_nil]⟩
        | cons j rest =>
          obtain ⟨q, hq, hqscope, -⟩ := hl.ancestor c.inner rest j (by simp) hsplit
          exact ⟨q, hq, hqscope⟩
      obtain ⟨q, hq, hqscope⟩ := hkids
      cases hw with
      | done hdone => simp [hcundone] at hdone
      | fresh _ hnil => exact absurd hnil (h.inScope_ne_nil hq hqscope)
      | opened _ _ hs hu hn hnil hv =>
        cases hnil
        rw [hv.eq_of_nil_right, ← List.append_assoc]
        refine .opened hcundone ?_ hs (ih hsplit hu) hn .nil (.nil_right _)
        exact List.ne_nil_of_mem (mem_inScope.mpr ⟨hq, hqscope⟩)
    · intro p hp
      have hmem : p ∈ a ++ x :: b ∧ p.scope = scope := by
        refine mem_inScope.mp ?_
        rw [hαβ]
        simp only [List.mem_append, List.mem_cons] at hp ⊢
        tauto
      have hpc : p.id ≠ c.id := by
        have hnodup : ((inScope (a ++ x :: b) scope).map ExecutionPointer.id).Nodup :=
          h.nodup.sublist (List.filter_sublist.map _)
        rw [hαβ, List.map_append, List.map_cons, List.nodup_middle, List.nodup_cons,
          ← List.map_append] at hnodup
        exact fun heq => hnodup.1 (heq ▸ List.mem_map_of_mem hp)
      refine ⟨hmem.1, fun heq => ?_, fun hpre => hpc ?_⟩
      · rw [h.eq_of_id hmem.1 heq] at hmem
        exact hne hmem.2.symm
      · obtain ⟨_, hpre⟩ := hpre
        rw [hscope, ExecutionPointer.inner, hmem.2, List.append_assoc] at hpre
        exact (List.cons.inj (List.append_cancel_left hpre)).1

/-! ### What a turn does to its pointer -/

theorem inScope_inner : inScope (a ++ x' :: b ++ new) x.inner =
    inScope (a ++ x :: b) x.inner ++ inScope new x.inner := by
  have hx : x.scope ≠ x.inner := x.scope_ne_inner
  have hx' : x'.scope ≠ x.inner := h.later.scope ▸ hx
  rw [inScope_append, inScope_append, inScope_append]
  simp [inScope, hx, hx']

/-- A turn that creates nothing and leaves its pointer undone does nothing. -/
theorem stays (hnew : new = []) (hundone : x.status.isDone = false)
    (hundone' : x'.status.isDone = false)
    (hrest : Rest d (a ++ x' :: b ++ new) (x' :: inScope new x.scope) v) :
    Rest d (a ++ x :: b) [x] v := by
  have hinner : inScope (a ++ x' :: b ++ new) x.inner = inScope (a ++ x :: b) x.inner := by
    rw [h.inScope_inner, hnew]
    exact List.append_nil _
  have hnone : inScope new x.scope = [] := by rw [hnew]; rfl
  rw [hnone] at hrest
  cases hrest with
  | done hdone => simp [hundone'] at hdone
  | fresh _ hl hu hnil hv =>
    cases hnil
    rw [h.later.inner, hinner] at hl
    rw [h.later.stepId] at hu
    exact .fresh hundone hl hu .nil hv
  | opened _ hl hs hu hn hnil hv =>
    cases hnil
    rw [h.later.inner, hinner] at hl hu
    rw [h.later.stepId] at hs hv
    refine .opened hundone hl hs (h.frame hu fun p hp => ?_) hn .nil hv
    -- The children of the pointer are below it.
    obtain ⟨hp, hscope⟩ := mem_inScope.mp hp
    refine ⟨hp, fun heq => ?_, fun hpre => ?_⟩
    · rw [h.eq_of_id hp heq] at hscope
      exact x.scope_ne_inner hscope
    · have hle := hpre.length_le
      simp only [ExecutionPointer.inner, hscope, List.length_append, List.length_singleton] at hle
      omega

/-- A container that opens lets its children do what they do, and completes then. -/
theorem opens {s : WorkflowStep} (hs : d.findStep x.stepId = some s) (hne : s.children ≠ [])
    (hundone : x.status.isDone = false) (hundone' : x'.status.isDone = false)
    (hempty : inScope (a ++ x :: b) x.inner = []) (hscope : ∀ q ∈ new, q.scope = x.inner)
    (hids : new.map ExecutionPointer.stepId = s.children)
    (hnew : ∀ q ∈ new, q.status.isDone = false)
    (hfresh : ∀ q ∈ new, inScope (a ++ x' :: b ++ new) q.inner = [])
    (hrest : Rest d (a ++ x' :: b ++ new) (x' :: inScope new x.scope) v) :
    Rest d (a ++ x :: b) [x] ((.opens, x.stepId) :: v) := by
  have hinner : inScope (a ++ x' :: b ++ new) x'.inner = new := by
    rw [h.later.inner, h.inScope_inner, hempty, List.nil_append, inScope_eq_self hscope]
  have hnone : inScope new x.scope = [] :=
    inScope_eq_nil.mpr fun q hq heq => x.scope_ne_inner (heq.symm.trans (hscope q hq))
  rw [hnone] at hrest
  cases hrest with
  | done hdone => simp [hundone'] at hdone
  | fresh _ hl =>
    rw [hinner] at hl
    subst hl
    exact absurd hids.symm hne
  | opened _ _ hs' hu hn hnil hv =>
    cases hnil
    rw [h.later.stepId] at hs' hv
    obtain rfl := Option.some_inj.mp (hs'.symm.trans hs)
    rw [hinner] at hu
    rw [hv.eq_of_nil_right]
    have hu := hu.traces hnew hfresh
    rw [hids] at hu
    exact rest_of_trace hundone hempty (.opened hs hne hu hn)

end Advance

end Advance

end Wfe
