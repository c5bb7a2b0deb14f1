import Mathlib.Data.List.Forall2

/-!
# Shuffles

`Shuffle u t v` says that `v` is made of `u` and `t`, each in its own order: what two sequential
parts that run side by side can do together.

## Main definitions

* `Shuffle u t v`: `v` is a shuffle of `u` and `t`

## Main results

* `Shuffle.comm`, `Shuffle.assoc`, `Shuffle.left_comm`: the order of the parts does not matter
* `Shuffle.forall₂`: shuffles of related parts are related
-/

variable {α β : Type}

/-- `v` is made of the entries of `u` and those of `t`, each in their own order. -/
inductive Shuffle : List α → List α → List α → Prop
  | nil : Shuffle [] [] []
  | left {u t v : List α} (a : α) (h : Shuffle u t v) : Shuffle (a :: u) t (a :: v)
  | right {u t v : List α} (a : α) (h : Shuffle u t v) : Shuffle u (a :: t) (a :: v)

namespace Shuffle

variable {u u' t t' v w : List α}

theorem comm (h : Shuffle u t v) : Shuffle t u v := by
  induction h with
  | nil => exact .nil
  | left a _ ih => exact .right a ih
  | right a _ ih => exact .left a ih

theorem nil_right (u : List α) : Shuffle u [] u := by
  induction u with
  | nil => exact .nil
  | cons a u ih => exact .left a ih

theorem nil_left (t : List α) : Shuffle [] t t := (nil_right t).comm

theorem eq_of_nil_right (h : Shuffle u [] v) : v = u := by
  generalize ht : ([] : List α) = t at h
  induction h with
  | nil => rfl
  | left a _ ih => rw [ih ht]
  | right => cases ht

theorem eq_of_nil_left (h : Shuffle [] t v) : v = t := h.comm.eq_of_nil_right

theorem length (h : Shuffle u t v) : v.length = u.length + t.length := by
  induction h with
  | nil => rfl
  | left a _ ih | right a _ ih =>
    simp only [List.length_cons, ih]
    omega

/-- What one part does first can be put first. -/
theorem append_left (l : List α) (h : Shuffle u t v) : Shuffle (l ++ u) t (l ++ v) := by
  induction l with
  | nil => exact h
  | cons a l ih => exact .left a ih

/-- One part after the other. -/
theorem append (u t : List α) : Shuffle u t (u ++ t) := by
  simpa using (nil_left t).append_left u

/-- Three parts: the first two together, or the last two. -/
theorem assoc (h : Shuffle u t w) (h' : Shuffle w t' v) :
    ∃ w', Shuffle t t' w' ∧ Shuffle u w' v := by
  induction h' generalizing u t with
  | nil =>
    cases h
    exact ⟨[], .nil, .nil⟩
  | left a h' ih =>
    cases h with
    | left _ h =>
      obtain ⟨w', ht, hu⟩ := ih h
      exact ⟨w', ht, .left a hu⟩
    | right _ h =>
      obtain ⟨w', ht, hu⟩ := ih h
      exact ⟨a :: w', .left a ht, .right a hu⟩
  | right a h' ih =>
    obtain ⟨w', ht, hu⟩ := ih h
    exact ⟨a :: w', .right a ht, .right a hu⟩

/-- The first two of three parts change places. -/
theorem left_comm (h : Shuffle t t' w) (h' : Shuffle u w v) :
    ∃ w', Shuffle u t' w' ∧ Shuffle t w' v := by
  -- `t` and `t'` are put together from the other side.
  obtain ⟨w', hu, ht⟩ := h.assoc h'.comm
  exact ⟨w', hu.comm, ht⟩

/-- Shuffles of related parts are related. -/
theorem forall₂ {R : β → α → Prop} {us ts : List β} (h : Shuffle u t v)
    (hu : List.Forall₂ R us u) (ht : List.Forall₂ R ts t) :
    ∃ vs, Shuffle us ts vs ∧ List.Forall₂ R vs v := by
  induction h generalizing us ts with
  | nil =>
    cases hu
    cases ht
    exact ⟨[], .nil, .nil⟩
  | left a _ ih =>
    cases hu with
    | cons hb hu =>
      obtain ⟨vs, hvs, hv⟩ := ih hu ht
      exact ⟨_ :: vs, .left _ hvs, .cons hb hv⟩
  | right a _ ih =>
    cases ht with
    | cons hb ht =>
      obtain ⟨vs, hvs, hv⟩ := ih hu ht
      exact ⟨_ :: vs, .right _ hvs, .cons hb hv⟩

end Shuffle
