import Mathlib.Algebra.Order.Ring.Int
import Mathlib.Data.Nat.Cast.Order.Ring
import Mathlib.Order.Monotone.Basic
import Mathlib.Tactic.Ring

/-!
# Comparing in lexicographic order

Two values that are made of a leading and a trailing part compare as their leading parts do, and as
their trailing parts where the leading ones are the same. Numbers in a positional system are such
values, and so are texts that begin with parts of the same length.

## Main results

* `cmp_eq_then`, `cmp_mul_add`, `Nat.cmp_div_mod`: values that compare as their parts
* `List.compareLex_append`: lists that begin with parts of the same length
* `List.compareLex_map`: a change of the elements that keeps their order
-/

/-- Values compare as their parts if the leading part decides wherever it can. -/
theorem cmp_eq_then {α β : Type} [LinearOrder α] [LinearOrder β] {x y : α} {i j : β} {o : Ordering}
    (hlt : i < j → x < y) (hgt : j < i → y < x) (heq : i = j → cmp x y = o) :
    cmp x y = (cmp i j).then o := by
  rcases lt_trichotomy i j with h | h | h
  · rw [(hlt h).cmp_eq_lt, h.cmp_eq_lt]
    rfl
  · rw [heq h, h.cmp_eq_eq]
    rfl
  · rw [(hgt h).cmp_eq_gt, h.cmp_eq_gt]
    rfl

/-- Numbers compare as their quotients, and as their remainders if these are the same. -/
theorem cmp_mul_add {n a b : ℤ} {r s : ℕ} (hr : r < n) (hs : s < n) :
    cmp (a * n + r) (b * n + s) = (cmp a b).then (cmp r s) := by
  have hstep {a b : ℤ} {r s : ℕ} (hr : r < n) (h : a < b) : a * n + r < b * n + s := by
    have hle : (a + 1) * n ≤ b * n := by
      refine Int.mul_le_mul_of_nonneg_right h ?_
      omega
    have hsucc : (a + 1) * n = a * n + n := by ring
    omega
  refine cmp_eq_then (hstep hr) (hstep hs) fun h => ?_
  rw [h, cmp_add_left]
  exact Nat.strictMono_cast.cmp_map_eq r s

theorem Nat.cmp_div_mod {b : ℕ} (n m : ℕ) :
    cmp n m = (cmp (n / b) (m / b)).then (cmp (n % b) (m % b)) := by
  refine cmp_eq_then Nat.lt_of_div_lt_div Nat.lt_of_div_lt_div fun h => ?_
  conv_lhs => rw [← Nat.div_add_mod n b, ← Nat.div_add_mod m b, h]
  exact cmp_add_left _ _ _

namespace List

variable {α β : Type} {c : α → α → Ordering} {d : β → β → Ordering}

/-- Parts of the same length decide before what follows them. -/
theorem compareLex_append {xs ys : List α} (hlength : xs.length = ys.length) (s t : List α) :
    (xs ++ s).compareLex c (ys ++ t) = (xs.compareLex c ys).then (s.compareLex c t) := by
  induction xs generalizing ys with
  | nil =>
    rw [length_eq_zero_iff.mp hlength.symm]
    rfl
  | cons x xs ih =>
    cases ys with
    | nil => cases hlength
    | cons y ys =>
      rw [cons_append, cons_append, List.compareLex_cons_cons, List.compareLex_cons_cons,
        ih (Nat.succ.inj hlength), Ordering.then_assoc]

theorem compareLex_map {f : α → β} {xs ys : List α}
    (h : ∀ x ∈ xs, ∀ y ∈ ys, d (f x) (f y) = c x y) :
    (xs.map f).compareLex d (ys.map f) = xs.compareLex c ys := by
  induction xs generalizing ys with
  | nil => cases ys <;> rfl
  | cons x xs ih =>
    cases ys with
    | nil => rfl
    | cons y ys =>
      rw [map_cons, map_cons, List.compareLex_cons_cons, List.compareLex_cons_cons,
        h x mem_cons_self y mem_cons_self,
        ih fun a ha b hb => h a (mem_cons_of_mem x ha) b (mem_cons_of_mem y hb)]

end List
