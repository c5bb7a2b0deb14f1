import Mathlib.Order.Filter.AtTopBot.Basic

/-!
# Endless runs

An endless run of a system is given by the action it takes at each time. That something happens
again and again is `∃ᶠ k in atTop`, that it holds from some time on is `∀ᶠ k in atTop`.

## Main definitions

* `Endless.states next s α`: the states of the run that takes the actions `α` from `s`
* `Endless.lasso first loop`: the actions `first`, and then those of `loop` for ever
* `LeadsTo p q`: whenever `p` holds, `q` holds then or later

## Main results

* `Endless.invariant`: what every action keeps, every run keeps
* `LeadsTo.trans`: chains of such properties
* `leadsTo_of_rank`: `p` leads to `q` if nothing but `q` ends `p` or raises its rank, and something
  that happens again and again lowers the rank
-/

open Filter

namespace Endless

variable {S A : Type} {next : S → A → S} {s : S} {α : ℕ → A}

/-- The states of the run that takes the actions `α` from `s`. -/
def states (next : S → A → S) (s : S) (α : ℕ → A) : ℕ → S
  | 0 => s
  | k + 1 => next (states next s α k) (α k)

/-- What every action that is taken keeps holds at all times. -/
theorem invariant {N : S → Prop} {C : S → A → Prop} (hs : N s)
    (hstep : ∀ s a, N s → C s a → N (next s a)) (hC : ∀ k, C (states next s α k) (α k)) (k : ℕ) :
    N (states next s α k) := by
  induction k with
  | zero => exact hs
  | succ k ih => exact hstep _ _ ih (hC k)

/-- What every action keeps holds at all later times. -/
theorem stable {N : S → Prop} (hstep : ∀ s a, N s → N (next s a)) {j k : ℕ} (hjk : j ≤ k)
    (hj : N (states next s α j)) : N (states next s α k) := by
  induction k, hjk using Nat.le_induction with
  | base => exact hj
  | succ k _ ih => exact hstep _ _ ih

/-! ## Lassos -/

section Lasso

variable {first loop : List A} {hloop : 0 < loop.length}

/-- The actions `first`, and then those of `loop` for ever. -/
def lasso (first loop : List A) (hloop : 0 < loop.length) (k : ℕ) : A :=
  if h : k < first.length then first[k]
  else loop.get ⟨(k - first.length) % loop.length, Nat.mod_lt _ hloop⟩

theorem lasso_mem {k : ℕ} (hk : first.length ≤ k) : lasso first loop hloop k ∈ loop := by
  rw [lasso, dif_neg (by omega)]
  exact List.get_mem ..

/-- Every action of the loop is taken again and again. -/
theorem frequently_lasso {a : A} (ha : a ∈ loop) :
    ∃ᶠ k in atTop, lasso first loop hloop k = a := by
  obtain ⟨i, hi, rfl⟩ := List.mem_iff_getElem.mp ha
  refine frequently_atTop.mpr fun k => ⟨first.length + (loop.length * k + i), ?_, ?_⟩
  · have hk : k ≤ loop.length * k := Nat.le_mul_of_pos_left k hloop
    omega
  · rw [lasso, dif_neg (by omega)]
    simp [Nat.mod_eq_of_lt hi]

theorem states_lasso_of_le {k : ℕ} (hk : k ≤ first.length) :
    states next s (lasso first loop hloop) k = (first.take k).foldl next s := by
  induction k with
  | zero => rfl
  | succ k ih =>
    have hlt : k < first.length := by omega
    rw [states, ih (by omega), lasso, dif_pos hlt, List.take_add_one, List.foldl_append]
    simp [hlt]

/-- If the loop does not change the state that `first` leads to, the run stays there. -/
theorem states_lasso (hfixed : ∀ a ∈ loop, next (first.foldl next s) a = first.foldl next s)
    {k : ℕ} (hk : first.length ≤ k) :
    states next s (lasso first loop hloop) k = first.foldl next s := by
  induction k, hk using Nat.le_induction with
  | base => rw [states_lasso_of_le le_rfl, List.take_length]
  | succ k hk ih => rw [states, ih, hfixed _ (lasso_mem hk)]

end Lasso

end Endless

/-- Whenever `p` holds, `q` holds then or later. -/
def LeadsTo (p q : ℕ → Prop) : Prop := ∀ k, p k → ∃ j, k ≤ j ∧ q j

variable {p q r a : ℕ → Prop}

theorem LeadsTo.trans (hpq : LeadsTo p q) (hqr : LeadsTo q r) : LeadsTo p r := by
  intro k hk
  obtain ⟨j, hj, hq⟩ := hpq k hk
  obtain ⟨i, hi, hr⟩ := hqr j hq
  exact ⟨i, hj.trans hi, hr⟩

section Rank

variable {μ : ℕ → ℕ}

/-- As long as `q` does not hold, `p` holds and its rank does not rise. -/
theorem kept_until (hkeep : ∀ k, p k → q (k + 1) ∨ p (k + 1) ∧ μ (k + 1) ≤ μ k) {k j : ℕ}
    (hkj : k ≤ j) (hk : p k) : (∃ i, k ≤ i ∧ q i) ∨ p j ∧ μ j ≤ μ k := by
  induction j, hkj using Nat.le_induction with
  | base => exact .inr ⟨hk, le_rfl⟩
  | succ j hj ih =>
    rcases ih with hq | ⟨hp, hle⟩
    · exact .inl hq
    · rcases hkeep j hp with hq | ⟨hp', hle'⟩
      · exact .inl ⟨j + 1, by omega, hq⟩
      · exact .inr ⟨hp', hle'.trans hle⟩

/-- **The rule of ranks.** -/
theorem leadsTo_of_rank (hkeep : ∀ k, p k → q (k + 1) ∨ p (k + 1) ∧ μ (k + 1) ≤ μ k)
    (hdrop : ∀ k, p k → a k → q (k + 1) ∨ p (k + 1) ∧ μ (k + 1) < μ k)
    (ha : ∃ᶠ k in atTop, a k) : LeadsTo p q := by
  intro k hk
  -- The induction is on the rank at the time `k`.
  induction hn : μ k using Nat.strong_induction_on generalizing k with
  | _ n ih =>
    subst hn
    obtain ⟨j, hkj, haj⟩ := frequently_atTop.mp ha k
    rcases kept_until hkeep hkj hk with hq | ⟨hpj, hle⟩
    · exact hq
    · rcases hdrop j hpj haj with hq | ⟨hp, hlt⟩
      · exact ⟨j + 1, by omega, hq⟩
      · obtain ⟨i, hi, hq⟩ := ih (μ (j + 1)) (by omega) (j + 1) hp rfl
        exact ⟨i, by omega, hq⟩

end Rank
