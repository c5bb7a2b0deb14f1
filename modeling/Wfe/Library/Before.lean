import Mathlib.Data.List.Nodup
import Mathlib.Data.List.Perm.Basic

/-!
# What stands before what

Two entries of a list in this order, with any others between them. In a list of events this is one
thing having happened before another; in lists without repetitions no pair is in both orders.

## Main definitions

* `Before l x y`: some `x` stands before some `y` in `l`

## Main results

* `before_append`, `before_concat`, `before_filter`, `before_filterMap`: pairs in composite lists
* `Before.mergeSort_iff`: which pairs a stable sort leaves in their order
-/

variable {α β : Type}

/-- Some `x` stands before some `y` in `l`. -/
def Before (l : List α) (x y : α) : Prop := [x, y].Sublist l

section Lists

variable {l l₁ l₂ : List α} {x y z : α}

theorem Before.mem_left (h : Before l x y) : x ∈ l := h.subset (by simp)

theorem Before.mem_right (h : Before l x y) : y ∈ l := h.subset (by simp)

theorem not_before_nil : ¬Before [] x y := nofun

theorem before_cons : Before (z :: l) x y ↔ (x = z ∧ y ∈ l) ∨ Before l x y := by
  unfold Before
  constructor
  · intro h
    cases h with
    | cons _ h => exact .inr h
    | cons_cons _ h => exact .inl ⟨rfl, List.singleton_sublist.1 h⟩
  · rintro (⟨rfl, hy⟩ | h)
    · exact (List.singleton_sublist.2 hy).cons_cons _
    · exact h.cons _

/-- A pair of a composite is a pair of one part, or has one entry in each. -/
theorem before_append :
    Before (l₁ ++ l₂) x y ↔ Before l₁ x y ∨ (x ∈ l₁ ∧ y ∈ l₂) ∨ Before l₂ x y := by
  induction l₁ with
  | nil => simp [not_before_nil]
  | cons a l₁ ih =>
    rw [List.cons_append, before_cons, before_cons, ih, List.mem_append, List.mem_cons]
    constructor
    · rintro (⟨hx, hy | hy⟩ | h | ⟨hx, hy⟩ | h)
      · exact .inl (.inl ⟨hx, hy⟩)
      · exact .inr (.inl ⟨.inl hx, hy⟩)
      · exact .inl (.inr h)
      · exact .inr (.inl ⟨.inr hx, hy⟩)
      · exact .inr (.inr h)
    · rintro ((⟨hx, hy⟩ | h) | ⟨hx | hx, hy⟩ | h)
      · exact .inl ⟨hx, .inl hy⟩
      · exact .inr (.inl h)
      · exact .inl ⟨hx, .inr hy⟩
      · exact .inr (.inr (.inl ⟨hx, hy⟩))
      · exact .inr (.inr (.inr h))

theorem before_concat : Before (l ++ [z]) x y ↔ Before l x y ∨ (x ∈ l ∧ y = z) := by
  rw [before_append, before_cons, List.mem_singleton]
  simp [not_before_nil]

theorem before_filter {p : α → Bool} :
    Before (l.filter p) x y ↔ Before l x y ∧ p x = true ∧ p y = true := by
  induction l with
  | nil => simp [not_before_nil]
  | cons a l ih =>
    rw [List.filter_cons]
    split_ifs with ha
    · rw [before_cons, before_cons, ih, List.mem_filter]
      constructor
      · rintro (⟨rfl, hy, hp⟩ | ⟨h, hp⟩)
        · exact ⟨.inl ⟨rfl, hy⟩, ha, hp⟩
        · exact ⟨.inr h, hp⟩
      · rintro ⟨⟨rfl, hy⟩ | h, hp⟩
        · exact .inl ⟨rfl, hy, hp.2⟩
        · exact .inr ⟨h, hp⟩
    · rw [before_cons, ih]
      constructor
      · rintro ⟨h, hp⟩
        exact ⟨.inr h, hp⟩
      · rintro ⟨⟨rfl, hy⟩ | h, hp⟩
        · exact absurd hp.1 ha
        · exact ⟨h, hp⟩

/-- A pair of values comes from a pair of entries. -/
theorem before_filterMap {f : α → Option β} {l : List α} {a b : β} :
    Before (l.filterMap f) a b ↔ ∃ x y, f x = some a ∧ f y = some b ∧ Before l x y := by
  induction l with
  | nil => simp [not_before_nil]
  | cons z l ih =>
    simp only [before_cons]
    rw [List.filterMap_cons]
    cases hz : f z with
    | none =>
      -- The first entry leaves no value, so it is in no pair.
      simp only
      rw [ih]
      constructor
      · rintro ⟨x, y, hx, hy, h⟩
        exact ⟨x, y, hx, hy, .inr h⟩
      · rintro ⟨x, y, hx, hy, ⟨rfl, -⟩ | h⟩
        · rw [hz] at hx
          cases hx
        · exact ⟨x, y, hx, hy, h⟩
    | some c =>
      simp only
      rw [before_cons, ih, List.mem_filterMap]
      constructor
      · rintro (⟨rfl, y, hy, hb⟩ | ⟨x, y, hx, hy, h⟩)
        · exact ⟨z, y, hz, hb, .inl ⟨rfl, hy⟩⟩
        · exact ⟨x, y, hx, hy, .inr h⟩
      · rintro ⟨x, y, hx, hy, ⟨rfl, hmem⟩ | h⟩
        · rw [hz] at hx
          exact .inl ⟨(Option.some_inj.1 hx).symm, y, hmem, hy⟩
        · exact .inr ⟨x, y, hx, hy, h⟩

/-- A stable sort leaves a pair in its order exactly if the keys agree with it. -/
theorem Before.mergeSort_iff {key : α → Int} (h : Before l x y) :
    Before (l.mergeSort fun a b => key a ≤ key b) x y ↔ key x ≤ key y := by
  have htrans (a b c : α) (hab : decide (key a ≤ key b) = true)
      (hbc : decide (key b ≤ key c) = true) : decide (key a ≤ key c) = true :=
    decide_eq_true (Int.le_trans (of_decide_eq_true hab) (of_decide_eq_true hbc))
  have htotal (a b : α) : (decide (key a ≤ key b) || decide (key b ≤ key a)) = true := by
    simpa using Int.le_total (key a) (key b)
  constructor
  · intro hsorted
    have hpair := (List.pairwise_mergeSort htrans htotal l).sublist hsorted
    exact of_decide_eq_true (List.rel_of_pairwise_cons hpair (List.mem_singleton_self y))
  · exact fun hkey => List.pair_sublist_mergeSort htrans htotal (decide_eq_true hkey) h

end Lists
