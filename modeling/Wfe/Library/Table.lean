import Mathlib.Data.List.Basic
import Mathlib.Logic.Function.Basic

/-!
# Keyed tables

A table is a list of records, each carrying its own key; storing a record replaces the one with
the same key, or appends it. A record is therefore always found under its own key, and the first
record with a key is the only one that counts.

## Main definitions

* `Table.get key l k`: the record stored under `k`
* `Table.put key a l`: the table with `a` stored under its key

## Main results

* `Table.get_put`, `Table.get_filter_of_ne`: what a lookup finds after a store and after a removal
* `Table.key_of_get`: records are found under their own key
* `Table.get_map`: lookups after a change of the records
* `Table.split`: a table with distinct keys has one record under a key, or none
-/

namespace Table

variable {α κ : Type} [DecidableEq κ] (key : α → κ)

/-- The record stored under `k`. -/
def get (l : List α) (k : κ) : Option α := l.find? fun a => key a = k

/-- Stores `a` under its key. -/
def put (a : α) : List α → List α
  | [] => [a]
  | b :: l => if key b = key a then a :: l else b :: put a l

variable {key}

theorem key_of_get {l : List α} {k : κ} {a : α} (h : get key l k = some a) : key a = k := by
  simpa using List.find?_some h

theorem mem_of_get {l : List α} {k : κ} {a : α} (h : get key l k = some a) : a ∈ l :=
  List.mem_of_find?_eq_some h

/-- If keys are distinct, every record is found. -/
theorem get_of_mem {l : List α} {a : α} (hl : (l.map key).Nodup) (ha : a ∈ l) :
    get key l (key a) = some a := by
  induction l with
  | nil => cases ha
  | cons b l ih =>
    rw [List.map_cons, List.nodup_cons] at hl
    rcases List.mem_cons.mp ha with rfl | ha
    · simp [get]
    · have hne : key b ≠ key a := by
        intro h
        exact hl.1 (h ▸ List.mem_map_of_mem ha)
      simpa [get, hne] using ih hl.2 ha

/-- Removing the records under one key leaves those under the others. -/
theorem get_filter_of_ne (l : List α) {k k' : κ} (h : k ≠ k') :
    get key (l.filter fun a => key a ≠ k) k' = get key l k' := by
  simp only [get, List.find?_filter]
  congr 1
  funext a
  by_cases ha : key a = k'
  · simp [ha, h.symm]
  · simp [ha]

theorem get_put (a : α) (l : List α) (k : κ) :
    get key (put key a l) k = if key a = k then some a else get key l k := by
  induction l with
  | nil =>
    by_cases h : key a = k <;> simp [put, get, h]
  | cons b l ih =>
    by_cases hb : key b = key a
    · rw [put, if_pos hb]
      by_cases h : key a = k
      · simp [get, h]
      · simp [get, h, hb]
    · rw [put, if_neg hb]
      by_cases h : key b = k
      · have ha : key a ≠ k := fun e => hb (h.trans e.symm)
        simp [get, h, ha]
      · simpa [get, h] using ih

@[simp] theorem get_put_self (a : α) (l : List α) : get key (put key a l) (key a) = some a := by
  rw [get_put, if_pos rfl]

/-- A change that keeps the keys changes what is found. -/
theorem get_map {f : α → α} (hf : ∀ a, key (f a) = key a) (l : List α) (k : κ) :
    get key (l.map f) k = (get key l k).map f := by
  simp only [get, List.find?_map, Function.comp_def, hf]

/-- A record that is stored under a new key comes last. -/
theorem put_of_forall_ne {a : α} {l : List α} (h : ∀ b ∈ l, key b ≠ key a) :
    put key a l = l ++ [a] := by
  induction l with
  | nil => rfl
  | cons b l ih =>
    rw [put, if_neg (h b List.mem_cons_self), ih fun c hc => h c (List.mem_cons_of_mem b hc)]
    rfl

/-- Storing a record adds its key, if it is new. -/
theorem map_key_put (a : α) (l : List α) :
    (put key a l).map key = if key a ∈ l.map key then l.map key else l.map key ++ [key a] := by
  induction l with
  | nil => rfl
  | cons b l ih =>
    rw [put, List.map_cons]
    by_cases hb : key b = key a
    · rw [if_pos hb, if_pos (hb ▸ List.mem_cons_self), List.map_cons, hb]
    · rw [if_neg hb, List.map_cons, ih]
      by_cases ha : key a ∈ l.map key
      · rw [if_pos ha, if_pos (List.mem_cons_of_mem _ ha)]
      · have hne : key a ∉ key b :: l.map key :=
          fun h => (List.mem_cons.1 h).elim (fun h => hb h.symm) ha
        rw [if_neg ha, if_neg hne, List.cons_append]

/-- Keys stay distinct. -/
theorem nodup_put {a : α} {l : List α} (h : (l.map key).Nodup) :
    ((put key a l).map key).Nodup := by
  rw [map_key_put]
  split_ifs with ha
  · exact h
  · refine List.nodup_append.2 ⟨h, List.pairwise_singleton _ _, fun x hx y hy => ?_⟩
    rw [List.mem_singleton.1 hy]
    rintro rfl
    exact ha hx

/-! ## One record -/

theorem get_eq_none {l : List α} {k : κ} : get key l k = none ↔ ∀ a ∈ l, key a ≠ k := by
  simp [get]

/-- In a table with distinct keys, there is one record under a key, or there is none. -/
theorem split {l : List α} (hl : (l.map key).Nodup) (k : κ) : (∀ a ∈ l, key a ≠ k) ∨
    ∃ l₁ a l₂, l = l₁ ++ a :: l₂ ∧ key a = k ∧ ∀ b ∈ l₁ ++ l₂, key b ≠ k := by
  by_cases h : ∀ a ∈ l, key a ≠ k
  · exact .inl h
  · push Not at h
    obtain ⟨a, ha, rfl⟩ := h
    obtain ⟨l₁, l₂, rfl⟩ := List.append_of_mem ha
    refine .inr ⟨l₁, a, l₂, rfl, rfl, fun b hb hba => ?_⟩
    have hperm : (l₁ ++ a :: l₂).Perm (a :: (l₁ ++ l₂)) := List.perm_middle
    have hnodup := (hperm.map key).nodup_iff.mp hl
    rw [List.map_cons, List.nodup_cons] at hnodup
    exact hnodup.1 (hba ▸ List.mem_map_of_mem hb)

section Single

variable {l₁ l₂ : List α} {a : α} {p : α → Bool} (h : ∀ b ∈ l₁ ++ l₂, p b = false)
include h

theorem find?_single : (l₁ ++ a :: l₂).find? p = if p a then some a else none := by
  have h₁ : l₁.find? p = none := List.find?_eq_none.mpr fun b hb => by simp [h b (by simp [hb])]
  have h₂ : l₂.find? p = none := List.find?_eq_none.mpr fun b hb => by simp [h b (by simp [hb])]
  rw [List.find?_append, h₁, Option.none_or, List.find?_cons, h₂]
  cases p a <;> rfl

theorem countP_single : (l₁ ++ a :: l₂).countP p = if p a then 1 else 0 := by
  have h₁ : l₁.countP p = 0 := List.countP_eq_zero.mpr fun b hb => by simp [h b (by simp [hb])]
  have h₂ : l₂.countP p = 0 := List.countP_eq_zero.mpr fun b hb => by simp [h b (by simp [hb])]
  rw [List.countP_append, h₁, List.countP_cons, h₂, Nat.zero_add, Nat.zero_add]

theorem map_single (f : α → α) : (l₁ ++ a :: l₂).map (fun b => if p b then f b else b) =
    l₁ ++ (if p a then f a else a) :: l₂ := by
  have hmap (l : List α) (hl : ∀ b ∈ l, p b = false) :
      l.map (fun b => if p b then f b else b) = l := by
    conv_rhs => rw [← List.map_id l]
    exact List.map_congr_left fun b hb => by simp [hl b hb]
  rw [List.map_append, List.map_cons, hmap l₁ fun b hb => h b (by simp [hb]),
    hmap l₂ fun b hb => h b (by simp [hb])]

theorem filter_single : (l₁ ++ a :: l₂).filter (fun b => !p b) =
    l₁ ++ if p a then l₂ else a :: l₂ := by
  have hfilter (l : List α) (hl : ∀ b ∈ l, p b = false) : l.filter (fun b => !p b) = l :=
    List.filter_eq_self.mpr fun b hb => by simp [hl b hb]
  rw [List.filter_append, List.filter_cons, hfilter l₁ fun b hb => h b (by simp [hb]),
    hfilter l₂ fun b hb => h b (by simp [hb])]
  cases p a <;> rfl

end Single

end Table
