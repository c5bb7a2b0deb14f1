import Mathlib.Data.List.Basic
import Mathlib.Data.List.Count
import Mathlib.Data.List.Perm.Basic

/-!
# Scans that stop early

Truth values that are computed one after the other, each with an answer or an error, are combined
from left to right. A scan stops at an error, and as soon as its own answer is decided. With
answers only it computes the truth function it is named after; with errors of one kind among them
its result does not depend on the order, unless an answer that stops it and an error are both in
the list.

## Main definitions

* `Scan.while_ go`: goes on as long as the answer is `go`
* `Scan.once`: whether one answer is true, and no more
* `Scan.Mixed`, `Scan.OnceMixed`: an error and enough to stop before it

## Main results

* `Scan.while_true_ok`, `Scan.while_false_ok`, `Scan.once_ok`: scans of answers
* `Scan.while_perm`, `Scan.once_perm`: a scan has the same result in every order if its list is
  not mixed
* `Scan.Mixed.exists_perm`, `Scan.OnceMixed.exists_perm`: else some order stops it and another makes
  it fail
-/

namespace Scan

variable {ε : Type}

/-- The scan that goes on as long as the answer is `go`. -/
def while_ (go : Bool) : List (Except ε Bool) → Except ε Bool
  | [] => .ok go
  | .ok b :: rs => if b = go then while_ go rs else .ok b
  | .error e :: _ => .error e

/-- The scan for exactly one true answer, after `count` of them. -/
def once : ℕ → List (Except ε Bool) → Except ε Bool
  | count, [] => .ok (count = 1)
  | count, .ok true :: rs => if 0 < count then .ok false else once (count + 1) rs
  | count, .ok false :: rs => once count rs
  | _, .error e :: _ => .error e

def isTrue : Except ε Bool → Bool
  | .ok b => b
  | .error _ => false

/-! ## Answers -/

theorem while_true_ok {α : Type} (v : α → Bool) (as : List α) :
    while_ true (as.map fun a => (.ok (v a) : Except ε Bool)) = .ok (as.all v) := by
  induction as with
  | nil => rfl
  | cons a as ih => cases ha : v a <;> simp [while_, ha, ih]

theorem while_false_ok {α : Type} (v : α → Bool) (as : List α) :
    while_ false (as.map fun a => (.ok (v a) : Except ε Bool)) = .ok (as.any v) := by
  induction as with
  | nil => rfl
  | cons a as ih => cases ha : v a <;> simp [while_, ha, ih]

/-- Answers only: the scan counts them, and stops at the second. -/
theorem once_of_ok {rs : List (Except ε Bool)} (h : ∀ r ∈ rs, ∃ b, r = .ok b) {count : ℕ}
    (hcount : count ≤ 1) : once count rs = .ok (decide (count + rs.countP isTrue = 1)) := by
  induction rs generalizing count with
  | nil => rfl
  | cons r rs ih =>
    obtain ⟨⟨b, rfl⟩, hrs⟩ := List.forall_mem_cons.mp h
    cases b with
    | false => rw [once, ih hrs hcount, List.countP_cons_of_neg (by simp [isTrue])]
    | true =>
      rw [once, List.countP_cons_of_pos (by rfl)]
      split_ifs with hpos
      · rw [decide_eq_false (by omega)]
      · rw [ih hrs (by omega), show count + 1 + rs.countP isTrue = count + (rs.countP isTrue + 1) by
          omega]

theorem once_ok {α : Type} (v : α → Bool) (as : List α) :
    once 0 (as.map fun a => (.ok (v a) : Except ε Bool)) = .ok (decide (as.countP v = 1)) := by
  rw [once_of_ok (by simp) (by omega), List.countP_map, Nat.zero_add]
  rfl

/-! ## Order -/

section Order

variable {e : ε} {rs rs' : List (Except ε Bool)} {go : Bool} {count : ℕ}

/-- Every result is an answer or the error `e`. -/
def OnlyError (e : ε) (rs : List (Except ε Bool)) : Prop := ∀ r ∈ rs, r = .error e ∨ ∃ b, r = .ok b

/-- An error, and an answer that stops the scan before it when it comes first. -/
def Mixed (go : Bool) (e : ε) (rs : List (Except ε Bool)) : Prop := .ok (!go) ∈ rs ∧ .error e ∈ rs

/-- An error, and two true answers. -/
def OnceMixed (e : ε) (rs : List (Except ε Bool)) : Prop := 2 ≤ rs.countP isTrue ∧ .error e ∈ rs

/-- A scan that meets no answer to stop at fails if there is an error. -/
theorem while_error (honly : OnlyError e rs) (hstop : .ok (!go) ∉ rs) (herr : .error e ∈ rs) :
    while_ go rs = .error e := by
  induction rs with
  | nil => cases herr
  | cons r rs ih =>
    obtain ⟨hr, hrs⟩ := List.forall_mem_cons.mp honly
    rw [List.mem_cons, not_or] at hstop
    rcases hr with rfl | ⟨b, rfl⟩
    · rfl
    · have hb : b = go := by
        have hne : b ≠ !go := fun h => hstop.1 (h ▸ rfl)
        cases b <;> cases go <;> simp_all
      rw [while_, if_pos hb]
      exact ih hrs hstop.2 ((List.mem_cons.mp herr).resolve_left (by simp))

/-- Without an error, a scan stops if there is an answer to stop at. -/
theorem while_stop (h : ∀ r ∈ rs, ∃ b, r = .ok b) (hstop : .ok (!go) ∈ rs) :
    while_ go rs = .ok (!go) := by
  induction rs with
  | nil => cases hstop
  | cons r rs ih =>
    obtain ⟨⟨b, rfl⟩, hrs⟩ := List.forall_mem_cons.mp h
    by_cases hb : b = go
    · have hne : (.ok (!go) : Except ε Bool) ≠ .ok b := by
        subst hb
        cases b <;> simp
      rw [while_, if_pos hb]
      exact ih hrs ((List.mem_cons.mp hstop).resolve_left hne)
    · rw [while_, if_neg hb]
      cases b <;> cases go <;> simp_all

theorem while_go (h : ∀ r ∈ rs, r = .ok go) : while_ go rs = .ok go := by
  induction rs with
  | nil => rfl
  | cons r rs ih =>
    obtain ⟨rfl, hrs⟩ := List.forall_mem_cons.mp h
    rw [while_, if_pos rfl]
    exact ih hrs

/-- A scan that goes on to its end has met nothing else. -/
theorem while_eq_go (h : while_ go rs = .ok go) : ∀ r ∈ rs, r = .ok go := by
  induction rs with
  | nil => simp
  | cons r rs ih =>
    cases r with
    | error e => cases h
    | ok b =>
      rw [while_] at h
      split_ifs at h with hb
      · exact List.forall_mem_cons.mpr ⟨congrArg _ hb, ih h⟩
      · exact absurd (Except.ok.inj h) hb

theorem OnlyError.perm (honly : OnlyError e rs) (h : rs.Perm rs') : OnlyError e rs' :=
  fun r hr => honly r (h.mem_iff.mpr hr)

theorem OnlyError.ok (honly : OnlyError e rs) (herr : .error e ∉ rs) : ∀ r ∈ rs, ∃ b, r = .ok b :=
  fun r hr => (honly r hr).resolve_left fun h => herr (h ▸ hr)

/-- Where the list is not mixed, the scan has the same result in every order. -/
theorem while_perm (honly : OnlyError e rs) (hmixed : ¬ Mixed go e rs) (h : rs.Perm rs') :
    while_ go rs' = while_ go rs := by
  by_cases herr : .error e ∈ rs
  · have hstop : .ok (!go) ∉ rs := fun hstop => hmixed ⟨hstop, herr⟩
    rw [while_error honly hstop herr,
      while_error (honly.perm h) (h.mem_iff.not.mp hstop) (h.mem_iff.mp herr)]
  · have hok := honly.ok herr
    have hok' := (honly.perm h).ok (h.mem_iff.not.mp herr)
    by_cases hstop : .ok (!go) ∈ rs
    · rw [while_stop hok hstop, while_stop hok' (h.mem_iff.mp hstop)]
    · have hgo : ∀ r ∈ rs, r = .ok go := by
        intro r hr
        obtain ⟨b, rfl⟩ := hok r hr
        have hne : b ≠ !go := fun hb => hstop (hb ▸ hr)
        cases b <;> cases go <;> simp_all
      rw [while_go hgo, while_go fun r hr => hgo r (h.mem_iff.mpr hr)]

theorem exists_perm_cons {α : Type} {a : α} {as : List α} (h : a ∈ as) :
    ∃ bs, as.Perm (a :: bs) := by
  obtain ⟨s, t, rfl⟩ := List.append_of_mem h
  exact ⟨s ++ t, List.perm_middle⟩

/-- A mixed list has an order in which the scan stops, and one in which it fails. -/
theorem Mixed.exists_perm (h : Mixed go e rs) :
    (∃ rs', rs.Perm rs' ∧ while_ go rs' = .ok (!go)) ∧
      ∃ rs', rs.Perm rs' ∧ while_ go rs' = .error e := by
  obtain ⟨as, has⟩ := exists_perm_cons h.1
  obtain ⟨bs, hbs⟩ := exists_perm_cons h.2
  refine ⟨⟨_, has, ?_⟩, _, hbs, rfl⟩
  rw [while_, if_neg (by cases go <;> decide)]

/-- A scan with at most one true answer fails if there is an error. -/
theorem once_error (honly : OnlyError e rs) (hcount : count + rs.countP isTrue ≤ 1)
    (herr : .error e ∈ rs) : once count rs = .error e := by
  induction rs generalizing count with
  | nil => cases herr
  | cons r rs ih =>
    obtain ⟨hr, hrs⟩ := List.forall_mem_cons.mp honly
    rcases hr with rfl | ⟨b, rfl⟩
    · rfl
    · have hmem : .error e ∈ rs := (List.mem_cons.mp herr).resolve_left (by simp)
      cases b with
      | false =>
        rw [List.countP_cons_of_neg (by simp [isTrue])] at hcount
        exact ih hrs hcount hmem
      | true =>
        rw [List.countP_cons_of_pos (by rfl)] at hcount
        rw [once, if_neg (by omega)]
        exact ih hrs (by omega) hmem

theorem once_eq_true (h : once count rs = .ok true) : count + rs.countP isTrue = 1 := by
  induction rs generalizing count with
  | nil => exact of_decide_eq_true (Except.ok.inj h)
  | cons r rs ih =>
    rcases r with e | (_ | _)
    · cases h
    · rw [List.countP_cons_of_neg (by simp [isTrue])]
      exact ih h
    · rw [once] at h
      split_ifs at h with hpos
      · cases h
      · rw [List.countP_cons_of_pos (by rfl)]
        have := ih h
        omega

/-- The result of a scan is an answer or the error. -/
theorem OnlyError.while_cases (honly : OnlyError e rs) :
    while_ go rs = .error e ∨ while_ go rs = .ok (!go) ∨ while_ go rs = .ok go := by
  induction rs with
  | nil => exact .inr (.inr rfl)
  | cons r rs ih =>
    obtain ⟨hr, hrs⟩ := List.forall_mem_cons.mp honly
    rcases hr with rfl | ⟨b, rfl⟩
    · exact .inl rfl
    · rw [while_]
      split_ifs with hb
      · exact ih hrs
      · refine .inr (.inl ?_)
        cases b <;> cases go <;> simp_all

theorem OnlyError.once_cases (honly : OnlyError e rs) :
    once count rs = .error e ∨ once count rs = .ok false ∨ once count rs = .ok true := by
  induction rs generalizing count with
  | nil =>
    rw [once]
    cases decide (count = 1) <;> simp
  | cons r rs ih =>
    obtain ⟨hr, hrs⟩ := List.forall_mem_cons.mp honly
    rcases hr with rfl | ⟨_ | _, rfl⟩
    · exact .inl rfl
    · exact ih hrs
    · rw [once]
      split_ifs
      · exact .inr (.inl rfl)
      · exact ih hrs

/-- A mixed list is stopped or fails. -/
theorem Mixed.cases (h : Mixed go e rs) (honly : OnlyError e rs) :
    while_ go rs = .ok (!go) ∨ while_ go rs = .error e := by
  rcases honly.while_cases with herr | hstop | hgo
  · exact .inr herr
  · exact .inl hstop
  · cases while_eq_go hgo _ h.2

theorem OnceMixed.cases (h : OnceMixed e rs) (honly : OnlyError e rs) :
    once 0 rs = .ok false ∨ once 0 rs = .error e := by
  rcases honly.once_cases with herr | hfalse | htrue
  · exact .inr herr
  · exact .inl hfalse
  · have hcount := once_eq_true htrue
    have := h.1
    omega

theorem once_perm (honly : OnlyError e rs) (hmixed : ¬ OnceMixed e rs) (h : rs.Perm rs') :
    once 0 rs' = once 0 rs := by
  have hcount : rs'.countP isTrue = rs.countP isTrue := (h.countP_eq isTrue).symm
  by_cases herr : .error e ∈ rs
  · have hle : 0 + rs.countP isTrue ≤ 1 := by
      have : ¬ 2 ≤ rs.countP isTrue := fun h2 => hmixed ⟨h2, herr⟩
      omega
    rw [once_error honly hle herr,
      once_error (honly.perm h) (by rw [hcount]; exact hle) (h.mem_iff.mp herr)]
  · rw [once_of_ok (honly.ok herr) (by omega),
      once_of_ok ((honly.perm h).ok (h.mem_iff.not.mp herr)) (by omega), hcount]

theorem OnceMixed.exists_perm (h : OnceMixed e rs) :
    (∃ rs', rs.Perm rs' ∧ once 0 rs' = .ok false) ∧ ∃ rs', rs.Perm rs' ∧ once 0 rs' = .error e := by
  obtain ⟨bs, hbs⟩ := exists_perm_cons h.2
  refine ⟨⟨_, (List.filter_append_perm isTrue rs).symm, ?_⟩, _, hbs, rfl⟩
  -- The true answers stand first, and there are two of them.
  have hlen : 2 ≤ (rs.filter isTrue).length := by
    rw [← List.countP_eq_length_filter]
    exact h.1
  have htrue : ∀ r ∈ rs.filter isTrue, r = .ok true := by
    intro r hr
    have := (List.mem_filter.mp hr).2
    cases r <;> simp_all [isTrue]
  generalize rs.filter isTrue = ts at hlen htrue
  match ts, hlen with
  | t :: t' :: ts, _ =>
    rw [htrue t (by simp), htrue t' (by simp)]
    rfl

end Order

end Scan
