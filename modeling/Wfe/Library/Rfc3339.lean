import Wfe.Library.Calendar
import Wfe.Library.Utf8
import Mathlib.Data.Char

/-!
# Times in RFC 3339

Civil times in UTC as texts, with four digits for the year and a fraction of the second in 0, 3, 6
or 9 digits. The fraction is followed by the offset, whose sign comes before the point and the
digits in ASCII; so the texts are in the order of the times although they differ in length.

## Main definitions

* `Rfc3339.text`: the text of a civil time
* `Rfc3339.digits`, `Rfc3339.fraction`: its numbers

## Main results

* `Rfc3339.cmp_digits`: numbers of the same width are in the order of their digits
* `Rfc3339.cmp_fraction`: fractions, too, if a sign follows
* `Rfc3339.cmp_text`: the texts are in the order of the instants
-/

namespace Rfc3339

open Calendar

/-! ## Texts -/

/-- The last `w` decimal digits of a number. -/
def digits : ℕ → ℕ → List Char
  | 0, _ => []
  | w + 1, n => digits w (n / 10) ++ [(n % 10).digitChar]

/-- The fraction of a second in as many digits as show it: 0, 3, 6 or 9. -/
def fraction (nano : ℕ) : List Char :=
  if nano = 0 then []
  else if nano % 1000000 = 0 then '.' :: digits 3 (nano / 1000000)
  else if nano % 1000 = 0 then '.' :: digits 6 (nano / 1000)
  else '.' :: digits 9 nano

/-- The text of a civil time in UTC. -/
def text (t : CivilTime) : List Char :=
  digits 4 t.year.toNat ++ '-' :: (digits 2 t.month ++ '-' :: (digits 2 t.day ++ 'T' ::
    (digits 2 t.hour ++ ':' :: (digits 2 t.minute ++ ':' :: (digits 2 t.second ++
      (fraction t.nano ++ ['+', '0', '0', ':', '0', '0']))))))

/-- The order of texts by their characters. -/
def cmpText (s t : List Char) : Ordering := s.compareLex cmp t

/-! ## Digits -/

@[simp] theorem length_digits (w n : ℕ) : (digits w n).length = w := by
  induction w generalizing n with
  | zero => rfl
  | succ w ih => rw [digits, List.length_append, ih, List.length_singleton]

theorem cmp_digitChar {a b : ℕ} (ha : a < 10) (hb : b < 10) :
    cmp a.digitChar b.digitChar = cmp a b := by
  have hall : ∀ a < 10, ∀ b < 10, cmp a.digitChar b.digitChar = cmp a b := by decide
  exact hall a ha b hb

/-- Numbers of the same width are in the order of their digits. -/
theorem cmp_digits {w n m : ℕ} (hn : n < 10 ^ w) (hm : m < 10 ^ w) :
    cmpText (digits w n) (digits w m) = cmp n m := by
  induction w generalizing n m with
  | zero =>
    rw [Nat.lt_one_iff.mp hn, Nat.lt_one_iff.mp hm]
    rfl
  | succ w ih =>
    have hdiv {n : ℕ} (hn : n < 10 ^ (w + 1)) : n / 10 < 10 ^ w :=
      Nat.div_lt_of_lt_mul (by rwa [Nat.pow_succ'] at hn)
    have hmod (n : ℕ) : n % 10 < 10 := Nat.mod_lt n (by decide)
    have hlast : cmpText [(n % 10).digitChar] [(m % 10).digitChar] = cmp (n % 10) (m % 10) := by
      rw [cmpText, List.compareLex_cons_cons, cmp_digitChar (hmod n) (hmod m)]
      exact Ordering.then_eq
    -- The last digits decide only where the leading ones are the same.
    rw [Nat.cmp_div_mod (b := 10) n m, ← ih (hdiv hn) (hdiv hm), ← hlast]
    exact List.compareLex_append (by rw [length_digits, length_digits]) _ _

/-- Longer numbers begin with the digits of their quotients. -/
theorem digits_add (v w n : ℕ) : digits (v + w) n = digits v (n / 10 ^ w) ++ digits w n := by
  induction w generalizing n with
  | zero => simp [digits]
  | succ w ih =>
    rw [← Nat.add_assoc, digits, digits, ih, Nat.div_div_eq_div_mul, ← Nat.pow_succ',
      List.append_assoc]

theorem digits_mod (w n : ℕ) : digits w (n % 10 ^ w) = digits w n := by
  induction w generalizing n with
  | zero => rfl
  | succ w ih =>
    have hdiv : n % 10 ^ (w + 1) / 10 = n / 10 % 10 ^ w := by
      rw [Nat.pow_succ', Nat.mod_mul_right_div_self]
    have hmod : n % 10 ^ (w + 1) % 10 = n % 10 :=
      Nat.mod_mod_of_dvd n (Dvd.intro_left (10 ^ w) rfl)
    rw [digits, digits, hdiv, hmod, ih]

theorem exists_digit_of_mem {w n : ℕ} {c : Char} (h : c ∈ digits w n) :
    ∃ d < 10, d.digitChar = c := by
  induction w generalizing n with
  | zero => cases h
  | succ w ih =>
    rw [digits, List.mem_append, List.mem_singleton] at h
    rcases h with h | rfl
    · exact ih h
    · exact ⟨n % 10, Nat.mod_lt n (by decide), rfl⟩

/-- In ASCII, the sign of the offset comes before the digits. -/
theorem exists_digits_eq_cons (w n : ℕ) : ∃ c rest, digits (w + 1) n = c :: rest ∧ '+' < c := by
  have hdigits : ∀ d < 10, '+' < d.digitChar := by decide
  have hlength := length_digits (w + 1) n
  rcases heq : digits (w + 1) n with _ | ⟨c, rest⟩
  · rw [heq] at hlength
    cases hlength
  · obtain ⟨d, hd, rfl⟩ := exists_digit_of_mem (heq ▸ List.mem_cons_self)
    exact ⟨_, rest, rfl, hdigits d hd⟩

/-! ## Fractions -/

/-- Groups of three digits, as many as it takes until nothing is left. -/
def groups : ℕ → ℕ → List Char
  | 0, _ => []
  | k + 1, n => if n = 0 then [] else digits 3 (n / 1000 ^ k) ++ groups k (n % 1000 ^ k)

/-- A fraction shows the groups of its digits. -/
theorem fraction_eq (nano : ℕ) :
    fraction nano = if nano = 0 then [] else '.' :: groups 3 nano := by
  -- The groups of a remainder are the last groups of the number.
  have hmiddle : digits 3 (nano % 1000000 / 1000) = digits 3 (nano / 1000) := by
    have hmod : nano % 1000000 / 1000 = nano / 1000 % 1000 := by omega
    rw [hmod]
    exact digits_mod 3 (nano / 1000)
  have hlast : digits 3 (nano % 1000000 % 1000) = digits 3 nano := by
    have hmod : nano % 1000000 % 1000 = nano % 1000 := by omega
    rw [hmod]
    exact digits_mod 3 nano
  have hsix (n : ℕ) : digits 6 n = digits 3 (n / 1000) ++ digits 3 n := digits_add 3 3 n
  have hnine : digits 9 nano = digits 3 (nano / 1000000) ++ digits 6 nano := digits_add 3 6 nano
  by_cases hzero : nano = 0
  · rw [fraction, if_pos hzero, if_pos hzero]
  have hgroups : groups 3 nano = digits 3 (nano / 1000000) ++
      if nano % 1000000 = 0 then [] else digits 3 (nano % 1000000 / 1000) ++
        if nano % 1000000 % 1000 = 0 then [] else digits 3 (nano % 1000000 % 1000) := by
    simp [groups, hzero]
  rw [fraction, if_neg hzero, if_neg hzero, hgroups, hmiddle, hlast]
  by_cases hmilli : nano % 1000000 = 0
  · rw [if_pos hmilli, if_pos hmilli, List.append_nil]
  rw [if_neg hmilli, if_neg hmilli]
  by_cases hmicro : nano % 1000 = 0
  · have hmod : nano % 1000000 % 1000 = 0 := by omega
    rw [if_pos hmicro, if_pos hmod, List.append_nil, hsix, Nat.div_div_eq_div_mul]
  · have hmod : nano % 1000000 % 1000 ≠ 0 := by omega
    rw [if_neg hmicro, if_neg hmod, hnine, hsix]

theorem cmpText_self (s : List Char) : cmpText s s = .eq := by
  induction s with
  | nil => rfl
  | cons c s ih =>
    rw [cmpText, List.compareLex_cons_cons, cmp_self_eq_eq]
    exact ih

theorem cmpText_cons (c : Char) (s t : List Char) : cmpText (c :: s) (c :: t) = cmpText s t := by
  rw [cmpText, List.compareLex_cons_cons, cmp_self_eq_eq]
  rfl

theorem cmpText_append {xs ys : List Char} (hlength : xs.length = ys.length) (s t : List Char) :
    cmpText (xs ++ s) (ys ++ t) = (cmpText xs ys).then (cmpText s t) :=
  List.compareLex_append hlength s t

/-- Numbers are in the order of their groups if a sign follows. -/
theorem cmp_groups {k n m : ℕ} (hn : n < 1000 ^ k) (hm : m < 1000 ^ k) (s : List Char) :
    cmpText (groups k n ++ '+' :: s) (groups k m ++ '+' :: s) = cmp n m := by
  induction k generalizing n m with
  | zero =>
    rw [Nat.lt_one_iff.mp hn, Nat.lt_one_iff.mp hm, cmp_self_eq_eq]
    exact cmpText_self _
  | succ k ih =>
    rcases Nat.eq_zero_or_pos n with rfl | hnpos <;> rcases Nat.eq_zero_or_pos m with rfl | hmpos
    · rw [cmp_self_eq_eq]
      exact cmpText_self _
    · -- Where nothing is left, the sign is compared with a digit.
      obtain ⟨c, rest, heq, hc⟩ := exists_digits_eq_cons 2 (m / 1000 ^ k)
      rw [groups, groups, if_pos rfl, if_neg hmpos.ne', heq, hmpos.cmp_eq_lt, List.nil_append,
        List.cons_append, List.cons_append, cmpText, List.compareLex_cons_cons, hc.cmp_eq_lt]
      rfl
    · obtain ⟨c, rest, heq, hc⟩ := exists_digits_eq_cons 2 (n / 1000 ^ k)
      rw [groups, groups, if_pos rfl, if_neg hnpos.ne', heq, hnpos.cmp_eq_gt, List.nil_append,
        List.cons_append, List.cons_append, cmpText, List.compareLex_cons_cons, hc.cmp_eq_gt]
      rfl
    · have hdiv {n : ℕ} (hn : n < 1000 ^ (k + 1)) : n / 1000 ^ k < 10 ^ 3 :=
        Nat.div_lt_of_lt_mul (by rwa [Nat.pow_succ] at hn)
      have hmod (n : ℕ) : n % 1000 ^ k < 1000 ^ k := Nat.mod_lt n (Nat.pow_pos (by decide))
      rw [groups, groups, if_neg hnpos.ne', if_neg hmpos.ne', List.append_assoc,
        List.append_assoc, cmpText_append (by rw [length_digits, length_digits]),
        cmp_digits (hdiv hn) (hdiv hm), ih (hmod n) (hmod m), ← Nat.cmp_div_mod]

/-- **Fractions are in the order of their numbers if a sign follows.** -/
theorem cmp_fraction {n m : ℕ} (hn : n < 1000000000) (hm : m < 1000000000) (s : List Char) :
    cmpText (fraction n ++ '+' :: s) (fraction m ++ '+' :: s) = cmp n m := by
  have hsign : cmp '+' '.' = .lt := by decide
  have hpoint : cmp '.' '+' = .gt := by decide
  rw [fraction_eq, fraction_eq]
  rcases Nat.eq_zero_or_pos n with rfl | hnpos <;> rcases Nat.eq_zero_or_pos m with rfl | hmpos
  · rw [cmp_self_eq_eq]
    exact cmpText_self _
  · -- Without a fraction, the sign is compared with the point of the other one.
    rw [if_pos rfl, if_neg hmpos.ne', hmpos.cmp_eq_lt]
    rw [List.nil_append, List.cons_append, cmpText, List.compareLex_cons_cons, hsign]
    rfl
  · rw [if_pos rfl, if_neg hnpos.ne', hnpos.cmp_eq_gt]
    rw [List.nil_append, List.cons_append, cmpText, List.compareLex_cons_cons, hpoint]
    rfl
  · rw [if_neg hnpos.ne', if_neg hmpos.ne', ← cmp_groups (k := 3) hn hm s]
    rw [List.cons_append, List.cons_append, cmpText_cons]

/-! ## Texts in order -/

/-- The year has four digits. -/
def HasFourDigits (y : ℤ) : Prop := 0 ≤ y ∧ y ≤ 9999

/-- A number of a fixed width decides before what follows it. -/
theorem cmp_digits_append {w n m : ℕ} (hn : n < 10 ^ w) (hm : m < 10 ^ w) (s t : List Char) :
    cmpText (digits w n ++ s) (digits w m ++ t) = (cmp n m).then (cmpText s t) := by
  rw [cmpText_append (by rw [length_digits, length_digits]), cmp_digits hn hm]

theorem day_lt (t : CivilTime) : t.day < 10 ^ 2 := by
  have hall : ∀ leap, ∀ month ≤ 12, daysInMonth leap month < 10 ^ 2 := by decide
  exact t.day_le.trans_lt (hall _ _ t.month_le)

/-- **The texts of civil times are in the order of their instants.** -/
theorem cmp_text {t u : CivilTime} (ht : HasFourDigits t.year) (hu : HasFourDigits u.year) :
    cmpText (text t) (text u) = cmp t.instant u.instant := by
  have hyear {y : ℤ} (hy : HasFourDigits y) : y.toNat < 10 ^ 4 := by
    have hle := hy.2
    omega
  have hcmp : cmp t.year.toNat u.year.toNat = cmp t.year u.year := by
    rw [← Nat.strictMono_cast (α := ℤ) |>.cmp_map_eq, Int.toNat_of_nonneg ht.1,
      Int.toNat_of_nonneg hu.1]
  have hmonth (t : CivilTime) : t.month < 10 ^ 2 := t.month_le.trans_lt (by decide)
  have hhour (t : CivilTime) : t.hour < 10 ^ 2 := t.hour_lt.trans (by decide)
  have hminute (t : CivilTime) : t.minute < 10 ^ 2 := t.minute_lt.trans (by decide)
  have hsecond (t : CivilTime) : t.second < 10 ^ 2 := t.second_lt.trans (by decide)
  rw [CivilTime.cmp_instant, ← hcmp, ← cmp_fraction t.nano_lt u.nano_lt ['0', '0', ':', '0', '0'],
    text, text, cmp_digits_append (hyear ht) (hyear hu), cmpText_cons,
    cmp_digits_append (hmonth t) (hmonth u), cmpText_cons,
    cmp_digits_append (day_lt t) (day_lt u), cmpText_cons,
    cmp_digits_append (hhour t) (hhour u), cmpText_cons,
    cmp_digits_append (hminute t) (hminute u), cmpText_cons,
    cmp_digits_append (hsecond t) (hsecond u)]

/-! ## Bytes in order -/

/-- The order of byte strings, as `memcmp` has it. -/
def cmpBytes (a b : List UInt8) : Ordering := a.compareLex (fun x y => cmp x.toNat y.toNat) b

/-- Texts in ASCII are in the order of their bytes. -/
theorem cmpBytes_encode {s t : List Char} (hs : ∀ c ∈ s, c.toNat < 128)
    (ht : ∀ c ∈ t, c.toNat < 128) :
    cmpBytes (Utf8.encode s) (Utf8.encode t) = cmpText s t := by
  have hmono : StrictMono Char.toNat := fun _ _ h => h
  have hbyte {c : Char} (hc : c.toNat < 128) : c.val.toUInt8.toNat = c.toNat := by
    have hval : c.val.toNat = c.toNat := rfl
    rw [UInt32.toNat_toUInt8, hval]
    omega
  rw [Utf8.encode_ascii hs, Utf8.encode_ascii ht, cmpBytes, cmpText]
  refine List.compareLex_map fun c hc d hd => ?_
  rw [hbyte (hs c hc), hbyte (ht d hd), hmono.cmp_map_eq]

theorem ascii_digits {w n : ℕ} : ∀ c ∈ digits w n, c.toNat < 128 := by
  have hall : ∀ d < 10, d.digitChar.toNat < 128 := by decide
  intro c hc
  obtain ⟨d, hd, rfl⟩ := exists_digit_of_mem hc
  exact hall d hd

theorem ascii_fraction (nano : ℕ) : ∀ c ∈ fraction nano, c.toNat < 128 := by
  have hpoint {w n : ℕ} : ∀ c ∈ '.' :: digits w n, c.toNat < 128 :=
    List.forall_mem_cons.mpr ⟨by decide, ascii_digits⟩
  unfold fraction
  split_ifs
  · simp
  · exact hpoint
  · exact hpoint
  · exact hpoint

theorem ascii_text (t : CivilTime) : ∀ c ∈ text t, c.toNat < 128 := by
  unfold text
  simp only [List.forall_mem_append, List.forall_mem_cons]
  refine ⟨ascii_digits, by decide, ascii_digits, by decide, ascii_digits, by decide, ascii_digits,
    by decide, ascii_digits, by decide, ascii_digits, ascii_fraction _, by simp⟩

/-- **The bytes of the texts are in the order of the instants.** -/
theorem cmpBytes_text {t u : CivilTime} (ht : HasFourDigits t.year) (hu : HasFourDigits u.year) :
    cmpBytes (Utf8.encode (text t)) (Utf8.encode (text u)) = cmp t.instant u.instant := by
  rw [cmpBytes_encode (ascii_text t) (ascii_text u), cmp_text ht hu]

end Rfc3339
