import Mathlib.Data.Nat.Bitwise
import Mathlib.Tactic.Ring

/-!
# Doubles as bit patterns

IEEE 754 binary64 numbers by their bits, with the rounding of fractions to the nearest double, ties
to even.

## Main definitions

* `Binary64.ofRatio`: the double nearest to a fraction
* `Binary64.ofInt`: the double nearest to an integer
* `Binary64.isFinite`: neither an infinity nor a NaN
* `Binary64.scaled`: the value of a finite double, as an integer

## Main results

* `Binary64.scaled_ofInt`: integers up to `2 ^ 53` are doubles
-/

namespace Binary64

/-- The sign bit. -/
def signBit : UInt64 := 0x8000000000000000

/-- Positive infinity. -/
def infinity : UInt64 := 0x7FF0000000000000

/-- The quiet NaN that conversions yield. -/
def nan : UInt64 := 0x7FF8000000000000

/-- Neither an infinity nor a NaN: not all bits of the exponent are set. -/
def isFinite (bits : UInt64) : Bool := bits.toNat / 2 ^ 52 % 2048 ≠ 2047

/-- A quotient rounded to the nearest number, ties to even. -/
def roundHalfEven (num den : Nat) : Nat :=
  let q := num / den
  let r := num % den
  if 2 * r < den ∨ (2 * r = den ∧ q % 2 = 0) then q else q + 1

/-- The largest `e` with `2 ^ e ≤ num / den`, for positive numbers. -/
def exponentOf (num den : Nat) : Int :=
  let e : Int := num.log2 - den.log2
  if den * 2 ^ e.toNat ≤ num * 2 ^ (-e).toNat then e else e - 1

/-- The bits of the double nearest to `num / den`; what is too large is infinite. Numbers below
`2 ^ (-1022)` share the exponent of that number. -/
def ofRatio (num den : Nat) : UInt64 :=
  if num = 0 then 0
  else
    let e := max (exponentOf num den) (-1022)
    let unit := e - 52
    let significand := roundHalfEven (num * 2 ^ (-unit).toNat) (den * 2 ^ unit.toNat)
    let bits := (e + 1022).toNat * 2 ^ 52 + significand
    if bits < infinity.toNat then UInt64.ofNat bits else infinity

/-- `as f64` for an integer. -/
def ofInt (n : Int) : UInt64 :=
  if n < 0 then ofRatio n.natAbs 1 ||| signBit else ofRatio n.natAbs 1

example : ofRatio 1 10 = 0x3FB999999999999A ∧ ofRatio (2 ^ 53 + 1) 1 = ofRatio (2 ^ 53) 1 ∧
    ofInt (-3) = 0xC008000000000000 := by decide

/-! ## Values -/

/-- The value of a finite double in units of `2 ^ (-1074)`, the smallest positive one. -/
def scaled (bits : UInt64) : Int :=
  let frac := bits.toNat % 2 ^ 52
  let e := bits.toNat / 2 ^ 52 % 2048
  let magnitude : Nat := (if e = 0 then frac else 2 ^ 52 + frac) * 2 ^ (max e 1 - 1)
  if bits.toNat < 2 ^ 63 then magnitude else -magnitude

/-- A double is told by the fields of its bits. -/
theorem scaled_of_toNat {bits : UInt64} {sign e frac : Nat}
    (h : bits.toNat = sign * 2 ^ 63 + (e + 1) * 2 ^ 52 + frac) (hs : sign ≤ 1) (he : e + 1 < 2047)
    (hf : frac < 2 ^ 52) :
    isFinite bits ∧
      scaled bits = (if sign = 0 then 1 else -1) * ((2 ^ 52 + frac : Nat) * 2 ^ e : Nat) := by
  have hdiv : bits.toNat / 2 ^ 52 = sign * 2 ^ 11 + (e + 1) := by
    rw [h, Nat.div_eq_of_lt_le] <;> omega
  have hfrac : bits.toNat % 2 ^ 52 = frac := by omega
  have he' : bits.toNat / 2 ^ 52 % 2048 = e + 1 := by omega
  constructor
  · rw [isFinite, he', decide_eq_true_iff]
    omega
  · simp only [scaled, hfrac, he']
    rw [if_neg (Nat.succ_ne_zero e)]
    have hmax : max (e + 1) 1 - 1 = e := by omega
    rw [hmax]
    rcases Nat.le_one_iff_eq_zero_or_eq_one.1 hs with rfl | rfl
    · rw [if_pos (by omega), if_pos rfl, one_mul]
    · rw [if_neg (by omega), if_neg (by omega), neg_one_mul]

theorem roundHalfEven_one (n : Nat) : roundHalfEven n 1 = n := by
  simp [roundHalfEven, Nat.mod_one]

theorem exponentOf_one {n : Nat} (hn : n ≠ 0) : exponentOf n 1 = n.log2 := by
  have hle : 2 ^ n.log2 ≤ n := Nat.log2_self_le hn
  have : Nat.log2 1 = 0 := by decide
  simp [exponentOf, this, hle]

/-- A positive integer up to `2 ^ 53` is a double: its leading bit is the exponent, and the other
bits fit the fraction. -/
theorem ofRatio_one_toNat {n : Nat} (hn : n ≠ 0) (hle : n ≤ 2 ^ 53) :
    ∃ e frac, (ofRatio n 1).toNat = (e + 1) * 2 ^ 52 + frac ∧ e + 1 < 2047 ∧ frac < 2 ^ 52 ∧
      (2 ^ 52 + frac) * 2 ^ e = n * 2 ^ 1074 := by
  rcases Nat.lt_or_ge n (2 ^ 53) with hlt | hge
  · set k := n.log2 with hk
    have hlow : 2 ^ k ≤ n := Nat.log2_self_le hn
    have hhigh : n < 2 ^ (k + 1) := Nat.lt_log2_self
    have hk52 : k ≤ 52 := by
      by_contra h
      exact absurd (hlow.trans_lt hlt) (not_lt.2 (Nat.pow_le_pow_right (by decide) (by omega)))
    -- The significand is the number shifted until its leading bit has weight `2 ^ 52`.
    set sig := n * 2 ^ (52 - k) with hsig
    have hsigLow : 2 ^ 52 ≤ sig := by
      calc 2 ^ 52 = 2 ^ k * 2 ^ (52 - k) := by rw [← pow_add, Nat.add_sub_cancel' hk52]
        _ ≤ sig := Nat.mul_le_mul_right _ hlow
    have hsigHigh : sig < 2 ^ 53 := by
      calc sig < 2 ^ (k + 1) * 2 ^ (52 - k) := Nat.mul_lt_mul_of_pos_right hhigh (Nat.two_pow_pos _)
        _ = 2 ^ 53 := by rw [← pow_add, show k + 1 + (52 - k) = 53 by omega]
    refine ⟨k + 1022, sig - 2 ^ 52, ?_, by omega, by omega, ?_⟩
    · have hmax : max (exponentOf n 1) (-1022) = k := by rw [exponentOf_one hn]; omega
      have hunit : (-((k : Int) - 52)).toNat = 52 - k ∧ ((k : Int) - 52).toNat = 0 := by omega
      have hinf : infinity.toNat = 2047 * 2 ^ 52 := by decide
      rw [ofRatio, if_neg hn]
      simp only [hmax, hunit.1, hunit.2, pow_zero, mul_one, roundHalfEven_one, ← hsig, hinf]
      have he : ((k : Int) + 1022).toNat = k + 1022 := by omega
      rw [he, if_pos (by omega), UInt64.toNat_ofNat_of_lt' (by
        show _ < 2 ^ 64
        omega)]
      omega
    · calc (2 ^ 52 + (sig - 2 ^ 52)) * 2 ^ (k + 1022) = n * (2 ^ (52 - k) * 2 ^ (k + 1022)) := by
            rw [Nat.add_sub_cancel' hsigLow, hsig, mul_assoc]
        _ = n * 2 ^ 1074 := by rw [← pow_add, show 52 - k + (k + 1022) = 1074 by omega]
  · obtain rfl : n = 2 ^ 53 := le_antisymm hle hge
    exact ⟨1075, 0, by decide +kernel, by omega, by omega, by decide +kernel⟩

/-- **Integers up to `2 ^ 53` are doubles**: their conversion keeps the value. -/
theorem scaled_ofInt {n : Int} (hle : n.natAbs ≤ 2 ^ 53) :
    isFinite (ofInt n) ∧ scaled (ofInt n) = n * 2 ^ 1074 := by
  rcases eq_or_ne n 0 with rfl | hn
  · decide +kernel
  obtain ⟨e, frac, hbits, he, hf, hval⟩ := ofRatio_one_toNat (Int.natAbs_ne_zero.2 hn) hle
  rcases lt_or_ge n 0 with hneg | hpos
  · have hsign : (ofInt n).toNat = 1 * 2 ^ 63 + (e + 1) * 2 ^ 52 + frac := by
      have hbit : signBit.toNat = 2 ^ 63 := by decide
      have hlt : (ofRatio n.natAbs 1).toNat < 2 ^ 63 := by omega
      have hor := Nat.two_pow_add_eq_or_of_lt hlt 1
      rw [ofInt, if_pos hneg, UInt64.toNat_or, hbit, Nat.or_comm, ← mul_one (2 ^ 63), ← hor, hbits]
      omega
    obtain ⟨hfin, hs⟩ := scaled_of_toNat hsign (by decide) he hf
    refine ⟨hfin, ?_⟩
    rw [hs, hval, if_neg one_ne_zero, Nat.cast_mul, Int.ofNat_natAbs_of_nonpos hneg.le,
      Nat.cast_pow, Nat.cast_ofNat, neg_one_mul, neg_mul, neg_neg]
  · have hsign : (ofInt n).toNat = 0 * 2 ^ 63 + (e + 1) * 2 ^ 52 + frac := by
      rw [ofInt, if_neg (not_lt.2 hpos), hbits, zero_mul, zero_add]
    obtain ⟨hfin, hs⟩ := scaled_of_toNat hsign (by decide) he hf
    refine ⟨hfin, ?_⟩
    rw [hs, hval, if_pos rfl, Nat.cast_mul, Int.natAbs_of_nonneg hpos, one_mul,
      Nat.cast_pow, Nat.cast_ofNat]

end Binary64
