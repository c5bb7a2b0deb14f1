import Mathlib.Data.Nat.Digits.Lemmas
import Wfe.Library.Tar

/-!
# Writing tar headers

A header is written field by field, and a field that is written leaves the others as they are.
Numbers stand in octal digits before a NUL or, where these are too few, in base 256 behind a byte
whose first bit is set; both are read back. A header that records the checksum of the header before
it is valid, since the checksum does not look at its own field.

## Main definitions

* `Tar.Header.AgreeOutside`: headers that differ in one field only
* `Tar.Header.write`: writes a field
* `Tar.octalDigits`, `Tar.octalField`, `Tar.numberField`: numbers as fields

## Main results

* `Tar.octal_octalField`, `Tar.number_numberField`: numbers are read back
* `Tar.Header.AgreeOutside.verified`: when a header is valid
-/

namespace Tar

namespace Header

/-! ## One field -/

/-- The headers differ in the `n` bytes from `start` on only. -/
def AgreeOutside (start n : Nat) (h h' : Header) : Prop :=
  h.bytes.take start = h'.bytes.take start ∧ h.bytes.drop (start + n) = h'.bytes.drop (start + n)

section AgreeOutside

variable {start n : Nat} {h h' : Header} (hagree : AgreeOutside start n h h')
include hagree

theorem AgreeOutside.field {i m : Nat} (hapart : i + m ≤ start ∨ start + n ≤ i) :
    h.field i m = h'.field i m := by
  rcases hapart with hbefore | hafter
  · have hfield (h : Header) : h.field i m = ((h.bytes.take start).drop i).take m := by
      rw [Header.field, List.drop_take, List.take_take, Nat.min_eq_left (by omega)]
    rw [hfield h, hfield h', hagree.1]
  · have hfield (h : Header) :
        h.field i m = ((h.bytes.drop (start + n)).drop (i - (start + n))).take m := by
      rw [Header.field, List.drop_drop, Nat.add_sub_cancel' hafter]
    rw [hfield h, hfield h', hagree.2]

theorem AgreeOutside.size (hapart : 136 ≤ start ∨ start + n ≤ 124) : h.size = h'.size :=
  congrArg number (hagree.field hapart)

theorem AgreeOutside.isPlain (hapart : 157 ≤ start ∨ start + n ≤ 156) :
    h.isPlain = h'.isPlain := by
  unfold Header.isPlain
  rw [hagree.field hapart]

end AgreeOutside

variable {h h' : Header}

/-- **The checksum does not look at its own field.** So a header is valid once the checksum that it
had before is written there. -/
theorem AgreeOutside.verified (hagree : AgreeOutside 148 8 h h')
    (hstored : h'.storedChecksum = some h.checksum) : h'.Verified := by
  rw [Verified, hstored, checksum, checksum, hagree.1, hagree.2]

/-- Writes bytes over those from `start` on, as far as there is room. -/
def write (h : Header) (start : Nat) (bs : List UInt8) : Header where
  bytes := h.bytes.take start ++ bs.take (512 - start) ++ h.bytes.drop (start + bs.length)
  length_bytes := by
    simp only [List.length_append, List.length_take, List.length_drop, h.length_bytes]
    omega

section Write

variable (h) {start : Nat} {bs : List UInt8} (hfits : start + bs.length ≤ 512)
include hfits

theorem bytes_write : (h.write start bs).bytes =
    h.bytes.take start ++ bs ++ h.bytes.drop (start + bs.length) := by
  change h.bytes.take start ++ bs.take (512 - start) ++ _ = _
  rw [List.take_of_length_le (Nat.le_sub_of_add_le' hfits)]

theorem length_take_bytes : (h.bytes.take start).length = start := by
  rw [List.length_take, h.length_bytes, Nat.min_eq_left (Nat.le_of_add_right_le hfits)]

theorem field_write : (h.write start bs).field start bs.length = bs := by
  rw [field, bytes_write h hfits, List.append_assoc, List.drop_left' (length_take_bytes h hfits),
    List.take_left]

theorem agreeOutside_write : AgreeOutside start bs.length h (h.write start bs) := by
  have hstart := length_take_bytes h hfits
  rw [AgreeOutside, bytes_write h hfits]
  constructor
  · rw [List.append_assoc, List.take_left' hstart]
  · rw [List.drop_left']
    rw [List.length_append, hstart]

end Write

theorem byteSum_le (bs : List UInt8) : byteSum bs ≤ 255 * bs.length := by
  induction bs with
  | nil => exact Nat.le_refl 0
  | cons b bs ih =>
    have hb : b.toNat < 256 := b.toNat_lt
    rw [byteSum, List.length_cons]
    omega

/-- A checksum has up to seven octal digits. -/
theorem checksum_lt (h : Header) : h.checksum < 8 ^ 7 := by
  have hstart := byteSum_le (h.bytes.take 148)
  have hend := byteSum_le (h.bytes.drop 156)
  rw [List.length_take, h.length_bytes] at hstart
  rw [List.length_drop, h.length_bytes] at hend
  rw [checksum]
  omega

end Header

/-! ## Numbers -/

/-- The digits of a number, the first one first. -/
def digits (b k n : Nat) : List Nat := (Nat.digitsAppend b k n).reverse

section Digits

variable {b k n : Nat} (hb : 1 < b)
include hb

theorem length_digits (hn : n < b ^ k) : (digits b k n).length = k := by
  rw [digits, List.length_reverse, Nat.length_digitsAppend hb k hn]

theorem lt_of_mem_digits {d : Nat} (hd : d ∈ digits b k n) : d < b :=
  Nat.lt_of_mem_digitsAppend hb k d (List.mem_reverse.mp hd)

theorem foldl_digits (hn : n < b ^ k) : (digits b k n).foldl (fun n d => n * b + d) 0 = n := by
  have hinv : Nat.ofDigits b (Nat.digitsAppend b k n) = n :=
    (Nat.setInvOn_digitsAppend_ofDigits hb k).2 hn
  rw [digits, List.foldl_reverse]
  conv_rhs => rw [← hinv, Nat.ofDigits_eq_foldr]
  congr 1
  funext d n
  rw [Nat.cast_id, Nat.add_comm, Nat.mul_comm]

end Digits

theorem toNat_octalDigit {d : Nat} (hd : d < 8) : (UInt8.ofNat (48 + d)).toNat = 48 + d :=
  UInt8.toNat_ofNat_of_lt' (show 48 + d < 256 by omega)

/-- The octal digits of a number as characters. -/
def octalDigits (k n : Nat) : List UInt8 := (digits 8 k n).map fun d => UInt8.ofNat (48 + d)

theorem length_octalDigits {k n : Nat} (hn : n < 8 ^ k) : (octalDigits k n).length = k := by
  rw [octalDigits, List.length_map, length_digits (by decide) hn]

theorem toNat_of_mem_octalDigits {k n : Nat} {b : UInt8} (hb : b ∈ octalDigits k n) :
    48 ≤ b.toNat ∧ b.toNat ≤ 55 := by
  obtain ⟨d, hd, rfl⟩ := List.mem_map.mp hb
  have hlt : d < 8 := lt_of_mem_digits (by decide) hd
  rw [toNat_octalDigit hlt]
  omega

/-- An octal digit is neither a blank nor a NUL. -/
theorem ne_of_mem_octalDigits {k n : Nat} {b c : UInt8} (hb : b ∈ octalDigits k n)
    (hc : c.toNat < 48) : b ≠ c := by
  rintro rfl
  exact absurd (toNat_of_mem_octalDigits hb).1 (Nat.not_le_of_lt hc)

theorem foldl_octalDigits {k n : Nat} (hn : n < 8 ^ k) :
    (octalDigits k n).foldl (fun n b => n * 8 + (b.toNat - 48)) 0 = n := by
  have hdigits : (digits 8 k n).foldl (fun n d => n * 8 + d) 0 = n := foldl_digits (by decide) hn
  rw [octalDigits, List.foldl_map]
  refine (List.foldl_ext _ _ _ ?_).trans hdigits
  intro m d hd
  have hlt : d < 8 := lt_of_mem_digits (by decide) hd
  rw [toNat_octalDigit hlt, Nat.add_sub_cancel_left]

/-- `k` octal digits and a NUL. -/
def octalField (k n : Nat) : List UInt8 := octalDigits k n ++ [0]

theorem length_octalField {k n : Nat} (hn : n < 8 ^ k) : (octalField k n).length = k + 1 := by
  rw [octalField, List.length_append, length_octalDigits hn]
  rfl

theorem dropWhile_of_forall {α : Type} {p : α → Bool} {l : List α} (h : ∀ a ∈ l, p a = false) :
    l.dropWhile p = l := by
  cases l with
  | nil => rfl
  | cons a l => exact List.dropWhile_cons_of_neg (by simp [h a List.mem_cons_self])

theorem octal_octalField {k n : Nat} (hk : 0 < k) (hn : n < 8 ^ k) :
    octal (octalField k n) = some n := by
  have htext : (octalField k n).takeWhile (· != 0) = octalDigits k n := by
    rw [octalField, List.takeWhile_append_of_pos]
    · simp
    · intro b hb
      exact bne_iff_ne.mpr (ne_of_mem_octalDigits hb (by decide))
  have hne : octalDigits k n ≠ [] := by
    rw [← List.length_pos_iff, length_octalDigits hn]
    exact hk
  have hblank : ∀ b ∈ octalDigits k n, (b == 32) = false := by
    intro b hb
    exact beq_eq_false_iff_ne.mpr (ne_of_mem_octalDigits hb (by decide))
  have hall : (octalDigits k n).all (fun b => 48 ≤ b && b ≤ 55) = true := by
    rw [List.all_eq_true]
    intro b hb
    simpa [UInt8.le_iff_toNat_le] using toNat_of_mem_octalDigits hb
  -- There are no blanks to strip, in front of the digits or behind them.
  unfold octal
  simp only [htext]
  rw [dropWhile_of_forall hblank, dropWhile_of_forall, List.reverse_reverse, if_pos ⟨hne, hall⟩,
    foldl_octalDigits hn]
  intro b hb
  exact hblank b (List.mem_reverse.mp hb)

/-- Eleven octal digits, or eight bytes in base 256. -/
def numberField (n : Nat) : List UInt8 :=
  if n < 8 ^ 11 then octalField 11 n
  else 128 :: zeros 3 ++ (digits 256 8 n).map UInt8.ofNat

theorem length_numberField {n : Nat} (hn : n < 2 ^ 64) : (numberField n).length = 12 := by
  unfold numberField
  split_ifs with hsmall
  · exact length_octalField hsmall
  · have hlength : (digits 256 8 n).length = 8 := length_digits (by decide) hn
    rw [List.length_append, List.length_map, hlength]
    rfl

/-- **Sizes are read back.** -/
theorem number_numberField {n : Nat} (hn : n < 2 ^ 64) : number (numberField n) = some n := by
  unfold numberField
  split_ifs with hsmall
  · -- The first digit does not have its first bit set.
    have hoctal := octal_octalField (by decide : 0 < 11) hsmall
    have hlength : (octalDigits 11 n).length = 11 := length_octalDigits hsmall
    obtain ⟨b, bs, hbs⟩ := List.exists_cons_of_length_eq_add_one hlength
    have hb := (toNat_of_mem_octalDigits (hbs ▸ List.mem_cons_self)).2
    rw [octalField, hbs, List.cons_append] at hoctal ⊢
    rw [number, if_neg, hoctal]
    rw [UInt8.le_iff_toNat_le]
    change ¬ 128 ≤ b.toNat
    omega
  · have hdigits : (digits 256 8 n).foldl (fun n d => n * 256 + d) 0 = n :=
      foldl_digits (by decide) hn
    have hfold : ((digits 256 8 n).map UInt8.ofNat).foldl (fun n b => n * 256 + b.toNat) 0 = n := by
      rw [List.foldl_map]
      refine (List.foldl_ext _ _ _ ?_).trans hdigits
      intro m d hd
      rw [UInt8.toNat_ofNat_of_lt' (lt_of_mem_digits (by decide) hd)]
    rw [List.cons_append, number, if_pos (by decide), List.foldl_append]
    exact congrArg some hfold

end Tar
