import Wfe.Library.Path

/-!
# Tar archives

An archive is a sequence of blocks of 512 bytes: a header for each entry, its data padded with
zeros, and blocks of zeros at the end. A header carries a checksum over all of its bytes, the bytes
of the checksum itself counted as blanks, which a reader verifies before it takes anything else
from the header. What a reader does is stated for the entries whose headers stand for themselves,
those of files and directories.

## Main definitions

* `Tar.Header`, `Tar.Header.checksum`, `Tar.Header.Verified`: headers
* `Tar.Header.AgreeOutsidePath`: headers that differ in the path only
* `Tar.Reader`, `Tar.Reader.Lawful`: a reader, and what it does with a block
* `Tar.plainReader`: a reader that takes every header for itself

## Main results

* `Tar.Header.AgreeOutsidePath.checksum`: what another path does to the checksum
* `Tar.plainReader_lawful`: the reader is lawful
-/

namespace Tar

/-! ## Headers -/

structure Header where
  bytes : List UInt8
  length_bytes : bytes.length = 512
deriving DecidableEq

/-- The sum of bytes. -/
def byteSum : List UInt8 → Nat
  | [] => 0
  | b :: bs => b.toNat + byteSum bs

theorem byteSum_append (bs bs' : List UInt8) : byteSum (bs ++ bs') = byteSum bs + byteSum bs' := by
  induction bs with
  | nil => exact (Nat.zero_add _).symm
  | cons b bs ih => rw [List.cons_append, byteSum, byteSum, ih, Nat.add_assoc]

/-- A number in octal digits, between blanks and up to a NUL. -/
def octal (field : List UInt8) : Option Nat :=
  let text := field.takeWhile (· != 0)
  let digits := ((text.dropWhile (· == 32)).reverse.dropWhile (· == 32)).reverse
  if digits ≠ [] ∧ digits.all fun b => 48 ≤ b && b ≤ 55 then
    some (digits.foldl (fun n b => n * 8 + (b.toNat - 48)) 0)
  else none

/-- A number, in base 256 where the first bit is set. -/
def number : List UInt8 → Option Nat
  | [] => none
  | b :: field =>
    if 128 ≤ b then some (field.foldl (fun n b => n * 256 + b.toNat) (b.toNat - 128))
    else octal (b :: field)

namespace Header

/-- `n` bytes of a header. -/
def field (h : Header) (start n : Nat) : List UInt8 := (h.bytes.drop start).take n

/-- The sum of all bytes, with blanks for those of the checksum. -/
def checksum (h : Header) : Nat :=
  byteSum (h.bytes.take 148) + 8 * 32 + byteSum (h.bytes.drop 156)

/-- The checksum that the header records. -/
def storedChecksum (h : Header) : Option Nat := octal (h.field 148 8)

/-- The size that the header records. -/
def size (h : Header) : Option Nat := number (h.field 124 12)

/-- The header records its checksum. -/
def Verified (h : Header) : Prop := h.storedChecksum = some h.checksum

instance (h : Header) : Decidable h.Verified :=
  inferInstanceAs (Decidable (h.storedChecksum = some h.checksum))

/-- The header of a file or a directory: type `0`, NUL or `5`. -/
def isPlain (h : Header) : Bool := h.field 156 1 ∈ [[48], [0], [53]]

/-- A block of zeros, which ends an archive. -/
def isZero (h : Header) : Bool := h.bytes.all (· == 0)

/-- The bytes of the path: the name, and the field before it in archives with one. -/
def pathSum (h : Header) : Nat := byteSum (h.field 0 100) + byteSum (h.field 345 155)

/-- A header of the ustar format with a part of the path in the field before the name. -/
def hasParent (h : Header) : Bool :=
  h.field 257 8 = [117, 115, 116, 97, 114, 0, 48, 48] ∧ h.field 345 1 ≠ [0]

/-- The headers differ in the bytes of the path only. -/
def AgreeOutsidePath (h h' : Header) : Prop :=
  h.field 100 245 = h'.field 100 245 ∧ h.field 500 12 = h'.field 500 12

variable {h h' : Header}

theorem field_field (h : Header) {start n i m : Nat} (him : i + m ≤ n) :
    ((h.field start n).drop i).take m = h.field (start + i) m := by
  unfold field
  rw [List.drop_take, List.take_take, List.drop_drop, Nat.min_eq_left (by omega)]

/-- A field between the name and the second part of the path is the same. -/
theorem AgreeOutsidePath.field (hagree : AgreeOutsidePath h h') {start n : Nat}
    (hstart : 100 ≤ start) (hend : start + n ≤ 345) : h.field start n = h'.field start n := by
  have hfield (h : Header) : h.field start n = ((h.field 100 245).drop (start - 100)).take n := by
    rw [field_field h (by omega), Nat.add_sub_cancel' hstart]
  rw [hfield h, hfield h', hagree.1]

theorem AgreeOutsidePath.size (hagree : AgreeOutsidePath h h') : h.size = h'.size :=
  congrArg number (hagree.field (by decide) (by decide))

theorem AgreeOutsidePath.storedChecksum (hagree : AgreeOutsidePath h h') :
    h.storedChecksum = h'.storedChecksum :=
  congrArg octal (hagree.field (by decide) (by decide))

theorem AgreeOutsidePath.isPlain (hagree : AgreeOutsidePath h h') : h.isPlain = h'.isPlain := by
  unfold Header.isPlain
  rw [hagree.field (by decide : 100 ≤ 156) (by decide : 156 + 1 ≤ 345)]

theorem checksum_split (h : Header) : h.checksum = h.pathSum +
    (byteSum (h.field 100 48) + 256 + byteSum (h.field 156 189) + byteSum (h.field 500 12)) := by
  have hstart : h.bytes.take 148 = h.field 0 100 ++ h.field 100 48 := by
    unfold field
    rw [List.drop_zero, ← List.take_add]
  have hend : h.bytes.drop 156 = h.field 156 189 ++ (h.field 345 155 ++ h.field 500 12) := by
    have hlast : h.field 500 12 = h.bytes.drop 500 :=
      List.take_of_length_le (by have hlength := h.length_bytes; rw [List.length_drop]; omega)
    have hdrop (i n : Nat) : h.field i n ++ h.bytes.drop (i + n) = h.bytes.drop i := by
      rw [field, ← List.drop_drop, List.take_append_drop]
    rw [hlast, hdrop 345 155, hdrop 156 189]
  rw [checksum, hstart, hend, byteSum_append, byteSum_append, byteSum_append, pathSum]
  omega

/-- **Another path in a valid header.** The header is still valid if and only if the bytes of the
path add up to the same. -/
theorem AgreeOutsidePath.verified_iff (hagree : AgreeOutsidePath h h') (hv : h.Verified) :
    h'.Verified ↔ h'.pathSum = h.pathSum := by
  rw [Verified, ← hagree.storedChecksum, hv, Option.some.injEq, checksum_split, checksum_split h',
    hagree.field (by decide : 100 ≤ 100) (by decide : 100 + 48 ≤ 345),
    hagree.field (by decide : 100 ≤ 156) (by decide : 156 + 189 ≤ 345), hagree.2]
  omega

/-- A header that records its checksum is no block of zeros. -/
theorem Verified.isZero (hv : h.Verified) : h.isZero = false := by
  by_contra hzero
  rw [Bool.not_eq_false, Header.isZero, List.all_eq_true] at hzero
  have hall : ∀ b ∈ h.field 148 8, b = 0 := fun b hb =>
    beq_iff_eq.mp (hzero b (List.mem_of_mem_drop (List.mem_of_mem_take hb)))
  have hlength : (h.field 148 8).length = 8 := by
    rw [Header.field, List.length_take, List.length_drop, h.length_bytes]
    rfl
  have hnone : h.storedChecksum = none := by
    rw [Header.storedChecksum, List.eq_replicate_of_mem hall, hlength]
    decide
  rw [Verified, hnone] at hv
  cases hv

end Header

/-! ## Readers -/

/-- An entry of an archive, as far as it could be read. -/
structure Entry where
  header : Header
  path : Except String UnixPath
  data : Except String (List UInt8)

/-- The size of data with its padding. -/
def padded (n : Nat) : Nat := (n + 511) / 512 * 512

def zeros (n : Nat) : List UInt8 := List.replicate n 0

/-- A header and data, padded to whole blocks. -/
def block (h : Header) (data : List UInt8) : List UInt8 :=
  h.bytes ++ data ++ zeros (padded data.length - data.length)

/-- The end of an archive. -/
def trailer : List UInt8 := zeros 1024

/-- A reader: what it yields for an archive, up to the first error, and how it reads a path from a
header. -/
structure Reader where
  entries : List UInt8 → List (Except String Entry)
  headerPath : Header → UnixPath

/-- What a reader that verifies checksums does with the first block of an archive. -/
structure Reader.Lawful (r : Reader) : Prop where
  zero : ∀ (h : Header) rest, h.isZero = true → r.entries (h.bytes ++ rest) = []
  mismatch : ∀ (h : Header) rest, h.isZero = false → ¬ h.Verified →
    ∃ e, r.entries (h.bytes ++ rest) = [.error e]
  noSize : ∀ (h : Header) rest, h.Verified → h.isPlain = true → h.size = none →
    ∃ e, .error e ∈ r.entries (h.bytes ++ rest)
  short : ∀ (h : Header) (rest : List UInt8) n, h.Verified → h.isPlain = true →
    h.size = some n → rest.length < n → ∃ e, .error e ∈ r.entries (h.bytes ++ rest)
  entry : ∀ (h : Header) (rest : List UInt8) n, h.Verified → h.isPlain = true →
    h.size = some n → n ≤ rest.length →
    ∃ items, r.entries (h.bytes ++ rest) =
        .ok ⟨h, .ok (r.headerPath h), .ok (rest.take n)⟩ :: items ∧
      (padded n ≤ rest.length → items = r.entries (rest.drop (padded n)))

theorem padded_ge (n : Nat) : n ≤ padded n := by
  unfold padded
  omega

/-- A block of zeros as a header. -/
def zeroHeader : Header := ⟨zeros 512, List.length_replicate⟩

theorem trailer_eq : trailer = zeroHeader.bytes ++ zeros 512 :=
  (List.replicate_append_replicate (n := 512) (m := 512)).symm

namespace Reader.Lawful

variable {r : Reader} (hr : r.Lawful) {h : Header} {data rest : List UInt8}
include hr

theorem entries_trailer : r.entries trailer = [] := by
  rw [trailer_eq]
  exact hr.zero _ _ (by decide +kernel)

/-- A valid header with the size of its data is read back, and the reader goes on behind it. -/
theorem entries_block (hv : h.Verified) (hplain : h.isPlain = true)
    (hsize : h.size = some data.length) : r.entries (block h data ++ rest) =
      .ok ⟨h, .ok (r.headerPath h), .ok data⟩ :: r.entries rest := by
  have hpadded := padded_ge data.length
  have heq : block h data ++ rest =
      h.bytes ++ (data ++ (zeros (padded data.length - data.length) ++ rest)) := by
    simp only [block, List.append_assoc]
  have hlength : (data ++ (zeros (padded data.length - data.length) ++ rest)).length =
      padded data.length + rest.length := by
    simp only [zeros, List.length_append, List.length_replicate]
    omega
  obtain ⟨items, hitems, hnext⟩ := hr.entry h
    (data ++ (zeros (padded data.length - data.length) ++ rest)) data.length hv hplain hsize
    (by omega)
  rw [heq, hitems, hnext (by omega), List.take_left, ← List.append_assoc, List.drop_left']
  simp only [zeros, List.length_append, List.length_replicate]
  omega

/-- A header is valid and has the size of its data if it is read back with the data, and nothing
behind it fails. -/
theorem of_entries_block (hplain : h.isPlain = true) {e : Entry}
    {items : List (Except String Entry)}
    (hitems : r.entries (block h data ++ rest) = .ok e :: items) (hdata : e.data = .ok data)
    (hok : ∀ x ∈ items, ∃ e, x = .ok e) : h.Verified ∧ h.size = some data.length := by
  have hnoError : ∀ message, .error message ∉ r.entries (block h data ++ rest) := by
    intro message hmem
    rw [hitems] at hmem
    rcases List.mem_cons.mp hmem with heq | hmem
    · cases heq
    · obtain ⟨e', heq⟩ := hok _ hmem
      cases heq
  have heq : block h data ++ rest =
      h.bytes ++ (data ++ zeros (padded data.length - data.length) ++ rest) := by
    simp only [block, List.append_assoc]
  rw [heq] at hitems hnoError
  generalize hrest : data ++ zeros (padded data.length - data.length) ++ rest = tail at *
  have hv : h.Verified := by
    by_contra hv
    cases hzero : h.isZero with
    | true =>
      rw [hr.zero h tail hzero] at hitems
      cases hitems
    | false =>
      obtain ⟨message, hmismatch⟩ := hr.mismatch h tail hzero hv
      rw [hmismatch] at hitems
      cases hitems
  refine ⟨hv, ?_⟩
  cases hsize : h.size with
  | none =>
    obtain ⟨message, hmem⟩ := hr.noSize h tail hv hplain hsize
    exact absurd hmem (hnoError message)
  | some n =>
    rcases Nat.lt_or_ge tail.length n with hlt | hge
    · obtain ⟨message, hmem⟩ := hr.short h tail n hv hplain hsize hlt
      exact absurd hmem (hnoError message)
    · obtain ⟨items', hitems', -⟩ := hr.entry h tail n hv hplain hsize hge
      rw [hitems'] at hitems
      obtain ⟨heq, -⟩ := List.cons.inj hitems
      cases heq
      cases hdata
      rw [List.length_take, Nat.min_eq_left hge]

end Reader.Lawful

/-! ## A plain reader -/

/-- Reads the entry of a header, and goes on with `next` behind it. -/
def readEntry (headerPath : Header → UnixPath) (next : List UInt8 → List (Except String Entry))
    (h : Header) (rest : List UInt8) : List (Except String Entry) :=
  if h.isZero then []
  else if h.Verified then
    match h.size with
    | none => [.error "numeric field was not a number"]
    | some n =>
      if rest.length < n then [.error "unexpected EOF during skip"]
      else .ok ⟨h, .ok (headerPath h), .ok (rest.take n)⟩ :: next (rest.drop (padded n))
  else [.error "archive header checksum mismatch"]

theorem readEntry_congr (headerPath : Header → UnixPath)
    {next next' : List UInt8 → List (Except String Entry)} (h : Header) {rest : List UInt8}
    (hnext : ∀ n, next (rest.drop n) = next' (rest.drop n)) :
    readEntry headerPath next h rest = readEntry headerPath next' h rest := by
  unfold readEntry
  simp only [hnext]

/-- Reads the entries of an archive, with fuel for its bytes. -/
def readFrom (headerPath : Header → UnixPath) : Nat → List UInt8 → List (Except String Entry)
  | 0, _ => []
  | fuel + 1, bs =>
    if bs = [] then []
    else if hlength : (bs.take 512).length = 512 then
      readEntry headerPath (readFrom headerPath fuel) ⟨bs.take 512, hlength⟩ (bs.drop 512)
    else [.error "failed to read entire block"]

/-- The path of a header without a field before the name. -/
def nameOf (h : Header) : UnixPath := (h.field 0 100).takeWhile (· != 0)

/-- A reader that takes every header for itself. -/
def plainReader : Reader where
  entries bs := readFrom nameOf (bs.length + 1) bs
  headerPath := nameOf

theorem readFrom_fuel (headerPath : Header → UnixPath) {fuel fuel' : Nat} {bs : List UInt8}
    (hfuel : bs.length < fuel) (hfuel' : bs.length < fuel') :
    readFrom headerPath fuel bs = readFrom headerPath fuel' bs := by
  induction fuel generalizing fuel' bs with
  | zero => omega
  | succ fuel ih =>
    obtain ⟨fuel', rfl⟩ : ∃ n, fuel' = n + 1 := ⟨fuel' - 1, by omega⟩
    unfold readFrom
    split_ifs with hnil hlength
    · rfl
    · apply readEntry_congr
      intro n
      rw [List.length_take] at hlength
      apply ih
      · rw [List.length_drop, List.length_drop]
        omega
      · rw [List.length_drop, List.length_drop]
        omega
    · rfl

/-- The plain reader on an archive that begins with the header `h`. -/
theorem plainReader_entries (h : Header) (rest : List UInt8) :
    plainReader.entries (h.bytes ++ rest) = readEntry nameOf plainReader.entries h rest := by
  have hne : h.bytes ++ rest ≠ [] := by
    intro hnil
    have hlength := congrArg List.length hnil
    rw [List.length_append, h.length_bytes, List.length_nil] at hlength
    omega
  have htake : (h.bytes ++ rest).take 512 = h.bytes := List.take_left' h.length_bytes
  have hdrop : (h.bytes ++ rest).drop 512 = rest := List.drop_left' h.length_bytes
  change readFrom nameOf (_ + 1) _ = _
  unfold readFrom
  rw [if_neg hne, dif_pos (by rw [htake]; exact h.length_bytes)]
  simp only [htake, hdrop]
  apply readEntry_congr
  intro n
  apply readFrom_fuel
  · rw [List.length_append, h.length_bytes, List.length_drop]
    omega
  · exact Nat.lt_succ_self _

theorem plainReader_lawful : plainReader.Lawful where
  zero h rest hzero := by
    rw [plainReader_entries, readEntry, if_pos hzero]
  mismatch h rest hzero hv := by
    rw [plainReader_entries, readEntry, if_neg (by rw [hzero]; exact Bool.false_ne_true),
      if_neg hv]
    exact ⟨_, rfl⟩
  noSize h rest hv _ hsize := by
    rw [plainReader_entries, readEntry, hv.isZero, if_neg Bool.false_ne_true,
      if_pos hv, hsize]
    exact ⟨_, List.mem_cons_self⟩
  short h rest n hv _ hsize hlt := by
    rw [plainReader_entries, readEntry, hv.isZero, if_neg Bool.false_ne_true,
      if_pos hv, hsize]
    dsimp only
    rw [if_pos hlt]
    exact ⟨_, List.mem_cons_self⟩
  entry h rest n hv _ hsize hle := by
    rw [plainReader_entries, readEntry, hv.isZero, if_neg Bool.false_ne_true,
      if_pos hv, hsize]
    dsimp only
    rw [if_neg (Nat.not_lt.mpr hle)]
    exact ⟨_, rfl, fun _ => rfl⟩

end Tar
