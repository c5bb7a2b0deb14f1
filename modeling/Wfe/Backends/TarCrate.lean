import Wfe.Library.TarHeaders

/-!
# The tar crate

The functions of the `tar` crate that artifact volumes call. They are parameters, with what the
crate documents about them: each setter writes its field and only that, `set_path` leaves out the
segments `.` of a path, and a reader verifies checksums.

## Main definitions

* `TarCrate`, `TarCrate.Documented`: the crate, and what it documents
* `TarCrate.stored`: the path that `set_path` stores
* `TarCrate.gnu`: a crate that writes the headers of GNU tar

## Main results

* `TarCrate.trail_stored`: a stored path has the components of the path
* `TarCrate.gnu_documented`: the crate does what is documented
-/

namespace Wfe

open Tar UnixPath

/-- The functions of the `tar` crate that are called. -/
structure TarCrate where
  /-- `Archive`, verifying checksums. -/
  reader : Reader
  /-- `Header::new_gnu`. -/
  newGnu : Header
  setPath : Header → UnixPath → Except String Header
  setSize : Header → Nat → Header
  setMode : Header → Nat → Header
  setCksum : Header → Header

namespace TarCrate

/-- The segments that make up a path in an archive. -/
def kept (segments : List (List UInt8)) : List (List UInt8) :=
  segments.filter fun s => s ≠ [] ∧ s ≠ [dot]

/-- The path that `set_path` stores: `.` and repeated separators are left out, a separator at the
end is not. -/
def stored (p : UnixPath) : UnixPath :=
  (if kept (segments p) = [] then [dot] else [sep].intercalate (kept (segments p))) ++
    if p.getLast? = some sep then [sep] else []

/-- What the crate documents: each setter writes its field, and only that. -/
structure Documented (crate : TarCrate) : Prop where
  lawful : crate.reader.Lawful
  headerPath_congr : ∀ h h' : Header, h.field 0 100 = h'.field 0 100 →
    h.field 257 243 = h'.field 257 243 → crate.reader.headerPath h = crate.reader.headerPath h'
  isPlain_newGnu : crate.newGnu.isPlain = true
  setPath_agree : ∀ h p h', crate.setPath h p = .ok h' → h.AgreeOutsidePath h'
  /-- The path that is set is read back without its `.`. A header that has a part of its path
  before the name can keep it. -/
  setPath_trail : ∀ h p h', h.hasParent = false → crate.setPath h p = .ok h' →
    (crate.reader.headerPath h').trail = p.trail
  setPath_newGnu : ∀ p h', crate.setPath crate.newGnu p = .ok h' →
    crate.reader.headerPath h' = stored p
  setSize_agree : ∀ (h : Header) n, n < 2 ^ 64 → h.AgreeOutside 124 12 (crate.setSize h n)
  setSize_size : ∀ (h : Header) n, n < 2 ^ 64 → (crate.setSize h n).size = some n
  setMode_agree : ∀ h : Header, h.AgreeOutside 100 8 (crate.setMode h 0o644)
  setCksum_agree : ∀ h : Header, h.AgreeOutside 148 8 (crate.setCksum h)
  setCksum_stored : ∀ h : Header, (crate.setCksum h).storedChecksum = some h.checksum

/-! ## Stored paths -/

theorem named_kept (l : List (List UInt8)) : named (kept l) = named l := by
  unfold kept named
  rw [List.filterMap_filter]
  congr 1
  funext s
  by_cases hs : s = [] ∨ s = [dot]
  · simp [Component.ofSegment, hs]
  · rw [if_pos (by simpa [not_or] using hs)]

theorem sep_notMem_kept {p : UnixPath} {s : List UInt8} (hs : s ∈ kept (segments p)) : sep ∉ s := by
  have hmem : s ∈ p.splitOn sep := List.mem_of_mem_filter hs
  exact List.notMem_of_mem_splitOn hmem

theorem segments_intercalate_kept {p : UnixPath} (hne : kept (segments p) ≠ []) :
    segments ([sep].intercalate (kept (segments p))) = kept (segments p) :=
  List.splitOn_intercalate sep (fun _ hs => sep_notMem_kept hs) hne

/-- Joined segments start with the first of them. -/
theorem exists_intercalate_cons (s : List UInt8) (l : List (List UInt8)) :
    ∃ rest, [sep].intercalate (s :: l) = s ++ rest := by
  cases l with
  | nil => exact ⟨[], by simp [List.intercalate]⟩
  | cons t l => exact ⟨sep :: [sep].intercalate (t :: l), by simp [List.intercalate]⟩

theorem isAbsolute_intercalate_kept {p : UnixPath} (hne : kept (segments p) ≠ []) :
    [sep].intercalate (kept (segments p)) ≠ [] ∧
      isAbsolute ([sep].intercalate (kept (segments p))) = false := by
  obtain ⟨s, l, hkept⟩ := List.exists_cons_of_ne_nil hne
  have hs : s ∈ kept (segments p) := hkept ▸ List.mem_cons_self
  have hsep := sep_notMem_kept hs
  obtain ⟨rest, hrest⟩ := exists_intercalate_cons s l
  rw [hkept, hrest]
  cases s with
  | nil => simp [kept] at hs
  | cons b s =>
    have hb : b ≠ sep := fun hb => hsep (hb ▸ List.mem_cons_self)
    exact ⟨List.cons_ne_nil _ _, by simpa [isAbsolute] using hb⟩

theorem named_eq_nil_of_kept {l : List (List UInt8)} (h : kept l = []) : named l = [] := by
  rw [← named_kept, h]
  rfl

/-- A stored path has the components of the path, but for those that are `.`. -/
theorem trail_stored {p : UnixPath} (hp : isAbsolute p = false) : (stored p).trail = p.trail := by
  have hbase : ∃ base, stored p = base ++ (if p.getLast? = some sep then [sep] else []) ∧
      base ≠ [] ∧ isAbsolute base = false ∧ named (segments base) = named (segments p) := by
    by_cases hkept : kept (segments p) = []
    · exact ⟨[dot], by rw [stored, if_pos hkept], by simp, rfl, (named_eq_nil_of_kept hkept).symm⟩
    · obtain ⟨hne, habsolute⟩ := isAbsolute_intercalate_kept hkept
      exact ⟨_, by rw [stored, if_neg hkept], hne, habsolute,
        by rw [segments_intercalate_kept hkept, named_kept]⟩
  obtain ⟨base, hstored, hne, habsolute, hnamed⟩ := hbase
  have hrelative : isAbsolute (stored p) = false := by
    rw [hstored, isAbsolute_append hne, habsolute]
  rw [trail_eq_named hrelative, trail_eq_named hp, hstored]
  split_ifs
  · -- The separator at the end adds an empty segment.
    rw [segments_append_sep, named_append, segments_nil, hnamed]
    exact List.append_nil _
  · rw [List.append_nil, hnamed]

/-! ## A crate -/

theorem length_withName (h : Header) {p : UnixPath} (hlength : p.length ≤ 100) :
    (p ++ zeros (100 - p.length) ++ h.bytes.drop 100).length = 512 := by
  simp only [zeros, List.length_append, List.length_replicate, List.length_drop, h.length_bytes]
  omega

/-- The header with another name. -/
def withName (h : Header) (p : UnixPath) (hlength : p.length ≤ 100) : Header :=
  ⟨p ++ zeros (100 - p.length) ++ h.bytes.drop 100, length_withName h hlength⟩

/-- Writes a name of up to 100 bytes. -/
def setName (h : Header) (p : UnixPath) : Except String Header :=
  if hp : p ≠ [] ∧ p.length ≤ 100 ∧ 0 ∉ p then .ok (withName h p hp.2.1)
  else .error "provided value is too long"

theorem setName_ok {h h' : Header} {p : UnixPath} (hset : setName h p = .ok h') :
    h.AgreeOutsidePath h' ∧ nameOf h' = p := by
  by_cases hp : p ≠ [] ∧ p.length ≤ 100 ∧ 0 ∉ p
  swap
  · rw [setName, dif_neg hp] at hset
    cases hset
  have hbytes : h'.bytes = p ++ zeros (100 - p.length) ++ h.bytes.drop 100 := by
    rw [setName, dif_pos hp] at hset
    cases hset
    rfl
  obtain ⟨-, hlength, hzero⟩ := hp
  have hname : (p ++ zeros (100 - p.length)).length = 100 := by
    rw [List.length_append, zeros, List.length_replicate]
    omega
  have hfield (start n : Nat) (hstart : 100 ≤ start) : h.field start n = h'.field start n := by
    have hdrop : (p ++ zeros (100 - p.length)).drop start = [] :=
      List.drop_of_length_le (by rw [hname]; exact hstart)
    rw [Header.field, Header.field, hbytes, List.drop_append, hname, hdrop, List.nil_append,
      List.drop_drop, Nat.add_sub_cancel' hstart]
  refine ⟨⟨hfield _ _ (by decide), hfield _ _ (by decide)⟩, ?_⟩
  unfold nameOf Header.field
  rw [List.drop_zero, hbytes, List.take_left' hname, List.takeWhile_append_of_pos]
  · have hzeros (k : Nat) : (zeros k).takeWhile (· != 0) = [] := by cases k <;> rfl
    rw [hzeros, List.append_nil]
  · intro b hb
    have hne : b ≠ 0 := fun h0 => hzero (h0 ▸ hb)
    simpa using hne

/-- What `new_gnu` makes: a modification time of zero, and the magic number and version. -/
def gnuHeader : Header :=
  ⟨zeros 136 ++ octalField 11 0 ++ zeros 109 ++ [117, 115, 116, 97, 114, 32, 32, 0] ++ zeros 247, by
    simp only [List.length_append, length_octalField (k := 11) (by decide : 0 < 8 ^ 11), zeros,
      List.length_replicate]
    rfl⟩

/-- A crate that takes names of up to 100 bytes. -/
def gnu : TarCrate where
  reader := plainReader
  newGnu := gnuHeader
  setPath h p :=
    if isAbsolute p || (segments p).any fun s => s = [dot, dot] then
      .error "paths in archives must be relative"
    else setName h (stored p)
  setSize h n := h.write 124 (numberField n)
  setMode h mode := h.write 100 (octalField 7 mode)
  setCksum h := h.write 148 (octalField 7 h.checksum)

theorem length_octalField_seven {n : Nat} (hn : n < 8 ^ 7) : (octalField 7 n).length = 8 :=
  length_octalField hn

theorem gnu_setPath {h : Header} {p : UnixPath} {h' : Header}
    (hset : gnu.setPath h p = .ok h') :
    isAbsolute p = false ∧ setName h (stored p) = .ok h' := by
  change (if _ then _ else _) = _ at hset
  split_ifs at hset with hrefused
  rw [Bool.or_eq_true, not_or, Bool.not_eq_true] at hrefused
  exact ⟨hrefused.1, hset⟩

theorem gnu_documented : gnu.Documented where
  lawful := plainReader_lawful
  headerPath_congr h h' hname _ := by
    change nameOf h = nameOf h'
    rw [nameOf, nameOf, hname]
  isPlain_newGnu := by decide +kernel
  setPath_agree _ _ _ hset := (setName_ok (gnu_setPath hset).2).1
  setPath_trail _ _ _ _ hset := by
    obtain ⟨hrelative, hname⟩ := gnu_setPath hset
    exact (congrArg trail (setName_ok hname).2).trans (trail_stored hrelative)
  setPath_newGnu _ _ hset := (setName_ok (gnu_setPath hset).2).2
  setSize_agree h n hn := by
    have hlength := length_numberField hn
    have hagree := h.agreeOutside_write
      (by rw [hlength]; decide : 124 + (numberField n).length ≤ 512)
    rwa [hlength] at hagree
  setSize_size h n hn := by
    have hlength := length_numberField hn
    have hfield := h.field_write (by rw [hlength]; decide : 124 + (numberField n).length ≤ 512)
    rw [hlength] at hfield
    exact (congrArg number hfield).trans (number_numberField hn)
  setMode_agree h := h.agreeOutside_write (by decide : 100 + (octalField 7 0o644).length ≤ 512)
  setCksum_agree h := by
    have hlength := length_octalField_seven h.checksum_lt
    have hagree := h.agreeOutside_write
      (by rw [hlength]; decide : 148 + (octalField 7 h.checksum).length ≤ 512)
    rwa [hlength] at hagree
  setCksum_stored h := by
    have hlength := length_octalField_seven h.checksum_lt
    have hfield := h.field_write
      (by rw [hlength]; decide : 148 + (octalField 7 h.checksum).length ≤ 512)
    rw [hlength] at hfield
    exact (congrArg octal hfield).trans (octal_octalField (by decide) h.checksum_lt)

end TarCrate

end Wfe
