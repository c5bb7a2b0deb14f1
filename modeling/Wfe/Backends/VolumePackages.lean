import Wfe.Backends.TarCrate
import Wfe.Library.Table
import Wfe.Library.Utf8
import Wfe.Models.Definition

/-!
# Packages of artifact volumes

A volume is sent to another process as a tar archive with an entry `{name}.tar.gz` for each of its
artifacts, and unpacked there into a volume. The `tar` crate stores a path without its `.` and empty
segments, so an artifact comes back under another name if its own has such segments, and two
artifacts can come back under one name. The functions of the crate are parameters.

## Main definitions

* `Volume`, `Volume.insert`, `Volume.get`: `ArtifactVolume`
* `package`, `unpack`: `ArtifactVolume::package`, `ArtifactVolumePackage::unpack`
* `normal`, `Plain`: the name under which an artifact comes back, and when it is its own

## Main results

* `unpackEntries_packageEntries`: the entries of a package are unpacked under normal names
* `unpack_package`: what a package is unpacked to, and when that is the volume
-/

namespace Wfe

namespace Packages

open Tar UnixPath TarCrate

/-! ## Volumes -/

/-- The bytes of a string. -/
abbrev Name := {bs : List UInt8 // Utf8.Valid bs}

/-- `ArtifactVolume`: the map, in the order in which it is iterated. -/
structure Volume where
  artifacts : List (Name × List UInt8)
  nodup : (artifacts.map Prod.fst).Nodup

namespace Volume

/-- `HashMap::new`. -/
def empty : Volume := ⟨[], List.nodup_nil⟩

/-- `HashMap::insert`. -/
def insert (v : Volume) (a : Name × List UInt8) : Volume :=
  ⟨Table.put Prod.fst a v.artifacts, Table.nodup_put v.nodup⟩

/-- `ArtifactVolume::get`. -/
def get (v : Volume) (name : Name) : Option (List UInt8) :=
  (Table.get Prod.fst v.artifacts name).map Prod.snd

theorem get_empty (name : Name) : empty.get name = none := rfl

theorem get_insert (v : Volume) (a : Name × List UInt8) (name : Name) :
    (v.insert a).get name = if a.1 = name then some a.2 else v.get name := by
  unfold get insert
  rw [Table.get_put]
  split_ifs <;> rfl

theorem get_of_mem {v : Volume} {a : Name × List UInt8} (ha : a ∈ v.artifacts) :
    v.get a.1 = some a.2 := by
  rw [get, Table.get_of_mem v.nodup ha]
  rfl

end Volume

/-! ## The archive -/

/-- `.tar.gz`. -/
def suffix : List UInt8 := [46, 116, 97, 114, 46, 103, 122]

variable (crate : TarCrate)

/-- The header of an artifact. -/
def packageHeader (a : Name × List UInt8) : Except String Header :=
  (crate.setPath crate.newGnu (a.1.1 ++ suffix)).map fun header =>
    crate.setCksum (crate.setMode (crate.setSize header a.2.length) 0o644)

/-- The loop over the artifacts; `out` is what has been written. -/
def packageEntries : List (Name × List UInt8) → List UInt8 → Except WfeError (List UInt8)
  | [], out => .ok out
  | a :: artifacts, out =>
    match packageHeader crate a with
    | .error e => .error (.stepExecution s!"failed to set package path: {e}")
    | .ok header => packageEntries artifacts (out ++ block header a.2)

/-- `ArtifactVolume::package`. -/
def package (v : Volume) : Except WfeError (List UInt8) :=
  (packageEntries crate v.artifacts []).map (· ++ trailer)

theorem valid_append_suffix {bs : List UInt8} : Utf8.Valid (bs ++ suffix) ↔ Utf8.Valid bs := by
  rw [suffix, Utf8.valid_append_ascii (by decide)]
  exact and_iff_left (by decide)

/-- `to_str` and `strip_suffix`. -/
def entryName (path : UnixPath) : Option Name :=
  if h : Utf8.Valid path ∧ suffix <:+ path then
    some ⟨path.take (path.length - suffix.length), by
      rw [← valid_append_suffix, List.suffix_iff_eq_append.mp h.2]
      exact h.1⟩
  else none

/-- The loop over the entries of a package. -/
def unpackEntries : List (Except String Entry) → Volume → Except WfeError Volume
  | [], v => .ok v
  | .error e :: _, _ => .error (.stepExecution s!"failed to read package entry: {e}")
  | .ok entry :: entries, v =>
    match entry.path with
    | .error e => .error (.stepExecution s!"invalid package path: {e}")
    | .ok path =>
      match entryName path with
      | none => .error (.stepExecution "invalid package entry name")
      | some name =>
        match entry.data with
        | .error e => .error (.stepExecution s!"failed to read package entry: {e}")
        | .ok data => unpackEntries entries (v.insert (name, data))

/-- `ArtifactVolumePackage::unpack`. -/
def unpack (bytes : List UInt8) : Except WfeError Volume :=
  unpackEntries (crate.reader.entries bytes) .empty

/-! ## Names -/

/-- The last segment of a name. -/
def lastSegment (name : List UInt8) : List UInt8 :=
  (segments name).getLast (segments_ne_nil name)

/-- The segments of the name under which an artifact comes back. -/
def normalSegments (name : List UInt8) : List (List UInt8) :=
  kept (segments name).dropLast ++ [lastSegment name]

theorem mem_segments_of_mem_normalSegments {name s : List UInt8} (hs : s ∈ normalSegments name) :
    s ∈ segments name := by
  rcases List.mem_append.mp hs with hs | hs
  · exact List.mem_of_mem_dropLast (List.mem_of_mem_filter hs)
  · rw [List.mem_singleton.mp hs]
    exact List.getLast_mem _

theorem sep_notMem_normalSegments (name : List UInt8) : ∀ s ∈ normalSegments name, sep ∉ s := by
  intro s hs
  have hmem : s ∈ name.splitOn sep := mem_segments_of_mem_normalSegments hs
  exact List.notMem_of_mem_splitOn hmem

theorem valid_normal (name : Name) : Utf8.Valid ([sep].intercalate (normalSegments name.1)) := by
  have hvalid : Utf8.Valid ([sep].intercalate (segments name.1)) := by
    have heq : [sep].intercalate (segments name.1) = name.1 := List.intercalate_splitOn sep
    rw [heq]
    exact name.2
  rw [Utf8.valid_intercalate (by decide)] at hvalid ⊢
  intro s hs
  exact hvalid s (mem_segments_of_mem_normalSegments hs)

/-- The name under which an artifact comes back: without the empty segments and those `.` before
its last separator. -/
def normal (name : Name) : Name := ⟨[sep].intercalate (normalSegments name.1), valid_normal name⟩

/-- No segment before the last separator is empty or `.`. -/
def Plain (name : Name) : Prop := ∀ s ∈ (segments name.1).dropLast, s ≠ [] ∧ s ≠ [dot]

theorem segments_normal (name : Name) : segments (normal name).1 = normalSegments name.1 :=
  List.splitOn_intercalate sep (sep_notMem_normalSegments name.1)
    (List.append_ne_nil_of_right_ne_nil _ (List.cons_ne_nil _ _))

theorem normal_eq_iff (name : Name) : normal name = name ↔ Plain name := by
  have hsegments : segments name.1 = (segments name.1).dropLast ++ [lastSegment name.1] :=
    (List.dropLast_append_getLast _).symm
  constructor
  · intro h
    have heq := segments_normal name
    rw [h, hsegments, normalSegments] at heq
    have hkept := (List.append_inj_left' heq rfl).symm
    intro s hs
    simpa using List.filter_eq_self.mp hkept s hs
  · intro h
    apply Subtype.ext
    have hkept : kept (segments name.1).dropLast = (segments name.1).dropLast :=
      List.filter_eq_self.mpr fun s hs => by simpa using h s hs
    change [sep].intercalate (normalSegments name.1) = name.1
    rw [normalSegments, hkept, ← hsegments]
    exact List.intercalate_splitOn sep

/-- A normal name is its own normal name. -/
theorem normal_normal (name : Name) : normal (normal name) = normal name := by
  rw [normal_eq_iff]
  intro s hs
  rw [segments_normal, normalSegments, List.dropLast_concat] at hs
  simpa using (List.mem_filter.mp hs).2

/-- The path of an artifact's entry is stored with the normal name. -/
theorem stored_append_suffix (name : Name) :
    stored (name.1 ++ suffix) = (normal name).1 ++ suffix := by
  have hlast : lastSegment name.1 ++ suffix ≠ [] ∧ lastSegment name.1 ++ suffix ≠ [dot] := by
    constructor
    · exact List.append_ne_nil_of_right_ne_nil _ (List.cons_ne_nil _ _)
    · intro h
      have hlength := congrArg List.length h
      rw [List.length_append, suffix] at hlength
      simp at hlength
  have hkept : kept (segments (name.1 ++ suffix)) =
      kept (segments name.1).dropLast ++ [lastSegment name.1 ++ suffix] := by
    rw [segments_append (by decide), kept, List.filter_append]
    congr 1
    exact List.filter_eq_self.mpr fun s hs => by
      rw [List.mem_singleton.mp hs]
      exact decide_eq_true hlast
  have hend : (name.1 ++ suffix).getLast? = some 122 := by
    rw [List.getLast?_append]
    rfl
  rw [stored, hkept, if_neg (List.append_ne_nil_of_right_ne_nil _ (List.cons_ne_nil _ _)),
    hend, if_neg (by decide), List.append_nil, List.intercalate_concat_append]
  rfl

theorem entryName_append_suffix (name : Name) : entryName (name.1 ++ suffix) = some name := by
  have hlength : (name.1 ++ suffix).length - suffix.length = name.1.length := by
    rw [List.length_append, Nat.add_sub_cancel]
  rw [entryName, dif_pos ⟨valid_append_suffix.mpr name.2, List.suffix_append _ _⟩]
  congr 1
  apply Subtype.ext
  change (name.1 ++ suffix).take _ = name.1
  rw [hlength, List.take_left]

/-! ## Packages -/

variable {crate}

theorem headerPath_eq (hdoc : crate.Documented) {start n : Nat} {h h' : Header}
    (hagree : h.AgreeOutside start n h') (hstart : 100 ≤ start) (hend : start + n ≤ 257) :
    crate.reader.headerPath h = crate.reader.headerPath h' :=
  hdoc.headerPath_congr h h' (hagree.field (.inl hstart)) (hagree.field (.inr hend))

/-- The header of an artifact is valid, and its path has the normal name. -/
theorem packageHeader_ok (hdoc : crate.Documented) {a : Name × List UInt8}
    (hsize : a.2.length < 2 ^ 64) {header : Header} (h : packageHeader crate a = .ok header) :
    header.Verified ∧ header.isPlain = true ∧ header.size = some a.2.length ∧
      crate.reader.headerPath header = (normal a.1).1 ++ suffix := by
  unfold packageHeader at h
  cases hset : crate.setPath crate.newGnu (a.1.1 ++ suffix) with
  | error e =>
    rw [hset] at h
    cases h
  | ok h₀ =>
    rw [hset] at h
    cases h
    have hsized := hdoc.setSize_agree h₀ a.2.length hsize
    have hmode := hdoc.setMode_agree (crate.setSize h₀ a.2.length)
    have hcksum := hdoc.setCksum_agree (crate.setMode (crate.setSize h₀ a.2.length) 0o644)
    refine ⟨hcksum.verified (hdoc.setCksum_stored _), ?_, ?_, ?_⟩
    · rw [← hcksum.isPlain (.inr (by decide)), ← hmode.isPlain (.inr (by decide)),
        ← hsized.isPlain (.inr (by decide)), ← (hdoc.setPath_agree _ _ _ hset).isPlain,
        hdoc.isPlain_newGnu]
    · rw [← hcksum.size (.inl (by decide)), ← hmode.size (.inr (by decide)),
        hdoc.setSize_size h₀ _ hsize]
    · rw [← headerPath_eq hdoc hcksum (by decide) (by decide),
        ← headerPath_eq hdoc hmode (by decide) (by decide),
        ← headerPath_eq hdoc hsized (by decide) (by decide), hdoc.setPath_newGnu _ _ hset,
        stored_append_suffix]

/-- Inserts artifacts under their normal names. -/
def insertAll (artifacts : List (Name × List UInt8)) (v : Volume) : Volume :=
  artifacts.foldl (fun v a => v.insert (normal a.1, a.2)) v

/-- **The entries of a package.** What is written for artifacts is unpacked as these artifacts,
under their normal names, whatever follows. -/
theorem unpackEntries_packageEntries (hdoc : crate.Documented)
    {artifacts : List (Name × List UInt8)} (hsize : ∀ a ∈ artifacts, a.2.length < 2 ^ 64)
    {out out' : List UInt8} (h : packageEntries crate artifacts out = .ok out') :
    ∃ blocks, out' = out ++ blocks ∧ ∀ rest v,
      unpackEntries (crate.reader.entries (blocks ++ rest)) v =
        unpackEntries (crate.reader.entries rest) (insertAll artifacts v) := by
  induction artifacts generalizing out with
  | nil =>
    cases h
    exact ⟨[], (List.append_nil _).symm, fun rest v => rfl⟩
  | cons a artifacts ih =>
    obtain ⟨ha, hsize⟩ := List.forall_mem_cons.mp hsize
    unfold packageEntries at h
    cases hheader : packageHeader crate a with
    | error e =>
      rw [hheader] at h
      cases h
    | ok header =>
      simp only [hheader] at h
      obtain ⟨blocks, rfl, hread⟩ := ih hsize h
      obtain ⟨hverified, hplain, hlength, hpath⟩ := packageHeader_ok hdoc ha hheader
      refine ⟨block header a.2 ++ blocks, by rw [List.append_assoc], ?_⟩
      intro rest v
      rw [List.append_assoc, hdoc.lawful.entries_block hverified hplain hlength, unpackEntries]
      simp only [hpath, entryName_append_suffix]
      exact hread rest _

/-- Of the artifacts with one normal name, the last one counts. -/
theorem get_insertAll (artifacts : List (Name × List UInt8)) (v : Volume) (name : Name) :
    (insertAll artifacts v).get name =
      ((artifacts.reverse.find? fun a => normal a.1 = name).map Prod.snd).or (v.get name) := by
  induction artifacts generalizing v with
  | nil => rfl
  | cons a artifacts ih =>
    change (insertAll artifacts (v.insert (normal a.1, a.2))).get name = _
    rw [ih, Volume.get_insert, List.reverse_cons, List.find?_append, List.find?_singleton,
      Option.map_or, Option.or_assoc]
    congr 1
    by_cases ha : normal a.1 = name <;> simp [ha]

/-- **What a package is unpacked to.** The package of a volume can be unpacked, and each name has
the last artifact, in the order of the map, of which it is the normal name. That is the volume again
if and only if the names of all artifacts are plain. -/
theorem unpack_package (crate : TarCrate) (hdoc : crate.Documented) (v : Volume)
    (hsize : ∀ a ∈ v.artifacts, a.2.length < 2 ^ 64) (bytes : List UInt8)
    (h : package crate v = .ok bytes) : ∃ v', unpack crate bytes = .ok v' ∧
      (∀ name, v'.get name =
        (v.artifacts.reverse.find? fun a => normal a.1 = name).map Prod.snd) ∧
      ((∀ name, v'.get name = v.get name) ↔ ∀ a ∈ v.artifacts, Plain a.1) := by
  have hget (name : Name) : (insertAll v.artifacts .empty).get name =
      (v.artifacts.reverse.find? fun a => normal a.1 = name).map Prod.snd := by
    rw [get_insertAll, Volume.get_empty, Option.or_none]
  refine ⟨insertAll v.artifacts .empty, ?_, hget, ?_⟩
  · unfold package at h
    cases hloop : packageEntries crate v.artifacts [] with
    | error e =>
      rw [hloop] at h
      cases h
    | ok out =>
      rw [hloop] at h
      cases h
      obtain ⟨blocks, rfl, hread⟩ := unpackEntries_packageEntries hdoc hsize hloop
      rw [unpack]
      refine (hread trailer .empty).trans ?_
      rw [hdoc.lawful.entries_trailer]
      rfl
  · constructor
    · intro hsame a ha
      have hfound := (hget a.1).symm.trans ((hsame a.1).trans (Volume.get_of_mem ha))
      obtain ⟨b, hb, -⟩ := Option.map_eq_some_iff.mp hfound
      -- The name is the normal name of an artifact, so it is normal.
      have hnormal : normal b.1 = a.1 := by simpa using List.find?_some hb
      rw [← normal_eq_iff, ← hnormal, normal_normal]
    · intro hplain name
      rw [hget]
      cases hfind : v.artifacts.reverse.find? (fun a => normal a.1 = name) with
      | some a =>
        have ha := List.mem_reverse.mp (List.mem_of_find?_eq_some hfind)
        have hname : normal a.1 = name := by simpa using List.find?_some hfind
        rw [(normal_eq_iff a.1).mpr (hplain a ha)] at hname
        rw [← hname, Volume.get_of_mem ha]
        rfl
      | none =>
        have hnone : Table.get Prod.fst v.artifacts name = none := by
          rw [Table.get_eq_none]
          intro a ha hname
          have hne := List.find?_eq_none.mp hfind a (List.mem_reverse.mpr ha)
          rw [(normal_eq_iff a.1).mpr (hplain a ha)] at hne
          exact hne (decide_eq_true hname)
        rw [Volume.get, hnone]

/-! ## Two artifacts with one normal name -/

/-- `a//b`. -/
def doubled : Name := ⟨[97, 47, 47, 98], by decide⟩

/-- `a/b`. -/
def single : Name := ⟨[97, 47, 98], by decide⟩

/-- A volume with artifacts of both names. -/
def colliding : Volume := ⟨[(doubled, [1]), (single, [2])], by decide⟩

theorem packageHeader_gnu {a : Name × List UInt8}
    (hrelative : (isAbsolute (a.1.1 ++ suffix) ||
      (segments (a.1.1 ++ suffix)).any fun s => s = [dot, dot]) = false)
    (hname : stored (a.1.1 ++ suffix) ≠ [] ∧ (stored (a.1.1 ++ suffix)).length ≤ 100 ∧
      0 ∉ stored (a.1.1 ++ suffix)) : ∃ header, packageHeader gnu a = .ok header := by
  obtain ⟨h', hset⟩ : ∃ h', gnu.setPath gnu.newGnu (a.1.1 ++ suffix) = .ok h' :=
    ⟨_, (if_neg (by rw [hrelative]; exact Bool.false_ne_true)).trans (dif_pos hname)⟩
  unfold packageHeader
  rw [hset]
  exact ⟨_, rfl⟩

theorem package_colliding : ∃ bytes, package gnu colliding = .ok bytes := by
  obtain ⟨header, hheader⟩ : ∃ header, packageHeader gnu (doubled, [1]) = .ok header :=
    packageHeader_gnu (by decide) (by decide)
  obtain ⟨header', hheader'⟩ : ∃ header, packageHeader gnu (single, [2]) = .ok header :=
    packageHeader_gnu (by decide) (by decide)
  unfold package colliding
  simp only [packageEntries, hheader, hheader']
  exact ⟨_, rfl⟩

/-- Of two artifacts `a//b` and `a/b`, only the second comes back. -/
theorem unpack_package_colliding : ∃ bytes v', package gnu colliding = .ok bytes ∧
    unpack gnu bytes = .ok v' ∧ v'.get single = some [2] ∧ v'.get doubled = none := by
  obtain ⟨bytes, hbytes⟩ := package_colliding
  obtain ⟨v', hv', hget, -⟩ :=
    unpack_package gnu gnu_documented colliding (by decide) bytes hbytes
  exact ⟨bytes, v', hbytes, hv', (hget single).trans (by decide), (hget doubled).trans (by decide)⟩

end Packages

end Wfe
