import Mathlib.Data.List.Forall2
import Wfe.Backends.TarCrate
import Wfe.Library.Utf8
import Wfe.Models.Definition

/-!
# Repackaging an artifact under a prefix

`repackage_with_prefix` copies a compressed archive entry by entry. Each header is cloned and gets
the path under the prefix; the checksum, which covers the path too, is not set again. The archive
and compression libraries are parameters.

## Main definitions

* `Crates`, `Crates.Documented`: the `tar` and `flate2` crates
* `repackageWithPrefix`: `ArtifactVolume::repackage_with_prefix`
* `Placed`: an entry of the result is an original one under the prefix
* `Crates.Keeps`: the header of an entry stays valid under its new path

## Main results

* `Crates.Documented.keeps_iff`: when a valid header stays valid
* `repackage_reads_iff`: when the result can be read back
-/

namespace Wfe

namespace Repackaging

open Tar UnixPath

/-- The functions of the `tar` and `flate2` crates that are called. -/
structure Crates where
  tar : TarCrate
  /-- The entries that an `Archive` over a `GzDecoder` yields. -/
  gzEntries : List UInt8 → List (Except String Entry)
  /-- What a `GzEncoder` writes. -/
  gzip : List UInt8 → List UInt8

/-- What the crates document. -/
structure Crates.Documented (crates : Crates) : Prop where
  tar : crates.tar.Documented
  gzEntries_gzip : ∀ tar, crates.gzEntries (crates.gzip tar) = crates.tar.reader.entries tar

/-- The loop over the entries; `out` is what has been written. `Builder::append` writes the header
as it is. -/
def repackageEntries (crates : Crates) (pre : UnixPath) :
    List (Except String Entry) → List UInt8 → Except WfeError (List UInt8)
  | [], out => .ok out
  | .error e :: _, _ => .error (.stepExecution s!"failed to read tar entry: {e}")
  | .ok entry :: entries, out =>
    match entry.path with
    | .error e => .error (.stepExecution s!"invalid tar path: {e}")
    | .ok path =>
      if ¬ Utf8.Valid (pre.join path) then .error (.stepExecution "invalid utf-8 path")
      else
        match entry.data with
        | .error e => .error (.stepExecution s!"failed to read entry data: {e}")
        | .ok data =>
          match crates.tar.setPath entry.header (pre.join path) with
          | .error e => .error (.stepExecution s!"failed to set tar path: {e}")
          | .ok header => repackageEntries crates pre entries (out ++ block header data)

/-- `repackage_with_prefix`. -/
def repackageWithPrefix (crates : Crates) (artifacts : String → Option (List UInt8))
    (name : String) (pre : UnixPath) : Except WfeError (List UInt8) :=
  match artifacts name with
  | none => .error (.stepExecution s!"artifact '{name}' not in volume")
  | some bytes =>
    (repackageEntries crates pre (crates.gzEntries bytes) []).map fun out =>
      crates.gzip (out ++ trailer)

/-! ## What is written -/

/-- The second entry has the data and metadata of the first, and its path is under the prefix; an
archive does not keep the segments `.` of a path. -/
def Placed (pre : UnixPath) (x y : Except String Entry) : Prop :=
  ∃ e e' path path', x = .ok e ∧ y = .ok e' ∧ e'.data = e.data ∧
    e.header.AgreeOutsidePath e'.header ∧ e.path = .ok path ∧ e'.path = .ok path' ∧
    path'.trail = (pre.join path).trail

/-- The header on which the new path has been set is valid, it has the size of the data, and that
path is read from it. -/
def Crates.Keeps (crates : Crates) (pre : UnixPath) (e : Entry) : Prop :=
  ∀ path data h', e.path = .ok path → e.data = .ok data →
    crates.tar.setPath e.header (pre.join path) = .ok h' →
      h'.Verified ∧ e.header.size = some data.length ∧
        (crates.tar.reader.headerPath h').trail = (pre.join path).trail

/-- A valid header keeps valid exactly if the bytes of its path add up to the same as before. It has
the new path unless it had a part of its path before the name, which is kept where the new path fits
into the name. -/
theorem Crates.Documented.keeps_iff {crates : Crates} (hcrates : crates.Documented)
    (pre : UnixPath) {e : Entry} (hv : e.header.Verified) :
    crates.Keeps pre e ↔ ∀ path data h', e.path = .ok path → e.data = .ok data →
      crates.tar.setPath e.header (pre.join path) = .ok h' →
        h'.pathSum = e.header.pathSum ∧ e.header.size = some data.length ∧
          (e.header.hasParent = true →
            (crates.tar.reader.headerPath h').trail = (pre.join path).trail) := by
  constructor
  · intro h path data h' hpath hdata hset
    obtain ⟨hverified, hsize, htrail⟩ := h path data h' hpath hdata hset
    exact ⟨((hcrates.tar.setPath_agree _ _ _ hset).verified_iff hv).mp hverified, hsize,
      fun _ => htrail⟩
  · intro h path data h' hpath hdata hset
    obtain ⟨hsum, hsize, htrail⟩ := h path data h' hpath hdata hset
    refine ⟨((hcrates.tar.setPath_agree _ _ _ hset).verified_iff hv).mpr hsum, hsize, ?_⟩
    cases hparent : e.header.hasParent with
    | true => exact htrail hparent
    | false => exact hcrates.tar.setPath_trail _ _ _ hparent hset

/-- An entry that has been written, with its new header. -/
structure Written where
  entry : Entry
  path : UnixPath
  data : List UInt8
  header : Header

/-- The blocks of an entry as written. -/
def Written.blocks (w : Written) : List UInt8 := block w.header w.data

/-- The entry has been written as the loop writes it. -/
structure Written.Copied (crates : Crates) (pre : UnixPath) (w : Written) : Prop where
  path : w.entry.path = .ok w.path
  data : w.entry.data = .ok w.data
  header : crates.tar.setPath w.entry.header (pre.join w.path) = .ok w.header

variable {crates : Crates} {pre : UnixPath}

/-- A loop that succeeds has copied all entries. -/
theorem repackageEntries_ok {entries : List (Except String Entry)} {out out' : List UInt8}
    (h : repackageEntries crates pre entries out = .ok out') :
    ∃ ws : List Written, entries = ws.map (fun w => .ok w.entry) ∧
      (∀ w ∈ ws, w.Copied crates pre) ∧ out' = out ++ ws.flatMap Written.blocks := by
  induction entries generalizing out with
  | nil =>
    cases h
    exact ⟨[], rfl, by simp, (List.append_nil _).symm⟩
  | cons x entries ih =>
    cases x with
    | error e => cases h
    | ok entry =>
      unfold repackageEntries at h
      cases hpath : entry.path with
      | error e =>
        rw [hpath] at h
        cases h
      | ok path =>
        simp only [hpath] at h
        split_ifs at h
        cases hdata : entry.data with
        | error e =>
          rw [hdata] at h
          cases h
        | ok data =>
          simp only [hdata] at h
          cases hheader : crates.tar.setPath entry.header (pre.join path) with
          | error e =>
            rw [hheader] at h
            cases h
          | ok header =>
            simp only [hheader] at h
            obtain ⟨ws, rfl, hcopied, rfl⟩ := ih h
            refine ⟨⟨entry, path, data, header⟩ :: ws, rfl, ?_, ?_⟩
            · exact List.forall_mem_cons.mpr ⟨⟨hpath, hdata, hheader⟩, hcopied⟩
            · rw [List.flatMap_cons, List.append_assoc]
              rfl

/-! ## What is read back -/

theorem Written.Copied.keeps_iff {w : Written} (hw : w.Copied crates pre)
    (hdoc : crates.Documented) : crates.Keeps pre w.entry ↔
      w.header.Verified ∧ w.header.size = some w.data.length ∧
        (crates.tar.reader.headerPath w.header).trail = (pre.join w.path).trail := by
  have hsize := (hdoc.tar.setPath_agree _ _ _ hw.header).size
  constructor
  · intro h
    rw [← hsize]
    exact h _ _ _ hw.path hw.data hw.header
  · rintro h path data h' hpath hdata hheader
    cases hw.path.symm.trans hpath
    cases hw.data.symm.trans hdata
    cases hw.header.symm.trans hheader
    rwa [hsize]

/-- An entry is placed under the prefix as far as its path is that of its new header. -/
theorem Written.Copied.placed_iff {w : Written} (hw : w.Copied crates pre)
    (hdoc : crates.Documented) : Placed pre (.ok w.entry)
        (.ok ⟨w.header, .ok (crates.tar.reader.headerPath w.header), .ok w.data⟩) ↔
      (crates.tar.reader.headerPath w.header).trail = (pre.join w.path).trail := by
  constructor
  · rintro ⟨_, _, path, path', ⟨⟩, ⟨⟩, -, -, hpath, ⟨⟩, htrail⟩
    cases hw.path.symm.trans hpath
    exact htrail
  · intro htrail
    exact ⟨_, _, _, _, rfl, rfl, hw.data.symm, hdoc.tar.setPath_agree _ _ _ hw.header, hw.path, rfl,
      htrail⟩

theorem ok_of_placed {xs ys : List (Except String Entry)} (h : List.Forall₂ (Placed pre) xs ys) :
    ∀ y ∈ ys, ∃ e, y = .ok e := by
  induction h with
  | nil => simp
  | cons hplaced _ ih =>
    obtain ⟨_, e, _, _, -, rfl, -⟩ := hplaced
    exact List.forall_mem_cons.mpr ⟨⟨e, rfl⟩, ih⟩

/-- The blocks of entries are read back as those entries, placed under the prefix, if and only if
every header keeps valid. -/
theorem placed_iff (hdoc : crates.Documented) {ws : List Written}
    (hcopied : ∀ w ∈ ws, w.Copied crates pre) (hplain : ∀ w ∈ ws, w.entry.header.isPlain = true) :
    List.Forall₂ (Placed pre) (ws.map fun w => .ok w.entry)
        (crates.tar.reader.entries (ws.flatMap Written.blocks ++ trailer)) ↔
      ∀ w ∈ ws, crates.Keeps pre w.entry := by
  induction ws with
  | nil =>
    rw [List.flatMap_nil, List.nil_append, hdoc.tar.lawful.entries_trailer]
    simp
  | cons w ws ih =>
    obtain ⟨hw, hcopied⟩ := List.forall_mem_cons.mp hcopied
    obtain ⟨hplainw, hplain⟩ := List.forall_mem_cons.mp hplain
    have hplain' : w.header.isPlain = true := by
      rw [← (hdoc.tar.setPath_agree _ _ _ hw.header).isPlain, hplainw]
    have ih := ih hcopied hplain
    rw [List.forall_mem_cons, hw.keeps_iff hdoc, List.flatMap_cons, List.append_assoc,
      List.map_cons]
    constructor
    · intro h
      obtain ⟨y, items, hplaced, htail, hitems⟩ := List.forall₂_cons_left_iff.mp h
      obtain ⟨e', rfl, hdata⟩ : ∃ e', y = .ok e' ∧ e'.data = .ok w.data := by
        obtain ⟨_, e', _, _, heq, rfl, hdata, -⟩ := hplaced
        cases heq
        exact ⟨e', rfl, hdata.trans hw.data⟩
      have hgood := hdoc.tar.lawful.of_entries_block hplain' hitems hdata (ok_of_placed htail)
      -- So the reader goes on behind the block.
      rw [Written.blocks, hdoc.tar.lawful.entries_block hgood.1 hplain' hgood.2] at hitems
      obtain ⟨heq, hrest⟩ := List.cons.inj hitems
      rw [← heq, hw.placed_iff hdoc] at hplaced
      refine ⟨⟨hgood.1, hgood.2, hplaced⟩, ih.mp ?_⟩
      rw [hrest]
      exact htail
    · rintro ⟨⟨hverified, hsize, htrail⟩, h⟩
      rw [Written.blocks, hdoc.tar.lawful.entries_block hverified hplain' hsize]
      exact .cons ((hw.placed_iff hdoc).mpr htrail) (ih.mpr h)

/-- **When a repackaged artifact can be read back.** For an artifact of files and directories that
is repackaged, the result reads, with its checksums verified, as the original entries under the
prefix, if and only if every header keeps valid under its new path, which is read from it, and has
the size of its data. -/
theorem repackage_reads_iff (crates : Crates) (hdoc : crates.Documented)
    (artifacts : String → Option (List UInt8)) (name : String) (pre : UnixPath)
    (bytes out : List UInt8) (hbytes : artifacts name = some bytes)
    (hplain : ∀ e, .ok e ∈ crates.gzEntries bytes → e.header.isPlain = true)
    (hout : repackageWithPrefix crates artifacts name pre = .ok out) :
    List.Forall₂ (Placed pre) (crates.gzEntries bytes) (crates.gzEntries out) ↔
      ∀ e, .ok e ∈ crates.gzEntries bytes → crates.Keeps pre e := by
  unfold repackageWithPrefix at hout
  simp only [hbytes] at hout
  cases hloop : repackageEntries crates pre (crates.gzEntries bytes) [] with
  | error e =>
    rw [hloop] at hout
    cases hout
  | ok written =>
    rw [hloop] at hout
    cases hout
    obtain ⟨ws, hentries, hcopied, rfl⟩ := repackageEntries_ok hloop
    rw [hentries] at hplain ⊢
    rw [hdoc.gzEntries_gzip, List.nil_append, placed_iff hdoc hcopied]
    · simp
    · intro w hw
      exact hplain w.entry (List.mem_map_of_mem hw)

/-! ## A file under a prefix -/

/-- The header of a file `hello.txt` of five bytes. -/
def helloHeader : Header :=
  ⟨[104, 101, 108, 108, 111, 46, 116, 120, 116] ++ zeros 91 ++
    [48, 48, 48, 48, 54, 52, 52, 0] ++ zeros 16 ++
    [48, 48, 48, 48, 48, 48, 48, 48, 48, 48, 53, 0] ++
    [48, 48, 48, 48, 48, 48, 48, 48, 48, 48, 48, 0] ++
    [48, 48, 48, 54, 50, 50, 52, 0] ++ zeros 101 ++
    [117, 115, 116, 97, 114, 32, 32, 0] ++ zeros 247, by decide +kernel⟩

/-- The file's content. -/
def world : List UInt8 := [119, 111, 114, 108, 100]

/-- The archive with the file. -/
def helloTar : List UInt8 := block helloHeader world ++ trailer

/-- The path `ws/hello.txt`. -/
def wsPath : UnixPath := [119, 115, 47, 104, 101, 108, 108, 111, 46, 116, 120, 116]

/-- The same header with that path. -/
def wsHeader : Header := TarCrate.withName helloHeader wsPath (by decide)

def wsTar : List UInt8 := block wsHeader world ++ trailer

/-- `helloTar` compressed. -/
def helloGz : List UInt8 := [31, 139, 8, 0, 0, 0, 0, 0, 0, 255, 203, 72, 205, 201, 201, 215, 43,
  169, 40, 97, 160, 29, 48, 0, 2, 51, 19, 19, 172, 226, 16, 96, 138, 196, 54, 0, 177, 205, 140,
  140, 48, 213, 211, 4, 148, 22, 151, 36, 22, 41, 40, 208, 199, 178, 193, 7, 202, 243, 139, 114,
  82, 6, 218, 17, 163, 96, 20, 140, 130, 81, 48, 10, 232, 14, 0, 122, 181, 103, 65, 0, 8, 0, 0]

/-- `wsTar` compressed. -/
def wsGz : List UInt8 := [31, 139, 8, 0, 0, 0, 0, 0, 0, 255, 43, 47, 214, 207, 72, 205, 201, 201,
  215, 43, 169, 40, 97, 160, 17, 48, 0, 2, 51, 19, 19, 172, 226, 16, 96, 138, 196, 54, 0, 177,
  205, 140, 140, 48, 213, 211, 4, 148, 22, 151, 36, 22, 41, 40, 208, 199, 178, 193, 7, 202, 243,
  139, 114, 82, 6, 218, 17, 163, 96, 20, 140, 130, 81, 48, 10, 232, 14, 0, 136, 161, 4, 210, 0, 8,
  0, 0]

/-- Decompression of the two archives, and of others marked by a zero. -/
def gunzipHello (bs : List UInt8) : List UInt8 :=
  if bs = helloGz then helloTar else if bs = wsGz then wsTar else bs.drop 1

def gzipHello (tar : List UInt8) : List UInt8 :=
  if tar = helloTar then helloGz else if tar = wsTar then wsGz else 0 :: tar

theorem gunzipHello_gzipHello (tar : List UInt8) : gunzipHello (gzipHello tar) = tar := by
  have hne : wsGz ≠ helloGz := by decide
  unfold gzipHello
  split_ifs with h h'
  · rw [gunzipHello, if_pos rfl, h]
  · rw [gunzipHello, if_neg hne, if_pos rfl, h']
  · rw [gunzipHello, if_neg, if_neg]
    · rfl
    · rintro ⟨⟩
    · rintro ⟨⟩

def helloCrates : Crates where
  tar := .gnu
  gzEntries bs := plainReader.entries (gunzipHello bs)
  gzip := gzipHello

theorem helloCrates_gzEntries (bs : List UInt8) :
    helloCrates.gzEntries bs = plainReader.entries (gunzipHello bs) := rfl

theorem helloCrates_documented : helloCrates.Documented where
  tar := TarCrate.gnu_documented
  gzEntries_gzip tar := congrArg plainReader.entries (gunzipHello_gzipHello tar)

theorem gunzipHello_helloGz : gunzipHello helloGz = helloTar := if_pos rfl

theorem gzEntries_helloGz : helloCrates.gzEntries helloGz =
    [.ok ⟨helloHeader, .ok (plainReader.headerPath helloHeader), .ok world⟩] := by
  rw [helloCrates_gzEntries, gunzipHello_helloGz, helloTar,
    plainReader_lawful.entries_block (by decide +kernel) (by decide +kernel) (by decide +kernel),
    plainReader_lawful.entries_trailer]

/-- Setting a path on the header of the file. -/
theorem setPath_hello (p name : UnixPath) {h' : Header}
    (hrelative : (isAbsolute p || (segments p).any fun s => s = [dot, dot]) = false)
    (hstored : TarCrate.stored p = name) (hset : TarCrate.setName helloHeader name = .ok h') :
    helloCrates.tar.setPath helloHeader p = .ok h' := by
  rw [← hstored] at hset
  exact (if_neg (by rw [hrelative]; exact Bool.false_ne_true)).trans hset

/-- What repackaging the file under another path gives. -/
theorem repackage_hello {pre p : UnixPath} {h' : Header}
    (hjoin : pre.join (plainReader.headerPath helloHeader) = p)
    (hvalid : Utf8.Valid p) (hset : helloCrates.tar.setPath helloHeader p = .ok h') :
    repackageWithPrefix helloCrates (fun _ => some helloGz) "src" pre =
      .ok (gzipHello (block h' world ++ trailer)) := by
  unfold repackageWithPrefix
  dsimp only
  rw [gzEntries_helloGz, repackageEntries]
  dsimp only
  rw [hjoin, if_neg (not_not_intro hvalid), hset]
  rfl

/-- A file `hello.txt` is repackaged under `ws`, and the result cannot be read: the checksum of its
header is that for the old path. -/
theorem repackage_hello_unreadable : ∃ (crates : Crates) (artifacts : String → Option (List UInt8))
    (pre : UnixPath) (bytes out : List UInt8), crates.Documented ∧ artifacts "src" = some bytes ∧
    (∀ e, .ok e ∈ crates.gzEntries bytes → e.header.Verified ∧ e.header.isPlain = true) ∧
    repackageWithPrefix crates artifacts "src" pre = .ok out ∧
    crates.gzEntries out = [.error "archive header checksum mismatch"] := by
  have hset : helloCrates.tar.setPath helloHeader wsPath = .ok wsHeader :=
    setPath_hello wsPath wsPath (by decide) (by decide) (dif_pos (by decide))
  have hjoin : join [119, 115] (plainReader.headerPath helloHeader) = wsPath := by decide
  have hzip : gzipHello wsTar = wsGz := by
    rw [gzipHello, if_neg (by decide), if_pos rfl]
  refine ⟨helloCrates, fun _ => some helloGz, [119, 115], helloGz, wsGz, helloCrates_documented,
    rfl, ?_, ?_, ?_⟩
  · intro e he
    rw [gzEntries_helloGz, List.mem_singleton] at he
    cases he
    decide +kernel
  · rw [repackage_hello hjoin (by decide) hset]
    exact congrArg Except.ok hzip
  · rw [helloCrates_gzEntries, ← hzip, gunzipHello_gzipHello, wsTar, block, List.append_assoc,
      List.append_assoc, plainReader_entries, readEntry, if_neg (by decide),
      if_neg (by decide +kernel)]

/-- Under the prefix `.`, the file is repackaged as it is. -/
theorem repackage_reads_hello :
    List.Forall₂ (Placed [dot]) (helloCrates.gzEntries helloGz)
      (helloCrates.gzEntries helloGz) := by
  have hname : TarCrate.withName helloHeader (plainReader.headerPath helloHeader) (by decide) =
      helloHeader := by decide +kernel
  have hset : helloCrates.tar.setPath helloHeader
      (join [dot] (plainReader.headerPath helloHeader)) = .ok helloHeader := by
    refine setPath_hello _ (plainReader.headerPath helloHeader) (by decide) (by decide) ?_
    rw [TarCrate.setName, dif_pos (by decide), hname]
  have hzip : gzipHello (block helloHeader world ++ trailer) = helloGz := if_pos rfl
  refine (repackage_reads_iff helloCrates helloCrates_documented (fun _ => some helloGz) "src"
    [dot] helloGz helloGz rfl ?_ ?_).mpr ?_
  · intro e he
    rw [gzEntries_helloGz, List.mem_singleton] at he
    cases he
    decide
  · rw [repackage_hello rfl (by decide) hset, hzip]
  · intro e he path data h' hpath hdata hheader
    rw [gzEntries_helloGz, List.mem_singleton] at he
    cases he
    cases hpath
    cases hdata
    cases hset.symm.trans hheader
    refine ⟨by decide +kernel, by decide +kernel, ?_⟩
    decide +kernel

end Repackaging

end Wfe
