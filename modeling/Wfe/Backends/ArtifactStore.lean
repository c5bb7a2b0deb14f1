import Mathlib.Data.List.Basic
import Mathlib.Logic.Function.Basic

/-!
# The local artifact store

Artifacts are stored under the digest of their content, and a second file beside each one says when
it expires. An artifact that is stored already is not stored again, so only the first `put` decides
when it expires; `get` and `exists` remove an artifact that they find expired.

## Main definitions

* `LocalArtifactStore.put`, `LocalArtifactStore.get`, `LocalArtifactStore.exists`: the calls
* `LocalArtifactStore.run`: calls made one after another
* `ArtifactFiles.Outlasts`: what is stored stays for as long as asked

## Main results

* `LocalArtifactStore.run_keeps`: what has not expired is kept
* `artifact_readable_iff`: when an artifact can be read back
-/

namespace Wfe

/-! ## The store -/

/-- Times are nanoseconds since the epoch. -/
structure ArtifactMeta where
  createdAt : Nat
  expiresAt : Option Nat
deriving DecidableEq, Repr

/-- A reference to an artifact. -/
structure ArtifactRef where
  digest : String
deriving DecidableEq, Repr

/-- The files of a store by their names: blobs in `blobs/sha256`, and their metadata in `meta`. -/
structure ArtifactFiles where
  blobs : String → Option (List UInt8)
  metas : String → Option ArtifactMeta

/-- The files of a new store. -/
def ArtifactFiles.empty : ArtifactFiles := ⟨fun _ => none, fun _ => none⟩

/-- Removes a blob and its metadata. -/
def ArtifactFiles.remove (files : ArtifactFiles) (name : String) : ArtifactFiles :=
  ⟨Function.update files.blobs name none, Function.update files.metas name none⟩

/-- `digest.strip_prefix("sha256:").unwrap_or(digest)`: the name of the blob; that of its metadata
has the ending `.json`. -/
def hashOf (digest : String) : String :=
  if "sha256:".toList.isPrefixOf digest.toList then
    String.ofList (digest.toList.drop "sha256:".toList.length)
  else digest

theorem hashOf_append (hash : String) : hashOf ("sha256:" ++ hash) = hash := by
  rw [hashOf, String.toList_append,
    if_pos (List.isPrefixOf_iff_prefix.mpr (List.prefix_append _ _)), List.drop_left,
    String.ofList_toList]

/-- The loop of `put`: what has been hashed, and what has been written. -/
def copyLoop : List (List UInt8) → List UInt8 → List UInt8 → List UInt8 × List UInt8
  | [], hashed, written => (hashed, written)
  | buf :: reads, hashed, written =>
    -- The reader is at its end.
    if buf.isEmpty then (hashed, written)
    else copyLoop reads (hashed ++ buf) (written ++ buf)

structure LocalArtifactStore where
  defaultExpiry : Option Nat

namespace LocalArtifactStore

/-- `gc_expired`: removes the artifact if it has expired. -/
def gcExpired (now : Nat) (digest : String) (files : ArtifactFiles) : Bool × ArtifactFiles :=
  match files.metas (hashOf digest) with
  | none => (false, files)
  | some found =>
    if found.expiresAt.any fun e => e < now then (true, files.remove (hashOf digest))
    else (false, files)

/-- `put`, with what the reader yields. The clock stands still during a call. -/
def put (sha256 : List UInt8 → String) (self : LocalArtifactStore) (now : Nat)
    (reads : List (List UInt8)) (files : ArtifactFiles) : ArtifactRef × ArtifactFiles :=
  let (hashed, written) := copyLoop reads [] []
  let digest := "sha256:" ++ sha256 hashed
  -- The metadata of a blob that exists is left as it is.
  if (files.blobs (hashOf digest)).isSome then (⟨digest⟩, files)
  else (⟨digest⟩,
    ⟨Function.update files.blobs (hashOf digest) (some written),
      Function.update files.metas (hashOf digest)
        (some ⟨now, self.defaultExpiry.map fun d => now + d⟩)⟩)

/-- `get`: the content of the artifact. -/
def get (now : Nat) (digest : String) (files : ArtifactFiles) :
    Option (List UInt8) × ArtifactFiles :=
  let (expired, files) := gcExpired now digest files
  if expired then (none, files) else (files.blobs (hashOf digest), files)

/-- `exists`. -/
def «exists» (now : Nat) (digest : String) (files : ArtifactFiles) : Bool × ArtifactFiles :=
  let (expired, files) := gcExpired now digest files
  if expired then (false, files) else ((files.blobs (hashOf digest)).isSome, files)

/-- A call of the store. -/
inductive Call
  | put (reads : List (List UInt8))
  | get (digest : String)
  | «exists» (digest : String)

/-- What a call at some time does to the files. -/
def perform (sha256 : List UInt8 → String) (self : LocalArtifactStore) (files : ArtifactFiles) :
    Nat × Call → ArtifactFiles
  | (now, .put reads) => (put sha256 self now reads files).2
  | (now, .get digest) => (get now digest files).2
  | (now, .exists digest) => (LocalArtifactStore.exists now digest files).2

/-- The files after some calls. -/
def run (sha256 : List UInt8 → String) (self : LocalArtifactStore) (calls : List (Nat × Call))
    (files : ArtifactFiles) : ArtifactFiles :=
  calls.foldl (perform sha256 self) files

end LocalArtifactStore

/-! ## Contents -/

/-- The data that a reader yields, up to its end. -/
def contents (reads : List (List UInt8)) : List UInt8 :=
  (reads.takeWhile fun buf => !buf.isEmpty).flatten

/-- What is written is what is hashed. -/
theorem copyLoop_eq (reads : List (List UInt8)) (hashed written : List UInt8) :
    copyLoop reads hashed written = (hashed ++ contents reads, written ++ contents reads) := by
  induction reads generalizing hashed written with
  | nil => simp [copyLoop, contents]
  | cons buf reads ih =>
    rw [copyLoop]
    split_ifs with hend
    · simp [contents, hend]
    · rw [ih]
      simp [contents, hend]

/-- Every blob has the hash of its content for a name. -/
def ArtifactFiles.Sound (sha256 : List UInt8 → String) (files : ArtifactFiles) : Prop :=
  ∀ name data, files.blobs name = some data → sha256 data = name

/-- If there is a blob with this name, it does not expire before `u`. -/
def ArtifactFiles.Outlasts (files : ArtifactFiles) (name : String) (u : Nat) : Prop :=
  (files.blobs name).isSome = true →
    ∀ found ∈ files.metas name, ∀ e ∈ found.expiresAt, u ≤ e

/-- There is a blob with this name and content, and it does not expire before `u`. -/
structure ArtifactFiles.Keeps (files : ArtifactFiles) (name : String) (data : List UInt8)
    (u : Nat) : Prop where
  blob : files.blobs name = some data
  lasts : ∀ found ∈ files.metas name, ∀ e ∈ found.expiresAt, u ≤ e

/-- Only the files with this name matter. -/
theorem ArtifactFiles.Keeps.frame {files files' : ArtifactFiles} {name : String}
    {data : List UInt8} {u : Nat} (h : files.Keeps name data u)
    (hblobs : files'.blobs name = files.blobs name)
    (hmetas : files'.metas name = files.metas name) : files'.Keeps name data u where
  blob := hblobs.trans h.blob
  lasts := hmetas ▸ h.lasts

namespace LocalArtifactStore

section Calls

variable {sha256 : List UInt8 → String} {self : LocalArtifactStore} {files : ArtifactFiles}
  {name digest : String} {data : List UInt8} {now u : Nat} {reads : List (List UInt8)}

/-- What `gc_expired` does. -/
theorem gcExpired_cases (now : Nat) (digest : String) (files : ArtifactFiles) :
    (gcExpired now digest files = (false, files) ∧
        ∀ found ∈ files.metas (hashOf digest), ∀ e ∈ found.expiresAt, now ≤ e) ∨
      (gcExpired now digest files = (true, files.remove (hashOf digest)) ∧
        ∃ found ∈ files.metas (hashOf digest), ∃ e ∈ found.expiresAt, e < now) := by
  unfold gcExpired
  cases hmeta : files.metas (hashOf digest) with
  | none => exact .inl ⟨rfl, by rintro found ⟨⟩⟩
  | some found =>
    dsimp only
    split_ifs with hexpired
    · refine .inr ⟨rfl, found, rfl, ?_⟩
      simpa [Option.any_eq_true] using hexpired
    · refine .inl ⟨rfl, ?_⟩
      rintro _ ⟨⟩ e he
      by_contra hlt
      refine hexpired ?_
      rw [Option.mem_def.mp he]
      simpa using hlt

/-- What `put` does. -/
theorem put_cases (sha256 : List UInt8 → String) (self : LocalArtifactStore) (now : Nat)
    (reads : List (List UInt8)) (files : ArtifactFiles) :
    (put sha256 self now reads files).1.digest = "sha256:" ++ sha256 (contents reads) ∧
      (((files.blobs (sha256 (contents reads))).isSome = true ∧
          (put sha256 self now reads files).2 = files) ∨
        (files.blobs (sha256 (contents reads)) = none ∧
          (put sha256 self now reads files).2 =
            ⟨Function.update files.blobs (sha256 (contents reads)) (some (contents reads)),
              Function.update files.metas (sha256 (contents reads))
                (some ⟨now, self.defaultExpiry.map fun d => now + d⟩)⟩)) := by
  unfold put
  rw [copyLoop_eq]
  simp only [List.nil_append, hashOf_append]
  split_ifs with hexists
  · exact ⟨rfl, .inl ⟨hexists, rfl⟩⟩
  · exact ⟨rfl, .inr ⟨Option.not_isSome_iff_eq_none.mp hexists, rfl⟩⟩

/-- All that `get` does to the files is done by `gc_expired`. -/
theorem get_files (now : Nat) (digest : String) (files : ArtifactFiles) :
    (get now digest files).2 = (gcExpired now digest files).2 := by
  unfold get
  rcases gcExpired now digest files with ⟨_ | _, files'⟩ <;> rfl

/-- And so it is with `exists`. -/
theorem exists_files (now : Nat) (digest : String) (files : ArtifactFiles) :
    (LocalArtifactStore.exists now digest files).2 = (gcExpired now digest files).2 := by
  unfold LocalArtifactStore.exists
  rcases gcExpired now digest files with ⟨_ | _, files'⟩ <;> rfl

/-- Before it has expired, a blob is kept by every call. -/
theorem perform_keeps (h : files.Keeps name data u) {call : Nat × Call} (hnow : call.1 ≤ u) :
    (perform sha256 self files call).Keeps name data u := by
  have hgc (now : Nat) (digest : String) (hnow : now ≤ u) :
      (gcExpired now digest files).2.Keeps name data u := by
    rcases gcExpired_cases now digest files with ⟨heq, -⟩ | ⟨heq, found, hfound, e, he, hlt⟩
    · rwa [heq]
    · rw [heq]
      -- The artifact that has expired is another one.
      have hne : name ≠ hashOf digest := by
        rintro rfl
        have hle := h.lasts found hfound e he
        omega
      exact h.frame (Function.update_of_ne hne ..) (Function.update_of_ne hne ..)
  obtain ⟨now, reads | digest | digest⟩ := call
  · rcases (put_cases sha256 self now reads files).2 with ⟨-, heq⟩ | ⟨hnone, heq⟩
    · rw [perform, heq]
      exact h
    · rw [perform, heq]
      have hne : name ≠ sha256 (contents reads) := by
        rintro rfl
        rw [h.blob] at hnone
        cases hnone
      exact h.frame (Function.update_of_ne hne ..) (Function.update_of_ne hne ..)
  · rw [perform, get_files]
    exact hgc now digest hnow
  · rw [perform, exists_files]
    exact hgc now digest hnow

/-- Before it has expired, a blob is kept. -/
theorem run_keeps {calls : List (Nat × Call)} (h : files.Keeps name data u)
    (hcalls : ∀ call ∈ calls, call.1 ≤ u) : (run sha256 self calls files).Keeps name data u := by
  induction calls generalizing files with
  | nil => exact h
  | cons call calls ih =>
    exact ih (perform_keeps h (hcalls call List.mem_cons_self))
      fun c hc => hcalls c (List.mem_cons_of_mem _ hc)

theorem perform_sound (h : files.Sound sha256) (call : Nat × Call) :
    (perform sha256 self files call).Sound sha256 := by
  have hgc (now : Nat) (digest : String) : (gcExpired now digest files).2.Sound sha256 := by
    rcases gcExpired_cases now digest files with ⟨heq, -⟩ | ⟨heq, -⟩
    · rwa [heq]
    · rw [heq]
      intro name data hdata
      by_cases hname : name = hashOf digest
      · subst hname
        simp [ArtifactFiles.remove] at hdata
      · refine h name data ?_
        simpa [ArtifactFiles.remove, hname] using hdata
  obtain ⟨now, reads | digest | digest⟩ := call
  · rcases (put_cases sha256 self now reads files).2 with ⟨-, heq⟩ | ⟨hnone, heq⟩
    · rw [perform, heq]
      exact h
    · rw [perform, heq]
      intro name data hdata
      by_cases hname : name = sha256 (contents reads)
      · subst hname
        obtain rfl : contents reads = data := by simpa using hdata
        rfl
      · refine h name data ?_
        simpa [hname] using hdata
  · rw [perform, get_files]
    exact hgc now digest
  · rw [perform, exists_files]
    exact hgc now digest

/-- Blobs have the hashes of their contents for names, all along. -/
theorem run_sound {calls : List (Nat × Call)} (h : files.Sound sha256) :
    (run sha256 self calls files).Sound sha256 := by
  induction calls generalizing files with
  | nil => exact h
  | cons call calls ih => exact ih (perform_sound h call)

/-- What has been put is kept for its period, unless it was there before and expires earlier. -/
theorem put_keeps (hsha256 : Function.Injective sha256) (hsound : files.Sound sha256) {d : Nat}
    (hd : self.defaultExpiry = some d)
    (houtlasts : files.Outlasts (sha256 (contents reads)) (now + d)) :
    (put sha256 self now reads files).2.Keeps (sha256 (contents reads)) (contents reads)
      (now + d) := by
  rcases (put_cases sha256 self now reads files).2 with ⟨hexists, heq⟩ | ⟨hnone, heq⟩
  · rw [heq]
    obtain ⟨data, hdata⟩ := Option.isSome_iff_exists.mp hexists
    -- It is the same content, for it has the same hash.
    obtain rfl := hsha256 (hsound _ data hdata)
    exact ⟨hdata, houtlasts hexists⟩
  · rw [heq]
    refine ⟨Function.update_self .., fun found hfound e he => ?_⟩
    obtain rfl : _ = found := by simpa using hfound
    obtain rfl : now + d = e := by simpa [hd] using he
    exact Nat.le_refl _

/-- What is kept can be read. -/
theorem get_of_keeps (h : files.Keeps (hashOf digest) data u) (hnow : now ≤ u) :
    (get now digest files).1 = some data := by
  rcases gcExpired_cases now digest files with ⟨heq, -⟩ | ⟨-, found, hfound, e, he, hlt⟩
  · rw [get, heq]
    exact h.blob
  · have hle := h.lasts found hfound e he
    omega

/-- What has expired cannot be read. -/
theorem get_of_expired {found : ArtifactMeta} {e : Nat}
    (hfound : files.metas (hashOf digest) = some found) (he : found.expiresAt = some e)
    (hlt : e < now) : (get now digest files).1 = none := by
  rcases gcExpired_cases now digest files with ⟨-, hlasts⟩ | ⟨heq, -⟩
  · have hle := hlasts found hfound e he
    omega
  · rw [get, heq]
    rfl

end Calls

end LocalArtifactStore

open LocalArtifactStore

/-- **When an artifact can be read back.** Let SHA-256 have no collisions, and let a store be used
by any calls at any times. What is put at the time `t`, with an expiry of `d`, can be read back at
any later time up to `t + d`, whatever calls are made in between, if and only if the same content is
not already stored with an earlier expiry. -/
theorem artifact_readable_iff (sha256 : List UInt8 → String) (hsha256 : Function.Injective sha256)
    (self : LocalArtifactStore) (d : Nat) (hd : self.defaultExpiry = some d)
    (files₀ : ArtifactFiles) (hsound : files₀.Sound sha256) (before : List (Nat × Call)) (t : Nat)
    (reads : List (List UInt8)) :
    (∀ (after : List (Nat × Call)) (now : Nat),
      (t :: after.map Prod.fst ++ [now]).Pairwise (· ≤ ·) → now ≤ t + d →
      (get now (put sha256 self t reads (run sha256 self before files₀)).1.digest
        (run sha256 self after (put sha256 self t reads (run sha256 self before files₀)).2)).1 =
        some (contents reads)) ↔
      (run sha256 self before files₀).Outlasts (sha256 (contents reads)) (t + d) := by
  have hsound' : (run sha256 self before files₀).Sound sha256 := run_sound hsound
  generalize run sha256 self before files₀ = files at hsound' ⊢
  obtain ⟨hdigest, hput⟩ := put_cases sha256 self t reads files
  rw [hdigest]
  constructor
  · intro hread hexists found hfound e he
    by_contra hlt
    -- One reads it as soon as it has expired.
    have hmeta : files.metas (hashOf ("sha256:" ++ sha256 (contents reads))) = some found := by
      rwa [hashOf_append]
    have hnone : (get (max t (e + 1)) ("sha256:" ++ sha256 (contents reads)) files).1 = none :=
      get_of_expired hmeta he (by omega)
    have hsome := hread [] (max t (e + 1)) (List.pairwise_pair.mpr (Nat.le_max_left ..))
      (by omega)
    rcases hput with ⟨-, heq⟩ | ⟨habsent, -⟩
    · rw [heq, run, List.foldl_nil, hnone] at hsome
      cases hsome
    · rw [habsent] at hexists
      cases hexists
  · intro houtlasts after now htimes hnow
    have hle : ∀ call ∈ after, call.1 ≤ t + d := by
      intro call hcall
      rw [List.cons_append, List.pairwise_cons, List.pairwise_append] at htimes
      have hcall := htimes.2.2.2 call.1 (List.mem_map_of_mem hcall) now (by simp)
      omega
    refine get_of_keeps (u := t + d) ?_ hnow
    rw [hashOf_append]
    exact run_keeps (put_keeps hsha256 hsound' hd houtlasts) hle

/-- A hash without collisions that agrees with SHA-256 on `abc`. -/
def abcSha256 (data : List UInt8) : String :=
  if data = [97, 98, 99] then "ba7816bf8f01cfea414140de5dae2223b00361a396177a9cb410ff61f20015ad"
  else String.ofList ('z' :: data.map fun b => Char.ofNat b.toNat)

theorem abcSha256_injective : Function.Injective abcSha256 := by
  have hbyte (n : Nat) (hn : n < 256) : (Char.ofNat n).toNat = n := by
    have hvalid : n.isValidChar := .inl (by omega)
    rw [Char.ofNat, dif_pos hvalid]
    rfl
  have hchar : Function.Injective fun b : UInt8 => Char.ofNat b.toNat := by
    intro b b' h
    have hnat := congrArg Char.toNat h
    simp only [hbyte _ (UInt8.toNat_lt _)] at hnat
    exact UInt8.toNat_inj.mp hnat
  intro a b h
  unfold abcSha256 at h
  split_ifs at h with ha hb hb
  · rw [ha, hb]
  · have hlist := congrArg String.toList h
    rw [String.toList_ofList] at hlist
    simp at hlist
  · have hlist := congrArg String.toList h
    rw [String.toList_ofList] at hlist
    simp at hlist
  · exact hchar.list_map (List.cons.inj (String.ofList_injective h)).2

/-- An artifact that is put again while it is stored can be read for as long as it was to stay at
first. -/
theorem artifact_readable_abc :
    (get 10 (put abcSha256 ⟨some 10⟩ 0 [[97, 98], [99]] .empty).1.digest
      (run abcSha256 ⟨some 10⟩ [(9, .put [[97, 98, 99]])]
        (put abcSha256 ⟨some 10⟩ 0 [[97, 98], [99]] .empty).2)).1 = some [97, 98, 99] :=
  (artifact_readable_iff abcSha256 abcSha256_injective ⟨some 10⟩ 10 rfl .empty
    (by rintro name data ⟨⟩) [] 0 [[97, 98], [99]]).mpr (by rintro ⟨⟩)
    [(9, .put [[97, 98, 99]])] 10 (by decide) (by decide)

/-- It cannot be read for as long as it was to stay when it was put again. -/
theorem artifact_removed_abc : Function.Injective abcSha256 ∧ ∃ files t now,
    files = run abcSha256 ⟨some 10⟩ [(0, .put [[97, 98, 99]])] .empty ∧ t ≤ now ∧ now ≤ t + 10 ∧
    (get now (put abcSha256 ⟨some 10⟩ t [[97, 98, 99]] files).1.digest
      (put abcSha256 ⟨some 10⟩ t [[97, 98, 99]] files).2).1 = none :=
  ⟨abcSha256_injective, _, 9, 12, rfl, by decide, by decide, by decide⟩

end Wfe
