import Wfe.Library.Path
import Wfe.Library.Program
import Wfe.Models.Definition
import Wfe.Backends.ArtifactStore

/-!
# The files an artifact reference names

A step's artifacts are resolved from the workflow data: a value under `__wfe_artifact` is taken as
a digest, and `LocalArtifactStore::get` joins what follows `sha256:` to the store's directories. The
digest is not checked, so an absolute path replaces the directory and `..` leads out of it. The file
system is an interface here, since files come and go while a step is resolved.

## Main definitions

* `blobPath`, `metaPath`, `gcExpired`, `get`: the store
* `resolve`: `ArtifactVolume::resolve`
* `Contained`: a digest's hash names files directly inside the store

## Main results

* `inside_iff_contained`: both paths of a digest are inside exactly if its hash is contained
* `resolve_inside_iff`: when no run reads or deletes a file outside
-/

namespace Wfe

namespace ArtifactPaths

open UnixPath Program

/-- The bytes of a string, as a path. -/
def bytes (s : String) : UnixPath := s.toByteArray.data.toList

theorem bytes_append (s t : String) : bytes (s ++ t) = bytes s ++ bytes t := by
  rw [bytes, String.toByteArray_append, ByteArray.data_append, Array.toList_append]
  rfl

/-! ## The store -/

/-- The calls on the file system and the clock. `readToEnd` reads an open file. -/
inductive FileCall
  | exists (path : UnixPath)
  | read (path : UnixPath)
  | now
  | removeFile (path : UnixPath)
  | open (path : UnixPath)
  | readToEnd (path : UnixPath)
deriving DecidableEq, Repr

@[reducible] def FileCall.Reply : FileCall → Type
  | .exists _ => Bool
  | .read _ | .readToEnd _ => Except String (List UInt8)
  | .now => Nat
  | .removeFile _ | .open _ => Except String Unit

abbrev FileSystem : Interface := ⟨FileCall, FileCall.Reply⟩

/-- The file a call reads or deletes. -/
def FileCall.touches : FileCall → Option UnixPath
  | .exists _ | .now => none
  | .read path | .removeFile path | .open path | .readToEnd path => some path

abbrev perform (c : FileCall) : ExceptT WfeError (Program FileSystem) c.Reply :=
  ExceptT.lift (Program.perform (I := FileSystem) c)

def ioErr (ctx e : String) : WfeError := .other s!"artifact store io error ({ctx}): {e}"

/-- `map_err` and `?` on a reply. -/
def orElse {α : Type} (f : String → WfeError) : Except String α →
    ExceptT WfeError (Program FileSystem) α
  | .ok a => pure a
  | .error e => throw (f e)

def blobPath (root : UnixPath) (digest : String) : UnixPath :=
  (root.join (bytes "blobs/sha256")).join (bytes (hashOf digest))

def metaPath (root : UnixPath) (digest : String) : UnixPath :=
  (root.join (bytes "meta")).join (bytes (hashOf digest ++ ".json"))

/-- `gc_expired`; `fromSlice` parses the metadata. -/
def gcExpired (fromSlice : List UInt8 → Except String ArtifactMeta) (root : UnixPath)
    (digest : String) : ExceptT WfeError (Program FileSystem) Bool := do
  if !(← perform (.exists (metaPath root digest))) then return false
  let raw ← orElse (ioErr "read meta") (← perform (.read (metaPath root digest)))
  let found ← orElse .serialization (fromSlice raw)
  let expired ← match found.expiresAt with
    | some t => do pure (decide (t < (← perform .now)))
    | none => pure false
  if expired then
    let _ ← perform (.removeFile (blobPath root digest))
    let _ ← perform (.removeFile (metaPath root digest))
    return true
  return false

/-- `LocalArtifactStore::get`: the path of the file that is open for reading. -/
def get (fromSlice : List UInt8 → Except String ArtifactMeta) (root : UnixPath)
    (digest : String) : ExceptT WfeError (Program FileSystem) (Option UnixPath) := do
  if ← gcExpired fromSlice root digest then return none
  if !(← perform (.exists (blobPath root digest))) then return none
  orElse (ioErr "open blob") (← perform (.open (blobPath root digest)))
  return some (blobPath root digest)

/-! ## Resolving a step's artifacts -/

def artifactRefKey : String := "__wfe_artifact"

def parseArtifactRef (value : Json) : Option String :=
  (value.get artifactRefKey).bind Json.asStr

/-- The loop of `resolve` over the names of the inputs. -/
def resolveNames (fromSlice : List UInt8 → Except String ArtifactMeta) (root : UnixPath)
    (data : Object) : List String → List (String × List UInt8) →
    ExceptT WfeError (Program FileSystem) (List (String × List UInt8))
  | [], artifacts => pure artifacts
  | name :: names, artifacts =>
    match data.get name with
    | none => throw (.stepExecution s!"input '{name}' not found in workflow data")
    | some value =>
      match parseArtifactRef value with
      | none => throw (.stepExecution s!"input '{name}' is not an artifact reference")
      | some digest => do
        let reader ← (get fromSlice root digest).adapt fun e =>
          .stepExecution s!"failed to get artifact '{name}': {e.toString}"
        match reader with
        | none => throw (.stepExecution s!"artifact not found: {digest}")
        | some path =>
          let content ← orElse
            (fun e => .stepExecution s!"failed to read artifact '{name}': {e}")
            (← perform (.readToEnd path))
          resolveNames fromSlice root data names (artifacts ++ [(name, content)])

/-- `ArtifactVolume::resolve`: `inputs` maps names to mount points, in the order its keys are
iterated. -/
def resolve (fromSlice : List UInt8 → Except String ArtifactMeta) (root : UnixPath)
    (inputs : List (String × String)) (workflowData : Json) :
    ExceptT WfeError (Program FileSystem) (List (String × List UInt8)) :=
  match workflowData.asObject with
  | none => throw (.stepExecution "workflow data is not an object")
  | some data => resolveNames fromSlice root data (inputs.map Prod.fst) []

/-! ## Paths inside the store -/

/-- The path lies directly inside `blobs/sha256` or `meta`. -/
def Inside (root p : UnixPath) : Prop :=
  p.DirectlyIn (root.join (bytes "blobs/sha256")) ∨ p.DirectlyIn (root.join (bytes "meta"))

/-- The last segment of a path. -/
def lastSegment (p : UnixPath) : List UInt8 := p.segments.getLast (segments_ne_nil p)

/-- A hash that names files directly inside the store: its last segment is a name, and what comes
before leads nowhere, or, where the hash is absolute, to one of the two directories. -/
def Contained (root hash : UnixPath) : Prop :=
  lastSegment hash ≠ [] ∧ lastSegment hash ≠ [dot] ∧ lastSegment hash ≠ [dot, dot] ∧
    if hash.isAbsolute then
      .rootDir :: named hash.segments.dropLast = (root.join (bytes "blobs/sha256")).components ∨
      .rootDir :: named hash.segments.dropLast = (root.join (bytes "meta")).components
    else ∀ segment ∈ hash.segments.dropLast, segment = [] ∨ segment = [dot]

/-- The digests that are looked up: those of the inputs up to the first that is no reference. -/
def asked (data : Object) : List String → List String
  | [] => []
  | name :: names =>
    match (data.get name).bind parseArtifactRef with
    | none => []
    | some digest => digest :: asked data names

theorem components_dir (root : UnixPath) :
    ∃ cs, (root.join (bytes "blobs/sha256")).components =
        cs ++ [.normal (bytes "blobs"), .normal (bytes "sha256")] ∧
      (root.join (bytes "meta")).components = cs ++ [.normal (bytes "meta")] := by
  by_cases hroot : root = []
  · subst hroot
    refine ⟨[], ?_, ?_⟩ <;> rw [join_nil] <;> decide
  · refine ⟨root.components, ?_, ?_⟩ <;> rw [components_join hroot (by decide)] <;> rfl

theorem segments_eq (p : UnixPath) : p.segments = p.segments.dropLast ++ [lastSegment p] :=
  (List.dropLast_append_getLast (segments_ne_nil p)).symm

theorem named_eq_nil_iff {l : List (List UInt8)} :
    named l = [] ↔ ∀ segment ∈ l, segment = [] ∨ segment = [dot] := by
  rw [List.filterMap_eq_nil_iff]
  refine forall₂_congr fun segment _ => ?_
  unfold Component.ofSegment
  split_ifs with h <;> simp [h]

theorem ofSegment_eq_normal_iff {segment : List UInt8} {name : List UInt8} :
    Component.ofSegment segment = some (.normal name) ↔
      segment = name ∧ segment ≠ [] ∧ segment ≠ [dot] ∧ segment ≠ [dot, dot] := by
  unfold Component.ofSegment
  split_ifs with h h' <;> grind

theorem named_segments (hash : UnixPath) : named hash.segments =
    named hash.segments.dropLast ++ (Component.ofSegment (lastSegment hash)).toList := by
  conv_lhs => rw [segments_eq, named_append]
  rfl

/-- With an ending, the last segment is a name. -/
theorem named_segments_json (hash : UnixPath) : named (segments (hash ++ bytes ".json")) =
    named hash.segments.dropLast ++ [.normal (lastSegment hash ++ bytes ".json")] := by
  rw [segments_append (by decide), named_append]
  congr 1
  have hlength : 2 < (lastSegment hash ++ bytes ".json").length := by
    rw [List.length_append, show (bytes ".json").length = 5 from rfl]
    omega
  simp only [named, List.filterMap_cons, List.filterMap_nil]
  rw [show hash.segments.getLast _ = lastSegment hash from rfl,
    Component.ofSegment_of_length hlength]

theorem isAbsolute_json (hash : UnixPath) :
    isAbsolute (hash ++ bytes ".json") = hash.isAbsolute := by
  cases hash with
  | nil => decide
  | cons b hash => rfl

/-- A last segment is a name if and only if it is neither empty nor made of one or two dots. -/
theorem ofSegment_eq_some_normal_iff {segment : List UInt8} :
    (∃ name, Component.ofSegment segment = some (.normal name)) ↔
      segment ≠ [] ∧ segment ≠ [dot] ∧ segment ≠ [dot, dot] := by
  constructor
  · rintro ⟨name, h⟩
    exact (ofSegment_eq_normal_iff.mp h).2
  · intro h
    exact ⟨segment, ofSegment_eq_normal_iff.mpr ⟨rfl, h⟩⟩

/-- Two files with one directory and the names of a hash, one with an ending, lie in the two
directories of the store exactly if the hash ends with a name and their directory is one of them. -/
theorem in_dirs_iff (cs dir : List Component) (last : Option Component) (json : List UInt8)
    {blobs metas : List Component}
    (hblobs : blobs = cs ++ [.normal (bytes "blobs"), .normal (bytes "sha256")])
    (hmetas : metas = cs ++ [.normal (bytes "meta")]) :
    ((∃ name, dir ++ last.toList = blobs ++ [Component.normal name]) ∨
        ∃ name, dir ++ last.toList = metas ++ [Component.normal name]) ∧
      ((∃ name, dir ++ [Component.normal json] = blobs ++ [Component.normal name]) ∨
        ∃ name, dir ++ [Component.normal json] = metas ++ [Component.normal name]) ↔
      (∃ name, last = some (.normal name)) ∧ (dir = blobs ∨ dir = metas) := by
  have hne : bytes "blobs" ≠ bytes "meta" := by decide
  constructor
  · rintro ⟨hblob, hjson⟩
    have hdir : dir = blobs ∨ dir = metas :=
      hjson.imp (fun ⟨_, h⟩ => (List.append_inj' h rfl).1)
        fun ⟨_, h⟩ => (List.append_inj' h rfl).1
    refine ⟨?_, hdir⟩
    cases last with
    | none =>
      -- Then the blob's path is that of one directory, and it would lie in the other.
      rcases hdir with rfl | rfl <;> rcases hblob with ⟨name, h⟩ | ⟨name, h⟩ <;>
        simp [hblobs, hmetas, hne, hne.symm] at h
    | some c =>
      rcases hblob with ⟨name, h⟩ | ⟨name, h⟩ <;>
        exact ⟨name, congrArg some (List.cons.inj (List.append_inj' h rfl).2).1⟩
  · rintro ⟨⟨name, rfl⟩, hdir⟩
    rcases hdir with rfl | rfl
    · exact ⟨.inl ⟨_, rfl⟩, .inl ⟨_, rfl⟩⟩
    · exact ⟨.inr ⟨_, rfl⟩, .inr ⟨_, rfl⟩⟩

/-- **The files of a digest.** Both are directly inside the store exactly if its hash is
contained. -/
theorem inside_iff_contained (root : UnixPath) (digest : String) :
    Inside root (blobPath root digest) ∧ Inside root (metaPath root digest) ↔
      Contained root (bytes (hashOf digest)) := by
  obtain ⟨cs, hblobs, hmeta⟩ := components_dir root
  have hne : bytes "blobs" ≠ bytes "meta" := by decide
  unfold Inside DirectlyIn Contained blobPath metaPath
  rw [bytes_append]
  generalize bytes (hashOf digest) = hash
  rw [← and_assoc, ← and_assoc, and_assoc (a := lastSegment hash ≠ []),
    ← ofSegment_eq_some_normal_iff]
  cases habs : hash.isAbsolute with
  | true =>
    have hcomponents {p : UnixPath} (hp : p.isAbsolute = true) :
        p.components = .rootDir :: named p.segments := if_pos hp
    rw [join_of_isAbsolute _ habs, join_of_isAbsolute _ ((isAbsolute_json hash).trans habs),
      hcomponents habs, hcomponents ((isAbsolute_json hash).trans habs), named_segments,
      named_segments_json, hblobs, hmeta, if_pos rfl, ← List.cons_append, ← List.cons_append]
    exact in_dirs_iff cs _ _ _ rfl rfl
  | false =>
    have hroot {q : String} (hq : bytes q ≠ []) : root.join (bytes q) ≠ [] := join_ne_nil root hq
    rw [components_join (hroot (by decide)) habs,
      components_join (hroot (by decide)) ((isAbsolute_json hash).trans habs), named_segments,
      named_segments_json, hblobs, hmeta, if_neg Bool.false_ne_true, ← named_eq_nil_iff]
    simp only [List.append_assoc, List.append_cancel_left_eq, List.cons_append, List.nil_append,
      List.cons.injEq, Component.normal.injEq, hne, hne.symm, false_and, exists_false, or_false,
      false_or, true_and]
    constructor
    · rintro ⟨⟨name, hblob⟩, name', hjson⟩
      have hdir : named hash.segments.dropLast = [] :=
        (List.append_inj' (hjson.trans (List.nil_append _).symm) rfl).1
      rw [hdir, List.nil_append] at hblob
      exact ⟨⟨name, Option.toList_eq_singleton_iff.mp hblob⟩, hdir⟩
    · rintro ⟨⟨name, hlast⟩, hdir⟩
      rw [hdir, hlast]
      exact ⟨⟨name, rfl⟩, _, rfl⟩

/-! ## Runs -/

section Runs

variable {fromSlice : List UInt8 → Except String ArtifactMeta} {root : UnixPath}

/-- The monitor that admits calls on files of `P` only. -/
abbrev onlyTouching (P : UnixPath → Prop) : Monitor FileSystem Unit :=
  Monitor.only fun c => ∀ p, c.touches = some p → P p

variable {α : Type} {P : UnixPath → Prop} {digest : String} {Q : Unit → α → Prop}
  {E : Unit → WfeError → Prop}

theorem meetsE_perform_bind {c : FileCall}
    {f : c.Reply → ExceptT WfeError (Program FileSystem) α}
    (hc : ∀ p, c.touches = some p → P p)
    (hf : ∀ r, MeetsE (onlyTouching P) Q E (f r) ()) :
    MeetsE (onlyTouching P) Q E (perform c >>= f) () :=
  meetsE_bind.mpr ⟨hc, fun r _ => hf r⟩

theorem meetsE_orElse_bind {β : Type} {f : String → WfeError} {r : Except String β}
    {k : β → ExceptT WfeError (Program FileSystem) α} (he : ∀ e, E () e)
    (hk : ∀ a, MeetsE (onlyTouching P) Q E (k a) ()) :
    MeetsE (onlyTouching P) Q E (orElse f r >>= k) () := by
  cases r with
  | ok a => exact hk a
  | error e => exact he (f e)

/-- `gc_expired` touches the two files of its digest only. -/
theorem gcExpired_touches (hblob : P (blobPath root digest)) (hmeta : P (metaPath root digest)) :
    MeetsE (onlyTouching P) (fun _ _ => True) (fun _ _ => True)
      (gcExpired fromSlice root digest) () := by
  have hends (expired : Bool) : MeetsE (onlyTouching P) (fun _ _ => True) (fun _ _ => True)
      (if expired = true then do
        let _ ← perform (.removeFile (blobPath root digest))
        let _ ← perform (.removeFile (metaPath root digest))
        pure true
      else pure false : ExceptT WfeError (Program FileSystem) Bool) () := by
    split_ifs
    · refine meetsE_perform_bind (by rintro p ⟨⟩; exact hblob) fun _ => ?_
      exact meetsE_perform_bind (by rintro p ⟨⟩; exact hmeta) fun _ => trivial
    · trivial
  unfold gcExpired
  refine meetsE_perform_bind (by rintro p ⟨⟩) fun found => ?_
  split_ifs
  · trivial
  · refine meetsE_perform_bind (by rintro p ⟨⟩; exact hmeta) fun raw => ?_
    refine meetsE_orElse_bind (fun _ => trivial) fun raw => ?_
    refine meetsE_orElse_bind (fun _ => trivial) fun found => ?_
    split
    · exact meetsE_perform_bind (by rintro p ⟨⟩) fun _ => hends _
    · exact hends false

/-- `get` touches the two files of its digest only, and opens the blob. -/
theorem get_touches (hblob : P (blobPath root digest)) (hmeta : P (metaPath root digest)) :
    MeetsE (onlyTouching P) (fun _ reader => ∀ p ∈ reader, P p) (fun _ _ => True)
      (get fromSlice root digest) () := by
  unfold get
  refine (gcExpired_touches hblob hmeta).bind fun _ expired _ => ?_
  split_ifs
  · rintro p ⟨⟩
  · refine meetsE_perform_bind (by rintro p ⟨⟩) fun found => ?_
    split_ifs
    · rintro p ⟨⟩
    · refine meetsE_perform_bind (by rintro p ⟨⟩; exact hblob) fun opened => ?_
      refine meetsE_orElse_bind (fun _ => trivial) fun _ => ?_
      rintro p ⟨⟩
      exact hblob

theorem meetsE_adapt {x : ExceptT WfeError (Program FileSystem) α} {f : WfeError → WfeError}
    (h : MeetsE (onlyTouching P) Q (fun _ _ => True) x ()) :
    MeetsE (onlyTouching P) Q (fun _ _ => True) (x.adapt f) () := by
  have hrun : (x.adapt f).run = x.run >>= fun r => .ret (r.mapError f) := by
    change Except.mapError f <$> x.run = _
    rw [← bind_pure_comp]
    rfl
  unfold MeetsE
  rw [hrun, meets_bind]
  refine Meets.mono h fun g r hr => ?_
  cases r with
  | ok a => exact hr
  | error e => trivial

variable (fromSlice) in
/-- The loop touches files of the digests that are asked for only. -/
theorem resolveNames_touches {data : Object} {names : List String}
    (h : ∀ digest ∈ asked data names, P (blobPath root digest) ∧ P (metaPath root digest))
    (artifacts : List (String × List UInt8)) :
    MeetsE (onlyTouching P) (fun _ _ => True) (fun _ _ => True)
      (resolveNames fromSlice root data names artifacts) () := by
  induction names generalizing artifacts with
  | nil => trivial
  | cons name names ih =>
    unfold resolveNames
    unfold asked at h
    cases hvalue : data.get name with
    | none => trivial
    | some value =>
      rw [hvalue, Option.bind_some] at h
      dsimp only
      cases hdigest : parseArtifactRef value with
      | none => trivial
      | some digest =>
        rw [hdigest] at h
        obtain ⟨⟨hblob, hmeta⟩, h⟩ := List.forall_mem_cons.mp h
        refine (meetsE_adapt (get_touches hblob hmeta)).bind fun _ reader hreader => ?_
        cases reader with
        | none => trivial
        | some path =>
          refine meetsE_perform_bind (by rintro p ⟨⟩; exact hreader path rfl) fun _ => ?_
          exact meetsE_orElse_bind (fun _ => trivial) fun _ => ih h _

/-- Where there is no metadata, a blob that is there is opened. -/
theorem get_opens : Path (get fromSlice root digest).run
    [⟨.exists (metaPath root digest), false⟩, ⟨.exists (blobPath root digest), true⟩,
      ⟨.open (blobPath root digest), .ok ()⟩] (.ok (some (blobPath root digest))) :=
  .call _ _ _ _ _ (.call _ _ _ _ _ (.call _ _ _ _ _ (.ret _)))

/-- Where there is metadata, it is read. -/
theorem get_reads_meta (e : String) : Path (get fromSlice root digest).run
    [⟨.exists (metaPath root digest), true⟩, ⟨.read (metaPath root digest), .error e⟩]
    (.error (ioErr "read meta" e)) :=
  .call _ _ _ _ _ (.call _ _ _ _ _ (.ret _))

theorem path_adapt {x : ExceptT WfeError (Program FileSystem) α} (f : WfeError → WfeError)
    {tr : List (Exchange FileSystem)} {r : Except WfeError α} (h : Path x.run tr r) :
    Path (x.adapt f).run tr (r.mapError f) := by
  change Path (Except.mapError f <$> x.run) _ _
  rw [← bind_pure_comp]
  exact path_bind.mpr ⟨tr, r, [], (List.append_nil tr).symm, h, .ret _⟩

theorem path_perform (c : FileCall) (r : c.Reply) :
    Path (perform c).run [⟨c, r⟩] (.ok r) := by
  apply path_liftE
  exact path_call.mpr ⟨r, [], rfl, .ret r⟩

/-- Any file of a digest that is asked for is touched in some run: the blob where there is no
metadata, and the metadata where there is some. -/
theorem exists_touching_run (fromSlice : List UInt8 → Except String ArtifactMeta) (root : UnixPath)
    {data : Object} {names : List String} (hasked : digest ∈ asked data names) {p : UnixPath}
    (hp : p = blobPath root digest ∨ p = metaPath root digest)
    (artifacts : List (String × List UInt8)) :
    ∃ tr r, Path (resolveNames fromSlice root data names artifacts).run tr r ∧
      ∃ x ∈ tr, x.1.touches = some p := by
  induction names generalizing artifacts with
  | nil => cases hasked
  | cons name names ih =>
    unfold resolveNames
    unfold asked at hasked
    cases hvalue : data.get name with
    | none =>
      rw [hvalue] at hasked
      cases hasked
    | some value =>
      rw [hvalue, Option.bind_some] at hasked
      dsimp only
      cases hdigest : parseArtifactRef value with
      | none =>
        rw [hdigest] at hasked
        cases hasked
      | some first =>
        rw [hdigest] at hasked
        dsimp only
        rcases List.mem_cons.mp hasked with rfl | hasked
        · rcases hp with rfl | rfl
          · refine ⟨_, _, path_bindE (path_adapt _ get_opens)
              (path_bindE (path_perform (.readToEnd _) (Except.error "")) (.ret _)),
              ⟨.open (blobPath root digest), .ok ()⟩, by simp, rfl⟩
          · refine ⟨_, _, path_bindE_iff.mpr (.inr ⟨_, path_adapt _ (get_reads_meta ""), rfl⟩),
              ⟨.read (metaPath root digest), .error ""⟩, by simp, rfl⟩
        · obtain ⟨tr, r, hpath, x, hx, htouches⟩ := ih hasked (artifacts ++ [(name, [])])
          -- The artifact before is found and empty.
          refine ⟨_, r, path_bindE (path_adapt _ get_opens)
            (path_bindE (path_perform (.readToEnd _) (Except.ok [])) hpath), x, ?_, htouches⟩
          exact List.mem_append_right _ (List.mem_append_right _ hx)

/-- The digests that `resolve` asks for. -/
def askedBy (inputs : List (String × String)) (workflowData : Json) : List String :=
  (workflowData.asObject.map fun data => asked data (inputs.map Prod.fst)).getD []

/-- **Artifact references stay in the store where their digests do.** Whatever the file system
replies, `resolve` reads and deletes only files directly inside `blobs/sha256` and `meta`, if and
only if every digest it asks for has a hash that is contained. -/
theorem resolve_inside_iff (fromSlice : List UInt8 → Except String ArtifactMeta) (root : UnixPath)
    (inputs : List (String × String)) (workflowData : Json) :
    (∀ tr r, Path (resolve fromSlice root inputs workflowData).run tr r →
      ∀ x ∈ tr, ∀ p, x.1.touches = some p → Inside root p) ↔
      ∀ digest ∈ askedBy inputs workflowData, Contained root (bytes (hashOf digest)) := by
  unfold resolve askedBy
  cases hdata : workflowData.asObject with
  | none =>
    constructor
    · rintro - digest ⟨⟩
    · intro _ tr r hpath x hx
      obtain ⟨rfl, -⟩ := path_ret.mp hpath
      cases hx
  | some data =>
    simp only [Option.map_some, Option.getD_some]
    constructor
    · intro h digest hasked
      rw [← inside_iff_contained]
      constructor
      · obtain ⟨tr, r, hpath, x, hx, htouches⟩ :=
          exists_touching_run fromSlice root hasked (.inl rfl) []
        exact h tr r hpath x hx _ htouches
      · obtain ⟨tr, r, hpath, x, hx, htouches⟩ :=
          exists_touching_run fromSlice root hasked (.inr rfl) []
        exact h tr r hpath x hx _ htouches
    · intro h tr r hpath x hx
      have hmeets := resolveNames_touches fromSlice (P := Inside root)
        (fun digest hasked => (inside_iff_contained root digest).mpr (h digest hasked)) []
      have hallows : (onlyTouching (Inside root)).Allows () tr :=
        Monitor.allows_unit.mpr fun _ _ => trivial
      exact Monitor.admits_unit.mp (Meets.path hmeets hpath hallows).1 x hx

end Runs

/-- A store under `/var/wfe` opens `/etc/passwd` for workflow data that names it. -/
theorem resolve_opens_passwd : ∃ fromSlice root inputs workflowData tr r,
    Path (resolve fromSlice root inputs workflowData).run tr r ∧
      ∃ x ∈ tr, ∃ p, x.1.touches = some p ∧ p = bytes "/etc/passwd" ∧ ¬ Inside root p := by
  have hasked : "sha256:/etc/passwd" ∈
      asked [("src", .object [("__wfe_artifact", .string "sha256:/etc/passwd")])] ["src"] := by
    decide
  obtain ⟨tr, r, hpath, x, hx, htouches⟩ := exists_touching_run
    (fun _ => .error "expected value") (bytes "/var/wfe") hasked (.inl rfl) []
  refine ⟨fun _ => .error "expected value", bytes "/var/wfe", [("src", "/src")],
    .object [("src", .object [("__wfe_artifact", .string "sha256:/etc/passwd")])], tr, r, hpath,
    x, hx, _, htouches, by decide, ?_⟩
  rintro (⟨name, h⟩ | ⟨name, h⟩)
  · have hlength := congrArg List.length h
    rw [List.length_append, List.length_singleton] at hlength
    revert hlength
    decide
  · have hlength := congrArg List.length h
    rw [List.length_append, List.length_singleton] at hlength
    revert hlength
    decide

end ArtifactPaths

end Wfe
