import Wfe.Library.Split

/-!
# Unix paths

Paths as byte strings, with the lexical operations of the Rust standard library: a path is taken
apart into components at its separators, and two paths are compared by their components. Nothing
here looks at a file system, so `..` is a component like any other and is not resolved.

## Main definitions

* `UnixPath`, `UnixPath.components`: `Path` and `Path::components`
* `UnixPath.trail`: the components that are not `.`
* `UnixPath.join`, `UnixPath.startsWith`: `Path::join`, `Path::starts_with`
* `UnixPath.DirectlyIn`: a path is a directory's path and one name

## Main results

* `UnixPath.components_join`: the components of a relative path are added at the end
-/

/-- The bytes of a path. -/
abbrev UnixPath := List UInt8

namespace UnixPath

/-- The byte `/`. -/
abbrev sep : UInt8 := 47

/-- The byte `.`. -/
abbrev dot : UInt8 := 46

inductive Component
  | rootDir
  | curDir
  | parentDir
  | normal (name : List UInt8)
deriving DecidableEq, Repr

/-- The component of a segment between two separators, unless it is empty or `.`. -/
def Component.ofSegment (segment : List UInt8) : Option Component :=
  if segment = [] ∨ segment = [dot] then none
  else if segment = [dot, dot] then some .parentDir
  else some (.normal segment)

/-- `Path::is_absolute`, on Unix also `Path::has_root`. -/
def isAbsolute (p : UnixPath) : Bool := p.head? == some sep

/-- What stands between the separators. -/
def segments (p : UnixPath) : List (List UInt8) := p.splitOn sep

/-- The components of segments that are not the first of a path. -/
abbrev named (segments : List (List UInt8)) : List Component :=
  segments.filterMap Component.ofSegment

/-- `Path::components`: a first segment `.` is kept. -/
def components (p : UnixPath) : List Component :=
  if isAbsolute p then .rootDir :: named (segments p)
  else if (segments p).head? = some [dot] then .curDir :: named (segments p)
  else named (segments p)

/-- The components of a path, but for those that are `.`. -/
def trail (p : UnixPath) : List Component := (components p).filter (· ≠ .curDir)

/-- `Path::join`: an absolute path replaces the first. -/
def join (p q : UnixPath) : UnixPath :=
  if isAbsolute q then q
  else if p = [] ∨ p.getLast? = some sep then p ++ q
  else p ++ sep :: q

/-- `Path::starts_with`. -/
def startsWith (p base : UnixPath) : Bool := (components base).isPrefixOf (components p)

/-- The path `p` is that of the directory `d` and one name. -/
def DirectlyIn (p d : UnixPath) : Prop :=
  ∃ name, components p = components d ++ [.normal name]

theorem segments_ne_nil (p : UnixPath) : segments p ≠ [] := List.splitOn_ne_nil sep p

theorem segments_append_sep (p q : UnixPath) :
    segments (p ++ sep :: q) = segments p ++ segments q :=
  List.splitOn_append_cons_self p q

theorem segments_nil : segments [] = [[]] := rfl

/-- Text without a separator belongs to the last segment. -/
theorem segments_append {q : List UInt8} (hq : sep ∉ q) (p : UnixPath) :
    segments (p ++ q) = (segments p).dropLast ++
      [(segments p).getLast (segments_ne_nil p) ++ q] :=
  List.splitOn_append_of_notMem hq p

theorem isAbsolute_append {p : UnixPath} (hp : p ≠ []) (q : UnixPath) :
    isAbsolute (p ++ q) = isAbsolute p := by
  cases p with
  | nil => exact absurd rfl hp
  | cons b p => rfl

@[simp] theorem named_append (l l' : List (List UInt8)) : named (l ++ l') = named l ++ named l' :=
  List.filterMap_append

theorem components_append_sep {p : UnixPath} (hp : p ≠ []) (q : UnixPath) :
    components (p ++ sep :: q) = components p ++ named (segments q) := by
  have hhead : (segments (p ++ sep :: q)).head? = (segments p).head? := by
    rw [segments_append_sep, List.head?_append_of_ne_nil _ (segments_ne_nil p)]
  unfold components
  rw [isAbsolute_append hp, hhead, segments_append_sep, named_append]
  split_ifs <;> rfl

theorem curDir_notMem_named (l : List (List UInt8)) : .curDir ∉ named l := by
  intro h
  obtain ⟨s, -, hs⟩ := List.mem_filterMap.mp h
  unfold Component.ofSegment at hs
  split_ifs at hs <;> cases hs

/-- The components of a relative path that are no `.` are those of its segments. -/
theorem trail_eq_named {p : UnixPath} (hp : isAbsolute p = false) :
    p.trail = named (segments p) := by
  have hnamed : (named (segments p)).filter (· ≠ .curDir) = named (segments p) :=
    List.filter_eq_self.mpr fun c hc => decide_eq_true fun h =>
      curDir_notMem_named _ (h ▸ hc)
  unfold trail components
  rw [if_neg (by rw [hp]; exact Bool.false_ne_true)]
  split_ifs
  · exact (List.filter_cons_of_neg (by simp)).trans hnamed
  · exact hnamed

/-- A separator at the end of a path adds no component. -/
theorem components_concat_sep {p : UnixPath} (hp : p ≠ []) :
    components (p ++ [sep]) = components p := by
  rw [components_append_sep hp, segments_nil]
  exact List.append_nil _

/-- **The components of a joined path.** Those of a relative path are added at the end. -/
theorem components_join {p q : UnixPath} (hp : p ≠ []) (hq : isAbsolute q = false) :
    components (join p q) = components p ++ named (segments q) := by
  rw [join, if_neg (by rw [hq]; exact Bool.false_ne_true)]
  split_ifs with hlast
  · -- The path ends with a separator, which `q` follows at once.
    obtain ⟨init, rfl⟩ : ∃ init, p = init ++ [sep] := by
      rcases hlast with rfl | hlast
      · exact absurd rfl hp
      · exact ⟨p.dropLast, (List.dropLast_append_getLast? sep hlast).symm⟩
    rw [List.append_assoc, List.singleton_append]
    cases init with
    | nil =>
      rw [List.nil_append]
      simp [components, isAbsolute, segments, List.splitOn_cons_eq_if_modifyHead,
        Component.ofSegment]
    | cons b init =>
      rw [components_append_sep (List.cons_ne_nil b init),
        components_concat_sep (List.cons_ne_nil b init)]
  · exact components_append_sep hp q

/-- Joined with nothing before it, a path is itself. -/
theorem join_nil (q : UnixPath) : join [] q = q := by
  unfold join
  split_ifs with h h'
  · rfl
  · exact List.nil_append q
  · exact absurd (.inl rfl) h'

theorem join_of_isAbsolute (p : UnixPath) {q : UnixPath} (hq : isAbsolute q = true) :
    join p q = q := if_pos hq

theorem join_ne_nil (p : UnixPath) {q : UnixPath} (hq : q ≠ []) : join p q ≠ [] := by
  unfold join
  split_ifs <;> simp [hq]

/-- A segment longer than `..` is a name. -/
theorem Component.ofSegment_of_length {s : List UInt8} (hs : 2 < s.length) :
    ofSegment s = some (.normal s) := by
  rw [ofSegment, if_neg, if_neg]
  · rintro rfl
    simp at hs
  · rintro (rfl | rfl) <;> simp at hs

end UnixPath
