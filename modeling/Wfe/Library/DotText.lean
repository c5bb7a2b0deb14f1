import Mathlib.Data.List.Basic

/-!
# Reading DOT text

How a reader of the DOT language finds its strings. In a double-quoted string a backslash keeps
the next character from closing it. An HTML-like label stands between angle brackets, which nest;
the values of its attributes are double-quoted, and there a backslash is nothing special. Outside
of strings and labels a quote opens a string, and `<` a label.

## Main definitions

* `DotText.Mode`, `DotText.Mode.next`: where the reader is, and its step
* `DotText.read`: the strings that are closed along a text
* `DotText.strings`: the strings of a whole text; there are none if one of them, or a label, is
  left open
* `DotText.Contained`: what may stand between two quotes

## Main results

* `DotText.read_append`: a text read in two parts
* `DotText.read_plain`, `DotText.read_label`, `DotText.read_quoted`: the parts of a text
-/

namespace DotText

/-- Where a reader is: outside, in a string, after a backslash in a string, in a label below
`depth` open brackets, or in the value of an attribute of such a label. -/
inductive Mode
  | outside
  | quoted (content : List Char)
  | escaped (content : List Char)
  | label (depth : Nat)
  | value (depth : Nat) (content : List Char)
deriving DecidableEq, Repr

/-- Reads one character; a quote that closes a string gives its content. -/
def Mode.next : Mode → Char → Mode × List (List Char)
  | outside, c =>
    if c = '"' then (quoted [], []) else if c = '<' then (label 0, []) else (outside, [])
  | quoted s, c =>
    if c = '"' then (outside, [s]) else if c = '\\' then (escaped (s ++ [c]), [])
    else (quoted (s ++ [c]), [])
  | escaped s, c => (quoted (s ++ [c]), [])
  | label depth, c =>
    if c = '"' then (value depth [], []) else if c = '<' then (label (depth + 1), [])
    else if c = '>' then
      match depth with
      | 0 => (outside, [])
      | depth + 1 => (label depth, [])
    else (label depth, [])
  | value depth s, c =>
    if c = '"' then (label depth, [s]) else (value depth (s ++ [c]), [])

/-- Where the reader is after a text, and the contents of the strings closed along it. -/
def read : Mode → List Char → Mode × List (List Char)
  | m, [] => (m, [])
  | m, c :: cs => ((read (m.next c).1 cs).1, (m.next c).2 ++ (read (m.next c).1 cs).2)

/-- The contents of the double-quoted strings of a text. -/
def strings (text : List Char) : Option (List (List Char)) :=
  match read .outside text with
  | (.outside, ss) => some ss
  | _ => none

theorem read_cons (m : Mode) (c : Char) (cs : List Char) :
    read m (c :: cs) = ((read (m.next c).1 cs).1, (m.next c).2 ++ (read (m.next c).1 cs).2) := rfl

/-- A text read in two parts. -/
theorem read_append {m m' m'' : Mode} {s t : List Char} {ss ts : List (List Char)}
    (hs : read m s = (m', ss)) (ht : read m' t = (m'', ts)) :
    read m (s ++ t) = (m'', ss ++ ts) := by
  induction s generalizing m ss with
  | nil =>
    obtain ⟨rfl, rfl⟩ := Prod.mk.inj hs
    exact ht
  | cons c s ih =>
    obtain ⟨hmode, rfl⟩ := Prod.mk.inj hs
    rw [List.cons_append, read_cons, ih (Prod.ext hmode rfl), List.append_assoc]

theorem strings_eq_some_iff {text : List Char} {ss : List (List Char)} :
    strings text = some ss ↔ read .outside text = (.outside, ss) := by
  unfold strings
  split
  · next ss' h => simp [h]
  · next h =>
    simp only [reduceCtorEq, false_iff]
    exact fun heq => h ss heq

/-- Text without quotes and opening brackets is outside of all strings. -/
theorem read_plain {s : List Char} (h : ∀ c ∈ s, c ≠ '"' ∧ c ≠ '<') :
    read .outside s = (.outside, []) := by
  induction s with
  | nil => rfl
  | cons c s ih =>
    obtain ⟨hquote, hbracket⟩ := h c List.mem_cons_self
    have hnext : Mode.outside.next c = (.outside, []) := by
      rw [Mode.next, if_neg hquote, if_neg hbracket]
    rw [read_cons, hnext, ih fun d hd => h d (List.mem_cons_of_mem c hd)]
    rfl

/-- Text without quotes and brackets stays where it is in a label. -/
theorem read_label {s : List Char} (h : ∀ c ∈ s, c ≠ '"' ∧ c ≠ '<' ∧ c ≠ '>') (depth : Nat) :
    read (.label depth) s = (.label depth, []) := by
  induction s with
  | nil => rfl
  | cons c s ih =>
    obtain ⟨hquote, hopen, hclose⟩ := h c List.mem_cons_self
    have hnext : (Mode.label depth).next c = (.label depth, []) := by
      simp [Mode.next, hquote, hopen, hclose]
    rw [read_cons, hnext, ih fun d hd => h d (List.mem_cons_of_mem c hd)]
    rfl

/-- A text that stays inside of the quotes it is written between. -/
def Contained (s : List Char) : Prop :=
  ∀ content, read (.quoted content) s = (.quoted (content ++ s), [])

theorem contained_nil : Contained [] := fun content => by rw [List.append_nil]; rfl

theorem Contained.append {s t : List Char} (hs : Contained s) (ht : Contained t) :
    Contained (s ++ t) := by
  intro content
  have h := read_append (hs content) (ht (content ++ s))
  rwa [List.append_assoc] at h

/-- A character is contained unless it closes the string or is a backslash. -/
theorem contained_singleton {c : Char} (hquote : c ≠ '"') (hbackslash : c ≠ '\\') :
    Contained [c] := by
  intro content
  have hnext : (Mode.quoted content).next c = (.quoted (content ++ [c]), []) := by
    rw [Mode.next, if_neg hquote, if_neg hbackslash]
  rw [read_cons, hnext]
  rfl

/-- After a backslash every character is contained. -/
theorem contained_escape (c : Char) : Contained ['\\', c] := by
  intro content
  have hnext : (Mode.quoted content).next '\\' = (.escaped (content ++ ['\\']), []) := by
    rw [Mode.next, if_neg (by decide), if_pos rfl]
  rw [read_cons, hnext]
  change (Mode.quoted (content ++ ['\\'] ++ [c]), []) = _
  rw [List.append_assoc]
  rfl

theorem contained_flatMap {α : Type} {xs : List α} {text : α → List Char}
    (h : ∀ x ∈ xs, Contained (text x)) : Contained (xs.flatMap text) := by
  induction xs with
  | nil => exact contained_nil
  | cons x xs ih =>
    exact (h x List.mem_cons_self).append (ih fun y hy => h y (List.mem_cons_of_mem x hy))

/-- A text without quotes and backslashes is contained. -/
theorem contained_of_all {s : List Char} (h : (s.all fun c => c ≠ '"' && c ≠ '\\') = true) :
    Contained s := by
  have hflat : s = s.flatMap fun c => [c] := by rw [List.flatMap_singleton']
  rw [hflat]
  refine contained_flatMap fun c hc => ?_
  have hc' := List.all_eq_true.mp h c hc
  simp only [ne_eq, Bool.and_eq_true, decide_eq_true_eq] at hc'
  exact contained_singleton hc'.1 hc'.2

/-- **A quoted string** ends at the quote written after its content. -/
theorem read_quoted {s : List Char} (h : Contained s) :
    read .outside ('"' :: s ++ ['"']) = (.outside, [s]) := by
  have hopen : read .outside ('"' :: s) = (.quoted s, []) := h []
  exact read_append hopen rfl

end DotText
