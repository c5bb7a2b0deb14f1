import Mathlib.Data.List.Basic
import Mathlib.Data.List.TakeWhile

/-!
# The segments of an SQL text

Every text is, in one way, a sequence of string literals, comments, words and single characters. A
literal or a comment that is not closed goes on to the end of the text.

## Main definitions

* `SqlText.Segment`, `SqlText.Segment.Fits`: a segment, and what may follow it
* `SqlText.Segmentation`: a text as its segments
* `SqlText.first`: the first segment of a text

## Main results

* `SqlText.first_eq_iff`: a text starts with one segment
* `SqlText.existsUnique_segmentation`: every text has one segmentation
-/

namespace SqlText

/-- Letters, digits and underscores, of ASCII. -/
def isWordChar (c : Char) : Bool := c.isAlphanum || c = '_'

inductive Segment
  | literal (body : List Char)
  | openLiteral (body : List Char)
  | lineComment (body : List Char)
  | blockComment (body : List Char)
  | openComment (body : List Char)
  | word (w : List Char)
  | other (c : Char)
deriving DecidableEq, Repr

namespace Segment

def text : Segment → List Char
  | literal body => '\'' :: (body ++ ['\''])
  | openLiteral body => '\'' :: body
  | lineComment body => '-' :: '-' :: body
  | blockComment body => '/' :: '*' :: (body ++ ['*', '/'])
  | openComment body => '/' :: '*' :: body
  | word w => w
  | other c => [c]

end Segment

/-- The inside of a literal: its quotes come in pairs. -/
inductive Quoted : List Char → Prop
  | nil : Quoted []
  | char {c : Char} {cs : List Char} : c ≠ '\'' → Quoted cs → Quoted (c :: cs)
  | pair {cs : List Char} : Quoted cs → Quoted ('\'' :: '\'' :: cs)

/-- The segment is one when `rest` follows: it ends where it has to, and not before. -/
def Segment.Fits : Segment → List Char → Prop
  | literal body, rest => Quoted body ∧ rest.head? ≠ some '\''
  | openLiteral body, rest => Quoted body ∧ rest = []
  | lineComment body, rest => '\n' ∉ body ∧ ∀ c ∈ rest.head?, c = '\n'
  | blockComment body, _ => ¬ ['*', '/'] <:+: body
  | openComment body, rest => ¬ ['*', '/'] <:+: body ∧ rest = []
  | word w, rest => w ≠ [] ∧ (∀ c ∈ w, isWordChar c = true) ∧ ∀ c ∈ rest.head?, isWordChar c = false
  | other c, rest => isWordChar c = false ∧ c ≠ '\'' ∧
      (c = '-' → rest.head? ≠ some '-') ∧ (c = '/' → rest.head? ≠ some '*')

/-- A text and its segments. -/
inductive Segmentation : List Char → List Segment → Prop
  | nil : Segmentation [] []
  | cons {s : Segment} {rest : List Char} {segments : List Segment} :
      s.Fits rest → Segmentation rest segments → Segmentation (s.text ++ rest) (s :: segments)

/-! ## Where literals and comments end -/

/-- A literal after its opening quote: its inside, and what follows its closing quote. -/
def splitLiteral : List Char → List Char × Option (List Char)
  | [] => ([], none)
  | '\'' :: '\'' :: cs => ('\'' :: '\'' :: (splitLiteral cs).1, (splitLiteral cs).2)
  | '\'' :: cs => ([], some cs)
  | c :: cs => (c :: (splitLiteral cs).1, (splitLiteral cs).2)

/-- A comment after its opening: its inside, and what follows its end. -/
def splitComment : List Char → List Char × Option (List Char)
  | [] => ([], none)
  | '*' :: '/' :: cs => ([], some cs)
  | c :: cs => (c :: (splitComment cs).1, (splitComment cs).2)

theorem splitLiteral_char {c : Char} (hc : c ≠ '\'') (cs : List Char) :
    splitLiteral (c :: cs) = (c :: (splitLiteral cs).1, (splitLiteral cs).2) := by
  rw [splitLiteral] <;> (intros; simp_all)

theorem splitLiteral_close {cs : List Char} (h : cs.head? ≠ some '\'') :
    splitLiteral ('\'' :: cs) = ([], some cs) := by
  rw [splitLiteral]
  rintro cs' rfl
  exact h rfl

theorem splitLiteral_pair (cs : List Char) :
    splitLiteral ('\'' :: '\'' :: cs) =
      ('\'' :: '\'' :: (splitLiteral cs).1, (splitLiteral cs).2) := rfl

theorem splitComment_char {c : Char} {cs : List Char} (h : ¬ (c = '*' ∧ cs.head? = some '/')) :
    splitComment (c :: cs) = (c :: (splitComment cs).1, (splitComment cs).2) := by
  rw [splitComment]
  rintro cs' rfl rfl
  exact h ⟨rfl, rfl⟩

theorem splitLiteral_of_quoted {body : List Char} (hbody : Quoted body) {rest : List Char}
    (hrest : rest.head? ≠ some '\'') :
    splitLiteral (body ++ '\'' :: rest) = (body, some rest) := by
  induction hbody with
  | nil => exact splitLiteral_close hrest
  | char hc _ ih => rw [List.cons_append, splitLiteral_char hc, ih]
  | pair _ ih => rw [List.cons_append, List.cons_append, splitLiteral_pair, ih]

theorem splitLiteral_of_quoted_open {body : List Char} (hbody : Quoted body) :
    splitLiteral body = (body, none) := by
  induction hbody with
  | nil => rfl
  | char hc _ ih => rw [splitLiteral_char hc, ih]
  | pair _ ih => rw [splitLiteral_pair, ih]

theorem splitComment_of_not_infix {body : List Char} (hbody : ¬ ['*', '/'] <:+: body)
    (rest : List Char) : splitComment (body ++ '*' :: '/' :: rest) = (body, some rest) := by
  induction body with
  | nil => rfl
  | cons c body ih =>
    have hc : ¬ (c = '*' ∧ (body ++ '*' :: '/' :: rest).head? = some '/') := by
      rintro ⟨rfl, hhead⟩
      cases body with
      | nil => cases hhead
      | cons d body =>
        obtain rfl : d = '/' := Option.some.inj hhead
        exact hbody ⟨[], body, rfl⟩
    rw [List.cons_append, splitComment_char hc,
      ih fun h => hbody (h.trans (List.suffix_cons ..).isInfix)]

theorem splitComment_of_not_infix_open {body : List Char} (hbody : ¬ ['*', '/'] <:+: body) :
    splitComment body = (body, none) := by
  induction body with
  | nil => rfl
  | cons c body ih =>
    have hc : ¬ (c = '*' ∧ body.head? = some '/') := by
      rintro ⟨rfl, hhead⟩
      obtain ⟨rest, rfl⟩ := List.head?_eq_some_iff.mp hhead
      exact hbody ⟨[], rest, rfl⟩
    rw [splitComment_char hc, ih fun h => hbody (h.trans (List.suffix_cons ..).isInfix)]

theorem splitLiteral_append (cs : List Char) :
    (splitLiteral cs).1 ++ (splitLiteral cs).2.elim [] ('\'' :: ·) = cs := by
  fun_induction splitLiteral cs with
  | case1 => rfl
  | case2 cs ih => rw [List.cons_append, List.cons_append, ih]
  | case3 cs _ => rfl
  | case4 c cs _ _ ih => rw [List.cons_append, ih]

theorem splitLiteral_quoted (cs : List Char) : Quoted (splitLiteral cs).1 := by
  fun_induction splitLiteral cs with
  | case1 => exact .nil
  | case2 cs ih => exact .pair ih
  | case3 cs _ => exact .nil
  | case4 c cs hpair hclose ih => exact .char (fun hc => hclose hc) ih

theorem splitLiteral_head (cs : List Char) :
    ∀ rest ∈ (splitLiteral cs).2, rest.head? ≠ some '\'' := by
  fun_induction splitLiteral cs with
  | case1 => rintro rest ⟨⟩
  | case2 cs ih => exact ih
  | case3 cs h =>
    rintro rest ⟨⟩ hhead
    obtain ⟨cs', rfl⟩ := List.head?_eq_some_iff.mp hhead
    exact h cs' rfl
  | case4 c cs _ _ ih => exact ih

theorem splitComment_append (cs : List Char) :
    (splitComment cs).1 ++ (splitComment cs).2.elim [] ('*' :: '/' :: ·) = cs := by
  fun_induction splitComment cs with
  | case1 => rfl
  | case2 cs => rfl
  | case3 c cs _ ih => rw [List.cons_append, ih]

theorem splitComment_not_infix (cs : List Char) : ¬ ['*', '/'] <:+: (splitComment cs).1 := by
  fun_induction splitComment cs with
  | case1 => simp
  | case2 cs => simp
  | case3 c cs h ih =>
    intro hinfix
    rcases List.infix_cons_iff.mp hinfix with hpre | hinfix
    · -- The slash would be the next character of the text.
      obtain ⟨rest, hrest⟩ := hpre
      obtain ⟨rfl, htail⟩ := List.cons_eq_cons.mp (show '*' :: '/' :: rest = _ from hrest)
      have happend := splitComment_append cs
      rw [← htail] at happend
      exact h _ rfl happend.symm
    · exact ih hinfix

/-! ## The first segment -/

/-- The first segment of the text `c :: cs`, and what follows it. -/
def first (c : Char) (cs : List Char) : Segment × List Char :=
  if c = '\'' then
    match (splitLiteral cs).2 with
    | some rest => (.literal (splitLiteral cs).1, rest)
    | none => (.openLiteral (splitLiteral cs).1, [])
  else if c = '-' ∧ cs.head? = some '-' then
    (.lineComment (cs.tail.takeWhile (· ≠ '\n')), cs.tail.dropWhile (· ≠ '\n'))
  else if c = '/' ∧ cs.head? = some '*' then
    match (splitComment cs.tail).2 with
    | some rest => (.blockComment (splitComment cs.tail).1, rest)
    | none => (.openComment (splitComment cs.tail).1, [])
  else if isWordChar c then (.word ((c :: cs).takeWhile isWordChar), (c :: cs).dropWhile isWordChar)
  else (.other c, cs)

theorem head_dropWhile_eq_false {p : Char → Bool} {cs : List Char} :
    ∀ c ∈ (cs.dropWhile p).head?, p c = false := by
  intro c hc
  have h := List.head?_dropWhile_not p cs
  rwa [Option.mem_def.mp hc] at h

theorem first_spec (c : Char) (cs : List Char) :
    (first c cs).1.text ++ (first c cs).2 = c :: cs ∧ (first c cs).1.Fits (first c cs).2 := by
  unfold first
  split_ifs with hquote hdash hslash hword
  · subst hquote
    have happend := splitLiteral_append cs
    have hhead := splitLiteral_head cs
    cases hrest : (splitLiteral cs).2 with
    | some rest =>
      rw [hrest] at happend hhead
      exact ⟨by simpa [Segment.text] using happend, splitLiteral_quoted cs, hhead rest rfl⟩
    | none =>
      rw [hrest] at happend
      exact ⟨by simpa [Segment.text] using happend, splitLiteral_quoted cs, rfl⟩
  · obtain ⟨rfl, hhead⟩ := hdash
    obtain ⟨cs, rfl⟩ := List.head?_eq_some_iff.mp hhead
    refine ⟨?_, ?_, ?_⟩
    · simp [Segment.text]
    · intro hmem
      simpa using List.mem_takeWhile_imp hmem
    · intro c hc
      simpa using head_dropWhile_eq_false c hc
  · obtain ⟨rfl, hhead⟩ := hslash
    obtain ⟨cs, rfl⟩ := List.head?_eq_some_iff.mp hhead
    have happend := splitComment_append cs
    rw [List.tail_cons]
    cases hrest : (splitComment cs).2 with
    | some rest =>
      rw [hrest] at happend
      exact ⟨by simpa [Segment.text] using happend, splitComment_not_infix cs⟩
    | none =>
      rw [hrest] at happend
      exact ⟨by simpa [Segment.text] using happend, splitComment_not_infix cs, rfl⟩
  · refine ⟨List.takeWhile_append_dropWhile, ?_, fun c hc => List.mem_takeWhile_imp hc,
      head_dropWhile_eq_false⟩
    rw [List.takeWhile_cons_of_pos hword]
    exact List.cons_ne_nil _ _
  · exact ⟨rfl, by simpa using hword, hquote, fun hc hhead => hdash ⟨hc, hhead⟩,
      fun hc hhead => hslash ⟨hc, hhead⟩⟩

theorem takeWhile_append_of_head {p : Char → Bool} {w rest : List Char} (hw : ∀ c ∈ w, p c = true)
    (hrest : ∀ c ∈ rest.head?, p c = false) :
    (w ++ rest).takeWhile p = w ∧ (w ++ rest).dropWhile p = rest := by
  rw [List.takeWhile_append_of_pos hw, List.dropWhile_append_of_pos hw]
  cases rest with
  | nil => simp
  | cons c rest =>
    have hc : ¬ p c = true := by simp [hrest c rfl]
    rw [List.takeWhile_cons_of_neg hc, List.dropWhile_cons_of_neg hc, List.append_nil]
    exact ⟨rfl, rfl⟩

/-- **The first segment is the only one** that the text starts with. -/
theorem first_eq_of_fits {s : Segment} {rest : List Char} (hfits : s.Fits rest) {c : Char}
    {cs : List Char} (htext : s.text ++ rest = c :: cs) : first c cs = (s, rest) := by
  cases s with
  | literal body =>
    obtain ⟨rfl, rfl⟩ := List.cons_eq_cons.mp htext
    have hsplit : splitLiteral (body ++ ['\''] ++ rest) = (body, some rest) := by
      rw [List.append_assoc]
      exact splitLiteral_of_quoted hfits.1 hfits.2
    rw [first, if_pos rfl]
    simp only [List.append_eq, hsplit]
  | openLiteral body =>
    obtain ⟨hbody, rfl⟩ := hfits
    obtain ⟨rfl, rfl⟩ := List.cons_eq_cons.mp htext
    rw [first, if_pos rfl]
    simp only [List.append_eq, List.append_nil, splitLiteral_of_quoted_open hbody]
  | lineComment body =>
    obtain ⟨hbody, hrest⟩ := hfits
    obtain ⟨rfl, rfl⟩ := List.cons_eq_cons.mp htext
    have hbody' : ∀ c ∈ body, (decide (c ≠ '\n')) = true := by
      intro c hc
      exact decide_eq_true fun h => hbody (h ▸ hc)
    have hrest' : ∀ c ∈ rest.head?, (decide (c ≠ '\n')) = false := by
      intro c hc
      exact decide_eq_false fun h => h (hrest c hc)
    obtain ⟨htake, hdrop⟩ := takeWhile_append_of_head hbody' hrest'
    rw [first, if_neg (by decide), if_pos ⟨rfl, rfl⟩]
    exact congrArg₂ Prod.mk (congrArg Segment.lineComment htake) hdrop
  | blockComment body =>
    obtain ⟨rfl, rfl⟩ := List.cons_eq_cons.mp htext
    have hsplit : splitComment (body ++ ['*', '/'] ++ rest) = (body, some rest) := by
      rw [List.append_assoc]
      exact splitComment_of_not_infix hfits rest
    rw [first, if_neg (by decide), if_neg fun h => absurd h.1 (by decide), if_pos ⟨rfl, rfl⟩]
    simp only [List.append_eq, List.cons_append, List.tail_cons, hsplit]
  | openComment body =>
    obtain ⟨hbody, rfl⟩ := hfits
    obtain ⟨rfl, rfl⟩ := List.cons_eq_cons.mp htext
    rw [first, if_neg (by decide), if_neg fun h => absurd h.1 (by decide), if_pos ⟨rfl, rfl⟩]
    simp only [List.append_eq, List.append_nil, List.tail_cons,
      splitComment_of_not_infix_open hbody]
  | word w =>
    obtain ⟨hne, hw, hrest⟩ := hfits
    obtain ⟨htake, hdrop⟩ := takeWhile_append_of_head hw hrest
    have hc : isWordChar c = true := by
      obtain ⟨d, w, rfl⟩ := List.exists_cons_of_ne_nil hne
      obtain ⟨rfl, -⟩ := List.cons_eq_cons.mp htext
      exact hw d List.mem_cons_self
    have hspecial : c ≠ '\'' ∧ c ≠ '-' ∧ c ≠ '/' := by
      refine ⟨?_, ?_, ?_⟩ <;> rintro rfl <;> cases hc
    rw [first, if_neg hspecial.1, if_neg fun h => hspecial.2.1 h.1,
      if_neg fun h => hspecial.2.2 h.1, if_pos hc, ← htext]
    exact congrArg₂ Prod.mk (congrArg Segment.word htake) hdrop
  | other d =>
    obtain ⟨hword, hquote, hdash, hslash⟩ := hfits
    obtain ⟨rfl, rfl⟩ := List.cons_eq_cons.mp htext
    rw [first, if_neg hquote, if_neg fun h => hdash h.1 h.2, if_neg fun h => hslash h.1 h.2,
      if_neg (by simp [hword])]
    rfl

theorem Segment.Fits.text_ne_nil {s : Segment} {rest : List Char} (h : s.Fits rest) :
    s.text ≠ [] := by
  cases s with
  | word w => exact h.1
  | _ => exact List.cons_ne_nil _ _

/-! ## Segmentations -/

theorem exists_segmentation (text : List Char) : ∃ segments, Segmentation text segments := by
  induction hlength : text.length using Nat.strong_induction_on generalizing text with
  | _ n ih =>
    cases text with
    | nil => exact ⟨[], .nil⟩
    | cons c cs =>
      obtain ⟨htext, hfits⟩ := first_spec c cs
      have hshort : (first c cs).2.length < n := by
        have h := congrArg List.length htext
        have hpos := List.length_pos_iff.mpr hfits.text_ne_nil
        rw [List.length_append] at h
        omega
      obtain ⟨segments, hsegments⟩ := ih _ hshort _ rfl
      refine ⟨(first c cs).1 :: segments, ?_⟩
      rw [← htext]
      exact .cons hfits hsegments

theorem Segmentation.eq_nil {segments : List Segment} (h : Segmentation [] segments) :
    segments = [] := by
  generalize htext : ([] : List Char) = text at h
  cases h with
  | nil => rfl
  | cons hfits _ => exact absurd (List.append_eq_nil_iff.mp htext.symm).1 hfits.text_ne_nil

theorem Segmentation.eq_first {c : Char} {cs : List Char} {segments : List Segment}
    (h : Segmentation (c :: cs) segments) :
    ∃ others, segments = (first c cs).1 :: others ∧ Segmentation (first c cs).2 others := by
  generalize htext : c :: cs = text at h
  cases h with
  | nil => cases htext
  | cons hfits hrest =>
    rw [first_eq_of_fits hfits htext.symm]
    exact ⟨_, rfl, hrest⟩

theorem Segmentation.unique {text : List Char} {segments segments' : List Segment}
    (h : Segmentation text segments) (h' : Segmentation text segments') : segments' = segments := by
  induction h generalizing segments' with
  | nil => exact h'.eq_nil
  | @cons s rest segments hfits _ ih =>
    obtain ⟨c, cs, htext⟩ := List.exists_cons_of_ne_nil
      (List.append_ne_nil_of_left_ne_nil hfits.text_ne_nil rest)
    rw [htext] at h'
    obtain ⟨others, rfl, hothers⟩ := h'.eq_first
    rw [first_eq_of_fits hfits htext] at hothers ⊢
    rw [ih hothers]

/-- **Every text has one segmentation.** -/
theorem existsUnique_segmentation (text : List Char) :
    ∃! segments, Segmentation text segments := by
  obtain ⟨segments, h⟩ := exists_segmentation text
  exact ⟨segments, h, fun segments' h' => h.unique h'⟩

end SqlText
