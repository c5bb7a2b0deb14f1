import Wfe.Library.SqlText

/-!
# Prefixed tables

In table-prefix mode the migrations of the Postgres store are rewritten before they run: a prefix
goes before each table or index of the store. The scanner that does it and the segments of the text
agree, except at a digit that a letter follows: the scanner takes what follows a digit as a word of
its own.

## Main definitions

* `prefixableIdentifiers`: the tables and indexes of the migrations
* `substituteIdentifiers`: the scanner
* `TablePrefix.render`: a segment with the prefix before it, if it names one of these

## Main results

* `substituteIdentifiers_spec`: the scanner renders the segments of the text
-/

namespace Wfe

open SqlText

/-- `PREFIXABLE_IDENTIFIERS`: tables and indexes. -/
def prefixableIdentifiers : List String :=
  ["workflows",
    "definition_sequences",
    "execution_pointers",
    "events",
    "event_subscriptions",
    "execution_errors",
    "scheduled_commands",
    "idx_workflows_next_execution",
    "idx_workflows_status",
    "idx_events_name_key",
    "idx_events_is_processed",
    "idx_events_event_time",
    "idx_subscriptions_name_key",
    "idx_subscriptions_workflow",
    "idx_scheduled_commands_execute_time"]

namespace TablePrefix

/-! ## The scanner -/

/-- The loop of a string literal, after its opening quote: what it copies and what it leaves. -/
def copyLiteral : List Char → List Char × List Char
  | [] => ([], [])
  | '\'' :: '\'' :: cs => ('\'' :: '\'' :: (copyLiteral cs).1, (copyLiteral cs).2)
  | '\'' :: cs => (['\''], cs)
  | c :: cs => (c :: (copyLiteral cs).1, (copyLiteral cs).2)

/-- The loop of a block comment, after its opening. -/
def copyComment : List Char → List Char × List Char
  | [] => ([], [])
  | '*' :: '/' :: cs => (['*', '/'], cs)
  | c :: cs => (c :: (copyComment cs).1, (copyComment cs).2)

/-- One pass of the main loop at the text `c :: cs`: what it writes, and where it goes on. -/
def step (pre : List Char) (c : Char) (cs : List Char) : List Char × List Char :=
  if c = '\'' then (c :: (copyLiteral cs).1, (copyLiteral cs).2)
  else if c = '-' ∧ cs.head? = some '-' then
    ((c :: cs).takeWhile (· ≠ '\n'), (c :: cs).dropWhile (· ≠ '\n'))
  else if c = '/' ∧ cs.head? = some '*' then
    ('/' :: '*' :: (copyComment (cs.drop 1)).1, (copyComment (cs.drop 1)).2)
  else if c.isAlpha ∨ c = '_' then
    let ident := (c :: cs).takeWhile isWordChar
    let rest := (c :: cs).dropWhile isWordChar
    if String.ofList ident ∈ prefixableIdentifiers then (pre ++ ident, rest) else (ident, rest)
  else ([c], cs)

theorem isWordChar_of_start {c : Char} (hc : c.isAlpha ∨ c = '_') : isWordChar c = true := by
  rcases hc with hc | rfl
  · simp [isWordChar, Char.isAlphanum, hc]
  · rfl

theorem length_copyLiteral (cs : List Char) : (copyLiteral cs).2.length ≤ cs.length := by
  fun_induction copyLiteral cs <;> grind

theorem length_copyComment (cs : List Char) : (copyComment cs).2.length ≤ cs.length := by
  fun_induction copyComment cs <;> grind

theorem length_step (pre : List Char) (c : Char) (cs : List Char) :
    (step pre c cs).2.length ≤ cs.length := by
  unfold step
  dsimp only
  split_ifs with hquote hdash hslash hword hident
  · exact length_copyLiteral cs
  · rw [List.dropWhile_cons_of_pos (by simp [hdash.1])]
    exact (List.dropWhile_suffix _).length_le
  · exact (length_copyComment _).trans (by simp)
  · rw [List.dropWhile_cons_of_pos (isWordChar_of_start hword)]
    exact (List.dropWhile_suffix _).length_le
  · rw [List.dropWhile_cons_of_pos (isWordChar_of_start hword)]
    exact (List.dropWhile_suffix _).length_le
  · exact le_refl _

/-- The main loop. -/
def rewrite (pre : List Char) : List Char → List Char
  | [] => []
  | c :: cs => (step pre c cs).1 ++ rewrite pre (step pre c cs).2
termination_by cs => cs.length
decreasing_by exact Nat.lt_succ_of_le (length_step pre c cs)

end TablePrefix

/-- `substitute_identifiers`. -/
def substituteIdentifiers (sql pre : String) : String :=
  String.ofList (TablePrefix.rewrite pre.toList sql.toList)

namespace TablePrefix

/-! ## What the scanner means -/

/-- A segment in the rewritten text: the prefix goes before a word that names a table or an
index. -/
def render (pre : List Char) : Segment → List Char
  | .word w => if String.ofList w ∈ prefixableIdentifiers then pre ++ w else w
  | s => s.text

/-- Outside literals and comments, no letter or underscore follows a digit. -/
def DigitsLast (segments : List Segment) : Prop :=
  ∀ w, .word w ∈ segments → ∀ d c, [d, c] <:+: w → d.isDigit = true → c.isAlpha = false ∧ c ≠ '_'

theorem copyLiteral_eq (cs : List Char) :
    copyLiteral cs = (splitLiteral cs).2.elim ((splitLiteral cs).1, []) fun rest =>
      ((splitLiteral cs).1 ++ ['\''], rest) := by
  fun_induction splitLiteral cs with
  | case1 => rfl
  | case2 cs ih => rw [copyLiteral, ih]; cases (splitLiteral cs).2 <;> rfl
  | case3 cs h => rw [copyLiteral]; · rfl
                  · exact h
  | case4 c cs hpair hclose ih =>
    rw [copyLiteral, ih]
    · cases (splitLiteral cs).2 <;> rfl
    · exact hpair
    · exact hclose

theorem copyComment_eq (cs : List Char) :
    copyComment cs = (splitComment cs).2.elim ((splitComment cs).1, []) fun rest =>
      ((splitComment cs).1 ++ ['*', '/'], rest) := by
  fun_induction splitComment cs with
  | case1 => rfl
  | case2 cs => rfl
  | case3 c cs h ih =>
    rw [copyComment, ih]
    · cases (splitComment cs).2 <;> rfl
    · exact h

theorem isWordChar_iff {c : Char} (hc : c.isDigit = false) :
    isWordChar c = true ↔ c.isAlpha ∨ c = '_' := by
  simp [isWordChar, Char.isAlphanum, hc]

/-- One pass takes one segment, unless it starts at a digit. -/
theorem step_eq_first (pre : List Char) {c : Char} (hc : c.isDigit = false) (cs : List Char) :
    step pre c cs = (render pre (first c cs).1, (first c cs).2) := by
  unfold step first
  simp only [isWordChar_iff hc]
  by_cases hquote : c = '\''
  · rw [if_pos hquote, if_pos hquote, copyLiteral_eq, hquote]
    cases (splitLiteral cs).2 <;> rfl
  rw [if_neg hquote, if_neg hquote]
  by_cases hdash : c = '-' ∧ cs.head? = some '-'
  · rw [if_pos hdash, if_pos hdash]
    obtain ⟨rfl, hhead⟩ := hdash
    obtain ⟨cs, rfl⟩ := List.head?_eq_some_iff.mp hhead
    rfl
  rw [if_neg hdash, if_neg hdash]
  by_cases hslash : c = '/' ∧ cs.head? = some '*'
  · rw [if_pos hslash, if_pos hslash, List.drop_one, copyComment_eq]
    cases (splitComment cs.tail).2 <;> rfl
  rw [if_neg hslash, if_neg hslash]
  by_cases hword : c.isAlpha ∨ c = '_'
  · rw [if_pos hword, if_pos hword]
    by_cases hident : String.ofList ((c :: cs).takeWhile isWordChar) ∈ prefixableIdentifiers
    · rw [if_pos hident, render, if_pos hident]
    · rw [if_neg hident, render, if_neg hident]
  · rw [if_neg hword, if_neg hword]
    rfl

/-! ## Digits -/

theorem step_digit (pre : List Char) {c : Char} (hc : c.isDigit = true) (cs : List Char) :
    step pre c cs = ([c], cs) := by
  have hspecial : c ≠ '\'' ∧ c ≠ '-' ∧ c ≠ '/' ∧ c ≠ '_' := by
    refine ⟨?_, ?_, ?_, ?_⟩ <;> rintro rfl <;> cases hc
  have halpha : ¬ c.isAlpha := by
    unfold Char.isDigit at hc
    unfold Char.isAlpha Char.isUpper Char.isLower
    simp only [Bool.and_eq_true, Bool.or_eq_true, decide_eq_true_eq, ge_iff_le,
      UInt32.le_iff_toNat_le] at hc ⊢
    simp at hc ⊢
    omega
  rw [step, if_neg hspecial.1, if_neg fun h => hspecial.2.1 h.1, if_neg fun h => hspecial.2.2.1 h.1,
    if_neg (not_or.mpr ⟨halpha, hspecial.2.2.2⟩)]

theorem rewrite_digits (pre : List Char) {w : List Char} (hw : ∀ c ∈ w, c.isDigit = true)
    (rest : List Char) : rewrite pre (w ++ rest) = w ++ rewrite pre rest := by
  induction w with
  | nil => rfl
  | cons c w ih =>
    rw [List.cons_append, rewrite, step_digit pre (hw c List.mem_cons_self),
      ih fun d hd => hw d (List.mem_cons_of_mem c hd)]
    rfl

/-- A word that starts with a digit is a number, if letters never follow digits. -/
theorem digits_of_head {w : List Char} {c : Char} (hword : ∀ d ∈ c :: w, isWordChar d = true)
    (hlast : ∀ d e, [d, e] <:+: c :: w → d.isDigit = true → e.isAlpha = false ∧ e ≠ '_')
    (hc : c.isDigit = true) : ∀ d ∈ c :: w, d.isDigit = true := by
  induction w generalizing c with
  | nil => simpa using hc
  | cons e w ih =>
    obtain ⟨halpha, hunder⟩ := hlast c e ⟨[], w, rfl⟩ hc
    have he : e.isDigit = true := by
      have h := hword e (List.mem_cons_of_mem c List.mem_cons_self)
      simpa [isWordChar, Char.isAlphanum, halpha, hunder] using h
    refine List.forall_mem_cons.mpr ⟨hc, ih (fun d hd => hword d (List.mem_cons_of_mem c hd)) ?_ he⟩
    intro d d' hpair
    exact hlast d d' (hpair.trans (List.suffix_cons c (e :: w)).isInfix)

/-- A literal that starts with no digit. -/
theorem isDigit_head_literal {s : String} {c : Char} {cs : List Char}
    (hs : s = String.ofList (c :: cs)) (hc : c.isDigit = false) :
    ∀ d ∈ s.toList.head?, d.isDigit = false := by
  rw [hs, String.toList_ofList]
  rintro d ⟨⟩
  exact hc

theorem isDigit_head_of_mem {w : List Char} (hw : String.ofList w ∈ prefixableIdentifiers) :
    ∀ c ∈ w.head?, c.isDigit = false := by
  have hall : ∀ ident ∈ prefixableIdentifiers, ∀ c ∈ ident.toList.head?, c.isDigit = false := by
    unfold prefixableIdentifiers
    iterate 15 refine List.forall_mem_cons.mpr ⟨isDigit_head_literal rfl rfl, ?_⟩
    exact List.forall_mem_nil _
  have hhead := hall _ hw
  rwa [String.toList_ofList] at hhead

/-- A segment that starts with a digit is a word. -/
theorem eq_word_of_digit {s : Segment} {rest : List Char} (h : s.Fits rest) {c : Char}
    {cs : List Char} (htext : s.text ++ rest = c :: cs) (hc : c.isDigit = true) :
    ∃ w, s = .word w := by
  cases s with
  | word w => exact ⟨w, rfl⟩
  | other d =>
    obtain ⟨rfl, -⟩ := List.cons_eq_cons.mp htext
    have hword := h.1
    simp [isWordChar, Char.isAlphanum, hc] at hword
  | _ =>
    obtain ⟨rfl, -⟩ := List.cons_eq_cons.mp htext
    cases hc

/-- **The scanner renders the segments.** -/
theorem rewrite_eq_render (pre : List Char) {sql : List Char} {segments : List Segment}
    (h : Segmentation sql segments) (hlast : DigitsLast segments) :
    rewrite pre sql = (segments.map (render pre)).flatten := by
  induction h with
  | nil => rw [rewrite, List.map_nil, List.flatten_nil]
  | @cons s rest segments hfits _ ih =>
    have hrest := ih fun w hw => hlast w (List.mem_cons_of_mem s hw)
    obtain ⟨c, cs, htext⟩ := List.exists_cons_of_ne_nil
      (List.append_ne_nil_of_left_ne_nil hfits.text_ne_nil rest)
    rw [List.map_cons, List.flatten_cons, ← hrest]
    cases hc : c.isDigit with
    | false => rw [htext, rewrite, step_eq_first pre hc, first_eq_of_fits hfits htext]
    | true =>
      -- The segment is a number, and the scanner copies it digit by digit.
      obtain ⟨w, rfl⟩ := eq_word_of_digit hfits htext hc
      obtain ⟨d, w, rfl⟩ := List.exists_cons_of_ne_nil hfits.1
      obtain ⟨rfl, -⟩ := List.cons_eq_cons.mp htext
      have hdigits := digits_of_head hfits.2.1 (hlast _ List.mem_cons_self) hc
      have hident : String.ofList (d :: w) ∉ prefixableIdentifiers := by
        intro hmem
        rw [isDigit_head_of_mem hmem d rfl] at hc
        cases hc
      rw [render, if_neg hident]
      exact rewrite_digits pre hdigits rest

/-! ## No prefix -/

theorem copyLiteral_append (cs : List Char) : (copyLiteral cs).1 ++ (copyLiteral cs).2 = cs := by
  fun_induction copyLiteral cs <;> grind

theorem copyComment_append (cs : List Char) : (copyComment cs).1 ++ (copyComment cs).2 = cs := by
  fun_induction copyComment cs <;> grind

theorem step_nil_append (c : Char) (cs : List Char) :
    (step [] c cs).1 ++ (step [] c cs).2 = c :: cs := by
  unfold step
  dsimp only
  split_ifs with hquote hdash hslash
  · rw [List.cons_append, copyLiteral_append]
  · exact List.takeWhile_append_dropWhile
  · obtain ⟨rfl, hhead⟩ := hslash
    obtain ⟨cs, rfl⟩ := List.head?_eq_some_iff.mp hhead
    rw [List.cons_append, List.cons_append, copyComment_append]
    rfl
  · exact List.takeWhile_append_dropWhile
  · exact List.takeWhile_append_dropWhile
  · rfl

/-- Without a prefix, every pass copies what it reads. -/
theorem rewrite_nil (cs : List Char) : rewrite [] cs = cs := by
  fun_induction rewrite [] cs with
  | case1 => rfl
  | case2 c cs ih => rw [ih, step_nil_append]

end TablePrefix

/-- **The prefix goes before the names of tables and indexes, and nothing else changes.** Every SQL
text has one segmentation. If no letter follows a digit outside literals and comments, the rewritten
text is its segments in order, each word that names a table or an index with the prefix before it.
Without a prefix no text changes. -/
theorem substituteIdentifiers_spec (sql pre : String) :
    (∃! segments, Segmentation sql.toList segments) ∧
      (∀ segments, Segmentation sql.toList segments → TablePrefix.DigitsLast segments →
        substituteIdentifiers sql pre =
          String.ofList ((segments.map (TablePrefix.render pre.toList)).flatten)) ∧
      substituteIdentifiers sql "" = sql := by
  refine ⟨existsUnique_segmentation _, fun segments h hlast => ?_, ?_⟩
  · rw [substituteIdentifiers, TablePrefix.rewrite_eq_render _ h hlast]
  · rw [substituteIdentifiers, String.toList_empty, TablePrefix.rewrite_nil, String.ofList_toList]

/-- A literal, a table, and a word that ends with a digit. -/
def threeTexts : List Segment :=
  [.literal "events".toList, .other ' ', .word "events".toList, .other ' ', .word "v2".toList]

theorem substituteIdentifiers_threeTexts :
    (∃! segments, Segmentation "'events' events v2".toList segments) ∧
      Segmentation "'events' events v2".toList threeTexts ∧ TablePrefix.DigitsLast threeTexts ∧
      substituteIdentifiers "'events' events v2" "wfe_" =
        String.ofList ((threeTexts.map (TablePrefix.render "wfe_".toList)).flatten) ∧
      substituteIdentifiers "'events' events v2" "" = "'events' events v2" := by
  have hliteral : Segment.Fits (.literal "events".toList) " events v2".toList :=
    ⟨splitLiteral_quoted "events".toList, by decide⟩
  have htable : Segment.Fits (.word "events".toList) " v2".toList :=
    ⟨by decide, List.all_eq_true.mp rfl, fun c hc => (Option.some.inj hc : ' ' = c) ▸ rfl⟩
  have hword : Segment.Fits (.word "v2".toList) [] := ⟨by decide, List.all_eq_true.mp rfl, by simp⟩
  have hblank (rest : List Char) : Segment.Fits (.other ' ') rest :=
    ⟨by decide, by decide, fun h => absurd h (by decide), fun h => absurd h (by decide)⟩
  have hsegments : Segmentation "'events' events v2".toList threeTexts :=
    .cons hliteral (.cons (hblank "events v2".toList) (.cons htable (.cons (hblank "v2".toList)
      (.cons hword .nil))))
  have hlast : TablePrefix.DigitsLast threeTexts := by
    intro w hw d c hpair hdigit
    -- What comes before another character is not the last one.
    have hmem : d ∈ w.dropLast := by
      obtain ⟨before, after, rfl⟩ := hpair
      simp [List.dropLast_append_of_ne_nil]
    have hw' : w = "events".toList ∨ w = "v2".toList := by simpa [threeTexts] using hw
    have hnone : (w.dropLast.all fun x => !x.isDigit) = true := by
      rcases hw' with rfl | rfl <;> rfl
    simpa [hdigit] using List.all_eq_true.mp hnone d hmem
  obtain ⟨hunique, hrender, hcopy⟩ := substituteIdentifiers_spec "'events' events v2" "wfe_"
  exact ⟨hunique, hsegments, hlast, hrender threeTexts hsegments hlast, hcopy⟩

example : substituteIdentifiers "SELECT 'events''' FROM events -- events" "wfe_" =
    "SELECT 'events''' FROM wfe_events -- events" := by decide +kernel

end Wfe
