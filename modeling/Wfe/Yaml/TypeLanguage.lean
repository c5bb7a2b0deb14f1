import Wfe.Models.Definition
import Wfe.Yaml.Validation

/-!
# The two type languages

The engine and the workflow files each parse the text of a type on their own: `parse_type` strips
prefixes and suffixes, `parse_type_string` looks for the first `<` and tests how the text ends.
The two enumerations of types have the same constructors and are one here. The parsers accept the
same texts with the same types, and the second reads every type back from its text.

## Main definitions

* `parseType`: `parse_type`

## Main results

* `parseTypeText_toOption`: the parsers agree on every text
* `parseTypeString_display`: the text of a type is parsed to the type
* `typeLanguages_agree`: both at once
-/

namespace Wfe

/-! ## The parser of the engine -/

/-- `parse_type`, on the characters of the text. -/
def parseTypeText (text : List Char) : Except WfeError SchemaType :=
  let s := Text.trimChars text
  let shown := String.ofList s
  match _ho : s.dropSuffix? ['?'] with
  | some inner => SchemaType.optional <$> parseTypeText inner
  | none =>
    match _hl : s.dropPrefix? "list<".toList with
    | some rest =>
      match _hi : rest.dropSuffix? ['>'] with
      | some inner => SchemaType.list <$> parseTypeText inner
      | none => .error (WfeError.stepExecution s!"Invalid type syntax: {shown}")
    | none =>
      match _hm : s.dropPrefix? "map<".toList with
      | some rest =>
        match _hi : rest.dropSuffix? ['>'] with
        | some inner => SchemaType.map <$> parseTypeText inner
        | none => .error (WfeError.stepExecution s!"Invalid type syntax: {shown}")
      | none =>
        match shown with
        | "string" => .ok .string
        | "number" => .ok .number
        | "integer" => .ok .integer
        | "bool" => .ok .bool
        | "any" => .ok .any
        | _ => .error (WfeError.stepExecution s!"Unknown type: {shown}")
termination_by text.length
decreasing_by
  all_goals
    have hle := Text.length_trimChars_le text
    simp only [List.dropSuffix?_eq_some_iff, List.dropPrefix?_eq_some_iff, beq_iff_eq,
      exists_eq_right] at *
    grind

/-- `parse_type`. -/
def parseType (s : String) : Except WfeError SchemaType := parseTypeText s.toList

/-! ## What each parser strips -/

theorem dropSuffix?_singleton (s : List Char) (c : Char) :
    s.dropSuffix? [c] = if s.getLast? = some c then some s.dropLast else none := by
  split
  case isTrue h =>
    obtain ⟨init, rfl⟩ := List.getLast?_eq_some_iff.mp h
    rw [List.dropSuffix?_eq_some_iff, List.dropLast_concat]
    exact ⟨[c], rfl, beq_self_eq_true _⟩
  case isFalse h =>
    rw [Option.eq_none_iff_forall_ne_some]
    intro init hinit
    obtain ⟨tail, rfl, htail⟩ := List.dropSuffix?_eq_some_iff.mp hinit
    apply h
    rw [beq_iff_eq.mp htail, List.getLast?_concat]

/-- A text with a `<` is what stands before the first one, that `<`, and the rest. -/
theorem eq_takeWhile_append_of_mem {s : List Char} (h : '<' ∈ s) :
    s = s.takeWhile (· ≠ '<') ++ '<' :: (s.dropWhile (· ≠ '<')).tail := by
  induction s with
  | nil => cases h
  | cons c s ih =>
    by_cases hc : c = '<'
    · subst hc
      simp
    · have hs : '<' ∈ s := (List.mem_cons.mp h).resolve_left fun h => hc h.symm
      simpa [hc] using ih hs

/-- A text begins with a name and `<` exactly if the name is what stands before the first `<`. -/
theorem dropPrefix?_container (s name : List Char) (hname : '<' ∉ name) :
    s.dropPrefix? (name ++ ['<']) =
      if '<' ∈ s ∧ s.takeWhile (· ≠ '<') = name then some (s.dropWhile (· ≠ '<')).tail
      else none := by
  have hall (c : Char) (hc : c ∈ name) : decide (c ≠ '<') = true :=
    decide_eq_true fun h => hname (h ▸ hc)
  split
  case isTrue h =>
    obtain ⟨hmem, rfl⟩ := h
    rw [List.dropPrefix?_eq_some_iff]
    refine ⟨s.takeWhile (· ≠ '<') ++ ['<'], ?_, beq_self_eq_true _⟩
    rw [List.append_assoc]
    exact eq_takeWhile_append_of_mem hmem
  case isFalse h =>
    rw [Option.eq_none_iff_forall_ne_some]
    intro rest hrest
    obtain ⟨start, rfl, hstart⟩ := List.dropPrefix?_eq_some_iff.mp hrest
    apply h
    rw [beq_iff_eq.mp hstart]
    refine ⟨by simp, ?_⟩
    rw [List.append_assoc, List.takeWhile_append_of_pos hall]
    simp

theorem dropPrefix?_list (s : List Char) :
    s.dropPrefix? "list<".toList =
      if '<' ∈ s ∧ s.takeWhile (· ≠ '<') = "list".toList then some (s.dropWhile (· ≠ '<')).tail
      else none :=
  dropPrefix?_container s "list".toList (by decide)

theorem dropPrefix?_map (s : List Char) :
    s.dropPrefix? "map<".toList =
      if '<' ∈ s ∧ s.takeWhile (· ≠ '<') = "map".toList then some (s.dropWhile (· ≠ '<')).tail
      else none :=
  dropPrefix?_container s "map".toList (by decide)

/-- What follows the first `<` ends with `>` if the text does. -/
theorem getLast?_afterOpen {s : List Char} (h : '<' ∈ s) :
    (s.dropWhile (· ≠ '<')).tail.getLast? = some '>' ↔ s.getLast? = some '>' := by
  conv => rhs; rw [eq_takeWhile_append_of_mem h]
  rw [List.getLast?_append_cons, List.getLast?_cons]
  cases (s.dropWhile (· ≠ '<')).tail.getLast? <;> simp

theorem length_afterOpen {s : List Char} (h : '<' ∈ s) :
    (s.dropWhile (· ≠ '<')).tail.dropLast.length < s.length := by
  have hlen := congrArg List.length (eq_takeWhile_append_of_mem h)
  rw [List.length_append, List.length_cons] at hlen
  rw [List.length_dropLast]
  omega

theorem toOption_map {ε α β : Type} (f : α → β) (r : Except ε α) :
    (f <$> r).toOption = r.toOption.map f := by
  cases r <;> rfl

/-! ## What a text means

A trimmed text is a type with a question mark, a container or a primitive type, and each parser
reads it so. -/

/-- The type of a name. -/
def primitiveType (name : String) : Option SchemaType :=
  match name with
  | "string" => some .string
  | "number" => some .number
  | "integer" => some .integer
  | "bool" => some .bool
  | "any" => some .any
  | _ => none

/-- The type of a container, from its name and what it contains. -/
def containerType (name : String) (inner : Option SchemaType) : Option SchemaType :=
  match name with
  | "list" => inner.map .list
  | "map" => inner.map .map
  | _ => none

theorem primitiveType_of_mem {s : List Char} (h : '<' ∈ s) :
    primitiveType (String.ofList s) = none := by
  have hname : '<' ∈ (String.ofList s).toList := by rwa [String.toList_ofList]
  generalize String.ofList s = name at hname
  unfold primitiveType
  split
  case h_6 => rfl
  all_goals exact absurd hname (by decide)

/-- `parse_type` parses what the closing `>` of a container is stripped from. -/
theorem toOption_container (rest : List Char) (f : SchemaType → SchemaType) (e : WfeError) :
    (match _hi : rest.dropSuffix? ['>'] with
      | some inner => f <$> parseTypeText inner
      | none => .error e).toOption =
      if rest.getLast? = some '>' then (parseTypeText rest.dropLast).toOption.map f else none := by
  split
  case h_1 inner hi =>
    rw [dropSuffix?_singleton] at hi
    obtain ⟨hend, hi⟩ := Option.ite_none_right_eq_some.mp hi
    cases hi
    rw [if_pos hend, toOption_map]
  case h_2 hi =>
    rw [dropSuffix?_singleton, ite_eq_right_iff] at hi
    rw [if_neg fun h => by cases hi h]
    rfl

section Parsers

variable {text s : List Char} (hs : Text.trimChars text = s)

include hs

/-! ### The text of an optional type -/

theorem parseTypeChars_optional (hlast : s.getLast? = some '?') :
    parseTypeChars text = SchemaType.optional <$> parseTypeChars s.dropLast := by
  obtain ⟨init, rfl⟩ := List.getLast?_eq_some_iff.mp hlast
  rw [parseTypeChars]
  simp [hs]

theorem parseTypeText_optional (hlast : s.getLast? = some '?') :
    parseTypeText text = SchemaType.optional <$> parseTypeText s.dropLast := by
  rw [parseTypeText]
  generalize Text.trimChars text = t at hs
  subst hs
  split
  case h_1 inner ho =>
    rw [dropSuffix?_singleton, if_pos hlast] at ho
    cases ho
    rfl
  case h_2 ho =>
    rw [dropSuffix?_singleton, if_pos hlast] at ho
    cases ho

/-! ### The text of a primitive type -/

theorem parseTypeChars_primitive (hlast : s.getLast? ≠ some '?') (hmem : '<' ∉ s) :
    (parseTypeChars text).toOption = primitiveType (String.ofList s) := by
  rw [parseTypeChars]
  simp only [hs]
  split
  case isTrue h =>
    subst h
    decide
  case isFalse h =>
    have hne : s.getLast h ≠ '?' := fun hc => hlast (by rw [List.getLast?_eq_some_getLast h, hc])
    rw [if_neg hne]
    generalize String.ofList s = name
    unfold primitiveType
    split
    case h_6 => simp [Except.toOption, *]
    all_goals rfl

theorem parseTypeText_primitive (hlast : s.getLast? ≠ some '?')
    (hmem : '<' ∈ s → containerType (String.ofList (s.takeWhile (· ≠ '<'))) (some .any) = none) :
    (parseTypeText text).toOption = primitiveType (String.ofList s) := by
  rw [parseTypeText]
  generalize Text.trimChars text = t at hs
  subst hs
  split
  case h_1 inner ho =>
    rw [dropSuffix?_singleton, if_neg hlast] at ho
    cases ho
  case h_2 ho =>
    split
    case h_1 rest hl =>
      rw [dropPrefix?_list] at hl
      obtain ⟨⟨h, htake⟩, -⟩ := Option.ite_none_right_eq_some.mp hl
      rw [htake] at hmem
      cases hmem h
    case h_2 hl =>
      split
      case h_1 rest hm =>
        rw [dropPrefix?_map] at hm
        obtain ⟨⟨h, htake⟩, -⟩ := Option.ite_none_right_eq_some.mp hm
        rw [htake] at hmem
        cases hmem h
      case h_2 hm =>
        generalize String.ofList t = name
        unfold primitiveType
        split <;> rfl

/-! ### The text of a container -/

theorem parseTypeChars_container (hlast : s.getLast? ≠ some '?') (hmem : '<' ∈ s) :
    (parseTypeChars text).toOption =
      if s.getLast? = some '>' then
        containerType (String.ofList (s.takeWhile (· ≠ '<')))
          (parseTypeChars (s.dropWhile (· ≠ '<')).tail.dropLast).toOption
      else none := by
  have hne : s ≠ [] := List.ne_nil_of_mem hmem
  have hget : s.getLast? = some (s.getLast hne) := List.getLast?_eq_some_getLast hne
  have hq : s.getLast hne ≠ '?' := fun hc => hlast (by rw [hget, hc])
  rw [parseTypeChars]
  simp only [hs]
  rw [dif_neg hne, if_neg hq, if_pos hmem, hget]
  by_cases hend : s.getLast hne = '>'
  · rw [if_neg (not_not_intro hend), if_pos (congrArg some hend)]
    generalize parseTypeChars (s.dropWhile (· ≠ '<')).tail.dropLast = r
    generalize String.ofList (s.takeWhile (· ≠ '<')) = name
    unfold containerType
    split
    case h_3 => cases r <;> simp [Except.toOption, Bind.bind, Except.bind, *]
    all_goals cases r <;> rfl
  · rw [if_pos hend, if_neg fun h => hend (Option.some_inj.mp h)]
    rfl

theorem parseTypeText_container (hlast : s.getLast? ≠ some '?') (hmem : '<' ∈ s) :
    (parseTypeText text).toOption =
      if s.getLast? = some '>' then
        containerType (String.ofList (s.takeWhile (· ≠ '<')))
          (parseTypeText (s.dropWhile (· ≠ '<')).tail.dropLast).toOption
      else none := by
  by_cases hnone : ∀ inner, containerType (String.ofList (s.takeWhile (· ≠ '<'))) inner = none
  -- Neither prefix is there, and no primitive type has a `<`.
  · rw [parseTypeText_primitive hs hlast fun _ => hnone _, primitiveType_of_mem hmem, hnone,
      ite_self]
  · rw [parseTypeText]
    generalize Text.trimChars text = t at hs
    subst hs
    split
    case h_1 inner ho =>
      rw [dropSuffix?_singleton, if_neg hlast] at ho
      cases ho
    case h_2 ho =>
      split
      case h_1 rest hl =>
        rw [dropPrefix?_list] at hl
        obtain ⟨⟨-, htake⟩, hl⟩ := Option.ite_none_right_eq_some.mp hl
        cases hl
        rw [toOption_container, htake]
        exact if_congr (getLast?_afterOpen hmem) rfl rfl
      case h_2 hl =>
        split
        case h_1 rest hm =>
          rw [dropPrefix?_map] at hm
          obtain ⟨⟨-, htake⟩, hm⟩ := Option.ite_none_right_eq_some.mp hm
          cases hm
          rw [toOption_container, htake]
          exact if_congr (getLast?_afterOpen hmem) rfl rfl
        case h_2 hm =>
          refine absurd ?_ hnone
          intro inner
          have hl' : String.ofList (t.takeWhile (· ≠ '<')) ≠ "list" := by
            intro h
            rw [dropPrefix?_list, if_pos ⟨hmem, by rw [← h, String.toList_ofList]⟩] at hl
            cases hl
          have hm' : String.ofList (t.takeWhile (· ≠ '<')) ≠ "map" := by
            intro h
            rw [dropPrefix?_map, if_pos ⟨hmem, by rw [← h, String.toList_ofList]⟩] at hm
            cases hm
          unfold containerType
          split
          case h_1 h => exact absurd h hl'
          case h_2 h => exact absurd h hm'
          case h_3 => rfl

end Parsers

/-! ## Agreement -/

/-- **The parsers agree** on every text. -/
theorem parseTypeText_toOption (text : List Char) :
    (parseTypeText text).toOption = (parseTypeChars text).toOption := by
  induction hn : text.length using Nat.strongRecOn generalizing text with
  | ind n ih =>
  have hinner (inner : List Char) (h : inner.length < (Text.trimChars text).length) :
      (parseTypeText inner).toOption = (parseTypeChars inner).toOption :=
    ih inner.length (by have := Text.length_trimChars_le text; omega) inner rfl
  generalize hs : Text.trimChars text = s at hinner
  by_cases hlast : s.getLast? = some '?'
  · have hlt : s.dropLast.length < s.length := by
      obtain ⟨init, rfl⟩ := List.getLast?_eq_some_iff.mp hlast
      simp
    rw [parseTypeText_optional hs hlast, parseTypeChars_optional hs hlast, toOption_map,
      toOption_map, hinner _ hlt]
  · by_cases hmem : '<' ∈ s
    · rw [parseTypeText_container hs hlast hmem, parseTypeChars_container hs hlast hmem,
        hinner _ (length_afterOpen hmem)]
    · rw [parseTypeText_primitive hs hlast fun h => absurd h hmem,
        parseTypeChars_primitive hs hlast hmem]

/-! ## Texts of types -/

theorem trimChars_eq_self {s : List Char} (h : ∀ c ∈ s, Text.isWhitespace c = false) :
    Text.trimChars s = s := by
  have hdrop (l : List Char) (hl : ∀ c ∈ l, Text.isWhitespace c = false) :
      l.dropWhile Text.isWhitespace = l := by
    cases l with
    | nil => rfl
    | cons c l => exact List.dropWhile_cons_of_neg (by simp [hl c])
  rw [Text.trimChars, hdrop s h, hdrop s.reverse fun c hc => h c (List.mem_reverse.mp hc),
    List.reverse_reverse]

/-- No type's text has a blank in it. -/
theorem isWhitespace_display (t : SchemaType) :
    ∀ c ∈ t.display.toList, Text.isWhitespace c = false := by
  have hplain (s : String) (h : (s.toList.all fun c => !Text.isWhitespace c) = true) :
      ∀ c ∈ s.toList, Text.isWhitespace c = false := fun c hc => by
    simpa using List.all_eq_true.mp h c hc
  have hjoin (start inner last : String) (hs : ∀ c ∈ start.toList, Text.isWhitespace c = false)
      (hi : ∀ c ∈ inner.toList, Text.isWhitespace c = false)
      (hl : ∀ c ∈ last.toList, Text.isWhitespace c = false) :
      ∀ c ∈ (start ++ inner ++ last).toList, Text.isWhitespace c = false := by
    intro c hc
    rw [String.toList_append, String.toList_append, List.mem_append, List.mem_append] at hc
    exact hc.elim (fun hc => hc.elim (hs c) (hi c)) (hl c)
  induction t with
  | string | number | integer | bool | any => exact hplain _ (by decide)
  | optional inner ih =>
    have h := hjoin "" inner.display "?" (hplain _ (by decide)) ih (hplain _ (by decide))
    rwa [String.empty_append] at h
  | list inner ih =>
    exact hjoin "list<" inner.display ">" (hplain _ (by decide)) ih (hplain _ (by decide))
  | map inner ih =>
    exact hjoin "map<" inner.display ">" (hplain _ (by decide)) ih (hplain _ (by decide))

/-- A container's name and, between brackets, what it contains. -/
theorem parseTypeChars_brackets {name inner : List Char} (hname : '<' ∉ name)
    (hblank : ∀ c ∈ name ++ '<' :: (inner ++ ['>']), Text.isWhitespace c = false) :
    (parseTypeChars (name ++ '<' :: (inner ++ ['>']))).toOption =
      containerType (String.ofList name) (parseTypeChars inner).toOption := by
  have hlast : (name ++ '<' :: (inner ++ ['>'])).getLast? = some '>' := by
    rw [List.getLast?_append_cons, ← List.cons_append, List.getLast?_concat]
  have hall (c : Char) (hc : c ∈ name) : decide (c ≠ '<') = true :=
    decide_eq_true fun h => hname (h ▸ hc)
  rw [parseTypeChars_container (trimChars_eq_self hblank) (by rw [hlast]; decide) (by simp),
    if_pos hlast, List.takeWhile_append_of_pos hall, List.dropWhile_append_of_pos hall]
  simp

theorem toOption_eq_some {ε α : Type} {r : Except ε α} {a : α} :
    r.toOption = some a ↔ r = .ok a := by
  cases r <;> simp [Except.toOption]

/-- **The text of a type is parsed to the type.** -/
theorem parseTypeString_display (t : SchemaType) : parseTypeString t.display = .ok t := by
  rw [parseTypeString, ← toOption_eq_some]
  induction t with
  | string | number | integer | bool | any => decide +kernel
  | optional inner ih =>
    have hs := trimChars_eq_self (isWhitespace_display (.optional inner))
    have htext : (SchemaType.optional inner).display.toList = inner.display.toList ++ ['?'] :=
      String.toList_append
    rw [htext] at hs ⊢
    rw [parseTypeChars_optional hs List.getLast?_concat, toOption_map, List.dropLast_concat, ih]
    rfl
  | list inner ih =>
    have hblank := isWhitespace_display (.list inner)
    have htext : (SchemaType.list inner).display.toList =
        "list".toList ++ '<' :: (inner.display.toList ++ ['>']) := by
      simp [SchemaType.display]
    rw [htext] at hblank ⊢
    rw [parseTypeChars_brackets (by decide) hblank, ih]
    rfl
  | map inner ih =>
    have hblank := isWhitespace_display (.map inner)
    have htext : (SchemaType.map inner).display.toList =
        "map".toList ++ '<' :: (inner.display.toList ++ ['>']) := by
      simp [SchemaType.display]
    rw [htext] at hblank ⊢
    rw [parseTypeChars_brackets (by decide) hblank, ih]
    rfl

/-! ## One language -/

/-- The engine reads every type back from its text too. -/
theorem parseType_display (t : SchemaType) : parseType t.display = .ok t := by
  rw [← toOption_eq_some, parseType, parseTypeText_toOption, toOption_eq_some]
  exact parseTypeString_display t

/-- **One type language**: both parsers fail on a text or both find the same type in it, and
parsing is the inverse of writing a type. -/
theorem typeLanguages_agree :
    (∀ s : String,
      (∃ t, parseType s = .ok t ∧ parseTypeString s = .ok t) ∨
      (∃ e e', parseType s = .error e ∧ parseTypeString s = .error e')) ∧
    ∀ t : SchemaType, parseTypeString t.display = .ok t := by
  refine ⟨fun s => ?_, parseTypeString_display⟩
  have h : (parseType s).toOption = (parseTypeString s).toOption :=
    parseTypeText_toOption s.toList
  cases hcore : parseType s with
  | ok t =>
    rw [hcore] at h
    exact .inl ⟨t, rfl, toOption_eq_some.mp h.symm⟩
  | error e =>
    rw [hcore] at h
    cases hyaml : parseTypeString s with
    | ok t =>
      rw [hyaml] at h
      cases h
    | error e' => exact .inr ⟨e, e', rfl, rfl⟩

end Wfe
