import Wfe.Library.DotText
import Wfe.Library.Rfc3339
import Wfe.Models.Definition
import Wfe.Models.Text

/-!
# Rendering a workflow as DOT

`to_dot` writes a definition as a graph: a node for each step, and edges for outcomes, children
and compensations. Names and labels are escaped. An outcome without a label is labelled with its
value, whose JSON text is shortened to 40 bytes at a byte position, and that panics inside of a
character. The display of JSON values is a parameter.

## Main definitions

* `Dot.dotEscape`, `Dot.htmlEscape`, `Dot.truncate`: the helpers; a panic is `none`
* `Dot.stepDotLabel`, `WorkflowDefinition.writeDot`, `WorkflowDefinition.toDot`: the rendering
* `WorkflowDefinition.dotStrings`: the strings it writes
* `WorkflowDefinition.ValuesFit`: no value is cut inside of a character
-/

namespace Wfe

namespace Text

/-- `str::replace` of a character. -/
def replaceChar (s : String) (c : Char) (text : String) : String :=
  String.ofList (s.toList.flatMap fun d => if d = c then text.toList else [d])

/-- Removes the occurrences of `pat` from left to right; `skip` characters of one are still to be
passed over. -/
def removeFrom (pat : List Char) : Nat → List Char → List Char
  | _, [] => []
  | skip + 1, _ :: cs => removeFrom pat skip cs
  | 0, c :: cs =>
    if pat.isPrefixOf (c :: cs) then removeFrom pat (pat.length - 1) cs
    else c :: removeFrom pat 0 cs

/-- `str::replace` of a string by nothing. -/
def remove (s pat : String) : String := String.ofList (removeFrom pat.toList 0 s.toList)

/-- What follows the last occurrence of `pat`; without one, all of the text. -/
def afterLast (s pat : String) : String :=
  match s.toList.tails.reverse.find? (pat.toList.isPrefixOf ·) with
  | some rest => String.ofList (rest.drop pat.toList.length)
  | none => s

/-- The characters in the first `n` bytes, if these end between two characters. -/
def takeBytes : Nat → List Char → Option (List Char)
  | 0, _ => some []
  | _ + 1, [] => none
  | n + 1, c :: cs =>
    if c.utf8Size ≤ n + 1 then (takeBytes (n + 1 - c.utf8Size) cs).map (c :: ·) else none

/-- `&s[..n]`; it panics unless `n` is at a character boundary. -/
def sliceTo (s : String) (n : Nat) : Option String := (takeBytes n s.toList).map String.ofList

end Text

namespace Dot

open Text

/-- What stands between the quotes of an escaped string. -/
def escaped (s : String) : String :=
  replaceChar (replaceChar (replaceChar s '\\' "\\\\") '"' "\\\"") '\n' "\\n"

def dotEscape (s : String) : String := "\"" ++ escaped s ++ "\""

def dotEscapeId (s : String) : String := dotEscape s

def htmlEscape (s : String) : String :=
  replaceChar (replaceChar (replaceChar (replaceChar s '&' "&amp;") '<' "&lt;") '>' "&gt;")
    '"' "&quot;"

/-- The prefixes `clean_type_name` removes. -/
def typePrefixes : List String :=
  ["wfe_core::primitives::", "wfe_core::", "crate::workflows::primitives::",
    "crate::workflows::steps::", "crate::workflows::up::steps::",
    "crate::workflows::down::steps::", "crate::"]

def cleanTypeName (typeName : String) : String :=
  afterLast (typePrefixes.foldl remove typeName) "::"

def stepFillColor (step : WorkflowStep) : String :=
  let t := step.stepType
  if step.saga then "#ede9fe"
  else if contains t "SequenceStep" then "#dbeafe"
  else if contains t "IfStep" then "#d1fae5"
  else if contains t "WhileStep" then "#fef3c7"
  else if contains t "ForEachStep" then "#ffedd5"
  else if contains t "SagaContainerStep" then "#ede9fe"
  else if contains t "DecideStep" then "#ccfbf1"
  else if contains t "WaitForStep" then "#fce7f3"
  else if contains t "DelayStep" || contains t "ScheduleStep" then "#f3e8ff"
  else if contains t "EndStep" then "#e5e7eb"
  else if contains t "SubWorkflowStep" then "#e0f2fe"
  else "#f3f4f6"

def stepShape (step : WorkflowStep) : String :=
  let t := step.stepType
  if contains t "EndStep" then "oval"
  else if contains t "DecideStep" then "diamond"
  else if contains t "SequenceStep" || contains t "IfStep" || contains t "WhileStep"
      || contains t "ForEachStep" || contains t "SagaContainerStep" then "box3d"
  else "box"

/-- Shortens a text of more than `maxLen` bytes; `none` is a panic. -/
def truncate (s : String) (maxLen : Nat) : Option String :=
  if s.utf8ByteSize ≤ maxLen then some s
  else (sliceTo s (maxLen - 1)).map (· ++ "…")

/-- `fmt_decimal`: an integer part, and the digits of a fraction without zeros at the end. -/
def fmtDecimal (integer fraction width : Nat) (unit : String) : String :=
  let digits := ((Rfc3339.digits width fraction).reverse.dropWhile (· = '0')).reverse
  toString integer ++ (if fraction = 0 then "" else "." ++ String.ofList digits) ++ unit

/-- `Debug` of `Duration`. -/
def durationDebug (d : Duration) : String :=
  let secs := d / 1000000000
  let nanos := d % 1000000000
  if 0 < secs then fmtDecimal secs nanos 9 "s"
  else if 1000000 ≤ nanos then fmtDecimal (nanos / 1000000) (nanos % 1000000) 6 "ms"
  else if 1000 ≤ nanos then fmtDecimal (nanos / 1000) (nanos % 1000) 3 "µs"
  else fmtDecimal nanos 0 0 "ns"

/-- `Debug` of `ErrorBehavior`. -/
def errorBehaviorDebug : ErrorBehavior → String
  | .retry interval maxRetries => "Retry \x7b interval: " ++ durationDebug interval ++
      ", max_retries: " ++ toString maxRetries ++ " \x7d"
  | .suspend => "Suspend"
  | .terminate => "Terminate"
  | .compensate => "Compensate"

/-- The rows of the label of a step. -/
def labelLines (step : WorkflowStep) : List String :=
  (step.name.map fun name => "<TR><TD><B>" ++ htmlEscape name ++ "</B></TD></TR>").toList ++
  ["<TR><TD><FONT POINT-SIZE=\"8\" COLOR=\"#6b7280\">" ++ htmlEscape (cleanTypeName step.stepType)
    ++ "</FONT></TD></TR>"] ++
  (if step.when.isSome then
    ["<TR><TD><FONT POINT-SIZE=\"7\" COLOR=\"#059669\">[when]</FONT></TD></TR>"] else []) ++
  (step.errorBehavior.map fun eb => "<TR><TD><FONT POINT-SIZE=\"7\" COLOR=\"#dc2626\">[" ++
    errorBehaviorDebug eb ++ "]</FONT></TD></TR>").toList

def stepDotLabel (step : WorkflowStep) : String :=
  "<\n  <TABLE BORDER=\"0\" CELLBORDER=\"0\" CELLSPACING=\"1\" CELLPADDING=\"2\">\n    " ++
    join "\n    " (labelLines step) ++ "\n  </TABLE>\n>"

/-- The node of a step. -/
def stepNode (step : WorkflowStep) : String :=
  let attrs := ["label=" ++ stepDotLabel step, "shape=" ++ stepShape step,
      "fillcolor=\"" ++ stepFillColor step ++ "\""] ++
    (if step.when.isSome then ["style=\"rounded,filled,dashed\"", "color=\"#059669\""] else []) ++
    (if step.errorBehavior.isSome then ["penwidth=1.5"] else [])
  "    N" ++ toString step.id ++ " [" ++ join ", " attrs ++ "];\n"

/-- The attributes of the edge of an outcome. -/
def outcomeAttrs (display : Json → String) (outcome : StepOutcome) : Option (List String) :=
  match outcome.label, outcome.value with
  | some lbl, _ => some ["label=" ++ dotEscape lbl]
  | none, some val => (truncate (display val) 40).map fun txt => ["label=" ++ dotEscape txt]
  | none, none => some []

/-- The edge of an outcome. -/
def outcomeEdge (display : Json → String) (step : WorkflowStep) (outcome : StepOutcome) :
    Option String := do
  let edgeAttrs ← outcomeAttrs display outcome
  return "    N" ++ toString step.id ++ " -> N" ++ toString outcome.nextStep ++
    (if edgeAttrs.isEmpty then "" else " [" ++ join ", " edgeAttrs ++ "]") ++ ";\n"

/-- The edge to a child. -/
def childEdge (step : WorkflowStep) (childId : Nat) : String :=
  "    N" ++ toString step.id ++ " -> N" ++ toString childId ++
    " [style=dotted, color=\"#9ca3af\", arrowhead=none, penwidth=1.2];\n"

/-- The edge to a compensation. -/
def compensationEdge (step : WorkflowStep) (compId : Nat) : String :=
  "    N" ++ toString step.id ++ " -> N" ++ toString compId ++
    " [style=dashed, color=\"#dc2626\", label=\"compensate\", fontcolor=\"#dc2626\", " ++
    "penwidth=1.2];\n"

/-- The texts of the elements one after another. -/
def writeAll {α : Type} (write : α → Option String) : List α → Option String
  | [] => some ""
  | x :: xs => do
    let text ← write x
    let rest ← writeAll write xs
    return text ++ rest

end Dot

namespace WorkflowDefinition

open Dot

def displayName (d : WorkflowDefinition) : String := d.name.getD d.id

/-- What `write_dot` writes before the nodes. -/
def dotHeader (d : WorkflowDefinition) : String :=
  "digraph " ++ dotEscapeId d.id ++ " \x7b\n" ++
  "    label=" ++ dotEscape (d.displayName ++ " v" ++ toString d.version) ++ "\n" ++
  "    labelloc=t\n" ++
  "    fontsize=14\n" ++
  "    fontname=\"Helvetica-Bold\"\n" ++
  "    rankdir=TB\n" ++
  "    graph [fontname=\"Helvetica\", fontsize=10, bgcolor=\"white\", margin=20]\n" ++
  "    node [fontname=\"Helvetica\", shape=box, style=\"rounded,filled\", " ++
  "fillcolor=\"#f3f4f6\", fontsize=9, penwidth=1.0]\n" ++
  "    edge [fontname=\"Helvetica\", fontsize=8, color=\"#374151\", penwidth=1.0]\n" ++
  "\n"

/-- `write_dot` to a string. -/
def writeDot (display : Json → String) (d : WorkflowDefinition) : Option String := do
  let outcomes ← writeAll (fun step => writeAll (outcomeEdge display step) step.outcomes) d.steps
  return d.dotHeader ++ String.join (d.steps.map stepNode) ++ "\n" ++ outcomes ++
    String.join (d.steps.map fun step => String.join (step.children.map (childEdge step))) ++
    String.join (d.steps.map fun step =>
      ((step.compensationStepId.map (compensationEdge step)).getD "")) ++ "\x7d\n"

/-- `to_dot`. -/
def toDot (display : Json → String) (d : WorkflowDefinition) : Option String := d.writeDot display

end WorkflowDefinition

/-! ## The strings that are written -/

namespace Dot

/-- The strings in the label of a step. -/
def labelStrings (step : WorkflowStep) : List String :=
  ["0", "0", "1", "2", "8", "#6b7280"] ++ (if step.when.isSome then ["7", "#059669"] else []) ++
    (if step.errorBehavior.isSome then ["7", "#dc2626"] else [])

def nodeStrings (step : WorkflowStep) : List String :=
  labelStrings step ++ [stepFillColor step] ++
    (if step.when.isSome then ["rounded,filled,dashed", "#059669"] else [])

def outcomeStrings (display : Json → String) (outcome : StepOutcome) : List String :=
  match outcome.label, outcome.value with
  | some lbl, _ => [escaped lbl]
  | none, some val => [escaped ((truncate (display val) 40).getD "")]
  | none, none => []

end Dot

open Dot in
/-- The strings of the rendering in order, escaped as they stand between their quotes. -/
def WorkflowDefinition.dotStrings (display : Json → String) (d : WorkflowDefinition) :
    List String :=
  [escaped d.id, escaped (d.displayName ++ " v" ++ toString d.version), "Helvetica-Bold",
    "Helvetica", "white", "Helvetica", "rounded,filled", "#f3f4f6", "Helvetica", "#374151"] ++
  d.steps.flatMap nodeStrings ++
  d.steps.flatMap (fun step => step.outcomes.flatMap (outcomeStrings display)) ++
  d.steps.flatMap (fun step => step.children.flatMap fun _ => ["#9ca3af"]) ++
  d.steps.flatMap fun step => if step.compensationStepId.isSome then
    ["#dc2626", "compensate", "#dc2626"] else []

/-- Every value that labels an outcome has at most 40 bytes of JSON text, or the 39th byte of the
text is the last of a character. -/
def WorkflowDefinition.ValuesFit (display : Json → String) (d : WorkflowDefinition) : Prop :=
  ∀ step ∈ d.steps, ∀ outcome ∈ step.outcomes, outcome.label = none → ∀ val ∈ outcome.value,
    (display val).utf8ByteSize ≤ 40 ∨ String.Pos.Raw.IsValid (display val) ⟨39⟩

/-! ## Slices -/

namespace Text

theorem utf8ByteSize_ofList_cons (c : Char) (cs : List Char) :
    (String.ofList (c :: cs)).utf8ByteSize = c.utf8Size + (String.ofList cs).utf8ByteSize := by
  rw [← List.singleton_append, String.ofList_append, String.utf8ByteSize_append]
  simp

/-- The characters in the first bytes of a text take exactly these bytes. -/
theorem takeBytes_isSome_iff {n : Nat} {cs : List Char} :
    (takeBytes n cs).isSome ↔ ∃ i, n = (String.ofList (cs.take i)).utf8ByteSize := by
  induction cs generalizing n with
  | nil =>
    cases n with
    | zero => exact iff_of_true rfl ⟨0, rfl⟩
    | succ n => simp [takeBytes]
  | cons c cs ih =>
    cases n with
    | zero => exact iff_of_true rfl ⟨0, rfl⟩
    | succ n =>
      rw [takeBytes]
      split_ifs with hsize
      · rw [Option.isSome_map, ih]
        constructor
        · rintro ⟨i, hi⟩
          exact ⟨i + 1, by rw [List.take_succ_cons, utf8ByteSize_ofList_cons]; omega⟩
        · rintro ⟨_ | i, hi⟩
          · exact absurd hi (Nat.succ_ne_zero n)
          · rw [List.take_succ_cons, utf8ByteSize_ofList_cons] at hi
            exact ⟨i, by omega⟩
      · -- The first character is longer than the slice.
        refine iff_of_false Bool.false_ne_true ?_
        rintro ⟨_ | i, hi⟩
        · exact absurd hi (Nat.succ_ne_zero n)
        · rw [List.take_succ_cons, utf8ByteSize_ofList_cons] at hi
          omega

/-- **A slice returns at the boundaries of characters, and only there.** -/
theorem sliceTo_isSome_iff {s : String} {n : Nat} :
    (sliceTo s n).isSome ↔ String.Pos.Raw.IsValid s ⟨n⟩ := by
  rw [sliceTo, Option.isSome_map, takeBytes_isSome_iff,
    String.Pos.Raw.isValid_iff_exists_take_toList]

/-- A literal is the list of its characters. -/
theorem toList_literal {s : String} {cs : List Char} (h : s = String.ofList cs) :
    s.toList = cs := by
  rw [h, String.toList_ofList]

theorem toList_replaceChar (s : String) (c : Char) (text : String) :
    (replaceChar s c text).toList =
      s.toList.flatMap fun d => if d = c then text.toList else [d] := String.toList_ofList

theorem mem_replaceChar {s : String} {c d : Char} {text : String}
    (h : d ∈ (replaceChar s c text).toList) : d ∈ text.toList ∨ d ∈ s.toList ∧ d ≠ c := by
  rw [toList_replaceChar, List.mem_flatMap] at h
  obtain ⟨e, he, hd⟩ := h
  split_ifs at hd with hec
  · exact .inl hd
  · rw [List.mem_singleton] at hd
    exact .inr ⟨hd ▸ he, hd ▸ hec⟩

/-- A character is gone once it has been replaced. -/
theorem notMem_replaceChar_self {s : String} {c : Char} {text : String} (h : c ∉ text.toList) :
    c ∉ (replaceChar s c text).toList := fun hc => (mem_replaceChar hc).elim h fun hc => hc.2 rfl

theorem notMem_replaceChar {s : String} {c d : Char} {text : String} (hs : d ∉ s.toList)
    (h : d ∉ text.toList) : d ∉ (replaceChar s c text).toList :=
  fun hd => (mem_replaceChar hd).elim h fun hd => hs hd.1

end Text

/-! ## Reading the rendering -/

namespace Dot

open DotText Text

/-- A text is read from the mode `m` to `m'`, with the strings `ss` in it. -/
def ReadsTo (m m' : Mode) (s : String) (ss : List String) : Prop :=
  read m s.toList = (m', ss.map String.toList)

/-- A text is read from the mode `m` back to it. -/
abbrev Reads (m : Mode) (s : String) (ss : List String) : Prop := ReadsTo m m s ss

/-- The texts of a list, each read back to the mode `m`, with the strings `ss` in all of them. -/
inductive ReadsAll (m : Mode) : List String → List String → Prop
  | nil : ReadsAll m [] []
  | cons {s : String} {ss ts : List String} {texts : List String} :
      Reads m s ss → ReadsAll m texts ts → ReadsAll m (s :: texts) (ss ++ ts)

/-- No quotes and no brackets. -/
def Plain (s : String) : Prop := ∀ c ∈ s.toList, c ≠ '"' ∧ c ≠ '<' ∧ c ≠ '>'

section Reads

variable {m m' m'' : Mode} {s t u : String} {ss ts texts texts' : List String}

theorem ReadsTo.append (hs : ReadsTo m m' s ss) (ht : ReadsTo m' m'' t ts) :
    ReadsTo m m'' (s ++ t) (ss ++ ts) := by
  unfold ReadsTo at *
  rw [String.toList_append, List.map_append]
  exact read_append hs ht

/-- What is appended holds no strings. -/
theorem ReadsTo.append_nil (hs : ReadsTo m m' s ss) (ht : ReadsTo m' m'' t []) :
    ReadsTo m m'' (s ++ t) ss := by
  have h := hs.append ht
  rwa [List.append_nil] at h

/-- What is put in front holds no strings. -/
theorem ReadsTo.nil_append (hs : ReadsTo m m' s []) (ht : ReadsTo m' m'' t ts) :
    ReadsTo m m'' (s ++ t) ts := hs.append ht

/-- A literal is read as the list of its characters. -/
theorem ReadsTo.literal {cs : List Char} (hs : s = String.ofList cs)
    (h : ((read m cs).1, (read m cs).2.map String.ofList) = (m', ss)) : ReadsTo m m' s ss := by
  obtain ⟨rfl, rfl⟩ := Prod.mk.inj h
  have htoList : String.toList ∘ String.ofList = id := funext fun _ => String.toList_ofList
  rw [ReadsTo, toList_literal hs, List.map_map, htoList, List.map_id]

theorem reads_nil : Reads m "" [] := by
  rw [Reads, ReadsTo, String.toList_empty]
  rfl

theorem ReadsAll.singleton (h : Reads m s ss) : ReadsAll m [s] ss := by
  have hcons := ReadsAll.cons h .nil
  rwa [List.append_nil] at hcons

theorem ReadsAll.append (h : ReadsAll m texts ss) (h' : ReadsAll m texts' ts) :
    ReadsAll m (texts ++ texts') (ss ++ ts) := by
  induction h with
  | nil => exact h'
  | cons hs _ ih =>
    rw [List.cons_append, List.append_assoc]
    exact .cons hs ih

/-- Text that is written under a condition. -/
theorem ReadsAll.ite {p : Prop} [Decidable p] (h : p → ReadsAll m texts ss) :
    ReadsAll m (if p then texts else []) (if p then ss else []) := by
  split_ifs with hp
  · exact h hp
  · exact .nil

theorem ReadsAll.map {α : Type} {xs : List α} {text : α → String} {strs : α → List String}
    (h : ∀ x ∈ xs, Reads m (text x) (strs x)) : ReadsAll m (xs.map text) (xs.flatMap strs) := by
  induction xs with
  | nil => exact .nil
  | cons x xs ih =>
    exact .cons (h x List.mem_cons_self) (ih fun y hy => h y (List.mem_cons_of_mem x hy))

/-- Texts with a separator that holds no string. -/
theorem ReadsAll.join {sep : String} (hsep : Reads m sep []) (h : ReadsAll m texts ss) :
    Reads m (join sep texts) ss := by
  induction h with
  | nil => exact reads_nil
  | cons hs hrest ih =>
    cases hrest with
    | nil => simpa [Text.join] using hs
    | cons hs' hrest' => exact (hs.append_nil hsep).append ih

/-- Texts one after another. -/
theorem ReadsAll.concat (h : ReadsAll m texts ss) : Reads m (String.join texts) ss := by
  induction h with
  | nil => exact reads_nil
  | cons hs _ ih =>
    rw [String.join_cons]
    exact hs.append ih

theorem Plain.append (hs : Plain s) (ht : Plain t) : Plain (s ++ t) := by
  intro c hc
  rw [String.toList_append, List.mem_append] at hc
  exact hc.elim (hs c) (ht c)

theorem Plain.outside (h : Plain s) : Reads .outside s [] :=
  read_plain fun c hc => ⟨(h c hc).1, (h c hc).2.1⟩

theorem Plain.label (h : Plain s) (depth : Nat) : Reads (.label depth) s [] :=
  read_label h depth

/-- A literal without quotes and brackets. -/
theorem Plain.literal {cs : List Char} (hs : s = String.ofList cs)
    (h : (cs.all fun c => c ≠ '"' && c ≠ '<' && c ≠ '>') = true) : Plain s := by
  intro c hc
  rw [toList_literal hs] at hc
  simpa [and_assoc] using List.all_eq_true.mp h c hc

theorem plain_of_digits {cs : List Char} (h : ∀ c ∈ cs, c.isDigit = true) :
    Plain (String.ofList cs) := by
  intro c hc
  rw [String.toList_ofList] at hc
  have hdigit := h c hc
  refine ⟨?_, ?_, ?_⟩ <;>
  · rintro rfl
    exact absurd hdigit (by decide)

theorem isDigit_of_mem_digits {width n : Nat} {c : Char} (h : c ∈ Rfc3339.digits width n) :
    c.isDigit = true := by
  induction width generalizing n with
  | zero => cases h
  | succ width ih =>
    rw [Rfc3339.digits, List.mem_append, List.mem_singleton] at h
    rcases h with h | rfl
    · exact ih h
    · rw [Nat.isDigit_digitChar]
      exact decide_eq_true (Nat.mod_lt n (by decide))

theorem plain_nat (n : Nat) : Plain (toString n) :=
  plain_of_digits fun _ hc => Nat.isDigit_of_mem_toDigits (by decide) (by decide) hc

end Reads

/-! ### Escaping -/

/-- How one character is escaped. -/
def escapeChar (c : Char) : List Char :=
  if c = '\\' then ['\\', '\\'] else if c = '"' then ['\\', '"']
  else if c = '\n' then ['\\', 'n'] else [c]

/-- The three replacements do not touch each other's text. -/
theorem toList_escaped (s : String) : (escaped s).toList = s.toList.flatMap escapeChar := by
  rw [escaped, toList_replaceChar, toList_replaceChar, toList_replaceChar, List.flatMap_assoc,
    List.flatMap_assoc]
  refine List.flatMap_congr fun c _ => ?_
  unfold escapeChar
  split_ifs with hbackslash hquote hnewline
  · subst hbackslash
    decide
  · subst hquote
    decide
  · subst hnewline
    decide
  · simp [hquote, hnewline]

theorem contained_escaped (s : String) : Contained (escaped s).toList := by
  rw [toList_escaped]
  refine contained_flatMap fun c _ => ?_
  unfold escapeChar
  split_ifs with hbackslash hquote
  · exact contained_escape '\\'
  · exact contained_escape '"'
  · exact contained_escape 'n'
  · exact contained_singleton hquote hbackslash

/-- **An escaped string is closed by the quote at its end**, whatever its characters. -/
theorem reads_dotEscape (s : String) : Reads .outside (dotEscape s) [escaped s] := by
  have htext : (dotEscape s).toList = '"' :: (escaped s).toList ++ ['"'] := by
    rw [dotEscape, String.toList_append, String.toList_append]
    rfl
  rw [Reads, ReadsTo, htext]
  exact read_quoted (contained_escaped s)

/-- Text in a label has neither quotes nor brackets. -/
theorem plain_htmlEscape (s : String) : Plain (htmlEscape s) := by
  rintro c hc
  refine ⟨?_, ?_, ?_⟩
  · rintro rfl
    exact notMem_replaceChar_self (by decide) hc
  · rintro rfl
    refine notMem_replaceChar (notMem_replaceChar ?_ (by decide)) (by decide) hc
    exact notMem_replaceChar_self (by decide)
  · rintro rfl
    exact notMem_replaceChar (notMem_replaceChar_self (by decide)) (by decide) hc

theorem plain_fmtDecimal {unit : String} (hunit : Plain unit) (integer fraction width : Nat) :
    Plain (fmtDecimal integer fraction width unit) := by
  refine ((plain_nat integer).append ?_).append hunit
  split_ifs
  · exact .literal rfl rfl
  · refine Plain.append (.literal rfl (by decide)) (plain_of_digits fun c hc => ?_)
    have hmem : c ∈ Rfc3339.digits width fraction := by
      have hdrop := List.mem_reverse.mp hc
      exact List.mem_reverse.mp ((List.dropWhile_sublist _).mem hdrop)
    exact isDigit_of_mem_digits hmem

theorem plain_durationDebug (d : Duration) : Plain (durationDebug d) := by
  unfold durationDebug
  dsimp only
  split_ifs <;> exact plain_fmtDecimal (.literal rfl (by decide)) _ _ _

theorem plain_errorBehaviorDebug (eb : ErrorBehavior) : Plain (errorBehaviorDebug eb) := by
  cases eb with
  | retry interval maxRetries =>
    refine Plain.append (Plain.append (Plain.append (Plain.append ?_ ?_) ?_) ?_) ?_
    · exact .literal rfl (by decide)
    · exact plain_durationDebug interval
    · exact .literal rfl (by decide)
    · exact plain_nat maxRetries
    · exact .literal rfl (by decide)
  | _ => exact .literal rfl (by decide)

/-! ### Nodes and edges -/

/-- A row of a label, its text escaped. -/
theorem reads_row {left text right : String} {ss : List String}
    (hleft : Reads (.label 0) left ss) (htext : Plain text) (hright : Reads (.label 0) right []) :
    Reads (.label 0) (left ++ text ++ right) ss :=
  (hleft.append_nil (htext.label 0)).append_nil hright

theorem reads_labelLines (step : WorkflowStep) :
    ReadsAll (.label 0) (labelLines step) (["8", "#6b7280"] ++
      (if step.when.isSome then ["7", "#059669"] else []) ++
      (if step.errorBehavior.isSome then ["7", "#dc2626"] else [])) := by
  have hwhen : ReadsAll (.label 0)
      ["<TR><TD><FONT POINT-SIZE=\"7\" COLOR=\"#059669\">[when]</FONT></TD></TR>"]
      ["7", "#059669"] := .singleton (.literal rfl (by decide))
  refine ReadsAll.append (ReadsAll.append ?_ (.ite fun _ => hwhen)) ?_
  · have htype : ReadsAll (.label 0)
        ["<TR><TD><FONT POINT-SIZE=\"8\" COLOR=\"#6b7280\">" ++
          htmlEscape (cleanTypeName step.stepType) ++ "</FONT></TD></TR>"] ["8", "#6b7280"] :=
      .singleton (reads_row (.literal rfl (by decide)) (plain_htmlEscape _)
        (.literal rfl (by decide)))
    cases step.name with
    | none => exact htype
    | some name =>
      have hname : Reads (.label 0) ("<TR><TD><B>" ++ htmlEscape name ++ "</B></TD></TR>") [] :=
        reads_row (.literal rfl (by decide)) (plain_htmlEscape name) (.literal rfl (by decide))
      exact ReadsAll.cons hname htype
  · cases step.errorBehavior with
    | none => exact .nil
    | some eb =>
      change ReadsAll (.label 0) [_] ["7", "#dc2626"]
      exact .singleton (reads_row (.literal rfl (by decide)) (plain_errorBehaviorDebug eb)
        (.literal rfl (by decide)))

/-- The label of a step ends at its last bracket. -/
theorem reads_stepDotLabel (step : WorkflowStep) :
    Reads .outside (stepDotLabel step) (labelStrings step) := by
  have hopen : ReadsTo .outside (.label 0)
      "<\n  <TABLE BORDER=\"0\" CELLBORDER=\"0\" CELLSPACING=\"1\" CELLPADDING=\"2\">\n    "
      ["0", "0", "1", "2"] :=
    .literal rfl (by decide)
  have hsep : Reads (.label 0) "\n    " [] := .literal rfl (by decide)
  have hclose : ReadsTo (.label 0) .outside "\n  </TABLE>\n>" [] := .literal rfl (by decide)
  exact (hopen.append ((reads_labelLines step).join hsep)).append_nil hclose

theorem plain_stepShape (step : WorkflowStep) : Plain (stepShape step) := by
  unfold stepShape
  iterate 3 refine iteInduction (motive := Plain) (fun _ => .literal rfl (by decide)) fun _ => ?_
  exact .literal rfl (by decide)

/-- A literal without quotes and backslashes. -/
theorem contained_literal {s : String} {cs : List Char} (hs : s = String.ofList cs)
    (h : (cs.all fun c => c ≠ '"' && c ≠ '\\') = true) : Contained s.toList := by
  rw [toList_literal hs]
  exact contained_of_all h

theorem contained_stepFillColor (step : WorkflowStep) : Contained (stepFillColor step).toList := by
  unfold stepFillColor
  -- Which condition picks the color does not matter, so the conditions are not looked at.
  iterate 11
    refine iteInduction (motive := fun (color : String) => Contained color.toList)
      (fun _ => contained_literal rfl (by decide)) fun _ => ?_
  exact contained_literal rfl (by decide)

theorem reads_stepFillColor (step : WorkflowStep) :
    Reads .outside ("fillcolor=\"" ++ stepFillColor step ++ "\"") [stepFillColor step] := by
  have hopen : ReadsTo .outside (.quoted []) "fillcolor=\"" [] := .literal rfl (by decide)
  have htext : ("fillcolor=\"" ++ stepFillColor step ++ "\"").toList =
      "fillcolor=\"".toList ++ ((stepFillColor step).toList ++ ['"']) := by
    rw [String.toList_append, String.toList_append, List.append_assoc]
    rfl
  rw [Reads, ReadsTo, htext]
  exact read_append hopen (read_append (contained_stepFillColor step []) rfl)

theorem reads_stepNode (step : WorkflowStep) :
    Reads .outside (stepNode step) (nodeStrings step) := by
  have hlabel : Reads .outside ("label=" ++ stepDotLabel step) (labelStrings step) :=
    (Plain.literal rfl (by decide)).outside.nil_append (reads_stepDotLabel step)
  have hshape : Reads .outside ("shape=" ++ stepShape step) [] :=
    ((Plain.literal rfl (by decide)).append (plain_stepShape step)).outside
  have hwhen : ReadsAll .outside ["style=\"rounded,filled,dashed\"", "color=\"#059669\""]
      ["rounded,filled,dashed", "#059669"] := by
    have hstyle : Reads .outside "style=\"rounded,filled,dashed\"" ["rounded,filled,dashed"] :=
      .literal rfl (by decide)
    exact .cons hstyle (.singleton (.literal rfl (by decide)))
  have herror : ReadsAll .outside
      (if step.errorBehavior.isSome then ["penwidth=1.5"] else []) [] := by
    split_ifs
    · exact .singleton (.literal rfl (by decide))
    · exact .nil
  have hfill := reads_stepFillColor step
  have hattrs := ((ReadsAll.cons hlabel (.cons hshape (.singleton hfill))).append
    (.ite fun (_ : step.when.isSome) => hwhen)).append herror
  have hstart : Plain ("    N" ++ toString step.id ++ " [") :=
    ((Plain.literal rfl (by decide)).append (plain_nat step.id)).append (.literal rfl (by decide))
  have hsep : Reads .outside ", " [] := .literal rfl (by decide)
  have hend : Reads .outside "];\n" [] := .literal rfl (by decide)
  have h := (hstart.outside.nil_append (hattrs.join hsep)).append_nil hend
  have hstrings : labelStrings step ++ ([] ++ [stepFillColor step]) ++
      (if step.when.isSome then ["rounded,filled,dashed", "#059669"] else []) ++ [] =
      nodeStrings step := by
    rw [List.append_nil]
    rfl
  rw [hstrings] at h
  exact h

theorem reads_outcomeAttrs {display : Json → String} {outcome : StepOutcome} {attrs : List String}
    (h : outcomeAttrs display outcome = some attrs) :
    ReadsAll .outside attrs (outcomeStrings display outcome) := by
  have hlabel (s : String) : ReadsAll .outside ["label=" ++ dotEscape s] [escaped s] :=
    .singleton ((Plain.literal rfl (by decide)).outside.nil_append (reads_dotEscape s))
  unfold outcomeAttrs at h
  unfold outcomeStrings
  split at h
  · cases h
    exact hlabel _
  · next val _ hval =>
    obtain ⟨txt, htxt, rfl⟩ := Option.map_eq_some_iff.mp h
    rw [htxt]
    exact hlabel txt
  · cases h
    exact .nil

theorem reads_edge (source target : Nat) :
    Reads .outside ("    N" ++ toString source ++ " -> N" ++ toString target) [] := by
  have hsource : Plain ("    N" ++ toString source) :=
    (Plain.literal rfl (by decide)).append (plain_nat source)
  have harrow : Reads .outside " -> N" [] := .literal rfl (by decide)
  exact (hsource.outside.append_nil harrow).append_nil (plain_nat target).outside

theorem reads_outcomeEdge {display : Json → String} {step : WorkflowStep} {outcome : StepOutcome}
    {text : String} (h : outcomeEdge display step outcome = some text) :
    Reads .outside text (outcomeStrings display outcome) := by
  obtain ⟨attrs, hattrs, heq⟩ := Option.bind_eq_some_iff.mp h
  obtain rfl := Option.some.inj heq
  have hreads := reads_outcomeAttrs hattrs
  have hedge := reads_edge step.id outcome.nextStep
  have hend : Reads .outside ";\n" [] := .literal rfl (by decide)
  refine ReadsTo.append_nil (hedge.nil_append ?_) hend
  split_ifs with hempty
  · rw [List.isEmpty_iff.mp hempty] at hreads
    generalize outcomeStrings display outcome = ss at hreads ⊢
    cases hreads
    exact reads_nil
  · have hsep : Reads .outside ", " [] := .literal rfl (by decide)
    have hopen : Reads .outside " [" [] := .literal rfl (by decide)
    exact (hopen.nil_append (hreads.join hsep)).append_nil (.literal rfl (by decide))

theorem reads_childEdge (step : WorkflowStep) (childId : Nat) :
    Reads .outside (childEdge step childId) ["#9ca3af"] :=
  (reads_edge step.id childId).nil_append (.literal rfl (by decide))

theorem reads_compensationEdge (step : WorkflowStep) (compId : Nat) :
    Reads .outside (compensationEdge step compId) ["#dc2626", "compensate", "#dc2626"] := by
  have hedge := reads_edge step.id compId
  have hattrs : Reads .outside
      " [style=dashed, color=\"#dc2626\", label=\"compensate\", fontcolor=\"#dc2626\", "
      ["#dc2626", "compensate", "#dc2626"] :=
    .literal rfl (by decide)
  exact (hedge.nil_append hattrs).append_nil (.literal rfl (by decide))

theorem reads_writeAll {α : Type} {write : α → Option String} {strs : α → List String}
    {xs : List α} {text : String} (h : writeAll write xs = some text)
    (hwrite : ∀ x ∈ xs, ∀ text, write x = some text → Reads .outside text (strs x)) :
    Reads .outside text (xs.flatMap strs) := by
  induction xs generalizing text with
  | nil =>
    obtain rfl := Option.some.inj h
    exact reads_nil
  | cons x xs ih =>
    obtain ⟨first, hfirst, h⟩ := Option.bind_eq_some_iff.mp h
    obtain ⟨rest, hrest, heq⟩ := Option.bind_eq_some_iff.mp h
    obtain rfl := Option.some.inj heq
    exact (hwrite x List.mem_cons_self first hfirst).append
      (ih hrest fun y hy => hwrite y (List.mem_cons_of_mem x hy))

theorem writeAll_isSome_iff {α : Type} {write : α → Option String} {xs : List α} :
    (writeAll write xs).isSome ↔ ∀ x ∈ xs, (write x).isSome := by
  induction xs with
  | nil => exact iff_of_true rfl (by simp)
  | cons x xs ih =>
    rw [List.forall_mem_cons, ← ih, writeAll]
    cases write x <;> cases writeAll write xs <;> simp

theorem truncate_isSome_iff {s : String} :
    (truncate s 40).isSome ↔ s.utf8ByteSize ≤ 40 ∨ String.Pos.Raw.IsValid s ⟨39⟩ := by
  rw [← sliceTo_isSome_iff, truncate]
  split_ifs with h
  · simp [h]
  · simp [h]

theorem outcomeEdge_isSome_iff {display : Json → String} {step : WorkflowStep}
    {outcome : StepOutcome} :
    (outcomeEdge display step outcome).isSome ↔ (outcome.label = none → ∀ val ∈ outcome.value,
      (display val).utf8ByteSize ≤ 40 ∨ String.Pos.Raw.IsValid (display val) ⟨39⟩) := by
  have hedge : (outcomeEdge display step outcome).isSome =
      (outcomeAttrs display outcome).isSome := by
    unfold outcomeEdge
    cases outcomeAttrs display outcome <;> rfl
  rw [hedge, outcomeAttrs]
  cases outcome.label with
  | some lbl => simp
  | none =>
    cases outcome.value with
    | none => simp
    | some val => simp [truncate_isSome_iff]

end Dot

namespace WorkflowDefinition

open Dot DotText

variable {display : Json → String} {d : WorkflowDefinition}

/-- The rendering returns if no value is cut inside of a character. -/
theorem toDot_isSome_iff : (d.toDot display).isSome ↔ d.ValuesFit display := by
  have hwrite : (d.toDot display).isSome ↔ (writeAll
      (fun step => writeAll (outcomeEdge display step) step.outcomes) d.steps).isSome := by
    rw [Option.isSome_iff_exists, Option.isSome_iff_exists]
    constructor
    · rintro ⟨dot, hdot⟩
      obtain ⟨outcomes, houtcomes, -⟩ := Option.bind_eq_some_iff.mp hdot
      exact ⟨outcomes, houtcomes⟩
    · rintro ⟨outcomes, houtcomes⟩
      exact ⟨_, Option.bind_eq_some_iff.mpr ⟨outcomes, houtcomes, rfl⟩⟩
  rw [hwrite, writeAll_isSome_iff]
  refine forall₂_congr fun step _ => ?_
  rw [writeAll_isSome_iff]
  exact forall₂_congr fun outcome _ => outcomeEdge_isSome_iff

theorem reads_dotHeader (d : WorkflowDefinition) :
    Reads .outside d.dotHeader [escaped d.id, escaped (d.displayName ++ " v" ++ toString d.version),
      "Helvetica-Bold", "Helvetica", "white", "Helvetica", "rounded,filled", "#f3f4f6", "Helvetica",
      "#374151"] := by
  have hdigraph : Reads .outside "digraph " [] := .literal rfl (by decide)
  have hid := reads_dotEscape d.id
  have hbrace : Reads .outside " \x7b\n" [] := .literal rfl (by decide)
  have hattr : Reads .outside "    label=" [] := .literal rfl (by decide)
  have hlabel := reads_dotEscape (d.displayName ++ " v" ++ toString d.version)
  have hnewline : Reads .outside "\n" [] := .literal rfl (by decide)
  have hlabelloc : Reads .outside "    labelloc=t\n" [] := .literal rfl (by decide)
  have hfontsize : Reads .outside "    fontsize=14\n" [] := .literal rfl (by decide)
  have hfontname : Reads .outside "    fontname=\"Helvetica-Bold\"\n" ["Helvetica-Bold"] :=
    .literal rfl (by decide)
  have hrankdir : Reads .outside "    rankdir=TB\n" [] := .literal rfl (by decide)
  have hgraph : Reads .outside
      "    graph [fontname=\"Helvetica\", fontsize=10, bgcolor=\"white\", margin=20]\n"
      ["Helvetica", "white"] :=
    .literal rfl (by decide)
  have hnode : Reads .outside
      "    node [fontname=\"Helvetica\", shape=box, style=\"rounded,filled\", "
      ["Helvetica", "rounded,filled"] :=
    .literal rfl (by decide)
  have hcolor : Reads .outside "fillcolor=\"#f3f4f6\", fontsize=9, penwidth=1.0]\n"
      ["#f3f4f6"] :=
    .literal rfl (by decide)
  have hedge : Reads .outside
      "    edge [fontname=\"Helvetica\", fontsize=8, color=\"#374151\", penwidth=1.0]\n"
      ["Helvetica", "#374151"] :=
    .literal rfl (by decide)
  have htitle := (((((hdigraph.nil_append hid).append_nil hbrace).append_nil hattr).append
    hlabel).append_nil hnewline)
  have hfonts := (((htitle.append_nil hlabelloc).append_nil hfontsize).append hfontname).append_nil
    hrankdir
  exact ((((hfonts.append hgraph).append hnode).append hcolor).append hedge).append_nil hnewline

/-- A rendering is read to its end, with its own strings in it. -/
theorem reads_toDot {dot : String} (h : d.toDot display = some dot) :
    Reads .outside dot (d.dotStrings display) := by
  obtain ⟨outcomes, houtcomes, heq⟩ := Option.bind_eq_some_iff.mp h
  obtain rfl := Option.some.inj heq
  have hnewline : Reads .outside "\n" [] := .literal rfl (by decide)
  have hnodes := (ReadsAll.map fun step (_ : step ∈ d.steps) => reads_stepNode step).concat
  have hedges := reads_writeAll houtcomes fun step _ text htext =>
    reads_writeAll htext fun outcome _ text htext => reads_outcomeEdge htext
  have hchildren : Reads .outside
      (String.join (d.steps.map fun step => String.join (step.children.map (childEdge step))))
      (d.steps.flatMap fun step => step.children.flatMap fun _ => ["#9ca3af"]) :=
    (ReadsAll.map fun step _ => (ReadsAll.map fun childId _ =>
      reads_childEdge step childId).concat).concat
  have hcompensations : Reads .outside
      (String.join (d.steps.map fun step =>
        ((step.compensationStepId.map (compensationEdge step)).getD "")))
      (d.steps.flatMap fun step => if step.compensationStepId.isSome then
        ["#dc2626", "compensate", "#dc2626"] else []) := by
    refine (ReadsAll.map fun step _ => ?_).concat
    cases step.compensationStepId with
    | none => exact reads_nil
    | some compId => exact reads_compensationEdge step compId
  have hend : Reads .outside "\x7d\n" [] := .literal rfl (by decide)
  exact ((((((reads_dotHeader d).append hnodes).append_nil hnewline).append hedges).append
    hchildren).append hcompensations).append_nil hend

/-- **When a definition is rendered.** The rendering returns, with every quoted string closed by
its own quote, if and only if no outcome value is cut inside of a character. -/
theorem toDot_closed_iff (display : Json → String) (d : WorkflowDefinition) :
    (∃ dot, d.toDot display = some dot ∧
      strings dot.toList = some ((d.dotStrings display).map String.toList)) ↔
    d.ValuesFit display := by
  rw [← toDot_isSome_iff, Option.isSome_iff_exists]
  constructor
  · rintro ⟨dot, hdot, -⟩
    exact ⟨dot, hdot⟩
  · rintro ⟨dot, hdot⟩
    exact ⟨dot, hdot, strings_eq_some_iff.mpr (reads_toDot hdot)⟩

end WorkflowDefinition

/-- A step that goes on if its value is a text of 37 letters, an accented one and two more. -/
def accentedStep : WorkflowStep :=
  { WorkflowStep.new 0 "Check" with
    outcomes := [⟨1, none, some (.string "aaaaaaaaaaaaaaaaaaaaaaaaaaaaaaaaaaaaaébb")⟩] }

def accented : WorkflowDefinition :=
  { WorkflowDefinition.new "accented" 1 with steps := [accentedStep, WorkflowStep.new 1 "Done"] }

/-- The 39th byte of the value is the first of the two bytes of a letter: there is no rendering. -/
theorem toDot_panics :
    ¬∀ d : WorkflowDefinition, ∃ dot, d.toDot Json.display = some dot ∧
      DotText.strings dot.toList = some ((d.dotStrings Json.display).map String.toList) := by
  intro h
  obtain ⟨dot, hdot, -⟩ := h accented
  have hnone : accented.toDot Json.display = none := by decide
  rw [hnone] at hdot
  cases hdot

end Wfe
