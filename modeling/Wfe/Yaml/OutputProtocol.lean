import Wfe.Yaml.ShellOutputs

/-!
# The output protocol of the step kinds

Shell, containerd and Kubernetes steps read outputs from the lines `##wfe[output key=value]` of
their command. The Kubernetes step trims a line first, leaves out empty keys, and reads a value as
JSON if it is some; the containerd step takes every value as a string; the shell step reads
booleans, `null` and numbers.

## Main definitions

* `Containerd.parseOutputs`, `Kubernetes.parseOutputs`: the outputs that are named
* `Containerd.buildOutputData`, `Kubernetes.buildOutputData`: the output data of a step
* `OneProtocol`: the three kinds of steps read a text in the same way
* `PlainValue`: all of them take a value as a string

## Main results

* `one_output_protocol_iff`: when they read a text in the same way
-/

namespace Wfe

open Text

/-- A hash map from strings to strings. -/
abbrev StringMap := List (String × String)

/-- `HashMap::get`. -/
def StringMap.get (m : StringMap) (key : String) : Option String :=
  (m.find? fun kv => kv.1 = key).map Prod.snd

/-- `HashMap::insert`. -/
def StringMap.insert (m : StringMap) (key value : String) : StringMap :=
  (key, value) :: m.filter (·.1 ≠ key)

/-- One round of the loop of `parse_outputs`, with the lines that `parse` takes. -/
def takeLine (parse : List Char → Option (String × List Char)) (outputs : StringMap)
    (line : List Char) : StringMap :=
  match parse line with
  | some (name, value) => outputs.insert name (String.ofList value)
  | none => outputs

/-- `parse_outputs`, with the lines that `parse` takes. -/
def parseOutputsWith (parse : List Char → Option (String × List Char)) (stdout : List Char) :
    StringMap :=
  (lines stdout).foldl (takeLine parse) []

/-- `build_output_data`, with the JSON value of each text. -/
def buildOutputDataWith (toJson : String → Json) (stepName stdout stderr : String) (exitCode : Int)
    (parsed : StringMap) : Object :=
  let outputs : Object := parsed.foldl (fun outputs kv => outputs.insert kv.1 (toJson kv.2)) []
  ((outputs.insert s!"{stepName}.stdout" (.string stdout)).insert
    s!"{stepName}.stderr" (.string stderr)).insert s!"{stepName}.exit_code" (jsonOfI64 exitCode)

namespace Containerd

/-- `ContainerdStep::parse_outputs`. -/
def parseOutputs : List Char → StringMap := parseOutputsWith parseOutputLine

/-- `ContainerdStep::build_output_data`. -/
def buildOutputData : String → String → String → Int → StringMap → Object :=
  buildOutputDataWith Json.string

end Containerd

namespace Kubernetes

/-- An output line, with blanks around it, that has a key. -/
def parseLine (line : List Char) : Option (String × List Char) :=
  (parseOutputLine (trimChars line)).filter fun output => output.1 ≠ ""

/-- `parse_outputs`. -/
def parseOutputs : List Char → StringMap := parseOutputsWith parseLine

/-- The value of a text: what `serde_json::from_str` reads, or the text. -/
def outputValue (fromStr : String → Option Json) (text : String) : Json :=
  (fromStr text).getD (.string text)

/-- `build_output_data`. -/
def buildOutputData (fromStr : String → Option Json) :
    String → String → String → Int → StringMap → Object :=
  buildOutputDataWith (outputValue fromStr)

end Kubernetes

/-! ## One protocol -/

/-- The entries that a step adds for itself. -/
def ownKeys (stepName : String) : List String :=
  [s!"{stepName}.stdout", s!"{stepName}.stderr", s!"{stepName}.exit_code"]

/-- On exit code 0, the three kinds of steps recognise the same lines and yield the same values. -/
structure OneProtocol (fromStr : String → Option Json) (stepName : String)
    (stdout stderr : List Char) : Prop where
  /-- The shell and the containerd step take the same lines anyway. -/
  lines : ∀ line ∈ lines stdout,
    (parseOutputLine line).isSome = (Kubernetes.parseLine line).isSome
  values : ∀ key ∉ ownKeys stepName,
    (Shell.outputObject stepName stdout stderr).get key =
        (Containerd.buildOutputData stepName (String.ofList stdout) (String.ofList stderr) 0
          (Containerd.parseOutputs stdout)).get key ∧
      (Shell.outputObject stepName stdout stderr).get key =
        (Kubernetes.buildOutputData fromStr stepName (String.ofList stdout) (String.ofList stderr) 0
          (Kubernetes.parseOutputs stdout)).get key

/-- All three kinds of steps take the value as a string. -/
structure PlainValue (fromStr : String → Option Json) (value : List Char) : Prop where
  notWord : String.ofList value ∉ ["true", "false", "null"]
  notInteger : parseI64 value = none
  notDouble : parseF64 value = none
  notJson : ∀ v, fromStr (String.ofList value) = some v → v = .string (String.ofList value)

/-- The outputs that the lines of a text name, in their order. -/
def markers (stdout : List Char) : List (String × List Char) :=
  (lines stdout).filterMap parseOutputLine

/-- The last value of a key. -/
def lastValue : List (String × List Char) → String → Option (List Char)
  | [], _ => none
  | (k, v) :: outputs, key => (lastValue outputs key).or (if k = key then some v else none)

/-! ## Maps -/

namespace StringMap

theorem get_cons (k v : String) (m : StringMap) (key : String) :
    StringMap.get ((k, v) :: m) key = if k = key then some v else m.get key := by
  by_cases h : k = key <;> simp [StringMap.get, h]

theorem get_insert (m : StringMap) (k v key : String) :
    (m.insert k v).get key = if k = key then some v else m.get key := by
  have hfilter (hne : k ≠ key) : StringMap.get (m.filter (·.1 ≠ k)) key = m.get key := by
    induction m with
    | nil => rfl
    | cons kv m ih =>
      obtain ⟨k', v'⟩ := kv
      by_cases hk : k' = k
      · rw [List.filter_cons_of_neg (by simp [hk]), ih, get_cons, if_neg (hk ▸ hne)]
      · rw [List.filter_cons_of_pos (by simp [hk]), get_cons, get_cons, ih]
  rw [StringMap.insert, get_cons]
  split_ifs with hkey
  · rfl
  · exact hfilter hkey

/-- No key occurs twice. -/
def Distinct (m : StringMap) : Prop := m.Pairwise fun kv kv' => kv.1 ≠ kv'.1

theorem Distinct.insert {m : StringMap} (h : m.Distinct) (k v : String) :
    (m.insert k v).Distinct := by
  refine List.pairwise_cons.mpr ⟨?_, h.filter _⟩
  intro kv hkv
  have hne : kv.1 ≠ k := of_decide_eq_true (List.mem_filter.mp hkv).2
  exact hne.symm

end StringMap

/-- The object built from a map has its entries. -/
theorem get_build {m : StringMap} (h : m.Distinct) (toJson : String → Json) (outputs : Object)
    (key : String) :
    (m.foldl (fun outputs kv => outputs.insert kv.1 (toJson kv.2)) outputs).get key =
      ((m.get key).map toJson).or (outputs.get key) := by
  induction m generalizing outputs with
  | nil => rfl
  | cons kv m ih =>
    obtain ⟨k, v⟩ := kv
    obtain ⟨hk, hm⟩ := List.pairwise_cons.mp h
    rw [List.foldl_cons, ih hm, Object.get_insert, StringMap.get_cons]
    by_cases hkey : k = key
    · have hnone : StringMap.get m key = none := by
        rw [StringMap.get, Option.map_eq_none_iff, List.find?_eq_none]
        intro kv hkv
        have hne : k ≠ kv.1 := hk kv hkv
        simpa [← hkey] using hne.symm
      rw [if_pos hkey, if_pos hkey, hnone]
      rfl
    · rw [if_neg hkey, if_neg hkey]

/-! ## What is parsed -/

section Parse

variable (parse : List Char → Option (String × List Char))

theorem takeLine_distinct {m : StringMap} (h : m.Distinct) (line : List Char) :
    (takeLine parse m line).Distinct := by
  unfold takeLine
  split
  · exact h.insert _ _
  · exact h

/-- The loop of `parse_outputs` keeps the last value of each key. -/
theorem get_foldl_takeLine (ls : List (List Char)) (m : StringMap) (key : String) :
    (ls.foldl (takeLine parse) m).get key =
      ((lastValue (ls.filterMap parse) key).map String.ofList).or (m.get key) := by
  induction ls generalizing m with
  | nil => rfl
  | cons line ls ih =>
    rw [List.foldl_cons, ih, takeLine]
    cases hline : parse line with
    | none => rw [List.filterMap_cons_none hline]
    | some output =>
      obtain ⟨name, value⟩ := output
      rw [List.filterMap_cons_some hline, lastValue, StringMap.get_insert]
      cases lastValue (ls.filterMap parse) key <;> split_ifs <;> rfl

theorem foldl_takeLine_distinct (ls : List (List Char)) {m : StringMap} (h : m.Distinct) :
    (ls.foldl (takeLine parse) m).Distinct := by
  induction ls generalizing m with
  | nil => exact h
  | cons line ls ih => exact ih (takeLine_distinct parse h line)

/-- The output data of a step has the last value of each key that is not its own. -/
theorem get_buildOutputDataWith (toJson : String → Json) (stepName stderr : String)
    (stdout : List Char) (exitCode : Int) {key : String} (hkey : key ∉ ownKeys stepName) :
    (buildOutputDataWith toJson stepName (String.ofList stdout) stderr exitCode
      (parseOutputsWith parse stdout)).get key =
      (lastValue ((lines stdout).filterMap parse) key).map fun value =>
        toJson (String.ofList value) := by
  have hdistinct : (parseOutputsWith parse stdout).Distinct :=
    foldl_takeLine_distinct parse (lines stdout) .nil
  have hget : (parseOutputsWith parse stdout).get key =
      (lastValue ((lines stdout).filterMap parse) key).map String.ofList :=
    (get_foldl_takeLine parse (lines stdout) [] key).trans (Option.or_none)
  simp only [ownKeys, List.mem_cons, List.not_mem_nil, or_false, not_or] at hkey
  obtain ⟨hout, herr, hexit⟩ := hkey
  rw [buildOutputDataWith, Object.get_insert, Object.get_insert, Object.get_insert,
    if_neg (Ne.symm hexit), if_neg (Ne.symm herr), if_neg (Ne.symm hout), get_build hdistinct, hget,
    Option.map_map]
  exact Option.or_none

end Parse

/-- The outputs of a shell step, in the same way. -/
theorem get_outputObject (stepName : String) (stdout stderr : List Char) {key : String}
    (hkey : key ∉ ownKeys stepName) :
    (Shell.outputObject stepName stdout stderr).get key =
      (lastValue (markers stdout) key).map Shell.outputValue := by
  have hloop (ls : List (List Char)) (outputs : Object) :
      (ls.foldl Shell.takeOutput outputs).get key =
        ((lastValue (ls.filterMap parseOutputLine) key).map Shell.outputValue).or
          (outputs.get key) := by
    induction ls generalizing outputs with
    | nil => rfl
    | cons line ls ih =>
      rw [List.foldl_cons, ih, Shell.takeOutput]
      cases hline : parseOutputLine line with
      | none => rw [List.filterMap_cons_none hline]
      | some output =>
        obtain ⟨name, value⟩ := output
        rw [List.filterMap_cons_some hline, lastValue, Object.get_insert]
        cases lastValue (ls.filterMap parseOutputLine) key <;> split_ifs <;> rfl
  simp only [ownKeys, List.mem_cons, List.not_mem_nil, or_false, not_or] at hkey
  obtain ⟨hout, herr, -⟩ := hkey
  rw [Shell.outputObject, Object.get_insert, Object.get_insert, if_neg (Ne.symm herr),
    if_neg (Ne.symm hout), Shell.parsedOutputs, hloop]
  exact Option.or_none

/-! ## When the steps agree -/

theorem jsonOfI64_ne_string (n : Int) (text : String) : jsonOfI64 n ≠ .string text := by
  unfold jsonOfI64
  split_ifs <;> exact Json.noConfusion

theorem jsonOfF64_ne_string (bits : UInt64) (text : String) : jsonOfF64 bits ≠ .string text := by
  unfold jsonOfF64
  split_ifs <;> exact Json.noConfusion

/-- A shell step takes a value as a string if it is no word and no number. -/
theorem shell_outputValue_eq_string_iff (value : List Char) :
    Shell.outputValue value = .string (String.ofList value) ↔
      String.ofList value ∉ ["true", "false", "null"] ∧ parseI64 value = none ∧
        parseF64 value = none := by
  unfold Shell.outputValue
  dsimp only
  split_ifs with htrue hfalse hnull
  · simp [htrue]
  · simp [hfalse]
  · simp [hnull]
  · have hword : String.ofList value ∉ ["true", "false", "null"] := by
      simp [htrue, hfalse, hnull]
    cases hint : parseI64 value with
    | some n => simp [jsonOfI64_ne_string]
    | none =>
      cases hdouble : parseF64 value with
      | some bits => simp [jsonOfF64_ne_string]
      | none => simp [hword]

theorem kubernetes_outputValue_eq_string_iff (fromStr : String → Option Json) (text : String) :
    Kubernetes.outputValue fromStr text = .string text ↔
      ∀ v, fromStr text = some v → v = .string text := by
  unfold Kubernetes.outputValue
  cases fromStr text <;> simp

/-- A marker begins and ends with characters that are no white space, so nothing is trimmed. -/
theorem trimChars_eq_of_marker {line : List Char} (h : (parseOutputLine line).isSome = true) :
    trimChars line = line := by
  obtain ⟨rest, inner, hpre, hlast⟩ : ∃ rest inner,
      stripPrefix "##wfe[output ".toList line = some rest ∧ stripLast ']' rest = some inner := by
    unfold parseOutputLine at h
    cases hpre : stripPrefix "##wfe[output ".toList line with
    | none =>
      rw [hpre] at h
      cases h
    | some rest =>
      cases hlast : stripLast ']' rest with
      | none =>
        rw [hpre, Option.bind_eq_bind, Option.bind_some, hlast] at h
        cases h
      | some inner => exact ⟨rest, inner, rfl, hlast⟩
  unfold stripPrefix at hpre
  unfold stripLast at hlast
  split_ifs at hpre hlast with hprefix hend
  cases hpre
  obtain ⟨tail, rfl⟩ := List.isPrefixOf_iff_prefix.mp hprefix
  rw [List.drop_left] at hend
  obtain ⟨mid, rfl⟩ := List.getLast?_eq_some_iff.mp hend
  have hstart : ("##wfe[output ".toList ++ (mid ++ [']'])).dropWhile isWhitespace =
      "##wfe[output ".toList ++ (mid ++ [']']) := rfl
  rw [trimChars, hstart, ← List.append_assoc, List.reverse_append, List.reverse_singleton,
    List.singleton_append, List.dropWhile_cons_of_neg (by decide), List.reverse_cons,
    List.reverse_reverse]

/-- The steps recognise the same lines exactly if a marker, up to white space around it, has no such
white space where it has a key, and only there. -/
theorem isSome_parseLine_iff (line : List Char) :
    (parseOutputLine line).isSome = (Kubernetes.parseLine line).isSome ↔
      ∀ name value, parseOutputLine (trimChars line) = some (name, value) →
        (trimChars line = line ↔ name ≠ "") := by
  cases hparse : parseOutputLine (trimChars line) with
  | none =>
    have hnone : parseOutputLine line = none := by
      rw [← Option.not_isSome_iff_eq_none]
      intro hsome
      rw [← trimChars_eq_of_marker hsome, hparse] at hsome
      cases hsome
    simp [Kubernetes.parseLine, hparse, hnone]
  | some output =>
    obtain ⟨name, value⟩ := output
    have hsome : (parseOutputLine line).isSome = true ↔ trimChars line = line := by
      constructor
      · exact trimChars_eq_of_marker
      · intro htrim
        rw [← htrim, hparse]
        rfl
    have hkubernetes : (Kubernetes.parseLine line).isSome = true ↔ name ≠ "" := by
      rw [Kubernetes.parseLine, hparse]
      by_cases hname : name = "" <;> simp [hname]
    rw [Bool.eq_iff_iff, hsome, hkubernetes]
    constructor
    · rintro h name' value' ⟨⟩
      exact h
    · intro h
      exact h name value rfl

/-- A line that both recognise is read in the same way. -/
theorem parseLine_eq {line : List Char}
    (h : (parseOutputLine line).isSome = (Kubernetes.parseLine line).isSome) :
    Kubernetes.parseLine line = parseOutputLine line := by
  cases hparse : parseOutputLine line with
  | none =>
    rw [hparse] at h
    exact Option.not_isSome_iff_eq_none.mp (by simp [← h])
  | some output =>
    rw [Kubernetes.parseLine, trimChars_eq_of_marker (by rw [hparse]; rfl), hparse,
      Option.filter_some] at h ⊢
    split_ifs at h ⊢
    · rfl
    · cases h

/-- What a containerd step yields for a key that is not one of its own. -/
theorem get_containerd {stepName key : String} (hkey : key ∉ ownKeys stepName)
    (stdout stderr : List Char) :
    (Containerd.buildOutputData stepName (String.ofList stdout) (String.ofList stderr) 0
      (Containerd.parseOutputs stdout)).get key =
      (lastValue (markers stdout) key).map fun value => .string (String.ofList value) :=
  get_buildOutputDataWith parseOutputLine Json.string stepName _ stdout 0 hkey

/-- What a Kubernetes step yields for such a key, if it recognises the same lines. -/
theorem get_kubernetes (fromStr : String → Option Json) {stepName key : String}
    (hkey : key ∉ ownKeys stepName) {stdout : List Char} (stderr : List Char)
    (h : ∀ line ∈ lines stdout,
      (parseOutputLine line).isSome = (Kubernetes.parseLine line).isSome) :
    (Kubernetes.buildOutputData fromStr stepName (String.ofList stdout) (String.ofList stderr) 0
      (Kubernetes.parseOutputs stdout)).get key =
      (lastValue (markers stdout) key).map fun value =>
        Kubernetes.outputValue fromStr (String.ofList value) := by
  have hmarkers : (lines stdout).filterMap Kubernetes.parseLine = markers stdout :=
    List.filterMap_congr fun line hline => parseLine_eq (h line hline)
  rw [← hmarkers]
  exact get_buildOutputDataWith Kubernetes.parseLine (Kubernetes.outputValue fromStr) stepName _
    stdout 0 hkey

/-- A plain value is a string for shell and Kubernetes steps. -/
theorem plainValue_iff {fromStr : String → Option Json} {value : List Char} :
    PlainValue fromStr value ↔
      Shell.outputValue value = .string (String.ofList value) ∧
      Kubernetes.outputValue fromStr (String.ofList value) = .string (String.ofList value) := by
  rw [shell_outputValue_eq_string_iff, kubernetes_outputValue_eq_string_iff]
  constructor
  · rintro ⟨hword, hint, hdouble, hjson⟩
    exact ⟨⟨hword, hint, hdouble⟩, hjson⟩
  · rintro ⟨⟨hword, hint, hdouble⟩, hjson⟩
    exact ⟨hword, hint, hdouble, hjson⟩

/-- **One output protocol.** On any text, the three kinds of steps recognise the same lines and
yield the same values if and only if every marker has no white space around it exactly if it has a
key, and the last value of each key is one that all of them take as a string. -/
theorem one_output_protocol_iff (fromStr : String → Option Json) (stepName : String)
    (stdout stderr : List Char) :
    OneProtocol fromStr stepName stdout stderr ↔
      (∀ line ∈ lines stdout, ∀ name value, parseOutputLine (trimChars line) = some (name, value) →
        (trimChars line = line ↔ name ≠ "")) ∧
      ∀ key ∉ ownKeys stepName, ∀ value, lastValue (markers stdout) key = some value →
        PlainValue fromStr value := by
  have hrecognise : (∀ line ∈ lines stdout,
      (parseOutputLine line).isSome = (Kubernetes.parseLine line).isSome) ↔
      ∀ line ∈ lines stdout, ∀ name value, parseOutputLine (trimChars line) = some (name, value) →
        (trimChars line = line ↔ name ≠ "") :=
    forall₂_congr fun line _ => isSome_parseLine_iff line
  rw [← hrecognise]
  constructor
  · rintro ⟨hlines, hsame⟩
    refine ⟨hlines, fun key hkey value hvalue => plainValue_iff.mpr ?_⟩
    obtain ⟨hsame, hsame'⟩ := hsame key hkey
    rw [get_outputObject stepName stdout stderr hkey, get_containerd hkey, hvalue] at hsame
    rw [get_outputObject stepName stdout stderr hkey,
      get_kubernetes fromStr hkey stderr hlines, hvalue] at hsame'
    have hstring := Option.some.inj hsame
    exact ⟨hstring, (Option.some.inj hsame').symm.trans hstring⟩
  · rintro ⟨hlines, hvalue⟩
    refine ⟨hlines, fun key hkey => ?_⟩
    rw [get_outputObject stepName stdout stderr hkey, get_containerd hkey,
      get_kubernetes fromStr hkey stderr hlines]
    cases hlast : lastValue (markers stdout) key with
    | none => exact ⟨rfl, rfl⟩
    | some value =>
      obtain ⟨hshell, hjson⟩ := plainValue_iff.mp (hvalue key hkey value hlast)
      exact ⟨congrArg some hshell, congrArg some (hshell.trans hjson.symm)⟩

/-- The integer 42 is a number to two kinds of steps, and a string to the containerd step. -/
theorem output_protocol_integer : ∃ stdout, ¬ ∃ fromStr, fromStr "42" = some (jsonOfI64 42) ∧
    OneProtocol fromStr "build" stdout [] := by
  refine ⟨"##wfe[output count=42]\n".toList, ?_⟩
  rintro ⟨fromStr, -, -, hvalues⟩
  have hvalue := (hvalues "count" (by decide +kernel)).1
  revert hvalue
  decide +kernel

end Wfe
