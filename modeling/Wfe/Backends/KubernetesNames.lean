import Mathlib.Data.List.DropRight
import Mathlib.Data.List.GetD

/-!
# Names on a Kubernetes cluster

The namespace of a workflow tree and the name of a step's job are made from arbitrary texts: lower
case, with a hyphen for every character that is not allowed, cut to 63 characters and without
hyphens at the end. When two texts have one name is told by their first 63 positions.

## Main definitions

* `namespaceName`, `sanitizeName`: `namespace_name` and `sanitize_name`
* `SameLetters`: two texts that have one name

## Main results

* `sanitizeName_eq_iff`: names are the same exactly for such texts
* `namespaceName_eq_iff`: the namespaces of two UUIDs are the same exactly if what is left of them
  after the cut is
-/

namespace Wfe.Kubernetes

/-! ## The two functions -/

/-- `str::to_lowercase`, of one character. The characters that are not ASCII keep what the names
make of them: the Kelvin sign becomes a `k`, a dotted capital I becomes an `i` and a combining dot,
and every other one becomes one character that is not ASCII either, here itself. -/
def toLowercase (c : Char) : List Char :=
  if c.toNat = 0x212A then ['k']
  else if c.toNat = 0x130 then ['i', Char.ofNat 0x307]
  else [c.toLower]

/-- The characters that a name may have; any other becomes a hyphen. -/
def sanitizeChar (c : Char) : Char := if c.isAlphanum ∨ c = '-' then c else '-'

/-- A text as names have it. -/
def letters (text : List Char) : List Char := (text.flatMap toLowercase).map sanitizeChar

/-- The first 63 characters, without hyphens at the end. -/
def sanitize (text : List Char) : List Char := ((letters text).take 63).rdropWhile (· = '-')

/-- `namespace_name`. -/
def namespaceName (pre workflowId : String) : String :=
  String.ofList (sanitize (pre ++ workflowId).toList)

/-- `sanitize_name`. -/
def sanitizeName (name : String) : String := String.ofList (sanitize name.toList)

example : namespaceName "wfe-" "my_workflow.v1" = "wfe-my-workflow-v1" ∧
    sanitizeName "Build: ______" = "build" := by decide

/-! ## Padded texts -/

/-- A text without the padding at its end has the same characters, if what is behind the end counts
as padding. -/
theorem getD_rdropWhile (c : Char) (xs : List Char) (i : Nat) :
    (xs.rdropWhile (· = c)).getD i c = xs.getD i c := by
  induction xs using List.reverseRecOn with
  | nil => rw [List.rdropWhile_nil]
  | append_singleton xs x ih =>
    by_cases hx : x = c
    · rw [List.rdropWhile_concat_pos _ _ _ (by simp [hx]), ih, hx]
      rcases Nat.lt_or_ge i xs.length with hi | hi
      · rw [List.getD_append _ _ _ _ hi]
      · rw [List.getD_append_right _ _ _ _ hi, List.getD_eq_default _ _ hi]
        cases i - xs.length <;> rfl
    · rw [List.rdropWhile_concat_neg _ _ _ (by simp [hx])]

theorem length_le_of_getD {c : Char} {xs ys : List Char} (h : ∀ i, xs.getD i c = ys.getD i c)
    (hlast : ∀ hne : ys ≠ [], ys.getLast hne ≠ c) : ys.length ≤ xs.length := by
  by_contra hlt
  have hne : ys ≠ [] := by
    rintro rfl
    exact hlt (Nat.zero_le _)
  have hpos := List.length_pos_iff.mpr hne
  refine hlast hne ?_
  have hi : ys.length - 1 < ys.length := by omega
  rw [List.getLast_eq_getElem, ← List.getD_eq_getElem ys c hi, ← h,
    List.getD_eq_default _ _ (by omega)]

/-- Trimmed texts are the same exactly if they agree with their padding. -/
theorem rdropWhile_eq_iff {c : Char} {xs ys : List Char} :
    xs.rdropWhile (· = c) = ys.rdropWhile (· = c) ↔ ∀ i, xs.getD i c = ys.getD i c := by
  constructor
  · intro h i
    rw [← getD_rdropWhile c xs, h, getD_rdropWhile]
  · intro h
    have hpadded : ∀ i, (xs.rdropWhile (· = c)).getD i c = (ys.rdropWhile (· = c)).getD i c := by
      intro i
      rw [getD_rdropWhile, getD_rdropWhile, h]
    have hlast : ∀ zs : List Char, ∀ hne : zs.rdropWhile (· = c) ≠ [],
        (zs.rdropWhile (· = c)).getLast hne ≠ c := by
      intro zs hne
      simpa using List.rdropWhile_last_not (fun d => decide (d = c)) zs hne
    have hlength := le_antisymm (length_le_of_getD (fun i => (hpadded i).symm) (hlast xs))
      (length_le_of_getD hpadded (hlast ys))
    refine List.ext_getElem hlength fun i hi hi' => ?_
    have hget := hpadded i
    rwa [List.getD_eq_getElem _ _ hi, List.getD_eq_getElem _ _ hi'] at hget

/-! ## When names are the same -/

/-- The texts agree at their first 63 positions, in the letters of names and with hyphens after
their end. -/
def SameLetters (text text' : String) : Prop :=
  ∀ i < 63, (letters text.toList).getD i '-' = (letters text'.toList).getD i '-'

theorem getD_take (n : Nat) (c : Char) (xs : List Char) (i : Nat) :
    (xs.take n).getD i c = if i < n then xs.getD i c else c := by
  rw [List.getD_eq_getElem?_getD, List.getElem?_take, List.getD_eq_getElem?_getD]
  split_ifs <;> rfl

theorem sanitize_eq_iff {text text' : List Char} :
    sanitize text = sanitize text' ↔
      ∀ i < 63, (letters text).getD i '-' = (letters text').getD i '-' := by
  rw [sanitize, sanitize, rdropWhile_eq_iff]
  simp only [getD_take]
  constructor
  · intro h i hi
    simpa only [if_pos hi] using h i
  · intro h i
    split_ifs with hi
    · exact h i hi
    · rfl

/-- **Names are the same** exactly for texts whose first 63 letters are. -/
theorem sanitizeName_eq_iff {name name' : String} :
    sanitizeName name = sanitizeName name' ↔ SameLetters name name' := by
  rw [sanitizeName, sanitizeName, String.ofList_inj, sanitize_eq_iff]
  rfl

/-! ## Namespaces of UUIDs -/

/-- A lower-case hyphenated UUID: 36 characters, hyphens at four places and hexadecimal digits at
the others. -/
def IsUuid (id : String) : Prop :=
  id.toList.length = 36 ∧ ∀ i < 36,
    if i ∈ [8, 13, 18, 23] then id.toList.getD i ' ' = '-'
    else id.toList.getD i ' ' ∈ "0123456789abcdef".toList

instance (id : String) : Decidable (IsUuid id) := inferInstanceAs (Decidable (_ ∧ _))

theorem IsUuid.mem {id : String} (h : IsUuid id) :
    ∀ c ∈ id.toList, c ∈ "-0123456789abcdef".toList := by
  intro c hc
  obtain ⟨i, hi, rfl⟩ := List.mem_iff_getElem.mp hc
  have hget := h.2 i (h.1 ▸ hi)
  rw [List.getD_eq_getElem _ _ hi] at hget
  split_ifs at hget with hhyphen
  · rw [hget]
    decide
  · exact List.mem_cons_of_mem '-' hget

/-- Names keep a UUID as it is. -/
theorem IsUuid.letters {id : String} (h : IsUuid id) : letters id.toList = id.toList := by
  have hkeep : ("-0123456789abcdef".toList.all fun c =>
      (toLowercase c).map sanitizeChar = [c]) = true := by
    decide
  rw [Kubernetes.letters, List.map_flatMap]
  calc id.toList.flatMap (fun c => (toLowercase c).map sanitizeChar)
      = id.toList.flatMap (fun c => [c]) :=
        List.flatMap_congr fun c hc =>
          of_decide_eq_true (List.all_eq_true.mp hkeep c (h.mem c hc))
    _ = id.toList := List.flatMap_singleton' _

theorem letters_append (text text' : List Char) :
    letters (text ++ text') = letters text ++ letters text' := by
  rw [letters, List.flatMap_append, List.map_append]
  rfl

/-- **The namespaces of two UUIDs are the same** exactly if the UUIDs are, in the characters that
the cut leaves behind the prefix. -/
theorem namespaceName_eq_iff {pre id id' : String} (h : IsUuid id) (h' : IsUuid id') :
    namespaceName pre id = namespaceName pre id' ↔
      id.toList.take (63 - (letters pre.toList).length) =
        id'.toList.take (63 - (letters pre.toList).length) := by
  rw [namespaceName, namespaceName, String.ofList_inj, sanitize_eq_iff, String.toList_append,
    String.toList_append, letters_append, letters_append, h.letters, h'.letters]
  generalize letters pre.toList = start
  constructor
  · intro heq
    refine List.ext_getElem (by rw [List.length_take, List.length_take, h.1, h'.1])
      fun i hi hi' => ?_
    rw [List.length_take] at hi hi'
    have hget := heq (start.length + i) (by omega)
    rw [List.getD_append_right _ _ _ _ (Nat.le_add_right ..),
      List.getD_append_right _ _ _ _ (Nat.le_add_right ..), Nat.add_sub_cancel_left,
      List.getD_eq_getElem _ _ (by omega), List.getD_eq_getElem _ _ (by omega)] at hget
    rw [List.getElem_take, List.getElem_take, hget]
  · intro heq i hi
    rcases Nat.lt_or_ge i start.length with hlt | hge
    · rw [List.getD_append _ _ _ _ hlt, List.getD_append _ _ _ _ hlt]
    · have hget := congrArg (·.getD (i - start.length) '-') heq
      simp only [getD_take] at hget
      rw [if_pos (by omega), if_pos (by omega)] at hget
      rw [List.getD_append_right _ _ _ _ hge, List.getD_append_right _ _ _ _ hge, hget]

/-- Behind a prefix of up to 27 characters the whole UUID is left. -/
theorem namespaceName_injective {pre id id' : String} (hpre : (letters pre.toList).length ≤ 27)
    (h : IsUuid id) (h' : IsUuid id') (heq : namespaceName pre id = namespaceName pre id') :
    id = id' := by
  rw [namespaceName_eq_iff h h', List.take_of_length_le (by rw [h.1]; omega),
    List.take_of_length_le (by rw [h'.1]; omega)] at heq
  exact String.toList_inj.mp heq

end Wfe.Kubernetes
