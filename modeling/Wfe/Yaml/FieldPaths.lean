import Mathlib.Data.List.Induction
import Wfe.Executor.Condition
import Wfe.Executor.WorkflowExecutor
import Wfe.Yaml.Compiler
import Wfe.Yaml.Validation

/-!
# Field paths of conditions

The comparisons of a condition name fields of the workflow data, by paths such as `.inputs.x`.
Validation checks that the field is declared; at run time the path is resolved in data into which
the outputs of steps have been merged flat. The full path is tried first, and only if the data has
no key `inputs` (or `outputs`) that segment is dropped; a segment that reads as a number is always
an index into an array.

## Main definitions

* `YamlCondition.comparisons`, `StepCondition.comparisons`: the comparisons of a condition
* `element`: what one segment leads to
* `mergeOutputs`: the data after the outputs of some steps have been merged

## Main results

* `compileCondition_comparisons`: compilation keeps the comparisons
* `resolveFieldPath_eq`: the value of a path of two segments
* `field_path_resolves`: what the paths of an accepted workflow mean
-/

namespace Wfe

/-! ## Comparisons -/

mutual

/-- The comparisons of a condition, at any depth. -/
def YamlCondition.comparisons : YamlCondition → List YamlComparison
  | .comparison cmp => [cmp]
  | .combinator all any none_ oneOf not =>
    YamlCondition.combined all ++ YamlCondition.combined any ++ YamlCondition.combined none_ ++
      YamlCondition.combined oneOf ++ YamlCondition.negated not

def YamlCondition.combined : Option (List YamlCondition) → List YamlComparison
  | some cs => YamlCondition.listComparisons cs
  | none => []

def YamlCondition.negated : Option YamlCondition → List YamlComparison
  | some c => c.comparisons
  | none => []

def YamlCondition.listComparisons : List YamlCondition → List YamlComparison
  | [] => []
  | c :: cs => c.comparisons ++ YamlCondition.listComparisons cs

end

mutual

/-- The comparisons of a compiled condition, at any depth. -/
def StepCondition.comparisons : StepCondition → List FieldComparison
  | .all cs | .any cs | .none cs | .oneOf cs => StepCondition.listComparisons cs
  | .not c => c.comparisons
  | .comparison cmp => [cmp]

def StepCondition.listComparisons : List StepCondition → List FieldComparison
  | [] => []
  | c :: cs => c.comparisons ++ StepCondition.listComparisons cs

end

section Checks

variable {check : YamlComparison → Compiled Unit}

mutual

/-- A check of a condition passes exactly if it passes for all comparisons. -/
theorem forComparisons_eq_ok (c : YamlCondition) (h : forComparisons check c = .ok ()) :
    ∀ cmp ∈ c.comparisons, check cmp = .ok () := by
  cases c with
  | comparison cmp =>
    intro cmp' hmem
    rw [YamlCondition.comparisons, List.mem_singleton] at hmem
    rwa [hmem]
  | combinator all any none_ oneOf not =>
    obtain ⟨_, hall, h⟩ := Compiled.bind_eq_ok.mp h
    obtain ⟨_, hany, h⟩ := Compiled.bind_eq_ok.mp h
    obtain ⟨_, hnone, h⟩ := Compiled.bind_eq_ok.mp h
    obtain ⟨_, honeOf, hnot⟩ := Compiled.bind_eq_ok.mp h
    intro cmp hmem
    simp only [YamlCondition.comparisons, List.mem_append] at hmem
    rcases hmem with (((hmem | hmem) | hmem) | hmem) | hmem
    · exact forCombined_eq_ok all hall cmp hmem
    · exact forCombined_eq_ok any hany cmp hmem
    · exact forCombined_eq_ok none_ hnone cmp hmem
    · exact forCombined_eq_ok oneOf honeOf cmp hmem
    · exact forNegated_eq_ok not hnot cmp hmem

theorem forCombined_eq_ok (cs : Option (List YamlCondition))
    (h : forCombined check cs = .ok ()) :
    ∀ cmp ∈ YamlCondition.combined cs, check cmp = .ok () := by
  cases cs with
  | none => simp [YamlCondition.combined]
  | some cs => exact forConditions_eq_ok cs h

theorem forNegated_eq_ok (c : Option YamlCondition) (h : forNegated check c = .ok ()) :
    ∀ cmp ∈ YamlCondition.negated c, check cmp = .ok () := by
  cases c with
  | none => simp [YamlCondition.negated]
  | some c => exact forComparisons_eq_ok c h

theorem forConditions_eq_ok (cs : List YamlCondition) (h : forConditions check cs = .ok ()) :
    ∀ cmp ∈ YamlCondition.listComparisons cs, check cmp = .ok () := by
  cases cs with
  | nil => simp [YamlCondition.listComparisons]
  | cons c cs =>
    obtain ⟨_, hc, hcs⟩ := Compiled.bind_eq_ok.mp h
    intro cmp hmem
    rcases List.mem_append.mp hmem with hmem | hmem
    · exact forComparisons_eq_ok c hc cmp hmem
    · exact forConditions_eq_ok cs hcs cmp hmem

end

/-- The conditions of an accepted workflow have passed their checks. -/
theorem validate_when {spec : WorkflowSpec} {y : YamlStep} {cond : YamlCondition}
    (h : validate spec = .ok ()) (hy : y ∈ allSteps spec.steps) (hwhen : y.when = some cond) :
    validateWhen spec (collectStepOutputs spec.steps) cond = .ok () := by
  obtain ⟨_, -, h⟩ := Compiled.bind_eq_ok.mp h
  obtain ⟨_, -, h⟩ := Compiled.bind_eq_ok.mp h
  have hconditions :
      validateStepConditions spec (collectStepOutputs spec.steps) = .ok () := by
    dsimp only at h
    split at h
    all_goals
      obtain ⟨_, -, h⟩ := Compiled.bind_eq_ok.mp h
      obtain ⟨_, h, -⟩ := Compiled.bind_eq_ok.mp h
      exact h
  exact Compiled.forM_eq_ok.mp hconditions cond (List.mem_filterMap.mpr ⟨y, hy, hwhen⟩)

end Checks

/-- A comparison is compiled to one on the same field, with one of its operators. -/
theorem compileComparison_eq_ok {cmp : YamlComparison} {c : StepCondition}
    (h : compileComparison cmp = .ok c) :
    ∃ operator value, (operator, value) ∈ cmp.ops ∧
      c = .comparison ⟨cmp.field, operator, value⟩ := by
  unfold compileComparison at h
  split at h
  · cases h
  · next operator value hops =>
    cases h
    exact ⟨operator, value, by rw [hops]; exact List.mem_cons_self, rfl⟩
  · cases h

mutual

/-- **Compilation keeps the comparisons**: each compiled one comes from one of the condition. -/
theorem compileCondition_comparisons (cond : YamlCondition) {c : StepCondition}
    (h : compileCondition cond = .ok c) :
    ∀ fc ∈ c.comparisons, ∃ cmp ∈ cond.comparisons,
      compileComparison cmp = .ok (.comparison fc) := by
  unfold compileCondition at h
  split at h
  · next cmp =>
    intro fc hmem
    obtain ⟨operator, value, -, rfl⟩ := compileComparison_eq_ok h
    rw [StepCondition.comparisons, List.mem_singleton] at hmem
    exact ⟨cmp, List.mem_singleton.mpr rfl, by rw [h, hmem]⟩
  · cases h
  case h_3 conds | h_4 conds | h_5 conds | h_6 conds =>
    obtain ⟨cs, hcs, h⟩ := Compiled.bind_eq_ok.mp h
    cases h
    simpa [StepCondition.comparisons, YamlCondition.comparisons, YamlCondition.combined,
      YamlCondition.negated] using compileConditions_comparisons conds hcs
  · next inner =>
    obtain ⟨c, hc, h⟩ := Compiled.bind_eq_ok.mp h
    cases h
    simpa [StepCondition.comparisons, YamlCondition.comparisons, YamlCondition.combined,
      YamlCondition.negated] using compileCondition_comparisons inner hc
  · cases h

theorem compileConditions_comparisons (conds : List YamlCondition) {cs : List StepCondition}
    (h : compileConditions conds = .ok cs) :
    ∀ fc ∈ StepCondition.listComparisons cs, ∃ cmp ∈ YamlCondition.listComparisons conds,
      compileComparison cmp = .ok (.comparison fc) := by
  cases conds with
  | nil =>
    cases h
    simp [StepCondition.listComparisons]
  | cons cond conds =>
    obtain ⟨c, hc, h⟩ := Compiled.bind_eq_ok.mp h
    obtain ⟨cs, hcs, h⟩ := Compiled.bind_eq_ok.mp h
    cases h
    intro fc hmem
    rcases List.mem_append.mp hmem with hmem | hmem
    · obtain ⟨cmp, hcmp, hfc⟩ := compileCondition_comparisons cond hc fc hmem
      exact ⟨cmp, List.mem_append_left _ hcmp, hfc⟩
    · obtain ⟨cmp, hcmp, hfc⟩ := compileConditions_comparisons conds hcs fc hmem
      exact ⟨cmp, List.mem_append_right _ hcmp, hfc⟩

end

/-! ## Paths -/

/-- What one segment of a path leads to: an element of an array if it reads as a number, else the
value of a key. -/
def element (segment : String) (v : Json) : Option Json :=
  match Text.parseU64 segment with
  | some idx => v.asArray.bind (·[idx]?)
  | none => v.get segment

/-- The outcome of a path: a value, or a missing field. -/
def present (v : Option Json) : Except Condition.EvalError Json :=
  match v with
  | some v => .ok v
  | none => .error .fieldNotPresent

open Condition in
theorem walkSegments_cons (segment : String) (rest : List String) (v : Json) :
    walkSegments (segment :: rest) v = present (element segment v) >>= walkSegments rest := by
  cases hsegment : Text.parseU64 segment with
  | none =>
    simp only [walkSegments, element, hsegment]
    cases v.get segment <;> rfl
  | some idx =>
    simp only [walkSegments, element, hsegment]
    cases v.asArray.bind (·[idx]?) <;> rfl

open Condition in
theorem walkSegments_singleton (segment : String) (v : Json) :
    walkSegments [segment] v = present (element segment v) := by
  rw [walkSegments_cons]
  cases element segment v <;> rfl

/-- An object has no elements. -/
theorem element_object (segment : String) (m : Object) :
    element segment (.object m) =
      if (Text.parseU64 segment).isSome then none else m.get segment := by
  rw [element]
  cases Text.parseU64 segment <;> rfl

/-- A leading dot only puts an empty segment in front. -/
theorem split_dot (cs : List Char) :
    Text.split (String.ofList ('.' :: cs)) '.' = "" :: Text.split (String.ofList cs) '.' := by
  simp [Text.split, List.splitOn_cons_eq_if_modifyHead]

/-- Only a path that is empty or starts with a dot has an empty first segment. -/
theorem split_cons_ne {c : Char} (hc : c ≠ '.') (cs : List Char) (parts : List String) :
    Text.split (String.ofList (c :: cs)) '.' ≠ "" :: parts := by
  obtain ⟨l, ls, hl⟩ := List.exists_cons_of_ne_nil (List.splitOn_ne_nil '.' cs)
  simp [Text.split, List.splitOn_cons_eq_if_modifyHead, hc, hl]

/-- Validation and evaluation see the same segments. -/
theorem resolveFieldPath_of_segments {field first second : String} {rest : List String}
    (h : fieldSegments field = first :: second :: rest) (data : Json) :
    Condition.resolveFieldPath field data =
      if (first = "outputs" ∨ first = "inputs") ∧ data.get first = none then
        Condition.walkSegments (second :: rest) data
      else Condition.walkSegments (first :: second :: rest) data := by
  -- The path without a leading dot.
  have hpath {path : String} (hsplit : Text.split path '.' = first :: second :: rest) :
      path ≠ "" := by
    rintro rfl
    cases hsplit
  obtain ⟨cs, rfl⟩ : ∃ cs, field = String.ofList cs := ⟨field.toList, String.ofList_toList.symm⟩
  unfold Condition.resolveFieldPath
  rw [String.toList_ofList]
  cases cs with
  | nil => cases h
  | cons c cs =>
    split
    · next cs' hcs =>
      cases hcs
      rw [fieldSegments, split_dot] at h
      change Text.split (String.ofList cs) '.' = _ at h
      dsimp only
      rw [if_neg (hpath h), h]
    · next hdot =>
      have hc : c ≠ '.' := fun hc => hdot cs (by rw [hc])
      have hsplit : Text.split (String.ofList (c :: cs)) '.' = first :: second :: rest := by
        rw [fieldSegments] at h
        split at h
        · next parts hparts => exact absurd hparts (split_cons_ne hc cs parts)
        · exact h
      dsimp only
      rw [if_neg (hpath hsplit), hsplit]

/-- The value of a path of two segments: the first one is a key of the data, or else is dropped. -/
theorem resolveFieldPath_eq {field first f : String} (hfirst : first = "inputs" ∨ first = "outputs")
    (h : fieldSegments field = [first, f]) (data : Json) :
    Condition.resolveFieldPath field data = present (element f ((data.get first).getD data)) := by
  rw [resolveFieldPath_of_segments h]
  have hkey : element first data = data.get first := by
    rcases hfirst with rfl | rfl <;> rfl
  split_ifs with hnone
  · rw [walkSegments_singleton, hnone.2]
    rfl
  · cases hget : data.get first with
    | none => exact absurd ⟨hfirst.symm, hget⟩ hnone
    | some v =>
      rw [walkSegments_cons, hkey, hget, ← walkSegments_singleton]
      rfl

/-! ## Merged data -/

namespace Object

/-- `extend` has the keys of both. -/
theorem get_extend_eq_none (m m' : Object) (key : String) :
    (m.extend m').get key = none ↔ m.get key = none ∧ m'.get key = none := by
  induction m' generalizing m with
  | nil => simp [Object.extend, Object.get]
  | cons kv m' ih =>
    obtain ⟨k, v⟩ := kv
    rw [Object.extend, List.foldl_cons, ← Object.extend, ih, get_insert, get_cons]
    split_ifs <;> simp

end Object

/-- The outputs of steps, merged one after another. -/
def mergeOutputs (w : WorkflowInstance) (outputs : List (Option Json)) : WorkflowInstance :=
  outputs.foldl mergeOutput w

theorem mergeOutput_eq_self (w : WorkflowInstance) {out : Option Json}
    (h : ¬∃ o, out = some (.object o)) : mergeOutput w out = w := by
  unfold mergeOutput
  split
  · exact absurd ⟨_, rfl⟩ h
  · rfl

/-- Data that is an object stays one, with the keys of the objects that are merged. -/
theorem mergeOutputs_data {w : WorkflowInstance} {start : Object} (hw : w.data = .object start)
    (outputs : List (Option Json)) :
    ∃ m : Object, (mergeOutputs w outputs).data = .object m ∧ ∀ key, m.get key = none ↔
      start.get key = none ∧ ∀ o : Object, some (.object o) ∈ outputs → o.get key = none := by
  induction outputs using List.reverseRecOn with
  | nil => exact ⟨start, hw, by simp⟩
  | append_singleton outputs out ih =>
    obtain ⟨m, hm, hkeys⟩ := ih
    rw [mergeOutputs, List.foldl_append, List.foldl_cons, List.foldl_nil, ← mergeOutputs]
    by_cases hout : ∃ o, out = some (.object o)
    · obtain ⟨o, rfl⟩ := hout
      refine ⟨m.extend o, by simp [mergeOutput, hm], fun key => ?_⟩
      rw [Object.get_extend_eq_none, hkeys]
      simp only [List.mem_append, List.mem_singleton, Option.some.injEq, Json.object.injEq]
      constructor
      · rintro ⟨⟨hstart, houtputs⟩, ho⟩
        refine ⟨hstart, ?_⟩
        rintro o' (h | rfl)
        · exact houtputs o' h
        · exact ho
      · rintro ⟨hstart, h⟩
        exact ⟨⟨hstart, fun o' ho' => h o' (.inl ho')⟩, h o (.inr rfl)⟩
    · refine ⟨m, by rw [mergeOutput_eq_self _ hout, hm], fun key => ?_⟩
      rw [hkeys]
      refine and_congr_right fun _ => forall_congr' fun o => ?_
      have hne : some (.object o) ≠ out := fun h => hout ⟨o, h.symm⟩
      simp [hne]

/-! ## Accepted paths -/

/-- A path that is accepted names a declared field, in a workflow that declares any. -/
theorem validateFieldPath_eq_ok {spec : WorkflowSpec} {knownOutputs : List String}
    {field first f : String} (h : validateFieldPath spec knownOutputs field = .ok ())
    (hsegments : fieldSegments field = [first, f]) :
    (spec.inputs = [] ∧ spec.outputs = []) ∨
      (first = "inputs" ∧ f ∈ spec.inputs.map Prod.fst) ∨
      (first = "outputs" ∧ (f ∈ spec.outputs.map Prod.fst ∨ f ∈ knownOutputs)) := by
  unfold validateFieldPath at h
  split_ifs at h with hnone
  · exact .inl hnone
  · rw [hsegments] at h
    split at h
    · next name rest hname =>
      cases hname
      exact .inr (.inl ⟨rfl, not_not.mp (rejectIf_eq_ok h)⟩)
    · next name rest hname =>
      cases hname
      refine .inr (.inr ⟨rfl, ?_⟩)
      have hnot := rejectIf_eq_ok h
      rwa [not_and_or, not_not, not_not] at hnot
    · cases h
    · cases h

/-- **What the paths of an accepted workflow mean.** A comparison on a path of two segments names a
declared field, in a workflow that declares any. It is resolved in the data that the workflow has
been started with, an object, with the outputs of any steps merged into it. If neither the former
nor any of the latter has a key of the name of the first segment, the value compared is that of the
field, or the field is missing; but a field whose name reads as a number is always missing. If the
data has such a key, the whole path is resolved in the data. -/
theorem field_path_resolves {spec : WorkflowSpec} {y : YamlStep} {cond : YamlCondition}
    {c : StepCondition} {fc : FieldComparison} {first f : String}
    (hvalid : validate spec = .ok ()) (hy : y ∈ allSteps spec.steps) (hwhen : y.when = some cond)
    (hcompile : compileCondition cond = .ok c) (hfc : fc ∈ c.comparisons)
    (hfirst : first = "inputs" ∨ first = "outputs")
    (hsegments : fieldSegments fc.field = [first, f]) :
    ((spec.inputs = [] ∧ spec.outputs = []) ∨
      (first = "inputs" ∧ f ∈ spec.inputs.map Prod.fst) ∨
      (first = "outputs" ∧
        (f ∈ spec.outputs.map Prod.fst ∨ f ∈ collectStepOutputs spec.steps))) ∧
    ∀ (w : WorkflowInstance) (start : Object) (outputs : List (Option Json)),
      w.data = .object start →
      ((start.get first = none ∧ ∀ o : Object, some (.object o) ∈ outputs → o.get first = none) →
        Condition.resolveFieldPath fc.field (mergeOutputs w outputs).data =
          if (Text.parseU64 f).isSome then .error .fieldNotPresent
          else present ((mergeOutputs w outputs).data.get f)) ∧
      ∀ v, (mergeOutputs w outputs).data.get first = some v →
        Condition.resolveFieldPath fc.field (mergeOutputs w outputs).data =
          present (element f v) := by
  constructor
  · obtain ⟨_, hfields, -⟩ := Compiled.bind_eq_ok.mp (validate_when hvalid hy hwhen)
    obtain ⟨cmp, hcmp, hcompiled⟩ := compileCondition_comparisons cond hcompile fc hfc
    obtain ⟨operator, value, -, heq⟩ := compileComparison_eq_ok hcompiled
    cases heq
    exact validateFieldPath_eq_ok (forComparisons_eq_ok cond hfields cmp hcmp) hsegments
  · intro w start outputs hw
    obtain ⟨m, hm, hkeys⟩ := mergeOutputs_data hw outputs
    rw [resolveFieldPath_eq hfirst hsegments]
    refine ⟨fun hnone => ?_, fun v hv => by rw [hv]; rfl⟩
    have hget : (mergeOutputs w outputs).data.get first = none := by
      rw [hm]
      exact (hkeys first).mpr hnone
    rw [hget, Option.getD_none, hm, element_object]
    split_ifs <;> rfl

/-- A workflow with one step, which runs if a field is 1. -/
def reviewSpec (inputs : List (String × String)) (field : String) : WorkflowSpec where
  id := "review"
  version := 1
  steps := [{
    name := "approve"
    stepType := some "shell"
    config := some { run := some "approve.sh" }
    when := some (.comparison { field, equals := some (.number (.posInt 1)) }) }]
  inputs := inputs

/-- The compiled comparison of its step. -/
def reviewComparison (field : String) : FieldComparison :=
  ⟨field, .equals, some (.number (.posInt 1))⟩

/-- An instance of the workflow with the given data. -/
def reviewInstance (data : Object) : WorkflowInstance :=
  .new ⟨0, fun _ => "instance"⟩ "review" 1 (.object data)

/-- The field of the path is compared after an output has been merged. -/
theorem field_path_resolves_score :
    Condition.resolveFieldPath ".inputs.score" (mergeOutputs
        (reviewInstance [("score", .number (.posInt 1))])
        [some (.object [("grade", .string "A")])]).data =
      present ((mergeOutputs (reviewInstance [("score", .number (.posInt 1))])
        [some (.object [("grade", .string "A")])]).data.get "score") := by
  have hvalid : validate (reviewSpec [("score", "number")] ".inputs.score") = .ok () := by
    decide +kernel
  have hsegments : fieldSegments (reviewComparison ".inputs.score").field =
      ["inputs", "score"] := by
    decide
  have hpaths := (field_path_resolves hvalid List.mem_cons_self rfl rfl List.mem_cons_self
    (.inl rfl) hsegments).2 (reviewInstance [("score", .number (.posInt 1))]) _
    [some (.object [("grade", .string "A")])] rfl
  have hflat := hpaths.1 ⟨by decide, fun o ho => by
    cases List.mem_singleton.mp ho
    decide⟩
  rwa [if_neg (by decide)] at hflat

/-- Of an accepted workflow with an input named `inputs`, the path `.inputs.score` does not lead to
the input `score`, and of one with an input named `0`, the path `.inputs.0` leads nowhere. -/
theorem field_path_elsewhere :
    (validate (reviewSpec [("inputs", "any"), ("score", "number")] ".inputs.score") = .ok () ∧
      (reviewInstance [("inputs", .object []), ("score", .number (.posInt 1))]).data.get "score" =
        some (.number (.posInt 1)) ∧
      Condition.resolveFieldPath ".inputs.score"
        (reviewInstance [("inputs", .object []), ("score", .number (.posInt 1))]).data =
          .error .fieldNotPresent) ∧
    validate (reviewSpec [("0", "number")] ".inputs.0") = .ok () ∧
      (reviewInstance [("0", .number (.posInt 1))]).data.get "0" = some (.number (.posInt 1)) ∧
      Condition.resolveFieldPath ".inputs.0" (reviewInstance [("0", .number (.posInt 1))]).data =
        .error .fieldNotPresent := by
  decide +kernel

end Wfe
