import Wfe.Yaml.FieldPaths

/-!
# The types of conditions

Validation checks the operators of a comparison against the declared type of its field, before any
data is there; evaluation meets the values themselves. The check looks neither at the literal that
is compared with, nor at the null that an optional type admits, so a condition that was accepted may
still fail. When it does is said here exactly, comparison by comparison: those that the evaluation
comes to, and those where the value and the literal do not fit the operator.

## Main definitions

* `Reaches`: the comparisons that the evaluation of a condition comes to
* `Fits`: a value and a literal fit an operator
* `TypedCondition`, `Conforming`: conditions on declared fields, and data of the declared types

## Main results

* `evaluateInner_error_iff`: a condition fails exactly if a comparison that it comes to does
* `accepted_condition_ok_iff`: when an accepted condition is evaluated without an error
-/

namespace Wfe

/-! ## What the evaluation comes to -/

open Condition (EvalError evaluateInner evaluateAll evaluateAny evaluateOneOf evaluateComparison)

/-- The evaluation of the condition comes to the comparison: the conditions before it, at each
level, do not decide their combinator. -/
inductive Reaches (data : Json) : StepCondition → FieldComparison → Prop
  | comparison (cmp : FieldComparison) : Reaches data (.comparison cmp) cmp
  | all {before after : List StepCondition} {c : StepCondition} {cmp : FieldComparison}
      (hbefore : ∀ d ∈ before, evaluateInner d data = .ok true) (h : Reaches data c cmp) :
      Reaches data (.all (before ++ c :: after)) cmp
  | any {before after : List StepCondition} {c : StepCondition} {cmp : FieldComparison}
      (hbefore : ∀ d ∈ before, evaluateInner d data = .ok false) (h : Reaches data c cmp) :
      Reaches data (.any (before ++ c :: after)) cmp
  | none {before after : List StepCondition} {c : StepCondition} {cmp : FieldComparison}
      (hbefore : ∀ d ∈ before, evaluateInner d data = .ok false) (h : Reaches data c cmp) :
      Reaches data (.none (before ++ c :: after)) cmp
  | oneOf {before after : List StepCondition} {c : StepCondition} {cmp : FieldComparison}
      (hbefore : ∀ d ∈ before, ∃ b, evaluateInner d data = .ok b)
      (honce : before.countP (fun d => (evaluateInner d data).toOption = some true) ≤ 1)
      (h : Reaches data c cmp) : Reaches data (.oneOf (before ++ c :: after)) cmp
  | not {c : StepCondition} {cmp : FieldComparison} (h : Reaches data c cmp) :
      Reaches data (.not c) cmp

section Loops

variable {data : Json} {e : EvalError}

/-- A loop that goes on as long as the answer is `go`. -/
theorem loop_error_iff (loop : List StepCondition → Except EvalError Bool) {go : Bool}
    (hnil : loop [] = .ok go)
    (hgo : ∀ c cs, evaluateInner c data = .ok go → loop (c :: cs) = loop cs)
    (hstop : ∀ c cs, evaluateInner c data ≠ .ok go → loop (c :: cs) = evaluateInner c data)
    (cs : List StepCondition) :
    loop cs = .error e ↔ ∃ before c after, cs = before ++ c :: after ∧
      (∀ d ∈ before, evaluateInner d data = .ok go) ∧ evaluateInner c data = .error e := by
  induction cs with
  | nil => simp [hnil]
  | cons c cs ih =>
    constructor
    · intro h
      by_cases hc : evaluateInner c data = .ok go
      · rw [hgo c cs hc] at h
        obtain ⟨before, d, after, rfl, hbefore, hd⟩ := ih.mp h
        exact ⟨c :: before, d, after, rfl, List.forall_mem_cons.mpr ⟨hc, hbefore⟩, hd⟩
      · rw [hstop c cs hc] at h
        exact ⟨[], c, cs, rfl, by simp, h⟩
    · rintro ⟨before, d, after, hcs, hbefore, hd⟩
      cases before with
      | nil =>
        cases hcs
        rw [hstop c cs (by simp [hd]), hd]
      | cons b before =>
        cases hcs
        obtain ⟨hb, hbefore⟩ := List.forall_mem_cons.mp hbefore
        rw [hgo c _ hb]
        exact ih.mpr ⟨before, d, after, rfl, hbefore, hd⟩

theorem evaluateAll_error_iff (cs : List StepCondition) :
    evaluateAll cs data = .error e ↔ ∃ before c after, cs = before ++ c :: after ∧
      (∀ d ∈ before, evaluateInner d data = .ok true) ∧ evaluateInner c data = .error e := by
  refine loop_error_iff (fun cs => evaluateAll cs data) rfl (fun c cs h => ?_)
    (fun c cs h => ?_) cs
  · simp only [evaluateAll, h]
  · rw [evaluateAll]
    split
    · contradiction
    · rfl

theorem evaluateAny_error_iff (cs : List StepCondition) :
    evaluateAny cs data = .error e ↔ ∃ before c after, cs = before ++ c :: after ∧
      (∀ d ∈ before, evaluateInner d data = .ok false) ∧ evaluateInner c data = .error e := by
  refine loop_error_iff (fun cs => evaluateAny cs data) rfl (fun c cs h => ?_)
    (fun c cs h => ?_) cs
  · simp only [evaluateAny, h]
  · rw [evaluateAny]
    split
    · contradiction
    · rfl

theorem evaluateOneOf_error_iff (cs : List StepCondition) (count : ℕ) (hcount : count ≤ 1) :
    evaluateOneOf cs data count = .error e ↔ ∃ before c after, cs = before ++ c :: after ∧
      (∀ d ∈ before, ∃ b, evaluateInner d data = .ok b) ∧
      count + before.countP (fun d => (evaluateInner d data).toOption = some true) ≤ 1 ∧
      evaluateInner c data = .error e := by
  induction cs generalizing count with
  | nil => simp [evaluateOneOf]
  | cons c cs ih =>
    rw [evaluateOneOf]
    constructor
    · intro h
      split at h
      · next hc =>
        split_ifs at h with hpos
        obtain ⟨before, d, after, rfl, hbefore, honce, hd⟩ := (ih (count + 1) (by omega)).mp h
        refine ⟨c :: before, d, after, rfl, List.forall_mem_cons.mpr ⟨⟨_, hc⟩, hbefore⟩, ?_, hd⟩
        rw [List.countP_cons_of_pos (by rw [hc]; rfl)]
        omega
      · next hc =>
        obtain ⟨before, d, after, rfl, hbefore, honce, hd⟩ := (ih count hcount).mp h
        refine ⟨c :: before, d, after, rfl, List.forall_mem_cons.mpr ⟨⟨_, hc⟩, hbefore⟩, ?_, hd⟩
        rw [List.countP_cons_of_neg (by rw [hc]; simp [Except.toOption])]
        exact honce
      · next hc =>
        cases h
        exact ⟨[], c, cs, rfl, by simp, by simpa using hcount, hc⟩
    · rintro ⟨before, d, after, hcs, hbefore, honce, hd⟩
      cases before with
      | nil =>
        cases hcs
        rw [hd]
      | cons b before =>
        cases hcs
        obtain ⟨⟨r, hb⟩, hbefore⟩ := List.forall_mem_cons.mp hbefore
        rw [hb]
        cases r with
        | true =>
          rw [List.countP_cons_of_pos (by rw [hb]; rfl)] at honce
          rw [if_neg (by omega)]
          exact (ih (count + 1) (by omega)).mpr ⟨before, d, after, rfl, hbefore, by omega, hd⟩
        | false =>
          rw [List.countP_cons_of_neg (by rw [hb]; simp [Except.toOption])] at honce
          exact (ih count hcount).mpr ⟨before, d, after, rfl, hbefore, honce, hd⟩

end Loops

theorem map_error_iff {α β ε : Type} {x : Except ε α} {f : α → β} {e : ε} :
    x.map f = .error e ↔ x = .error e := by
  cases x <;> simp [Except.map]

mutual

/-- A condition that fails does so at a comparison that it comes to. -/
theorem exists_reaches (c : StepCondition) {data : Json} {e : EvalError}
    (h : evaluateInner c data = .error e) :
    ∃ cmp, Reaches data c cmp ∧ evaluateComparison cmp data = .error e := by
  cases c with
  | all cs =>
    obtain ⟨before, c, after, rfl, hbefore, hc⟩ := (evaluateAll_error_iff cs).mp h
    obtain ⟨cmp, hreaches, hcmp⟩ := exists_reaches_mem (before ++ c :: after) c (by simp) hc
    exact ⟨cmp, .all hbefore hreaches, hcmp⟩
  | any cs =>
    obtain ⟨before, c, after, rfl, hbefore, hc⟩ := (evaluateAny_error_iff cs).mp h
    obtain ⟨cmp, hreaches, hcmp⟩ := exists_reaches_mem (before ++ c :: after) c (by simp) hc
    exact ⟨cmp, .any hbefore hreaches, hcmp⟩
  | none cs =>
    rw [evaluateInner, map_error_iff] at h
    obtain ⟨before, c, after, rfl, hbefore, hc⟩ := (evaluateAny_error_iff cs).mp h
    obtain ⟨cmp, hreaches, hcmp⟩ := exists_reaches_mem (before ++ c :: after) c (by simp) hc
    exact ⟨cmp, .none hbefore hreaches, hcmp⟩
  | oneOf cs =>
    obtain ⟨before, c, after, rfl, hbefore, honce, hc⟩ :=
      (evaluateOneOf_error_iff cs 0 (by omega)).mp h
    obtain ⟨cmp, hreaches, hcmp⟩ := exists_reaches_mem (before ++ c :: after) c (by simp) hc
    exact ⟨cmp, .oneOf hbefore (by simpa using honce) hreaches, hcmp⟩
  | not c =>
    rw [evaluateInner, map_error_iff] at h
    obtain ⟨cmp, hreaches, hcmp⟩ := exists_reaches c h
    exact ⟨cmp, .not hreaches, hcmp⟩
  | comparison cmp => exact ⟨cmp, .comparison cmp, h⟩

theorem exists_reaches_mem (cs : List StepCondition) (c : StepCondition) (hc : c ∈ cs)
    {data : Json} {e : EvalError} (h : evaluateInner c data = .error e) :
    ∃ cmp, Reaches data c cmp ∧ evaluateComparison cmp data = .error e := by
  cases cs with
  | nil => cases hc
  | cons c' cs =>
    rcases List.mem_cons.mp hc with rfl | hc
    · exact exists_reaches c h
    · exact exists_reaches_mem cs c hc h

end

/-- **A condition fails exactly if a comparison that it comes to does**, with the same error. -/
theorem evaluateInner_error_iff {c : StepCondition} {data : Json} {e : EvalError} :
    evaluateInner c data = .error e ↔
      ∃ cmp, Reaches data c cmp ∧ evaluateComparison cmp data = .error e := by
  constructor
  · exact exists_reaches c
  · rintro ⟨cmp, hreaches, hcmp⟩
    induction hreaches with
    | comparison cmp => exact hcmp
    | all hbefore _ ih =>
      exact (evaluateAll_error_iff _).mpr ⟨_, _, _, rfl, hbefore, ih hcmp⟩
    | any hbefore _ ih =>
      exact (evaluateAny_error_iff _).mpr ⟨_, _, _, rfl, hbefore, ih hcmp⟩
    | none hbefore _ ih =>
      rw [evaluateInner, map_error_iff]
      exact (evaluateAny_error_iff _).mpr ⟨_, _, _, rfl, hbefore, ih hcmp⟩
    | oneOf hbefore honce _ ih =>
      exact (evaluateOneOf_error_iff _ 0 (by omega)).mpr
        ⟨_, _, _, rfl, hbefore, by simpa using honce, ih hcmp⟩
    | not _ ih =>
      rw [evaluateInner, map_error_iff]
      exact ih hcmp

theorem StepCondition.mem_listComparisons {cs : List StepCondition} {c : StepCondition}
    {cmp : FieldComparison} (hc : c ∈ cs) (h : cmp ∈ c.comparisons) :
    cmp ∈ StepCondition.listComparisons cs := by
  induction cs with
  | nil => cases hc
  | cons c' cs ih =>
    rw [StepCondition.listComparisons, List.mem_append]
    rcases List.mem_cons.mp hc with rfl | hc
    · exact .inl h
    · exact .inr (ih hc)

theorem Reaches.mem_comparisons {data : Json} {c : StepCondition} {cmp : FieldComparison}
    (h : Reaches data c cmp) : cmp ∈ c.comparisons := by
  induction h with
  | comparison cmp => exact List.mem_singleton.mpr rfl
  | all _ _ ih | any _ _ ih | none _ _ ih | oneOf _ _ _ ih =>
    rw [StepCondition.comparisons]
    exact StepCondition.mem_listComparisons (by simp) ih
  | not _ ih => exact ih

/-- A condition has a value unless some comparison that it comes to is an error, other than for a
missing field. -/
theorem evaluate_ok_iff {c : StepCondition} {data : Json} :
    (∃ b, Condition.evaluate c data = .ok b) ↔
      ∀ cmp, Reaches data c cmp → ∀ e, evaluateComparison cmp data ≠ .error (.wfe e) := by
  have hok : (∃ b, Condition.evaluate c data = .ok b) ↔
      ∀ e, evaluateInner c data ≠ .error (.wfe e) := by
    unfold Condition.evaluate
    rcases evaluateInner c data with (_ | e) | b
    · exact iff_of_true ⟨false, rfl⟩ (by simp)
    · exact iff_of_false (by simp) (by simp)
    · exact iff_of_true ⟨b, rfl⟩ (by simp)
  rw [hok]
  constructor
  · intro h cmp hreaches e hcmp
    exact h e (evaluateInner_error_iff.mpr ⟨cmp, hreaches, hcmp⟩)
  · intro h e hc
    obtain ⟨cmp, hreaches, hcmp⟩ := evaluateInner_error_iff.mp hc
    exact h cmp hreaches e hcmp

/-! ## Types -/

/-- The type contains `any`. -/
def SchemaType.containsAny : SchemaType → Bool
  | .any => true
  | .optional inner | .list inner | .map inner => inner.containsAny
  | _ => false

/-- The condition of comparisons on declared fields, by paths of two segments, with types that can
be parsed and do not contain `any`. -/
def TypedCondition (spec : WorkflowSpec) (cond : YamlCondition) : Prop :=
  ∀ cmp ∈ cond.comparisons, ∃ first f t, (first = "inputs" ∨ first = "outputs") ∧
    fieldSegments cmp.field = [first, f] ∧ resolveFieldType cmp.field spec = some t ∧
    t.containsAny = false

/-- Data without keys `inputs` and `outputs`, whose declared fields are of their types. -/
structure Conforming (spec : WorkflowSpec) (data : Object) : Prop where
  inputs : data.get "inputs" = none
  outputs : data.get "outputs" = none
  typed : ∀ name text t v, (spec.inputs.lookup name = some text ∨
      spec.outputs.lookup name = some text) → parseTypeString text = .ok t →
    data.get name = some v → validateValue v t = .ok ()

/-- The value of a field and the literal fit the operator. -/
def Fits (operator : ComparisonOp) (v : Json) (literal : Option Json) : Prop :=
  match operator with
  | .gt | .gte | .lt | .lte => v ≠ .null ∧ ∃ n, literal = some (.number n)
  | .contains => v ≠ .null ∧ (v.asStr.isSome → ∃ s, literal = some (.string s))
  | _ => True

/-- The field of the comparison is missing, or its value fits. A field whose name reads as a number
is missing. -/
def Apt (data : Object) (fc : FieldComparison) : Prop :=
  ∀ first f v, fieldSegments fc.field = [first, f] → Text.parseU64 f = none →
    data.get f = some v → Fits fc.operator v fc.value

theorem numeric_value {t : SchemaType} {v : Json} (hnumeric : t.isNumeric = true)
    (hany : t.containsAny = false) (h : validateValue v t = .ok ()) :
    v = .null ∨ ∃ n, v = .number n := by
  induction t with
  | number =>
    cases v with
    | number n => exact .inr ⟨n, rfl⟩
    | _ => cases h
  | integer =>
    cases v with
    | number n => exact .inr ⟨n, rfl⟩
    | _ => cases h
  | optional inner ih =>
    rw [validateValue] at h
    split_ifs at h with hnull
    · cases v with
      | null => exact .inl rfl
      | _ => cases hnull
    · exact ih hnumeric hany h
  | any => cases hany
  | _ => cases hnumeric

theorem containable_value {t : SchemaType} {v : Json} (hcontainable : t.isContainable = true)
    (hany : t.containsAny = false) (h : validateValue v t = .ok ()) :
    v = .null ∨ (∃ s, v = .string s) ∨ ∃ xs, v = .array xs := by
  induction t with
  | string =>
    cases v with
    | string s => exact .inr (.inl ⟨s, rfl⟩)
    | _ => cases h
  | list inner =>
    cases v with
    | array xs => exact .inr (.inr ⟨xs, rfl⟩)
    | _ => cases h
  | optional inner ih =>
    rw [validateValue] at h
    split_ifs at h with hnull
    · cases v with
      | null => exact .inl rfl
      | _ => cases hnull
    · exact ih hcontainable hany h
  | any => cases hany
  | _ => cases hcontainable

/-- The operators that a comparison specifies, with their literals. -/
theorem mem_ops {cmp : YamlComparison} {operator : ComparisonOp} {value : Option Json}
    (h : (operator, value) ∈ cmp.ops) :
    ((operator = .isNull ∨ operator = .isNotNull) ∨ ∃ v, value = some v) ∧
      ((operator = .gt ∨ operator = .gte ∨ operator = .lt ∨ operator = .lte) →
        cmp.gt.isSome ∨ cmp.gte.isSome ∨ cmp.lt.isSome ∨ cmp.lte.isSome) ∧
      (operator = .contains → cmp.contains.isSome) := by
  simp only [YamlComparison.ops, List.mem_append, List.mem_map, Option.mem_toList,
    Prod.mk.injEq] at h
  rcases h with ((((((((h | h) | h) | h) | h) | h) | h) | h) | h)
  case inl.inl.inl.inl.inl.inl.inl.inl | inl.inl.inl.inl.inl.inl.inl.inr =>
    obtain ⟨v, -, rfl, rfl⟩ := h
    exact ⟨.inr ⟨_, rfl⟩, by simp, by simp⟩
  case inr | inl.inr =>
    split_ifs at h
    · cases List.mem_singleton.mp h
      exact ⟨by simp, by simp, by simp⟩
    · cases h
  all_goals
    obtain ⟨v, hv, rfl, rfl⟩ := h
    rw [Option.mem_def.mp hv]
    simp

/-- The operators that are accepted for a type. -/
theorem validateComparisonType_eq_ok {spec : WorkflowSpec} {cmp : YamlComparison} {t : SchemaType}
    (h : validateComparisonType spec cmp = .ok ()) (ht : resolveFieldType cmp.field spec = some t) :
    ((cmp.gt.isSome ∨ cmp.gte.isSome ∨ cmp.lt.isSome ∨ cmp.lte.isSome) → t.isNumeric = true) ∧
      (cmp.contains.isSome → t.isContainable = true) := by
  rw [validateComparisonType, ht] at h
  obtain ⟨_, hnumeric, h⟩ := Compiled.bind_eq_ok.mp h
  obtain ⟨_, hcontains, -⟩ := Compiled.bind_eq_ok.mp h
  constructor
  · intro hop
    by_contra hnot
    exact rejectIf_eq_ok hnumeric ⟨hop, by simpa using hnot⟩
  · intro hop
    by_contra hnot
    exact rejectIf_eq_ok hcontains ⟨hop, by simpa using hnot⟩

theorem resolveFieldType_eq_some {field first f : String} {spec : WorkflowSpec} {t : SchemaType}
    (hsegments : fieldSegments field = [first, f]) (h : resolveFieldType field spec = some t) :
    ∃ text, (spec.inputs.lookup f = some text ∨ spec.outputs.lookup f = some text) ∧
      parseTypeString text = .ok t := by
  unfold resolveFieldType at h
  rw [hsegments] at h
  obtain ⟨text, htext, ht⟩ := Option.bind_eq_some_iff.mp h
  refine ⟨text, ?_, ?_⟩
  · split at htext
    · next hname =>
      cases hname
      exact .inl htext
    · next hname =>
      cases hname
      exact .inr htext
    · cases htext
  · cases hparse : parseTypeString text with
    | error e => rw [hparse] at ht; cases ht
    | ok t' => rw [hparse] at ht; cases ht; rfl

section Comparison

variable {fc : FieldComparison} {data v : Json}

theorem asF64_number (n : Number) : ∃ a, (Json.number n).asF64 = some a := by
  cases n with
  | posInt | negInt | float => exact ⟨_, rfl⟩

/-- A numeric comparison of a number or null. -/
theorem compareNumeric_iff (hv : v = .null ∨ ∃ n, v = .number n)
    (hvalue : ∃ literal, fc.value = some literal) (op : Float → Float → Bool) :
    (∀ e, Condition.compareNumeric v fc op ≠ .error (.wfe e)) ↔
      v ≠ .null ∧ ∃ n, fc.value = some (.number n) := by
  obtain ⟨literal, hliteral⟩ := hvalue
  unfold Condition.compareNumeric Condition.expected
  rw [hliteral]
  rcases hv with rfl | ⟨n, rfl⟩
  · exact iff_of_false (fun h => h _ rfl) (by simp)
  · obtain ⟨a, ha⟩ := asF64_number n
    simp only [bind, Except.bind, ha]
    cases literal with
    | number n' =>
      obtain ⟨b, hb⟩ := asF64_number n'
      exact iff_of_true (by simp [hb, pure, Except.pure]) ⟨by simp, n', rfl⟩
    | null | bool | string | array | object => exact iff_of_false (fun h => h _ rfl) (by simp)

/-- `contains` of a string, an array or null. -/
theorem evaluateContains_iff (hv : v = .null ∨ (∃ s, v = .string s) ∨ ∃ xs, v = .array xs)
    (hvalue : ∃ literal, fc.value = some literal) :
    (∀ e, Condition.evaluateContains v fc ≠ .error (.wfe e)) ↔
      v ≠ .null ∧ (v.asStr.isSome → ∃ s, fc.value = some (.string s)) := by
  obtain ⟨literal, hliteral⟩ := hvalue
  unfold Condition.evaluateContains Condition.expected
  rw [hliteral]
  simp only [bind, Except.bind]
  rcases hv with rfl | ⟨s, rfl⟩ | ⟨xs, rfl⟩
  · exact iff_of_false (fun h => h _ rfl) (by simp)
  · cases literal with
    | string sub => exact iff_of_true (by simp [pure, Except.pure]) ⟨by simp, fun _ => ⟨sub, rfl⟩⟩
    | null | bool | number | array | object =>
      exact iff_of_false (fun h => h _ rfl) (by simp [Json.asStr])
  · exact iff_of_true (by simp [pure, Except.pure]) ⟨by simp, by simp [Json.asStr]⟩

/-- A comparison with the value of its field is an error exactly if they do not fit. -/
theorem evaluateComparison_iff (hresolve : Condition.resolveFieldPath fc.field data = .ok v)
    (hvalue : (fc.operator = .isNull ∨ fc.operator = .isNotNull) ∨
      ∃ literal, fc.value = some literal)
    (hnumeric : (fc.operator = .gt ∨ fc.operator = .gte ∨ fc.operator = .lt ∨ fc.operator = .lte) →
      v = .null ∨ ∃ n, v = .number n)
    (hcontains : fc.operator = .contains →
      v = .null ∨ (∃ s, v = .string s) ∨ ∃ xs, v = .array xs) :
    (∀ e, evaluateComparison fc data ≠ .error (.wfe e)) ↔ Fits fc.operator v fc.value := by
  unfold evaluateComparison
  rw [hresolve]
  simp only [bind, Except.bind, Fits]
  cases hop : fc.operator with
  | isNull | isNotNull => exact iff_of_true (by simp [pure, Except.pure]) trivial
  | equals | notEquals =>
    obtain ⟨literal, hliteral⟩ := hvalue.resolve_left (by simp [hop])
    refine iff_of_true ?_ trivial
    simp [Condition.expected, hliteral, pure, Except.pure]
  | gt | gte | lt | lte =>
    exact compareNumeric_iff (hnumeric (by simp [hop])) (hvalue.resolve_left (by simp [hop])) _
  | contains =>
    exact evaluateContains_iff (hcontains hop) (hvalue.resolve_left (by simp [hop]))

end Comparison

/-! ## Accepted conditions -/

/-- **When an accepted condition is evaluated without an error.** The condition of a step of an
accepted workflow, on declared fields, has a value on data of the declared types if and only if each
comparison that the evaluation comes to is one whose field is missing or whose value fits the
literal: for `gt`, `gte`, `lt` and `lte` the literal is a number and the value is not null, and for
`contains` the value is not null and, if it is a string, the literal is one. -/
theorem accepted_condition_ok_iff {spec : WorkflowSpec} {y : YamlStep} {cond : YamlCondition}
    {c : StepCondition} {data : Object} (hvalid : validate spec = .ok ())
    (hy : y ∈ allSteps spec.steps) (hwhen : y.when = some cond)
    (hcompile : compileCondition cond = .ok c) (htyped : TypedCondition spec cond)
    (hdata : Conforming spec data) :
    (∃ b, Condition.evaluate c (.object data) = .ok b) ↔
      ∀ fc, Reaches (.object data) c fc → Apt data fc := by
  rw [evaluate_ok_iff]
  refine forall_congr' fun fc => forall_congr' fun hreaches => ?_
  obtain ⟨cmp, hcmp, hcompiled⟩ :=
    compileCondition_comparisons cond hcompile fc hreaches.mem_comparisons
  obtain ⟨operator, value, hop, heq⟩ := compileComparison_eq_ok hcompiled
  cases heq
  obtain ⟨first, f, t, hfirst, hsegments, ht, hany⟩ := htyped cmp hcmp
  obtain ⟨_, -, htypes⟩ := Compiled.bind_eq_ok.mp (validate_when hvalid hy hwhen)
  obtain ⟨hnumeric, hcontainable⟩ :=
    validateComparisonType_eq_ok (forComparisons_eq_ok cond htypes cmp hcmp) ht
  obtain ⟨hvalue, hgt, hcontains⟩ := mem_ops hop
  -- The data has no key of the first segment, so the path is that of the field.
  have hkey : (Json.object data).get first = none := by
    rcases hfirst with rfl | rfl
    · exact hdata.inputs
    · exact hdata.outputs
  have hresolve := resolveFieldPath_eq hfirst hsegments (.object data)
  rw [hkey, Option.getD_none, element_object] at hresolve
  by_cases hmissing : (Text.parseU64 f).isSome = true ∨ data.get f = none
  · have hnone : Condition.resolveFieldPath cmp.field (.object data) = .error .fieldNotPresent := by
      rw [hresolve]
      split_ifs with hnumber
      · rfl
      · rw [hmissing.resolve_left hnumber]
        rfl
    refine iff_of_true ?_ ?_
    · simp [evaluateComparison, hnone, bind, Except.bind]
    · intro first' f' v hsegments' hname hv
      rw [hsegments] at hsegments'
      cases hsegments'
      rcases hmissing with hnumber | hget
      · rw [hname] at hnumber
        cases hnumber
      · rw [hget] at hv
        cases hv
  · obtain ⟨hname, hget⟩ := not_or.mp hmissing
    obtain ⟨v, hv⟩ := Option.ne_none_iff_exists'.mp hget
    obtain ⟨text, hdeclared, hparse⟩ := resolveFieldType_eq_some hsegments ht
    have hvalidated := hdata.typed f text t v hdeclared hparse hv
    rw [if_neg hname, hv] at hresolve
    rw [evaluateComparison_iff hresolve hvalue
      (fun h => numeric_value (hnumeric (hgt h)) hany hvalidated)
      (fun h => containable_value (hcontainable (hcontains h)) hany hvalidated)]
    constructor
    · intro hfits first' f' v' hsegments' _ hv'
      rw [hsegments] at hsegments'
      cases hsegments'
      rw [hv] at hv'
      cases hv'
      exact hfits
    · intro hapt
      exact hapt first f v hsegments (by simpa using hname) hv

/-- A workflow with an input `score` of type `number`, and one step, which runs if the score is
above a limit. -/
def limitSpec (limit : YamlValue) : WorkflowSpec where
  id := "limit"
  version := 1
  steps := [{
    name := "escalate"
    stepType := some "shell"
    config := some { run := some "escalate.sh" }
    when := some (.comparison { field := ".inputs.score", gt := some limit }) }]
  inputs := [("score", "number")]

theorem fieldSegments_score : fieldSegments ".inputs.score" = ["inputs", "score"] := by
  decide

theorem parseTypeString_number : parseTypeString "number" = .ok .number := by decide +kernel

theorem limitSpec_typed (limit : YamlValue) :
    TypedCondition (limitSpec limit)
      (.comparison { field := ".inputs.score", gt := some limit }) := by
  intro cmp hcmp
  cases List.mem_singleton.mp hcmp
  refine ⟨"inputs", "score", .number, .inl rfl, fieldSegments_score, ?_, rfl⟩
  change resolveFieldType ".inputs.score" (limitSpec limit) = _
  rw [resolveFieldType, fieldSegments_score]
  change (parseTypeString "number").toOption = some .number
  rw [parseTypeString_number]
  rfl

theorem limitSpec_conforming (limit : YamlValue) (n : Number) :
    Conforming (limitSpec limit) [("score", .number n)] := by
  refine ⟨by simp [Object.get], by simp [Object.get], ?_⟩
  rintro name text t v (h | h) hparse hv
  · by_cases hname : name = "score"
    · subst hname
      cases h
      cases hv
      rw [parseTypeString_number] at hparse
      cases hparse
      rfl
    · simp [limitSpec, hname] at h
  · cases h

/-- A score is compared with a number. -/
theorem limit_condition_ok :
    ∃ b, Condition.evaluate (.comparison ⟨".inputs.score", .gt, some (.number (.posInt 5))⟩)
      (.object [("score", .number (.posInt 7))]) = .ok b := by
  have hvalid : validate (limitSpec (.number (.posInt 5))) = .ok () := by decide +kernel
  refine (accepted_condition_ok_iff hvalid List.mem_cons_self rfl rfl (limitSpec_typed _)
    (limitSpec_conforming _ _)).mpr fun fc hreaches => ?_
  cases hreaches
  intro first f v hsegments hname hv
  have hv' : v ≠ .null := by
    rintro rfl
    rw [fieldSegments_score] at hsegments
    cases hsegments
    cases hv
  exact ⟨hv', _, rfl⟩

/-- A condition that compares a score with a text is accepted, and fails at a score. -/
theorem limit_condition_error :
    validate (limitSpec (.string "five")) = .ok () ∧
    TypedCondition (limitSpec (.string "five"))
      (.comparison { field := ".inputs.score", gt := some (.string "five") }) ∧
    compileCondition (.comparison { field := ".inputs.score", gt := some (.string "five") }) =
      .ok (.comparison ⟨".inputs.score", .gt, some (.string "five")⟩) ∧
    Conforming (limitSpec (.string "five")) [("score", .number (.posInt 7))] ∧
    ∃ e, Condition.evaluate (.comparison ⟨".inputs.score", .gt, some (.string "five")⟩)
      (.object [("score", .number (.posInt 7))]) = .error e := by
  refine ⟨by decide +kernel, limitSpec_typed _, rfl, limitSpec_conforming _ _, ?_⟩
  cases h : Condition.evaluate (.comparison ⟨".inputs.score", .gt, some (.string "five")⟩)
      (.object [("score", .number (.posInt 7))]) with
  | error e => exact ⟨e, rfl⟩
  | ok b =>
    have hok := evaluate_ok_iff.mp ⟨b, h⟩ _ (.comparison _)
    have hresolve : Condition.resolveFieldPath ".inputs.score"
        (.object [("score", .number (.posInt 7))]) = .ok (.number (.posInt 7)) := by decide
    obtain ⟨-, n, hn⟩ := (evaluateComparison_iff hresolve (.inr ⟨_, rfl⟩)
      (fun _ => .inr ⟨_, rfl⟩) (by simp)).mp hok
    cases hn

end Wfe
