import Wfe.Executor.ConditionScans
import Wfe.Yaml.FieldPaths

/-!
# What a condition means

A condition in a workflow file is compiled exactly if it says one thing at each node: one operator
in a comparison, one key in a combinator. Evaluated where each of its comparisons has a value, the
compiled condition is what its words say: all, any, none or exactly one of the conditions below, or
the negation of one.

## Main definitions

* `YamlCondition.WellFormed`: one operator and one key at each node
* `YamlCondition.reading`: the truth value of a condition, from those of its comparisons

## Main results

* `compileCondition_ok_iff`: which conditions are compiled
* `evaluateInner_compiled`: compiled conditions are evaluated as they read
* `condition_meaning`: both at once
-/

namespace Wfe

/-! ## Well-formed conditions -/

/-- Which operators a comparison sets; the null tests count when they are true. -/
def YamlComparison.operators (cmp : YamlComparison) : List Bool :=
  [cmp.equals.isSome, cmp.notEquals.isSome, cmp.gt.isSome, cmp.gte.isSome, cmp.lt.isSome,
    cmp.lte.isSome, cmp.contains.isSome, cmp.isNull = some true, cmp.isNotNull = some true]

mutual

/-- Each comparison sets one operator, and each combinator one key. -/
def YamlCondition.WellFormed : YamlCondition → Prop
  | .comparison cmp => cmp.operators.count true = 1
  | .combinator all any none_ oneOf not =>
    [all.isSome, any.isSome, none_.isSome, oneOf.isSome, not.isSome].count true = 1 ∧
      YamlCondition.CombinedWellFormed all ∧ YamlCondition.CombinedWellFormed any ∧
      YamlCondition.CombinedWellFormed none_ ∧ YamlCondition.CombinedWellFormed oneOf ∧
      YamlCondition.NegatedWellFormed not

def YamlCondition.CombinedWellFormed : Option (List YamlCondition) → Prop
  | some cs => YamlCondition.ListWellFormed cs
  | none => True

def YamlCondition.NegatedWellFormed : Option YamlCondition → Prop
  | some c => c.WellFormed
  | none => True

def YamlCondition.ListWellFormed : List YamlCondition → Prop
  | [] => True
  | c :: cs => c.WellFormed ∧ YamlCondition.ListWellFormed cs

end

theorem YamlComparison.length_ops (cmp : YamlComparison) :
    cmp.ops.length = cmp.operators.count true := by
  have hop (o : ComparisonOp) (v : Option YamlValue) :
      (v.toList.map fun v => (o, some v.toJson)).length = [v.isSome].count true := by
    cases v <;> rfl
  have hnull (o : ComparisonOp) (b : Option Bool) :
      (if b = some true then [(o, (none : Option Json))] else []).length =
        [decide (b = some true)].count true := by
    by_cases hb : b = some true <;> simp [hb]
  have hsplit : cmp.operators = [cmp.equals.isSome] ++ [cmp.notEquals.isSome] ++ [cmp.gt.isSome] ++
      [cmp.gte.isSome] ++ [cmp.lt.isSome] ++ [cmp.lte.isSome] ++ [cmp.contains.isSome] ++
      [decide (cmp.isNull = some true)] ++ [decide (cmp.isNotNull = some true)] := rfl
  rw [YamlComparison.ops, hsplit]
  simp only [List.length_append, List.count_append, hop, hnull]

theorem compileComparison_ok_iff (cmp : YamlComparison) :
    (∃ c, compileComparison cmp = .ok c) ↔ cmp.operators.count true = 1 := by
  rw [← cmp.length_ops, compileComparison]
  split
  case h_1 h => simp [h]
  case h_2 operator value h => simp [h]
  case h_3 h₀ h₁ =>
    refine iff_of_false (by simp) fun hlen => ?_
    obtain ⟨⟨operator, value⟩, hops⟩ := List.length_eq_one_iff.mp hlen
    exact h₁ operator value hops

theorem Compiled.map_ok_iff {α β : Type} {x : Compiled α} {f : α → β} :
    (∃ b, (do return f (← x) : Compiled β) = .ok b) ↔ ∃ a, x = .ok a := by
  cases x <;> simp [bind, Except.bind, pure, Except.pure]

mutual

/-- **A condition is compiled exactly if it is well formed.** -/
theorem compileCondition_ok_iff (cond : YamlCondition) :
    (∃ c, compileCondition cond = .ok c) ↔ cond.WellFormed := by
  unfold compileCondition
  split
  case h_1 cmp =>
    rw [YamlCondition.WellFormed]
    exact compileComparison_ok_iff cmp
  case h_2 => simp [YamlCondition.WellFormed]
  case h_3 conds | h_4 conds | h_5 conds | h_6 conds =>
    rw [Compiled.map_ok_iff, compileConditions_ok_iff conds]
    simp [YamlCondition.WellFormed, YamlCondition.CombinedWellFormed,
      YamlCondition.NegatedWellFormed]
  case h_7 c =>
    rw [Compiled.map_ok_iff, compileCondition_ok_iff c]
    simp [YamlCondition.WellFormed, YamlCondition.CombinedWellFormed,
      YamlCondition.NegatedWellFormed]
  case h_8 all any none_ oneOf not h₀ h₁ h₂ h₃ h₄ h₅ =>
    -- Two keys are set at least: every way to set at most one has been met before.
    refine iff_of_false (by simp) ?_
    rw [YamlCondition.WellFormed]
    rintro ⟨hcount, -⟩
    cases all <;> cases any <;> cases none_ <;> cases oneOf <;> cases not <;> simp_all

theorem compileConditions_ok_iff (conds : List YamlCondition) :
    (∃ cs, compileConditions conds = .ok cs) ↔ YamlCondition.ListWellFormed conds := by
  cases conds with
  | nil => simp [compileConditions, YamlCondition.ListWellFormed, pure, Except.pure]
  | cons cond conds =>
    rw [YamlCondition.ListWellFormed, ← compileCondition_ok_iff cond,
      ← compileConditions_ok_iff conds, compileConditions]
    cases compileCondition cond with
    | error e => simp [bind, Except.bind]
    | ok c => cases compileConditions conds <;> simp [bind, Except.bind, pure, Except.pure]

end

/-! ## Readings -/

mutual

/-- The truth value of a condition, from those of its comparisons. Of several keys only the first is
read. -/
def YamlCondition.reading (leaf : YamlComparison → Bool) : YamlCondition → Bool
  | .comparison cmp => leaf cmp
  | .combinator (some cs) _ _ _ _ => (YamlCondition.readings leaf cs).all id
  | .combinator none (some cs) _ _ _ => (YamlCondition.readings leaf cs).any id
  | .combinator none none (some cs) _ _ => (YamlCondition.readings leaf cs).all (!·)
  | .combinator none none none (some cs) _ => (YamlCondition.readings leaf cs).count true = 1
  | .combinator none none none none (some c) => !c.reading leaf
  | .combinator none none none none none => true

def YamlCondition.readings (leaf : YamlComparison → Bool) : List YamlCondition → List Bool
  | [] => []
  | c :: cs => c.reading leaf :: YamlCondition.readings leaf cs

end

section Meaning

open Condition (evaluateInner evaluateAll evaluateAny evaluateOneOf evaluate results)

variable {data : Json} {leaf : YamlComparison → Bool}

/-- Each comparison, compiled and evaluated alone, has the given truth value. -/
def LeafValues (data : Json) (leaf : YamlComparison → Bool) (cmps : List YamlComparison) : Prop :=
  ∀ cmp ∈ cmps, ∀ l, compileComparison cmp = .ok l → evaluateInner l data = .ok (leaf cmp)

attribute [local simp] YamlCondition.comparisons YamlCondition.combined YamlCondition.negated

mutual

/-- **A compiled condition is evaluated as it reads.** -/
theorem evaluateInner_compiled (cond : YamlCondition) {c : StepCondition}
    (h : compileCondition cond = .ok c) (hleaf : LeafValues data leaf cond.comparisons) :
    evaluateInner c data = .ok (cond.reading leaf) := by
  unfold compileCondition at h
  split at h
  -- A comparison, a list of parts under each of the four combinators, and a negation.
  case h_1 cmp => exact hleaf cmp (List.mem_singleton.mpr rfl) c h
  case h_2 => cases h
  case h_3 conds =>
    obtain ⟨cs, hcs, h⟩ := Compiled.bind_eq_ok.mp h
    cases h
    rw [evaluateInner, Condition.evaluateAll_eq, results_compiled conds hcs (by simpa using hleaf)]
    exact Scan.while_true_ok id _
  case h_4 conds =>
    obtain ⟨cs, hcs, h⟩ := Compiled.bind_eq_ok.mp h
    cases h
    rw [evaluateInner, Condition.evaluateAny_eq, results_compiled conds hcs (by simpa using hleaf)]
    exact Scan.while_false_ok id _
  case h_5 conds =>
    obtain ⟨cs, hcs, h⟩ := Compiled.bind_eq_ok.mp h
    cases h
    rw [evaluateInner, Condition.evaluateAny_eq, results_compiled conds hcs (by simpa using hleaf)]
    refine (congrArg (Except.map (!·)) (Scan.while_false_ok id _)).trans ?_
    -- None of the parts is true where all of them are false.
    rw [YamlCondition.reading]
    exact congrArg Except.ok List.not_any_eq_all_not
  case h_6 conds =>
    obtain ⟨cs, hcs, h⟩ := Compiled.bind_eq_ok.mp h
    cases h
    rw [evaluateInner, Condition.evaluateOneOf_eq,
      results_compiled conds hcs (by simpa using hleaf)]
    refine (Scan.once_ok id _).trans ?_
    have hcount : (YamlCondition.readings leaf conds).countP id =
        (YamlCondition.readings leaf conds).count true :=
      List.countP_congr fun b _ => by simp
    rw [YamlCondition.reading, hcount]
  case h_7 cond =>
    obtain ⟨c, hc, h⟩ := Compiled.bind_eq_ok.mp h
    cases h
    rw [evaluateInner, evaluateInner_compiled cond hc (by simpa using hleaf)]
    rfl
  case h_8 => cases h

/-- Compiled conditions have the results that they read. -/
theorem results_compiled (conds : List YamlCondition) {cs : List StepCondition}
    (h : compileConditions conds = .ok cs)
    (hleaf : LeafValues data leaf (YamlCondition.listComparisons conds)) :
    results cs data = (YamlCondition.readings leaf conds).map .ok := by
  cases conds with
  | nil =>
    cases h
    rfl
  | cons cond conds =>
    obtain ⟨c, hc, h⟩ := Compiled.bind_eq_ok.mp h
    obtain ⟨cs, hcs, h⟩ := Compiled.bind_eq_ok.mp h
    cases h
    rw [results, List.map_cons, YamlCondition.readings, List.map_cons]
    congr 1
    · exact evaluateInner_compiled cond hc fun cmp hcmp => hleaf cmp (List.mem_append_left _ hcmp)
    · exact results_compiled conds hcs fun cmp hcmp => hleaf cmp (List.mem_append_right _ hcmp)

end

/-- **The conditions mean what they say**: they are compiled exactly if they are well formed, and
evaluated as they read wherever each comparison has a truth value. -/
theorem condition_meaning :
    (∀ cond : YamlCondition, (∃ c, compileCondition cond = .ok c) ↔ cond.WellFormed) ∧
    ∀ (cond : YamlCondition) (c : StepCondition) (data : Json) (leaf : YamlComparison → Bool),
      compileCondition cond = .ok c → LeafValues data leaf cond.comparisons →
      evaluate c data = .ok (cond.reading leaf) := by
  refine ⟨compileCondition_ok_iff, fun cond c data leaf hcompile hleaf => ?_⟩
  rw [evaluate, evaluateInner_compiled cond hcompile hleaf]

/-- Exactly one of "`a` is true" and "`b` is not null" holds where `a` is true and `b` null. -/
theorem condition_meaning_oneOf :
    evaluate (.oneOf [.comparison ⟨".a", .equals, some (.bool true)⟩,
        .not (.comparison ⟨".b", .isNull, none⟩)])
      (.object [("a", .bool true), ("b", .null)]) = .ok true := by
  refine condition_meaning.2
    (.combinator none none none
      (some [.comparison { field := ".a", equals := some (.bool true) },
        .combinator none none none none
          (some (.comparison { field := ".b", isNull := some true }))]) none)
    _ _ (fun _ => true) rfl ?_
  intro cmp hcmp l hl
  rcases List.mem_cons.mp hcmp with rfl | hcmp
  · cases hl
    decide
  · cases List.mem_singleton.mp hcmp
    cases hl
    decide

end Meaning

end Wfe
