import Wfe.Executor.ConditionScans

/-!
# The order of sub-conditions

A missing field ends the evaluation of a condition and makes it false as a whole, but sub-conditions
before it may have decided their combinator by then. So the order in which sub-conditions are listed
matters exactly where both can happen: where a field is missing and enough of the others decide.
At the top of a condition only `any` shows the difference, since a missing field makes the condition
false; further down the others show it too, for instance under `not`.

## Main definitions

* `Combinator`, `ConditionContext`: the combinators of lists, and the places in a condition
* `Ambiguous`: a missing field, and sub-conditions that decide

## Main results

* `evaluateInner_fill_congr`: a place in a condition sees the result of what stands there
* `order_irrelevant_iff`: when the order of sub-conditions does not matter
-/

namespace Wfe.Condition

/-! ## Places in a condition -/

/-- The combinators of a list of conditions. -/
inductive Combinator
  | all
  | any
  | none
  | oneOf
deriving DecidableEq, Repr

def Combinator.of (k : Combinator) (cs : List StepCondition) : StepCondition :=
  match k with
  | all => .all cs
  | any => .any cs
  | none => .none cs
  | oneOf => .oneOf cs

/-- A place in a condition, at any depth. -/
inductive ConditionContext
  | top
  | sub (k : Combinator) (before : List StepCondition) (ctx : ConditionContext)
      (after : List StepCondition)
  | not (ctx : ConditionContext)

/-- The condition with `c` at the place. -/
def ConditionContext.fill : ConditionContext → StepCondition → StepCondition
  | top, c => c
  | sub k before ctx after, c => k.of (before ++ ctx.fill c :: after)
  | not ctx, c => .not (ctx.fill c)

variable {k : Combinator} {cs cs' : List StepCondition} {data : Json}

theorem evaluateInner_of_congr (h : results cs data = results cs' data) :
    evaluateInner (k.of cs) data = evaluateInner (k.of cs') data := by
  cases k <;>
    simp only [Combinator.of, evaluateInner, evaluateAll_eq, evaluateAny_eq, evaluateOneOf_eq, h]

/-- A place sees the result of what stands there, and nothing else of it. -/
theorem evaluateInner_fill_congr (ctx : ConditionContext) {c c' : StepCondition}
    (h : evaluateInner c data = evaluateInner c' data) :
    evaluateInner (ctx.fill c) data = evaluateInner (ctx.fill c') data := by
  induction ctx with
  | top => exact h
  | sub k before ctx after ih =>
    refine evaluateInner_of_congr ?_
    simp only [results, List.map_append, List.map_cons, ih]
  | not ctx ih =>
    rw [ConditionContext.fill, ConditionContext.fill, evaluateInner, evaluateInner, ih]

theorem evaluate_congr {c c' : StepCondition}
    (h : evaluateInner c data = evaluateInner c' data) : evaluate c data = evaluate c' data := by
  rw [evaluate, evaluate, h]

/-! ## Lists whose order matters -/

/-- No condition of the list fails with an error other than a missing field. -/
def NoTypeError (data : Json) (cs : List StepCondition) : Prop :=
  ∀ c ∈ cs, ∀ e, evaluateInner c data ≠ .error (.wfe e)

/-- A field is missing in the list. -/
def Missing (data : Json) (cs : List StepCondition) : Prop :=
  ∃ c ∈ cs, evaluateInner c data = .error .fieldNotPresent

/-- Sub-conditions that decide the combinator when they come first: a false one for `all`, a true
one for `any` and `none`, two true ones for `one_of`. -/
def Decides (data : Json) : Combinator → List StepCondition → Prop
  | .all, cs => ∃ c ∈ cs, evaluateInner c data = .ok false
  | .any, cs | .none, cs => ∃ c ∈ cs, evaluateInner c data = .ok true
  | .oneOf, cs => 2 ≤ cs.countP fun c => evaluateInner c data = .ok true

/-- The list has a missing field and sub-conditions that decide, so that its result depends on which
come first. -/
def Ambiguous (data : Json) (k : Combinator) (cs : List StepCondition) : Prop :=
  Missing data cs ∧ Decides data k cs

/-! ## Permutations -/

section Order

theorem results_perm (h : cs.Perm cs') : (results cs data).Perm (results cs' data) := h.map _

/-- An order of the results is an order of the sub-conditions. -/
theorem exists_perm_results {rs : List (Except EvalError Bool)} (h : (results cs data).Perm rs) :
    ∃ cs', cs.Perm cs' ∧ results cs' data = rs := by
  obtain ⟨cs', hrs, hperm⟩ :=
    (congrFun (congrFun (List.eq_map_comp_perm fun c => evaluateInner c data) rs) cs).mpr h.symm
  exact ⟨cs', hperm.symm, hrs.symm⟩

theorem NoTypeError.onlyError (h : NoTypeError data cs) :
    Scan.OnlyError .fieldNotPresent (results cs data) := by
  intro r hr
  obtain ⟨c, hc, rfl⟩ := List.mem_map.mp hr
  cases hres : evaluateInner c data with
  | ok b => exact .inr ⟨b, rfl⟩
  | error e =>
    cases e with
    | fieldNotPresent => exact .inl rfl
    | wfe e => exact absurd hres (h c hc e)

theorem missing_iff : Missing data cs ↔ .error .fieldNotPresent ∈ results cs data :=
  List.mem_map.symm

theorem decides_all_iff : Decides data .all cs ↔ .ok (!true) ∈ results cs data := List.mem_map.symm

theorem decides_any_iff : Decides data .any cs ↔ .ok (!false) ∈ results cs data := List.mem_map.symm

theorem decides_oneOf_iff :
    Decides data .oneOf cs ↔ 2 ≤ (results cs data).countP Scan.isTrue := by
  rw [results, List.countP_map]
  have hcount : (cs.countP fun c => decide (evaluateInner c data = .ok true)) =
      cs.countP (Scan.isTrue ∘ fun c => evaluateInner c data) := by
    refine List.countP_congr fun c _ => ?_
    rcases h : evaluateInner c data with e | (_ | _) <;> simp [Scan.isTrue, h]
  rw [← hcount]
  rfl

/-- The lists whose order matters are those whose scan is mixed. -/
theorem ambiguous_iff : Ambiguous data k cs ↔
    match k with
    | .all => Scan.Mixed true .fieldNotPresent (results cs data)
    | .any | .none => Scan.Mixed false .fieldNotPresent (results cs data)
    | .oneOf => Scan.OnceMixed .fieldNotPresent (results cs data) := by
  rw [Ambiguous, missing_iff, and_comm]
  cases k with
  | all => rw [decides_all_iff, Scan.Mixed]
  | any | none => exact and_congr_left fun _ => decides_any_iff
  | oneOf => rw [decides_oneOf_iff, Scan.OnceMixed]

/-- **A list that is not ambiguous** has the same result in every order. -/
theorem evaluateInner_perm (htypes : NoTypeError data cs) (hamb : ¬ Ambiguous data k cs)
    (h : cs.Perm cs') : evaluateInner (k.of cs') data = evaluateInner (k.of cs) data := by
  have honly := htypes.onlyError
  rw [ambiguous_iff] at hamb
  cases k with
  | all =>
    simp only [Combinator.of, evaluateInner, evaluateAll_eq]
    exact Scan.while_perm honly hamb (results_perm h)
  | any =>
    simp only [Combinator.of, evaluateInner, evaluateAny_eq]
    exact Scan.while_perm honly hamb (results_perm h)
  | none =>
    simp only [Combinator.of, evaluateInner, evaluateAny_eq]
    rw [Scan.while_perm honly hamb (results_perm h)]
  | oneOf =>
    simp only [Combinator.of, evaluateInner, evaluateOneOf_eq]
    exact Scan.once_perm honly hamb (results_perm h)

/-- The answer of a combinator that sub-conditions have decided. -/
def Combinator.decided : Combinator → Bool
  | any => true
  | all | none | oneOf => false

/-- In some order an ambiguous list is decided, and in another the missing field comes first. -/
theorem Ambiguous.exists_perm (h : Ambiguous data k cs) :
    (∃ cs', cs.Perm cs' ∧ evaluateInner (k.of cs') data = .ok k.decided) ∧
      ∃ cs', cs.Perm cs' ∧ evaluateInner (k.of cs') data = .error .fieldNotPresent := by
  rw [ambiguous_iff] at h
  cases k with
  | all | any | none =>
    obtain ⟨⟨rs, hrs, hdecided⟩, rs', hrs', hmissing⟩ := Scan.Mixed.exists_perm h
    obtain ⟨cs₁, h₁, rfl⟩ := exists_perm_results hrs
    obtain ⟨cs₂, h₂, rfl⟩ := exists_perm_results hrs'
    refine ⟨⟨cs₁, h₁, ?_⟩, cs₂, h₂, ?_⟩ <;>
      simp only [Combinator.of, evaluateInner, evaluateAll_eq, evaluateAny_eq, hdecided, hmissing,
        Except.map, Combinator.decided, Bool.not_true, Bool.not_false]
  | oneOf =>
    obtain ⟨⟨rs, hrs, hdecided⟩, rs', hrs', hmissing⟩ := Scan.OnceMixed.exists_perm h
    obtain ⟨cs₁, h₁, rfl⟩ := exists_perm_results hrs
    obtain ⟨cs₂, h₂, rfl⟩ := exists_perm_results hrs'
    refine ⟨⟨cs₁, h₁, ?_⟩, cs₂, h₂, ?_⟩ <;>
      simp only [Combinator.of, evaluateInner, evaluateOneOf_eq, hdecided, hmissing,
        Combinator.decided]

/-- These are the only results of an ambiguous list. -/
theorem Ambiguous.cases (h : Ambiguous data k cs) (htypes : NoTypeError data cs) :
    evaluateInner (k.of cs) data = .ok k.decided ∨
      evaluateInner (k.of cs) data = .error .fieldNotPresent := by
  have honly := htypes.onlyError
  rw [ambiguous_iff] at h
  cases k with
  | all | any | none =>
    rcases Scan.Mixed.cases h honly with hr | hr <;>
      simp [Combinator.of, evaluateInner, evaluateAll_eq, evaluateAny_eq, hr, Except.map,
        Combinator.decided]
  | oneOf =>
    rcases Scan.OnceMixed.cases h honly with hr | hr <;>
      simp [Combinator.of, evaluateInner, evaluateOneOf_eq, hr, Combinator.decided]

theorem Missing.perm (h : cs.Perm cs') : Missing data cs ↔ Missing data cs' := by
  rw [missing_iff, missing_iff, (results_perm h).mem_iff]

theorem NoTypeError.perm (htypes : NoTypeError data cs) (h : cs.Perm cs') : NoTypeError data cs' :=
  fun c hc => htypes c (h.mem_iff.mpr hc)

theorem Ambiguous.perm (hamb : Ambiguous data k cs) (h : cs.Perm cs') : Ambiguous data k cs' := by
  rw [ambiguous_iff] at hamb ⊢
  have hr : (results cs data).Perm (results cs' data) := results_perm h
  cases k with
  | all | any | none => exact ⟨hr.mem_iff.mp hamb.1, hr.mem_iff.mp hamb.2⟩
  | oneOf => exact ⟨hr.countP_eq _ ▸ hamb.1, hr.mem_iff.mp hamb.2⟩

/-! ## When the order does not matter -/

/-- The combinators over the list have the same result at every place of a condition, in every
order. -/
def OrderIrrelevant (data : Json) (k : Combinator) (cs : List StepCondition) : Prop :=
  ∀ (ctx : ConditionContext) (cs' : List StepCondition), cs.Perm cs' →
    evaluate (ctx.fill (k.of cs')) data = evaluate (ctx.fill (k.of cs)) data

/-- At the top, an ambiguous list under `any` is true when it is decided, and else false. -/
theorem Ambiguous.any_top (h : Ambiguous data .any cs) :
    ¬ ∀ cs', cs.Perm cs' → evaluate (Combinator.any.of cs') data =
      evaluate (Combinator.any.of cs) data := by
  intro hsame
  obtain ⟨⟨cs₁, h₁, hdecided⟩, cs₂, h₂, hmissing⟩ := h.exists_perm
  have h₁₂ := (hsame cs₁ h₁).trans (hsame cs₂ h₂).symm
  rw [evaluate, evaluate, hdecided, hmissing] at h₁₂
  cases h₁₂

/-- At a place under `not` every ambiguous list shows its order, and `any` does at the top. -/
theorem Ambiguous.not_orderIrrelevant (h : Ambiguous data k cs) : ¬ OrderIrrelevant data k cs := by
  intro hsame
  cases k with
  | any => exact h.any_top (hsame .top)
  | all | none | oneOf =>
    obtain ⟨⟨cs₁, h₁, hdecided⟩, cs₂, h₂, hmissing⟩ := h.exists_perm
    have h₁₂ := (hsame (.not .top) cs₁ h₁).trans (hsame (.not .top) cs₂ h₂).symm
    simp only [ConditionContext.fill, evaluate, evaluateInner, hdecided, hmissing,
      Combinator.decided, Except.map] at h₁₂
    cases h₁₂

/-- At the top, an ambiguous list of another combinator than `any` is false in every order. -/
theorem Ambiguous.evaluate_top (h : Ambiguous data k cs) (htypes : NoTypeError data cs)
    (hk : k ≠ .any) : evaluate (k.of cs) data = .ok false := by
  have hdecided : k.decided = false := by
    cases k with
    | any => exact absurd rfl hk
    | all | none | oneOf => rfl
  rcases h.cases htypes with hr | hr <;> rw [evaluate, hr]
  rw [hdecided]

/-- **When the order of sub-conditions does not matter**: at every depth, exactly if the list does
not have both a missing field and sub-conditions that decide the combinator; and at the top of a
condition always, but for such lists under `any`. -/
theorem order_irrelevant_iff (k : Combinator) (htypes : NoTypeError data cs) :
    (OrderIrrelevant data k cs ↔ ¬ Ambiguous data k cs) ∧
      ((∀ cs', cs.Perm cs' → evaluate (k.of cs') data = evaluate (k.of cs) data) ↔
        ¬ (k = .any ∧ Ambiguous data k cs)) := by
  have hunamb (hamb : ¬ Ambiguous data k cs) : OrderIrrelevant data k cs := fun ctx cs' h =>
    evaluate_congr (evaluateInner_fill_congr ctx (evaluateInner_perm htypes hamb h))
  refine ⟨⟨fun hsame hamb => hamb.not_orderIrrelevant hsame, hunamb⟩, ?_, ?_⟩
  · rintro hsame ⟨rfl, hamb⟩
    exact hamb.any_top hsame
  · intro hany cs' h
    by_cases hamb : Ambiguous data k cs
    · have hk : k ≠ .any := fun hk => hany ⟨hk, hamb⟩
      rw [(hamb.perm h).evaluate_top (htypes.perm h) hk, hamb.evaluate_top htypes hk]
    · exact hunamb hamb .top cs' h

/-- A test of a field of the data for null. -/
def nullTest (field : String) : StepCondition := .comparison ⟨field, .isNull, none⟩

theorem nullTest_noTypeError :
    NoTypeError (.object [("a", .null)]) [nullTest ".a", nullTest ".b"] := by
  have ha : evaluateInner (nullTest ".a") (.object [("a", .null)]) = .ok true := by decide
  have hb : evaluateInner (nullTest ".b") (.object [("a", .null)]) = .error .fieldNotPresent := by
    decide
  intro c hc e
  rcases List.mem_cons.mp hc with rfl | hc
  · rw [ha]
    rintro ⟨⟩
  · rw [List.mem_singleton.mp hc, hb]
    rintro ⟨⟩

/-- Two null tests under `one_of`, of which one has no field: the order does not matter. -/
theorem order_irrelevant_oneOf :
    OrderIrrelevant (.object [("a", .null)]) .oneOf [nullTest ".a", nullTest ".b"] := by
  refine (order_irrelevant_iff .oneOf nullTest_noTypeError).1.mpr ?_
  rintro ⟨-, hdecides⟩
  revert hdecides
  show ¬ 2 ≤ List.countP _ [nullTest ".a", nullTest ".b"]
  decide

/-- Under `any` it does: a null test that succeeds decides, unless a missing field comes first. -/
theorem order_matters_any :
    ¬ ∀ (data : Json) (k : Combinator) (cs cs' : List StepCondition) (ctx : ConditionContext),
      NoTypeError data cs → cs.Perm cs' →
      evaluate (ctx.fill (k.of cs')) data = evaluate (ctx.fill (k.of cs)) data := by
  intro h
  have hsame := h _ .any _ _ .top nullTest_noTypeError
    (List.Perm.swap (nullTest ".b") (nullTest ".a") [])
  revert hsame
  decide

end Order

end Wfe.Condition
