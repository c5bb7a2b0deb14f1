import Wfe.Models.Definition
import Wfe.Models.Text

/-!
# Step conditions

`condition::evaluate`: whether a step runs, from the workflow data. A path that leads nowhere is
not an error but makes the whole condition false, whatever combinator it stands under; type
errors are errors. Sub-conditions are evaluated in order and the evaluation stops as soon as the
combinator is decided.

## Main definitions

* `Condition.resolveFieldPath`, `Condition.walkSegments`: paths into the data
* `Condition.evaluateComparison`, `Condition.evaluateInner`: comparisons and combinators
* `Condition.evaluate`: the condition of a step

## Main results

* `Condition.evaluate_error`: the errors of a condition
-/

namespace Wfe.Condition

/-- The internal error type: a missing field is kept apart from real errors. -/
inductive EvalError
  | fieldNotPresent
  | wfe (e : WfeError)
deriving DecidableEq, Repr

/-- Walks the segments into the data; a segment that is a number indexes an array, any other an
object. -/
def walkSegments : List String → Json → Except EvalError Json
  | [], data => .ok data
  | segment :: rest, data =>
    match Text.parseU64 segment with
    | some idx =>
      match data.asArray.bind (·[idx]?) with
      | some v => walkSegments rest v
      | none => .error .fieldNotPresent
    | none =>
      match data.get segment with
      | some v => walkSegments rest v
      | none => .error .fieldNotPresent

/-- Resolves a dotted path. When the data has no key `outputs` or `inputs`, a leading segment of
that name is dropped: step outputs are merged flat. -/
def resolveFieldPath (path : String) (data : Json) : Except EvalError Json :=
  let path := match path.toList with
    | '.' :: rest => String.ofList rest
    | _ => path
  if path = "" then .ok data
  else
    match Text.split path '.' with
    | first :: second :: rest =>
      if (first = "outputs" ∨ first = "inputs") ∧ data.get first = none then
        walkSegments (second :: rest) data
      else walkSegments (first :: second :: rest) data
    | segments => walkSegments segments data

def opName : ComparisonOp → String
  | .equals => "Equals"
  | .notEquals => "NotEquals"
  | .gt => "Gt"
  | .gte => "Gte"
  | .lt => "Lt"
  | .lte => "Lte"
  | .contains => "Contains"
  | .isNull => "IsNull"
  | .isNotNull => "IsNotNull"

/-- The value a comparison needs, for every operator but the null tests. -/
def expected (cmp : FieldComparison) : Except EvalError Json :=
  match cmp.value with
  | some v => .ok v
  | none => .error (.wfe (.stepExecution s!"{opName cmp.operator} operator requires a value"))

def compareNumeric (resolved : Json) (cmp : FieldComparison) (op : Float → Float → Bool) :
    Except EvalError Bool := do
  let expected ← expected cmp
  let some a := resolved.asF64
    | .error (.wfe (.stepExecution
        s!"cannot compare non-numeric field value: {resolved.display}"))
  let some b := expected.asF64
    | .error (.wfe (.stepExecution s!"cannot compare with non-numeric value: {expected.display}"))
  return op a b

def valueTypeName : Json → String
  | .null => "null"
  | .bool _ => "bool"
  | .number _ => "number"
  | .string _ => "string"
  | .array _ => "array"
  | .object _ => "object"

def evaluateContains (resolved : Json) (cmp : FieldComparison) : Except EvalError Bool := do
  let expected ← expected cmp
  match resolved, expected with
  | .string s, .string sub => return Text.contains s sub
  | .array xs, _ => return xs.any fun x => x.same expected
  | _, _ => .error (.wfe (.stepExecution
      s!"Contains requires a string or array field, got {valueTypeName resolved}"))

def evaluateComparison (cmp : FieldComparison) (data : Json) : Except EvalError Bool := do
  let resolved ← resolveFieldPath cmp.field data
  match cmp.operator with
  | .isNull => return resolved.isNull
  | .isNotNull => return !resolved.isNull
  | .equals => return resolved.same (← expected cmp)
  | .notEquals => return !resolved.same (← expected cmp)
  | .gt => compareNumeric resolved cmp fun a b => b < a
  | .gte => compareNumeric resolved cmp fun a b => b ≤ a
  | .lt => compareNumeric resolved cmp fun a b => a < b
  | .lte => compareNumeric resolved cmp fun a b => a ≤ b
  | .contains => evaluateContains resolved cmp

mutual

def evaluateInner : StepCondition → Json → Except EvalError Bool
  | .all cs, data => evaluateAll cs data
  | .any cs, data => evaluateAny cs data
  | .none cs, data => (evaluateAny cs data).map (!·)
  | .oneOf cs, data => evaluateOneOf cs data 0
  | .not c, data => (evaluateInner c data).map (!·)
  | .comparison cmp, data => evaluateComparison cmp data

/-- The loop of `All`: stops at the first false sub-condition. -/
def evaluateAll : List StepCondition → Json → Except EvalError Bool
  | [], _ => .ok true
  | c :: cs, data =>
    match evaluateInner c data with
    | .ok true => evaluateAll cs data
    | r => r

/-- The loop of `Any`, and of `None` up to the negated answer: stops at the first true
sub-condition. -/
def evaluateAny : List StepCondition → Json → Except EvalError Bool
  | [], _ => .ok false
  | c :: cs, data =>
    match evaluateInner c data with
    | .ok false => evaluateAny cs data
    | r => r

/-- The loop of `OneOf`: stops at the second true sub-condition. -/
def evaluateOneOf : List StepCondition → Json → Nat → Except EvalError Bool
  | [], _, count => .ok (count = 1)
  | c :: cs, data, count =>
    match evaluateInner c data with
    | .ok true => if 0 < count then .ok false else evaluateOneOf cs data (count + 1)
    | .ok false => evaluateOneOf cs data count
    | .error e => .error e

end

/-- Whether a step runs; a missing field makes the answer false. -/
def evaluate (condition : StepCondition) (workflowData : Json) : Except WfeError Bool :=
  match evaluateInner condition workflowData with
  | .ok b => .ok b
  | .error .fieldNotPresent => .ok false
  | .error (.wfe e) => .error e

/-! ## Errors -/

/-- The evaluation fails, if at all, for a missing field or with an execution error. -/
def Reported {α : Type} (r : Except EvalError α) : Prop :=
  ∀ e, r = .error (.wfe e) → ∃ message, e = .stepExecution message

namespace Reported

variable {α β : Type}

theorem ok (a : α) : Reported (.ok a) := by
  rintro e ⟨⟩

theorem fieldNotPresent : Reported (.error .fieldNotPresent : Except EvalError α) := by
  rintro e ⟨⟩

theorem stepExecution (message : String) :
    Reported (.error (.wfe (.stepExecution message)) : Except EvalError α) := by
  rintro e ⟨⟩
  exact ⟨message, rfl⟩

theorem bind {x : Except EvalError α} {f : α → Except EvalError β} (hx : Reported x)
    (hf : ∀ a, Reported (f a)) : Reported (x >>= f) := by
  cases x with
  | error e =>
    rintro _ ⟨⟩
    exact hx _ rfl
  | ok a => exact hf a

theorem map {x : Except EvalError α} (f : α → β) (hx : Reported x) : Reported (x.map f) := by
  cases x with
  | error e =>
    rintro _ ⟨⟩
    exact hx _ rfl
  | ok a => exact ok _

end Reported

theorem walkSegments_reported (segments : List String) (data : Json) :
    Reported (walkSegments segments data) := by
  fun_induction walkSegments segments data with
  | case1 => exact .ok _
  | case2 => assumption
  | case3 => exact .fieldNotPresent
  | case4 => assumption
  | case5 => exact .fieldNotPresent

theorem resolveFieldPath_reported (path : String) (data : Json) :
    Reported (resolveFieldPath path data) := by
  unfold resolveFieldPath
  dsimp only
  split_ifs
  · exact .ok _
  · split
    · split_ifs <;> exact walkSegments_reported _ _
    · exact walkSegments_reported _ _

theorem expected_reported (cmp : FieldComparison) : Reported (expected cmp) := by
  unfold expected
  split
  · exact .ok _
  · exact .stepExecution _

theorem compareNumeric_reported (resolved : Json) (cmp : FieldComparison)
    (op : Float → Float → Bool) : Reported (compareNumeric resolved cmp op) := by
  refine (expected_reported cmp).bind fun v => ?_
  split
  · split
    · exact .ok _
    · exact .stepExecution _
  · exact .stepExecution _

theorem evaluateComparison_reported (cmp : FieldComparison) (data : Json) :
    Reported (evaluateComparison cmp data) := by
  refine (resolveFieldPath_reported cmp.field data).bind fun resolved => ?_
  cases cmp.operator with
  | isNull | isNotNull => exact .ok _
  | equals | notEquals => exact (expected_reported cmp).bind fun _ => .ok _
  | gt | gte | lt | lte => exact compareNumeric_reported _ _ _
  | contains =>
    refine (expected_reported cmp).bind fun v => ?_
    split
    · exact .ok _
    · exact .ok _
    · exact .stepExecution _

mutual

theorem evaluateInner_reported (c : StepCondition) (data : Json) :
    Reported (evaluateInner c data) := by
  cases c with
  | all cs => exact evaluateAll_reported cs data
  | any cs => exact evaluateAny_reported cs data
  | none cs => exact (evaluateAny_reported cs data).map _
  | oneOf cs => exact evaluateOneOf_reported cs data 0
  | not c => exact (evaluateInner_reported c data).map _
  | comparison cmp => exact evaluateComparison_reported cmp data

theorem evaluateAll_reported (cs : List StepCondition) (data : Json) :
    Reported (evaluateAll cs data) := by
  cases cs with
  | nil => exact .ok _
  | cons c cs =>
    unfold evaluateAll
    split
    · exact evaluateAll_reported cs data
    · exact evaluateInner_reported c data

theorem evaluateAny_reported (cs : List StepCondition) (data : Json) :
    Reported (evaluateAny cs data) := by
  cases cs with
  | nil => exact .ok _
  | cons c cs =>
    unfold evaluateAny
    split
    · exact evaluateAny_reported cs data
    · exact evaluateInner_reported c data

theorem evaluateOneOf_reported (cs : List StepCondition) (data : Json) (count : Nat) :
    Reported (evaluateOneOf cs data count) := by
  cases cs with
  | nil => exact .ok _
  | cons c cs =>
    unfold evaluateOneOf
    split
    · split_ifs
      · exact .ok _
      · exact evaluateOneOf_reported cs data (count + 1)
    · exact evaluateOneOf_reported cs data count
    · next h =>
      rintro _ ⟨⟩
      exact evaluateInner_reported c data _ h

end

/-- A condition that cannot be evaluated fails with an execution error. -/
theorem evaluate_error {c : StepCondition} {data : Json} {e : WfeError}
    (h : evaluate c data = .error e) : ∃ message, e = .stepExecution message := by
  unfold evaluate at h
  split at h
  · cases h
  · cases h
  · next h' =>
    cases h
    exact evaluateInner_reported c data _ h'

end Wfe.Condition
