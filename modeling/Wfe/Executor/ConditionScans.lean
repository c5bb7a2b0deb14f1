import Wfe.Executor.Condition
import Wfe.Library.Scan

/-!
# Conditions as scans

The loops of the evaluator are scans of the results of the sub-conditions: `all` goes on as long as
they are true, `any` and `none` as long as they are false, and `one_of` counts.

## Main results

* `evaluateAll_eq`, `evaluateAny_eq`, `evaluateOneOf_eq`: each loop is a scan
-/

namespace Wfe.Condition

/-- The results of sub-conditions, each evaluated alone. -/
def results (cs : List StepCondition) (data : Json) : List (Except EvalError Bool) :=
  cs.map fun c => evaluateInner c data

theorem evaluateAll_eq (cs : List StepCondition) (data : Json) :
    evaluateAll cs data = Scan.while_ true (results cs data) := by
  induction cs with
  | nil => rfl
  | cons c cs ih =>
    rw [evaluateAll, results, List.map_cons]
    rcases evaluateInner c data with e | (_ | _)
    · rfl
    · rfl
    · exact ih

theorem evaluateAny_eq (cs : List StepCondition) (data : Json) :
    evaluateAny cs data = Scan.while_ false (results cs data) := by
  induction cs with
  | nil => rfl
  | cons c cs ih =>
    rw [evaluateAny, results, List.map_cons]
    rcases evaluateInner c data with e | (_ | _)
    · rfl
    · exact ih
    · rfl

theorem evaluateOneOf_eq (cs : List StepCondition) (data : Json) (count : Nat) :
    evaluateOneOf cs data count = Scan.once count (results cs data) := by
  induction cs generalizing count with
  | nil => rfl
  | cons c cs ih =>
    rw [evaluateOneOf, results, List.map_cons]
    rcases evaluateInner c data with e | (_ | _)
    · rfl
    · exact ih count
    · show (if 0 < count then _ else _) = (if 0 < count then _ else _)
      rw [ih (count + 1)]
      rfl

end Wfe.Condition
