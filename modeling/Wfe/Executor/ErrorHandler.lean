import Wfe.Executor.ResultProcessor

/-!
# Handling a failed step

`error_handler::handle_error`: what the error behaviour of a step, or the default of its
definition, does with the pointer whose body failed.

## Main definitions

* `errorBehaviorOf`: the behaviour that applies to a pointer
* `handleError`: the effect of a failure
-/

namespace Wfe

/-- The error behaviour of the pointer's step, or the definition's default. -/
def errorBehaviorOf (pointer : ExecutionPointer) (definition : WorkflowDefinition) :
    ErrorBehavior :=
  ((definition.findStep pointer.stepId).bind WorkflowStep.errorBehavior).getD
    definition.defaultErrorBehavior

structure ErrorHandlerResult where
  newPointers : List ExecutionPointer := []
  /-- If set, the new status of the workflow. -/
  workflowStatus : Option WorkflowStatus := none

/-- `handle_error`. Retries are counted on the pointer; `maxRetries = 0` retries for ever. -/
def handleError (env : Ambient) (pointer : ExecutionPointer) (definition : WorkflowDefinition) :
    ExecutionPointer × ErrorHandlerResult :=
  match errorBehaviorOf pointer definition with
  | .retry interval maxRetries =>
    -- Retries used up: the workflow is suspended, and the pointer failed for good.
    if 0 < maxRetries ∧ maxRetries ≤ pointer.retryCount then
      ({ pointer with status := .failed, active := false },
        { workflowStatus := some .suspended })
    else
      ({ pointer with
          retryCount := pointer.retryCount + 1
          status := .sleeping
          active := true
          sleepUntil := some (env.now.plusMillis interval) },
        {})
  | .suspend =>
    ({ pointer with active := false, status := .failed }, { workflowStatus := some .suspended })
  | .terminate =>
    ({ pointer with active := false, status := .failed }, { workflowStatus := some .terminated })
  | .compensate =>
    -- Without a compensation step the failure is swallowed.
    let comp := (definition.findStep pointer.stepId).bind WorkflowStep.compensationStepId
    ({ pointer with active := false, status := .failed },
      { newPointers := comp.toList.map fun id =>
          successorPointer (env.uuid 0) id pointer definition })

end Wfe
