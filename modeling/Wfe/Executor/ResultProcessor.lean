import Wfe.Models.Instance

/-!
# Processing the result of a step

`result_processor::process_result`: how the result of a step body changes its pointer, and which
pointers and subscriptions it creates. The branches are tried in a fixed order: a result that
proceeds is never read as a branch, a branch never as a wait.

## Main definitions

* `findNextStep`: the successor chosen by an outcome value
* `successorPointer`, `childPointers`: the pointers a result creates
* `processResult`: the effect of a result
-/

namespace Wfe

/-- `find_next_step`: a matching valued outcome, else the first default outcome, else the first
outcome. -/
def findNextStep (step : WorkflowStep) (outcomeValue : Option Json) : Option Nat :=
  -- An outcome with the value, else the one without a value, else the first.
  let matching := outcomeValue.bind fun value =>
    step.outcomes.find? fun o => o.value.any fun ov => ov.same value
  let default := step.outcomes.find? fun o => o.value.isNone
  ((matching <|> default) <|> step.outcomes.head?).map StepOutcome.nextStep

/-- The pointer that follows `pointer` in its own scope, at step `stepId`. -/
def successorPointer (id : String) (stepId : Nat) (pointer : ExecutionPointer)
    (definition : WorkflowDefinition) : ExecutionPointer :=
  { ExecutionPointer.new id stepId with
    stepName := definition.stepName stepId
    predecessorId := some pointer.id
    scope := pointer.scope }

/-- The pointers of a branch: one for each value and child step, in the scope opened by
`pointer`. -/
def childPointers (uuid : Nat → String) (values : List Json) (children : List Nat)
    (pointer : ExecutionPointer) (definition : WorkflowDefinition) : List ExecutionPointer :=
  (values.flatMap fun value => children.map fun child => (value, child)).mapIdx
    fun k vc =>
      { ExecutionPointer.new (uuid k) vc.2 with
        stepName := definition.stepName vc.2
        contextItem := some vc.1
        scope := pointer.scope ++ [pointer.id]
        predecessorId := some pointer.id }

/-- What a result adds to the instance besides the change of its pointer. -/
structure ProcessResult where
  newPointers : List ExecutionPointer := []
  subscriptions : List EventSubscription := []
  outputData : Option Json := none

/-- `process_result`: the changed pointer, and what is added. -/
def processResult (env : Ambient) (result : ExecutionResult) (pointer : ExecutionPointer)
    (definition : WorkflowDefinition) (workflowId : String) : ExecutionPointer × ProcessResult :=
  if result.proceed then
    let next := (definition.findStep pointer.stepId).bind (findNextStep · result.outcomeValue)
    ({ pointer with
        active := false
        status := .complete
        endTime := some env.now
        outcome := result.outcomeValue <|> pointer.outcome },
      { newPointers := next.toList.map fun id =>
          successorPointer (env.uuid 0) id pointer definition
        outputData := result.outputData })
  else if let some values := result.branchValues then
    -- A branch keeps the pointer running; its children are listed in creation order.
    let children := ((definition.findStep pointer.stepId).map WorkflowStep.children).getD []
    let new := childPointers env.uuid values children pointer definition
    ({ pointer with
        status := .running
        persistenceData := result.persistenceData
        children := pointer.children ++ new.map ExecutionPointer.id },
      { newPointers := new, outputData := result.outputData })
  else if result.eventName.isSome then
    -- The pointer waits even if there is no key to subscribe with.
    let sub := match result.eventName, result.eventKey with
      | some eventName, some eventKey =>
        [EventSubscription.new (env.uuid 0) workflowId pointer.stepId pointer.id eventName eventKey
          (result.eventAsOf.getD env.now)]
      | _, _ => []
    ({ pointer with
        status := .waitingForEvent
        active := false
        eventName := result.eventName
        eventKey := result.eventKey },
      { subscriptions := sub, outputData := result.outputData })
  else if let some duration := result.sleepFor then
    ({ pointer with
        status := .sleeping
        active := true
        sleepUntil := some (env.now.plusMillis duration)
        persistenceData := result.persistenceData },
      { outputData := result.outputData })
  else if let some pollConfig := result.pollEndpoint then
    ({ pointer with
        status := .sleeping
        active := true
        sleepUntil := some (env.now.plusMillis pollConfig.interval)
        persistenceData := result.persistenceData },
      { outputData := result.outputData })
  else if result.persistenceData.isSome then
    ({ pointer with
        active := true
        status := .running
        persistenceData := result.persistenceData },
      { outputData := result.outputData })
  -- A result that asks for nothing leaves the pointer running.
  else (pointer, { outputData := result.outputData })

end Wfe
