import Wfe.Executor.Provider
import Wfe.Models.Schema

/-!
# Primitive steps

The step bodies of the engine that the development runs: the containers that spawn their children
and wait for them, the steps that sleep, the step that waits for an event, and the step that starts
a child workflow and waits for its completion. A body is built anew each time it is resolved, so the
fields it sets on itself are local to one run.

## Main definitions

* `SequenceStep.run`: plain containers, and so parallel blocks
* `IfStep.run`, `WhileStep.run`, `ForEachStep.run`, `SagaContainerStep.run`: the other containers
* `DelayStep.run`, `ScheduleStep.run`, `RecurStep.run`: sleeping
* `WaitForStep.run`: waiting for an event
* `SubWorkflowStep.run`: child workflows
-/

namespace Wfe

namespace StepM

/-- Reads the clock. -/
def ambient : StepM Ambient :=
  ExceptT.lift (Program.perform (I := StepInterface) .ambient)

/-- Asks the host to start a workflow. -/
def startWorkflow (definitionId : String) (version : Nat) (data : Json)
    (parentRootWorkflowId : Option String) : StepM String :=
  ExceptT.mk (Program.perform (I := StepInterface)
    (.startWorkflow definitionId version data parentRootWorkflowId))

end StepM

/-- The entry `key` of the step configuration, if it is a string. -/
def WorkflowStep.configStr (step : WorkflowStep) (key : String) : Option String :=
  (step.stepConfig.bind (·.get key)).bind Json.asStr

/-- The type name of `SequenceStep`, under which a host registers it. -/
def sequenceKey : String := "wfe_core::primitives::sequence::SequenceStep"

/-- `SequenceStep`: spawns one branch with all its children, and proceeds when it is complete. -/
def SequenceStep.run : StepBody := fun context =>
  let scope := context.executionPointer.scope ++ [context.executionPointer.id]
  let hasChildren := !context.step.children.isEmpty
  let childrenSpawned := context.workflow.executionPointers.any fun p => p.scope = scope
  if hasChildren && !childrenSpawned then return .branch [.null] none
  else if context.workflow.isBranchComplete scope then return .next
  else return .persist (.object [("children_active", .bool true)])

namespace StepExecutionContext

/-- The scope of the children of the pointer. -/
def childScope (context : StepExecutionContext) : List String :=
  context.executionPointer.scope ++ [context.executionPointer.id]

/-- A flag in the persistence data, `false` by default. -/
def flag (context : StepExecutionContext) (key : String) : Bool :=
  ((context.persistenceData.bind (·.get key)).bind Json.asBool).getD false

/-- `context.workflow.is_branch_complete(&scope)`. -/
def childrenDone (context : StepExecutionContext) : Bool :=
  context.workflow.isBranchComplete context.childScope

end StepExecutionContext

/-- The persistence data of a container whose children have been spawned. -/
def childrenActive : Json := .object [("children_active", .bool true)]

/-- `IfStep`, built with its condition. -/
def IfStep.run (condition : Bool) : StepBody := fun context =>
  if context.flag "children_active" then
    if context.childrenDone then return .next
    else return .persist childrenActive
  else if condition then return .branch [.null] (some childrenActive)
  else return .next

/-- `WhileStep`, built with its condition. -/
def WhileStep.run (condition : Bool) : StepBody := fun context =>
  if context.flag "children_active" then
    if context.childrenDone then
      if condition then return .branch [.null] (some childrenActive)
      else return .next
    else return .persist childrenActive
  else if condition then return .branch [.null] (some childrenActive)
  else return .next

/-- `ForEachStep`: all items at once, or one after another. -/
structure ForEachStep where
  collection : List Json := []
  runParallel : Bool := true

namespace ForEachStep

/-- The persistence data of a sequential loop. -/
def position (index : Nat) : Json :=
  .object [("children_active", .bool true),
    ("current_index", .number (.posInt (UInt64.ofNat index)))]

/-- An index out of range, where the source panics, is a failure. -/
def run (self : ForEachStep) : StepBody := fun context =>
  if self.collection = [] then return .next
  else if self.runParallel then
    if context.flag "children_active" then
      if context.childrenDone then return .next
      else return .persist childrenActive
    else return .branch self.collection (some childrenActive)
  else
    let currentIndex :=
      ((context.persistenceData.bind (·.get "current_index")).bind Json.asU64).getD 0
    if context.flag "children_active" then
      if context.childrenDone then
        match self.collection[currentIndex + 1]? with
        | none => return .next
        | some value => return .branch [value] (some (position (currentIndex + 1)))
      else return .persist (position currentIndex)
    else
      match self.collection[currentIndex]? with
      | some value => return .branch [value] (some (position currentIndex))
      | none => throw (.other "index out of bounds")

end ForEachStep

/-- `SagaContainerStep`. Compensation is triggered by the flag of the step only. -/
def SagaContainerStep.run : StepBody := fun context =>
  let compensating : Json :=
    .object [("children_active", .bool true), ("compensating", .bool true)]
  if context.flag "compensating" then
    if context.childrenDone then return .next
    else return .persist compensating
  else if context.flag "children_active" then
    if context.step.doCompensate then return .branch [.null] (some compensating)
    else if context.childrenDone then return .next
    else return .persist childrenActive
  else return .branch [.null] (some childrenActive)

/-- `DelayStep`: sleeps for its duration, or for the one in the step configuration where this is
zero. -/
structure DelayStep where
  duration : Duration := 0

/-- The duration slept for. -/
def DelayStep.durationOf (self : DelayStep) (stepConfig : Option Json) : Duration :=
  if self.duration = 0 then
    (((stepConfig.bind (·.get "duration_millis")).bind Json.asU64).map (· * 1000000)).getD
      self.duration
  else self.duration

/-- The type name of `DelayStep`, under which a host registers it. -/
def delayKey : String := "wfe_core::primitives::delay::DelayStep"

def DelayStep.run (self : DelayStep) : StepBody := fun context =>
  return .sleep (self.durationOf context.step.stepConfig) none

/-- `ScheduleStep`: a container that sleeps before it asks for its children. -/
structure ScheduleStep where
  interval : Duration := 0

def ScheduleStep.run (self : ScheduleStep) : StepBody := fun context =>
  if context.flag "children_active" then
    if context.childrenDone then return .next
    else return .persist childrenActive
  -- The first run sleeps for the interval.
  else return .sleep self.interval (some childrenActive)

/-- `RecurStep`: a container that sleeps again and again, until its stop condition holds. -/
structure RecurStep where
  interval : Duration := 0
  stopCondition : Bool := false

def RecurStep.run (self : RecurStep) : StepBody := fun context =>
  if self.stopCondition then return .next
  else if context.flag "children_active" then
    if context.childrenDone then return .sleep self.interval (some childrenActive)
    else return .persist childrenActive
  else return .sleep self.interval (some childrenActive)

/-- `WaitForStep`: subscribes to an event named by its fields, or by the step configuration where
these are empty. -/
structure WaitForStep where
  eventName : String := ""
  eventKey : String := ""

def WaitForStep.run (self : WaitForStep) : StepBody := fun context => do
  if context.executionPointer.eventData.isSome then return .next
  let eventName :=
    if self.eventName = "" then (context.step.configStr "event_name").getD "" else self.eventName
  let eventKey :=
    if self.eventKey = "" then (context.step.configStr "event_key").getD "" else self.eventKey
  let env ← StepM.ambient
  return .waitForEvent eventName eventKey env.now

structure SubWorkflowStep where
  workflowId : String := ""
  version : Nat := 0
  inputs : Json := .null
  outputKeys : List String := []
  inputSchema : Option WorkflowSchema := none
  outputSchema : Option WorkflowSchema := none

namespace SubWorkflowStep

/-- The output taken from the data of a completion event: all of the child's data, or the keys
asked for. -/
def output (self : SubWorkflowStep) (eventData : Json) : Json :=
  let childData := (eventData.get "data").getD .null
  if self.outputKeys = [] then .object (childData.asObject.getD [])
  else .object (self.outputKeys.foldl (fun out key =>
    match childData.get key with
    | some val => Object.insert key val out
    | none => out) [])

/-- Fills the fields from the step configuration of a step built by `Default`. -/
def hydrate (self : SubWorkflowStep) (stepConfig : Option Json) : SubWorkflowStep :=
  match stepConfig with
  | some config =>
    if self.workflowId = "" then
      { self with
        workflowId := ((config.get "workflow_id").bind Json.asStr).getD self.workflowId
        version := (((config.get "version").bind Json.asU64).map (· % 2 ^ 32)).getD self.version
        inputs := (config.get "inputs").getD self.inputs
        outputKeys := (((config.get "output_keys").bind Json.asArray).map
          (·.filterMap Json.asStr)).getD self.outputKeys }
    else self
  | none => self

/-- The data a child is started with. -/
def childData (self : SubWorkflowStep) (w : WorkflowInstance) : Json :=
  if !self.inputs.isNull then self.inputs
  else match w.data with
    | .object m => .object m
    | _ => .object []

/-- Rejects data that a schema does not accept. -/
def requireValid (kind : String) : Except (List String) Unit → StepM Unit
  | .ok _ => return ()
  | .error errors =>
    let joined := Text.join "; " errors
    throw (.stepExecution s!"SubWorkflow {kind} validation failed: {joined}")

/-- The second run: the completion event has arrived. -/
def finish (self : SubWorkflowStep) (eventData : Json) : StepM ExecutionResult := do
  let outputValue := self.output eventData
  if let some schema := self.outputSchema then
    requireValid "output" (schema.validateOutputs outputValue)
  return { ExecutionResult.next with outputData := some outputValue }

/-- The first run: starts the child, and waits for its completion. -/
def begin (self : SubWorkflowStep) (context : StepExecutionContext) : StepM ExecutionResult := do
  if let some schema := self.inputSchema then
    requireValid "input" (schema.validateInputs self.inputs)
  if !context.hostContext then
    throw (.stepExecution "SubWorkflowStep requires a host context to start child workflows")
  let childInstanceId ← StepM.startWorkflow self.workflowId self.version
    (self.childData context.workflow)
    (context.workflow.rootWorkflowId <|> some context.workflow.id)
  let env ← StepM.ambient
  return .waitForEvent "wfe.workflow.completed" childInstanceId env.now

def run (self : SubWorkflowStep) : StepBody := fun context =>
  match context.executionPointer.eventData with
  | some eventData => self.finish eventData
  | none => (self.hydrate context.step.stepConfig).begin context

end SubWorkflowStep

end Wfe
