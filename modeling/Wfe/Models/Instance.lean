import Wfe.Models.Definition

/-!
# Workflow instances

The dynamic side of the engine: instances with their execution pointers, the result a step body
returns, and events with the subscriptions that wait for them. Ids are UUIDs drawn from outside,
and so are the times; both are arguments here.

## Main definitions

* `ExecutionPointer`, `WorkflowInstance`: the state of a running workflow
* `ExecutionResult`: what a step body asks the executor to do
* `Event`, `EventSubscription`: events and the pointers waiting for them
* `WorkflowInstance.isBranchComplete`: all pointers of a scope are done
-/

namespace Wfe

/-- The outside world at one moment: the clock, and the UUIDs drawn from there on. -/
structure Ambient where
  now : DateTime
  uuid : Nat → String
deriving Inhabited

structure ExecutionPointer where
  id : String
  stepId : Nat
  active : Bool
  status : PointerStatus
  sleepUntil : Option DateTime
  persistenceData : Option Json
  startTime : Option DateTime
  endTime : Option DateTime
  eventName : Option String
  eventKey : Option String
  eventPublished : Bool
  eventData : Option Json
  stepName : Option String
  retryCount : Nat
  children : List String
  contextItem : Option Json
  predecessorId : Option String
  outcome : Option Json
  scope : List String
  extensionAttributes : List (String × Json)
deriving DecidableEq, Repr

/-- `ExecutionPointer::new`, with the UUID drawn for it. -/
def ExecutionPointer.new (id : String) (stepId : Nat) : ExecutionPointer where
  id := id
  stepId := stepId
  active := true
  status := .pending
  sleepUntil := none
  persistenceData := none
  startTime := none
  endTime := none
  eventName := none
  eventKey := none
  eventPublished := false
  eventData := none
  stepName := none
  retryCount := 0
  children := []
  contextItem := none
  predecessorId := none
  outcome := none
  scope := []
  extensionAttributes := []

structure WorkflowInstance where
  id : String
  name : String
  rootWorkflowId : Option String
  workflowDefinitionId : String
  version : Nat
  description : Option String
  reference : Option String
  executionPointers : List ExecutionPointer
  nextExecution : Option Int
  status : WorkflowStatus
  data : Json
  createTime : DateTime
  completeTime : Option DateTime
deriving DecidableEq, Repr

/-- `WorkflowInstance::new`. -/
def WorkflowInstance.new (env : Ambient) (workflowDefinitionId : String) (version : Nat)
    (data : Json) : WorkflowInstance where
  id := env.uuid 0
  name := ""
  rootWorkflowId := none
  workflowDefinitionId := workflowDefinitionId
  version := version
  description := none
  reference := none
  executionPointers := []
  nextExecution := some 0
  status := .runnable
  data := data
  createTime := env.now
  completeTime := none

namespace WorkflowInstance

/-- `is_branch_complete`: every pointer of exactly this scope is done. -/
def isBranchComplete (w : WorkflowInstance) (scope : List String) : Bool :=
  (w.executionPointers.filter fun p => p.scope = scope).all fun p => p.status.isDone

/-- `execution_pointers.iter().any(|p| p.active)`. -/
def hasActive (w : WorkflowInstance) : Bool := w.executionPointers.any (·.active)

/-- Pushes pointers at the end of the pointer list. -/
def pushPointers (w : WorkflowInstance) (ps : List ExecutionPointer) : WorkflowInstance :=
  { w with executionPointers := w.executionPointers ++ ps }

/-- Replaces the pointer at index `idx`. -/
def setPointer (w : WorkflowInstance) (idx : Nat) (p : ExecutionPointer) : WorkflowInstance :=
  { w with executionPointers := w.executionPointers.set idx p }

end WorkflowInstance

/-! ## Results -/

inductive HttpMethod
  | get
  | post
  | put
  | patch
  | delete
deriving DecidableEq, Repr

inductive PollCondition
  | jsonPathEquals (path : String) (value : Json)
  | statusCode (code : Nat)
  | bodyContains (text : String)
deriving DecidableEq, Repr

structure PollEndpointConfig where
  url : String
  method : HttpMethod
  headers : List (String × String)
  body : Option Json
  interval : Duration
  timeout : Duration
  condition : PollCondition
deriving DecidableEq, Repr

structure ExecutionResult where
  proceed : Bool := false
  outcomeValue : Option Json := none
  sleepFor : Option Duration := none
  persistenceData : Option Json := none
  eventName : Option String := none
  eventKey : Option String := none
  eventAsOf : Option DateTime := none
  branchValues : Option (List Json) := none
  pollEndpoint : Option PollEndpointConfig := none
  outputData : Option Json := none
deriving DecidableEq, Repr

namespace ExecutionResult

/-- Continue to the next step. -/
def next : ExecutionResult := { proceed := true }

/-- Pause, and persist step-specific data. -/
def persist (data : Json) : ExecutionResult := { persistenceData := some data }

/-- Pause for a duration. -/
def sleep (duration : Duration) (persistenceData : Option Json) : ExecutionResult :=
  { sleepFor := some duration, persistenceData := persistenceData }

/-- Create child branches. -/
def branch (values : List Json) (persistenceData : Option Json) : ExecutionResult :=
  { branchValues := some values, persistenceData := persistenceData }

/-- Wait for an external event. -/
def waitForEvent (eventName eventKey : String) (asOf : DateTime) : ExecutionResult :=
  { eventName := some eventName, eventKey := some eventKey, eventAsOf := some asOf }

end ExecutionResult

/-! ## Events -/

structure Event where
  id : String
  eventName : String
  eventKey : String
  eventData : Json
  eventTime : DateTime
  isProcessed : Bool
deriving DecidableEq, Repr

/-- `Event::new`. -/
def Event.new (env : Ambient) (eventName eventKey : String) (eventData : Json) : Event where
  id := env.uuid 0
  eventName := eventName
  eventKey := eventKey
  eventData := eventData
  eventTime := env.now
  isProcessed := false

structure EventSubscription where
  id : String
  workflowId : String
  stepId : Nat
  executionPointerId : String
  eventName : String
  eventKey : String
  subscribeAsOf : DateTime
  subscriptionData : Option Json
  externalToken : Option String
  externalWorkerId : Option String
  externalTokenExpiry : Option DateTime
deriving DecidableEq, Repr

/-- `EventSubscription::new`, with the UUID drawn for it. -/
def EventSubscription.new (id workflowId : String) (stepId : Nat)
    (executionPointerId eventName eventKey : String) (subscribeAsOf : DateTime) :
    EventSubscription where
  id := id
  workflowId := workflowId
  stepId := stepId
  executionPointerId := executionPointerId
  eventName := eventName
  eventKey := eventKey
  subscribeAsOf := subscribeAsOf
  subscriptionData := none
  externalToken := none
  externalWorkerId := none
  externalTokenExpiry := none

structure ExecutionError where
  errorTime : DateTime
  workflowId : String
  executionPointerId : String
  message : String
deriving DecidableEq, Repr

inductive LifecycleEventType
  | started
  | resumed
  | suspended
  | completed
  | terminated
  | error (message : String)
  | stepStarted (stepId : Nat) (stepName : Option String)
  | stepCompleted (stepId : Nat) (stepName : Option String)
deriving DecidableEq, Repr

/-- A lifecycle event; its timestamp is left to the publisher. -/
structure LifecycleEvent where
  workflowInstanceId : String
  workflowDefinitionId : String
  version : Nat
  eventType : LifecycleEventType
deriving DecidableEq, Repr

end Wfe
