import Wfe.Models.Json

/-!
# Workflow definitions

The static side of the engine: the statuses, the conditions and error behaviours of steps, and
the definition an instance is executed against. A definition is a flat list of steps that refer
to each other by id.

## Main definitions

* `WorkflowStatus`, `PointerStatus`: the states of instances and pointers
* `StepCondition`: the conditions a step may carry
* `WorkflowStep`, `WorkflowDefinition`: compiled steps and definitions
* `WfeError`: the errors of the engine
-/

namespace Wfe

/-- `DateTime<Utc>`: nanoseconds since the epoch. -/
abbrev DateTime := Int

/-- `std::time::Duration`, in nanoseconds. -/
abbrev Duration := Nat

namespace DateTime

/-- `t + chrono::Duration::milliseconds(d.as_millis() as i64)`: the duration is cut to whole
milliseconds and the count is reduced to 64 bits. The sum is not bounded here; `plusMillis?` says
where its computation panics. -/
def plusMillis (t : DateTime) (d : Duration) : DateTime :=
  t + Int.bmod (d / 1000000 : Nat) (2 ^ 64) * 1000000

/-- `timestamp_millis`. -/
def timestampMillis (t : DateTime) : Int := t / 1000000

end DateTime

inductive WorkflowStatus
  | runnable
  | suspended
  | complete
  | terminated
deriving DecidableEq, Repr

inductive PointerStatus
  | pending
  | running
  | complete
  | skipped
  | sleeping
  | waitingForEvent
  | failed
  | compensated
  | cancelled
  | pendingPredecessor
deriving DecidableEq, Repr

/-- The five statuses `is_branch_complete` and the completion check of a pass accept. -/
def PointerStatus.isDone : PointerStatus → Bool
  | complete | skipped | compensated | cancelled | failed => true
  | _ => false

inductive QueueType
  | workflow
  | event
  | index
deriving DecidableEq, Repr

inductive WfeError
  | workflowNotFound (id : String)
  | definitionNotFound (id : String) (version : Nat)
  | eventNotFound (id : String)
  | subscriptionNotFound (id : String)
  | stepNotFound (stepId : Nat)
  | lockFailed (resource : String)
  | persistence (message : String)
  | serialization (message : String)
  | stepExecution (message : String)
  | cancelled
  | other (message : String)
deriving DecidableEq, Repr, Inhabited

/-- `Display` of `WfeError`, as recorded in execution errors. -/
def WfeError.toString : WfeError → String
  | workflowNotFound id => s!"Workflow not found: {id}"
  | definitionNotFound id version => s!"Workflow definition not found: {id} v{version}"
  | eventNotFound id => s!"Event not found: {id}"
  | subscriptionNotFound id => s!"Subscription not found: {id}"
  | stepNotFound stepId => s!"Step not found: {stepId}"
  | lockFailed resource => s!"Lock acquisition failed for: {resource}"
  | persistence message => s!"Persistence error: {message}"
  | serialization message => s!"Serialization error: {message}"
  | stepExecution message => s!"Step execution error: {message}"
  | cancelled => "Workflow cancelled"
  | other message => message

/-! ## Conditions -/

inductive ComparisonOp
  | equals
  | notEquals
  | gt
  | gte
  | lt
  | lte
  | contains
  | isNull
  | isNotNull
deriving DecidableEq, Repr

/-- A comparison of a field of the workflow data with an expected value. -/
structure FieldComparison where
  field : String
  operator : ComparisonOp
  value : Option Json
deriving DecidableEq, Repr

/-- A condition that decides whether a step runs. -/
inductive StepCondition
  | all (cs : List StepCondition)
  | any (cs : List StepCondition)
  | none (cs : List StepCondition)
  | oneOf (cs : List StepCondition)
  | not (c : StepCondition)
  | comparison (cmp : FieldComparison)
deriving Repr

/-! ## Steps and definitions -/

/-- What to do with a step whose body fails. -/
inductive ErrorBehavior
  | retry (interval : Duration) (maxRetries : Nat)
  | suspend
  | terminate
  | compensate
deriving DecidableEq, Repr

/-- `ErrorBehavior::default`: three retries, a minute apart. -/
def ErrorBehavior.default : ErrorBehavior := .retry (60 * 1000000000) 3

structure StepOutcome where
  nextStep : Nat
  label : Option String
  value : Option Json
deriving DecidableEq, Repr

structure WorkflowStep where
  id : Nat
  name : Option String
  externalId : Option String
  stepType : String
  children : List Nat
  outcomes : List StepOutcome
  errorBehavior : Option ErrorBehavior
  compensationStepId : Option Nat
  doCompensate : Bool
  saga : Bool
  stepConfig : Option Json
  when : Option StepCondition
deriving Repr

/-- `WorkflowStep::new`. -/
def WorkflowStep.new (id : Nat) (stepType : String) : WorkflowStep where
  id := id
  name := none
  externalId := none
  stepType := stepType
  children := []
  outcomes := []
  errorBehavior := none
  compensationStepId := none
  doCompensate := false
  saga := false
  stepConfig := none
  when := none

/-- The ids a step leads to, by its outcomes or by compensation. -/
def WorkflowStep.links (s : WorkflowStep) : List Nat :=
  s.outcomes.map StepOutcome.nextStep ++ s.compensationStepId.toList

structure SharedVolume where
  mountPath : String
  size : Option String
deriving DecidableEq, Repr

structure ServicePort where
  containerPort : Nat
  name : Option String
  protocol : String
deriving DecidableEq, Repr

/-- `ServicePort::tcp`. -/
def ServicePort.tcp (port : Nat) : ServicePort := ⟨port, none, "TCP"⟩

inductive ReadinessCheck
  | exec (command : List String)
  | tcpSocket (port : Nat)
  | httpGet (port : Nat) (path : String)
deriving DecidableEq, Repr

structure ReadinessProbe where
  check : ReadinessCheck
  intervalMs : Nat
  timeoutMs : Nat
  retries : Nat
deriving DecidableEq, Repr

structure ServiceDefinition where
  name : String
  image : String
  ports : List ServicePort
  env : List (String × String)
  readiness : Option ReadinessProbe
  command : List String
  args : List String
  memory : Option String
  cpu : Option String
deriving DecidableEq, Repr

structure ServiceEndpoint where
  name : String
  host : String
  ports : List ServicePort
deriving DecidableEq, Repr

structure WorkflowDefinition where
  id : String
  name : Option String
  version : Nat
  description : Option String
  steps : List WorkflowStep
  defaultErrorBehavior : ErrorBehavior
  defaultErrorRetryInterval : Option Duration
  services : List ServiceDefinition
  sharedVolume : Option SharedVolume
deriving Repr

/-- `WorkflowDefinition::new`. -/
def WorkflowDefinition.new (id : String) (version : Nat) : WorkflowDefinition where
  id := id
  name := none
  version := version
  description := none
  steps := []
  defaultErrorBehavior := .default
  defaultErrorRetryInterval := none
  services := []
  sharedVolume := none

/-- `definition.steps.iter().find(|s| s.id == step_id)`. -/
def WorkflowDefinition.findStep (d : WorkflowDefinition) (stepId : Nat) : Option WorkflowStep :=
  d.steps.find? fun s => s.id = stepId

theorem WorkflowDefinition.findStep_id {d : WorkflowDefinition} {stepId : Nat} {s : WorkflowStep}
    (h : d.findStep stepId = some s) : s.id = stepId := by
  simpa using List.find?_some h

/-- The name of the step with the given id, as copied into a new pointer. -/
def WorkflowDefinition.stepName (d : WorkflowDefinition) (stepId : Nat) : Option String :=
  (d.findStep stepId).bind WorkflowStep.name

end Wfe
