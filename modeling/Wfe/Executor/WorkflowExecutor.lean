import Wfe.Executor.Condition
import Wfe.Executor.Provider
import Wfe.Executor.ErrorHandler

/-!
# The workflow executor

`WorkflowExecutor::execute`: one pass over an instance. Under the lock of the instance, the pass
loads it, runs the body of every pointer that is runnable at its start, one after another,
applies each result at once, decides whether the workflow is complete, writes the instance back
and queues it again if it still has an active pointer.

## Main definitions

* `isPointerRunnable`, `runnableIndices`: the pointers a pass runs
* `examinePointer`: what the pass does with a pointer before any effect
* `skipPointer`, `startPointer`, `applyResult`, `applyError`: the changes of an instance
* `runPointer`, `completeWorkflow`, `finishPass`, `executeInner`, `execute`: the pass
-/

namespace Wfe

open Provider

/-- `is_pointer_runnable`. -/
def isPointerRunnable (pointer : ExecutionPointer) (now : DateTime) : Bool :=
  pointer.active &&
    match pointer.status with
    | .pending | .running | .sleeping => pointer.sleepUntil.all fun t => t ≤ now
    | .waitingForEvent => pointer.eventPublished
    | _ => false

/-- The indices of the pointers that are runnable when the pass starts. -/
def runnableIndices (w : WorkflowInstance) (now : DateTime) : List Nat :=
  (List.range w.executionPointers.length).filter fun i =>
    (w.executionPointers[i]?).any fun p => isPointerRunnable p now

/-- The local variables of the pointer loop. -/
structure PassState where
  workflow : WorkflowInstance
  allSubscriptions : List EventSubscription := []
  executionErrors : List ExecutionError := []

/-! ## Before the body runs -/

/-- What the loop finds at an index: nothing, an error that ends the pass, a step whose condition
is false, or a body to run. -/
inductive PointerCheck
  | absent
  | abort (e : WfeError)
  | skip (pointer : ExecutionPointer) (step : WorkflowStep)
  | run (pointer : ExecutionPointer) (step : WorkflowStep) (body : StepBody)

/-- Looks up the pointer's step, its condition and its body. -/
def examinePointer (definition : WorkflowDefinition) (resolve : StepResolver)
    (w : WorkflowInstance) (idx : Nat) : PointerCheck :=
  match w.executionPointers[idx]? with
  | none => .absent
  | some pointer =>
    match definition.findStep pointer.stepId with
    | none => .abort (.stepNotFound pointer.stepId)
    | some step =>
      match step.when.map (Condition.evaluate · w.data) with
      -- `return Err(e)`: the pass ends here, with nothing persisted.
      | some (.error e) => .abort e
      | some (.ok false) => .skip pointer step
      -- There is no condition, or it is met; the pointer may have started before.
      | _ =>
        match resolve step.stepType with
        | none => .abort (.stepExecution s!"Step type not found in registry: {step.stepType}")
        | some body => .run pointer step body

/-- The skip path: the pointer is skipped and the first outcome followed. -/
def skipPointer (env : Ambient) (definition : WorkflowDefinition) (step : WorkflowStep)
    (pointer : ExecutionPointer) (idx : Nat) (w : WorkflowInstance) : WorkflowInstance :=
  (w.setPointer idx { pointer with
    status := .skipped, active := false, endTime := some env.now }).pushPointers
    (step.outcomes.head?.toList.map fun o =>
      successorPointer (env.uuid 0) o.nextStep pointer definition)

/-- Marks the pointer as running. -/
def startPointer (env : Ambient) (pointer : ExecutionPointer) : ExecutionPointer :=
  { pointer with startTime := pointer.startTime <|> some env.now, status := .running }

/-! ## After the body ran -/

/-- Merges output data into the workflow data, when both are objects. -/
def mergeOutput (w : WorkflowInstance) (outputData : Option Json) : WorkflowInstance :=
  match outputData, w.data with
  | some (.object out), .object m => { w with data := .object (Object.extend m out) }
  -- Output that is no object, or that meets data that is none, is dropped.
  | _, _ => w

/-- A body returned `result`. -/
def applyResult (env : Ambient) (definition : WorkflowDefinition) (idx : Nat)
    (pointer : ExecutionPointer) (result : ExecutionResult) (st : PassState) : PassState :=
  let pr := processResult env result pointer definition st.workflow.id
  { st with
    workflow := (mergeOutput (st.workflow.setPointer idx pr.1) pr.2.outputData).pushPointers
      pr.2.newPointers
    allSubscriptions := st.allSubscriptions ++ pr.2.subscriptions }

/-- The workflow status an error handler asks for. -/
def applyStatus (env : Ambient) (status : Option WorkflowStatus) (w : WorkflowInstance) :
    WorkflowInstance :=
  match status with
  | none => w
  | some .terminated => { w with status := .terminated, completeTime := some env.now }
  -- A later failure overwrites what an earlier one has asked for.
  | some s => { w with status := s }

/-- A body failed with `e`. -/
def applyError (env : Ambient) (definition : WorkflowDefinition) (workflowId : String) (idx : Nat)
    (pointer : ExecutionPointer) (e : WfeError) (st : PassState) : PassState :=
  let hr := handleError env pointer definition
  { st with
    workflow := (applyStatus env hr.2.workflowStatus (st.workflow.setPointer idx hr.1)).pushPointers
      hr.2.newPointers
    executionErrors := st.executionErrors ++ [⟨env.now, workflowId, pointer.id, e.toString⟩] }

/-! ## The pass -/

/-- `return Err(e)` before anything is persisted. -/
def abort {α : Type} (workflowId : String) (e : WfeError) : Fallible α := do
  trace (.passAborted workflowId e)
  throw e

def lifecycleOf (w : WorkflowInstance) (eventType : LifecycleEventType) : LifecycleEvent :=
  ⟨w.id, w.workflowDefinitionId, w.version, eventType⟩

/-- The context in which the body of a step runs. -/
def stepContext (definition : WorkflowDefinition) (host : Option HostContext) (step : WorkflowStep)
    (pointer : ExecutionPointer) (workflow : WorkflowInstance) : StepExecutionContext where
  item := pointer.contextItem
  executionPointer := pointer
  persistenceData := pointer.persistenceData
  step := step
  workflow := workflow
  definition := definition
  hostContext := host.isSome

/-- One round of the pointer loop. -/
def runPointer (workflowId : String) (definition : WorkflowDefinition) (resolve : StepResolver)
    (host : Option HostContext) (st : PassState) (idx : Nat) : Fallible PassState :=
  match examinePointer definition resolve st.workflow idx with
  | .absent => return st
  | .abort e => abort workflowId e
  | .skip pointer step => do
    let env ← ambient
    return { st with workflow := skipPointer env definition step pointer idx st.workflow }
  | .run pointer step body => do
    let env ← ambient
    -- The body sees the pointer as running, and the data as merged so far.
    let pointer := startPointer env pointer
    let workflow := st.workflow.setPointer idx pointer
    publishLifecycle (lifecycleOf workflow (.stepStarted step.id step.name))
    let context := stepContext definition host step pointer workflow
    let stepResult ← ExceptT.lift (StepM.runOn host (body context))
    match stepResult with
    | .ok result => do
      publishLifecycle (lifecycleOf workflow (.stepCompleted step.id step.name))
      let env ← ambient
      return applyResult env definition idx pointer result { st with workflow := workflow }
    | .error e => do
      publishLifecycle (lifecycleOf workflow (.error e.toString))
      let env ← ambient
      if (handleError env pointer definition).2.workflowStatus = some .terminated then
        publishLifecycle (lifecycleOf workflow .terminated)
      return applyError env definition workflowId idx pointer e { st with workflow := workflow }

/-- All pointers are done, and there is at least one. -/
def allDone (w : WorkflowInstance) : Bool :=
  !w.executionPointers.isEmpty && w.executionPointers.all fun p => p.status.isDone

/-- The data of a completion event. -/
def completionData (w : WorkflowInstance) : Json :=
  .object [("data", w.data), ("status", .string "Complete")]

/-- Completes a workflow, and announces it to a waiting parent. Failures of the announcement are
ignored. -/
def completeWorkflow (workflowId : String) (w : WorkflowInstance) : Fallible WorkflowInstance := do
  let env ← ambient
  let w := { w with status := .complete, completeTime := some env.now }
  publishLifecycle (lifecycleOf w .completed)
  let env ← ambient
  let event := Event.new env "wfe.workflow.completed" workflowId (completionData w)
  -- A parent that waits for this workflow is woken by the event.
  let _ ← attempt (createEvent event)
  let _ ← attempt (queueWork event.id .event)
  return w

/-- Completes a runnable workflow whose pointers are all done. -/
def checkCompletion (workflowId : String) (w : WorkflowInstance) : Fallible WorkflowInstance :=
  if allDone w ∧ w.status = .runnable then completeWorkflow workflowId w else pure w

/-- The earliest wake-up time of the sleeping pointers. -/
def nextSleep (w : WorkflowInstance) : Option DateTime :=
  ((w.executionPointers.filter fun p => p.status = .sleeping).filterMap (·.sleepUntil)).min?

/-- `next_execution` after a pass. -/
def nextExecutionOf (w : WorkflowInstance) : Option Int :=
  if w.hasActive then some 0
  -- Only sleeping pointers wake up by themselves.
  else if w.status = .runnable then (nextSleep w).map DateTime.timestampMillis
  else none

/-- Writes the instance back, together with the subscriptions made in the pass. -/
def persistPass (w : WorkflowInstance) (subs : List EventSubscription) : Fallible Unit :=
  if subs = [] then persistWorkflow .execute w else persistWorkflowWithSubscriptions w subs

def reportErrors (errors : List ExecutionError) : Fallible Unit :=
  if errors = [] then pure () else persistErrors errors

/-- Queues the instance again if it has work left. -/
def requeue (workflowId : String) (w : WorkflowInstance) : Fallible Unit :=
  if w.status = .runnable ∧ w.hasActive then queueWork workflowId .workflow else pure ()

/-- The end of a pass: completion, persistence, re-queueing. -/
def finishPass (workflowId : String) (st : PassState) : Fallible Unit := do
  let w ← checkCompletion workflowId st.workflow
  let w := { w with nextExecution := nextExecutionOf w }
  persistPass w st.allSubscriptions
  reportErrors st.executionErrors
  requeue workflowId w

/-- `execute_inner`. -/
def executeInner (workflowId : String) (definition : WorkflowDefinition) (resolve : StepResolver)
    (host : Option HostContext) : Fallible Unit := do
  let w ← getWorkflowInstance workflowId
  if w.status = .runnable then
    let env ← ambient
    -- The indices are fixed before the loop: pointers pushed in the pass wait for the next one.
    let st ← (runnableIndices w env.now).foldlM
      (runPointer workflowId definition resolve host) { workflow := w }
    finishPass workflowId st

/-- `execute`: a pass under the lock of the instance; a busy lock is skipped silently. -/
def execute (workflowId : String) (definition : WorkflowDefinition) (resolve : StepResolver)
    (host : Option HostContext) : Fallible Unit := do
  let acquired ← acquireLock .execute workflowId
  if acquired then
    let result ← attempt (executeInner workflowId definition resolve host)
    if let .error _ ← attempt (releaseLock workflowId) then trace (.releaseFailed workflowId)
    ExceptT.mk (pure result)
  else trace (.lockBusy workflowId)

end Wfe
