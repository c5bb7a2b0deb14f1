import Wfe.Executor.Primitives

/-!
# The workflow builder

Definitions built in code. A `WorkflowBuilder` holds the steps, each at the index that is its id; a
`StepBuilder` is a builder with a current step. The body of a container is a closure over the
builder, and every step that it adds becomes a child of the container, whatever it is meant for.

## Main definitions

* `WorkflowBuilder`, `StepBuilder`, `ParallelBuilder`: the builders
* `StepBuilder.ifDo`, `StepBuilder.whileDo`, `StepBuilder.forEach`, `StepBuilder.saga`: containers

## Main results

* `WorkflowBuilder.getElem?_addBody`: the children a body gives to its container
-/

namespace Wfe

/-- A closure for an inline step. -/
abbrev InlineClosure := Unit → ExecutionResult

/-- `InlineStep`, with its closure. -/
def InlineStep.run (body : InlineClosure) : StepBody := fun _ => return body ()

/-- The type name of `InlineStep`. -/
def inlineKey : String := "wfe_core::builder::inline_step::InlineStep"

/-- The builder. The inline closures are kept by the ids of their steps. -/
structure WorkflowBuilder where
  steps : List WorkflowStep := []
  lastStep : Option Nat := none
  inlineClosures : List (Nat × InlineClosure) := []
  defaultErrorBehavior : Option ErrorBehavior := none

/-- A builder with a current step. -/
structure StepBuilder where
  builder : WorkflowBuilder
  stepId : Nat

/-- A builder inside a container of branches. -/
structure ParallelBuilder where
  builder : WorkflowBuilder
  containerId : Nat

namespace WorkflowBuilder

/-- `self.steps[id]`, changed in place. -/
def modifyStep (b : WorkflowBuilder) (id : Nat) (f : WorkflowStep → WorkflowStep) :
    WorkflowBuilder :=
  { b with steps := b.steps.modify id f }

/-- `add_step`: a step at the next id. -/
def addStep (b : WorkflowBuilder) (stepType : String) : WorkflowBuilder :=
  { b with steps := b.steps ++ [WorkflowStep.new b.steps.length stepType] }

/-- `add_step_typed`. -/
def addStepTyped (b : WorkflowBuilder) (stepType name : String) (config : Option Json) :
    WorkflowBuilder :=
  (b.addStep stepType).modifyStep b.steps.length fun s =>
    { s with name := some name, stepConfig := config <|> s.stepConfig }

/-- `wire_outcome`. -/
def wireOutcome (b : WorkflowBuilder) (fromStep toStep : Nat) (value : Option Json) :
    WorkflowBuilder :=
  b.modifyStep fromStep fun s =>
    { s with outcomes := s.outcomes ++ [⟨toStep, none, value⟩] }

/-- `add_child`. -/
def addChild (b : WorkflowBuilder) (parent child : Nat) : WorkflowBuilder :=
  b.modifyStep parent fun s => { s with children := s.children ++ [child] }

/-- Runs the closure that builds the body of a container, and makes every step it has added a
child of the container. -/
def addBody (b : WorkflowBuilder) (container : Nat) (build : WorkflowBuilder → WorkflowBuilder) :
    WorkflowBuilder :=
  let beforeCount := b.steps.length
  let b := build b
  let afterCount := b.steps.length
  (List.range' beforeCount (afterCount - beforeCount)).foldl
    (fun b child => b.addChild container child) b

/-- `start_with`. -/
def startWith (b : WorkflowBuilder) (stepType : String) : StepBuilder :=
  ⟨{ b.addStep stepType with lastStep := some b.steps.length }, b.steps.length⟩

/-- `build`. -/
def build (b : WorkflowBuilder) (id : String) (version : Nat) : WorkflowDefinition :=
  let d := WorkflowDefinition.new id version
  { d with
    steps := b.steps
    defaultErrorBehavior := b.defaultErrorBehavior.getD d.defaultErrorBehavior }

end WorkflowBuilder

namespace StepBuilder

variable (self : StepBuilder)

/-- `name`. -/
def name (name : String) : StepBuilder :=
  { self with builder := self.builder.modifyStep self.stepId ({ · with name := some name }) }

/-- `id`. -/
def id (externalId : String) : StepBuilder :=
  { self with
    builder := self.builder.modifyStep self.stepId ({ · with externalId := some externalId }) }

/-- `on_error`. -/
def onError (behavior : ErrorBehavior) : StepBuilder :=
  { self with
    builder := self.builder.modifyStep self.stepId ({ · with errorBehavior := some behavior }) }

/-- `config`. -/
def config (config : Json) : StepBuilder :=
  { self with
    builder := self.builder.modifyStep self.stepId ({ · with stepConfig := some config }) }

/-- `compensate_with`: a new step that compensates the current one. -/
def compensateWith (stepType : String) : StepBuilder :=
  let compId := self.builder.steps.length
  { self with
    builder := (self.builder.addStep stepType).modifyStep self.stepId
      ({ · with compensationStepId := some compId }) }

/-- `then`: a new step, wired to the current one. -/
def thenStep (stepType : String) : StepBuilder :=
  let nextId := self.builder.steps.length
  ⟨{ (self.builder.addStep stepType).wireOutcome self.stepId nextId none with
    lastStep := some nextId }, nextId⟩

/-- `then_fn`: a new step that runs a closure, wired to the current one. -/
def thenFn (f : InlineClosure) : StepBuilder :=
  let nextId := self.builder.steps.length
  ⟨{ (self.builder.addStep inlineKey).wireOutcome self.stepId nextId none with
    lastStep := some nextId
    inlineClosures := self.builder.inlineClosures ++ [(nextId, f)] }, nextId⟩

/-- `wait_for`: a step that waits for an event, wired to the current one. -/
def waitFor (eventName eventKey : String) : StepBuilder :=
  let nextId := self.builder.steps.length
  let builder := { (self.builder.addStep "wfe_core::primitives::wait_for::WaitForStep").wireOutcome
    self.stepId nextId none with lastStep := some nextId }
  ⟨builder.modifyStep nextId ({ · with
    stepConfig := some (.object [("event_key", .string eventKey),
      ("event_name", .string eventName)]) }), nextId⟩

/-- `delay`: a step that sleeps, wired to the current one. The milliseconds are reduced to 64
bits. -/
def delay (duration : Duration) : StepBuilder :=
  let nextId := self.builder.steps.length
  let builder := { (self.builder.addStep delayKey).wireOutcome self.stepId nextId none with
    lastStep := some nextId }
  ⟨builder.modifyStep nextId ({ · with
    stepConfig := some (.object [("duration_millis",
      .number (.posInt (UInt64.ofNat (duration / 1000000))))]) }), nextId⟩

/-- A container of the given type, wired to the current step, with the body built by a closure. -/
def container (stepType : String) (mark : WorkflowStep → WorkflowStep)
    (buildChildren : WorkflowBuilder → WorkflowBuilder) : StepBuilder :=
  let containerId := self.builder.steps.length
  let builder := ((self.builder.addStep stepType).modifyStep containerId mark).wireOutcome
    self.stepId containerId none
  ⟨{ builder.addBody containerId buildChildren with lastStep := some containerId }, containerId⟩

/-- `if_do`. -/
def ifDo : (WorkflowBuilder → WorkflowBuilder) → StepBuilder :=
  self.container "wfe_core::primitives::if_step::IfStep" fun s => s

/-- `while_do`. -/
def whileDo : (WorkflowBuilder → WorkflowBuilder) → StepBuilder :=
  self.container "wfe_core::primitives::while_step::WhileStep" fun s => s

/-- `for_each`. -/
def forEach : (WorkflowBuilder → WorkflowBuilder) → StepBuilder :=
  self.container "wfe_core::primitives::foreach_step::ForEachStep" fun s => s

/-- The type name of `SagaContainerStep`. -/
def sagaKey : String := "wfe_core::primitives::saga_container::SagaContainerStep"

/-- `saga`. -/
def saga : (WorkflowBuilder → WorkflowBuilder) → StepBuilder :=
  self.container sagaKey ({ · with saga := true })

/-- `parallel`. -/
def parallel (buildBranches : ParallelBuilder → ParallelBuilder) : StepBuilder :=
  let seqId := self.builder.steps.length
  let builder := (self.builder.addStep sequenceKey).wireOutcome self.stepId seqId none
  ⟨{ (buildBranches ⟨builder, seqId⟩).builder with lastStep := some seqId }, seqId⟩

/-- `end_workflow`. -/
def endWorkflow : WorkflowBuilder := self.builder

end StepBuilder

/-- `branch`. -/
def ParallelBuilder.branch (self : ParallelBuilder)
    (buildBranch : WorkflowBuilder → WorkflowBuilder) : ParallelBuilder :=
  { self with builder := self.builder.addBody self.containerId buildBranch }

/-! ## The children of a container -/

section Children

variable (b : WorkflowBuilder) (id : Nat)

@[simp] theorem WorkflowBuilder.getElem?_modifyStep (f : WorkflowStep → WorkflowStep) :
    (b.modifyStep id f).steps[id]? = b.steps[id]?.map f := by
  simp [WorkflowBuilder.modifyStep]

theorem WorkflowBuilder.getElem?_foldl_addChild (children : List Nat) :
    (children.foldl (fun b child => b.addChild id child) b).steps[id]? =
      b.steps[id]?.map fun s => { s with children := s.children ++ children } := by
  induction children generalizing b with
  | nil => simp
  | cons child children ih =>
    rw [List.foldl_cons, ih, WorkflowBuilder.addChild, WorkflowBuilder.getElem?_modifyStep,
      Option.map_map]
    congr 1
    funext s
    simp

theorem WorkflowBuilder.steps_foldl_addChild (children : List Nat) :
    (children.foldl (fun b child => b.addChild id child) b).steps.length = b.steps.length ∧
      ∀ i, i ≠ id →
        (children.foldl (fun b child => b.addChild id child) b).steps[i]? = b.steps[i]? := by
  induction children generalizing b with
  | nil => exact ⟨rfl, fun _ _ => rfl⟩
  | cons child children ih =>
    obtain ⟨hlength, hother⟩ := ih (b.addChild id child)
    refine ⟨hlength.trans (List.length_modify ..), fun i hi => (hother i hi).trans ?_⟩
    exact List.getElem?_modify_ne _ _ (Ne.symm hi)

/-- The body changes no other step once it is built. -/
theorem WorkflowBuilder.steps_addBody (build : WorkflowBuilder → WorkflowBuilder) :
    (b.addBody id build).steps.length = (build b).steps.length ∧
      ∀ i, i ≠ id → (b.addBody id build).steps[i]? = (build b).steps[i]? :=
  WorkflowBuilder.steps_foldl_addChild ..

/-- The steps that a body adds become children of its container. -/
theorem WorkflowBuilder.getElem?_addBody (build : WorkflowBuilder → WorkflowBuilder) :
    (b.addBody id build).steps[id]? = (build b).steps[id]?.map fun s =>
      { s with children := s.children ++
        List.range' b.steps.length ((build b).steps.length - b.steps.length) } :=
  WorkflowBuilder.getElem?_foldl_addChild ..

end Children

end Wfe
