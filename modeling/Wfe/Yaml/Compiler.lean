import Wfe.Executor.Primitives
import Wfe.Yaml.StepConfig

/-!
# The YAML compiler

`compile`: from a workflow specification to a definition and the factories of its steps. Step ids
are handed out by one counter. A parallel block takes an id for its container before its children
are compiled and is added after them; the hooks of a regular step take the ids after its own and
are added before it. When a list of steps has been compiled, a second loop wires each main step, or
the last hook it leads to, to the next main step of the list. The children of a parallel block are
compiled by the same function, and wired to each other in the same way.

## Main definitions

* `compileCondition`, `mapErrorBehavior`, `compileServices`: the parts of a specification
* `CompileState`, `Compiler`: the state the compiler threads
* `wirePair`, `wire`: the second loop
* `compileStep`, `compileList`, `compileSteps`: the steps
* `compile`: the whole
-/

namespace Wfe

/-! ## Conditions -/

/-- `yaml_value_to_json` of a number; a number that is not finite becomes null. -/
def YamlNumber.toJson : YamlNumber → Json
  | posInt n => .number (.posInt n)
  | negInt n => .number (.negInt n)
  | float bits => if (bits >>> 52) &&& 0x7ff = 0x7ff then .null else .number (.float bits)

mutual

/-- `yaml_value_to_json`. Entries of a mapping whose key is not a string are dropped. -/
def YamlValue.toJson : YamlValue → Json
  | .null => .null
  | .bool b => .bool b
  | .number n => n.toJson
  | .string s => .string s
  | .sequence xs => .array (YamlValue.listToJson xs)
  | .mapping m => .object (YamlValue.mappingToJson m [])
  | .tagged _ value => value.toJson

def YamlValue.listToJson : List YamlValue → List Json
  | [] => []
  | x :: xs => x.toJson :: YamlValue.listToJson xs

def YamlValue.mappingToJson : List (YamlValue × YamlValue) → Object → Object
  | [], obj => obj
  | (.string key, val) :: m, obj => YamlValue.mappingToJson m (obj.insert key val.toJson)
  | _ :: m, obj => YamlValue.mappingToJson m obj

end

/-- The operators a comparison specifies. -/
def YamlComparison.ops (cmp : YamlComparison) : List (ComparisonOp × Option Json) :=
  let op (o : ComparisonOp) (v : Option YamlValue) : List (ComparisonOp × Option Json) :=
    v.toList.map fun v => (o, some v.toJson)
  op .equals cmp.equals ++ op .notEquals cmp.notEquals ++ op .gt cmp.gt ++ op .gte cmp.gte ++
    op .lt cmp.lt ++ op .lte cmp.lte ++ op .contains cmp.contains ++
    (if cmp.isNull = some true then [(.isNull, none)] else []) ++
    (if cmp.isNotNull = some true then [(.isNotNull, none)] else [])

/-- `compile_comparison`: exactly one operator. -/
def compileComparison (cmp : YamlComparison) : Compiled StepCondition :=
  match cmp.ops with
  | [] => .error (.compilation
      s!"Comparison on field '{cmp.field}' must specify an operator (equals, gt, etc.)")
  | [(operator, value)] => .ok (.comparison ⟨cmp.field, operator, value⟩)
  | ops => .error (.compilation
      s!"Comparison on field '{cmp.field}' must specify exactly one operator, found {ops.length}")

mutual

/-- `compile_condition` and `compile_combinator`. -/
def compileCondition : YamlCondition → Compiled StepCondition
  | .comparison cmp => compileComparison cmp
  | .combinator none none none none none => .error (.compilation
      "Condition combinator must have at least one of: all, any, none, one_of, not")
  | .combinator (some cs) none none none none => return .all (← compileConditions cs)
  | .combinator none (some cs) none none none => return .any (← compileConditions cs)
  | .combinator none none (some cs) none none => return .none (← compileConditions cs)
  | .combinator none none none (some cs) none => return .oneOf (← compileConditions cs)
  | .combinator none none none none (some c) => return .not (← compileCondition c)
  | .combinator _ _ _ _ _ => .error (.compilation
      "Condition combinator must have exactly one of: all, any, none, one_of, not")

def compileConditions : List YamlCondition → Compiled (List StepCondition)
  | [] => return []
  | c :: cs => return (← compileCondition c) :: (← compileConditions cs)

end

/-! ## Error behaviours and services -/

def mapErrorBehavior (eb : YamlErrorBehavior) : Compiled ErrorBehavior :=
  match eb.behaviorType with
  | "retry" =>
    -- The interval is in nanoseconds, one minute by default.
    .ok (.retry (((eb.interval.bind parseDurationMs).map (· * 1000000)).getD (60 * 1000000000))
      (eb.maxRetries.getD 3))
  | "suspend" => .ok .suspend
  | "terminate" => .ok .terminate
  | "compensate" => .ok .compensate
  | other => .error (.compilation s!"Unknown error behavior type: '{other}'")

def compileReadiness (svc : YamlService) (r : YamlReadiness) : ReadinessProbe where
  check :=
    match r.exec, r.tcp, r.http with
    | some cmd, _, _ => .exec cmd
    | none, some port, _ => .tcpSocket port
    | none, none, some http => .httpGet http.port http.path
    -- Without a check, the first port is probed.
    | none, none, none => .tcpSocket (svc.ports.head?.getD 0)
  intervalMs := (r.interval.bind parseDurationMs).getD 5000
  timeoutMs := (r.timeout.bind parseDurationMs).getD 60000
  retries := r.retries.getD 12

def compileServices (services : List (String × YamlService)) : List ServiceDefinition :=
  services.map fun (name, svc) =>
    { name := name
      image := svc.image
      ports := svc.ports.map ServicePort.tcp
      env := svc.env
      readiness := svc.readiness.map (compileReadiness svc)
      command := svc.command.getD []
      args := svc.args.getD []
      memory := svc.memory
      cpu := svc.cpu }

/-! ## Steps -/

/-- What the compiler threads: the steps added so far, the factories, and the next step id. -/
structure CompileState where
  steps : List WorkflowStep := []
  factories : List (String × StepFactory) := []
  nextId : Nat := 0

abbrev Compiler := StateT CompileState Compiled

/-- Takes the next step id. -/
def freshId : Compiler Nat := fun st => .ok (st.nextId, { st with nextId := st.nextId + 1 })

def pushStep (step : WorkflowStep) : Compiler Unit :=
  fun st => .ok ((), { st with steps := st.steps ++ [step] })

def pushFactory (key : String) (factory : StepFactory) : Compiler Unit :=
  fun st => .ok ((), { st with factories := st.factories ++ [(key, factory)] })

/-- A step with the key, name and configuration of what it is compiled from. -/
def BuiltStep.toStep (b : BuiltStep) (id : Nat) (name : String) : WorkflowStep :=
  { WorkflowStep.new id b.key with name := some name, stepConfig := some b.config }

/-- Compiles a hook, and returns its id. -/
def compileHook (F : Features) (hook : YamlStep) : Compiler Nat := do
  let id ← freshId
  -- Only the name and the configuration of a hook are read.
  let built ← buildStep F hook
  pushStep (built.toStep id hook.name)
  pushFactory built.key built.factory
  return id

/-- The outcomes of a regular step before it is wired: to its `on_success` hook, else to its
`ensure` hook. -/
def hookOutcomes : (onSuccess ensure : Option Nat) → List StepOutcome
  -- With an `on_success` hook, nothing leads to the `ensure` hook.
  | some id, _ => [⟨id, some "success", none⟩]
  | none, some id => [⟨id, some "ensure", none⟩]
  | none, none => []

/-- Compiles a regular step with its hooks. -/
def compileRegular (F : Features) (y : YamlStep) : Compiler Nat := do
  let id ← freshId
  let built ← buildStep F y
  let errorBehavior ← y.errorBehavior.mapM (m := Compiled) mapErrorBehavior
  let cond ← y.when.mapM (m := Compiled) compileCondition
  -- The hooks take their ids before the main step is pushed.
  let failureId ← y.onFailure.mapM (compileHook F)
  let successId ← y.onSuccess.mapM (compileHook F)
  let ensureId ← y.ensure.mapM (compileHook F)
  pushStep { built.toStep id y.name with
    -- The hook replaces the declared behaviour.
    errorBehavior := if failureId.isSome then some .compensate else errorBehavior
    when := cond
    compensationStepId := failureId
    outcomes := hookOutcomes successId ensureId }
  pushFactory built.key built.factory
  return id

/-- Changes the first step with the given id. -/
def modifyStep (id : Nat) (f : WorkflowStep → WorkflowStep) : List WorkflowStep → List WorkflowStep
  | [] => []
  | s :: ss => if s.id = id then f s :: ss else s :: modifyStep id f ss

/-- Adds an outcome that leads to `next`. -/
def addNext (next : Nat) (s : WorkflowStep) : WorkflowStep :=
  { s with outcomes := s.outcomes ++ [⟨next, none, none⟩] }

/-- Wires the main step `current` to `next`: itself if it leads nowhere, else the hook its last
outcome leads to, if that leads nowhere. -/
def wirePair (current next : Nat) (steps : List WorkflowStep) : List WorkflowStep :=
  match steps.find? fun s => s.id = current with
  | none => steps
  | some step =>
    match step.outcomes.getLast? with
    | none => modifyStep current (addNext next) steps
    | some last => modifyStep last.nextStep
        (fun hook => if hook.outcomes = [] then addNext next hook else hook) steps

/-- Wires the main steps of a list one after another. -/
def wire : List Nat → List WorkflowStep → List WorkflowStep
  | current :: next :: ids, steps => wire (next :: ids) (wirePair current next steps)
  | _, steps => steps

/-- The second loop of `compile_steps`. -/
def wireSteps (ids : List Nat) : Compiler (List Nat) :=
  fun st => .ok (ids, { st with steps := wire ids st.steps })

mutual

/-- One round of the loop of `compile_steps`; returns the id of the main step. -/
def compileStep (F : Features) : YamlStep → Compiler Nat
  | { name, parallel := some children, errorBehavior, when, .. } => do
    let id ← freshId
    let errorBehavior ← errorBehavior.mapM (m := Compiled) mapErrorBehavior
    let childIds ← compileList F children
    -- `compile_steps` calls itself, so the children are wired like a sequence.
    let childIds ← wireSteps childIds
    let cond ← when.mapM (m := Compiled) compileCondition
    pushStep { WorkflowStep.new id sequenceKey with
      name := some name
      errorBehavior := errorBehavior
      children := childIds
      when := cond }
    return id
  | y => compileRegular F y

/-- The loop of `compile_steps`; returns the ids of the main steps. -/
def compileList (F : Features) : List YamlStep → Compiler (List Nat)
  | [] => return []
  | y :: ys => do
    let id ← compileStep F y
    let ids ← compileList F ys
    return id :: ids

end

/-- `compile_steps`. -/
def compileSteps (F : Features) (ys : List YamlStep) : Compiler (List Nat) := do
  let ids ← compileList F ys
  wireSteps ids

/-! ## Workflows -/

/-- A compiled workflow, ready to be registered. -/
structure CompiledWorkflow where
  definition : WorkflowDefinition
  stepFactories : List (String × StepFactory)

def compile (F : Features) (spec : WorkflowSpec) : Compiled CompiledWorkflow := do
  let errorBehavior ← spec.errorBehavior.mapM mapErrorBehavior
  -- The steps stand in the order in which they are pushed, not in that of their ids.
  let (_, st) ← compileSteps F spec.steps {}
  return {
    definition := { WorkflowDefinition.new spec.id spec.version with
      name := spec.name
      description := spec.description
      sharedVolume := spec.sharedVolume.map fun v => ⟨v.mountPath, v.size⟩
      defaultErrorBehavior := errorBehavior.getD .default
      steps := st.steps
      services := compileServices spec.services }
    stepFactories := st.factories }

end Wfe
