import Wfe.Models.Json

/-!
# The YAML workflow format

The structures a workflow file is deserialized into. Steps nest: a step is a regular step, with a
type and a configuration, or a block of steps to run in parallel, and a regular step may carry
hooks, which are steps again. Hash maps are association lists in the order they are iterated.

## Main definitions

* `YamlValue`, `YamlCondition`: YAML values and the conditions of steps
* `StepConfig`, `YamlStep`, `WorkflowSpec`: steps and workflows
* `YamlStep.induction`: induction over the blocks of a step
-/

namespace Wfe

/-- `serde_yaml::Number`. -/
inductive YamlNumber
  | posInt (n : UInt64)
  | negInt (n : Int64)
  | float (bits : UInt64)
deriving DecidableEq, Repr

/-- `serde_yaml::Value`. -/
inductive YamlValue
  | null
  | bool (b : Bool)
  | number (n : YamlNumber)
  | string (s : String)
  | sequence (xs : List YamlValue)
  | mapping (m : List (YamlValue × YamlValue))
  | tagged (tag : String) (value : YamlValue)
deriving Repr

structure YamlComparison where
  field : String
  equals : Option YamlValue := none
  notEquals : Option YamlValue := none
  gt : Option YamlValue := none
  gte : Option YamlValue := none
  lt : Option YamlValue := none
  lte : Option YamlValue := none
  contains : Option YamlValue := none
  isNull : Option Bool := none
  isNotNull : Option Bool := none
deriving Repr

/-- `YamlCondition`, with `YamlCombinator` unfolded into it. -/
inductive YamlCondition
  | comparison (cmp : YamlComparison)
  | combinator (all any none_ oneOf : Option (List YamlCondition)) (not : Option YamlCondition)
deriving Repr

structure DenoPermissionsYaml where
  net : List String := []
  read : List String := []
  write : List String := []
  env : List String := []
  run : Bool := false
  dynamicImport : Bool := false
deriving DecidableEq, Repr

structure DataRef where
  name : String
  path : Option String := none
  jsonPath : Option String := none
deriving DecidableEq, Repr

structure TlsConfigYaml where
  ca : Option String := none
  cert : Option String := none
  key : Option String := none
deriving DecidableEq, Repr

structure RegistryAuthYaml where
  username : String
  password : String
deriving DecidableEq, Repr

structure VolumeMountYaml where
  source : String
  target : String
  readonly : Bool := false
deriving DecidableEq, Repr

structure YamlErrorBehavior where
  behaviorType : String
  interval : Option String := none
  maxRetries : Option Nat := none
deriving DecidableEq, Repr

/-- Step configuration; the fields are type-specific. -/
structure StepConfig where
  run : Option String := none
  file : Option String := none
  script : Option String := none
  shell : Option String := none
  env : List (String × String) := []
  timeout : Option String := none
  workingDir : Option String := none
  inputs : List (String × String) := []
  branch : Option String := none
  commit : Option String := none
  depth : Option Nat := none
  input : Option String := none
  permissions : Option DenoPermissionsYaml := none
  modules : List String := []
  dockerfile : Option String := none
  context : Option String := none
  target : Option String := none
  tags : List String := []
  buildArgs : List (String × String) := []
  cacheFrom : List String := []
  cacheTo : List String := []
  push : Option Bool := none
  outputType : Option String := none
  outputDest : Option String := none
  buildkitAddr : Option String := none
  tls : Option TlsConfigYaml := none
  registryAuth : Option (List (String × RegistryAuthYaml)) := none
  image : Option String := none
  command : Option (List String) := none
  volumes : List VolumeMountYaml := []
  user : Option String := none
  network : Option String := none
  memory : Option String := none
  cpu : Option String := none
  pull : Option String := none
  containerdAddr : Option String := none
  cli : Option String := none
  kubeconfig : Option String := none
  namespace_ : Option String := none
  pullPolicy : Option String := none
  artifactOutputs : List (String × String) := []
  package : Option String := none
  features : List String := []
  allFeatures : Option Bool := none
  noDefaultFeatures : Option Bool := none
  release : Option Bool := none
  profile : Option String := none
  toolchain : Option String := none
  extraArgs : List String := []
  outputDir : Option String := none
  components : List String := []
  targets : List String := []
  defaultToolchain : Option String := none
  childWorkflow : Option String := none
  childVersion : Option Nat := none

/-- A single step in a workflow. -/
structure YamlStep where
  name : String
  stepType : Option String := none
  config : Option StepConfig := none
  inputs : List DataRef := []
  outputs : List DataRef := []
  parallel : Option (List YamlStep) := none
  errorBehavior : Option YamlErrorBehavior := none
  onSuccess : Option YamlStep := none
  onFailure : Option YamlStep := none
  ensure : Option YamlStep := none
  when : Option YamlCondition := none

/-- Induction over steps and lists of steps, following the parallel blocks. -/
theorem YamlStep.induction {P : YamlStep → Prop} {Q : List YamlStep → Prop}
    (regular : ∀ y, y.parallel = none → P y)
    (block : ∀ y children, y.parallel = some children → Q children → P y)
    (nil : Q []) (cons : ∀ y ys, P y → Q ys → Q (y :: ys)) : ∀ ys, Q ys := by
  have hstep (y : YamlStep) : P y := by
    -- The hooks are left out: only the children of a block are followed.
    refine @YamlStep.rec P (fun o => ∀ ys, o = some ys → Q ys) (fun _ => True) Q ?_ ?_ ?_ trivial
      (fun _ _ => trivial) nil cons y
    · intro name stepType config inputs outputs parallel errorBehavior onSuccess onFailure ensure
        when ih _ _ _
      cases parallel with
      | none => exact regular _ rfl
      | some children => exact block _ children rfl (ih children rfl)
    · intro ys h
      cases h
    · rintro children ih _ ⟨⟩
      exact ih
  intro ys
  induction ys with
  | nil => exact nil
  | cons y ys ih => exact cons y ys (hstep y) ih

structure YamlSharedVolume where
  mountPath : String := "/workspace"
  size : Option String := none
deriving DecidableEq, Repr

structure YamlHttpGet where
  port : Nat
  path : String := "/"
deriving DecidableEq, Repr

structure YamlReadiness where
  exec : Option (List String) := none
  tcp : Option Nat := none
  http : Option YamlHttpGet := none
  interval : Option String := none
  timeout : Option String := none
  retries : Option Nat := none
deriving DecidableEq, Repr

structure YamlService where
  image : String
  ports : List Nat := []
  env : List (String × String) := []
  readiness : Option YamlReadiness := none
  memory : Option String := none
  cpu : Option String := none
  command : Option (List String) := none
  args : Option (List String) := none
deriving DecidableEq, Repr

/-- A complete workflow definition. -/
structure WorkflowSpec where
  id : String
  name : Option String := none
  version : Nat
  description : Option String := none
  errorBehavior : Option YamlErrorBehavior := none
  steps : List YamlStep
  inputs : List (String × String) := []
  outputs : List (String × String) := []
  services : List (String × YamlService) := []
  sharedVolume : Option YamlSharedVolume := none

/-- `YamlWorkflowError`, as far as validation and compilation raise it. -/
inductive YamlWorkflowError
  | validation (message : String)
  | compilation (message : String)
deriving DecidableEq, Repr

end Wfe
