import Mathlib.Data.List.Nodup
import Wfe.Models.Schema
import Wfe.Yaml.StepConfig

/-!
# Validation of YAML workflows

`validate`: the checks a specification passes before it is compiled. Step names are unique over
the whole workflow, hooks and the children of parallel blocks included; each step has a type or is
a block, and the configuration its type needs; conditions refer to declared fields and compare
them as their types allow; declared outputs are produced by some step. Hash sets are lists here,
since only membership is asked.

## Main definitions

* `parseTypeString`: the types of inputs and outputs
* `allSteps`: the steps occurring anywhere in a workflow
* `validateStepType`, `validateSteps`: the steps
* `validateConditionFields`, `validateConditionTypes`: their conditions
* `validate`: the whole

## Main results

* `validate_names`: the names of an accepted workflow are distinct
-/

namespace Wfe

/-- `if bad { return Err(YamlWorkflowError::Validation(message)) }`. -/
def rejectIf (bad : Prop) [Decidable bad] (message : String) : Compiled Unit :=
  if bad then .error (.validation message) else .ok ()

/-- A loop of checks passes exactly if each of them does. -/
theorem Compiled.forM_eq_ok {α : Type} {l : List α} {check : α → Compiled Unit} :
    l.forM check = .ok () ↔ ∀ a ∈ l, check a = .ok () := by
  induction l with
  | nil => simp [List.forM, pure, Except.pure]
  | cons a l ih =>
    change (check a >>= fun _ => l.forM check) = .ok () ↔ _
    rw [Compiled.bind_eq_ok, List.forall_mem_cons, ← ih]
    constructor
    · rintro ⟨_, ha, hl⟩
      exact ⟨ha, hl⟩
    · rintro ⟨ha, hl⟩
      exact ⟨(), ha, hl⟩

/-! ## Types -/

/-- `Display` of `SchemaType`. -/
def SchemaType.display : SchemaType → String
  | string => "string"
  | number => "number"
  | integer => "integer"
  | bool => "bool"
  | any => "any"
  | optional inner => inner.display ++ "?"
  | list inner => "list<" ++ inner.display ++ ">"
  | map inner => "map<" ++ inner.display ++ ">"

theorem Text.length_trimChars_le (cs : List Char) : (Text.trimChars cs).length ≤ cs.length := by
  unfold Text.trimChars
  rw [List.length_reverse]
  calc _ ≤ (cs.dropWhile Text.isWhitespace).reverse.length := (List.dropWhile_suffix _).length_le
    _ ≤ cs.length := by
      rw [List.length_reverse]
      exact (List.dropWhile_suffix _).length_le

/-- `parse_type_string`, on the characters of the text. A question mark at the end is treated alike
after simple and generic types. -/
def parseTypeChars (text : List Char) : Except String SchemaType :=
  let s := Text.trimChars text
  if hs : s = [] then .error "Empty type string"
  else if s.getLast hs = '?' then
    SchemaType.optional <$> parseTypeChars s.dropLast
  else if '<' ∈ s then
    let shown := String.ofList s
    if s.getLast hs ≠ '>' then
      .error s!"Malformed generic type: '{shown}' (missing closing '>')"
    else do
      let inner ← parseTypeChars (s.dropWhile (· ≠ '<')).tail.dropLast
      match String.ofList (s.takeWhile (· ≠ '<')) with
      | "list" => .ok (.list inner)
      | "map" => .ok (.map inner)
      | other => .error s!"Unknown generic type: '{other}'"
  else
    match String.ofList s with
    | "string" => .ok .string
    | "number" => .ok .number
    | "integer" => .ok .integer
    | "bool" => .ok .bool
    | "any" => .ok .any
    | other => .error s!"Unknown type: '{other}'"
termination_by text.length
decreasing_by
  all_goals
    have hle := Text.length_trimChars_le text
    have hpos : 0 < (Text.trimChars text).length := List.length_pos_iff.mpr hs
  · rw [List.length_dropLast]
    omega
  · have hdrop := (List.dropWhile_suffix (· ≠ '<') (l := Text.trimChars text)).length_le
    rw [List.length_dropLast, List.length_tail]
    omega

def parseTypeString (s : String) : Except String SchemaType := parseTypeChars s.toList

/-! ## Steps -/

def validateErrorBehaviorType (behaviorType : String) : Compiled Unit :=
  match behaviorType with
  | "retry" | "suspend" | "terminate" | "compensate" => .ok ()
  | other => .error (.validation
      s!"Invalid error behavior type: '{other}'. Must be retry, suspend, terminate, or compensate")

/-- The `config` section that the steps of a type must have. -/
def requireConfig (label name : String) (config : Option StepConfig) : Compiled StepConfig :=
  match config with
  | some config => .ok config
  | none => .error (.validation s!"{label} step '{name}' must have a 'config' section")

def validateShell (name : String) (config : Option StepConfig) : Compiled Unit := do
  let config ← requireConfig "Shell" name config
  rejectIf (config.run.isNone ∧ config.file.isNone)
    s!"Shell step '{name}' must have 'config.run' or 'config.file'"

def validateDeno (name : String) (config : Option StepConfig) : Compiled Unit := do
  let config ← requireConfig "Deno" name config
  rejectIf (config.script.isNone ∧ config.file.isNone)
    s!"Deno step '{name}' must have 'config.script' or 'config.file'"

def validateBuildkit (name : String) (config : Option StepConfig) : Compiled Unit := do
  let config ← requireConfig "BuildKit" name config
  rejectIf config.dockerfile.isNone s!"BuildKit step '{name}' must have 'config.dockerfile'"
  rejectIf (config.context.isNone ∧ config.input.isNone)
    s!"BuildKit step '{name}' must have 'config.context' (or 'config.input' for artifact override)"
  rejectIf (config.push.getD false ∧ config.tags = [])
    s!"BuildKit step '{name}' has push=true but no tags specified"

/-- A setting with three possible values. -/
def validateChoice (setting : Option String) (choices : List String) (message : String → String) :
    Compiled Unit :=
  match setting with
  | none => .ok ()
  | some value => rejectIf (value ∉ choices) (message value)

def validateContainerd (name : String) (config : Option StepConfig) : Compiled Unit := do
  let config ← requireConfig "Containerd" name config
  rejectIf config.image.isNone s!"Containerd step '{name}' must have 'config.image'"
  rejectIf (config.run.isNone ∧ config.command.isNone)
    s!"Containerd step '{name}' must have 'config.run' or 'config.command'"
  rejectIf (config.run.isSome ∧ config.command.isSome)
    s!"Containerd step '{name}' cannot have both 'config.run' and 'config.command'"
  validateChoice config.network ["none", "host", "bridge"] fun other =>
    s!"Containerd step '{name}' has invalid network '{other}'. Must be none, host, or bridge"
  validateChoice config.pull ["always", "if-not-present", "never"] fun other =>
    s!"Containerd step '{name}' has invalid pull policy '{other}'. Must be always, " ++
      "if-not-present, or never"

def validateWorkflow (name : String) (config : Option StepConfig) : Compiled Unit := do
  let config ← requireConfig "Workflow" name config
  rejectIf config.childWorkflow.isNone s!"Workflow step '{name}' must have 'config.workflow'"

/-- The checks of the step types that need a particular configuration. -/
def validateStepType (name : String) (stepType : Option String) (config : Option StepConfig) :
    Compiled Unit :=
  match stepType with
  | some "shell" => validateShell name config
  | some "deno" => validateDeno name config
  | some "buildkit" => validateBuildkit name config
  | some "containerd" => validateContainerd name config
  | some "workflow" => validateWorkflow name config
  | _ => .ok ()

/-- The checks of a step besides those of the steps inside it. -/
def validateOwn (name : String) (stepType : Option String) (config : Option StepConfig)
    (parallel : Bool) (errorBehavior : Option YamlErrorBehavior) (seen : List String) :
    Compiled Unit := do
  rejectIf (name ∈ seen) s!"Duplicate step name: '{name}'"
  rejectIf (stepType.isNone ∧ !parallel)
    s!"Step '{name}' must have either 'type' + 'config' or 'parallel'"
  rejectIf (stepType.isSome ∧ parallel) s!"Step '{name}' cannot have both 'type' and 'parallel'"
  validateStepType name stepType config
  match errorBehavior with
  | some eb => validateErrorBehaviorType eb.behaviorType
  | none => .ok ()

mutual

/-- One round of the loop of `validate_steps`; returns the names seen. -/
def validateStep : YamlStep → List String → Compiled (List String)
  | { name, stepType, config, parallel, errorBehavior, onSuccess, onFailure, ensure, .. },
      seen => do
    validateOwn name stepType config parallel.isSome errorBehavior seen
    let seen ← validateBlock parallel (name :: seen)
    let seen ← validateHook onSuccess seen
    let seen ← validateHook onFailure seen
    validateHook ensure seen

def validateBlock : Option (List YamlStep) → List String → Compiled (List String)
  | some children, seen => validateSteps children seen
  | none, seen => .ok seen

def validateHook : Option YamlStep → List String → Compiled (List String)
  | some hook, seen => validateStep hook seen
  | none, seen => .ok seen

/-- `validate_steps`. -/
def validateSteps : List YamlStep → List String → Compiled (List String)
  | [], seen => .ok seen
  | y :: ys, seen => do
    let seen ← validateStep y seen
    validateSteps ys seen

end

mutual

/-- A step and the steps inside it, in the order they are visited. -/
def YamlStep.withNested : YamlStep → List YamlStep
  | { name, stepType, config, inputs, outputs, parallel, errorBehavior, onSuccess, onFailure,
      ensure, when } =>
    { name, stepType, config, inputs, outputs, parallel, errorBehavior, onSuccess, onFailure,
      ensure, when } ::
      (blockSteps parallel ++ hookSteps onSuccess ++ hookSteps onFailure ++ hookSteps ensure)

def blockSteps : Option (List YamlStep) → List YamlStep
  | some children => allSteps children
  | none => []

def hookSteps : Option YamlStep → List YamlStep
  | some hook => hook.withNested
  | none => []

/-- The steps occurring anywhere in a list of steps. -/
def allSteps : List YamlStep → List YamlStep
  | [] => []
  | y :: ys => y.withNested ++ allSteps ys

end

/-- `collect_step_outputs`. -/
def collectStepOutputs (steps : List YamlStep) : List String :=
  (allSteps steps).flatMap fun y => y.outputs.map DataRef.name

/-! ## Conditions -/

mutual

/-- Checks the comparisons of a condition one after another. -/
def forComparisons (check : YamlComparison → Compiled Unit) : YamlCondition → Compiled Unit
  | .comparison cmp => check cmp
  | .combinator all any none_ oneOf not => do
    forCombined check all
    forCombined check any
    forCombined check none_
    forCombined check oneOf
    forNegated check not

def forCombined (check : YamlComparison → Compiled Unit) :
    Option (List YamlCondition) → Compiled Unit
  | some cs => forConditions check cs
  | none => .ok ()

def forNegated (check : YamlComparison → Compiled Unit) : Option YamlCondition → Compiled Unit
  | some c => forComparisons check c
  | none => .ok ()

def forConditions (check : YamlComparison → Compiled Unit) : List YamlCondition → Compiled Unit
  | [] => .ok ()
  | c :: cs => do
    forComparisons check c
    forConditions check cs

end

/-- The segments of a field path; a leading dot is optional. -/
def fieldSegments (field : String) : List String :=
  match Text.split field '.' with
  | "" :: parts => parts
  | parts => parts

def validateFieldPath (spec : WorkflowSpec) (knownOutputs : List String) (field : String) :
    Compiled Unit :=
  if spec.inputs = [] ∧ spec.outputs = [] then .ok ()
  else
    match fieldSegments field with
    | "inputs" :: fieldName :: _ =>
      let available := Text.join ", " (spec.inputs.map Prod.fst)
      rejectIf (fieldName ∉ spec.inputs.map Prod.fst)
        (s!"Condition references unknown input field '{fieldName}'. " ++
          s!"Available inputs: [{available}]")
    | "outputs" :: fieldName :: _ =>
      let available := Text.join ", " (spec.outputs.map Prod.fst)
      rejectIf (fieldName ∉ spec.outputs.map Prod.fst ∧ fieldName ∉ knownOutputs)
        (s!"Condition references unknown output field '{fieldName}'. " ++
          s!"Available outputs: [{available}]")
    | other :: _ :: _ => .error (.validation
        (s!"Condition field path '{field}' must start with 'inputs' or 'outputs', " ++
          s!"got '{other}'"))
    | _ => .error (.validation
        (s!"Condition field path '{field}' must have at least two segments " ++
          "(e.g. '.inputs.name')"))

def validateConditionFields (spec : WorkflowSpec) (knownOutputs : List String) :
    YamlCondition → Compiled Unit :=
  forComparisons fun cmp => validateFieldPath spec knownOutputs cmp.field

/-- `resolve_field_type`. -/
def resolveFieldType (field : String) (spec : WorkflowSpec) : Option SchemaType :=
  let typeStr := match fieldSegments field with
    | "inputs" :: fieldName :: _ => spec.inputs.lookup fieldName
    | "outputs" :: fieldName :: _ => spec.outputs.lookup fieldName
    | _ => none
  typeStr.bind fun s => (parseTypeString s).toOption

namespace SchemaType

/-- `is_numeric_type`. -/
def isNumeric : SchemaType → Bool
  | number | integer | any => true
  | optional inner => inner.isNumeric
  | _ => false

/-- `is_containable_type`. -/
def isContainable : SchemaType → Bool
  | string | list _ | any => true
  | optional inner => inner.isContainable
  | _ => false

/-- `is_optional_type`. -/
def isOptional : SchemaType → Bool
  | optional _ | any => true
  | _ => false

end SchemaType

def validateComparisonType (spec : WorkflowSpec) (cmp : YamlComparison) : Compiled Unit :=
  match resolveFieldType cmp.field spec with
  | none => .ok ()
  | some fieldType => do
    let field := cmp.field
    let shown := fieldType.display
    rejectIf ((cmp.gt.isSome ∨ cmp.gte.isSome ∨ cmp.lt.isSome ∨ cmp.lte.isSome) ∧
        !fieldType.isNumeric)
      ("Comparison operators gt/gte/lt/lte are only valid for number/integer types, " ++
        s!"but field '{field}' has type '{shown}'")
    rejectIf (cmp.contains.isSome ∧ !fieldType.isContainable)
      ("Comparison operator 'contains' is only valid for string/list types, " ++
        s!"but field '{field}' has type '{shown}'")
    rejectIf ((cmp.isNull = some true ∨ cmp.isNotNull = some true) ∧ !fieldType.isOptional)
      ("Comparison operators is_null/is_not_null are only valid for optional types, " ++
        s!"but field '{field}' has type '{shown}'")

def validateConditionTypes (spec : WorkflowSpec) : YamlCondition → Compiled Unit :=
  forComparisons (validateComparisonType spec)

/-- The checks of the condition of one step. -/
def validateWhen (spec : WorkflowSpec) (knownOutputs : List String) (cond : YamlCondition) :
    Compiled Unit := do
  validateConditionFields spec knownOutputs cond
  validateConditionTypes spec cond

def validateStepConditions (spec : WorkflowSpec) (knownOutputs : List String) : Compiled Unit :=
  ((allSteps spec.steps).filterMap YamlStep.when).forM (validateWhen spec knownOutputs)

/-! ## Workflows -/

def detectUnusedOutputs (spec : WorkflowSpec) (knownOutputs : List String) : Compiled Unit :=
  spec.outputs.forM fun (outputName, _) =>
    rejectIf (outputName ∉ knownOutputs)
      (s!"Declared output '{outputName}' is never produced by any step. " ++
        s!"Add an output data ref with name '{outputName}' to a step.")

def validate (spec : WorkflowSpec) : Compiled Unit := do
  rejectIf (spec.steps = []) "Workflow must have at least one step"
  let _ ← validateSteps spec.steps []
  match spec.errorBehavior with
  | some eb => validateErrorBehaviorType eb.behaviorType
  | none => .ok ()
  let knownOutputs := collectStepOutputs spec.steps
  validateStepConditions spec knownOutputs
  detectUnusedOutputs spec knownOutputs

/-! ## Names -/

section Names

theorem rejectIf_eq_ok {bad : Prop} [Decidable bad] {message : String} {u : Unit}
    (h : rejectIf bad message = .ok u) : ¬bad := by
  unfold rejectIf at h
  split_ifs at h
  assumption

/-- `seen'` is `seen` extended by the names of `ys`, none of them twice. -/
def Extends (ys : List YamlStep) (seen seen' : List String) : Prop :=
  seen' = (ys.map YamlStep.name).reverse ++ seen ∧ (seen.Nodup → seen'.Nodup)

theorem Extends.nil (seen : List String) : Extends [] seen seen := ⟨rfl, id⟩

theorem Extends.append {xs ys : List YamlStep} {seen seen' seen'' : List String}
    (h : Extends xs seen seen') (h' : Extends ys seen' seen'') :
    Extends (xs ++ ys) seen seen'' := by
  refine ⟨?_, fun hn => h'.2 (h.2 hn)⟩
  rw [h'.1, h.1]
  simp

theorem Extends.of_own {y : YamlStep} {parallel : Bool} {seen : List String} {u : Unit}
    (h : validateOwn y.name y.stepType y.config parallel y.errorBehavior seen = .ok u) :
    Extends [y] seen (y.name :: seen) := by
  obtain ⟨_, h, -⟩ := Compiled.bind_eq_ok.mp h
  exact ⟨rfl, fun hn => List.nodup_cons.mpr ⟨rejectIf_eq_ok h, hn⟩⟩

mutual

theorem validateStep_extends (y : YamlStep) (seen seen' : List String)
    (h : validateStep y seen = .ok seen') : Extends y.withNested seen seen' := by
  obtain ⟨name, stepType, config, inputs, outputs, parallel, errorBehavior, onSuccess, onFailure,
    ensure, when⟩ := y
  simp only [validateStep] at h
  obtain ⟨_, hown, h⟩ := Compiled.bind_eq_ok.mp h
  obtain ⟨_, hblock, h⟩ := Compiled.bind_eq_ok.mp h
  obtain ⟨_, hsuccess, h⟩ := Compiled.bind_eq_ok.mp h
  obtain ⟨_, hfailure, hensure⟩ := Compiled.bind_eq_ok.mp h
  exact (Extends.of_own (y := ⟨name, stepType, config, inputs, outputs, parallel, errorBehavior,
    onSuccess, onFailure, ensure, when⟩) hown).append
    ((((validateBlock_extends parallel _ _ hblock).append
      (validateHook_extends onSuccess _ _ hsuccess)).append
        (validateHook_extends onFailure _ _ hfailure)).append
          (validateHook_extends ensure _ _ hensure))

theorem validateBlock_extends (block : Option (List YamlStep)) (seen seen' : List String)
    (h : validateBlock block seen = .ok seen') : Extends (blockSteps block) seen seen' := by
  cases block with
  | none =>
    cases h
    exact .nil seen
  | some children => exact validateSteps_extends children seen seen' h

theorem validateHook_extends (hook : Option YamlStep) (seen seen' : List String)
    (h : validateHook hook seen = .ok seen') : Extends (hookSteps hook) seen seen' := by
  cases hook with
  | none =>
    cases h
    exact .nil seen
  | some hook => exact validateStep_extends hook seen seen' h

theorem validateSteps_extends (ys : List YamlStep) (seen seen' : List String)
    (h : validateSteps ys seen = .ok seen') : Extends (allSteps ys) seen seen' := by
  cases ys with
  | nil =>
    cases h
    exact .nil seen
  | cons y ys =>
    obtain ⟨_, hy, hys⟩ := Compiled.bind_eq_ok.mp h
    exact (validateStep_extends y _ _ hy).append (validateSteps_extends ys _ _ hys)

end

/-- **The names of an accepted workflow are distinct**, over all its steps and hooks. -/
theorem validate_names {spec : WorkflowSpec} (h : validate spec = .ok ()) :
    ((allSteps spec.steps).map YamlStep.name).Nodup := by
  obtain ⟨_, -, h⟩ := Compiled.bind_eq_ok.mp h
  obtain ⟨seen, hseen, -⟩ := Compiled.bind_eq_ok.mp h
  obtain ⟨rfl, hnodup⟩ := validateSteps_extends _ _ _ hseen
  exact List.nodup_reverse.mp (by simpa using hnodup)

end Names

end Wfe
