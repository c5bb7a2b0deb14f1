import Wfe.Yaml.Schema
import Wfe.Models.Text

/-!
# Step configurations and factories

`build_step_config_and_factory`: from a YAML step to the key its factory is registered under, the
configuration stored in the compiled step, and the factory itself. A factory closes over its
configuration, and is represented here by it. The key is made of the kind of executor and the name
of the step only.

Executors other than `shell`, `git-repo` and `workflow` exist only if the crate is built with the
corresponding feature.

## Main definitions

* `ShellConfig`, `DenoConfig`, …: the configurations, with their serialized form `toJson`
* `StepFactory`: a factory, by the configuration it closes over
* `Features`: the cargo features of the crate
* `buildStepConfigAndFactory`: key, configuration and factory of a step
-/

namespace Wfe

/-- The cargo features of the crate. -/
structure Features where
  deno : Bool := false
  buildkit : Bool := false
  containerd : Bool := false
  kubernetes : Bool := false
  rustlang : Bool := false
deriving DecidableEq, Repr

/-! ## Serialization -/

namespace Json

/-- A struct or a map, its entries put in key order. -/
def ofEntries (entries : List (String × Json)) : Json :=
  .object (entries.foldl (fun m kv => Object.insert kv.1 kv.2 m) [])

def ofOption {α : Type} (f : α → Json) : Option α → Json
  | some a => f a
  | none => .null

def ofStr : Option String → Json := ofOption .string

def ofNat (n : Nat) : Json := .number (.posInt (UInt64.ofNat n))

def ofList (xs : List String) : Json := .array (xs.map .string)

def ofMap (m : List (String × String)) : Json := ofEntries (m.map fun kv => (kv.1, .string kv.2))

end Json

structure ShellConfig where
  run : String
  shell : String
  env : List (String × String)
  workingDir : Option String
  timeoutMs : Option Nat
  inputs : Option (List (String × String))

def ShellConfig.toJson (c : ShellConfig) : Json :=
  .ofEntries [("run", .string c.run), ("shell", .string c.shell), ("env", .ofMap c.env),
    ("working_dir", .ofStr c.workingDir), ("timeout_ms", .ofOption .ofNat c.timeoutMs),
    ("inputs", .ofOption .ofMap c.inputs)]

structure DenoPermissions where
  net : List String := []
  read : List String := []
  write : List String := []
  env : List String := []
  run : Bool := false
  dynamicImport : Bool := false

structure DenoConfig where
  script : Option String
  file : Option String
  permissions : DenoPermissions
  modules : List String
  env : List (String × String)
  timeoutMs : Option Nat

def DenoPermissions.toJson (p : DenoPermissions) : Json :=
  .ofEntries [("net", .ofList p.net), ("read", .ofList p.read), ("write", .ofList p.write),
    ("env", .ofList p.env), ("run", .bool p.run), ("dynamic_import", .bool p.dynamicImport)]

def DenoConfig.toJson (c : DenoConfig) : Json :=
  .ofEntries [("script", .ofStr c.script), ("file", .ofStr c.file),
    ("permissions", c.permissions.toJson), ("modules", .ofList c.modules), ("env", .ofMap c.env),
    ("timeout_ms", .ofOption .ofNat c.timeoutMs)]

structure TlsConfig where
  ca : Option String := none
  cert : Option String := none
  key : Option String := none

def TlsConfig.toJson (t : TlsConfig) : Json :=
  .ofEntries [("ca", .ofStr t.ca), ("cert", .ofStr t.cert), ("key", .ofStr t.key)]

structure RegistryAuth where
  username : String
  password : String

def RegistryAuth.toJson (a : RegistryAuth) : Json :=
  .ofEntries [("username", .string a.username), ("password", .string a.password)]

def registryAuthJson (m : List (String × RegistryAuth)) : Json :=
  .ofEntries (m.map fun kv => (kv.1, kv.2.toJson))

structure BuildkitConfig where
  dockerfile : String
  context : String
  target : Option String
  tags : List String
  buildArgs : List (String × String)
  cacheFrom : List String
  cacheTo : List String
  push : Bool
  outputType : Option String
  outputDest : Option String
  buildkitAddr : String
  tls : TlsConfig
  registryAuth : List (String × RegistryAuth)
  inputs : Option (List (String × String))
  input : Option String
  timeoutMs : Option Nat

def BuildkitConfig.toJson (c : BuildkitConfig) : Json :=
  .ofEntries [("dockerfile", .string c.dockerfile), ("context", .string c.context),
    ("target", .ofStr c.target), ("tags", .ofList c.tags), ("build_args", .ofMap c.buildArgs),
    ("cache_from", .ofList c.cacheFrom), ("cache_to", .ofList c.cacheTo), ("push", .bool c.push),
    ("output_type", .ofStr c.outputType), ("output_dest", .ofStr c.outputDest),
    ("buildkit_addr", .string c.buildkitAddr), ("tls", c.tls.toJson),
    ("registry_auth", registryAuthJson c.registryAuth), ("inputs", .ofOption .ofMap c.inputs),
    ("input", .ofStr c.input), ("timeout_ms", .ofOption .ofNat c.timeoutMs)]

structure VolumeMountConfig where
  source : String
  target : String
  readonly : Bool

def VolumeMountConfig.toJson (v : VolumeMountConfig) : Json :=
  .ofEntries [("source", .string v.source), ("target", .string v.target),
    ("readonly", .bool v.readonly)]

structure ContainerdConfig where
  image : String
  command : Option (List String)
  run : Option String
  env : List (String × String)
  volumes : List VolumeMountConfig
  workingDir : Option String
  user : String
  network : String
  memory : Option String
  cpu : Option String
  pull : String
  containerdAddr : String
  cli : String
  tls : TlsConfig
  registryAuth : List (String × RegistryAuth)
  inputs : Option (List (String × String))
  timeoutMs : Option Nat

def ContainerdConfig.toJson (c : ContainerdConfig) : Json :=
  .ofEntries [("image", .string c.image), ("command", .ofOption .ofList c.command),
    ("run", .ofStr c.run), ("env", .ofMap c.env),
    ("volumes", .array (c.volumes.map VolumeMountConfig.toJson)),
    ("working_dir", .ofStr c.workingDir), ("user", .string c.user), ("network", .string c.network),
    ("memory", .ofStr c.memory), ("cpu", .ofStr c.cpu), ("pull", .string c.pull),
    ("containerd_addr", .string c.containerdAddr), ("cli", .string c.cli), ("tls", c.tls.toJson),
    ("registry_auth", registryAuthJson c.registryAuth), ("inputs", .ofOption .ofMap c.inputs),
    ("timeout_ms", .ofOption .ofNat c.timeoutMs)]

structure KubernetesStepConfig where
  image : String
  command : Option (List String)
  run : Option String
  shell : Option String
  env : List (String × String)
  workingDir : Option String
  memory : Option String
  cpu : Option String
  timeoutMs : Option Nat
  pullPolicy : Option String
  namespace_ : Option String
  artifactOutputs : List (String × String)

def KubernetesStepConfig.toJson (c : KubernetesStepConfig) : Json :=
  .ofEntries [("image", .string c.image), ("command", .ofOption .ofList c.command),
    ("run", .ofStr c.run), ("shell", .ofStr c.shell), ("env", .ofMap c.env),
    ("working_dir", .ofStr c.workingDir), ("memory", .ofStr c.memory), ("cpu", .ofStr c.cpu),
    ("timeout_ms", .ofOption .ofNat c.timeoutMs), ("pull_policy", .ofStr c.pullPolicy),
    ("namespace", .ofStr c.namespace_), ("artifact_outputs", .ofMap c.artifactOutputs)]

/-- `ClusterConfig`, with the defaults of the source. -/
structure ClusterConfig where
  kubeconfig : Option String := none
  namespacePrefix : String := "wfe-"
  serviceAccount : Option String := none
  imagePullSecrets : List String := []
  nodeSelector : List (String × String) := []
  defaultSharedVolumeSize : String := "10Gi"
  sharedVolumeStorageClass : Option String := none

inductive CargoCommand
  | build
  | test
  | check
  | clippy
  | fmt
  | doc
  | publish
  | audit
  | deny
  | nextest
  | llvmCov
  | docMdx
deriving DecidableEq, Repr

/-- The kebab-case name a command is serialized as. -/
def CargoCommand.asStr : CargoCommand → String
  | build => "build"
  | test => "test"
  | check => "check"
  | clippy => "clippy"
  | fmt => "fmt"
  | doc => "doc"
  | publish => "publish"
  | audit => "audit"
  | deny => "deny"
  | nextest => "nextest"
  | llvmCov => "llvm-cov"
  | docMdx => "doc-mdx"

structure CargoConfig where
  command : CargoCommand
  toolchain : Option String
  package : Option String
  features : List String
  allFeatures : Bool
  noDefaultFeatures : Bool
  release : Bool
  target : Option String
  profile : Option String
  extraArgs : List String
  env : List (String × String)
  workingDir : Option String
  timeoutMs : Option Nat
  outputDir : Option String

def CargoConfig.toJson (c : CargoConfig) : Json :=
  .ofEntries [("command", .string c.command.asStr), ("toolchain", .ofStr c.toolchain),
    ("package", .ofStr c.package), ("features", .ofList c.features),
    ("all_features", .bool c.allFeatures), ("no_default_features", .bool c.noDefaultFeatures),
    ("release", .bool c.release), ("target", .ofStr c.target), ("profile", .ofStr c.profile),
    ("extra_args", .ofList c.extraArgs), ("env", .ofMap c.env),
    ("working_dir", .ofStr c.workingDir), ("timeout_ms", .ofOption .ofNat c.timeoutMs),
    ("output_dir", .ofStr c.outputDir)]

inductive RustupCommand
  | install
  | toolchainInstall
  | componentAdd
  | targetAdd
deriving DecidableEq, Repr

def RustupCommand.asStr : RustupCommand → String
  | install => "install"
  | toolchainInstall => "toolchain-install"
  | componentAdd => "component-add"
  | targetAdd => "target-add"

structure RustupConfig where
  command : RustupCommand
  toolchain : Option String
  components : List String
  targets : List String
  profile : Option String
  defaultToolchain : Option String
  extraArgs : List String
  timeoutMs : Option Nat

def RustupConfig.toJson (c : RustupConfig) : Json :=
  .ofEntries [("command", .string c.command.asStr), ("toolchain", .ofStr c.toolchain),
    ("components", .ofList c.components), ("targets", .ofList c.targets),
    ("profile", .ofStr c.profile), ("default_toolchain", .ofStr c.defaultToolchain),
    ("extra_args", .ofList c.extraArgs), ("timeout_ms", .ofOption .ofNat c.timeoutMs)]

structure GitRepoConfig where
  url : String
  branch : Option String
  commit : Option String
  depth : Option Nat
  path : String
  output : String
  input : Option String

def GitRepoConfig.toJson (c : GitRepoConfig) : Json :=
  .ofEntries [("url", .string c.url), ("branch", .ofStr c.branch), ("commit", .ofStr c.commit),
    ("depth", .ofOption .ofNat c.depth), ("path", .string c.path), ("output", .string c.output),
    ("input", .ofStr c.input)]

/-- Configuration for a sub-workflow step. -/
structure SubWorkflowConfig where
  workflowId : String
  version : Nat
  outputKeys : List String

def SubWorkflowConfig.toJson (c : SubWorkflowConfig) : Json :=
  .ofEntries [("workflow_id", .string c.workflowId), ("version", .ofNat c.version),
    ("output_keys", .ofList c.outputKeys)]

/-- A step factory: the step bodies it builds run the configuration it closes over. -/
inductive StepFactory
  | shell (config : ShellConfig)
  | deno (config : DenoConfig)
  | buildkit (config : BuildkitConfig)
  | containerd (config : ContainerdConfig)
  | kubernetes (config : KubernetesStepConfig) (cluster : ClusterConfig)
  | cargo (config : CargoConfig)
  | rustup (config : RustupConfig)
  | gitRepo (config : GitRepoConfig)
  | workflow (config : SubWorkflowConfig)

/-! ## Durations -/

/-- `parse_duration_ms`. The products are of type `u64` and wrap around. -/
def parseDurationMs (s : String) : Option Nat :=
  let s := Text.trim s
  match Text.stripSuffix s "ms" with
  | some ms => Text.parseU64 (Text.trim ms)
  | none =>
    match Text.stripSuffix s "s" with
    | some secs => (Text.parseU64 (Text.trim secs)).map fun v => v * 1000 % 2 ^ 64
    | none =>
      match Text.stripSuffix s "m" with
      | some mins =>
        (Text.parseU64 (Text.trim mins)).map fun v => v * 60 % 2 ^ 64 * 1000 % 2 ^ 64
      | none => Text.parseU64 s

/-! ## Builders -/

/-- The result of a fallible step of the compiler. -/
abbrev Compiled := Except YamlWorkflowError

theorem Compiled.bind_eq_ok {α β : Type} {x : Compiled α} {f : α → Compiled β} {b : β} :
    (x >>= f) = .ok b ↔ ∃ a, x = .ok a ∧ f a = .ok b := by
  cases x with
  | error e =>
    constructor
    · rintro ⟨⟩
    · rintro ⟨a, ⟨⟩, -⟩
  | ok a =>
    constructor
    · exact fun h => ⟨a, rfl, h⟩
    · rintro ⟨_, ⟨⟩, h⟩
      exact h

/-- `ok_or_else(|| YamlWorkflowError::Compilation(..))`. -/
def require {α : Type} (o : Option α) (message : String) : Compiled α :=
  match o with
  | some a => .ok a
  | none => .error (.compilation message)

/-- A map that is dropped when it is empty. -/
def nonEmpty (m : List (String × String)) : Option (List (String × String)) :=
  if m = [] then none else some m

def StepConfig.timeoutMs (config : StepConfig) : Option Nat := config.timeout.bind parseDurationMs

def buildShellConfig (step : YamlStep) : Compiled ShellConfig := do
  let config ← require step.config s!"Step '{step.name}' is missing 'config' section"
  let run ← require (config.run <|> config.file.map (fun f => s!"sh {f}") <|> config.script)
    s!"Step '{step.name}' must have 'run', 'file', or 'script' in config"
  return {
    run := run
    shell := config.shell.getD "sh"
    env := config.env
    workingDir := config.workingDir
    timeoutMs := config.timeoutMs
    inputs := nonEmpty config.inputs }

def buildDenoConfig (step : YamlStep) : Compiled DenoConfig := do
  let config ← require step.config s!"Deno step '{step.name}' is missing 'config' section"
  if config.script.isNone ∧ config.file.isNone then
    throw (.compilation s!"Deno step '{step.name}' must have 'script' or 'file' in config")
  return {
    script := config.script
    file := config.file
    permissions := (config.permissions.map fun p =>
      { net := p.net, read := p.read, write := p.write, env := p.env, run := p.run,
        dynamicImport := p.dynamicImport }).getD {}
    modules := config.modules
    env := config.env
    timeoutMs := config.timeoutMs }

def StepConfig.tlsConfig (config : StepConfig) : TlsConfig :=
  (config.tls.map fun t => ⟨t.ca, t.cert, t.key⟩).getD {}

def StepConfig.registryAuths (config : StepConfig) : List (String × RegistryAuth) :=
  (config.registryAuth.map fun ra =>
    ra.map fun kv => (kv.1, ⟨kv.2.username, kv.2.password⟩)).getD []

def buildBuildkitConfig (step : YamlStep) : Compiled BuildkitConfig := do
  let config ← require step.config s!"BuildKit step '{step.name}' is missing 'config' section"
  let dockerfile ← require config.dockerfile
    s!"BuildKit step '{step.name}' must have 'config.dockerfile'"
  let context := config.context.getD (if config.input.isSome then "." else "")
  if context = "" then
    throw (.compilation s!"BuildKit step '{step.name}' must have 'config.context'")
  return {
    dockerfile := dockerfile
    context := context
    target := config.target
    tags := config.tags
    buildArgs := config.buildArgs
    cacheFrom := config.cacheFrom
    cacheTo := config.cacheTo
    push := config.push.getD false
    outputType := config.outputType
    outputDest := config.outputDest
    buildkitAddr := config.buildkitAddr.getD "unix:///run/buildkit/buildkitd.sock"
    tls := config.tlsConfig
    registryAuth := config.registryAuths
    inputs := nonEmpty config.inputs
    input := config.input
    timeoutMs := config.timeoutMs }

def buildContainerdConfig (step : YamlStep) : Compiled ContainerdConfig := do
  let config ← require step.config s!"Containerd step '{step.name}' is missing 'config' section"
  let image ← require config.image s!"Containerd step '{step.name}' must have 'config.image'"
  return {
    image := image
    command := config.command
    run := config.run
    env := config.env
    volumes := config.volumes.map fun v => ⟨v.source, v.target, v.readonly⟩
    workingDir := config.workingDir
    user := config.user.getD "65534:65534"
    network := config.network.getD "none"
    memory := config.memory
    cpu := config.cpu
    pull := config.pull.getD "if-not-present"
    containerdAddr := config.containerdAddr.getD "/run/containerd/containerd.sock"
    cli := config.cli.getD "nerdctl"
    tls := config.tlsConfig
    registryAuth := config.registryAuths
    inputs := nonEmpty config.inputs
    timeoutMs := config.timeoutMs }

def buildKubernetesConfig (step : YamlStep) : Compiled (KubernetesStepConfig × ClusterConfig) := do
  let config ← require step.config s!"Kubernetes step '{step.name}' is missing 'config' section"
  let image ← require config.image s!"Kubernetes step '{step.name}' must have 'config.image'"
  return ({
      image := image
      command := config.command
      run := config.run
      shell := config.shell
      env := config.env
      workingDir := config.workingDir
      memory := config.memory
      cpu := config.cpu
      timeoutMs := config.timeoutMs
      pullPolicy := config.pullPolicy
      namespace_ := config.namespace_
      artifactOutputs := config.artifactOutputs },
    { kubeconfig := config.kubeconfig })

/-- The cargo command a step type names. -/
def cargoCommand : String → Option CargoCommand
  | "cargo-build" => some .build
  | "cargo-test" => some .test
  | "cargo-check" => some .check
  | "cargo-clippy" => some .clippy
  | "cargo-fmt" => some .fmt
  | "cargo-doc" => some .doc
  | "cargo-publish" => some .publish
  | "cargo-audit" => some .audit
  | "cargo-deny" => some .deny
  | "cargo-nextest" => some .nextest
  | "cargo-llvm-cov" => some .llvmCov
  | "cargo-doc-mdx" => some .docMdx
  | _ => none

/-- `build_cargo_config`; unlike the others, it does without a `config` section. -/
def buildCargoConfig (step : YamlStep) (command : CargoCommand) : CargoConfig :=
  let config := step.config.getD {}
  { command := command
    toolchain := config.toolchain
    package := config.package
    features := config.features
    allFeatures := config.allFeatures.getD false
    noDefaultFeatures := config.noDefaultFeatures.getD false
    release := config.release.getD false
    target := config.target
    profile := config.profile
    extraArgs := config.extraArgs
    env := config.env
    workingDir := config.workingDir
    timeoutMs := config.timeoutMs
    outputDir := config.outputDir }

def rustupCommand : String → Option RustupCommand
  | "rust-install" => some .install
  | "rustup-toolchain" => some .toolchainInstall
  | "rustup-component" => some .componentAdd
  | "rustup-target" => some .targetAdd
  | _ => none

def buildRustupConfig (step : YamlStep) (command : RustupCommand) : RustupConfig :=
  let config := step.config.getD {}
  { command := command
    toolchain := config.toolchain
    components := config.components
    targets := config.targets
    profile := config.profile
    defaultToolchain := config.defaultToolchain
    extraArgs := config.extraArgs
    timeoutMs := config.timeoutMs }

def buildGitRepoConfig (step : YamlStep) : Compiled GitRepoConfig := do
  let config ← require step.config s!"git-repo step '{step.name}' is missing 'config' section"
  let url ← require (config.run <|> config.script)
    s!"git-repo step '{step.name}' must have 'config.run' (the remote URL)"
  return {
    url := url
    branch := config.branch
    commit := config.commit
    depth := config.depth
    path := config.workingDir.getD "/workspace/repo"
    output := step.name
    input := config.input }

def buildSubWorkflowConfig (step : YamlStep) : Compiled SubWorkflowConfig := do
  let config ← require step.config s!"Workflow step '{step.name}' is missing 'config' section"
  let childWorkflowId ← require config.childWorkflow
    s!"Workflow step '{step.name}' must have 'config.workflow'"
  return ⟨childWorkflowId, config.childVersion.getD 1, step.outputs.map DataRef.name⟩

/-! ## Keys and factories -/

/-- The kinds of executors, as they appear in factory keys. -/
inductive ExecutorKind
  | shell
  | deno
  | buildkit
  | containerd
  | kubernetes
  | cargo
  | rustup
  | gitRepo
  | workflow
deriving DecidableEq, Repr

def ExecutorKind.asStr : ExecutorKind → String
  | shell => "shell"
  | deno => "deno"
  | buildkit => "buildkit"
  | containerd => "containerd"
  | kubernetes => "kubernetes"
  | cargo => "cargo"
  | rustup => "rustup"
  | gitRepo => "git_repo"
  | workflow => "workflow"

/-- The key a factory is registered under. -/
def ExecutorKind.key (kind : ExecutorKind) (name : String) : String :=
  "wfe_yaml::" ++ kind.asStr ++ "::" ++ name

/-- What is built from a YAML step: the key of its factory, its serialized configuration and its
factory. -/
structure BuiltStep where
  key : String
  config : Json
  factory : StepFactory

/-- `build_step_config_and_factory`. -/
def buildStepConfigAndFactory (F : Features) (step : YamlStep) (stepType : String) :
    Compiled BuiltStep := do
  let unknown : Compiled BuiltStep := .error (.compilation s!"Unknown step type: '{stepType}'")
  match stepType with
  | "shell" =>
    let config ← buildShellConfig step
    return ⟨ExecutorKind.shell.key step.name, config.toJson, .shell config⟩
  | "deno" =>
    if F.deno then
      let config ← buildDenoConfig step
      return ⟨ExecutorKind.deno.key step.name, config.toJson, .deno config⟩
    else unknown
  | "buildkit" =>
    if F.buildkit then
      let config ← buildBuildkitConfig step
      return ⟨ExecutorKind.buildkit.key step.name, config.toJson, .buildkit config⟩
    else unknown
  | "containerd" =>
    if F.containerd then
      let config ← buildContainerdConfig step
      return ⟨ExecutorKind.containerd.key step.name, config.toJson, .containerd config⟩
    else unknown
  | "kubernetes" | "k8s" =>
    if F.kubernetes then
      let config ← buildKubernetesConfig step
      return ⟨ExecutorKind.kubernetes.key step.name, config.1.toJson,
        .kubernetes config.1 config.2⟩
    else unknown
  | "git-repo" =>
    let config ← buildGitRepoConfig step
    return ⟨ExecutorKind.gitRepo.key step.name, config.toJson, .gitRepo config⟩
  | "workflow" =>
    let config ← buildSubWorkflowConfig step
    return ⟨ExecutorKind.workflow.key step.name, config.toJson, .workflow config⟩
  | _ =>
    if F.rustlang then
      match cargoCommand stepType, rustupCommand stepType with
      | some command, _ =>
        let config := buildCargoConfig step command
        return ⟨ExecutorKind.cargo.key step.name, config.toJson, .cargo config⟩
      | none, some command =>
        let config := buildRustupConfig step command
        return ⟨ExecutorKind.rustup.key step.name, config.toJson, .rustup config⟩
      | none, none => unknown
    else unknown

/-- The step type of a step defaults to `shell`. -/
def buildStep (F : Features) (step : YamlStep) : Compiled BuiltStep :=
  buildStepConfigAndFactory F step (step.stepType.getD "shell")

end Wfe
