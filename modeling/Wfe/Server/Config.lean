import Wfe.Models.Text
import Wfe.Server.Auth

/-!
# Server configuration

The configuration of the server is read from a file and overridden by command-line options. An
option that is given sets what it names, and what no option names is the file's, except for the
places where a backend is selected: the location of the store and the URL of the queue.

## Main definitions

* `Cli`, `ServerConfig`: the options and the configuration
* `load`: the configuration of a run
* `Overrides`: options override only what they name
* `Restated`: the options under which they do

## Main results

* `load_overrides_iff`: options override only what they name exactly under these options
-/

namespace Wfe.Server

/-- Socket addresses and paths are only copied, and kept as text. -/
abbrev SocketAddr := String

abbrev PathBuf := String

structure Cli where
  config : PathBuf := "wfe-server.toml"
  grpcAddr : Option SocketAddr := none
  httpAddr : Option SocketAddr := none
  persistence : Option String := none
  dbUrl : Option String := none
  dbSchema : Option String := none
  dbTablePrefix : Option String := none
  queue : Option String := none
  queueUrl : Option String := none
  searchUrl : Option String := none
  workflowsDir : Option PathBuf := none
  authTokens : Option String := none

inductive PersistenceConfig
  | sqlite (path : String)
  | postgres (url schema tablePrefix : String)
deriving DecidableEq, Repr

inductive QueueConfig
  | inMemory
  | valkey (url : String)
deriving DecidableEq, Repr

structure SearchConfig where
  url : String
deriving DecidableEq, Repr

structure WebhookTrigger where
  source : String
  event : String
  matchRef : Option String
  workflowId : String
  version : Nat
  dataMapping : List (String × String)
deriving DecidableEq, Repr

structure WebhookConfig where
  triggers : List WebhookTrigger
deriving DecidableEq, Repr

structure ServerConfig where
  grpcAddr : SocketAddr
  httpAddr : SocketAddr
  persistence : PersistenceConfig
  queue : QueueConfig
  search : Option SearchConfig
  auth : AuthConfig
  webhook : WebhookConfig
  workflowsDir : Option PathBuf
deriving DecidableEq, Repr

def defaultPostgresSchema : String := "wfc"

/-- `ServerConfig::default`. -/
def ServerConfig.default : ServerConfig where
  grpcAddr := "0.0.0.0:50051"
  httpAddr := "0.0.0.0:8080"
  persistence := .sqlite "wfe.db"
  queue := .inMemory
  search := none
  auth := ⟨[], none, none⟩
  webhook := ⟨[]⟩
  workflowsDir := none

/-! ## Loading -/

/-- The schema and the table prefix that the file set, or else their defaults. -/
def PersistenceConfig.carried : PersistenceConfig → String × String
  | .postgres _ schema tablePrefix => (schema, tablePrefix)
  | .sqlite _ => (defaultPostgresSchema, "")

/-- The store of either backend at the location, with the schema and the prefix carried over. -/
def PersistenceConfig.reselect (file : PersistenceConfig) (postgres : Bool) (location : String) :
    PersistenceConfig :=
  if postgres then .postgres location file.carried.1 file.carried.2 else .sqlite location

/-- "Persistence override": the backend is the named one, or else inferred from the URL. -/
def overridePersistence (cli : Cli) (file : PersistenceConfig) : PersistenceConfig :=
  match cli.persistence with
  | some backend => file.reselect (backend = "postgres") (cli.dbUrl.getD "wfe.db")
  | none =>
    match cli.dbUrl with
    | some url => file.reselect ("postgres".toList.isPrefixOf url.toList) url
    | none => file

/-- "Postgres schema / table-prefix fine-tuning, whichever way the backend was selected". -/
def tunePostgres (cli : Cli) : PersistenceConfig → PersistenceConfig
  | .postgres url schema tablePrefix =>
    .postgres url (cli.dbSchema.getD schema) (cli.dbTablePrefix.getD tablePrefix)
  | .sqlite path => .sqlite path

/-- "Queue override". -/
def overrideQueue (cli : Cli) (file : QueueConfig) : QueueConfig :=
  match cli.queue with
  | some backend =>
    if backend = "valkey" ∨ backend = "redis" then
      .valkey (cli.queueUrl.getD "redis://127.0.0.1:6379")
    else .inMemory
  | none => file

/-- The tokens of the option, between commas. -/
def splitTokens (tokens : String) : List String :=
  ((Text.split tokens ',').map Text.trim).filter (· ≠ "")

/-- The overrides of `load`, in its order. -/
def override (cli : Cli) (config : ServerConfig) : ServerConfig :=
  { config with
    grpcAddr := cli.grpcAddr.getD config.grpcAddr
    httpAddr := cli.httpAddr.getD config.httpAddr
    workflowsDir := cli.workflowsDir.or config.workflowsDir
    persistence := tunePostgres cli (overridePersistence cli config.persistence)
    queue := overrideQueue cli config.queue
    search := (cli.searchUrl.map SearchConfig.mk).or config.search
    auth := { config.auth with
      tokens := (cli.authTokens.map splitTokens).getD config.auth.tokens } }

/-- The configuration of the file, or the default one if there is none. A file that cannot be read
or parsed panics. `file` is what reading it gives, and `parse` is `toml::from_str`. -/
def fileConfig (parse : String → Except String ServerConfig) (cli : Cli)
    (file : Option (Except String String)) : Except String ServerConfig :=
  match file with
  | none => .ok .default
  | some (.error e) => .error s!"failed to read config file {cli.config}: {e}"
  | some (.ok content) =>
    match parse content with
    | .ok config => .ok config
    | .error e => .error s!"failed to parse config file {cli.config}: {e}"

/-- `load`, with the message of its panic. -/
def load (parse : String → Except String ServerConfig) (cli : Cli)
    (file : Option (Except String String)) : Except String ServerConfig := do
  return override cli (← fileConfig parse cli file)

/-! ## The settings -/

inductive PersistenceBackend
  | sqlite
  | postgres
deriving DecidableEq, Repr

/-- "Persistence backend: sqlite or postgres." -/
def PersistenceBackend.named (name : String) : Option PersistenceBackend :=
  if name = "sqlite" then some .sqlite else if name = "postgres" then some .postgres else none

inductive QueueBackend
  | memory
  | valkey
deriving DecidableEq, Repr

/-- "Queue backend: memory or valkey.", and its other name. -/
def QueueBackend.named (name : String) : Option QueueBackend :=
  if name = "memory" then some .memory
  else if name = "valkey" ∨ name = "redis" then some .valkey
  else none

namespace PersistenceConfig

def backend : PersistenceConfig → PersistenceBackend
  | .sqlite _ => .sqlite
  | .postgres .. => .postgres

/-- The URL or path. -/
def location : PersistenceConfig → String
  | .sqlite path => path
  | .postgres url .. => url

def schema : PersistenceConfig → Option String
  | .sqlite _ => none
  | .postgres _ schema _ => some schema

def tablePrefix : PersistenceConfig → Option String
  | .sqlite _ => none
  | .postgres _ _ tablePrefix => some tablePrefix

end PersistenceConfig

namespace QueueConfig

def backend : QueueConfig → QueueBackend
  | .inMemory => .memory
  | .valkey _ => .valkey

def url : QueueConfig → Option String
  | .inMemory => none
  | .valkey url => some url

end QueueConfig

/-- The law of one setting: the option's value if it is given and applies, and else the file's if
the backend is the file's. -/
structure Merged {α : Type} (given : Option α) (applies sameBackend : Prop) (file result : α) :
    Prop where
  of_given : ∀ value, given = some value → applies → result = value
  of_file : given = none ∨ ¬ applies → sameBackend → result = file

/-- **Options override only what they name.** -/
structure Overrides (cli : Cli) (file result : ServerConfig) : Prop where
  grpcAddr : Merged cli.grpcAddr True True file.grpcAddr result.grpcAddr
  httpAddr : Merged cli.httpAddr True True file.httpAddr result.httpAddr
  workflowsDir : Merged (cli.workflowsDir.map some) True True file.workflowsDir result.workflowsDir
  persistence : Merged (cli.persistence.map PersistenceBackend.named) True
    (file.persistence.backend = result.persistence.backend)
    (some file.persistence.backend) (some result.persistence.backend)
  location : Merged cli.dbUrl True (file.persistence.backend = result.persistence.backend)
    file.persistence.location result.persistence.location
  schema : Merged (cli.dbSchema.map some) (result.persistence.backend = .postgres)
    (file.persistence.backend = result.persistence.backend)
    file.persistence.schema result.persistence.schema
  tablePrefix : Merged (cli.dbTablePrefix.map some) (result.persistence.backend = .postgres)
    (file.persistence.backend = result.persistence.backend)
    file.persistence.tablePrefix result.persistence.tablePrefix
  queue : Merged (cli.queue.map QueueBackend.named) True
    (file.queue.backend = result.queue.backend)
    (some file.queue.backend) (some result.queue.backend)
  queueUrl : Merged (cli.queueUrl.map some) (result.queue.backend = .valkey)
    (file.queue.backend = result.queue.backend) file.queue.url result.queue.url
  search : Merged (cli.searchUrl.map (some ⟨·⟩)) True True file.search result.search
  tokens : Merged (cli.authTokens.map splitTokens) True True file.auth.tokens result.auth.tokens

/-- The options under which this is so. A store or a queue that is selected by name has a known one.
If it is the file's, its location is given too or is the default, and the URL of a queue is given
together with its backend or is the file's. -/
structure Restated (cli : Cli) (file : ServerConfig) : Prop where
  persistence : ∀ name ∈ cli.persistence, PersistenceBackend.named name ≠ none
  location : ∀ name ∈ cli.persistence, cli.dbUrl = none →
    PersistenceBackend.named name = some file.persistence.backend →
    file.persistence.location = "wfe.db"
  queue : ∀ name ∈ cli.queue, QueueBackend.named name ≠ none
  queueUrl : ∀ name ∈ cli.queue, cli.queueUrl = none → QueueBackend.named name = some .valkey →
    ∀ url ∈ file.queue.url, url = "redis://127.0.0.1:6379"
  queueSelected : cli.queue = none → ∀ url ∈ cli.queueUrl, ∀ url' ∈ file.queue.url, url' = url

/-! ## Which settings are merged -/

theorem merged_getD {α : Type} (given : Option α) (file : α) :
    Merged given True True file (given.getD file) := by
  cases given with
  | none => exact ⟨fun _ h _ => (by cases h), fun _ _ => rfl⟩
  | some value => exact ⟨fun _ h _ => Option.some.inj h, fun h _ => (by simp at h)⟩

theorem merged_map_or {α β : Type} (f : α → β) (given : Option α) (file : Option β) :
    Merged (given.map fun a => some (f a)) True True file ((given.map f).or file) := by
  cases given with
  | none => exact ⟨fun _ h _ => (by cases h), fun _ _ => rfl⟩
  | some value => exact ⟨fun _ h _ => Option.some.inj h, fun h _ => (by simp at h)⟩

section Persistence

variable (cli : Cli) (file : PersistenceConfig)

@[simp] theorem backend_tunePostgres : (tunePostgres cli file).backend = file.backend := by
  cases file <;> rfl

@[simp] theorem location_tunePostgres : (tunePostgres cli file).location = file.location := by
  cases file <;> rfl

@[simp] theorem schema_tunePostgres :
    (tunePostgres cli file).schema = file.schema.map cli.dbSchema.getD := by
  cases file <;> rfl

@[simp] theorem tablePrefix_tunePostgres :
    (tunePostgres cli file).tablePrefix = file.tablePrefix.map cli.dbTablePrefix.getD := by
  cases file <;> rfl

@[simp] theorem backend_reselect (postgres : Bool) (location : String) :
    (file.reselect postgres location).backend = if postgres then .postgres else .sqlite := by
  cases postgres <;> rfl

@[simp] theorem location_reselect (postgres : Bool) (location : String) :
    (file.reselect postgres location).location = location := by
  cases postgres <;> rfl

/-- The schema and the prefix are kept as long as the backend is. -/
theorem carried_reselect {postgres : Bool} {location : String}
    (hbackend : file.backend = (file.reselect postgres location).backend) :
    (file.reselect postgres location).schema = file.schema ∧
      (file.reselect postgres location).tablePrefix = file.tablePrefix := by
  cases file <;> cases postgres <;> first | exact ⟨rfl, rfl⟩ | cases hbackend

theorem carried_overridePersistence
    (hbackend : file.backend = (overridePersistence cli file).backend) :
    (overridePersistence cli file).schema = file.schema ∧
      (overridePersistence cli file).tablePrefix = file.tablePrefix := by
  unfold overridePersistence at hbackend ⊢
  cases hname : cli.persistence with
  | some name =>
    simp only [hname] at hbackend
    exact carried_reselect file hbackend
  | none =>
    cases hurl : cli.dbUrl with
    | some url =>
      simp only [hname, hurl] at hbackend
      exact carried_reselect file hbackend
    | none => exact ⟨rfl, rfl⟩

/-- A store that is selected by a known name is that one. -/
theorem named_persistence {name : String} (hname : cli.persistence = some name) :
    PersistenceBackend.named name ≠ none ↔
      PersistenceBackend.named name = some (overridePersistence cli file).backend := by
  simp only [overridePersistence, hname, backend_reselect, PersistenceBackend.named]
  by_cases hs : name = "sqlite"
  · simp [hs]
  · by_cases hp : name = "postgres" <;> simp [hs, hp]

theorem location_of_dbUrl {url : String} (hurl : cli.dbUrl = some url) :
    (overridePersistence cli file).location = url := by
  unfold overridePersistence
  cases cli.persistence <;> simp [hurl]

theorem location_of_persistence {name : String} (hname : cli.persistence = some name)
    (hurl : cli.dbUrl = none) : (overridePersistence cli file).location = "wfe.db" := by
  simp [overridePersistence, hname, hurl]

/-- The location is merged unless a backend is selected by name without one. -/
theorem merged_location_iff :
    Merged cli.dbUrl True (file.backend = (overridePersistence cli file).backend) file.location
        (overridePersistence cli file).location ↔
      ∀ name ∈ cli.persistence, cli.dbUrl = none →
        file.backend = (overridePersistence cli file).backend → file.location = "wfe.db" := by
  constructor
  · intro h name hname hurl hbackend
    rw [← h.of_file (.inl hurl) hbackend, location_of_persistence cli file hname hurl]
  · intro h
    refine ⟨fun url hurl _ => location_of_dbUrl cli file hurl, fun hgiven hbackend => ?_⟩
    have hurl : cli.dbUrl = none := hgiven.resolve_right (not_not_intro trivial)
    cases hname : cli.persistence with
    | some name =>
      rw [location_of_persistence cli file hname hurl, h name hname hurl hbackend]
    | none => simp [overridePersistence, hname, hurl]

/-- The fine-tuning merges what is carried over. -/
theorem merged_map_getD {given setting carried : Option String} {postgres sameBackend : Prop}
    (hcarried : sameBackend → carried = setting) (hsome : postgres ↔ carried.isSome = true) :
    Merged (given.map some) postgres sameBackend setting (carried.map given.getD) := by
  constructor
  · intro value hvalue hpostgres
    obtain ⟨given, rfl, rfl⟩ := Option.map_eq_some_iff.mp hvalue
    obtain ⟨carried, rfl⟩ := Option.isSome_iff_exists.mp (hsome.mp hpostgres)
    rfl
  · intro hgiven hsame
    rw [← hcarried hsame]
    rcases hgiven with hnone | hsqlite
    · rw [Option.map_eq_none_iff.mp hnone]
      cases carried <;> rfl
    · rw [hsome, Option.not_isSome_iff_eq_none] at hsqlite
      rw [hsqlite, Option.map_none]

theorem backend_eq_postgres_iff :
    (file.backend = .postgres ↔ file.schema.isSome = true) ∧
      (file.backend = .postgres ↔ file.tablePrefix.isSome = true) := by
  cases file <;> simp [PersistenceConfig.backend, PersistenceConfig.schema,
    PersistenceConfig.tablePrefix]

end Persistence

section Queue

variable (cli : Cli) (file : QueueConfig)

theorem eq_valkey_of_backend {file : QueueConfig} (h : file.backend = .valkey) :
    ∃ url, file = .valkey url := by
  cases file with
  | inMemory => cases h
  | valkey url => exact ⟨url, rfl⟩

theorem eq_valkey_of_url {file : QueueConfig} {url : String} (h : url ∈ file.url) :
    ∃ url, file = .valkey url := by
  cases file with
  | inMemory => cases h
  | valkey url => exact ⟨url, rfl⟩

/-- A queue that is selected by a known name is that one. -/
theorem named_queue {name : String} (hname : cli.queue = some name) :
    QueueBackend.named name ≠ none ↔
      QueueBackend.named name = some (overrideQueue cli file).backend := by
  simp only [overrideQueue, hname, QueueBackend.named]
  by_cases hm : name = "memory"
  · simp [hm, QueueConfig.backend]
  · by_cases hv : name = "valkey" ∨ name = "redis" <;> simp [hm, hv, QueueConfig.backend]

theorem url_of_named {name : String} (hname : cli.queue = some name)
    (hvalkey : QueueBackend.named name = some .valkey) :
    overrideQueue cli file = .valkey (cli.queueUrl.getD "redis://127.0.0.1:6379") := by
  have hv : name = "valkey" ∨ name = "redis" := by
    by_contra hv
    unfold QueueBackend.named at hvalkey
    split_ifs at hvalkey
    cases hvalkey
  simp only [overrideQueue, hname, if_pos hv]

/-- Without a backend, the URL of the queue is not overridden. -/
theorem merged_queueUrl_of_none (hname : cli.queue = none) :
    Merged (cli.queueUrl.map some) ((overrideQueue cli file).backend = .valkey)
        (file.backend = (overrideQueue cli file).backend) file.url (overrideQueue cli file).url ↔
      ∀ url ∈ cli.queueUrl, ∀ url' ∈ file.url, url' = url := by
  have hfile : overrideQueue cli file = file := by rw [overrideQueue, hname]
  rw [hfile]
  constructor
  · intro h url hurl url' hurl'
    obtain ⟨url', rfl⟩ := eq_valkey_of_url hurl'
    have hgiven := h.of_given (some url) (by rw [Option.mem_def.mp hurl]; rfl) rfl
    exact Option.some.inj ((Option.mem_def.mp hurl').symm.trans hgiven)
  · intro h
    refine ⟨fun value hvalue hvalkey => ?_, fun _ _ => rfl⟩
    obtain ⟨url, hurl, rfl⟩ := Option.map_eq_some_iff.mp hvalue
    obtain ⟨url', rfl⟩ := eq_valkey_of_backend hvalkey
    exact congrArg some (h url hurl url' rfl)

/-- With a backend, the URL of the queue is overridden even if none is given. -/
theorem merged_queueUrl_of_some {name : String} (hname : cli.queue = some name)
    (hnamed : QueueBackend.named name = some (overrideQueue cli file).backend) :
    Merged (cli.queueUrl.map some) ((overrideQueue cli file).backend = .valkey)
        (file.backend = (overrideQueue cli file).backend) file.url (overrideQueue cli file).url ↔
      (cli.queueUrl = none → QueueBackend.named name = some .valkey →
        ∀ url ∈ file.url, url = "redis://127.0.0.1:6379") := by
  constructor
  · intro h hurl hvalkey url hurl'
    obtain ⟨url, rfl⟩ := eq_valkey_of_url hurl'
    have hresult := url_of_named cli (.valkey url) hname hvalkey
    have hfile := h.of_file (.inl (by rw [hurl]; rfl)) (by rw [hresult]; rfl)
    rw [hresult, hurl] at hfile
    obtain rfl := Option.some.inj hurl'
    exact (Option.some.inj hfile).symm
  · intro h
    constructor
    · intro value hvalue hvalkey
      obtain ⟨url, hurl, rfl⟩ := Option.map_eq_some_iff.mp hvalue
      rw [url_of_named cli file hname (hnamed.trans (congrArg some hvalkey)), hurl]
      rfl
    · intro hgiven hsame
      cases hresult : overrideQueue cli file with
      | inMemory =>
        rw [hresult] at hsame
        cases file with
        | inMemory => rfl
        | valkey url => cases hsame
      | valkey url =>
        rw [hresult] at hsame hgiven hnamed
        obtain ⟨url', rfl⟩ := eq_valkey_of_backend hsame
        have hnone : cli.queueUrl = none := by
          rcases hgiven with hnone | hmemory
          · exact Option.map_eq_none_iff.mp hnone
          · exact absurd rfl hmemory
        rw [url_of_named cli _ hname hnamed, hnone] at hresult
        obtain rfl := QueueConfig.valkey.inj hresult
        exact congrArg some (h hnone hnamed url' rfl).symm

/-- The URL of the queue is merged unless it is given without a backend, or a backend without
one. -/
theorem merged_queueUrl_iff
    (hknown : ∀ name ∈ cli.queue, QueueBackend.named name = some (overrideQueue cli file).backend) :
    Merged (cli.queueUrl.map some) ((overrideQueue cli file).backend = .valkey)
        (file.backend = (overrideQueue cli file).backend) file.url (overrideQueue cli file).url ↔
      (∀ name ∈ cli.queue, cli.queueUrl = none → QueueBackend.named name = some .valkey →
        ∀ url ∈ file.url, url = "redis://127.0.0.1:6379") ∧
      (cli.queue = none → ∀ url ∈ cli.queueUrl, ∀ url' ∈ file.url, url' = url) := by
  cases hname : cli.queue with
  | none =>
    rw [merged_queueUrl_of_none cli file hname]
    simp
  | some name =>
    rw [merged_queueUrl_of_some cli file hname (hknown name hname)]
    simp

end Queue

/-! ## The law -/

/-- A backend's setting is merged exactly if its name is known. -/
theorem merged_backend_iff {β : Type} {option : Option String} {named : String → Option β}
    {file result : β} (hnamed : ∀ name ∈ option, named name ≠ none ↔ named name = some result) :
    Merged (option.map named) True (file = result) (some file) (some result) ↔
      ∀ name ∈ option, named name ≠ none := by
  constructor
  · intro h name hname
    have hgiven := h.of_given (named name) (by rw [Option.mem_def.mp hname]; rfl) trivial
    rw [← hgiven]
    exact Option.some_ne_none result
  · intro h
    refine ⟨fun value hvalue _ => ?_, fun _ hsame => congrArg some hsame.symm⟩
    obtain ⟨name, hname, rfl⟩ := Option.map_eq_some_iff.mp hvalue
    exact ((hnamed name hname).mp (h name hname)).symm

section Override

variable (cli : Cli) (file : ServerConfig)

theorem persistence_named_iff : ∀ name ∈ cli.persistence, PersistenceBackend.named name ≠ none ↔
    PersistenceBackend.named name = some (overridePersistence cli file.persistence).backend :=
  fun _ hname => named_persistence cli file.persistence hname

theorem queue_named_iff : ∀ name ∈ cli.queue, QueueBackend.named name ≠ none ↔
    QueueBackend.named name = some (overrideQueue cli file.queue).backend :=
  fun _ hname => named_queue cli file.queue hname

variable {cli file}

theorem Overrides.restated (h : Overrides cli file (override cli file)) : Restated cli file := by
  have hstore := (merged_backend_iff (persistence_named_iff cli file)).mp
    (by simpa [override] using h.persistence)
  have hknown := (merged_backend_iff (queue_named_iff cli file)).mp h.queue
  have hlocation := (merged_location_iff cli file.persistence).mp
    (by simpa [override] using h.location)
  have hurl := (merged_queueUrl_iff cli file.queue
    fun name hname => (queue_named_iff cli file name hname).mp (hknown name hname)).mp h.queueUrl
  refine ⟨hstore, fun name hname hdb hnamed => ?_, hknown, hurl.1, hurl.2⟩
  have hresult := (persistence_named_iff cli file name hname).mp (hstore name hname)
  exact hlocation name hname hdb (Option.some.inj (hnamed.symm.trans hresult))

theorem Restated.overrides (h : Restated cli file) : Overrides cli file (override cli file) := by
  have hcarried := carried_overridePersistence cli file.persistence
  exact
    { grpcAddr := merged_getD _ _
      httpAddr := merged_getD _ _
      workflowsDir := by
        simpa [override] using merged_map_or id cli.workflowsDir file.workflowsDir
      persistence := by
        simpa [override] using
          (merged_backend_iff (persistence_named_iff cli file)).mpr h.persistence
      location := by
        simp only [override, backend_tunePostgres, location_tunePostgres]
        refine (merged_location_iff cli file.persistence).mpr fun name hname hdb hsame => ?_
        refine h.location name hname hdb ?_
        rw [(persistence_named_iff cli file name hname).mp (h.persistence name hname), hsame]
      schema := by
        simp only [override, backend_tunePostgres, schema_tunePostgres]
        exact merged_map_getD (fun hsame => (hcarried hsame).1) (backend_eq_postgres_iff _).1
      tablePrefix := by
        simp only [override, backend_tunePostgres, tablePrefix_tunePostgres]
        exact merged_map_getD (fun hsame => (hcarried hsame).2) (backend_eq_postgres_iff _).2
      queue := (merged_backend_iff (queue_named_iff cli file)).mpr h.queue
      queueUrl := (merged_queueUrl_iff cli file.queue
        fun name hname => (queue_named_iff cli file name hname).mp (h.queue name hname)).mpr
        ⟨h.queueUrl, h.queueSelected⟩
      search := merged_map_or SearchConfig.mk _ _
      tokens := merged_getD _ _ }

end Override

theorem override_overrides_iff (cli : Cli) (file : ServerConfig) :
    Overrides cli file (override cli file) ↔ Restated cli file :=
  ⟨Overrides.restated, Restated.overrides⟩

/-- **When options override only what they name.** For every file that parses and all options, each
setting of the loaded configuration is the option's where one is given and applies, and else the
file's as long as the backend is, exactly if the options are `Restated`. -/
theorem load_overrides_iff (parse : String → Except String ServerConfig) (cli : Cli)
    (file : Option (Except String String)) {config : ServerConfig}
    (hread : fileConfig parse cli file = .ok config) :
    ∃ result, load parse cli file = .ok result ∧
      (Overrides cli config result ↔ Restated cli config) := by
  refine ⟨override cli config, ?_, override_overrides_iff cli config⟩
  rw [load, hread]
  rfl

/-- A configuration file with a Postgres store. -/
def postgresFile : ServerConfig :=
  { ServerConfig.default with persistence := .postgres "postgres://db/wfe" "wfc" "" }

/-- Options for another queue and a table prefix, which leave the URL of the store alone. -/
def prefixedQueue : Cli := { queue := some "valkey", dbTablePrefix := some "app_" }

theorem load_overrides_prefixedQueue :
    ∃ result, load (fun _ => .ok postgresFile) prefixedQueue (some (.ok "")) = .ok result ∧
      result.persistence = .postgres "postgres://db/wfe" "wfc" "app_" ∧
      Overrides prefixedQueue postgresFile result := by
  obtain ⟨result, hload, hiff⟩ := load_overrides_iff (fun _ => .ok postgresFile) prefixedQueue
    (some (.ok "")) rfl
  obtain rfl := Except.ok.inj hload
  refine ⟨_, rfl, by decide, hiff.mpr ?_⟩
  constructor
  · intro name hname
    cases hname
  · intro name hname
    cases hname
  · intro name hname
    cases hname
    decide
  · intro name _ _ _ url hurl
    cases hurl
  · intro hnone
    cases hnone

/-- The Postgres store of the file is selected again by name, and its URL is lost. -/
theorem load_loses_url :
    ∃ result, load (fun _ => .ok postgresFile) { persistence := some "postgres" } (some (.ok "")) =
        .ok result ∧
      result.persistence = .postgres "wfe.db" "wfc" "" ∧
      ¬ Overrides { persistence := some "postgres" } postgresFile result := by
  refine ⟨_, rfl, by decide, fun h => ?_⟩
  have hlocation := h.location.of_file (.inl rfl) rfl
  revert hlocation
  decide

end Wfe.Server
