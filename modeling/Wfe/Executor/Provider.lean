import Wfe.Library.Program
import Wfe.Models.Instance

/-!
# Provider calls and step bodies

The engine reaches the outside world through its providers: persistence, locks, queues, the
lifecycle publisher and the service provider. Each call is atomic; between two calls the code is
pure. A step body runs over a smaller interface: it reads the clock and the world, and may ask
the host to start a workflow, but does not touch the providers itself.

## Main definitions

* `Request`, `Call`, `Provider`: the provider calls with their replies
* `Action`, `Fallible`: programs over the providers, and those that may fail with a `WfeError`
* `StepBody`, `StepExecutionContext`: step bodies and what they see
* `StepM.runOn`: a step body run by the host

## Main results

* `Provider.meetsE_request`, `Provider.meetsE_attempt`: the monitor logic at the provider calls
-/

namespace Wfe

/-- The operation on whose account a lock is taken or an instance is written. The providers
ignore it. -/
inductive Origin
  | execute
  | event (eventId subscriptionId : String)
  | suspend
  | resume
  | terminate
  | inject
deriving DecidableEq, Repr

/-- Points of the program that are reported to the log. `passAborted` marks where a pass is left
by an error before it persists anything. -/
inductive Diagnostic
  | lockBusy (workflowId : String)
  | releaseFailed (workflowId : String)
  | loadFailed (workflowId : String)
  | definitionMissing (workflowId : String)
  | cannotExecute (workflowId : String)
  | provisionFailed (workflowId : String)
  | injectFailed (workflowId : String)
  | passAborted (workflowId : String) (e : WfeError)
  | executionFailed (workflowId : String) (e : WfeError)
  | eventFailed (eventId : String) (e : WfeError)
deriving DecidableEq, Repr

/-- The requests to the providers that may fail. -/
inductive Request
  | acquireLock (origin : Origin) (resource : String)
  | releaseLock (resource : String)
  | queueWork (id : String) (queue : QueueType)
  | dequeueWork (queue : QueueType)
  | createNewWorkflow (instance_ : WorkflowInstance)
  | persistWorkflow (origin : Origin) (instance_ : WorkflowInstance)
  | persistWorkflowWithSubscriptions (instance_ : WorkflowInstance)
      (subscriptions : List EventSubscription)
  | getWorkflowInstance (id : String)
  | getWorkflowInstanceByName (name : String)
  | nextDefinitionSequence (definitionId : String)
  | persistErrors (errors : List ExecutionError)
  | createEvent (event : Event)
  | getEvent (id : String)
  | markEventProcessed (id : String)
  | getSubscriptions (eventName eventKey : String) (asOf : DateTime)
  | terminateSubscription (id : String)
  | provision (workflowId : String) (services : List ServiceDefinition)
  | teardown (workflowId : String)
deriving DecidableEq, Repr

/-- What a request that succeeds returns. -/
@[reducible] def Request.Value : Request → Type
  | acquireLock _ _ => Bool
  | dequeueWork _ => Option String
  | createNewWorkflow _ | createEvent _ => String
  | getWorkflowInstance _ | getWorkflowInstanceByName _ => WorkflowInstance
  | nextDefinitionSequence _ => Nat
  | getEvent _ => Event
  | getSubscriptions _ _ _ => List EventSubscription
  | provision _ _ => List ServiceEndpoint
  | releaseLock _ | queueWork _ _ | persistWorkflow _ _ | persistWorkflowWithSubscriptions _ _
  | persistErrors _ | markEventProcessed _ | terminateSubscription _ | teardown _ => Unit

/-- The calls of the engine. `ambient` reads the clock and the UUID source. -/
inductive Call
  | ambient
  | external (request : Json)
  | trace (d : Diagnostic)
  | publishLifecycle (e : LifecycleEvent)
  | request (q : Request)
deriving DecidableEq, Repr

/-- The replies of the calls. -/
@[reducible] def Call.Reply : Call → Type
  | ambient => Ambient
  | external _ => Json
  | trace _ | publishLifecycle _ => Unit
  | request q => Except WfeError q.Value

abbrev Provider : Interface := ⟨Call, Call.Reply⟩

/-- A program over the providers. -/
abbrev Action := Program Provider

/-- A program over the providers that may fail, `Result<T>` in the source. -/
abbrev Fallible := ExceptT WfeError Action

namespace Provider

/-- A call that cannot fail. -/
@[simp] def tell (c : Call) : Fallible c.Reply := ExceptT.lift (Program.perform (I := Provider) c)

/-- A request, its failure passed on. -/
@[simp] def ask (q : Request) : Fallible q.Value :=
  ExceptT.mk (Program.perform (I := Provider) (.request q))

/-- `let result = p.await;`: the result of `p` as a value, failures included. -/
def attempt {α : Type} (p : Fallible α) : Fallible (Except WfeError α) := ExceptT.lift p.run

abbrev ambient : Fallible Ambient := tell .ambient

abbrev trace (d : Diagnostic) : Fallible Unit := tell (.trace d)

abbrev publishLifecycle (e : LifecycleEvent) : Fallible Unit := tell (.publishLifecycle e)

abbrev acquireLock (origin : Origin) (resource : String) : Fallible Bool :=
  ask (.acquireLock origin resource)

abbrev releaseLock (resource : String) : Fallible Unit := ask (.releaseLock resource)

abbrev queueWork (id : String) (queue : QueueType) : Fallible Unit := ask (.queueWork id queue)

abbrev dequeueWork (queue : QueueType) : Fallible (Option String) := ask (.dequeueWork queue)

abbrev createNewWorkflow (w : WorkflowInstance) : Fallible String := ask (.createNewWorkflow w)

abbrev persistWorkflow (origin : Origin) (w : WorkflowInstance) : Fallible Unit :=
  ask (.persistWorkflow origin w)

abbrev persistWorkflowWithSubscriptions (w : WorkflowInstance) (subs : List EventSubscription) :
    Fallible Unit :=
  ask (.persistWorkflowWithSubscriptions w subs)

abbrev getWorkflowInstance (id : String) : Fallible WorkflowInstance :=
  ask (.getWorkflowInstance id)

abbrev getWorkflowInstanceByName (name : String) : Fallible WorkflowInstance :=
  ask (.getWorkflowInstanceByName name)

abbrev nextDefinitionSequence (definitionId : String) : Fallible Nat :=
  ask (.nextDefinitionSequence definitionId)

abbrev persistErrors (errors : List ExecutionError) : Fallible Unit := ask (.persistErrors errors)

abbrev createEvent (event : Event) : Fallible String := ask (.createEvent event)

abbrev getEvent (id : String) : Fallible Event := ask (.getEvent id)

abbrev markEventProcessed (id : String) : Fallible Unit := ask (.markEventProcessed id)

abbrev getSubscriptions (eventName eventKey : String) (asOf : DateTime) :
    Fallible (List EventSubscription) :=
  ask (.getSubscriptions eventName eventKey asOf)

abbrev terminateSubscription (id : String) : Fallible Unit := ask (.terminateSubscription id)

abbrev provision (workflowId : String) (services : List ServiceDefinition) :
    Fallible (List ServiceEndpoint) :=
  ask (.provision workflowId services)

abbrev teardown (workflowId : String) : Fallible Unit := ask (.teardown workflowId)

section Rules

open Program

variable {α G : Type} {M : Monitor Provider G} {Q : G → α → Prop} {E : G → WfeError → Prop}
  {g : G}

/-- A request, with its two continuations kept apart. -/
@[simp] theorem meetsE_request {q : Request}
    {k : Except WfeError q.Value → Action (Except WfeError α)} :
    MeetsE M Q E (ExceptT.mk (call (I := Provider) (.request q) k)) g ↔
      M.accept g (.request q) ∧
      (∀ v, M.allow g (.request q) (.ok v) →
        MeetsE M Q E (ExceptT.mk (k (.ok v))) (M.next g (.request q) (.ok v))) ∧
      (∀ e, M.allow g (.request q) (.error e) →
        MeetsE M Q E (ExceptT.mk (k (.error e))) (M.next g (.request q) (.error e))) := by
  constructor
  · rintro ⟨ha, h⟩
    exact ⟨ha, fun v => h (.ok v), fun e => h (.error e)⟩
  · rintro ⟨ha, hv, he⟩
    refine ⟨ha, fun r => ?_⟩
    cases r with
    | ok v => exact hv v
    | error e => exact he e

theorem meetsE_tell_of_keeps {N : G → Prop} {c : Call} (h : M.Keeps N c) (hg : N g) :
    MeetsE M (fun g _ => N g) E (tell c) g := h g hg

theorem meetsE_ask_of_keeps {N : G → Prop} {q : Request} (h : M.Keeps N (.request q)) (hg : N g) :
    MeetsE M (fun g _ => N g) (fun g _ => N g) (ask q) g := by
  refine ⟨(h g hg).1, fun r hr => ?_⟩
  cases r <;> exact (h g hg).2 _ hr

@[simp] theorem meetsE_attempt {p : Fallible α} {Q : G → Except WfeError α → Prop} :
    MeetsE M Q E (attempt p) g ↔
      MeetsE M (fun g a => Q g (.ok a)) (fun g e => Q g (.error e)) p g := by
  rw [attempt, meetsE_lift]
  constructor <;>
  · intro h
    refine Meets.mono h fun g r hr => ?_
    cases r <;> exact hr

/-- A program that may fail, and one that goes on in both cases. -/
theorem meetsE_attempt_bind {p : Fallible α} {f : Except WfeError α → Fallible β}
    {Q : G → α → Prop} {F : G → WfeError → Prop} {R : G → β → Prop} (h : MeetsE M Q F p g)
    (hok : ∀ g a, Q g a → MeetsE M R E (f (.ok a)) g)
    (herror : ∀ g e, F g e → MeetsE M R E (f (.error e)) g) :
    MeetsE M R E (attempt p >>= f) g :=
  meetsE_bind.mpr (meetsE_attempt.mpr (h.mono hok herror))

theorem path_tell_bind {β : Type} {c : Call} {f : c.Reply → Fallible β}
    {tr : List (Exchange Provider)} {r : Except WfeError β} :
    Path (tell c >>= f).run tr r ↔ ∃ v tr', tr = ⟨c, v⟩ :: tr' ∧ Path (f v).run tr' r := by
  rw [tell, path_liftE_bind]
  constructor
  · rintro ⟨tr₁, v, tr₂, rfl, hc, hf⟩
    obtain ⟨v', tr', rfl, hret⟩ := path_call.mp hc
    obtain ⟨rfl, rfl⟩ := path_ret.mp hret
    exact ⟨v, tr₂, rfl, hf⟩
  · rintro ⟨v, tr', rfl, hf⟩
    exact ⟨[⟨c, v⟩], v, tr', rfl, .call _ _ _ _ _ (.ret _), hf⟩

theorem path_ask {q : Request} {tr : List (Exchange Provider)} {r : Except WfeError q.Value} :
    Path (ask q).run tr r ↔ tr = [⟨.request q, r⟩] := by
  rw [ask, ExceptT.run_mk]
  simp

theorem path_attempt {p : Fallible α} {tr : List (Exchange Provider)}
    {r : Except WfeError (Except WfeError α)} :
    Path (attempt p).run tr r ↔ ∃ a, r = .ok a ∧ Path p.run tr a :=
  path_liftE_iff

end Rules

end Provider

/-! ## Step bodies -/

/-- What a step body may ask for. -/
inductive StepCall
  | ambient
  | external (request : Json)
  | startWorkflow (definitionId : String) (version : Nat) (data : Json)
      (parentRootWorkflowId : Option String)

def StepCall.Reply : StepCall → Type
  | ambient => Ambient
  | external _ => Json
  | startWorkflow _ _ _ _ => Except WfeError String

abbrev StepInterface : Interface := ⟨StepCall, StepCall.Reply⟩

abbrev StepM := ExceptT WfeError (Program StepInterface)

/-- The context a step body runs in; `hostContext` says whether a host is at hand. -/
structure StepExecutionContext where
  item : Option Json
  executionPointer : ExecutionPointer
  persistenceData : Option Json
  step : WorkflowStep
  workflow : WorkflowInstance
  definition : WorkflowDefinition
  hostContext : Bool

/-- `StepBody::run`. -/
abbrev StepBody := StepExecutionContext → StepM ExecutionResult

/-- `StepRegistry::resolve`. -/
abbrev StepResolver := String → Option StepBody

/-- The trait `HostContext`. -/
structure HostContext where
  startWorkflow : String → Nat → Json → Option String → Fallible String

/-- A call of a step body, made by the host. -/
def StepCall.runOn (host : Option HostContext) : (c : StepCall) → Action c.Reply
  | ambient => Program.perform (I := Provider) .ambient
  | external request => Program.perform (I := Provider) (.external request)
  | startWorkflow definitionId version data parentRoot =>
    match host with
    | some h => (h.startWorkflow definitionId version data parentRoot).run
    | none => pure (.error (.stepExecution "no host context"))

/-- A step body, its calls made by the host. -/
def StepM.runOn (host : Option HostContext) {α : Type} (p : StepM α) : Action (Except WfeError α) :=
  p.run.translate (I := StepInterface) (StepCall.runOn host)

end Wfe
