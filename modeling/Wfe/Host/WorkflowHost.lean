import Wfe.Executor.PassCalls
import Wfe.Host.Providers
import Wfe.Host.Registry

/-!
# The workflow host

`WorkflowHost`: what applications call, and the two consumers that `start` spawns. Each entry
point is a program over the providers; one round of a consumer loop is an operation of its own,
since a consumer keeps nothing between two rounds. The operations of all hosts run against the
same shared providers.

## Main definitions

* `WorkflowHost`, `WorkflowHost.hostContext`: a host, and what step bodies see of it
* `startWorkflowWithName`, `publishEvent`, `suspendWorkflow`, `resumeWorkflow`,
  `terminateWorkflow`: the entry points
* `consumeWorkflow`, `consumeEvent`: one round of the two consumers
* `processEvent`, `deliverEvent`: the delivery of an event
* `Operation`, `hosts`: the operations, and the machine they run on
-/

namespace Wfe

open Program Provider

/-- `ServiceProvider`, as far as the capability check asks it. -/
structure ServiceProvider where
  canProvision : List ServiceDefinition → Bool

structure WorkflowHost where
  registry : WorkflowRegistry
  stepRegistry : StepRegistry StepBody
  serviceProvider : Option ServiceProvider

/-! ## Starting workflows -/

/-- The value stored under `_wfe_shared_volume`. -/
def SharedVolume.toJson (sv : SharedVolume) : Json :=
  .object (("mount_path", .string sv.mountPath) ::
    (sv.size.map fun size => ("size", Json.string size)).toList)

/-- Stashes the shared volume of a definition in the workflow data. -/
def stashSharedVolume (definition : WorkflowDefinition) (data : Json) : Json :=
  match definition.sharedVolume, data with
  | some sv, .object m => .object (Object.insert "_wfe_shared_volume" sv.toJson m)
  | _, _ => data

namespace WorkflowHost

/-- A new child of a workflow, at the first step of its definition. -/
def newChild (env : Ambient) (definition : WorkflowDefinition) (definitionId : String)
    (version : Nat) (data : Json) (parentRootWorkflowId : Option String) : WorkflowInstance :=
  { WorkflowInstance.new env definitionId version data with
    executionPointers :=
      if definition.steps = [] then [] else [ExecutionPointer.new (env.uuid 1) 0]
    rootWorkflowId := parentRootWorkflowId }

/-- `HostContextImpl::start_workflow`: starts a child workflow. -/
def startChild (h : WorkflowHost) (definitionId : String) (version : Nat) (data : Json)
    (parentRootWorkflowId : Option String) : Fallible String :=
  match h.registry.getDefinition definitionId version with
  | none => throw (.definitionNotFound definitionId version)
  | some definition => do
    let env ← ambient
    let instance_ := newChild env definition definitionId version data parentRootWorkflowId
    let n ← nextDefinitionSequence definitionId
    let id ← createNewWorkflow { instance_ with name := s!"{definitionId}-{n}" }
    queueWork id .workflow
    return id

def hostContext (h : WorkflowHost) : HostContext := ⟨h.startChild⟩

/-- A child is queued as soon as it is stored. -/
theorem hostContext_starts (h : WorkflowHost) (workflowId : String) :
    HostContext.Starts (some h.hostContext) workflowId := by
  rintro _ ⟨⟩ definitionId version data parentRoot
  refine meetsE_run.mp ?_
  change MeetsE _ _ _ (h.startChild definitionId version data parentRoot) _
  unfold startChild
  split
  · rfl
  · refine meetsE_loop_tell trivial fun env => ?_
    simp [-bind_pure_comp, loopMonitor, Call.quiet, newChild, WorkflowInstance.new]

/-- The name of a new instance: a non-empty override, else numbered by definition. -/
def instanceName (definitionId : String) : Option String → Fallible String
  | some n =>
    if Text.trim n = "" then
      throw (.stepExecution "workflow name override must be non-empty")
    else return n
  | none => do
    let n ← nextDefinitionSequence definitionId
    return s!"{definitionId}-{n}"

/-- A new instance of a definition, at its first step. -/
def newInstance (env : Ambient) (definition : WorkflowDefinition) (definitionId : String)
    (version : Nat) (data : Json) : WorkflowInstance :=
  { WorkflowInstance.new env definitionId version data with
    executionPointers :=
      if definition.steps = [] then []
      else [{ ExecutionPointer.new (env.uuid 1) 0 with
        stepName := definition.steps.head?.bind WorkflowStep.name }]
    data := stashSharedVolume definition data }

def startWorkflowWithName (h : WorkflowHost) (definitionId : String) (version : Nat) (data : Json)
    (nameOverride : Option String) : Fallible String :=
  match h.registry.getDefinition definitionId version with
  | none => throw (.definitionNotFound definitionId version)
  | some definition => do
    let env ← ambient
    let name ← instanceName definitionId nameOverride
    let id ← createNewWorkflow
      { newInstance env definition definitionId version data with name := name }
    queueWork id .workflow
    publishLifecycle ⟨id, definitionId, version, .started⟩
    return id

section Rules

variable {G : Type} {M : Monitor Provider G} {N : G → Prop}

/-- Naming an instance under a monitor whose states `N` are kept by quiet calls. -/
theorem meetsE_instanceName
    (hN : ∀ c : Call, c.quiet → M.Keeps N c)
    (definitionId : String) (nameOverride : Option String) {g : G} (hg : N g) :
    MeetsE M (fun g _ => N g) (fun g _ => N g) (instanceName definitionId nameOverride) g := by
  cases nameOverride with
  | some n =>
    simp only [instanceName]
    split <;> exact hg
  | none =>
    exact meetsE_bind.mpr (meetsE_ask_of_keeps (hN _ trivial) hg)

/-- Starting a workflow under a monitor whose states `N` are kept by quiet calls and by storing
and queueing a new instance. -/
theorem meetsE_startWorkflowWithName
    (hN : ∀ c : Call, c.quiet → M.Keeps N c)
    (hchild : ∀ g w, N g → w.status = .runnable →
      MeetsE M (fun g _ => N g) (fun g _ => N g)
        (createNewWorkflow w >>= fun id => queueWork id .workflow) g)
    (h : WorkflowHost) (definitionId : String) (version : Nat) (data : Json)
    (nameOverride : Option String) {g : G} (hg : N g) :
    MeetsE M (fun g _ => N g) (fun g _ => N g)
      (h.startWorkflowWithName definitionId version data nameOverride) g := by
  unfold startWorkflowWithName
  split
  · exact hg
  · refine (meetsE_tell_of_keeps (hN .ambient trivial) hg).bind ?_
    intro g env hg
    refine (meetsE_instanceName hN definitionId nameOverride hg).bind ?_
    intro g name hg
    refine (meetsE_bind.mp (hchild g _ hg rfl)).bind ?_
    intro g id hid
    refine hid.bind fun g _ hg => ?_
    exact meetsE_bind.mpr (meetsE_tell_of_keeps (hN (.publishLifecycle _) trivial) hg)

end Rules

end WorkflowHost

/-! ## Changes from outside -/

/-- `get_workflow`: by id, then by name. -/
def getWorkflow (idOrName : String) : Fallible WorkflowInstance := do
  match ← attempt (getWorkflowInstance idOrName) with
  | .ok w => return w
  | .error (.workflowNotFound _) => getWorkflowInstanceByName idOrName
  | .error e => throw e

def suspendWorkflow (idOrName : String) : Fallible Bool := do
  let w ← getWorkflow idOrName
  if w.status ≠ .runnable then return false
  else
    persistWorkflow .suspend { w with status := .suspended }
    publishLifecycle (lifecycleOf w .suspended)
    return true

def resumeWorkflow (idOrName : String) : Fallible Bool := do
  let w ← getWorkflow idOrName
  if w.status ≠ .suspended then return false
  else
    -- Only the status changes; no pointer does.
    persistWorkflow .resume { w with status := .runnable }
    queueWork w.id .workflow
    publishLifecycle (lifecycleOf w .resumed)
    return true

def terminateWorkflow (idOrName : String) : Fallible Bool := do
  let w ← getWorkflow idOrName
  if w.status = .complete ∨ w.status = .terminated then return false
  else
    -- There is no lock around the load and the write.
    let env ← ambient
    persistWorkflow .terminate { w with status := .terminated, completeTime := some env.now }
    publishLifecycle (lifecycleOf w .terminated)
    return true

def publishEvent (eventName eventKey : String) (data : Json) : Fallible Unit := do
  let env ← ambient
  let id ← createEvent (Event.new env eventName eventKey data)
  queueWork id .event

/-! ## The event consumer -/

/-- Hands the data of an event to the pointer of a subscription, if it is still waiting. -/
def deliverEvent (event : Event) (sub : EventSubscription) (w : WorkflowInstance) :
    WorkflowInstance :=
  { w with
    executionPointers := w.executionPointers.map fun p =>
      if p.id = sub.executionPointerId ∧ p.status = .waitingForEvent then
        { p with eventData := some event.eventData, eventPublished := true, active := true }
      else p
    nextExecution := some 0 }

@[simp] theorem deliverEvent_id (event : Event) (sub : EventSubscription) (w : WorkflowInstance) :
    (deliverEvent event sub w).id = w.id := rfl

@[simp] theorem deliverEvent_status (event : Event) (sub : EventSubscription)
    (w : WorkflowInstance) : (deliverEvent event sub w).status = w.status := rfl

/-- The locked section of `process_event`. -/
def deliver (eventId : String) (event : Event) (sub : EventSubscription) : Fallible Unit := do
  let w ← getWorkflowInstance sub.workflowId
  persistWorkflow (.event eventId sub.id) (deliverEvent event sub w)
  queueWork sub.workflowId .workflow
  terminateSubscription sub.id

/-- The loop of `process_event`; `false` when the event was queued again because a lock was
busy. -/
def deliverAll (eventId : String) (event : Event) : List EventSubscription → Fallible Bool
  | [] => return true
  | sub :: subs => do
    if ← acquireLock (.event eventId sub.id) sub.workflowId then
      let result ← attempt (deliver eventId event sub)
      -- The lock is released before a failure of the delivery is returned.
      releaseLock sub.workflowId
      ExceptT.mk (pure result)
      deliverAll eventId event subs
    else
      -- A busy lock: the whole event is tried again later.
      queueWork eventId .event
      return false

/-- `process_event`. -/
def processEvent (eventId : String) : Fallible Unit := do
  let event ← getEvent eventId
  let subscriptions ← getSubscriptions event.eventName event.eventKey event.eventTime
  if ← deliverAll eventId event subscriptions then markEventProcessed eventId

/-- One round of the event consumer. -/
def consumeEvent : Fallible Unit := do
  if let .ok (some eventId) ← attempt (dequeueWork .event) then
    if let .error e ← attempt (processEvent eventId) then trace (.eventFailed eventId e)

/-! ## The workflow consumer -/

/-- `can_execute_workflow`. -/
def canExecuteWorkflow (definition : WorkflowDefinition) (h : WorkflowHost) : Bool :=
  (definition.steps.all fun s => (h.stepRegistry.resolve s.stepType).isSome) &&
    (definition.services.isEmpty || h.serviceProvider.any (·.canProvision definition.services))

/-- `json!` of a port number. -/
def portJson (p : ServicePort) : Json := .number (.posInt (UInt64.ofNat p.containerPort))

/-- The entries of one endpoint in the workflow data, `SVC_NAME_HOST` and `SVC_NAME_PORT`. Service
names are ASCII. -/
def endpointVariables (ep : ServiceEndpoint) (m : Object) : Object :=
  let m := Object.insert s!"SVC_{ep.name.toUpper}_HOST" (.string ep.host) m
  match ep.ports.head? with
  | some port => Object.insert s!"SVC_{ep.name.toUpper}_PORT" (portJson port) m
  | none => m

/-- The value stored under `services`. -/
def servicesJson (endpoints : List ServiceEndpoint) : Json :=
  .object (endpoints.foldl (fun m ep => Object.insert ep.name
    (.object [("host", .string ep.host), ("ports", .array (ep.ports.map portJson))]) m) [])

/-- The workflow data with the endpoints of the services. -/
def withEndpoints (endpoints : List ServiceEndpoint) (w : WorkflowInstance) : WorkflowInstance :=
  match w.data with
  | .object m =>
    let m := endpoints.foldl (fun m ep => endpointVariables ep m) m
    { w with data := .object (Object.insert "services" (servicesJson endpoints) m) }
  | _ => w

section WithEndpoints

variable (endpoints : List ServiceEndpoint) (w : WorkflowInstance)

@[simp] theorem withEndpoints_id : (withEndpoints endpoints w).id = w.id := by
  unfold withEndpoints
  split <;> rfl

@[simp] theorem withEndpoints_executionPointers :
    (withEndpoints endpoints w).executionPointers = w.executionPointers := by
  unfold withEndpoints
  split <;> rfl

@[simp] theorem withEndpoints_status : (withEndpoints endpoints w).status = w.status := by
  unfold withEndpoints
  split <;> rfl

@[simp] theorem withEndpoints_completeTime :
    (withEndpoints endpoints w).completeTime = w.completeTime := by
  unfold withEndpoints
  split <;> rfl

end WithEndpoints

def injectServiceEndpoints (workflowId : String) (endpoints : List ServiceEndpoint) :
    Fallible Unit := do
  let w ← getWorkflowInstance workflowId
  persistWorkflow .inject (withEndpoints endpoints w)

/-- Provisions the services of a definition; `false` when the round is given up. -/
def provisionServices (workflowId : String) (definition : WorkflowDefinition) : Fallible Bool := do
  match ← attempt (provision workflowId definition.services) with
  | .ok endpoints =>
    match ← attempt (injectServiceEndpoints workflowId endpoints) with
    | .ok _ => return true
    | .error _ =>
      trace (.injectFailed workflowId)
      -- What has been provisioned is torn down, and the round is over.
      let _ ← attempt (teardown workflowId)
      return false
  | .error _ =>
    trace (.provisionFailed workflowId)
    return false

/-- Executes a dequeued workflow; a failure is only logged. -/
def executeLogged (h : WorkflowHost) (workflowId : String) (definition : WorkflowDefinition) :
    Fallible Unit := do
  if let .error e ← attempt
      (execute workflowId definition h.stepRegistry.resolve (some h.hostContext)) then
    trace (.executionFailed workflowId e)

/-- The execution of a dequeued workflow, with its services around it. -/
def executeWithServices (h : WorkflowHost) (workflowId : String)
    (definition : WorkflowDefinition) : Fallible Unit :=
  if definition.services ≠ [] ∧ h.serviceProvider.isSome then do
    if ← provisionServices workflowId definition then
      executeLogged h workflowId definition
      let _ ← attempt (teardown workflowId)
  else executeLogged h workflowId definition

/-- What the workflow consumer does with an id it has dequeued. -/
def handleWorkflow (h : WorkflowHost) (workflowId : String) : Fallible Unit := do
  match ← attempt (getWorkflowInstance workflowId) with
  | .error _ => trace (.loadFailed workflowId)
  | .ok w =>
    match h.registry.getDefinition w.workflowDefinitionId w.version with
    -- The id has been dequeued and is not queued again.
    | none => trace (.definitionMissing workflowId)
    | some definition =>
      if canExecuteWorkflow definition h then executeWithServices h workflowId definition
      else
        trace (.cannotExecute workflowId)
        let _ ← attempt (queueWork workflowId .workflow)

/-- One round of the workflow consumer. -/
def consumeWorkflow (h : WorkflowHost) : Fallible Unit := do
  if let .ok (some workflowId) ← attempt (dequeueWork .workflow) then
    handleWorkflow h workflowId

/-- The calls of the workflow consumer besides those of `execute` and of the injection of service
endpoints. -/
def Call.routine : Call → Prop
  | .trace _ | .request (.dequeueWork .workflow) | .request (.queueWork _ .workflow)
  | .request (.getWorkflowInstance _) | .request (.provision _ _) | .request (.teardown _) => True
  | _ => False

section Rules

variable {G : Type} {M : Monitor Provider G} {N : G → Prop} {h : WorkflowHost} {g : G}
  (hroutine : ∀ c : Call, c.routine → M.Keeps N c)
  (hinject : ∀ workflowId endpoints g, N g → MeetsE M (fun g _ => N g) (fun g _ => N g)
    (injectServiceEndpoints workflowId endpoints) g)
  (hexecute : ∀ workflowId definition g, N g → MeetsE M (fun g _ => N g) (fun g _ => N g)
    (execute workflowId definition h.stepRegistry.resolve (some h.hostContext)) g)

include hroutine

theorem meetsE_routine (q : Request) (hq : (Call.request q).routine) (hg : N g) :
    MeetsE M (fun g _ => N g) (fun g _ => N g) (ask q) g :=
  meetsE_ask_of_keeps (hroutine _ hq) hg

theorem meetsE_trace (d : Diagnostic) (hg : N g) :
    MeetsE M (fun g _ => N g) (fun g _ => N g) (trace d) g :=
  meetsE_tell_of_keeps (hroutine (.trace d) trivial) hg

include hinject in
theorem meetsE_provisionServices (workflowId : String) (definition : WorkflowDefinition)
    (hg : N g) :
    MeetsE M (fun g _ => N g) (fun g _ => N g) (provisionServices workflowId definition) g := by
  refine meetsE_attempt_bind (meetsE_routine hroutine (.provision ..) trivial hg) ?_ ?_
  · intro g endpoints hg
    refine meetsE_attempt_bind (hinject workflowId endpoints g hg) ?_ ?_
    · exact fun _ _ hg => hg
    · intro g e hg
      refine (meetsE_trace hroutine _ hg).bind fun g _ hg => ?_
      refine meetsE_bind.mpr (meetsE_attempt.mpr ?_)
      exact meetsE_routine hroutine (.teardown workflowId) trivial hg
  · intro g e hg
    exact meetsE_bind.mpr (meetsE_trace hroutine _ hg)

include hexecute in
theorem meetsE_executeLogged (workflowId : String) (definition : WorkflowDefinition) (hg : N g) :
    MeetsE M (fun g _ => N g) (fun g _ => N g) (executeLogged h workflowId definition) g := by
  refine meetsE_attempt_bind (hexecute workflowId definition g hg) ?_ ?_
  · exact fun _ _ hg => hg
  · exact fun _ _ hg => meetsE_trace hroutine _ hg

include hinject hexecute

theorem meetsE_executeWithServices (workflowId : String) (definition : WorkflowDefinition)
    (hg : N g) :
    MeetsE M (fun g _ => N g) (fun g _ => N g) (executeWithServices h workflowId definition) g := by
  unfold executeWithServices
  split_ifs
  · refine (meetsE_provisionServices hroutine hinject workflowId definition hg).bind ?_
    intro g ready hg
    cases ready with
    | false => exact hg
    | true =>
      refine (meetsE_executeLogged hroutine hexecute workflowId definition hg).bind
        fun g _ hg => ?_
      refine meetsE_bind.mpr (meetsE_attempt.mpr ?_)
      exact meetsE_routine hroutine (.teardown workflowId) trivial hg
  · exact meetsE_executeLogged hroutine hexecute workflowId definition hg

theorem meetsE_handleWorkflow (workflowId : String) (hg : N g) :
    MeetsE M (fun g _ => N g) (fun g _ => N g) (handleWorkflow h workflowId) g := by
  refine meetsE_attempt_bind (meetsE_routine hroutine (.getWorkflowInstance _) trivial hg) ?_ ?_
  · intro g w hg
    dsimp only
    split
    · exact meetsE_trace hroutine _ hg
    · next definition _ =>
      split_ifs
      · exact meetsE_executeWithServices hroutine hinject hexecute workflowId definition hg
      · refine (meetsE_trace hroutine _ hg).bind fun g _ hg => ?_
        refine meetsE_bind.mpr (meetsE_attempt.mpr ?_)
        exact meetsE_routine hroutine (.queueWork workflowId .workflow) trivial hg
  · exact fun g e hg => meetsE_trace hroutine _ hg

/-- The workflow consumer under a monitor whose states `N` are kept by its parts. -/
theorem meetsE_consumeWorkflow (hg : N g) :
    MeetsE M (fun g _ => N g) (fun g _ => N g) (consumeWorkflow h) g := by
  refine meetsE_attempt_bind (meetsE_routine hroutine (.dequeueWork .workflow) trivial hg) ?_ ?_
  · rintro g (_ | workflowId) hg
    · exact hg
    · exact meetsE_handleWorkflow hroutine hinject hexecute workflowId hg
  · exact fun g e hg => hg

end Rules

/-! ## The machine -/

/-- What can run on a thread: the entry points, and the rounds of the consumers. -/
inductive Operation
  | consumeWorkflow (h : WorkflowHost)
  | consumeEvent
  | startWorkflow (h : WorkflowHost) (definitionId : String) (version : Nat) (data : Json)
      (nameOverride : Option String)
  | publishEvent (eventName eventKey : String) (data : Json)
  | suspendWorkflow (idOrName : String)
  | resumeWorkflow (idOrName : String)
  | terminateWorkflow (idOrName : String)

/-- What an operation returned to its caller. -/
inductive Outcome
  | idle
  | consumed (r : Except WfeError Unit)
  | started (r : Except WfeError String)
  | published (r : Except WfeError Unit)
  | suspended (r : Except WfeError Bool)
  | resumed (r : Except WfeError Bool)
  | terminated (r : Except WfeError Bool)

def Operation.program : Operation → Action Outcome
  | consumeWorkflow h => (Wfe.consumeWorkflow h).run >>= fun r => pure (.consumed r)
  | consumeEvent => Wfe.consumeEvent.run >>= fun r => pure (.consumed r)
  | startWorkflow h definitionId version data nameOverride =>
    (h.startWorkflowWithName definitionId version data nameOverride).run >>= fun r =>
      pure (.started r)
  | publishEvent eventName eventKey data =>
    (Wfe.publishEvent eventName eventKey data).run >>= fun r => pure (.published r)
  | suspendWorkflow idOrName =>
    (Wfe.suspendWorkflow idOrName).run >>= fun r => pure (.suspended r)
  | resumeWorkflow idOrName =>
    (Wfe.resumeWorkflow idOrName).run >>= fun r => pure (.resumed r)
  | terminateWorkflow idOrName =>
    (Wfe.terminateWorkflow idOrName).run >>= fun r => pure (.terminated r)

/-- What an operation leaves of a monitor, however it ends. -/
theorem meets_operation {α G : Type} {M : Monitor Provider G} {N : G → Prop} {x : Fallible α}
    {f : Except WfeError α → Outcome} {g : G}
    (h : MeetsE M (fun g _ => N g) (fun g _ => N g) x g) :
    Meets M (fun g _ => N g) (x.run >>= fun r => pure (f r)) g :=
  meets_bind.mpr (meetsE_run.mp h)

/-- The calls that concern neither events, nor subscriptions, nor locks. -/
@[simp] def Call.plain : Call → Prop
  | .request (.acquireLock _ _) | .request (.releaseLock _) | .request (.queueWork _ .event)
  | .request (.dequeueWork .event) | .request (.createEvent _) | .request (.getEvent _)
  | .request (.markEventProcessed _) | .request (.getSubscriptions _ _ _)
  | .request (.terminateSubscription _) | .request (.persistWorkflowWithSubscriptions _ _)
  | .request (.persistWorkflow (.event _ _) _) => False
  | _ => True

/-- The operations that start a workflow or change its status. -/
def Operation.Plain : Operation → Prop
  | startWorkflow _ _ _ _ _ | suspendWorkflow _ | resumeWorkflow _ | terminateWorkflow _ => True
  | _ => False

theorem getWorkflow_plain (idOrName : String) :
    MeetsE (Monitor.only Call.plain) (fun _ _ => True) (fun _ _ => True) (getWorkflow idOrName)
      () := by
  simp [getWorkflow, Monitor.only]
  intro e
  cases e <;> simp

/-- Starting a workflow or changing its status takes plain calls only. -/
theorem Operation.Plain.calls {op : Operation} (hop : op.Plain) :
    op.program.Meets (Monitor.only Call.plain) (fun _ _ => True) () := by
  cases op with
  | consumeWorkflow h => cases hop
  | consumeEvent => cases hop
  | publishEvent eventName eventKey data => cases hop
  | startWorkflow h definitionId version data nameOverride =>
    refine meets_operation (N := fun _ => True) (WorkflowHost.meetsE_startWorkflowWithName ?_ ?_ h
      definitionId version data nameOverride trivial)
    · intro c hc _ _
      refine ⟨?_, fun _ _ => trivial⟩
      cases c with
      | request q => cases q <;> trivial
      | _ => trivial
    · intro _ w _ _
      simp [Monitor.only]
  | suspendWorkflow idOrName =>
    refine meets_operation (N := fun _ => True) ((getWorkflow_plain idOrName).bind fun _ w _ => ?_)
    split_ifs <;> simp [-bind_pure_comp, Monitor.only]
  | resumeWorkflow idOrName =>
    refine meets_operation (N := fun _ => True) ((getWorkflow_plain idOrName).bind fun _ w _ => ?_)
    split_ifs <;> simp [-bind_pure_comp, Monitor.only]
  | terminateWorkflow idOrName =>
    refine meets_operation (N := fun _ => True) ((getWorkflow_plain idOrName).bind fun _ w _ => ?_)
    split_ifs <;> simp [-bind_pure_comp, Monitor.only]

/-- Any number of hosts and callers over the shared providers. -/
abbrev hosts : Machine Provider where
  Op := Operation
  Outcome := Outcome
  idle := .idle
  State := Shared
  Oracle := Oracle
  program := Operation.program
  answer := fun o t σ c => σ.answer o t c

/-! ## Runs -/

/-- No provider fails. -/
def Reliable (P : Pool hosts) (_ : ℕ) : Exchange Provider → Prop
  | ⟨.request q, r⟩ => P.shared.Answers q r
  | _ => True

/-- The call is not a failed request to the store, the locks or the queues. -/
@[simp] def Call.succeeded : (c : Call) → c.Reply → Bool
  | .request (.provision _ _), _ | .request (.teardown _), _ => true
  | .request _, .error _ => false
  | _, _ => true

/-- No request to the store, the locks or the queues fails. -/
def Succeeding (_ : Pool hosts) (_ : ℕ) (x : Exchange Provider) : Prop :=
  x.1.succeeded x.2 = true

/-- A move in which no provider fails; `id` seeds the UUIDs drawn in it. -/
def tick (t : ℕ) (id : String) : Pool.Move hosts :=
  .call t { ambient := ⟨0, fun k => id ++ String.ofList (List.replicate k 'x')⟩ }

theorem reliable_of_schedule (n : ℕ) {P P' : Pool hosts} {ms : List (Pool.Move hosts)}
    (hP : Pool.IdleFrom n P) (hn : (ms.all fun m => m.thread < n) = true)
    (hms : ms.all (Pool.Move.within fun o => o.failure.isNone) = true)
    (h : Pool.schedule (fun _ _ _ => true) ms P = some P') : Pool.Run Reliable P P' := by
  refine Pool.run_of_schedule ?_ hP hn hms h
  intro P o t c r s _ ho hs _
  obtain ⟨hr, -⟩ := Shared.answer_eq_some.mp hs
  cases c with
  | request q => exact Shared.answers_of_reply (by simpa using ho) hr
  | _ => trivial

/-- A step body that proceeds at once. -/
def proceedBody : StepBody := fun _ => pure .next

/-- A definition of two steps in sequence, and a host for it. -/
def twoSteps : WorkflowDefinition :=
  { WorkflowDefinition.new "sequence" 1 with
    steps := [{ WorkflowStep.new 0 "step" with outcomes := [⟨1, none, none⟩] },
      WorkflowStep.new 1 "step"] }

def twoStepHost : WorkflowHost := ⟨[twoSteps], [("step", proceedBody)], none⟩

/-- Starts the workflow `w` of two steps on thread 0. -/
def startMoves : List (Pool.Move hosts) :=
  .spawn 0 (.startWorkflow twoStepHost "sequence" 1 .null none) :: tick 0 "w" ::
    List.replicate 4 (tick 0 "u")

/-- A consumer on thread 1 takes the workflow up and runs its first step, up to where the pass
writes the instance. -/
def passMoves : List (Pool.Move hosts) :=
  .spawn 1 (.consumeWorkflow twoStepHost) :: List.replicate 8 (tick 1 "u") ++ [tick 1 "p"]

end Wfe
