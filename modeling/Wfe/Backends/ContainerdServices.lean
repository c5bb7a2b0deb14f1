import Wfe.Executor.Provider
import Wfe.Library.Serving
import Wfe.Library.Table

/-!
# Services in containerd

`ContainerdServiceProvider` runs the services of a workflow as containers, and remembers their
ids for the teardown. The ids are recorded once, when the last service has been started. Starting
and cleaning up one container are single calls here, which may fail; what a series of them does is
told by the events of the containers.

## Main definitions

* `ServiceCall`, `Containerized`: the operations on containers, next to the other provider calls
* `ContainerdServiceProvider.provision`, `ContainerdServiceProvider.teardown`
* `ContainerdServiceProvider.serve`: the provider in place of the calls made to it
* `ServiceEvent`, `serviceEvents`: what a trace does to containers
* `ServiceEvent.left`: the containers that have been started and not cleaned up

## Main results

* `meets_provision`: services are started one after another, up to the first that fails
* `meets_teardown`: the recorded containers are cleaned up
-/

namespace Wfe

open Program

/-- The calls of a host whose services run in containerd: `run_service`, `cleanup_service`, and
those to its other providers. -/
inductive ServiceCall
  | runService (addr containerId image : String) (env : List (String × String))
  | cleanupService (addr containerId : String)
  | provider (c : Call)

@[reducible] def ServiceCall.Reply : ServiceCall → Type
  | runService .. | cleanupService .. => Except WfeError Unit
  | provider c => c.Reply

abbrev Containerized : Interface := ⟨ServiceCall, ServiceCall.Reply⟩

/-- The map `running` holds the containers of each workflow whose services are up. -/
structure ContainerdServiceProvider where
  containerdAddr : String
  running : List (String × List String)
deriving DecidableEq, Repr

namespace ContainerdServiceProvider

/-- `ContainerdServiceProvider::new`. -/
def new (containerdAddr : String) : ContainerdServiceProvider := ⟨containerdAddr, []⟩

/-- containerd runs any image. -/
def canProvision (_ : List ServiceDefinition) : Bool := true

def runService (addr containerId image : String) (env : List (String × String)) :
    ExceptT WfeError (Program Containerized) Unit :=
  ExceptT.mk (perform (I := Containerized) (.runService addr containerId image env))

/-- The id of the container of a service. -/
def serviceContainerId (workflowId : String) (svc : ServiceDefinition) : String :=
  s!"wfe-svc-{svc.name}-{workflowId}"

/-- The loop of `provision`, with the endpoints and the container ids so far. -/
def startServices (addr workflowId : String) (endpoints : List ServiceEndpoint)
    (containerIds : List String) : List ServiceDefinition →
    ExceptT WfeError (Program Containerized) (List ServiceEndpoint × List String)
  | [] => return (endpoints, containerIds)
  | svc :: services => do
    let containerId := serviceContainerId workflowId svc
    -- A service that cannot be started ends the loop, and the ids so far are dropped.
    runService addr containerId svc.image svc.env
    startServices addr workflowId (endpoints ++ [⟨svc.name, "127.0.0.1", svc.ports⟩])
      (containerIds ++ [containerId]) services

/-- The containers recorded for a workflow. -/
def containerIds (p : ContainerdServiceProvider) (workflowId : String) : List String :=
  ((Table.get Prod.fst p.running workflowId).map Prod.snd).getD []

def provision (p : ContainerdServiceProvider) (workflowId : String)
    (services : List ServiceDefinition) :
    Program Containerized (Except WfeError (List ServiceEndpoint) × ContainerdServiceProvider) := do
  match ← (startServices p.containerdAddr workflowId [] [] services).run with
  | .error e => return (.error e, p)
  | .ok (endpoints, containerIds) =>
    return (.ok endpoints,
      { p with running := Table.put Prod.fst (workflowId, containerIds) p.running })

/-- The loop of `teardown`; a cleanup that fails is passed over. -/
def cleanupServices (addr : String) : List String → Program Containerized Unit
  | [] => return ()
  | containerId :: containerIds => do
    let _ ← perform (I := Containerized) (.cleanupService addr containerId)
    cleanupServices addr containerIds

def teardown (p : ContainerdServiceProvider) (workflowId : String) :
    Program Containerized (Except WfeError Unit × ContainerdServiceProvider) := do
  cleanupServices p.containerdAddr (p.containerIds workflowId)
  return (.ok (), { p with running := p.running.filter fun entry => entry.1 ≠ workflowId })

/-- The provider in place of the calls made to it; the other calls go where they went. -/
def serve (p : ContainerdServiceProvider) :
    (c : Call) → Program Containerized (c.Reply × ContainerdServiceProvider)
  | .request (.provision workflowId services) => p.provision workflowId services
  | .request (.teardown workflowId) => p.teardown workflowId
  | c => call (I := Containerized) (.provider c) fun r => ret (r, p)

theorem containerIds_put (p : ContainerdServiceProvider) (workflowId : String)
    (ids : List String) :
    containerIds { p with running := Table.put Prod.fst (workflowId, ids) p.running } workflowId =
      ids := by
  simp [containerIds]

end ContainerdServiceProvider

/-! ## What happens to containers -/

/-- What a call does to a container. -/
inductive ServiceEvent
  | started (containerId : String)
  | failed (containerId : String)
  | cleaned (containerId : String)
deriving DecidableEq, Repr

def ServiceCall.event : (c : ServiceCall) → c.Reply → Option ServiceEvent
  | .runService _ id _ _, .ok _ => some (.started id)
  | .runService _ id _ _, .error _ => some (.failed id)
  | .cleanupService _ id, .ok _ => some (.cleaned id)
  | _, _ => none

/-- The events of a trace, in order. -/
def serviceEvents (tr : List (Exchange Containerized)) : List ServiceEvent :=
  tr.filterMap fun x => x.1.event x.2

theorem serviceEvents_cons (x : Exchange Containerized) (tr : List (Exchange Containerized)) :
    serviceEvents (x :: tr) = (x.1.event x.2).toList ++ serviceEvents tr := by
  rw [serviceEvents, List.filterMap_cons]
  cases x.1.event x.2 <;> rfl

theorem serviceEvents_append (tr tr' : List (Exchange Containerized)) :
    serviceEvents (tr ++ tr') = serviceEvents tr ++ serviceEvents tr' := List.filterMap_append

namespace ServiceEvent

/-- The containers left after one more event. -/
def next (left : List String) : ServiceEvent → List String
  | started id => id :: left
  | failed _ => left
  | cleaned id => left.filter (· ≠ id)

/-- The containers that have been started and not cleaned up since. -/
def left (events : List ServiceEvent) : List String := events.foldl next []

/-- A service fails after another one has been started. -/
def FailsLate : ServiceEvent → ServiceEvent → Prop
  | started _, failed _ => True
  | _, _ => False

instance : DecidableRel FailsLate := fun a b => by
  cases a <;> cases b <;> unfold FailsLate <;> infer_instance

/-- No service fails after another one has been started. -/
def NoLateFailure (events : List ServiceEvent) : Prop := events.Pairwise fun a b => ¬FailsLate a b

instance (events : List ServiceEvent) : Decidable (NoLateFailure events) :=
  inferInstanceAs (Decidable (events.Pairwise fun a b => ¬FailsLate a b))

end ServiceEvent

/-- No `cleanup_service` fails. -/
def CleanupSucceeds (x : Exchange Containerized) : Prop :=
  match x with
  | ⟨.cleanupService _ _, .error _⟩ => False
  | _ => True

/-- Watches the containers, of which every cleanup succeeds. -/
def watchContainers : Monitor Containerized (List ServiceEvent) where
  allow _ c r := CleanupSucceeds ⟨c, r⟩
  accept _ _ := True
  next events c r := events ++ (c.event r).toList

theorem after_watchContainers (events : List ServiceEvent) (tr : List (Exchange Containerized)) :
    watchContainers.after events tr = events ++ serviceEvents tr := by
  induction tr generalizing events with
  | nil => simp [Monitor.after, serviceEvents]
  | cons x tr ih =>
    rw [Monitor.after, ih, serviceEvents_cons, ← List.append_assoc]
    rfl

theorem allows_watchContainers {tr : List (Exchange Containerized)}
    (h : ∀ x ∈ tr, CleanupSucceeds x) (events : List ServiceEvent) :
    watchContainers.Allows events tr := Monitor.allows_of_forall (fun x hx _ => h x hx) events

namespace ContainerdServiceProvider

section Rules

variable (p : ContainerdServiceProvider) (addr workflowId : String)
  (services : List ServiceDefinition) (events : List ServiceEvent)

/-- What is left behind by a service that cannot be started: the containers of those before it. -/
def Interrupted (events' : List ServiceEvent) : Prop :=
  ∃ before svc after, services = before ++ svc :: after ∧
    events' = events ++ (before.map (serviceContainerId workflowId)).map .started ++
      [.failed (serviceContainerId workflowId svc)]

/-- The loop of `provision` starts all services, or those before the first that fails. -/
theorem meetsE_startServices (endpoints : List ServiceEndpoint) (containerIds : List String) :
    MeetsE watchContainers
      (fun events' result =>
        result.2 = containerIds ++ services.map (serviceContainerId workflowId) ∧
        events' = events ++ (services.map (serviceContainerId workflowId)).map .started)
      (fun events' _ => Interrupted workflowId services events events')
      (startServices addr workflowId endpoints containerIds services) events := by
  induction services generalizing endpoints containerIds events with
  | nil => simp [startServices]
  | cons svc services ih =>
    rw [startServices, meetsE_bind]
    refine ⟨trivial, ?_⟩
    rintro (e | ⟨⟩) -
    · exact ⟨[], svc, services, rfl, by simp [watchContainers, ServiceCall.event]⟩
    · refine (ih _ _ _).mono ?_ ?_
      · rintro events' result ⟨hids, rfl⟩
        exact ⟨by simp [hids], by simp [watchContainers, ServiceCall.event]⟩
      · rintro events' e ⟨before, failing, after, rfl, rfl⟩
        exact ⟨svc :: before, failing, after, rfl, by simp [watchContainers, ServiceCall.event]⟩

/-- **Provisioning.** The containers of a workflow are recorded once all of them are started. If
one cannot be started, those before it are running and nothing is recorded. -/
theorem meets_provision :
    Meets watchContainers
      (fun events' result =>
        match result.1 with
        | .ok _ => result.2.containerIds workflowId = services.map (serviceContainerId workflowId) ∧
          events' = events ++ (services.map (serviceContainerId workflowId)).map .started
        | .error _ => result.2 = p ∧ Interrupted workflowId services events events')
      (p.provision workflowId services) events := by
  rw [provision, meets_bind]
  refine Meets.mono (meetsE_startServices p.containerdAddr workflowId services events [] []) ?_
  rintro events' (e | ⟨endpoints, ids⟩) h
  · exact ⟨rfl, h⟩
  · obtain ⟨rfl, hevents⟩ := h
    exact ⟨containerIds_put p workflowId _, hevents⟩

theorem meets_cleanupServices (containerIds : List String) :
    Meets watchContainers (fun events' _ => events' = events ++ containerIds.map .cleaned)
      (cleanupServices addr containerIds) events := by
  induction containerIds generalizing events with
  | nil => simp [cleanupServices]
  | cons id containerIds ih =>
    refine ⟨trivial, ?_⟩
    rintro (e | ⟨⟩) hr
    · cases hr
    · refine (ih _).mono fun events' _ h => ?_
      rw [h]
      simp [watchContainers, ServiceCall.event]

/-- The teardown cleans up what is recorded for the workflow. -/
theorem meets_teardown :
    Meets watchContainers
      (fun events' _ => events' = events ++ (p.containerIds workflowId).map .cleaned)
      (p.teardown workflowId) events := by
  rw [teardown, meets_bind]
  exact meets_cleanupServices p.containerdAddr events (p.containerIds workflowId)

end Rules

end ContainerdServiceProvider

/-! ## Containers left over -/

namespace ServiceEvent

variable {ids : List String}

theorem left_append (a b : List ServiceEvent) : left (a ++ b) = b.foldl next (left a) :=
  List.foldl_append

theorem foldl_next_started (ids l : List String) :
    (ids.map started).foldl next l = ids.reverse ++ l := by
  induction ids generalizing l with
  | nil => rfl
  | cons id ids ih =>
    rw [List.map_cons, List.foldl_cons, ih]
    simp [next]

/-- Cleaning up containers leaves the others. -/
theorem foldl_next_cleaned (ids l : List String) :
    (ids.map cleaned).foldl next l = l.filter (· ∉ ids) := by
  induction ids generalizing l with
  | nil => simp
  | cons id ids ih =>
    rw [List.map_cons, List.foldl_cons, ih, next, List.filter_filter]
    simp [Bool.and_comm]

theorem left_started : left (ids.map started) = ids.reverse := by
  rw [left, foldl_next_started, List.append_nil]

/-- Nothing is left of containers that have all been cleaned up. -/
theorem left_cleaned : left (ids.map started ++ ids.map cleaned) = [] := by
  rw [left_append, left_started, foldl_next_cleaned]
  simp

theorem left_failed (id : String) : left (ids.map started ++ [failed id]) = ids.reverse := by
  rw [left_append, left_started]
  rfl

theorem noLateFailure_cleaned : NoLateFailure (ids.map started ++ ids.map cleaned) := by
  refine List.pairwise_append.mpr ⟨?_, ?_, ?_⟩
  · exact List.pairwise_map.mpr (List.pairwise_of_forall fun _ _ => id)
  · exact List.pairwise_map.mpr (List.pairwise_of_forall fun _ _ => id)
  · simp [FailsLate]

theorem noLateFailure_failed (id : String) :
    NoLateFailure (ids.map started ++ [failed id]) ↔ ids = [] := by
  rw [NoLateFailure, List.pairwise_append]
  constructor
  · rintro ⟨-, -, h⟩
    cases ids with
    | nil => rfl
    | cons first ids => exact absurd trivial (h (started first) (by simp) (failed id) (by simp))
  · rintro rfl
    simp

end ServiceEvent

end Wfe
