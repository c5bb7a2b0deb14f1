import Wfe.Backends.ServiceTasks
import Wfe.Host.WorkflowHost

/-!
# Service containers across rounds

The workflow consumer provisions the services of a workflow before it executes it and tears them
down afterwards, also when the execution fails or the endpoints cannot be injected; when the
provisioning itself fails, it goes on to the next workflow at once. With the services in
containerd, the containers started before the service that failed are then left behind.

## Main definitions

* `servicing`: the order in which a round provisions and tears down
* `consumeRound`, `Rounds`: the consumer with its services in containerd, over any number of rounds
* `NoLeak`: whenever a round ends, no container is left

## Main results

* `consumeWorkflow_servicing`: what has been provisioned in a round is torn down in it
* `round_settled`: the containers of one round
* `round_tasks`: the same in terms of requests to containerd
* `rounds_noLeak_iff`: no container is left between rounds if and only if no service fails after
  another one has been started
-/

namespace Wfe

open Program Provider

/-- How far a round is with the services of its workflow. -/
inductive ServiceStage
  | idle
  | provisioned (workflowId : String)
  | finished
deriving DecidableEq, Repr

namespace ServiceStage

/-- Services are provisioned once, and torn down for the workflow they are provisioned for. -/
@[simp] def accept (stage : ServiceStage) : Call → Prop
  | .request (.provision _ _) => stage = idle
  | .request (.teardown workflowId) => stage = provisioned workflowId
  | _ => True

@[simp] def next (stage : ServiceStage) : (c : Call) → c.Reply → ServiceStage
  | .request (.provision workflowId _), .ok _ => provisioned workflowId
  | .request (.provision _ _), .error _ => finished
  | .request (.teardown _), _ => finished
  | _, _ => stage

end ServiceStage

/-- Watches the provisioning and the teardown of services. -/
def servicing : Monitor Provider ServiceStage where
  allow _ _ _ := True
  accept := ServiceStage.accept
  next := ServiceStage.next

/-- The calls about services. -/
def Call.aboutServices : Call → Prop
  | .request (.provision _ _) | .request (.teardown _) => True
  | _ => False

/-! ## What does not concern services -/

section Rules

variable {α G : Type} {M : Monitor Provider G} {N : G → Prop} {g : G}
  (hN : ∀ c : Call, ¬c.aboutServices → M.Keeps N c)

include hN

theorem meetsE_ask_aside {q : Request} (hq : ¬(Call.request q).aboutServices) (hg : N g) :
    MeetsE M (fun g _ => N g) (fun g _ => N g) (ask q) g :=
  meetsE_ask_of_keeps (hN _ hq) hg

theorem meetsE_completeWorkflow (workflowId : String) (w : WorkflowInstance) (hg : N g) :
    MeetsE M (fun g _ => N g) (fun g _ => N g) (completeWorkflow workflowId w) g := by
  refine (meetsE_tell_of_keeps (hN .ambient id) hg).bind fun g env hg => ?_
  refine (meetsE_tell_of_keeps (hN (.publishLifecycle _) id) hg).bind fun g _ hg => ?_
  refine (meetsE_tell_of_keeps (hN .ambient id) hg).bind fun g env hg => ?_
  refine meetsE_attempt_bind (meetsE_ask_aside hN id hg) ?_ ?_
  all_goals
    intro g _ hg
    exact meetsE_attempt_bind (meetsE_ask_aside hN id hg) (fun _ _ hg => hg) fun _ _ hg => hg

theorem meetsE_finishPass (workflowId : String) (st : PassState) (hg : N g) :
    MeetsE M (fun g _ => N g) (fun g _ => N g) (finishPass workflowId st) g := by
  refine MeetsE.bind (Q := fun g _ => N g) ?_ fun g w hg => ?_
  · unfold checkCompletion
    split_ifs
    · exact meetsE_completeWorkflow hN workflowId _ hg
    · exact hg
  refine MeetsE.bind (Q := fun g _ => N g) ?_ fun g _ hg => ?_
  · unfold persistPass
    split_ifs <;> exact meetsE_ask_aside hN id hg
  refine MeetsE.bind (Q := fun g _ => N g) ?_ fun g _ hg => ?_
  · unfold reportErrors
    split_ifs
    · exact hg
    · exact meetsE_ask_aside hN id hg
  unfold requeue
  split_ifs
  · exact meetsE_ask_aside hN id hg
  · exact hg

theorem meetsE_executeInner_aside (workflowId : String) (definition : WorkflowDefinition)
    (h : WorkflowHost) (hg : N g) :
    MeetsE M (fun g _ => N g) (fun g _ => N g)
      (executeInner workflowId definition h.stepRegistry.resolve (some h.hostContext)) g := by
  refine (meetsE_ask_aside hN id hg).bind fun g w hg => ?_
  split_ifs
  · refine (meetsE_tell_of_keeps (hN .ambient id) hg).bind fun g env hg => ?_
    refine MeetsE.bind (Q := fun g _ => N g) ?_ fun g st hg => meetsE_finishPass hN workflowId st hg
    refine (meetsE_pointerLoop (A := N) (h.hostContext_starts workflowId) hg ?_ ?_ ?_ _ _).mono
      (fun _ _ h => h.1) fun _ _ h => h.1
    · -- The pointers of a pass make quiet calls, which are not about services.
      intro c hc
      refine hN c ?_
      cases c with
      | request q => cases q <;> first | exact id | cases hc
      | _ => exact id
    · exact fun g w hg _ => (meetsE_ask_aside hN id hg).bind fun g _ hg => meetsE_ask_aside hN id hg
    · exact fun g e hg => hN (.trace _) id g hg
  · exact hg

/-- The execution of a workflow neither provisions nor tears down services. -/
theorem meetsE_execute_aside (workflowId : String) (definition : WorkflowDefinition)
    (h : WorkflowHost) (hg : N g) :
    MeetsE M (fun g _ => N g) (fun g _ => N g)
      (execute workflowId definition h.stepRegistry.resolve (some h.hostContext)) g := by
  refine (meetsE_ask_aside hN id hg).bind fun g acquired hg => ?_
  split_ifs
  · refine meetsE_attempt_bind (meetsE_executeInner_aside hN workflowId definition h hg) ?_ ?_
    all_goals
      intro g _ hg
      refine meetsE_attempt_bind (meetsE_ask_aside hN id hg) (fun _ _ hg => hg) ?_
      intro g e hg
      exact (meetsE_tell_of_keeps (hN (.trace _) id) hg).bind fun _ _ hg => hg
  · exact meetsE_tell_of_keeps (hN (.trace _) id) hg

theorem meetsE_executeLogged_aside (workflowId : String) (definition : WorkflowDefinition)
    (h : WorkflowHost) (hg : N g) :
    MeetsE M (fun g _ => N g) (fun _ _ => False) (executeLogged h workflowId definition) g := by
  refine meetsE_attempt_bind (meetsE_execute_aside hN workflowId definition h hg) ?_ ?_
  · exact fun _ _ hg => hg
  · exact fun _ _ hg => meetsE_tell_of_keeps (hN (.trace _) id) hg

theorem meetsE_injectServiceEndpoints_aside (workflowId : String)
    (endpoints : List ServiceEndpoint) (hg : N g) :
    MeetsE M (fun g _ => N g) (fun g _ => N g) (injectServiceEndpoints workflowId endpoints) g :=
  (meetsE_ask_aside hN id hg).bind fun _ _ hg => meetsE_ask_aside hN id hg

end Rules

/-! ## One round -/

theorem keeps_servicing (N : ServiceStage → Prop) (c : Call) (h : ¬c.aboutServices) :
    servicing.Keeps N c := by
  intro stage hstage
  cases c with
  | request q => cases q <;> first | exact ⟨trivial, fun _ _ => hstage⟩ | exact absurd trivial h
  | _ => exact ⟨trivial, fun _ _ => hstage⟩

/-- After the provisioning the services are up, or the round is over. -/
theorem provisionServices_servicing (workflowId : String) (definition : WorkflowDefinition) :
    MeetsE servicing
      (fun stage ready => if ready then stage = .provisioned workflowId else stage = .finished)
      (fun _ _ => False) (provisionServices workflowId definition) .idle := by
  have haside := keeps_servicing (· = .provisioned workflowId)
  refine meetsE_attempt_bind (Q := fun stage _ => stage = .provisioned workflowId)
    (F := fun stage _ => stage = .finished) ?_ ?_ ?_
  · refine ⟨rfl, ?_⟩
    rintro (e | endpoints) _ <;> rfl
  · intro stage endpoints hstage
    refine meetsE_attempt_bind
      (meetsE_injectServiceEndpoints_aside haside workflowId endpoints hstage) ?_ ?_
    · exact fun _ _ hstage => hstage
    · intro stage e hstage
      refine (meetsE_tell_of_keeps (haside _ id) hstage).bind fun stage _ hstage => ?_
      refine meetsE_attempt_bind (Q := fun stage _ => stage = .finished)
        (F := fun stage _ => stage = .finished) ?_ ?_ ?_
      · exact ⟨hstage, fun r _ => by cases r <;> rfl⟩
      · exact fun _ _ h => by simpa using h
      · exact fun _ _ h => by simpa using h
  · intro stage e hstage
    refine (meetsE_tell_of_keeps (keeps_servicing (· = .finished) _ id) hstage).bind ?_
    exact fun _ _ h => by simpa using h

/-- **What has been provisioned in a round is torn down in it**, unless the provisioning has
failed. -/
theorem executeWithServices_servicing (h : WorkflowHost) (workflowId : String)
    (definition : WorkflowDefinition) :
    MeetsE servicing (fun stage _ => stage = .idle ∨ stage = .finished) (fun _ _ => False)
      (executeWithServices h workflowId definition) .idle := by
  unfold executeWithServices
  split_ifs
  · refine (provisionServices_servicing workflowId definition).bind ?_
    rintro stage (_ | _) hstage
    · exact .inr hstage
    · refine (meetsE_executeLogged_aside (keeps_servicing (· = .provisioned workflowId))
        workflowId definition h hstage).bind fun stage _ hstage => ?_
      refine meetsE_attempt_bind (Q := fun stage _ => stage = .finished)
        (F := fun stage _ => stage = .finished) ?_ (fun _ _ h => .inr h) fun _ _ h => .inr h
      exact ⟨hstage, fun r _ => by cases r <;> rfl⟩
  · exact (meetsE_executeLogged_aside (keeps_servicing (· = .idle)) workflowId definition h
      rfl).mono (fun _ _ h => .inl h) fun _ _ h => h

theorem consumeWorkflow_servicing (h : WorkflowHost) :
    MeetsE servicing (fun stage _ => stage = .idle ∨ stage = .finished) (fun _ _ => False)
      (consumeWorkflow h) .idle := by
  have haside := keeps_servicing (· = .idle)
  refine meetsE_attempt_bind (meetsE_ask_aside haside id rfl) ?_ fun _ _ h => .inl h
  rintro stage (_ | workflowId) rfl
  · exact .inl rfl
  refine meetsE_attempt_bind (meetsE_ask_aside haside id rfl) ?_ ?_
  · rintro stage w rfl
    dsimp only
    split
    · exact (meetsE_tell_of_keeps (haside _ id) rfl).mono (fun _ _ h => .inl h) fun _ _ h => h
    · next definition _ =>
      split_ifs
      · exact executeWithServices_servicing h workflowId definition
      · refine (meetsE_tell_of_keeps (haside _ id) rfl).bind fun stage _ hstage => ?_
        exact meetsE_attempt_bind (meetsE_ask_aside haside id hstage) (fun _ _ h => .inl h)
          fun _ _ h => .inl h
  · rintro stage e rfl
    exact (meetsE_tell_of_keeps (haside _ id) rfl).mono (fun _ _ h => .inl h) fun _ _ h => h

/-! ## The services in containerd -/

namespace ContainerdServiceProvider

/-- The provider as the host sees it. -/
def toServiceProvider : ServiceProvider := ⟨canProvision⟩

theorem serve_aside (p : ContainerdServiceProvider) {c : Call} (h : ¬c.aboutServices) :
    p.serve c = call (I := Containerized) (.provider c) fun r => ret (r, p) := by
  cases c with
  | request q => cases q <;> first | rfl | exact absurd trivial h
  | _ => rfl

end ContainerdServiceProvider

/-- A host whose services run in containerd. -/
def containerdHost (registry : WorkflowRegistry) (stepRegistry : StepRegistry StepBody) :
    WorkflowHost :=
  ⟨registry, stepRegistry, some ContainerdServiceProvider.toServiceProvider⟩

/-- One round of the workflow consumer of such a host. -/
def consumeRound (registry : WorkflowRegistry) (stepRegistry : StepRegistry StepBody)
    (p : ContainerdServiceProvider) :
    Program Containerized (Except WfeError Unit × ContainerdServiceProvider) :=
  (consumeWorkflow (containerdHost registry stepRegistry)).run.serve
    ContainerdServiceProvider.serve p

/-- The containers of a round that is over: all are cleaned up, or a service could not be started
after some others. -/
def ServicesSettled (events : List ServiceEvent) : Prop :=
  ∃ ids : List String, events = ids.map .started ++ ids.map .cleaned ∨
    ∃ id, events = ids.map .started ++ [.failed id]

/-- What the stage of a round says of the provider and the containers. -/
def ServiceStage.Describes :
    ServiceStage → ContainerdServiceProvider → List ServiceEvent → Prop
  | idle, _, events => events = []
  | provisioned workflowId, p, events => events = (p.containerIds workflowId).map .started
  | finished, _, events => ServicesSettled events

theorem serve_describes (stage : ServiceStage) (p : ContainerdServiceProvider)
    (events : List ServiceEvent) (c : Call) (h : stage.Describes p events)
    (haccept : servicing.accept stage c) :
    Meets watchContainers
      (fun events' result => servicing.allow stage c result.1 ∧
        (servicing.next stage c result.1).Describes result.2 events')
      (p.serve c) events := by
  by_cases hc : c.aboutServices
  · cases c with
    | request q =>
      cases q with
      | provision workflowId services =>
        obtain rfl : stage = .idle := haccept
        obtain rfl : events = [] := h
        refine (p.meets_provision workflowId services []).mono ?_
        rintro events' ⟨e | endpoints, p'⟩ h'
        · -- Those before the failing service are left running.
          obtain ⟨-, before, svc, after, -, rfl⟩ := h'
          exact ⟨trivial, _, .inr ⟨_, rfl⟩⟩
        · obtain ⟨hids, rfl⟩ := h'
          refine ⟨trivial, ?_⟩
          change _ = (p'.containerIds workflowId).map ServiceEvent.started
          rw [hids]
          rfl
      | teardown workflowId =>
        obtain rfl : stage = .provisioned workflowId := haccept
        obtain rfl : events = (p.containerIds workflowId).map .started := h
        refine (p.meets_teardown workflowId _).mono ?_
        rintro _ result rfl
        exact ⟨trivial, _, .inl rfl⟩
      | _ => cases hc
    | _ => cases hc
  · rw [p.serve_aside hc]
    refine ⟨trivial, fun r _ => ⟨trivial, ?_⟩⟩
    have hnext : servicing.next stage c r = stage :=
      (keeps_servicing (· = stage) c hc stage rfl).2 r trivial
    rw [hnext]
    simpa [watchContainers, ServiceCall.event] using h

/-- **The containers of one round.** Either all that have been started are cleaned up, or the
round ends with a service that could not be started. -/
theorem round_settled {registry : WorkflowRegistry} {stepRegistry : StepRegistry StepBody}
    {p p' : ContainerdServiceProvider} {tr : List (Exchange Containerized)}
    {r : Except WfeError Unit} (h : Path (consumeRound registry stepRegistry p) tr (r, p'))
    (hcleanup : ∀ x ∈ tr, CleanupSucceeds x) : ServicesSettled (serviceEvents tr) := by
  have hround := (consumeWorkflow_servicing (containerdHost registry stepRegistry)).serve
    (s := p) (k := []) rfl serve_describes
  obtain ⟨-, stage, hdescribes, hstage⟩ := hround.path h (allows_watchContainers hcleanup [])
  rw [after_watchContainers, List.nil_append] at hdescribes
  have hstage' : stage = .idle ∨ stage = .finished := by
    cases r with
    | ok v => exact hstage
    | error e => exact hstage.elim
  rcases hstage' with rfl | rfl
  · exact ⟨[], .inl hdescribes⟩
  · exact hdescribes

/-- In one round, no container is left if and only if no service fails after another one has been
started. -/
theorem ServicesSettled.left_eq_nil_iff {events : List ServiceEvent} (h : ServicesSettled events) :
    ServiceEvent.left events = [] ↔ ServiceEvent.NoLateFailure events := by
  obtain ⟨ids, rfl | ⟨id, rfl⟩⟩ := h
  · exact iff_of_true ServiceEvent.left_cleaned ServiceEvent.noLateFailure_cleaned
  · rw [ServiceEvent.left_failed, ServiceEvent.noLateFailure_failed, List.reverse_eq_nil_iff]

/-- The same in terms of requests to containerd: when the round is over, no task is running if and
only if no service has failed late. -/
theorem round_tasks {registry : WorkflowRegistry} {stepRegistry : StepRegistry StepBody}
    {p p' : ContainerdServiceProvider} {tr' : List (Exchange Containerd)} {r : Except WfeError Unit}
    (h : Path ((consumeRound registry stepRegistry p).translate (I := Containerized)
      ServiceCall.run) tr' (r, p')) :
    ∃ tr, Path (consumeRound registry stepRegistry p) tr (r, p') ∧
      ((∀ x ∈ tr, CleanupSucceeds x) →
        (runningTasks tr' = [] ↔ ServiceEvent.NoLateFailure (serviceEvents tr))) := by
  obtain ⟨tr, htr, htasks⟩ := runningTasks_eq_left h
  refine ⟨tr, htr, fun hcleanup => ?_⟩
  rw [htasks hcleanup]
  exact (round_settled htr hcleanup).left_eq_nil_iff

/-! ## Runs -/

/-- `Rounds p trs p'`: the consumer goes from one round to the next, each with the exchanges of
`trs`. The definitions and steps that are registered may change between two rounds. -/
inductive Rounds : ContainerdServiceProvider → List (List (Exchange Containerized)) →
    ContainerdServiceProvider → Prop
  | done (p : ContainerdServiceProvider) : Rounds p [] p
  | round (registry : WorkflowRegistry) (stepRegistry : StepRegistry StepBody)
      {p p' p'' : ContainerdServiceProvider} {tr : List (Exchange Containerized)}
      {trs : List (List (Exchange Containerized))} {r : Except WfeError Unit} :
      Path (consumeRound registry stepRegistry p) tr (r, p') → Rounds p' trs p'' →
        Rounds p (tr :: trs) p''

/-- Whenever a round ends and the consumer takes the next item, every container that has been
started is cleaned up. -/
def NoLeak (trs : List (List (Exchange Containerized))) : Prop :=
  ∀ rounds, rounds <+: trs → ServiceEvent.left (serviceEvents rounds.flatten) = []

theorem noLeak_nil : NoLeak [] := by
  intro rounds h
  rw [List.prefix_nil.mp h]
  rfl

/-- A round that leaves nothing starts the next from nothing. -/
theorem noLeak_cons {tr : List (Exchange Containerized)}
    {trs : List (List (Exchange Containerized))} :
    NoLeak (tr :: trs) ↔ ServiceEvent.left (serviceEvents tr) = [] ∧ NoLeak trs := by
  have happend (hleft : ServiceEvent.left (serviceEvents tr) = [])
      (rounds : List (List (Exchange Containerized))) :
      ServiceEvent.left (serviceEvents (tr :: rounds).flatten) =
        ServiceEvent.left (serviceEvents rounds.flatten) := by
    rw [List.flatten_cons, serviceEvents_append, ServiceEvent.left_append, hleft]
    rfl
  constructor
  · intro h
    have hleft : ServiceEvent.left (serviceEvents tr) = [] := by
      simpa using h [tr] ⟨trs, rfl⟩
    refine ⟨hleft, fun rounds hrounds => ?_⟩
    rw [← happend hleft]
    exact h (tr :: rounds) (List.cons_prefix_cons.mpr ⟨rfl, hrounds⟩)
  · rintro ⟨hleft, h⟩ rounds hprefix
    cases rounds with
    | nil => rfl
    | cons tr' rounds =>
      obtain ⟨rfl, hrounds⟩ := List.cons_prefix_cons.mp hprefix
      rw [happend hleft]
      exact h rounds hrounds

/-- **Containers leak exactly when a service fails late.** Between the rounds of a consumer whose
cleanups succeed, no container is left if and only if in no round a service fails after another
one has been started. -/
theorem rounds_noLeak_iff {p p' : ContainerdServiceProvider}
    {trs : List (List (Exchange Containerized))} (h : Rounds p trs p')
    (hcleanup : ∀ tr ∈ trs, ∀ x ∈ tr, CleanupSucceeds x) :
    NoLeak trs ↔ ∀ tr ∈ trs, ServiceEvent.NoLateFailure (serviceEvents tr) := by
  induction h with
  | done p => exact iff_of_true noLeak_nil (by simp)
  | round registry stepRegistry hround hrounds ih =>
    have hsettled := round_settled hround (hcleanup _ List.mem_cons_self)
    rw [noLeak_cons, hsettled.left_eq_nil_iff, List.forall_mem_cons]
    exact and_congr_right fun _ => ih fun tr htr => hcleanup tr (List.mem_cons_of_mem _ htr)

/-! ## A service that fails late -/

/-- A service of one port. -/
def demoService (name : String) : ServiceDefinition where
  name := name
  image := name
  ports := [.tcp 5432]
  env := []
  readiness := none
  command := []
  args := []
  memory := none
  cpu := none

/-- A definition with two services. -/
def twoServices : WorkflowDefinition :=
  { WorkflowDefinition.new "etl" 1 with services := [demoService "db", demoService "cache"] }

/-- The replies to a consumer that finds the workflow `w` in its queue: the container `failing`
cannot be started, and the lock of the workflow cannot be taken. -/
def demoReplies (failing : String) : (c : ServiceCall) → c.Reply
  | .runService _ id _ _ =>
    if id = failing then .error (.stepExecution "failed to start service task") else .ok ()
  | .cleanupService _ _ => .ok ()
  | .provider (.request (.dequeueWork _)) => .ok (some "w")
  | .provider (.request (.getWorkflowInstance _)) =>
    .ok (WorkflowInstance.new ⟨0, fun _ => "w"⟩ "etl" 1 (.object []))
  | .provider (.request (.persistWorkflow _ _)) => .ok ()
  | .provider (.request _) => .error (.other "unavailable")
  | .provider .ambient => ⟨0, fun _ => "u"⟩
  | .provider (.external _) => .null
  | .provider (.trace _) | .provider (.publishLifecycle _) => ()

theorem demoReplies_cleanup (failing : String) (c : ServiceCall) :
    CleanupSucceeds ⟨c, demoReplies failing c⟩ := by
  cases c <;> trivial

/-- A round with these replies: its exchanges and the provider after it. -/
def demoRound (failing : String) (p : ContainerdServiceProvider) :
    List (Exchange Containerized) × (Except WfeError Unit × ContainerdServiceProvider) :=
  (consumeRound [twoServices] [] p).answeredBy (demoReplies failing)

theorem demoRound_path (failing : String) (p : ContainerdServiceProvider) :
    Path (consumeRound [twoServices] [] p) (demoRound failing p).1
      ((demoRound failing p).2.1, (demoRound failing p).2.2) :=
  path_answeredBy (I := Containerized) (demoReplies failing) (consumeRound [twoServices] [] p)

theorem demoRound_cleanup {failing : String} {p : ContainerdServiceProvider}
    {x : Exchange Containerized} (hx : x ∈ (demoRound failing p).1) : CleanupSucceeds x := by
  obtain ⟨c, r⟩ := x
  obtain rfl : r = demoReplies failing c := mem_answeredBy (I := Containerized) hx
  exact demoReplies_cleanup failing c

/-- The provider of the examples. -/
def demoProvider : ContainerdServiceProvider := .new "/run/containerd/containerd.sock"

/-- A round whose first service fails, and one whose execution fails. -/
theorem rounds_noLeak_demo :
    NoLeak [(demoRound "wfe-svc-db-w" demoProvider).1, (demoRound "" demoProvider).1] := by
  have hrounds : Rounds demoProvider
      [(demoRound "wfe-svc-db-w" demoProvider).1, (demoRound "" demoProvider).1] demoProvider :=
    .round _ _ (demoRound_path "wfe-svc-db-w" demoProvider)
      (.round _ _ (demoRound_path "" demoProvider) (.done _))
  refine (rounds_noLeak_iff hrounds ?_).mpr ?_
  · simp only [List.mem_cons, List.not_mem_nil, or_false]
    rintro tr (rfl | rfl) x hx <;> exact demoRound_cleanup hx
  · decide

/-- The second of two services cannot be started: the container of the first is left running. -/
theorem container_leaks :
    ¬∀ trs p', Rounds demoProvider trs p' → (∀ tr ∈ trs, ∀ x ∈ tr, CleanupSucceeds x) →
      NoLeak trs := by
  intro h
  have hrounds : Rounds demoProvider [(demoRound "wfe-svc-cache-w" demoProvider).1] _ :=
    .round _ _ (demoRound_path "wfe-svc-cache-w" demoProvider) (.done _)
  have hleak := h _ _ hrounds (by simpa using fun x hx => demoRound_cleanup hx) _ List.prefix_rfl
  have hleft : ServiceEvent.left (serviceEvents
      [(demoRound "wfe-svc-cache-w" demoProvider).1].flatten) = ["wfe-svc-db-w"] := by
    decide
  rw [hleft] at hleak
  cases hleak

end Wfe
