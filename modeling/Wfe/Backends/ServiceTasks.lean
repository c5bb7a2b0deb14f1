import Wfe.Backends.ContainerdServices

/-!
# Starting and cleaning up one container

`run_service` and `cleanup_service` are series of requests to containerd: an image is looked up, a
container created, its file system prepared, and its task created and started. Each request may
fail, and the rest is then not tried; nothing is undone. The task is started by the last request, so
a service has been started exactly if `run_service` succeeds, though a failed one can leave a
container without a task behind.

## Main definitions

* `ContainerdCall`, `Containerd`: the requests to containerd
* `Containerd.runService`, `Containerd.cleanupService`: the two operations
* `ServiceCall.run`: the operations on containers made by requests
* `runningTasks`: the containers whose tasks have been started

## Main results

* `runService_tasks`, `cleanupService_tasks`: what the operations do to tasks
* `runningTasks_eq_left`: the running tasks are those of the containers that are left
-/

namespace Wfe

open Program

/-- A mount of the file system of a container. -/
structure Mount where
  kind : String
  source : String
  target : String
  options : List String
deriving DecidableEq, Repr

/-- The requests to containerd. Connecting, and resolving the chain id of an image, which takes
several reads, are requests of their own. -/
inductive ContainerdRequest
  | connect (addr : String)
  | getImage (name : String)
  | createContainer (id image : String) (env : List (String × String))
  | mounts (key : String)
  | resolveImageChainId (image : String)
  | prepareSnapshot (key parent : String)
  | createTask (containerId : String) (rootfs : List Mount)
  | startTask (containerId : String)
  | deleteTask (containerId : String)
  | deleteContainer (id : String)
deriving DecidableEq, Repr

/-- What a request that succeeds returns. -/
@[reducible] def ContainerdRequest.Value : ContainerdRequest → Type
  | mounts _ | prepareSnapshot _ _ => List Mount
  | resolveImageChainId _ => String
  | connect _ | getImage _ | createContainer .. | createTask .. | startTask _ | deleteTask _
  | deleteContainer _ => Unit

inductive ContainerdCall
  | request (q : ContainerdRequest)
  | provider (c : Call)

/-- A request that fails returns the text of its status. -/
@[reducible] def ContainerdCall.Reply : ContainerdCall → Type
  | request q => Except String q.Value
  | provider c => c.Reply

abbrev Containerd : Interface := ⟨ContainerdCall, ContainerdCall.Reply⟩

namespace Containerd

/-- A request, its failure passed on as `WfeError::StepExecution` with a message. -/
def request (q : ContainerdRequest) (message : String → String) :
    ExceptT WfeError (Program Containerd) q.Value :=
  ExceptT.mk (call (I := Containerd) (.request q) fun r =>
    ret (r.mapError fun e => .stepExecution (message e)))

/-- The mounts of a snapshot, which is prepared if there is none. -/
def prepareRootfs (containerId image : String) :
    ExceptT WfeError (Program Containerd) (List Mount) := do
  match ← ExceptT.lift (perform (I := Containerd) (.request (.mounts containerId))) with
  | .ok mounts => return mounts
  | .error _ =>
    let parent ← request (.resolveImageChainId image) id
    request (.prepareSnapshot containerId parent) fun e => s!"failed to prepare snapshot: {e}"

/-- `ContainerdStep::run_service`. -/
def runService (addr containerId image : String) (env : List (String × String)) :
    ExceptT WfeError (Program Containerd) Unit := do
  request (.connect addr) id
  request (.getImage image) fun status =>
    s!"image '{image}' not found in containerd (namespace=default). " ++
    s!"Pre-pull it with: ctr -n default image pull {image}  (gRPC status: {status})"
  request (.createContainer containerId image env) fun e =>
    s!"failed to create service container: {e}"
  let rootfs ← prepareRootfs containerId image
  request (.createTask containerId rootfs) fun e => s!"failed to create service task: {e}"
  request (.startTask containerId) fun e => s!"failed to start service task: {e}"

/-- `ContainerdStep::cleanup_service`. -/
def cleanupService (addr containerId : String) : ExceptT WfeError (Program Containerd) Unit := do
  request (.connect addr) id
  -- The task may be gone already.
  let _ ← ExceptT.lift (perform (I := Containerd) (.request (.deleteTask containerId)))
  request (.deleteContainer containerId) fun e => s!"failed to delete container: {e}"

end Containerd

/-- The operations on containers, made by requests to containerd. -/
def ServiceCall.run : (c : ServiceCall) → Program Containerd c.Reply
  | .runService addr containerId image env => (Containerd.runService addr containerId image env).run
  | .cleanupService addr containerId => (Containerd.cleanupService addr containerId).run
  | .provider c => perform (I := Containerd) (.provider c)

/-! ## Tasks -/

/-- The containers with a started task, after one more request. -/
def ContainerdCall.tasks (running : List String) : (c : ContainerdCall) → c.Reply → List String
  | .request (.startTask id), .ok _ => id :: running
  | .request (.deleteTask id), .ok _ | .request (.deleteContainer id), .ok _ =>
    running.filter (· ≠ id)
  | _, _ => running

/-- Watches the tasks. -/
def watchTasks : Monitor Containerd (List String) where
  allow _ _ _ := True
  accept _ _ := True
  next := ContainerdCall.tasks

/-- The containers whose tasks have been started along a trace and are not deleted. -/
def runningTasks (tr : List (Exchange Containerd)) : List String := watchTasks.after [] tr

section Rules

variable {running : List String}

/-- A request that neither starts nor deletes. -/
def ContainerdRequest.Aside : ContainerdRequest → Prop
  | startTask _ | deleteTask _ | deleteContainer _ => False
  | _ => True

theorem tasks_of_aside {q : ContainerdRequest} (h : q.Aside) (r : Except String q.Value) :
    ContainerdCall.tasks running (.request q) r = running := by
  cases q <;> first | rfl | cases h

theorem meetsE_request_aside {q : ContainerdRequest} (h : q.Aside) (message : String → String) :
    MeetsE watchTasks (fun running' _ => running' = running) (fun running' _ => running' = running)
      (Containerd.request q message) running := by
  refine ⟨trivial, fun r _ => ?_⟩
  cases r <;> exact tasks_of_aside h _

theorem meetsE_prepareRootfs (containerId image : String) :
    MeetsE watchTasks (fun running' _ => running' = running) (fun running' _ => running' = running)
      (Containerd.prepareRootfs containerId image) running := by
  refine meetsE_bind.mpr (meetsE_lift.mpr ⟨trivial, fun r _ => ?_⟩)
  cases r with
  | ok mounts => rfl
  | error e =>
    refine (meetsE_request_aside (by trivial) id).bind ?_
    rintro _ parent rfl
    exact meetsE_request_aside (by trivial) _

/-- **A service is started exactly if `run_service` succeeds.** -/
theorem runService_tasks (addr containerId image : String) (env : List (String × String)) :
    MeetsE watchTasks (fun running' _ => running' = containerId :: running)
      (fun running' _ => running' = running)
      (Containerd.runService addr containerId image env) running := by
  refine (meetsE_request_aside (by trivial) id).bind ?_
  rintro _ _ rfl
  refine (meetsE_request_aside (by trivial) _).bind ?_
  rintro _ _ rfl
  refine (meetsE_request_aside (by trivial) _).bind ?_
  rintro _ _ rfl
  refine (meetsE_prepareRootfs containerId image).bind ?_
  rintro _ rootfs rfl
  refine (meetsE_request_aside (by trivial) _).bind ?_
  rintro _ _ rfl
  -- Only the last request starts the task.
  refine ⟨trivial, fun r _ => ?_⟩
  cases r <;> rfl

/-- A cleanup that succeeds leaves no task of its container. -/
theorem cleanupService_tasks (addr containerId : String) :
    MeetsE watchTasks (fun running' _ => running' = running.filter (· ≠ containerId))
      (fun _ _ => True) (Containerd.cleanupService addr containerId) running := by
  refine ((meetsE_request_aside (by trivial) id).mono (fun _ _ h => h) fun _ _ _ => trivial).bind ?_
  rintro running _ rfl
  refine meetsE_bind.mpr (meetsE_lift.mpr ⟨trivial, fun r _ => ⟨trivial, fun r' _ => ?_⟩⟩)
  cases r' with
  | error e => trivial
  | ok v =>
    cases r with
    | error e => rfl
    | ok v' =>
      -- Both requests remove the task; it is gone after the first.
      change (running.filter (· ≠ containerId)).filter (· ≠ containerId) = _
      rw [List.filter_filter]
      simp

end Rules

/-! ## Operations as requests -/

/-- What an operation on a container does to tasks is told by its event. -/
theorem run_tasks {c : ServiceCall} {r : c.Reply} {t : List (Exchange Containerd)}
    (h : Path c.run t r) (hcleanup : CleanupSucceeds ⟨c, r⟩) (running : List String) :
    watchTasks.after running t = (c.event r).toList.foldl ServiceEvent.next running := by
  have hallows : watchTasks.Allows running t := Monitor.allows_of_forall (fun _ _ _ => trivial) _
  cases c with
  | runService addr id image env =>
    have hafter := (Meets.path (runService_tasks addr id image env) h hallows).2
    cases r <;> exact hafter
  | cleanupService addr id =>
    have hafter := (Meets.path (cleanupService_tasks addr id) h hallows).2
    cases r with
    | ok v => exact hafter
    | error e => exact hcleanup.elim
  | provider c =>
    obtain ⟨r', tr', rfl, hret⟩ := path_call.mp h
    obtain ⟨rfl, rfl⟩ := path_ret.mp hret
    rfl

theorem after_expands {tr : List (Exchange Containerized)} {tr' : List (Exchange Containerd)}
    (h : Expands (I := Containerized) ServiceCall.run tr tr')
    (hcleanup : ∀ x ∈ tr, CleanupSucceeds x) (running : List String) :
    watchTasks.after running tr' = (serviceEvents tr).foldl ServiceEvent.next running := by
  induction h generalizing running with
  | nil => rfl
  | cons hcall _ ih =>
    rw [Monitor.after_append, run_tasks hcall (hcleanup _ List.mem_cons_self),
      ih fun x hx => hcleanup x (List.mem_cons_of_mem _ hx), serviceEvents_cons, List.foldl_append]

/-- **The running tasks are those of the containers left.** A program whose operations on containers
are made by requests does what it does with the operations as single calls; and if no cleanup
fails, the tasks running in containerd are those of the containers that are left. -/
theorem runningTasks_eq_left {α : Type} {p : Program Containerized α}
    {tr' : List (Exchange Containerd)} {a : α}
    (h : Path (p.translate (I := Containerized) ServiceCall.run) tr' a) :
    ∃ tr, Path p tr a ∧ ((∀ x ∈ tr, CleanupSucceeds x) →
      runningTasks tr' = ServiceEvent.left (serviceEvents tr)) := by
  obtain ⟨tr, hp, hexpands⟩ := path_translate.mp h
  exact ⟨tr, hp, fun hcleanup => after_expands hexpands hcleanup []⟩

end Wfe
