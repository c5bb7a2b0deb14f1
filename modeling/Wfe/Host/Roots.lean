import Mathlib.Data.List.Nodup
import Wfe.Executor.Primitives
import Wfe.Host.WorkflowHost

/-!
# The roots of workflow trees

A workflow is started by an application, or by a `SubWorkflowStep` of another workflow, which then
is its parent. The record of an instance names the root of its tree: a step hands its child the root
of its own workflow, or the id of that workflow where it is a root itself. This value goes through
the step, the host context and the store, and every pass writes it back; all of them together keep
it right, in any interleaving of any number of hosts.

## Main definitions

* `Start`, `Parent`, `UserStarted`: the starts of a run, and the tree they form
* `Grown`: the runs of hosts whose steps start workflows by `SubWorkflowStep` only, with their
  starts
* `rootMonitor`: what a program does with the roots of the instances it loads

## Main results

* `Operation.Standard.roots`: all operations hand on roots as they should
* `root_identity`: the root of every instance is the user-started one its chain of parents leads to
-/

namespace Wfe

open Program Provider

/-! ## Starts -/

/-- A workflow that has been started: its id, and the workflow whose pass has started it, if any. -/
structure Start where
  id : String
  parent : Option String
deriving DecidableEq, Repr

/-- The workflow that a thread executes after an exchange: it has been granted its lock for a
pass. -/
def nextExecuting (executing : Option String) : (c : Call) → c.Reply → Option String
  | .request (.acquireLock .execute workflowId), .ok true => some workflowId
  | _, _ => executing

/-- The workflow that a thread executes, from the exchanges of its current operation. -/
def executingIn (history : List (Exchange Provider)) : Option String :=
  history.foldl (fun executing x => nextExecuting executing x.1 x.2) none

/-- The start that an exchange makes. -/
def startedBy (history : List (Exchange Provider)) : (c : Call) → c.Reply → List Start
  | .request (.createNewWorkflow _), .ok id => [⟨id, executingIn history⟩]
  | _, _ => []

/-- The call does not start a workflow. -/
def StepCall.StartsNothing : StepCall → Prop
  | .startWorkflow _ _ _ _ => False
  | _ => True

/-- The steps of the host start workflows by `SubWorkflowStep` or not at all. -/
def WorkflowHost.Standard (h : WorkflowHost) : Prop :=
  ∀ stepType body, h.stepRegistry.resolve stepType = some body →
    (∃ self : SubWorkflowStep, body = self.run) ∨
      ∀ context, (body context).run.Meets (Monitor.only StepCall.StartsNothing)
        (fun _ _ => True) ()

/-- The operation runs the steps of such a host, or none. -/
def Operation.Standard : Operation → Prop
  | .consumeWorkflow h => h.Standard
  | _ => True

/-- The pools that are reached from an empty store, with the starts made on the way. -/
inductive Grown : List Start → Pool hosts → Prop
  | start : Grown [] (Pool.start hosts .empty)
  | spawn {starts : List Start} {P : Pool hosts} (h : Grown starts P) (t : ℕ) (op : Operation)
      (a : Outcome) (hidle : (P.threads t).rest = .ret a) (hop : op.Standard) :
      Grown starts (P.spawn t op)
  | call {starts : List Start} {P : Pool hosts} (h : Grown starts P) (t : ℕ) (o : Oracle)
      (c : Call) (k : c.Reply → Action Outcome) (r : c.Reply) (s : Shared)
      (hrest : (P.threads t).rest = .call c k) (hanswer : P.shared.answer o t c = some (r, s)) :
      Grown (starts ++ startedBy (P.threads t).history c r) (P.proceed t ⟨c, r⟩ (k r) s)

section Tree

variable (starts : List Start)

/-- `p` has started `c`, by a step. -/
def Parent (p c : String) : Prop := ⟨c, some p⟩ ∈ starts

/-- The workflow has been started by an application. -/
def UserStarted (id : String) : Prop := ⟨id, none⟩ ∈ starts

/-- The root that the starts make the root of a workflow. -/
inductive RootIs : String → Option String → Prop
  | user {id : String} (h : UserStarted starts id) : RootIs id none
  | child {p c : String} {root : Option String} (h : Parent starts p c) (hp : RootIs p root) :
      RootIs c (some (root.getD p))

end Tree

/-! ## Programs and roots -/

/-- What a program knows of roots: the workflow it executes, and the id and root of the instance it
has loaded last. -/
structure RootGhost where
  executing : Option String
  loaded : Option (String × Option String)

/-- The id and the root of an instance. -/
def WorkflowInstance.rooted (w : WorkflowInstance) : String × Option String :=
  (w.id, w.rootWorkflowId)

/-- An instance is written back with the id and the root it has been loaded with, and is created
without a root, or in a pass with the root of the workflow that is executed. -/
def rootMonitor : Monitor Provider RootGhost where
  allow _ c r := ∀ w, Shared.loaded c r = some w →
    ∀ id, c = .request (.getWorkflowInstance id) → w.id = id
  accept g c :=
    match c with
    | .request (.createNewWorkflow w) =>
      match g.executing with
      | none => w.rootWorkflowId = none
      | some p => ∃ root, g.loaded = some (p, root) ∧ w.rootWorkflowId = some (root.getD p)
    | .request (.persistWorkflow _ w) | .request (.persistWorkflowWithSubscriptions w _) =>
      g.loaded = some w.rooted
    | _ => True
  next g c r :=
    ⟨nextExecuting g.executing c r, (Shared.loaded c r).map WorkflowInstance.rooted <|> g.loaded⟩

section Programs

variable {g : RootGhost} {definition : WorkflowDefinition} {h : WorkflowHost} {workflowId : String}

/-- The calls that neither load nor write an instance, nor take a lock. -/
def Call.rootless : Call → Prop
  | .request (.acquireLock _ _) | .request (.createNewWorkflow _) | .request (.persistWorkflow _ _)
  | .request (.persistWorkflowWithSubscriptions _ _) | .request (.getWorkflowInstance _)
  | .request (.getWorkflowInstanceByName _) => False
  | _ => True

/-- These calls leave everything as it is. -/
theorem keeps_root {c : Call} (hc : c.rootless) (g : RootGhost) :
    rootMonitor.Keeps (fun g' => g' = g) c := by
  rintro _ rfl
  cases c with
  | request q =>
    cases q <;> first | exact hc.elim | exact ⟨trivial, fun _ _ => rfl⟩
  | _ => exact ⟨trivial, fun _ _ => rfl⟩

theorem Call.rootless_of_quiet {c : Call} (hc : c.quiet) : c.rootless := by
  cases c with
  | request q => cases q <;> first | exact hc.elim | trivial
  | _ => trivial

/-- In a pass over the workflow `p` with the root `root`. -/
def RootGhost.pass (p : String) (root : Option String) : RootGhost := ⟨some p, some (p, root)⟩

/-- A child is created with the root it is handed. -/
theorem startChild_root (h : WorkflowHost) (definitionId : String) (version : Nat) (data : Json)
    (p : String) (root : Option String) :
    MeetsE rootMonitor (fun g _ => g = .pass p root) (fun g _ => g = .pass p root)
      (h.startChild definitionId version data (some (root.getD p))) (.pass p root) := by
  have hkeeps {c : Call} (hc : c.rootless) := keeps_root hc (.pass p root)
  unfold WorkflowHost.startChild
  split
  · rfl
  · refine (meetsE_tell_of_keeps (hkeeps (c := .ambient) trivial) rfl).bind ?_
    rintro _ env rfl
    refine (meetsE_ask_of_keeps (hkeeps (c := .request (.nextDefinitionSequence _)) trivial)
      rfl).bind ?_
    rintro _ n rfl
    refine MeetsE.bind (Q := fun g _ => g = .pass p root) ⟨⟨root, rfl, rfl⟩, fun r _ => ?_⟩ ?_
    · cases r with
      | ok id => exact rfl
      | error e => exact rfl
    · rintro _ id rfl
      refine (meetsE_ask_of_keeps (hkeeps (c := .request (.queueWork _ _)) trivial) rfl).bind ?_
      rintro _ _ rfl
      rfl

/-- The calls of the steps of a workflow: a child is started with the root of the workflow, or else
its id. -/
def StepCall.StartsUnder (w : WorkflowInstance) : StepCall → Prop
  | .startWorkflow _ _ _ parentRoot => parentRoot = some (w.rootWorkflowId.getD w.id)
  | _ => True

/-- A `SubWorkflowStep` does so. -/
theorem subWorkflowStep_startsUnder (self : SubWorkflowStep) (context : StepExecutionContext) :
    (self.run context).run.Meets (Monitor.only (StepCall.StartsUnder context.workflow))
      (fun _ _ => True) () := by
  refine (meetsE_run (N := fun _ => True)).mp ?_
  -- Checks of a schema make no calls.
  have hvalid (kind : String) (r : Except (List String) Unit) :
      MeetsE (Monitor.only (StepCall.StartsUnder context.workflow)) (fun _ _ => True)
        (fun _ _ => True) (SubWorkflowStep.requireValid kind r) () := by
    cases r <;> trivial
  unfold SubWorkflowStep.run
  split
  · next eventData =>
    unfold SubWorkflowStep.finish
    cases self.outputSchema with
    | none => trivial
    | some schema => exact (hvalid _ _).bind fun _ _ _ => trivial
  · generalize self.hydrate context.step.stepConfig = self
    have hroot : (context.workflow.rootWorkflowId <|> some context.workflow.id) =
        some (context.workflow.rootWorkflowId.getD context.workflow.id) := by
      cases context.workflow.rootWorkflowId <;> rfl
    have hstart (data : Json) : MeetsE (Monitor.only (StepCall.StartsUnder context.workflow))
        (fun _ _ => True) (fun _ _ => True) (do
          let id ← StepM.startWorkflow self.workflowId self.version data
            (some (context.workflow.rootWorkflowId.getD context.workflow.id))
          let env ← StepM.ambient
          return ExecutionResult.waitForEvent "wfe.workflow.completed" id env.now) () := by
      refine meetsE_bind.mpr ⟨rfl, fun r _ => ?_⟩
      cases r with
      | error e => trivial
      | ok id => exact meetsE_bind.mpr ⟨trivial, fun _ _ => trivial⟩
    unfold SubWorkflowStep.begin
    rw [hroot]
    cases self.inputSchema with
    | none =>
      cases context.hostContext with
      | false => trivial
      | true => exact hstart _
    | some schema =>
      refine (hvalid _ _).bind fun _ _ _ => ?_
      cases context.hostContext with
      | false => trivial
      | true => exact hstart _

theorem WorkflowHost.Standard.startsUnder (hh : h.Standard) {stepType : String} {body : StepBody}
    (hbody : h.stepRegistry.resolve stepType = some body) (context : StepExecutionContext) :
    (body context).run.Meets (Monitor.only (StepCall.StartsUnder context.workflow))
      (fun _ _ => True) () := by
  rcases hh stepType body hbody with ⟨self, rfl⟩ | hnothing
  · exact subWorkflowStep_startsUnder self context
  · refine ((hnothing context).simulate (R := fun _ _ => True) trivial ?_).mono fun _ _ _ => trivial
    rintro _ _ c _ hc
    refine ⟨?_, fun _ _ => ⟨trivial, trivial⟩⟩
    cases c with
    | startWorkflow => exact hc.elim
    | _ => trivial

/-- The host makes the calls of such a step. -/
theorem runOn_root {w : WorkflowInstance} (c : StepCall) (hc : c.StartsUnder w) :
    Meets rootMonitor (fun g _ => g = .pass w.id w.rootWorkflowId) (c.runOn (some h.hostContext))
      (.pass w.id w.rootWorkflowId) := by
  cases c with
  | ambient => exact ⟨trivial, fun _ _ => rfl⟩
  | external request => exact ⟨trivial, fun _ _ => rfl⟩
  | startWorkflow definitionId version data parentRoot =>
    obtain rfl : parentRoot = _ := hc
    exact meetsE_run.mp (startChild_root h definitionId version data w.id w.rootWorkflowId)

/-! ## Passes -/

theorem applyStatus_rooted (env : Ambient) (status : Option WorkflowStatus) (w : WorkflowInstance) :
    (applyStatus env status w).rooted = w.rooted := by
  unfold applyStatus
  split <;> rfl

theorem mergeOutput_rooted (w : WorkflowInstance) (out : Option Json) :
    (mergeOutput w out).rooted = w.rooted := by
  unfold mergeOutput
  split <;> rfl

/-- A round of the pointer loop keeps the root, and hands it to the children it starts. -/
theorem runPointer_root (hh : h.Standard) {p : String} {root : Option String} {st : PassState}
    (hst : st.workflow.rooted = (p, root)) (idx : ℕ) :
    MeetsE rootMonitor
      (fun g st' => g = .pass p root ∧ st'.workflow.rooted = (p, root))
      (fun g _ => g = .pass p root)
      (runPointer workflowId definition h.stepRegistry.resolve (some h.hostContext) st idx)
      (.pass p root) := by
  have hkeeps {c : Call} (hc : c.rootless) := keeps_root hc (.pass p root)
  unfold runPointer
  split
  · exact ⟨rfl, hst⟩
  · next e he => exact meetsE_bind.mpr ⟨trivial, fun _ _ => rfl⟩
  · next pointer step hskip =>
    refine (meetsE_tell_of_keeps (hkeeps (c := .ambient) trivial) rfl).bind ?_
    rintro _ env rfl
    exact ⟨rfl, hst⟩
  · next pointer step body hrun =>
    obtain ⟨-, -, hresolve, -⟩ := examinePointer_eq_run hrun
    refine (meetsE_tell_of_keeps (hkeeps (c := .ambient) trivial) rfl).bind ?_
    rintro _ env rfl
    refine (meetsE_tell_of_keeps (hkeeps (c := .publishLifecycle _) trivial) rfl).bind ?_
    rintro _ _ rfl
    -- The body sees the id and the root of the instance.
    obtain ⟨rfl, rfl⟩ : st.workflow.id = p ∧ st.workflow.rootWorkflowId = root := by
      simpa [WorkflowInstance.rooted] using hst
    refine MeetsE.bind (Q := fun g _ => g = .pass st.workflow.id st.workflow.rootWorkflowId)
      (meetsE_lift.mpr ?_) ?_
    · refine (hh.startsUnder hresolve _).translate rfl ?_
      rintro c hc _ rfl
      exact runOn_root c hc
    · rintro _ (e | result) rfl
      · refine (meetsE_tell_of_keeps (hkeeps (c := .publishLifecycle _) trivial) rfl).bind ?_
        rintro _ _ rfl
        refine (meetsE_tell_of_keeps (hkeeps (c := .ambient) trivial) rfl).bind ?_
        rintro _ env' rfl
        have hrooted : (applyError env' definition workflowId idx (startPointer env pointer) e
            { st with
              workflow := st.workflow.setPointer idx (startPointer env pointer) }).workflow.rooted =
            (st.workflow.id, st.workflow.rootWorkflowId) := applyStatus_rooted ..
        dsimp only
        split_ifs
        · exact (meetsE_tell_of_keeps (hkeeps (c := .publishLifecycle _) trivial) rfl).bind
            fun _ _ hg => ⟨hg, hrooted⟩
        · exact ⟨rfl, hrooted⟩
      · refine (meetsE_tell_of_keeps (hkeeps (c := .publishLifecycle _) trivial) rfl).bind ?_
        rintro _ _ rfl
        refine (meetsE_tell_of_keeps (hkeeps (c := .ambient) trivial) rfl).bind ?_
        rintro _ env' rfl
        exact ⟨rfl, mergeOutput_rooted ..⟩

theorem pointerLoop_root (hh : h.Standard) {p : String} {root : Option String} {st : PassState}
    (hst : st.workflow.rooted = (p, root)) (indices : List ℕ) :
    MeetsE rootMonitor
      (fun g st' => g = .pass p root ∧ st'.workflow.rooted = (p, root))
      (fun g _ => g = .pass p root)
      (indices.foldlM (runPointer workflowId definition h.stepRegistry.resolve (some h.hostContext))
        st) (.pass p root) := by
  induction indices generalizing st with
  | nil => exact ⟨rfl, hst⟩
  | cons idx indices ih =>
    rw [List.foldlM_cons]
    refine (runPointer_root hh hst idx).bind ?_
    rintro _ st' ⟨rfl, hst'⟩
    exact ih hst'

/-- The end of a pass writes the instance back with its root. -/
theorem finishPass_root {p : String} {root : Option String} {st : PassState}
    (hst : st.workflow.rooted = (p, root)) :
    MeetsE rootMonitor (fun _ _ => True) (fun _ _ => True) (finishPass workflowId st)
      (.pass p root) := by
  have hkeeps {c : Call} (hc : c.rootless) := keeps_root hc (.pass p root)
  have hcheck : MeetsE rootMonitor (fun g w => g = .pass p root ∧ w.rooted = (p, root))
      (fun _ _ => True) (checkCompletion workflowId st.workflow) (.pass p root) := by
    unfold checkCompletion
    split_ifs
    · refine (meetsE_tell_of_keeps (hkeeps (c := .ambient) trivial) rfl).bind ?_
      rintro _ env rfl
      refine (meetsE_tell_of_keeps (hkeeps (c := .publishLifecycle _) trivial) rfl).bind ?_
      rintro _ _ rfl
      refine (meetsE_tell_of_keeps (hkeeps (c := .ambient) trivial) rfl).bind ?_
      rintro _ env' rfl
      refine meetsE_attempt_bind
        (meetsE_ask_of_keeps (hkeeps (c := .request (.createEvent _)) trivial) rfl) ?_ ?_
      all_goals
        rintro _ _ rfl
        refine meetsE_attempt_bind
          (meetsE_ask_of_keeps (hkeeps (c := .request (.queueWork _ _)) trivial) rfl) ?_ ?_
        all_goals
          rintro _ _ rfl
          exact ⟨rfl, hst⟩
    · exact ⟨rfl, hst⟩
  refine hcheck.bind ?_
  rintro _ w ⟨rfl, hw⟩
  refine MeetsE.bind (Q := fun g _ => g = .pass p root) ?_ ?_
  · unfold persistPass
    have hloaded : (RootGhost.pass p root).loaded =
        some { w with nextExecution := nextExecutionOf w }.rooted := congrArg some hw.symm
    split_ifs
    · refine ⟨hloaded, fun r _ => ?_⟩
      cases r <;> trivial
    · refine ⟨hloaded, fun r _ => ?_⟩
      cases r <;> trivial
  · rintro _ _ rfl
    refine MeetsE.bind (Q := fun g _ => g = .pass p root) ?_ ?_
    · unfold reportErrors
      split_ifs
      · rfl
      · exact (meetsE_ask_of_keeps (hkeeps (c := .request (.persistErrors _)) trivial) rfl).mono
          (fun _ _ hg => hg) fun _ _ _ => trivial
    · rintro _ _ rfl
      unfold requeue
      split_ifs
      · exact (meetsE_ask_of_keeps (hkeeps (c := .request (.queueWork _ _)) trivial) rfl).mono
          (fun _ _ _ => trivial) fun _ _ _ => trivial
      · trivial

/-- A pass, in the midst of any operation. -/
theorem execute_root (hh : h.Standard) (workflowId : String) (definition : WorkflowDefinition)
    (g : RootGhost) :
    MeetsE rootMonitor (fun _ _ => True) (fun _ _ => True)
      (execute workflowId definition h.stepRegistry.resolve (some h.hostContext)) g := by
  refine MeetsE.bind (Q := fun g acquired => acquired = true → g.executing = some workflowId)
    ⟨trivial, fun r _ => ?_⟩ ?_
  · cases r with
    | error e => trivial
    | ok acquired =>
      intro hacquired
      subst hacquired
      rfl
  · intro g acquired hg
    cases acquired with
    | false => exact ⟨trivial, fun _ _ => trivial⟩
    | true =>
      have hinner : MeetsE rootMonitor (fun _ _ => True) (fun _ _ => True)
          (executeInner workflowId definition h.stepRegistry.resolve (some h.hostContext)) g := by
        refine MeetsE.bind (Q := fun g w => g = .pass workflowId w.rootWorkflowId ∧
          w.id = workflowId) ⟨trivial, fun r hr => ?_⟩ ?_
        · cases r with
          | error e => trivial
          | ok w =>
            have hid : w.id = workflowId := hr w rfl workflowId rfl
            refine ⟨?_, hid⟩
            change (⟨g.executing, some (w.id, w.rootWorkflowId)⟩ : RootGhost) = _
            rw [hg rfl, hid]
            rfl
        · rintro _ w ⟨rfl, hid⟩
          split_ifs
          · refine (meetsE_tell_of_keeps (keeps_root (c := .ambient) trivial _) rfl).bind ?_
            rintro _ env rfl
            refine MeetsE.bind ((pointerLoop_root hh ?_ _).mono (fun _ _ h => h)
              fun _ _ _ => trivial) ?_
            · simp [WorkflowInstance.rooted, hid]
            · rintro _ st ⟨rfl, hst⟩
              exact finishPass_root hst
          · trivial
      refine meetsE_attempt_bind hinner ?_ ?_
      all_goals
        intro g result _
        refine meetsE_attempt_bind (Q := fun _ _ => True) (F := fun _ _ => True)
          ⟨trivial, fun r _ => by cases r <;> trivial⟩ ?_ ?_
        · exact fun _ _ _ => trivial
        · exact fun _ _ _ => ⟨trivial, fun _ _ => trivial⟩

/-! ## Operations -/

/-- A call that may be made in any state. -/
theorem keeps_any {c : Call} (hc : ∀ g, rootMonitor.accept g c) :
    rootMonitor.Keeps (fun _ => True) c := fun g _ => ⟨hc g, fun _ _ => trivial⟩

theorem getWorkflowInstance_root (id : String) (g : RootGhost) :
    MeetsE rootMonitor (fun g w => g.loaded = some w.rooted) (fun _ _ => True)
      (getWorkflowInstance id) g := by
  refine ⟨trivial, fun r _ => ?_⟩
  cases r with
  | error e => trivial
  | ok w => exact rfl

theorem getWorkflow_root (idOrName : String) (g : RootGhost) :
    MeetsE rootMonitor (fun g w => g.loaded = some w.rooted) (fun _ _ => True)
      (getWorkflow idOrName) g := by
  refine meetsE_attempt_bind (getWorkflowInstance_root idOrName g) (fun _ _ hg => hg) ?_
  intro g e _
  cases e with
  | workflowNotFound =>
    refine ⟨trivial, fun r _ => ?_⟩
    cases r with
    | error e => trivial
    | ok w => exact rfl
  | _ => trivial

/-- What has been loaded may be written back. -/
theorem persistWorkflow_root (origin : Origin) {w : WorkflowInstance} {g : RootGhost}
    (hg : g.loaded = some w.rooted) :
    MeetsE rootMonitor (fun _ _ => True) (fun _ _ => True) (persistWorkflow origin w) g := by
  refine ⟨hg, fun r _ => ?_⟩
  cases r <;> trivial

theorem ask_root (q : Request) (hq : ∀ g, rootMonitor.accept g (.request q)) (g : RootGhost) :
    MeetsE rootMonitor (fun _ _ => True) (fun _ _ => True) (ask q) g :=
  meetsE_ask_of_keeps (keeps_any hq) trivial

theorem injectServiceEndpoints_root (workflowId : String) (endpoints : List ServiceEndpoint)
    (g : RootGhost) :
    MeetsE rootMonitor (fun _ _ => True) (fun _ _ => True)
      (injectServiceEndpoints workflowId endpoints) g := by
  refine (getWorkflowInstance_root workflowId g).bind fun g w hg => persistWorkflow_root _ ?_
  rw [hg]
  unfold withEndpoints
  split <;> rfl

theorem deliverAll_root (eventId : String) (event : Event) (subs : List EventSubscription)
    (g : RootGhost) :
    MeetsE rootMonitor (fun _ _ => True) (fun _ _ => True) (deliverAll eventId event subs) g := by
  induction subs generalizing g with
  | nil => trivial
  | cons sub subs ih =>
    refine (ask_root (.acquireLock _ _) (fun _ => trivial) g).bind fun g acquired _ => ?_
    cases acquired with
    | false => exact (ask_root (.queueWork _ _) (fun _ => trivial) g).bind fun _ _ _ => trivial
    | true =>
      have hdeliver : MeetsE rootMonitor (fun _ _ => True) (fun _ _ => True)
          (deliver eventId event sub) g := by
        refine (getWorkflowInstance_root _ g).bind fun g w hg => ?_
        refine MeetsE.bind (persistWorkflow_root _ hg) fun g _ _ => ?_
        refine (ask_root (.queueWork _ _) (fun _ => trivial) g).bind fun g _ _ => ?_
        exact ask_root (.terminateSubscription _) (fun _ => trivial) g
      refine meetsE_attempt_bind hdeliver ?_ ?_
      · intro g _ _
        refine (ask_root (.releaseLock _) (fun _ => trivial) g).bind fun g _ _ => ih g
      · intro g _ _
        exact (ask_root (.releaseLock _) (fun _ => trivial) g).bind fun _ _ _ => trivial

theorem consumeEvent_root (g : RootGhost) :
    MeetsE rootMonitor (fun _ _ => True) (fun _ _ => True) consumeEvent g := by
  refine meetsE_attempt_bind (ask_root (.dequeueWork _) (fun _ => trivial) g) ?_
    fun _ _ _ => trivial
  rintro g (_ | eventId) -
  · trivial
  · have hprocess : MeetsE rootMonitor (fun _ _ => True) (fun _ _ => True)
        (processEvent eventId) g := by
      refine (ask_root (.getEvent _) (fun _ => trivial) g).bind fun g event _ => ?_
      refine (ask_root (.getSubscriptions _ _ _) (fun _ => trivial) g).bind fun g subs _ => ?_
      refine (deliverAll_root eventId event subs g).bind fun g delivered _ => ?_
      cases delivered with
      | false => trivial
      | true => exact ask_root (.markEventProcessed _) (fun _ => trivial) g
    refine meetsE_attempt_bind hprocess (fun _ _ _ => trivial) ?_
    exact fun g e _ => meetsE_tell_of_keeps (keeps_any fun _ => trivial) trivial

/-- A workflow that is started by an application has no root. -/
theorem startWorkflowWithName_root (h : WorkflowHost) (definitionId : String) (version : Nat)
    (data : Json) (nameOverride : Option String) :
    MeetsE rootMonitor (fun _ _ => True) (fun _ _ => True)
      (h.startWorkflowWithName definitionId version data nameOverride) ⟨none, none⟩ := by
  have hkeeps {c : Call} (hc : c.rootless) := keeps_root hc ⟨none, none⟩
  unfold WorkflowHost.startWorkflowWithName
  split
  · trivial
  · refine (meetsE_tell_of_keeps (hkeeps (c := .ambient) trivial) rfl).bind ?_
    rintro _ env rfl
    have hname := WorkflowHost.meetsE_instanceName (M := rootMonitor)
      (N := fun g => g = ⟨none, none⟩) (fun c hc => hkeeps (Call.rootless_of_quiet hc))
      definitionId nameOverride rfl
    refine (hname.mono (fun _ _ hg => hg) fun _ _ _ => trivial).bind ?_
    rintro _ name rfl
    refine MeetsE.bind (Q := fun _ _ => True) ⟨rfl, fun r _ => by cases r <;> trivial⟩ ?_
    intro g id _
    refine (ask_root (.queueWork _ _) (fun _ => trivial) g).bind fun g _ _ => ?_
    exact (meetsE_tell_of_keeps (c := .publishLifecycle _) (keeps_any fun _ => trivial)
      trivial).bind fun _ _ _ => trivial

/-- **All operations hand on roots as they should.** -/
theorem Operation.Standard.roots {op : Operation} (hop : op.Standard) :
    op.program.Meets rootMonitor (fun _ _ => True) ⟨none, none⟩ := by
  cases op with
  | consumeWorkflow h =>
    refine meets_operation (N := fun _ => True) (meetsE_consumeWorkflow ?_ ?_ ?_ trivial)
    · intro c hc
      refine keeps_any fun _ => ?_
      cases c with
      | request q => cases q <;> first | exact hc.elim | trivial
      | _ => trivial
    · exact fun workflowId endpoints g _ => injectServiceEndpoints_root workflowId endpoints g
    · exact fun workflowId definition g _ => execute_root hop workflowId definition g
  | consumeEvent => exact meets_operation (N := fun _ => True) (consumeEvent_root _)
  | startWorkflow h definitionId version data nameOverride =>
    exact meets_operation (N := fun _ => True) (startWorkflowWithName_root ..)
  | publishEvent eventName eventKey data =>
    refine meets_operation (N := fun _ => True) ?_
    refine (meetsE_tell_of_keeps (c := .ambient) (keeps_any fun _ => trivial) trivial).bind ?_
    intro g env _
    refine (ask_root (.createEvent _) (fun _ => trivial) g).bind fun g _ _ => ?_
    exact ask_root (.queueWork _ _) (fun _ => trivial) g
  | suspendWorkflow idOrName =>
    refine meets_operation (N := fun _ => True) ((getWorkflow_root _ _).bind fun g w hg => ?_)
    split_ifs
    · trivial
    · refine MeetsE.bind (persistWorkflow_root _ hg) fun g _ _ => ?_
      exact (meetsE_tell_of_keeps (c := .publishLifecycle _) (keeps_any fun _ => trivial)
        trivial).bind fun _ _ _ => trivial
  | resumeWorkflow idOrName =>
    refine meets_operation (N := fun _ => True) ((getWorkflow_root _ _).bind fun g w hg => ?_)
    split_ifs
    · trivial
    · refine MeetsE.bind (persistWorkflow_root _ hg) fun g _ _ => ?_
      refine (ask_root (.queueWork _ _) (fun _ => trivial) g).bind fun g _ _ => ?_
      exact (meetsE_tell_of_keeps (c := .publishLifecycle _) (keeps_any fun _ => trivial)
        trivial).bind fun _ _ _ => trivial
  | terminateWorkflow idOrName =>
    refine meets_operation (N := fun _ => True) ((getWorkflow_root _ _).bind fun g w hg => ?_)
    split_ifs
    · trivial
    · refine (meetsE_tell_of_keeps (N := fun g => g.loaded = some w.rooted) (c := .ambient)
        (fun _ hg => ⟨trivial, fun _ _ => hg⟩) hg).bind fun g env hg => ?_
      refine MeetsE.bind (persistWorkflow_root _ hg) fun g _ _ => ?_
      exact (meetsE_tell_of_keeps (c := .publishLifecycle _) (keeps_any fun _ => trivial)
        trivial).bind fun _ _ _ => trivial

end Programs

/-! ## Runs -/

section Runs

variable {starts starts' : List Start} {P : Pool hosts} {id : String} {root : Option String}

theorem RootIs.mono (h : RootIs starts id root) (hstarts : starts ⊆ starts') :
    RootIs starts' id root := by
  induction h with
  | user h => exact .user (hstarts h)
  | child h _ ih => exact .child (hstarts h) ih

theorem rootMonitor_create {g : RootGhost} {w : WorkflowInstance} :
    rootMonitor.accept g (.request (.createNewWorkflow w)) ↔
      (g.executing = none → w.rootWorkflowId = none) ∧ ∀ p, g.executing = some p →
        ∃ root, g.loaded = some (p, root) ∧ w.rootWorkflowId = some (root.getD p) := by
  obtain ⟨executing, loaded⟩ := g
  cases executing with
  | none => simp [rootMonitor]
  | some p => simp [rootMonitor]

theorem rootMonitor_executing (g : RootGhost) (history : List (Exchange Provider)) :
    (rootMonitor.after g history).executing =
      history.foldl (fun executing x => nextExecuting executing x.1 x.2) g.executing := by
  induction history generalizing g with
  | nil => rfl
  | cons x history ih => exact ih _

/-- What is stored, and what a program has loaded, has the root that the starts make its root. -/
structure Rooted (starts : List Start) (P : Pool hosts) : Prop where
  nodup : (starts.map Start.id).Nodup
  stored : ∀ id w, P.shared.workflow id = some w → RootIs starts id w.rootWorkflowId
  recorded : ∀ s ∈ starts, ∃ w, P.shared.workflow s.id = some w
  loaded : ∀ t id root, (P.ghost rootMonitor ⟨none, none⟩ t).loaded = some (id, root) →
    RootIs starts id root
  conforms : P.Conforms rootMonitor ⟨none, none⟩ fun _ _ => True

theorem Rooted.spawn (h : Rooted starts P) {t : ℕ} {op : Operation} (hop : op.Standard) :
    Rooted starts (P.spawn t op) := by
  refine ⟨h.nodup, h.stored, h.recorded, fun u id root hu => ?_, h.conforms.spawn hop.roots⟩
  by_cases hut : u = t
  · subst hut
    rw [Pool.ghost_spawn_self] at hu
    cases hu
  · rw [Pool.ghost_spawn_of_ne (S := hosts) op hut] at hu
    exact h.loaded u id root hu

/-- An exchange stores an instance with the root it should have. -/
theorem Rooted.written (h : Rooted starts P) {t : ℕ} {c : Call} {k : c.Reply → Action Outcome}
    {r : c.Reply} {w : WorkflowInstance} (hk : (P.threads t).rest = .call c k)
    (hw : Shared.written c r = some w) :
    RootIs (starts ++ startedBy (P.threads t).history c r) w.id w.rootWorkflowId := by
  have haccept := h.conforms.accept hk
  have hexecuting : (P.ghost rootMonitor ⟨none, none⟩ t).executing =
      executingIn (P.threads t).history := rootMonitor_executing ..
  unfold Shared.written at hw
  split at hw
  · next w₀ id =>
    cases hw
    obtain ⟨hnone, hsome⟩ := rootMonitor_create.mp haccept
    rw [hexecuting] at hnone hsome
    change RootIs _ id w₀.rootWorkflowId
    rw [startedBy]
    cases hparent : executingIn (P.threads t).history with
    | none =>
      rw [hnone hparent]
      exact .user (List.mem_append_right _ List.mem_cons_self)
    | some p =>
      obtain ⟨root, hloaded, hroot⟩ := hsome p hparent
      rw [hroot]
      refine .child (List.mem_append_right _ List.mem_cons_self) ?_
      exact (h.loaded t p root hloaded).mono (List.subset_append_left ..)
  · next w₀ _ =>
    cases hw
    exact (h.loaded t _ _ haccept).mono (List.subset_append_left ..)
  · next w₀ _ _ =>
    cases hw
    exact (h.loaded t _ _ haccept).mono (List.subset_append_left ..)
  · cases hw

/-- An instance that is stored stays so. -/
theorem Shared.exists_workflow_effect {σ : Shared} {t : ℕ} {c : Call} {r : c.Reply} {id : String}
    (h : ∃ w, σ.workflow id = some w) : ∃ w, (Shared.effect t σ c r).workflow id = some w := by
  obtain ⟨w, hw⟩ := h
  rw [Shared.workflow_effect]
  split
  · split_ifs
    · exact ⟨_, rfl⟩
    · exact ⟨w, hw⟩
  · exact ⟨w, hw⟩

/-- A start stores an instance under an id that was not in use. -/
theorem started_new {σ : Shared} {o : Oracle} {t : ℕ} {history : List (Exchange Provider)}
    {c : Call} {r : c.Reply} {start : Start} (hreply : σ.reply o c = some r)
    (hstart : start ∈ startedBy history c r) : startedBy history c r = [start] ∧
      σ.workflow start.id = none ∧ ∃ w, (Shared.effect t σ c r).workflow start.id = some w := by
  unfold startedBy at hstart ⊢
  split at hstart
  · next w id =>
    obtain rfl := List.mem_singleton.mp hstart
    refine ⟨rfl, ?_, ?_⟩
    · have hid := Shared.answered_of_reply_ok hreply
      simp only [Shared.answered] at hid
      split_ifs at hid with hnone
      cases hid
      exact hnone
    · exact ⟨_, by rw [Shared.workflow_effect]; simp; rfl⟩
  · cases hstart

/-- The ids of starts are all different, since those of earlier starts are in use. -/
theorem Rooted.nodup_started (h : Rooted starts P) {t : ℕ} {o : Oracle} {c : Call} {r : c.Reply}
    (hreply : P.shared.reply o c = some r) :
    ((starts ++ startedBy (P.threads t).history c r).map Start.id).Nodup := by
  by_cases hnone : startedBy (P.threads t).history c r = []
  · rw [hnone, List.append_nil]
    exact h.nodup
  · obtain ⟨start, hstart⟩ := List.exists_mem_of_ne_nil _ hnone
    obtain ⟨hsingle, hnew, -⟩ := started_new (t := t) hreply hstart
    rw [hsingle, List.map_append, List.nodup_append]
    refine ⟨h.nodup, by simp, ?_⟩
    rintro a ha b hb rfl
    obtain rfl := List.mem_singleton.mp hb
    obtain ⟨s, hs, hid⟩ := List.mem_map.mp ha
    obtain ⟨w', hw'⟩ := h.recorded s hs
    rw [hid, hnew] at hw'
    cases hw'

theorem Rooted.call (h : Rooted starts P) {t : ℕ} {o : Oracle} {c : Call}
    {k : c.Reply → Action Outcome} {r : c.Reply} {s : Shared}
    (hk : (P.threads t).rest = .call c k) (hanswer : P.shared.answer o t c = some (r, s)) :
    Rooted (starts ++ startedBy (P.threads t).history c r) (P.proceed t ⟨c, r⟩ (k r) s) := by
  obtain ⟨hreply, rfl⟩ := Shared.answer_eq_some.mp hanswer
  have hmono {id : String} {root : Option String} (hroot : RootIs starts id root) :
      RootIs (starts ++ startedBy (P.threads t).history c r) id root :=
    hroot.mono (List.subset_append_left ..)
  refine ⟨h.nodup_started hreply, ?_, ?_, ?_, h.conforms.proceed hk ?_ _⟩
  · intro id w hw
    rcases Shared.workflow_effect_eq_some hw with ⟨hwritten, rfl⟩ | ⟨-, hold⟩
    · exact h.written hk hwritten
    · exact hmono (h.stored id w hold)
  · intro start hstart
    rcases List.mem_append.mp hstart with hstart | hstart
    · exact Shared.exists_workflow_effect (h.recorded start hstart)
    · exact (started_new hreply hstart).2.2
  · intro u id root hu
    by_cases hut : u = t
    · subst hut
      rw [Pool.ghost_proceed_self] at hu
      change ((Shared.loaded c r).map WorkflowInstance.rooted <|>
        (P.ghost rootMonitor ⟨none, none⟩ u).loaded) = some (id, root) at hu
      -- What has just been loaded is stored, and what was loaded before has its root already.
      cases hw : Shared.loaded c r with
      | none =>
        rw [hw] at hu
        exact hmono (h.loaded u id root hu)
      | some w =>
        rw [hw] at hu
        cases hu
        exact hmono (h.stored w.id w (Shared.workflow_of_loaded hreply hw))
    · rw [Pool.ghost_proceed_of_ne (S := hosts) _ _ _ hut] at hu
      exact hmono (h.loaded u id root hu)
  · rintro w hw id rfl
    cases r with
    | error e => cases hw
    | ok w' =>
      cases hw
      exact Shared.workflow_id
        (Shared.answered_getWorkflowInstance (Shared.answered_of_reply_ok hreply))

theorem Grown.rooted (h : Grown starts P) : Rooted starts P := by
  induction h with
  | start =>
    refine ⟨List.nodup_nil, ?_, by simp, ?_, Pool.conforms_start _ trivial⟩
    · intro id w hw
      cases hw
    · intro t id root ht
      cases ht
  | spawn _ t op a _ hop ih => exact ih.spawn hop
  | call _ t o c k r s hk hanswer ih => exact ih.call hk hanswer

/-! ## The tree of starts -/

/-- A workflow has been started once, so it has one parent at most. -/
theorem start_unique (hnodup : (starts.map Start.id).Nodup) {p p' : Option String}
    (h : ⟨id, p⟩ ∈ starts) (h' : ⟨id, p'⟩ ∈ starts) : p = p' := by
  have heq := List.inj_on_of_nodup_map hnodup h h' rfl
  cases heq
  rfl

theorem RootIs.of_user (hnodup : (starts.map Start.id).Nodup) (h : RootIs starts id root)
    (huser : UserStarted starts id) : root = none := by
  cases h with
  | user => rfl
  | child hparent => cases start_unique hnodup huser hparent

/-- The root of a child is a user-started workflow that its chain of parents leads to. -/
theorem RootIs.ancestor {r : String} (h : RootIs starts id (some r)) :
    UserStarted starts r ∧ Relation.TransGen (Parent starts) r id := by
  generalize hroot : some r = root at h
  induction h with
  | user => cases hroot
  | @child p c root hparent hp ih =>
    cases root with
    | none =>
      cases hroot
      cases hp with
      | user huser => exact ⟨huser, .single hparent⟩
    | some r' =>
      cases hroot
      obtain ⟨huser, hpath⟩ := ih rfl
      exact ⟨huser, hpath.tail hparent⟩

/-- It is the only one. -/
theorem RootIs.unique (hnodup : (starts.map Start.id).Nodup) {r : String}
    (h : RootIs starts id root) (huser : UserStarted starts r)
    (hpath : Relation.TransGen (Parent starts) r id) : root = some r := by
  induction h with
  | user hid =>
    obtain ⟨p, -, hparent⟩ := Relation.TransGen.tail'_iff.mp hpath
    cases start_unique hnodup hid hparent
  | @child p c root hparent hp ih =>
    obtain ⟨p', hpath, hparent'⟩ := Relation.TransGen.tail'_iff.mp hpath
    cases start_unique hnodup hparent hparent'
    rcases Relation.reflTransGen_iff_eq_or_transGen.mp hpath with rfl | hpath
    · rw [hp.of_user hnodup huser]
      rfl
    · rw [ih hpath]
      rfl

/-- **The root of every instance** that is stored, in every state that any hosts reach whose steps
start workflows by `SubWorkflowStep` only: a workflow that an application has started has none, and
one that a step has started has the only user-started workflow that its chain of parents leads to.
Every instance has been started once, in one of the two ways. -/
theorem root_identity {starts : List Start} {P : Pool hosts} (h : Grown starts P) (id : String)
    (w : WorkflowInstance) (hw : P.shared.workflow id = some w) :
    (∃! s, s ∈ starts ∧ s.id = id) ∧
    (UserStarted starts id → w.rootWorkflowId = none) ∧
    ∀ p, Parent starts p id → ∃ r, w.rootWorkflowId = some r ∧ UserStarted starts r ∧
      Relation.TransGen (Parent starts) r id ∧
      ∀ r', UserStarted starts r' → Relation.TransGen (Parent starts) r' id → r' = r := by
  have hinv := h.rooted
  have hroot := hinv.stored id w hw
  refine ⟨?_, hroot.of_user hinv.nodup, fun p hparent => ?_⟩
  · have hstart : ∃ p, ⟨id, p⟩ ∈ starts := by
      generalize w.rootWorkflowId = root at hroot
      cases hroot with
      | user huser => exact ⟨_, huser⟩
      | child hparent => exact ⟨_, hparent⟩
    obtain ⟨p, hp⟩ := hstart
    refine ⟨⟨id, p⟩, ⟨hp, rfl⟩, ?_⟩
    rintro ⟨_, p'⟩ ⟨hp', rfl⟩
    rw [start_unique hinv.nodup hp' hp]
  · obtain ⟨r, hr⟩ : ∃ r, w.rootWorkflowId = some r := by
      generalize w.rootWorkflowId = root at hroot
      cases hroot with
      | user huser => cases start_unique hinv.nodup huser hparent
      | child => exact ⟨_, rfl⟩
    rw [hr] at hroot
    obtain ⟨huser, hpath⟩ := hroot.ancestor
    refine ⟨r, hr, huser, hpath, fun r' huser' hpath' => ?_⟩
    have heq := hroot.unique hinv.nodup huser' hpath'
    cases heq
    rfl

end Runs

/-- What a schedule of standard operations computes is reached with some starts. -/
theorem grown_of_schedule {starts : List Start} {P P' : Pool hosts} {ms : List (Pool.Move hosts)}
    (hP : Grown starts P)
    (hms : ∀ t op, .spawn t op ∈ ms → Operation.Standard op)
    (h : Pool.schedule (fun _ _ _ => true) ms P = some P') : ∃ starts', Grown starts' P' := by
  induction ms generalizing starts P with
  | nil =>
    cases h
    exact ⟨starts, hP⟩
  | cons m ms ih =>
    obtain ⟨P₁, hm, hrest⟩ := Option.bind_eq_some_iff.mp h
    have hms' := fun t op hop => hms t op (List.mem_cons_of_mem _ hop)
    rcases Pool.move_eq_some hm with ⟨t, op, a, rfl, ha, rfl⟩ |
      ⟨t, o, c, k, r, s, rfl, hk, hrs, -, rfl⟩
    · exact ih (hP.spawn t op a ha (hms t op List.mem_cons_self)) hms' hrest
    · exact ih (hP.call t o c k r s hk hrs) hms' hrest

/-- Workflows that run one another, three levels deep, and a host for them. -/
def nestedHost : WorkflowHost :=
  ⟨[{ WorkflowDefinition.new "outer" 1 with steps := [WorkflowStep.new 0 "sub"] },
      { WorkflowDefinition.new "middle" 1 with steps := [WorkflowStep.new 0 "subsub"] },
      { WorkflowDefinition.new "inner" 1 with steps := [WorkflowStep.new 0 "step"] }],
    [("sub", SubWorkflowStep.run { workflowId := "middle", version := 1 }),
      ("subsub", SubWorkflowStep.run { workflowId := "inner", version := 1 }),
      ("step", proceedBody)], none⟩

theorem nestedHost_standard : nestedHost.Standard := by
  intro stepType body hbody
  obtain ⟨⟨_, body⟩, hget, rfl⟩ := Option.map_eq_some_iff.mp hbody
  have hmem := Table.mem_of_get hget
  simp only [nestedHost, List.mem_cons, List.not_mem_nil, or_false, Prod.mk.injEq] at hmem
  rcases hmem with ⟨-, rfl⟩ | ⟨-, rfl⟩ | ⟨-, rfl⟩
  · exact .inl ⟨_, rfl⟩
  · exact .inl ⟨_, rfl⟩
  · exact .inr fun _ => trivial

/-- The outer workflow `o` is started and starts `m`, which starts `i`. -/
def nestedMoves : List (Pool.Move hosts) :=
  .spawn 0 (.startWorkflow nestedHost "outer" 1 .null none) :: tick 0 "o" ::
    List.replicate 4 (tick 0 "u") ++
    .spawn 1 (.consumeWorkflow nestedHost) :: List.replicate 7 (tick 1 "u") ++
    tick 1 "m" :: List.replicate 8 (tick 1 "s") ++
    .spawn 1 (.consumeWorkflow nestedHost) :: List.replicate 7 (tick 1 "v") ++
    tick 1 "i" :: List.replicate 8 (tick 1 "r")

theorem nestedMoves_standard (t : ℕ) (op : Operation) (h : .spawn t op ∈ nestedMoves) :
    op.Standard := by
  simp only [nestedMoves, tick, List.mem_append, List.mem_cons, List.mem_replicate, reduceCtorEq,
    and_false, Pool.Move.spawn.injEq, or_false] at h
  rcases h with ((⟨-, rfl⟩ | ⟨-, rfl⟩) | ⟨-, rfl⟩)
  · trivial
  · exact nestedHost_standard
  · exact nestedHost_standard

/-- The innermost workflow has the outermost one as its root. -/
theorem root_identity_nested : ∃ (starts : List Start) (P : Pool hosts) (w : WorkflowInstance),
    Grown starts P ∧ P.shared.workflow "i" = some w ∧ w.rootWorkflowId = some "o" ∧
      UserStarted starts "o" ∧ Relation.TransGen (Parent starts) "o" "i" := by
  have hfacts : (Pool.schedule (fun _ _ _ => true) nestedMoves
      (Pool.start hosts Shared.empty)).map (fun P =>
        (P.shared.workflow "i").map (·.rootWorkflowId)) = some (some (some "o")) := by
    decide
  obtain ⟨P, hP, hvalues⟩ := Option.map_eq_some_iff.mp hfacts
  obtain ⟨w, hw, hroot⟩ := Option.map_eq_some_iff.mp hvalues
  obtain ⟨starts, hgrown⟩ := grown_of_schedule .start nestedMoves_standard hP
  obtain ⟨⟨⟨_, parent⟩, ⟨hs, rfl⟩, -⟩, huser, hchild⟩ := root_identity hgrown "i" w hw
  cases parent with
  | none =>
    rw [huser hs] at hroot
    cases hroot
  | some p =>
    obtain ⟨r, hr, huser, hpath, -⟩ := hchild p hs
    rw [hroot] at hr
    cases hr
    exact ⟨starts, P, w, hgrown, hw, hroot, huser, hpath⟩

end Wfe
