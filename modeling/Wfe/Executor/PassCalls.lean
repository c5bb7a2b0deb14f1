import Wfe.Executor.Pass

/-!
# The calls of a pass

While the pointers of a pass run, the pass reads the clock, publishes lifecycle events and starts
child workflows, each by storing a new instance and queueing it at once; it does not touch its
own instance, the locks or the events. If it fails, it fails after reporting that it was aborted.
This is all that the concurrency arguments need to know about the pointer loop.

## Main definitions

* `Call.quiet`: calls that read the world and publish
* `LoopPhase`, `loopMonitor`: the protocol of the pointer loop

## Main results

* `runPointer_loop`, `pointerLoop_loop`: the pointer loop keeps to the protocol
* `meetsE_pointerLoop`, `meetsE_executeInner`: the pointer loop and the pass under any monitor
-/

namespace Wfe

open Program Provider

/-- The calls that neither store nor queue anything, nor report a diagnostic. -/
def Call.quiet : Call → Prop
  | .ambient | .external _ | .publishLifecycle _ | .request (.nextDefinitionSequence _) => True
  | _ => False

/-- Where the pointer loop is: between two calls of its own, about to queue a child it has
created, or left by an error. -/
inductive LoopPhase
  | running
  | starting (child : String)
  | aborted
deriving DecidableEq, Repr

/-- The calls the pointer loop of a pass over `workflowId` may make. -/
def loopMonitor (workflowId : String) : Monitor Provider LoopPhase where
  allow _ _ _ := True
  accept phase c :=
    match phase with
    | .running => c.quiet ∨ (∃ w, w.status = .runnable ∧ c = .request (.createNewWorkflow w)) ∨
        ∃ e, c = .trace (.passAborted workflowId e)
    | .starting child => c = .request (.queueWork child .workflow)
    | .aborted => False
  next phase c r :=
    match phase, c, r with
    | .running, .request (.createNewWorkflow _), .ok child => .starting child
    | .running, .trace _, _ => .aborted
    | _, _, _ => .running

/-- The host starts child workflows in this way. -/
def HostContext.Starts (host : Option HostContext) (workflowId : String) : Prop :=
  ∀ h ∈ host, ∀ definitionId version data parentRoot,
    Meets (loopMonitor workflowId) (fun phase _ => phase = .running)
      (h.startWorkflow definitionId version data parentRoot).run .running

/-! ## The pointer loop -/

section Loop

variable {workflowId : String} {definition : WorkflowDefinition} {resolve : StepResolver}
  {host : Option HostContext}

theorem loopMonitor_next {c : Call} (h : c.quiet) (r : c.Reply) :
    (loopMonitor workflowId).next .running c r = .running := by
  cases c with
  | request q => cases q <;> first | rfl | cases h
  | trace d => cases h
  | _ => rfl

theorem meetsE_loop_tell {α : Type} {c : Call} {f : c.Reply → Fallible α}
    {Q : LoopPhase → α → Prop} {E : LoopPhase → WfeError → Prop} (h : c.quiet)
    (hf : ∀ r, MeetsE (loopMonitor workflowId) Q E (f r) .running) :
    MeetsE (loopMonitor workflowId) Q E (tell c >>= f) .running := by
  refine meetsE_bind.mpr ⟨.inl h, fun r _ => ?_⟩
  change MeetsE _ Q E (f r) ((loopMonitor workflowId).next .running c r)
  rw [loopMonitor_next h]
  exact hf r

theorem stepCall_loop (hhost : HostContext.Starts host workflowId) (c : StepCall) :
    Meets (loopMonitor workflowId) (fun phase _ => phase = .running) (c.runOn host) .running := by
  cases c with
  | ambient => exact ⟨.inl trivial, fun _ _ => rfl⟩
  | external request => exact ⟨.inl trivial, fun _ _ => rfl⟩
  | startWorkflow definitionId version data parentRoot =>
    cases host with
    | none => rfl
    | some h => exact hhost h rfl definitionId version data parentRoot

theorem runPointer_loop (hhost : HostContext.Starts host workflowId) (st : PassState) (idx : Nat) :
    MeetsE (loopMonitor workflowId)
      (fun phase st' => phase = .running ∧
        ∃ ran, Round definition resolve host workflowId st idx ran st')
      (fun phase e => phase = .aborted ∧
        examinePointer definition resolve st.workflow idx = .abort e)
      (runPointer workflowId definition resolve host st idx) .running := by
  unfold runPointer
  split
  · next h => exact ⟨rfl, _, .absent h⟩
  · next e h => exact meetsE_bind.mpr ⟨.inr (.inr ⟨e, rfl⟩), fun _ _ => ⟨rfl, h⟩⟩
  · next pointer step h =>
    exact meetsE_loop_tell trivial fun env => ⟨rfl, _, .skipped env pointer step h⟩
  · next pointer step body h =>
    refine meetsE_loop_tell trivial fun env => meetsE_loop_tell trivial fun _ => ?_
    refine meetsE_bind.mpr (meetsE_lift.mpr ?_)
    refine (meets_translate (N := fun phase => phase = .running) rfl ?_).returned.mono ?_
    · rintro c _ rfl
      exact stepCall_loop hhost c
    · rintro _ (e | result) ⟨rfl, hbody⟩
      · refine meetsE_loop_tell trivial fun _ => meetsE_loop_tell trivial fun env' => ?_
        have hround : Round definition resolve host workflowId _ _ _ _ :=
          .failed env env' pointer step body e h hbody
        dsimp only
        split_ifs
        · exact meetsE_loop_tell trivial fun _ => ⟨rfl, _, hround⟩
        · exact ⟨rfl, _, hround⟩
      · exact meetsE_loop_tell trivial fun _ => meetsE_loop_tell trivial fun env' =>
          ⟨rfl, _, .returned env env' pointer step body result h hbody⟩

variable (definition resolve) in
theorem pointerLoop_loop (hhost : HostContext.Starts host workflowId) (indices : List Nat)
    (st : PassState) :
    MeetsE (loopMonitor workflowId)
      (fun phase st' => phase = .running ∧
        ∃ ran, Loop definition resolve host workflowId st indices ran st')
      (fun phase e => phase = .aborted ∧ Aborts definition resolve host workflowId st indices e)
      (indices.foldlM (runPointer workflowId definition resolve host) st) .running := by
  induction indices generalizing st with
  | nil => exact ⟨rfl, _, .nil st⟩
  | cons idx indices ih =>
    rw [List.foldlM_cons, meetsE_bind]
    refine (runPointer_loop hhost st idx).mono ?_ ?_
    · rintro _ st' ⟨rfl, ran, hround⟩
      refine (ih st').mono ?_ ?_
      · rintro _ st'' ⟨rfl, rans, hloop⟩
        exact ⟨rfl, _, .cons hround hloop⟩
      · rintro _ e ⟨rfl, habort⟩
        exact ⟨rfl, habort.cons hround⟩
    · rintro _ e ⟨rfl, h⟩
      exact ⟨rfl, [], idx, indices, [], st, rfl, .nil st, h⟩

/-- The pointer loop under a monitor whose states `N` are kept by quiet calls and by starting a
child, and that is in `A` once the pass is aborted. -/
theorem meetsE_pointerLoop {G : Type} {M : Monitor Provider G} {N A : G → Prop} {g : G}
    (hhost : HostContext.Starts host workflowId) (hg : N g)
    (hN : ∀ c : Call, c.quiet → M.Keeps N c)
    (hchild : ∀ g w, N g → w.status = .runnable →
      MeetsE M (fun g _ => N g) (fun g _ => N g)
        (createNewWorkflow w >>= fun id => queueWork id .workflow) g)
    (hA : ∀ g e, N g → M.accept g (.trace (.passAborted workflowId e)) ∧
      ∀ r, M.allow g (.trace (.passAborted workflowId e)) r →
        A (M.next g (.trace (.passAborted workflowId e)) r))
    (indices : List Nat) (st : PassState) :
    MeetsE M
      (fun g st' => N g ∧ ∃ ran, Loop definition resolve host workflowId st indices ran st')
      (fun g e => A g ∧ Aborts definition resolve host workflowId st indices e)
      (indices.foldlM (runPointer workflowId definition resolve host) st) g := by
  -- A phase of the loop corresponds to `N`, to a child still to be queued, or to `A`.
  let R : LoopPhase → G → Prop := fun phase g =>
    match phase with
    | .running => N g
    | .starting child => MeetsE M (fun g _ => N g) (fun g _ => N g) (queueWork child .workflow) g
    | .aborted => A g
  have hloop := (pointerLoop_loop definition resolve hhost indices st).simulate (K := M) (R := R)
    hg ?_
  · refine hloop.mono ?_ ?_
    · rintro g st' ⟨_, hg, rfl, hst'⟩
      exact ⟨hg, hst'⟩
    · rintro g e ⟨_, hg, rfl, he⟩
      exact ⟨hg, he⟩
  · rintro (_ | child | _) g c hg hc
    · rcases hc with hc | ⟨w, hw, rfl⟩ | ⟨e, rfl⟩
      · refine ⟨(hN c hc g hg).1, fun r hr => ⟨trivial, ?_⟩⟩
        rw [loopMonitor_next hc]
        exact (hN c hc g hg).2 r hr
      · have hw' := meetsE_bind.mp (hchild g w hg hw)
        refine ⟨hw'.1, fun r hr => ⟨trivial, ?_⟩⟩
        cases r with
        | ok child => exact hw'.2 (.ok child) hr
        | error e => exact hw'.2 (.error e) hr
      · exact ⟨(hA g e hg).1, fun r hr => ⟨trivial, (hA g e hg).2 r hr⟩⟩
    · obtain rfl : c = .request (.queueWork child .workflow) := hc
      refine ⟨hg.1, fun r hr => ⟨trivial, ?_⟩⟩
      cases r with
      | ok v => exact hg.2 (.ok v) hr
      | error e => exact hg.2 (.error e) hr
    · cases hc

/-! ## The pass -/

/-- The pass under a monitor: it is in `N` while pointers run, in `C w` when `w` is about to be
written, in `S w` when `w` has been written, and ends in `D`, or fails in `F`. -/
theorem meetsE_executeInner {G : Type} {M : Monitor Provider G} {N D F : G → Prop}
    {C S : WorkflowInstance → G → Prop} {g : G}
    (hhost : HostContext.Starts host workflowId)
    (hload : MeetsE M (fun g w => w.id = workflowId ∧ if w.status = .runnable then N g else D g)
      (fun g _ => F g) (getWorkflowInstance workflowId) g)
    (hN : ∀ c : Call, c.quiet → M.Keeps N c)
    (hchild : ∀ g w, N g → w.status = .runnable →
      MeetsE M (fun g _ => N g) (fun g _ => N g)
        (createNewWorkflow w >>= fun id => queueWork id .workflow) g)
    (habort : ∀ g e, N g → M.accept g (.trace (.passAborted workflowId e)) ∧
      ∀ r, M.allow g (.trace (.passAborted workflowId e)) r →
        F (M.next g (.trace (.passAborted workflowId e)) r))
    (hcomplete : ∀ g w, N g → w.id = workflowId →
      MeetsE M (fun g w' => C { w' with nextExecution := nextExecutionOf w' } g) (fun g _ => F g)
        (completeWorkflow workflowId w) g)
    (hcontinue : ∀ g w, N g → w.id = workflowId → w.status ≠ .complete → C w g)
    (hpersist : ∀ g w subs, C w g →
      MeetsE M (fun g _ => S w g) (fun g _ => F g) (persistPass w subs) g)
    (herrors : ∀ g w errors, S w g →
      MeetsE M (fun g _ => S w g) (fun g _ => F g) (persistErrors errors) g)
    (hrequeue : ∀ g w, S w g →
      MeetsE M (fun g _ => D g) (fun g _ => F g) (requeue workflowId w) g) :
    MeetsE M (fun g _ => D g) (fun g _ => F g)
      (executeInner workflowId definition resolve host) g := by
  refine hload.bind ?_
  rintro g w ⟨hid, hg⟩
  split_ifs with hr
  · rw [if_pos hr] at hg
    refine (meetsE_tell_of_keeps (hN .ambient trivial) hg).bind ?_
    intro g env hg
    refine meetsE_bind.mpr ((meetsE_pointerLoop hhost hg hN hchild habort _ _).mono ?_
      fun _ _ h => h.1)
    rintro g st ⟨hg, _, hloop⟩
    have hst := hloop.continues
    have hid' : st.workflow.id = workflowId := hst.1.trans hid
    have hcheck : MeetsE M (fun g w' => C { w' with nextExecution := nextExecutionOf w' } g)
        (fun g _ => F g) (checkCompletion workflowId st.workflow) g := by
      unfold checkCompletion
      split_ifs
      · exact hcomplete g _ hg hid'
      · exact hcontinue g _ hg hid' (hst.2 (by simp [hr]))
    refine hcheck.bind ?_
    intro g w' hw'
    refine (hpersist g _ _ hw').bind fun g _ hg => ?_
    refine MeetsE.bind (Q := fun g _ => S _ g) ?_ (fun g _ hg => hrequeue g _ hg)
    unfold reportErrors
    split_ifs
    · exact hg
    · exact herrors g _ _ hg
  · rw [if_neg hr] at hg
    exact hg

end Loop

end Wfe
