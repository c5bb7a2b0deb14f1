import Wfe.Executor.Primitives
import Wfe.Host.WorkflowHost

/-!
# A finished child signals its parent

A `SubWorkflowStep` waits for an event named `wfe.workflow.completed` whose key is the id of the
child it started. A pass that completes a workflow creates and queues this event before it writes
the instance. The two other ends of a workflow do not: neither `terminate_workflow` nor a step
that fails under the error behaviour `Terminate` announces anything, and a parent waiting for such
a child waits for ever.

As long as no instance is written as terminated and no request of an announcement fails, every
finished instance has been announced, whatever else is interleaved.

## Main definitions

* `announcing`: programs that write an instance as complete only if its completion is announced
* `Announced`, `Stranded`: a completion event that was created and queued, and a parent waiting in
  vain
* `Unterminated`: the steps under which finished instances are announced

## Main results

* `operation_announcing`: every operation announces what it completes
* `finished_announced`: finished instances are announced, and no parent is stranded
* `terminated_child_strands_parent`: a child terminated from outside strands its parent
-/

namespace Wfe

open Program Provider

/-! ## Announcements -/

/-- The name of completion events. -/
def completedEvent : String := "wfe.workflow.completed"

/-- What one operation did about the completion of a workflow: the completion events it created,
and whether the completion is announced. -/
structure Announcement where
  created : String → Prop := fun _ => False
  announced : Prop := False

namespace Announcement

/-- Completion events can be created and queued. -/
@[simp] def allow (g : Announcement) (c : Call) (r : c.Reply) : Prop :=
  Shared.expected c r ∧
    match c, r with
    | .request (.createEvent e), .error _ => e.eventName ≠ completedEvent
    | .request (.queueWork eventId .event), .error _ => ¬g.created eventId
    | _, _ => True

/-- The workflow `id` is written as complete only if its completion is announced. -/
@[simp] def accept (id : String) (g : Announcement) : Call → Prop
  | .request (.createNewWorkflow w) => w.status ≠ .complete
  | .request (.persistWorkflow _ w) | .request (.persistWorkflowWithSubscriptions w _) =>
    w.id = id → w.status = .complete → g.announced
  | _ => True

/-- A completion is announced by queueing its event. One that is found in the store has been
announced before. -/
@[simp] def next (id : String) (g : Announcement) : (c : Call) → c.Reply → Announcement
  | .request (.getWorkflowInstance _), .ok w | .request (.getWorkflowInstanceByName _), .ok w =>
    { g with announced := g.announced ∨ w.id = id ∧ w.status = .complete }
  | .request (.createEvent e), .ok eventId =>
    { g with created := fun x =>
        g.created x ∨ x = eventId ∧ e.eventName = completedEvent ∧ e.eventKey = id }
  | .request (.queueWork eventId .event), .ok _ =>
    { g with announced := g.announced ∨ g.created eventId }
  | _, _ => g

end Announcement

/-- Watches the announcement of the completion of `id`. -/
def announcing (id : String) : Monitor Provider Announcement where
  allow := Announcement.allow
  accept := Announcement.accept id
  next := Announcement.next id

section Operations

variable {id : String} {g : Announcement}

@[simp] theorem announcing_allow (c : Call) (r : c.Reply) :
    (announcing id).allow g c r = g.allow c r := rfl

@[simp] theorem announcing_accept (c : Call) : (announcing id).accept g c = g.accept id c := rfl

@[simp] theorem announcing_next (c : Call) (r : c.Reply) :
    (announcing id).next g c r = g.next id c r := rfl

theorem child_announcing (w : WorkflowInstance) (hw : w.status = .runnable) :
    MeetsE (announcing id) (fun _ _ => True) (fun _ _ => True)
      (createNewWorkflow w >>= fun id => queueWork id .workflow) g := by
  simp [hw]

/-- Completing a workflow announces it. -/
theorem completeWorkflow_announcing (w : WorkflowInstance) :
    MeetsE (announcing id) (fun g w' => w'.id = id → g.announced) (fun _ _ => True)
      (completeWorkflow w.id w) g := by
  simp [-bind_pure_comp, completeWorkflow, Event.new, completedEvent]
  grind

theorem executeInner_announcing (workflowId : String) (definition : WorkflowDefinition)
    (h : WorkflowHost) :
    MeetsE (announcing id) (fun _ _ => True) (fun _ _ => True)
      (executeInner workflowId definition h.stepRegistry.resolve (some h.hostContext)) g := by
  refine meetsE_executeInner (M := announcing id) (N := fun _ => True)
    (C := fun w g => w.id = id → w.status = .complete → g.announced) (S := fun _ _ => True)
    (D := fun _ => True) (F := fun _ => True) (h.hostContext_starts workflowId)
    ?_ ?_ ?_ ?_ ?_ ?_ ?_ ?_ ?_
  · simp
  · intro c hc g _
    refine ⟨?_, fun _ _ => trivial⟩
    cases c with
    | request q => cases q <;> trivial
    | _ => trivial
  · exact fun g w _ hw => child_announcing w hw
  · simp
  · rintro g w _ rfl
    exact (completeWorkflow_announcing w).mono (fun _ _ h hid _ => h hid) fun _ _ h => h
  · exact fun g w _ _ hs _ hc => absurd hc hs
  · intro g w subs hw
    unfold persistPass
    split_ifs <;> simpa using hw
  · simp
  · intro g w _
    unfold requeue
    split_ifs <;> simp

theorem consumeWorkflow_announcing (h : WorkflowHost) :
    MeetsE (announcing id) (fun _ _ => True) (fun _ _ => True) (consumeWorkflow h) g := by
  refine meetsE_consumeWorkflow (M := announcing id) (N := fun _ => True) ?_ ?_ ?_ trivial
  · intro c hc g _
    refine ⟨?_, fun _ _ => trivial⟩
    cases c with
    | request q => cases q <;> trivial
    | _ => trivial
  · intro workflowId endpoints g _
    simp [injectServiceEndpoints]
    grind
  · intro workflowId definition g _
    simpa [execute] using executeInner_announcing workflowId definition h

theorem deliverAll_announcing (eventId : String) (event : Event) (subs : List EventSubscription) :
    MeetsE (announcing id) (fun _ _ => True) (fun _ _ => True) (deliverAll eventId event subs)
      g := by
  induction subs generalizing g with
  | nil => simp [deliverAll]
  | cons sub subs ih =>
    simp [-bind_pure_comp, deliverAll, deliver]
    exact fun w _ => ⟨fun hid hc => .inr ⟨hid, hc⟩, ih⟩

theorem consumeEvent_announcing :
    MeetsE (announcing id) (fun _ _ => True) (fun _ _ => True) consumeEvent g := by
  simp [consumeEvent]
  rintro (_ | eventId)
  · simp
  · simp [processEvent]
    intro event _ subs
    refine (deliverAll_announcing eventId event subs).mono ?_ fun _ _ h => h
    rintro g (_ | _) _ <;> simp

theorem getWorkflow_announcing (idOrName : String) :
    MeetsE (announcing id) (fun _ _ => True) (fun _ _ => True) (getWorkflow idOrName) g := by
  simp [getWorkflow]
  intro e
  cases e <;> simp

theorem operation_announcing (op : Operation) :
    op.program.Meets (announcing id) (fun _ _ => True) g := by
  cases op with
  | consumeWorkflow h => exact meets_operation (N := fun _ => True) (consumeWorkflow_announcing h)
  | consumeEvent => exact meets_operation (N := fun _ => True) consumeEvent_announcing
  | startWorkflow h definitionId version data nameOverride =>
    refine meets_operation (N := fun _ => True) (WorkflowHost.meetsE_startWorkflowWithName ?_ ?_ h
      definitionId version data nameOverride trivial)
    · intro c hc g _
      refine ⟨?_, fun _ _ => trivial⟩
      cases c with
      | request q => cases q <;> trivial
      | _ => trivial
    · exact fun g w _ hw => child_announcing w hw
  | publishEvent eventName eventKey data =>
    refine meets_operation (N := fun _ => True) ?_
    simp [-bind_pure_comp, publishEvent]
  | suspendWorkflow idOrName =>
    refine meets_operation (N := fun _ => True)
      ((getWorkflow_announcing idOrName).bind fun g w _ => ?_)
    split_ifs <;> simp [-bind_pure_comp]
  | resumeWorkflow idOrName =>
    refine meets_operation (N := fun _ => True)
      ((getWorkflow_announcing idOrName).bind fun g w _ => ?_)
    split_ifs <;> simp [-bind_pure_comp]
  | terminateWorkflow idOrName =>
    refine meets_operation (N := fun _ => True)
      ((getWorkflow_announcing idOrName).bind fun g w _ => ?_)
    split_ifs <;> simp [-bind_pure_comp]

end Operations

/-! ## Runs -/

/-- The event announces the completion of `id`. -/
def Event.announces (e : Event) (id : String) : Prop :=
  e.eventName = completedEvent ∧ e.eventKey = id

/-- A completion event of `id` is in the store and has been queued. -/
def Announced (id : String) (P : Pool hosts) : Prop :=
  ∃ eventId e, P.shared.event eventId = some e ∧ e.announces id ∧
    ∃ t, (t, (⟨.request (.queueWork eventId .event), .ok ()⟩ : Exchange Provider)) ∈ P.trace

/-- The instance is finished. -/
def WorkflowStatus.isTerminal : WorkflowStatus → Bool
  | complete | terminated => true
  | _ => false

/-- A pointer waits for the completion of a child that is finished, with no completion event of
the child in the store. -/
def Shared.Stranded (σ : Shared) : Prop :=
  ∃ parentId parent p childId child, σ.workflow parentId = some parent ∧
    p ∈ parent.executionPointers ∧ p.status = .waitingForEvent ∧
    p.eventName = some completedEvent ∧ p.eventKey = some childId ∧
    σ.workflow childId = some child ∧ child.status.isTerminal = true ∧
    ∀ eventId e, σ.event eventId = some e → ¬e.announces childId

/-- No instance is written as terminated, and completion events can be created and queued. -/
def Unterminated (P : Pool hosts) (_ : ℕ) (x : Exchange Provider) : Prop :=
  (∀ w, Shared.written x.1 x.2 = some w → w.status ≠ .terminated) ∧
  match x with
  | ⟨.request (.createEvent e), .error _⟩ => e.eventName ≠ completedEvent
  | ⟨.request (.queueWork eventId .event), .error _⟩ =>
    ∀ e, P.shared.event eventId = some e → e.eventName ≠ completedEvent
  | _ => True

namespace Announcement

variable {id : String} {g : Announcement} {c : Call} {r : c.Reply}

theorem next_created {eventId : String} (h : (g.next id c r).created eventId) :
    (∃ e, (⟨c, r⟩ : Exchange Provider) = ⟨.request (.createEvent e), .ok eventId⟩ ∧
      e.announces id) ∨ g.created eventId := by
  unfold next at h
  split at h
  · exact .inr h
  · exact .inr h
  · rcases h with h | ⟨rfl, h⟩
    · exact .inr h
    · exact .inl ⟨_, rfl, h⟩
  · exact .inr h
  · exact .inr h

theorem next_announced (h : (g.next id c r).announced) :
    (∃ w, Shared.loaded c r = some w ∧ w.id = id ∧ w.status = .complete) ∨
    (∃ eventId, (⟨c, r⟩ : Exchange Provider) = ⟨.request (.queueWork eventId .event), .ok ()⟩ ∧
      g.created eventId) ∨ g.announced := by
  unfold next at h
  split at h
  · exact h.elim (fun h => .inr (.inr h)) fun h => .inl ⟨_, rfl, h⟩
  · exact h.elim (fun h => .inr (.inr h)) fun h => .inl ⟨_, rfl, h⟩
  · exact .inr (.inr h)
  · exact h.elim (fun h => .inr (.inr h)) fun h => .inr (.inl ⟨_, rfl, h⟩)
  · exact .inr (.inr h)

end Announcement

/-- What operations know about announcements is true, and no instance is finished without one. -/
structure Signals (id : String) (P : Pool hosts) : Prop where
  conforms : Pool.Conforms (announcing id) {} (fun _ _ => True) P
  created : ∀ u eventId, (P.ghost (announcing id) {} u).created eventId →
    ∃ e, P.shared.event eventId = some e ∧ e.announces id
  announced : ∀ u, (P.ghost (announcing id) {} u).announced → Announced id P
  finished : ∀ w, P.shared.workflow id = some w → w.status ≠ .terminated ∧
    (w.status = .complete → Announced id P)

section Runs

variable {id : String} {P : Pool hosts} {t : ℕ} {c : Call} {k : c.Reply → Action Outcome}
  {o : Oracle} {r : c.Reply}

theorem signals_start : Signals id (Pool.start hosts Shared.empty) where
  conforms := Pool.conforms_start _ trivial
  created _ _ h := by cases h
  announced _ h := by cases h
  finished _ h := by cases h

theorem Signals.spawn (h : Signals id P) (op : Operation) : Signals id (P.spawn t op) := by
  have hghost (u : ℕ) : (P.spawn t op).ghost (announcing id) {} u = {} ∨
      (P.spawn t op).ghost (announcing id) {} u = P.ghost (announcing id) {} u := by
    by_cases hu : u = t
    · subst hu
      exact .inl (Pool.ghost_spawn_self (P := P) u op)
    · exact .inr (Pool.ghost_spawn_of_ne (P := P) op hu)
  refine ⟨h.conforms.spawn (operation_announcing op), ?_, ?_, h.finished⟩
  · intro u eventId he
    obtain hu | hu := hghost u <;> rw [hu] at he
    · cases he
    · exact h.created u eventId he
  · intro u ha
    obtain hu | hu := hghost u <;> rw [hu] at ha
    · cases ha
    · exact h.announced u ha

theorem announces_congr {e e' : Event} (h : Shared.eventKey e' = Shared.eventKey e)
    (he : e.announces id) : e'.announces id := by
  simp only [Shared.eventKey, Prod.mk.injEq] at h
  exact ⟨h.1.trans he.1, h.2.1.trans he.2⟩

/-- Announcements are not taken back. -/
theorem Announced.proceed (h : Announced id P) (hr : P.shared.reply o c = some r) :
    Announced id (P.proceed t ⟨c, r⟩ (k r) (Shared.effect t P.shared c r)) := by
  obtain ⟨eventId, e, he, ha, u, hu⟩ := h
  obtain ⟨e', he', hkey⟩ := Shared.event_effect_of_some (t := t) hr he
  exact ⟨eventId, e', he', announces_congr hkey ha, u, List.mem_append_left _ hu⟩

section Proceed

variable (h : Signals id P) (hk : (P.threads t).rest = .call c k)
  (hr : P.shared.reply o c = some r) (hc : Unterminated P t ⟨c, r⟩)

include h hr

theorem Signals.created_proceed (u : ℕ) (eventId : String)
    (he : ((P.proceed t ⟨c, r⟩ (k r) (Shared.effect t P.shared c r)).ghost (announcing id) {}
      u).created eventId) :
    ∃ e, (Shared.effect t P.shared c r).event eventId = some e ∧ e.announces id := by
  have hold (he : (P.ghost (announcing id) {} u).created eventId) :
      ∃ e, (Shared.effect t P.shared c r).event eventId = some e ∧ e.announces id := by
    obtain ⟨e, he, ha⟩ := h.created u eventId he
    obtain ⟨e', he', hkey⟩ := Shared.event_effect_of_some (t := t) hr he
    exact ⟨e', he', announces_congr hkey ha⟩
  by_cases hu : u = t
  · subst hu
    rw [Pool.ghost_proceed_self] at he
    rcases Announcement.next_created he with ⟨e, hx, ha⟩ | he
    · cases hx
      refine ⟨{ e with id := eventId }, ?_, ha⟩
      have hfound : Table.get Event.id (Table.put Event.id { e with id := eventId } P.shared.events)
          eventId = some { e with id := eventId } := Table.get_put_self _ _
      exact hfound
    · exact hold he
  · rw [Pool.ghost_proceed_of_ne (P := P) _ _ _ hu] at he
    exact hold he

theorem Signals.announced_proceed (u : ℕ)
    (ha : ((P.proceed t ⟨c, r⟩ (k r) (Shared.effect t P.shared c r)).ghost (announcing id) {}
      u).announced) :
    Announced id (P.proceed t ⟨c, r⟩ (k r) (Shared.effect t P.shared c r)) := by
  by_cases hu : u = t
  · subst hu
    rw [Pool.ghost_proceed_self] at ha
    rcases Announcement.next_announced ha with ⟨w, hw, rfl, hs⟩ | ⟨eventId, hx, hcreated⟩ | ha
    · exact ((h.finished w (Shared.workflow_of_loaded hr hw)).2 hs).proceed hr
    · cases hx
      obtain ⟨e, he, hann⟩ := h.created u eventId hcreated
      exact ⟨eventId, e, he, hann, u, List.mem_append_right _ (List.mem_singleton_self _)⟩
    · exact (h.announced u ha).proceed hr
  · rw [Pool.ghost_proceed_of_ne (P := P) _ _ _ hu] at ha
    exact (h.announced u ha).proceed hr

include hk hc

/-- An instance written as complete has been announced by its writer. -/
theorem Signals.finished_proceed (w : WorkflowInstance)
    (hw : (Shared.effect t P.shared c r).workflow id = some w) :
    w.status ≠ .terminated ∧ (w.status = .complete →
      Announced id (P.proceed t ⟨c, r⟩ (k r) (Shared.effect t P.shared c r))) := by
  rcases Shared.workflow_effect_eq_some hw with ⟨hwritten, hid⟩ | ⟨-, hold⟩
  · refine ⟨hc.1 w hwritten, fun hs => ?_⟩
    have haccept := h.conforms.accept hk
    suffices (P.ghost (announcing id) {} t).announced from (h.announced t this).proceed hr
    unfold Shared.written at hwritten
    split at hwritten
    · cases hwritten
      exact absurd hs haccept
    · cases hwritten
      exact haccept hid hs
    · cases hwritten
      exact haccept hid hs
    · cases hwritten
  · have hold := h.finished w hold
    exact ⟨hold.1, fun hs => (hold.2 hs).proceed hr⟩

theorem Signals.proceed :
    Signals id (P.proceed t ⟨c, r⟩ (k r) (Shared.effect t P.shared c r)) := by
  refine ⟨h.conforms.proceed hk ⟨Shared.expected_of_reply hr, ?_⟩ _, h.created_proceed hr,
    h.announced_proceed hr, h.finished_proceed hk hr hc⟩
  have hc := hc.2
  split
  · exact hc
  · next eventId _ _ =>
    intro hcreated
    obtain ⟨e, he, hann⟩ := h.created t eventId hcreated
    exact hc e he hann.1
  · trivial

end Proceed

theorem signals_of_run (id : String) (h : Pool.Run Unterminated (Pool.start hosts Shared.empty) P) :
    Signals id P := by
  refine h.invariant (N := Signals id) ?_ signals_start
  intro P P' hP hstep
  cases hstep with
  | spawn t op a ha => exact hP.spawn op
  | call t c k o r s hk hs hc =>
    obtain ⟨hr, rfl⟩ := Shared.answer_eq_some.mp hs
    exact hP.proceed hk hr hc

end Runs

/-- **A finished child signals its parent.** In every state reached without a termination, every
finished instance has been announced, and no pointer waits for a finished child without a
completion event. -/
theorem finished_announced {P : Pool hosts}
    (h : Pool.Run Unterminated (Pool.start hosts Shared.empty) P) :
    (∀ id w, P.shared.workflow id = some w → w.status.isTerminal = true → Announced id P) ∧
      ¬P.shared.Stranded := by
  have hfinished (id : String) (w : WorkflowInstance) (hw : P.shared.workflow id = some w)
      (hs : w.status.isTerminal = true) : Announced id P := by
    obtain ⟨hne, hcomplete⟩ := (signals_of_run id h).finished w hw
    cases hstatus : w.status with
    | complete => exact hcomplete hstatus
    | terminated => exact absurd hstatus hne
    | runnable => simp [hstatus, WorkflowStatus.isTerminal] at hs
    | suspended => simp [hstatus, WorkflowStatus.isTerminal] at hs
  refine ⟨hfinished, ?_⟩
  rintro ⟨parentId, parent, p, childId, child, -, -, -, -, -, hchild, hs, hnone⟩
  obtain ⟨eventId, e, he, hann, -⟩ := hfinished childId child hchild hs
  exact hnone eventId e he hann

/-- A workflow whose only step runs another one as a child, and a host for both. -/
def parentHost : WorkflowHost :=
  ⟨[{ WorkflowDefinition.new "parent" 1 with steps := [WorkflowStep.new 0 "sub"] },
      { WorkflowDefinition.new "child" 1 with steps := [WorkflowStep.new 0 "step"] }],
    [("sub", SubWorkflowStep.run { workflowId := "child", version := 1 }), ("step", proceedBody)],
    none⟩

/-- Starts the parent `w`, and executes it: it starts the child `c` and waits for it. -/
def parentMoves : List (Pool.Move hosts) :=
  .spawn 0 (.startWorkflow parentHost "parent" 1 .null none) :: tick 0 "w" ::
    List.replicate 4 (tick 0 "u") ++
    .spawn 1 (.consumeWorkflow parentHost) :: List.replicate 7 (tick 1 "u") ++
    tick 1 "c" :: List.replicate 8 (tick 1 "s")

/-- No request fails, and nothing is written as terminated. -/
def unterminated (_ : Pool hosts) (_ : ℕ) (x : Exchange Provider) : Bool :=
  x.1.succeeded x.2 && (Shared.written x.1 x.2).all fun w => w.status ≠ .terminated

theorem unterminated_holds {P : Pool hosts} {t : ℕ} {x : Exchange Provider}
    (h : unterminated P t x = true) : Unterminated P t x := by
  obtain ⟨hsucceeded, hall⟩ := Bool.and_eq_true_iff.mp h
  refine ⟨fun w hw => ?_, ?_⟩
  · rw [hw] at hall
    simpa using hall
  · split <;> first | cases hsucceeded | trivial

/-- A child that completes is announced. -/
theorem finished_announced_child : ∃ (P : Pool hosts) (w : WorkflowInstance),
    Pool.Run Unterminated (Pool.start hosts Shared.empty) P ∧ P.shared.workflow "c" = some w ∧
      w.status = .complete ∧ Announced "c" P ∧ ¬P.shared.Stranded := by
  have hfacts : (Pool.schedule unterminated (parentMoves ++
      .spawn 1 (.consumeWorkflow parentHost) :: List.replicate 15 (tick 1 "e"))
      (Pool.start hosts Shared.empty)).map (fun P => (P.shared.workflow "c").map (·.status)) =
      some (some .complete) := by decide
  obtain ⟨P, hP, hvalues⟩ := Option.map_eq_some_iff.mp hfacts
  obtain ⟨w, hw, hs⟩ := Option.map_eq_some_iff.mp hvalues
  have hrun : Pool.Run Unterminated (Pool.start hosts Shared.empty) P :=
    Pool.run_of_schedule (n := 2) (Ω := fun _ => true)
      (fun P o t c r s _ _ _ hg => unterminated_holds hg) (Pool.idleFrom_start _) (by rfl)
      (by rfl) hP
  obtain ⟨hfinished, hstranded⟩ := finished_announced hrun
  exact ⟨P, w, hrun, hw, hs, hfinished "c" w hw (by simp [hs, WorkflowStatus.isTerminal]),
    hstranded⟩

/-- The pointer waits for the completion of `childId`. -/
def waitsFor (childId : String) (p : ExecutionPointer) : Bool :=
  p.status = .waitingForEvent ∧ p.eventName = some completedEvent ∧ p.eventKey = some childId

/-- `terminate_workflow` announces nothing: a parent whose child is terminated is stranded. -/
theorem terminated_child_strands_parent : ¬∀ P : Pool hosts,
    Pool.Run Reliable (Pool.start hosts Shared.empty) P → ¬P.shared.Stranded := by
  intro hclaim
  have hfacts : (Pool.schedule (fun _ _ _ => true) (parentMoves ++
      .spawn 2 (.terminateWorkflow "c") :: List.replicate 4 (tick 2 "u"))
      (Pool.start hosts Shared.empty)).map (fun P =>
        ((P.shared.workflow "w").map fun w => w.executionPointers.any (waitsFor "c"),
          (P.shared.workflow "c").map (·.status), P.shared.events)) =
      some (some true, some .terminated, []) := by decide
  obtain ⟨P, hP, hvalues⟩ := Option.map_eq_some_iff.mp hfacts
  simp only [Prod.mk.injEq] at hvalues
  obtain ⟨hparent, hchild, hevents⟩ := hvalues
  obtain ⟨parent, hparent, hwaits⟩ := Option.map_eq_some_iff.mp hparent
  obtain ⟨child, hchild, hs⟩ := Option.map_eq_some_iff.mp hchild
  obtain ⟨p, hp, hwaits⟩ := List.any_eq_true.mp hwaits
  obtain ⟨hstatus, hname, hkey⟩ := of_decide_eq_true hwaits
  have hrun := reliable_of_schedule 3 (Pool.idleFrom_start _) (by rfl) (by rfl) hP
  refine hclaim P hrun ⟨"w", parent, p, "c", child, hparent, hp, hstatus, hname, hkey, hchild,
    by simp [hs, WorkflowStatus.isTerminal], fun eventId e he => ?_⟩
  have hmem := Table.mem_of_get he
  rw [hevents] at hmem
  cases hmem

end Wfe
