import Wfe.Host.WorkflowHost

/-!
# No lost work

An instance that is runnable and has an active pointer must be executed again, and nothing but
its queue entry makes a consumer do so: no part of the engine looks for runnable instances in the
store. The duty to put the id back into the queue passes from thread to thread. A consumer takes
it up with the queue entry, and whoever stores an instance with pending work takes it up too; it
is discharged by queueing the id, and by storing or loading the instance without pending work.

Every operation discharges its duties, except at the points where a consumer drops the id it has
dequeued. The points that are reported to the log are excluded by `Attentive`. The silent one,
a busy lock in `execute`, is harmless as long as the holder of the lock has yet to queue the id;
but the holder queues it before it releases the lock, and in between the entry is lost.

## Main definitions

* `WorkflowInstance.PendingWork`, `Shared.Pending`: instances that must be executed again
* `attend`, `WillAttend`: the duty to queue an id, and the programs that will meet it
* `HandedOver`, `Attentive`: the steps under which no work is lost

## Main results

* `operation_attend`: no operation ends with the duty unmet
* `pending_queued_or_attended`: no work is lost along attentive steps
* `dequeued_id_lost`: work is lost when a busy lock is skipped
-/

namespace Wfe

open Program Provider

/-- The instance is runnable and has an active pointer, so it has to be executed again. -/
def WorkflowInstance.PendingWork (w : WorkflowInstance) : Prop :=
  w.status = .runnable ∧ w.hasActive

/-- The diagnostics after which a consumer drops the id it has dequeued. -/
@[simp] def Diagnostic.GivesUp : Diagnostic → Prop
  | .definitionMissing _ | .provisionFailed _ | .injectFailed _ | .passAborted _ _ => True
  | _ => False

/-- The requests whose failure is part of normal operation: lookups may find nothing, and the
service provider is not one of the shared providers. -/
@[simp] def Request.Excused : Request → Prop
  | .getWorkflowInstance _ | .getWorkflowInstanceByName _ | .getEvent _ | .markEventProcessed _
  | .terminateSubscription _ | .provision _ _ | .teardown _ => True
  | _ => False

namespace Attend

/-- Replies of providers that do not fail, on a path that does not give up. -/
@[simp] def allow : (c : Call) → c.Reply → Prop
  | .trace d, _ => ¬d.GivesUp
  | .request (.getWorkflowInstance id), .ok w => w.id = id
  | .request q, .error _ => q.Excused
  | _, _ => True

/-- How an exchange changes the duty to have `id` executed again. It is taken up with the queue
entry or by storing an instance with pending work; it is met by queueing the id, and lapses when
the instance turns out to have no pending work, or when `execute` finds its lock busy. -/
@[simp] def next (id : String) (owes : Prop) : (c : Call) → c.Reply → Prop
  | .request (.dequeueWork .workflow), .ok v => v = some id ∨ owes
  | .request (.queueWork id' .workflow), .ok _ => owes ∧ id' ≠ id
  | .request (.acquireLock .execute id'), .ok false => owes ∧ id' ≠ id
  | .request (.getWorkflowInstance id'), .error _ => owes ∧ id' ≠ id
  | c, r =>
    match Shared.written c r, Shared.loaded c r with
    | some w, _ => (w.id = id ∧ w.PendingWork) ∨ (w.id ≠ id ∧ owes)
    | none, some w => owes ∧ (w.id = id → w.PendingWork)
    | none, none => owes

end Attend

/-- Watches the duty to have `id` executed again. -/
def attend (id : String) : Monitor Provider Prop where
  allow _ := Attend.allow
  accept _ _ := True
  next := Attend.next id

/-- The rest of an operation will still see to `id`: it queues it, stores or finds it without
pending work, or finds its lock busy. -/
def WillAttend (id : String) (p : Action Outcome) : Prop :=
  p.Meets (attend id) (fun owes _ => ¬owes) True

section Operations

variable {id : String}

@[simp] theorem attend_accept (owes : Prop) (c : Call) : (attend id).accept owes c := trivial

@[simp] theorem attend_allow (owes : Prop) (c : Call) (r : c.Reply) :
    (attend id).allow owes c r = Attend.allow c r := rfl

@[simp] theorem attend_next (owes : Prop) (c : Call) (r : c.Reply) :
    (attend id).next owes c r = Attend.next id owes c r := rfl

theorem attend_quiet {owes : Prop} {c : Call} (h : c.quiet) (r : c.Reply) :
    (attend id).next owes c r = owes := by
  cases c with
  | request q => cases q <;> first | (cases r <;> rfl) | cases h
  | trace d => cases h
  | _ => rfl

/-- A new instance is queued as soon as it is stored. -/
theorem child_attend {owes : Prop} (w : WorkflowInstance) {P : Prop} (h : owes → P) :
    MeetsE (attend id) (fun owes _ => owes → P) (fun owes _ => owes → P)
      (createNewWorkflow w >>= fun id => queueWork id .workflow) owes := by
  simp
  grind

/-- A pass over `workflowId` discharges the duty, whether it succeeds or fails. -/
theorem executeInner_attend (workflowId : String) (definition : WorkflowDefinition)
    (h : WorkflowHost) {owes : Prop} (howes : owes → workflowId = id) :
    MeetsE (attend id) (fun owes _ => ¬owes) (fun owes _ => ¬owes)
      (executeInner workflowId definition h.stepRegistry.resolve (some h.hostContext)) owes := by
  refine meetsE_executeInner (N := fun owes => owes → workflowId = id)
    (C := fun w owes => w.id = workflowId ∧ (owes → workflowId = id))
    (S := fun w owes => w.id = workflowId ∧ (owes → workflowId = id ∧ w.PendingWork))
    (h.hostContext_starts workflowId) ?_ ?_ ?_ ?_ ?_ ?_ ?_ ?_ ?_
  · simp [WorkflowInstance.PendingWork]
    grind
  · intro c hc owes howes
    exact ⟨trivial, fun r _ => by rwa [attend_quiet hc]⟩
  · intro owes w howes _
    exact child_attend w howes
  · intro owes e howes
    simp
  · intro owes w howes hid
    simpa [-bind_pure_comp, completeWorkflow, hid] using howes
  · intro owes w howes hid _
    exact ⟨hid, howes⟩
  · -- The write takes up the duty if there is work left, and drops it otherwise.
    intro owes w subs hC
    unfold persistPass
    split_ifs <;>
    · simp
      grind
  · intro owes w errors hS
    simpa using hS
  · intro owes w hS
    -- The pass ends by queueing the id if there is work left.
    unfold requeue
    split_ifs with hw
    · simpa using fun howes => (hS.2 howes).1
    · exact fun howes => hw (hS.2 howes).2

theorem execute_attend (workflowId : String) (definition : WorkflowDefinition)
    (h : WorkflowHost) {owes : Prop} (howes : owes → workflowId = id) :
    MeetsE (attend id) (fun owes _ => ¬owes) (fun owes _ => ¬owes)
      (execute workflowId definition h.stepRegistry.resolve (some h.hostContext)) owes := by
  have hinner := executeInner_attend workflowId definition h howes
  simpa [execute] using ⟨howes, hinner⟩

theorem provisionServices_attend (workflowId : String) (definition : WorkflowDefinition)
    {owes : Prop} (howes : owes → workflowId = id) :
    MeetsE (attend id) (fun owes ready => (owes → workflowId = id) ∧ ready = true)
      (fun owes _ => ¬owes) (provisionServices workflowId definition) owes := by
  simp [-bind_pure_comp, provisionServices, injectServiceEndpoints]
  grind

theorem executeLogged_attend (workflowId : String) (definition : WorkflowDefinition)
    (h : WorkflowHost) {owes : Prop} (howes : owes → workflowId = id) :
    MeetsE (attend id) (fun owes _ => ¬owes) (fun owes _ => ¬owes)
      (executeLogged h workflowId definition) owes := by
  simpa [executeLogged] using execute_attend workflowId definition h howes

theorem executeWithServices_attend (workflowId : String) (definition : WorkflowDefinition)
    (h : WorkflowHost) {owes : Prop} (howes : owes → workflowId = id) :
    MeetsE (attend id) (fun owes _ => ¬owes) (fun owes _ => ¬owes)
      (executeWithServices h workflowId definition) owes := by
  unfold executeWithServices
  split_ifs
  · refine (provisionServices_attend workflowId definition howes).bind ?_
    rintro owes _ ⟨howes, rfl⟩
    simpa using executeLogged_attend workflowId definition h howes
  · exact executeLogged_attend workflowId definition h howes

theorem handleWorkflow_attend (workflowId : String) (h : WorkflowHost) {owes : Prop}
    (howes : owes → workflowId = id) :
    MeetsE (attend id) (fun owes _ => ¬owes) (fun owes _ => ¬owes)
      (handleWorkflow h workflowId) owes := by
  refine meetsE_bind.mpr ?_
  simp
  refine ⟨fun w hid => ?_, ?_⟩
  · split
    · simp
    · next definition _ =>
      -- An instance that is not runnable has no pending work, so the duty lapses.
      split_ifs
      · exact executeWithServices_attend workflowId definition h fun ho => howes ho.1
      · simp
        grind
  · grind

theorem consumeWorkflow_attend (h : WorkflowHost) :
    MeetsE (attend id) (fun owes _ => ¬owes) (fun owes _ => ¬owes) (consumeWorkflow h) False := by
  simp [consumeWorkflow]
  rintro (_ | workflowId)
  · simp
  · exact handleWorkflow_attend workflowId h fun howes => Option.some.inj howes

/-- Between two subscriptions no instance is owed: each delivery queues the instance it has
written. -/
theorem deliverAll_attend (eventId : String) (event : Event) (subs : List EventSubscription) :
    MeetsE (attend id) (fun owes _ => ¬owes) (fun owes _ => ¬owes)
      (deliverAll eventId event subs) False := by
  induction subs with
  | nil => simp [deliverAll]
  | cons sub subs ih =>
    simp [-bind_pure_comp, deliverAll, deliver]
    intro w hid
    -- The instance written is the one of the subscription, and it is queued next.
    have howes : ¬((w.id = id ∧ (deliverEvent event sub w).PendingWork) ∧
        ¬sub.workflowId = id) := fun h => h.2 (hid.symm.trans h.1.1)
    rw [eq_false howes]
    exact ⟨ih, fun hw _ => hid.symm.trans hw⟩

theorem processEvent_attend (eventId : String) :
    MeetsE (attend id) (fun owes _ => ¬owes) (fun owes _ => ¬owes) (processEvent eventId)
      False := by
  simp [processEvent]
  intro event subs
  refine (deliverAll_attend eventId event subs).mono (fun owes marked howes => ?_) fun _ _ h => h
  cases marked <;> simpa using howes

theorem consumeEvent_attend :
    MeetsE (attend id) (fun owes _ => ¬owes) (fun owes _ => ¬owes) consumeEvent False := by
  simp [consumeEvent]
  rintro (_ | eventId)
  · simp
  · simpa using processEvent_attend eventId

theorem getWorkflow_attend (idOrName : String) :
    MeetsE (attend id) (fun owes _ => ¬owes) (fun owes _ => ¬owes) (getWorkflow idOrName)
      False := by
  simp [getWorkflow]
  intro e
  cases e <;> simp

/-- No operation ends with the duty unmet. -/
theorem operation_attend (op : Operation) :
    op.program.Meets (attend id) (fun owes _ => ¬owes) False := by
  cases op with
  | consumeWorkflow h => exact meets_operation (consumeWorkflow_attend h)
  | consumeEvent => exact meets_operation consumeEvent_attend
  | startWorkflow h definitionId version data nameOverride =>
    refine meets_operation (WorkflowHost.meetsE_startWorkflowWithName ?_ ?_ h definitionId version
      data nameOverride not_false)
    · intro c hc owes howes
      exact ⟨trivial, fun r _ => by rwa [attend_quiet hc]⟩
    · intro owes w howes _
      exact child_attend w howes
  | publishEvent eventName eventKey data =>
    refine meets_operation ?_
    simp [-bind_pure_comp, publishEvent]
  | suspendWorkflow idOrName =>
    refine meets_operation ((getWorkflow_attend idOrName).bind ?_)
    intro owes w howes
    split_ifs
    · exact howes
    · simpa [-bind_pure_comp, WorkflowInstance.PendingWork] using fun _ => howes
  | resumeWorkflow idOrName =>
    refine meets_operation ((getWorkflow_attend idOrName).bind ?_)
    intro owes w howes
    split_ifs
    · exact howes
    · simp [-bind_pure_comp]
      grind
  | terminateWorkflow idOrName =>
    refine meets_operation ((getWorkflow_attend idOrName).bind ?_)
    intro owes w howes
    split_ifs
    · exact howes
    · simpa [-bind_pure_comp, WorkflowInstance.PendingWork] using fun _ => howes

end Operations

/-! ## Runs -/

/-- The instance stored under `id` has pending work. -/
def Shared.Pending (σ : Shared) (id : String) : Prop := ∃ w, σ.workflow id = some w ∧ w.PendingWork

/-- When `execute` of thread `t` finds the lock of `id` busy, nothing is lost: the instance has
no pending work, it is still queued, or the thread that holds the lock has yet to queue it. -/
def HandedOver (P : Pool hosts) (t : ℕ) (id : String) : Prop :=
  P.shared.Pending id → id ∈ P.shared.queues .workflow ∨
    ∃ u, u ≠ t ∧ P.shared.holder id = some u ∧ WillAttend id (P.threads u).rest

/-- The steps under which no work is lost: the shared providers do not fail, no consumer gives up
an id it has dequeued, and a busy lock means that the id is handed over. -/
def Attentive (P : Pool hosts) (t : ℕ) : Exchange Provider → Prop
  | ⟨.trace d, _⟩ => ¬d.GivesUp
  | ⟨.request (.provision _ _), _⟩ | ⟨.request (.teardown _), _⟩ => True
  | ⟨.request (.acquireLock .execute id), .ok false⟩ => HandedOver P t id
  | ⟨.request q, r⟩ => P.shared.Answers q r
  | _ => True

section Runs

variable {id : String} {P P' : Pool hosts}

/-- A duty more is a duty harder to meet. -/
theorem Attend.next_mono {owes owes' : Prop} (h : owes' → owes) (c : Call) (r : c.Reply) :
    Attend.next id owes' c r → Attend.next id owes c r := by
  unfold Attend.next
  split
  · exact Or.imp_right h
  · exact And.imp_left h
  · exact And.imp_left h
  · exact And.imp_left h
  · split
    · exact Or.imp_right (And.imp_right h)
    · exact And.imp_left h
    · exact h

theorem meets_attend_anti {p : Action Outcome} {owes owes' : Prop} (h : owes' → owes)
    (hp : p.Meets (attend id) (fun owes _ => ¬owes) owes) :
    p.Meets (attend id) (fun owes _ => ¬owes) owes' := by
  refine (hp.simulate (K := attend id) (R := fun owes owes' => owes' → owes) h ?_).mono ?_
  · intro owes owes' c h _
    exact ⟨trivial, fun r hr => ⟨hr, Attend.next_mono h c r⟩⟩
  · rintro owes' _ ⟨owes, h, howes⟩
    exact mt h howes

theorem Attend.next_written {owes : Prop} {c : Call} {r : c.Reply} {w : WorkflowInstance}
    (h : Shared.written c r = some w) (hid : w.id = id) (hw : w.PendingWork) :
    Attend.next id owes c r := by
  unfold Shared.written at h
  split at h
  all_goals cases h
  all_goals exact .inl ⟨hid, hw⟩

/-- The ways in which the duty ends. -/
theorem Attend.lapse {c : Call} {r : c.Reply} (h : ¬Attend.next id True c r) :
    (∃ v, (⟨c, r⟩ : Exchange Provider) = ⟨.request (.queueWork id .workflow), .ok v⟩) ∨
    (⟨c, r⟩ : Exchange Provider) = ⟨.request (.acquireLock .execute id), .ok false⟩ ∨
    (∃ e, (⟨c, r⟩ : Exchange Provider) = ⟨.request (.getWorkflowInstance id), .error e⟩) ∨
    (∃ w, Shared.written c r = some w ∧ w.id = id) ∨
    (∃ w, Shared.loaded c r = some w ∧ w.id = id ∧ ¬w.PendingWork) := by
  -- One case for each equation of `Attend.next`; the duty survives all others.
  unfold Attend.next at h
  split at h
  · simp at h
  · next id' v =>
    obtain rfl : id' = id := by simpa using h
    exact .inl ⟨v, rfl⟩
  · next id' =>
    obtain rfl : id' = id := by simpa using h
    exact .inr (.inl rfl)
  · next id' e =>
    obtain rfl : id' = id := by simpa using h
    exact .inr (.inr (.inl ⟨e, rfl⟩))
  · split at h
    · next hw => exact .inr (.inr (.inr (.inl ⟨_, hw, by grind⟩)))
    · next w _ hw => exact .inr (.inr (.inr (.inr ⟨w, hw, by grind⟩)))
    · exact absurd trivial h

/-- Only excused requests fail by themselves. -/
theorem Shared.excused_of_answers {σ : Shared} {q : Request} {e : WfeError}
    (h : σ.Answers q (.error e)) : q.Excused := by
  obtain ⟨o, h⟩ := h
  cases q <;> simp_all [Shared.answered]

theorem Attentive.allow {t : ℕ} {c : Call} {r : c.Reply} {o : Oracle}
    (h : Attentive P t ⟨c, r⟩) (hr : P.shared.reply o c = some r) : Attend.allow c r := by
  cases c with
  | trace d => exact h
  | request q =>
    cases r with
    | ok v =>
      cases q with
      | getWorkflowInstance id =>
        exact Shared.workflow_id (Shared.answered_getWorkflowInstance
          (Shared.answered_of_reply_ok hr))
      | _ => trivial
    | error e =>
      cases q with
      | acquireLock origin resource =>
        cases origin <;> exact Shared.excused_of_answers (q := .acquireLock _ resource) h
      | provision workflowId services => trivial
      | teardown workflowId => trivial
      | _ => exact Shared.excused_of_answers h
  | _ => trivial

/-- Every instance with pending work is queued or somebody will attend to it, and no operation
leaves it unattended. -/
structure Attended (id : String) (P : Pool hosts) : Prop where
  settled : ∀ t, (P.threads t).rest.Meets (attend id) (fun owes _ => ¬owes) False
  attended : P.shared.Pending id →
    id ∈ P.shared.queues .workflow ∨ ∃ t, WillAttend id (P.threads t).rest

theorem not_willAttend_ret (a : Outcome) : ¬WillAttend id (.ret a) := fun h => h trivial

theorem Attended.spawn (h : Attended id P) {t : ℕ} {op : Operation} {a : Outcome}
    (ha : (P.threads t).rest = .ret a) : Attended id (P.spawn t op) := by
  constructor
  · exact Pool.forall_spawn (φ := fun th => th.rest.Meets (attend id) _ False) h.settled
      (operation_attend op)
  · intro hp
    refine (h.attended hp).imp_right ?_
    rintro ⟨u, hu⟩
    -- The thread was at rest, so it had no duty.
    have hne : u ≠ t := by
      rintro rfl
      rw [ha] at hu
      exact not_willAttend_ret a hu
    exact ⟨u, by rwa [Pool.spawn_threads_of_ne _ hne]⟩

/-- When the duty of a thread ends, the id is queued, or another thread has the duty too. -/
theorem Attentive.handed_over {t : ℕ} {c : Call} {r : c.Reply} {o : Oracle} {w : WorkflowInstance}
    (h : Attentive P t ⟨c, r⟩) (hr : P.shared.reply o c = some r)
    (hw : P.shared.workflow id = some w) (hpending : w.PendingWork)
    (hkept : ∀ w', Shared.written c r = some w' → w'.id ≠ id)
    (hlapse : ¬Attend.next id True c r) :
    id ∈ (Shared.effect t P.shared c r).queues .workflow ∨
      ∃ u, u ≠ t ∧ WillAttend id (P.threads u).rest := by
  rcases Attend.lapse hlapse with ⟨v, hx⟩ | hx | ⟨e, hx⟩ | ⟨w', hw', hid⟩ | ⟨w', hw', hid, hidle⟩
  · cases hx
    exact .inl (by simp [Shared.effect, Shared.granted])
  · -- The lock is busy, so the id is queued or its holder has the duty.
    cases hx
    rcases h ⟨w, hw, hpending⟩ with hqueued | ⟨u, hu, -, hattend⟩
    · exact .inl hqueued
    · exact .inr ⟨u, hu, hattend⟩
  · -- The instance is stored, so a load that does not fail by itself finds it.
    cases hx
    obtain ⟨o, ho⟩ := h
    rw [Shared.answered_getWorkflowInstance_error ho] at hw
    cases hw
  · exact absurd hid (hkept w' hw')
  · have hstored := Shared.workflow_of_loaded hr hw'
    rw [hid, hw] at hstored
    cases hstored
    exact absurd hpending hidle

theorem Attended.proceed (h : Attended id P) {t : ℕ} {c : Call}
    {k : c.Reply → Action Outcome} {o : Oracle} {r : c.Reply}
    (hk : (P.threads t).rest = .call c k) (hr : P.shared.reply o c = some r)
    (hc : Attentive P t ⟨c, r⟩) :
    Attended id (P.proceed t ⟨c, r⟩ (k r) (Shared.effect t P.shared c r)) := by
  have hallow := hc.allow hr
  -- What the thread makes of the exchange, whether it had the duty before or not.
  have hnext {owes : Prop} (ho : (P.threads t).rest.Meets (attend id) (fun owes _ => ¬owes) owes) :
      (k r).Meets (attend id) (fun owes _ => ¬owes) (Attend.next id owes c r) := by
    rw [hk] at ho
    exact ho.2 r hallow
  have hother {u : ℕ} (hu : u ≠ t) (hw : WillAttend id (P.threads u).rest) :
      ∃ u, WillAttend id
        ((P.proceed t ⟨c, r⟩ (k r) (Shared.effect t P.shared c r)).threads u).rest :=
    ⟨u, by rwa [Pool.proceed_threads_of_ne _ _ _ _ hu]⟩
  have hself {owes : Prop} (hw : Attend.next id owes c r)
      (ho : (P.threads t).rest.Meets (attend id) (fun owes _ => ¬owes) owes) :
      ∃ u, WillAttend id
        ((P.proceed t ⟨c, r⟩ (k r) (Shared.effect t P.shared c r)).threads u).rest := by
    refine ⟨t, ?_⟩
    rw [Pool.proceed_threads_self, WillAttend, ← eq_true hw]
    exact hnext ho
  constructor
  · exact Pool.forall_proceed (φ := fun th => th.rest.Meets (attend id) _ False) h.settled
      (meets_attend_anti False.elim (hnext (h.settled t)))
  · rintro ⟨w, hw, hpending⟩
    rcases Shared.workflow_effect_eq_some hw with ⟨hwritten, hid⟩ | ⟨hkept, hold⟩
    · -- Whoever stores an instance with pending work takes up the duty.
      exact .inr (hself (Attend.next_written hwritten hid hpending) (h.settled t))
    rcases h.attended ⟨w, hold, hpending⟩ with hqueued | ⟨u, hu⟩
    · rcases Shared.mem_queues_effect (t := t) hr hqueued with hqueued | hx
      · exact .inl hqueued
      · -- The thread has dequeued the id, and the duty with it.
        cases hx
        exact .inr (hself (.inl rfl) (h.settled t))
    by_cases hut : u = t
    · subst hut
      by_cases howes : Attend.next id True c r
      · exact .inr (hself howes hu)
      · rcases hc.handed_over hr hold hpending hkept howes with hqueued | ⟨v, hv, hattend⟩
        · exact .inl hqueued
        · exact .inr (hother hv hattend)
    · exact .inr (hother hut hu)

theorem attended_start : Attended id (Pool.start hosts Shared.empty) where
  settled _ := not_false
  attended := by
    rintro ⟨w, hw, -⟩
    cases hw

theorem attended_of_run (h : Pool.Run Attentive (Pool.start hosts Shared.empty) P) :
    Attended id P := by
  refine h.invariant (N := Attended id) ?_ attended_start
  intro P P' hP hstep
  cases hstep with
  | spawn t op a ha => exact hP.spawn ha
  | call t c k o r s hk hs hc =>
    obtain ⟨hr, rfl⟩ := Shared.answer_eq_some.mp hs
    exact hP.proceed hk hr hc

end Runs

/-- **No lost work.** In every state that operations reach by attentive steps, an instance with
pending work is queued, or some thread will still attend to it. -/
theorem pending_queued_or_attended {P : Pool hosts} {id : String}
    (h : Pool.Run Attentive (Pool.start hosts Shared.empty) P) (hpending : P.shared.Pending id) :
    id ∈ P.shared.queues .workflow ∨ ∃ t, WillAttend id (P.threads t).rest :=
  (attended_of_run h).attended hpending

/-- The exchange neither reports anything nor finds a lock busy. -/
def unopposed : Exchange Provider → Bool
  | ⟨.trace _, _⟩ => false
  | ⟨.request (.acquireLock _ _), .ok acquired⟩ => acquired
  | _ => true

theorem attentive_of_unopposed {P : Pool hosts} {o : Oracle} {t : ℕ} {c : Call} {r : c.Reply}
    (ho : o.failure = none) (hr : P.shared.reply o c = some r) (hx : unopposed ⟨c, r⟩ = true) :
    Attentive P t ⟨c, r⟩ := by
  cases c with
  | trace d => cases hx
  | request q =>
    have hans := Shared.answers_of_reply ho hr
    cases q with
    | acquireLock origin resource =>
      cases r with
      | error e => cases origin <;> exact hans
      | ok acquired =>
        obtain rfl : acquired = true := hx
        cases origin <;> exact hans
    | provision workflowId services => trivial
    | teardown workflowId => trivial
    | _ => exact hans
  | _ => trivial

/-- A consumer alone leaves an instance with work left queued. -/
theorem pending_queued_or_attended_consumed : ∃ P : Pool hosts,
    Pool.Run Attentive (Pool.start hosts Shared.empty) P ∧ P.shared.Pending "w" ∧
      ("w" ∈ P.shared.queues .workflow ∨ ∃ t, WillAttend "w" (P.threads t).rest) := by
  have hfacts : (Pool.schedule (fun _ _ x => unopposed x)
      (startMoves ++ passMoves ++ List.replicate 3 (tick 1 "u"))
      (Pool.start hosts Shared.empty)).map (fun P =>
        (P.shared.workflow "w").map fun w => (w.status, w.hasActive)) =
      some (some (.runnable, true)) := rfl
  obtain ⟨P, hP, hw⟩ := Option.map_eq_some_iff.mp hfacts
  obtain ⟨w, hw, hstatus, hactive⟩ : ∃ w, _ ∧ _ ∧ _ := by simpa using hw
  have hpending : P.shared.Pending "w" := ⟨w, hw, hstatus, hactive⟩
  have hrun : Pool.Run Attentive (Pool.start hosts Shared.empty) P := by
    refine Pool.run_of_schedule (n := 2) (Ω := fun o => o.failure.isNone) ?_
      (Pool.idleFrom_start _) (by rfl) (by rfl) hP
    intro P o t c r s _ ho hs hx
    exact attentive_of_unopposed (by simpa using ho) (Shared.answer_eq_some.mp hs).1 hx
  exact ⟨P, hrun, hpending, pending_queued_or_attended hrun hpending⟩

/-- With reliable providers alone, the last queue entry of an instance can be lost: a consumer
executes the first step and queues the instance again, and before it releases the lock a second
consumer dequeues the id, finds the lock busy and drops it. -/
theorem dequeued_id_lost : ¬∀ (P : Pool hosts) (id : String),
    Pool.Run Reliable (Pool.start hosts Shared.empty) P → P.shared.Pending id →
      id ∈ P.shared.queues .workflow ∨ ∃ t, WillAttend id (P.threads t).rest := by
  intro hclaim
  -- The second consumer runs between the requeueing of the first and its release of the lock.
  have hfacts : (Pool.schedule (fun _ _ _ => true) (startMoves ++ passMoves ++
      List.replicate 2 (tick 1 "u") ++ .spawn 2 (.consumeWorkflow twoStepHost) ::
      List.replicate 4 (tick 2 "u") ++ [tick 1 "u"]) (Pool.start hosts Shared.empty)).map (fun P =>
        ((P.shared.workflow "w").map fun w => (w.status, w.hasActive), P.shared.queues .workflow,
          (List.range 3).all fun t => (P.threads t).rest.finished)) =
      some (some (.runnable, true), [], true) := rfl
  obtain ⟨P, hP, hvalues⟩ := Option.map_eq_some_iff.mp hfacts
  obtain ⟨⟨w, hw, hstatus, hactive⟩, hqueue, hdone⟩ : _ ∧ _ ∧ _ := by simpa using hvalues
  have hrun := reliable_of_schedule 3 (Pool.idleFrom_start _) (by rfl) (by rfl) hP
  rcases hclaim P "w" hrun ⟨w, hw, hstatus, hactive⟩ with hmem | ⟨t, ht⟩
  · rw [hqueue] at hmem
    cases hmem
  · have hidle := (Pool.idleFrom_start (S := hosts) (n := 3) _).schedule (by rfl) hP
    obtain ⟨a, hrest⟩ :=
      Program.exists_ret_of_finished (hidle.finished (by simpa using hdone) t)
    rw [hrest] at ht
    exact not_willAttend_ret a ht

end Wfe
