import Wfe.Executor.Primitives
import Wfe.Host.WorkflowHost

/-!
# No lost event

An event is stored and queued when it is published; a consumer that takes it from the queue looks
up the subscriptions for it, without a lock, delivers it to each of them and marks it as
processed. A subscription is stored at the end of the pass in which its step asked to wait, and
storing it does not look back at the events already there. An event that is processed between the
two is lost for the subscription, though its time is right.

If no request fails and every subscription is stored before the events it waits for are looked
up, no event is lost.

## Main definitions

* `processing`: what a consumer knows about the event it processes
* `hand`, `Handles`: programs that have an event in hand, and will queue it or mark it as
  processed
* `Timely`: the steps under which no event is lost

## Main results

* `operation_processing`, `operation_hand`: every operation keeps to the two protocols
* `awaited_event_pending`: an event that a subscription waits for is pending
* `event_processed_before_subscription`: an event is processed before its subscription is stored
-/

namespace Wfe

open Program Provider

/-! ## What a consumer knows about the event it processes -/

/-- The event loaded in this round, the subscriptions found for it, and the subscriptions
terminated since. -/
structure Processing where
  event : Option Event := none
  found : Option (List EventSubscription) := none
  terminated : List String := []

namespace Processing

/-- Subscriptions are looked up by name, key and time of the loaded event; an event is marked as
processed when all subscriptions found for it have been terminated; events are created
unprocessed. -/
@[simp] def accept (g : Processing) : Call → Prop
  | .request (.getSubscriptions eventName eventKey asOf) =>
    ∃ e, g.event = some e ∧ (eventName, eventKey, asOf) = Shared.eventKey e
  | .request (.markEventProcessed id) =>
    ∃ e subs, g.event = some e ∧ e.id = id ∧ g.found = some subs ∧ ∀ s ∈ subs, s.id ∈ g.terminated
  | .request (.createEvent e) => e.isProcessed = false
  | _ => True

@[simp] def next (g : Processing) : (c : Call) → c.Reply → Processing
  | .request (.getEvent _), .ok e => { event := some e }
  | .request (.getSubscriptions _ _ _), .ok subs => { g with found := some subs }
  | .request (.terminateSubscription id), .ok _ => { g with terminated := id :: g.terminated }
  | _, _ => g

end Processing

/-- Watches the processing of events. -/
def processing : Monitor Provider Processing where
  allow _ := Shared.expected
  accept := Processing.accept
  next := Processing.next

section Operations

@[simp] theorem processing_allow (g : Processing) (c : Call) (r : c.Reply) :
    processing.allow g c r = Shared.expected c r := rfl

@[simp] theorem processing_accept (g : Processing) (c : Call) :
    processing.accept g c = g.accept c := rfl

@[simp] theorem processing_next (g : Processing) (c : Call) (r : c.Reply) :
    processing.next g c r = g.next c r := rfl

theorem processing_quiet {c : Call} (h : c.quiet) : processing.Keeps (fun _ => True) c := by
  intro g _
  refine ⟨?_, fun _ _ => trivial⟩
  cases c with
  | request q => cases q <;> trivial
  | _ => trivial

theorem child_processing (g : Processing) (w : WorkflowInstance) :
    MeetsE processing (fun _ _ => True) (fun _ _ => True)
      (createNewWorkflow w >>= fun id => queueWork id .workflow) g := by
  simp

theorem executeInner_processing (workflowId : String) (definition : WorkflowDefinition)
    (h : WorkflowHost) (g : Processing) :
    MeetsE processing (fun _ _ => True) (fun _ _ => True)
      (executeInner workflowId definition h.stepRegistry.resolve (some h.hostContext)) g := by
  refine meetsE_executeInner (N := fun _ => True) (C := fun _ _ => True) (S := fun _ _ => True)
    (D := fun _ => True) (F := fun _ => True)
    (h.hostContext_starts workflowId) ?_ ?_ ?_ ?_ ?_ ?_ ?_ ?_ ?_
  · simp
  · exact fun c hc => processing_quiet hc
  · exact fun g w _ _ => child_processing g w
  · simp
  · intro g w _ _
    simp [-bind_pure_comp, completeWorkflow, Event.new]
  · simp
  · intro g w subs _
    unfold persistPass
    split_ifs <;> simp
  · simp
  · intro g w _
    unfold requeue
    split_ifs <;> simp

theorem consumeWorkflow_processing (h : WorkflowHost) (g : Processing) :
    MeetsE processing (fun _ _ => True) (fun _ _ => True) (consumeWorkflow h) g := by
  refine meetsE_consumeWorkflow (N := fun _ => True) ?_ ?_ ?_ trivial
  · intro c hc g _
    refine ⟨?_, fun _ _ => trivial⟩
    cases c with
    | request q => cases q <;> trivial
    | _ => trivial
  · intro workflowId endpoints g _
    simp [injectServiceEndpoints]
  · intro workflowId definition g _
    simpa [execute] using executeInner_processing workflowId definition h g

/-- When the loop runs to its end, every subscription has been terminated. -/
theorem deliverAll_processing (eventId : String) (event : Event) (subs : List EventSubscription)
    (g : Processing) :
    MeetsE processing
      (fun g' all => g'.event = g.event ∧ g'.found = g.found ∧
        (all = true → (∀ s ∈ subs, s.id ∈ g'.terminated) ∧ g.terminated ⊆ g'.terminated))
      (fun _ _ => True) (deliverAll eventId event subs) g := by
  induction subs generalizing g with
  | nil => simp [deliverAll]
  | cons sub subs ih =>
    simp [-bind_pure_comp, deliverAll, deliver]
    intro w hid
    refine (ih _).mono ?_ fun _ _ h => h
    rintro g' all ⟨hevent, hfound, hall⟩
    refine ⟨hevent, hfound, fun h => ?_⟩
    obtain ⟨hsubs, hsub⟩ := hall h
    exact ⟨⟨hsub (by simp), hsubs⟩, fun x hx => hsub (by simp [hx])⟩

theorem consumeEvent_processing (g : Processing) :
    MeetsE processing (fun _ _ => True) (fun _ _ => True) consumeEvent g := by
  simp [consumeEvent]
  rintro (_ | eventId)
  · simp
  · simp [processEvent]
    intro event hid
    refine ⟨rfl, fun subs => ?_⟩
    refine (deliverAll_processing eventId event subs _).mono ?_ fun _ _ h => h
    rintro g' (_ | _) ⟨hevent, hfound, hall⟩
    · simp
    · simpa [hevent, hfound, hid] using (hall rfl).1

theorem operation_processing (op : Operation) (g : Processing) :
    op.program.Meets processing (fun _ _ => True) g := by
  have hplain (h : op.Plain) : op.program.Meets processing (fun _ _ => True) g := by
    refine h.calls.keeps (N := fun _ => True) (fun c hc g _ => ⟨?_, fun _ _ => trivial⟩) trivial
    cases c with
    | request q => cases q <;> trivial
    | _ => trivial
  cases op with
  | consumeWorkflow h => exact meets_operation (N := fun _ => True) (consumeWorkflow_processing h g)
  | consumeEvent => exact meets_operation (N := fun _ => True) (consumeEvent_processing g)
  | publishEvent eventName eventKey data =>
    refine meets_operation (N := fun _ => True) ?_
    simp [-bind_pure_comp, publishEvent, Event.new]
  | _ => exact hplain trivial

end Operations

/-! ## Events in hand -/

namespace Hand

/-- An event is taken in hand with its queue entry or by creating it, and given away by queueing
it or by marking it as processed. -/
@[simp] def next (id : String) (hand : Prop) : (c : Call) → c.Reply → Prop
  | .request (.dequeueWork .event), .ok v => v = some id ∨ hand
  | .request (.createEvent _), .ok id' => id' = id ∨ hand
  | .request (.queueWork id' .event), .ok _ => hand ∧ id' ≠ id
  | .request (.markEventProcessed id'), .ok _ => hand ∧ id' ≠ id
  | _, _ => hand

end Hand

/-- Watches whether the event `id` is in hand, as long as no request fails. -/
def hand (id : String) : Monitor Provider Prop where
  allow _ c r := Shared.expected c r ∧ c.succeeded r = true
  accept _ _ := True
  next := Hand.next id

/-- However the program goes on, it queues the event `id` or marks it as processed. -/
def Handles (id : String) (p : Action Outcome) : Prop :=
  p.Meets (hand id) (fun inHand _ => ¬inHand) True

section HandOperations

variable {id : String} {inHand : Prop}

@[simp] theorem hand_allow (c : Call) (r : c.Reply) :
    (hand id).allow inHand c r = (Shared.expected c r ∧ c.succeeded r = true) := rfl

@[simp] theorem hand_accept (c : Call) : (hand id).accept inHand c := trivial

@[simp] theorem hand_next (c : Call) (r : c.Reply) :
    (hand id).next inHand c r = Hand.next id inHand c r := rfl

/-- Plain calls do not touch the event in hand. -/
theorem hand_plain {c : Call} (h : c.plain) (r : c.Reply) : Hand.next id inHand c r = inHand := by
  cases c with
  | request q =>
    cases q with
    | queueWork id' queue => cases queue <;> first | (cases r <;> rfl) | cases h
    | dequeueWork queue => cases queue <;> first | (cases r <;> rfl) | cases h
    | _ => first | (cases r <;> rfl) | cases h
  | _ => rfl

theorem keeps_hand {c : Call} (h : c.plain) : (hand id).Keeps (fun inHand => ¬inHand) c := by
  intro inHand hn
  exact ⟨trivial, fun r _ => by rwa [hand_next, hand_plain h]⟩

theorem Call.plain_of_quiet {c : Call} (h : c.quiet) : c.plain := by
  cases c with
  | request q => cases q <;> trivial
  | _ => trivial

theorem executeInner_hand (workflowId : String) (definition : WorkflowDefinition)
    (h : WorkflowHost) (hn : ¬inHand) :
    MeetsE (hand id) (fun inHand _ => ¬inHand) (fun inHand _ => ¬inHand)
      (executeInner workflowId definition h.stepRegistry.resolve (some h.hostContext)) inHand := by
  refine meetsE_executeInner (N := fun inHand => ¬inHand) (C := fun _ inHand => ¬inHand)
    (S := fun _ inHand => ¬inHand) (h.hostContext_starts workflowId) ?_ ?_ ?_ ?_ ?_ ?_ ?_ ?_ ?_
  · simpa using fun _ hid => ⟨hid, hn⟩
  · exact fun c hc => keeps_hand (Call.plain_of_quiet hc)
  · intro inHand w hn _
    simpa using hn
  · intro inHand e hn
    simpa using hn
  · intro inHand w hn _
    simp [-bind_pure_comp, completeWorkflow, Event.new]
    grind
  · exact fun inHand w hn _ _ => hn
  · intro inHand w subs hn
    unfold persistPass
    split_ifs <;> simpa using hn
  · intro inHand w errors hn
    simpa using hn
  · intro inHand w hn
    unfold requeue
    split_ifs <;> simpa using hn

theorem consumeWorkflow_hand (h : WorkflowHost) (hn : ¬inHand) :
    MeetsE (hand id) (fun inHand _ => ¬inHand) (fun inHand _ => ¬inHand) (consumeWorkflow h)
      inHand := by
  refine meetsE_consumeWorkflow (N := fun inHand => ¬inHand) ?_ ?_ ?_ hn
  · intro c hc
    refine keeps_hand ?_
    cases c with
    | request q =>
      cases q with
      | queueWork id' queue => cases queue <;> trivial
      | dequeueWork queue => cases queue <;> trivial
      | _ => trivial
    | _ => trivial
  · intro workflowId endpoints inHand hn
    simpa [injectServiceEndpoints] using fun _ _ => hn
  · intro workflowId definition inHand hn
    simpa [execute] using ⟨hn, executeInner_hand workflowId definition h hn⟩

/-- The loop leaves the event in hand, unless it queues it again. -/
theorem deliverAll_hand (eventId : String) (event : Event) (subs : List EventSubscription)
    (hin : inHand → eventId = id) :
    MeetsE (hand id) (fun inHand all => if all then inHand → eventId = id else ¬inHand)
      (fun inHand _ => ¬inHand) (deliverAll eventId event subs) inHand := by
  induction subs generalizing inHand with
  | nil => simpa [deliverAll] using hin
  | cons sub subs ih =>
    simp [-bind_pure_comp, deliverAll, deliver]
    exact ⟨hin, fun _ _ => ih hin⟩

theorem consumeEvent_hand (hn : ¬inHand) :
    MeetsE (hand id) (fun inHand _ => ¬inHand) (fun inHand _ => ¬inHand) consumeEvent inHand := by
  simp [consumeEvent]
  rintro (_ | eventId)
  · simpa using hn
  · simp [processEvent]
    intro event _ subs
    refine (deliverAll_hand eventId event subs ?_).mono ?_ ?_
    · grind
    · rintro inHand (_ | _) h
      · simpa using h
      · simpa using h
    · intro inHand e h
      simpa using h

theorem operation_hand (op : Operation) :
    op.program.Meets (hand id) (fun inHand _ => ¬inHand) False := by
  have hplain (h : op.Plain) : op.program.Meets (hand id) (fun inHand _ => ¬inHand) False :=
    h.calls.keeps (fun _ => keeps_hand) not_false
  cases op with
  | consumeWorkflow h => exact meets_operation (consumeWorkflow_hand h not_false)
  | consumeEvent => exact meets_operation (consumeEvent_hand not_false)
  | publishEvent eventName eventKey data =>
    refine meets_operation ?_
    simp [-bind_pure_comp, publishEvent, Event.new]
  | _ => exact hplain trivial

end HandOperations

/-! ## Runs -/

/-- The subscription is open, and for events such as `e`. -/
def EventSubscription.awaits (s : EventSubscription) (e : Event) : Bool :=
  s.matches e.eventName e.eventKey e.eventTime

theorem awaits_congr {e e' : Event} (h : Shared.eventKey e = Shared.eventKey e')
    (s : EventSubscription) : s.awaits e = s.awaits e' := by
  simp only [Shared.eventKey, Prod.mk.injEq] at h
  simp only [EventSubscription.awaits, h]

theorem open_of_awaits {s : EventSubscription} {e : Event} (h : s.awaits e = true) :
    s.externalToken = none := by
  simp only [EventSubscription.awaits, EventSubscription.matches, decide_eq_true_eq] at h
  exact h.2.2.2

/-- A subscription to be stored is in time for the event `id` if the event has not been processed,
nor have its subscriptions been looked up. -/
def InTime (P : Pool hosts) (s : EventSubscription) : Prop :=
  ∀ id e, P.shared.event id = some e → s.awaits e = true → e.isProcessed = false ∧
    ∀ u e', (P.ghost processing {} u).event = some e' → e'.id = id →
      (P.ghost processing {} u).found = none

/-- No request fails, and subscriptions are stored in time for the events there are. -/
def Timely (P : Pool hosts) (t : ℕ) (x : Exchange Provider) : Prop :=
  Succeeding P t x ∧
    ∀ w subs, x.1 = .request (.persistWorkflowWithSubscriptions w subs) → ∀ s ∈ subs, InTime P s

namespace Processing

variable {g : Processing} {c : Call} {r : c.Reply}

/-- The event known after a call was loaded by it, or known before. -/
theorem next_event {e : Event} (h : (g.next c r).event = some e) :
    (∃ id, (⟨c, r⟩ : Exchange Provider) = ⟨.request (.getEvent id), .ok e⟩) ∨ g.event = some e := by
  unfold next at h
  split at h
  · cases h
    exact .inl ⟨_, rfl⟩
  all_goals exact .inr h

theorem next_found {e : Event} {subs : List EventSubscription}
    (he : (g.next c r).event = some e) (h : (g.next c r).found = some subs) :
    g.event = some e ∧ (g.found = some subs ∨ ∃ eventName eventKey asOf,
      (⟨c, r⟩ : Exchange Provider) =
        ⟨.request (.getSubscriptions eventName eventKey asOf), .ok subs⟩) := by
  revert he h
  unfold next
  split <;> intro he h
  · cases h
  · cases h
    exact ⟨he, .inr ⟨_, _, _, rfl⟩⟩
  all_goals exact ⟨he, .inl h⟩

theorem next_terminated {id : String} (h : id ∈ (g.next c r).terminated) :
    (∃ v, (⟨c, r⟩ : Exchange Provider) = ⟨.request (.terminateSubscription id), .ok v⟩) ∨
      id ∈ g.terminated := by
  unfold next at h
  split at h
  · cases h
  · exact .inr h
  · rcases List.mem_cons.mp h with rfl | h
    · exact .inl ⟨_, rfl⟩
    · exact .inr h
  · exact .inr h

end Processing

/-- What a consumer knows is true of the store, no processed event is awaited, and an event that
is not processed is queued or in hand. -/
structure Delivered (P : Pool hosts) : Prop where
  conforms : Pool.Conforms processing {} (fun _ _ => True) P
  held : ∀ id, Pool.Conforms (hand id) False (fun inHand _ => ¬inHand) P
  known : ∀ u e, (P.ghost processing {} u).event = some e →
    ∃ e', P.shared.event e.id = some e' ∧ Shared.eventKey e' = Shared.eventKey e
  closed : ∀ u, ∀ id ∈ (P.ghost processing {} u).terminated, P.shared.Closed id
  found : ∀ u e subs, (P.ghost processing {} u).event = some e →
    (P.ghost processing {} u).found = some subs →
    ∀ s ∈ P.shared.subscriptions, s.awaits e = true → s ∈ subs
  processed : ∀ id e, P.shared.event id = some e → e.isProcessed = true →
    ∀ s ∈ P.shared.subscriptions, s.awaits e = false
  pending : ∀ id e, P.shared.event id = some e → e.isProcessed = false →
    id ∈ P.shared.queues .event ∨ ∃ u, P.ghost (hand id) False u

section Runs

variable {P : Pool hosts} {t : ℕ} {c : Call} {k : c.Reply → Action Outcome} {o : Oracle}
  {r : c.Reply}

theorem delivered_start : Delivered (Pool.start hosts Shared.empty) where
  conforms := Pool.conforms_start _ trivial
  held _ := Pool.conforms_start _ not_false
  known _ _ h := by cases h
  closed _ _ h := by cases h
  found _ _ _ h := by cases h
  processed _ _ h := by cases h
  pending _ _ h := by cases h

/-- Taking up an operation, a thread knows nothing and has nothing in hand. -/
theorem Delivered.spawn (h : Delivered P) {a : Outcome} (ha : (P.threads t).rest = .ret a)
    (op : Operation) : Delivered (P.spawn t op) := by
  have hghost (u : ℕ) : (P.spawn t op).ghost processing {} u = {} ∨
      (P.spawn t op).ghost processing {} u = P.ghost processing {} u := by
    by_cases hu : u = t
    · subst hu
      exact .inl (Pool.ghost_spawn_self (P := P) u op)
    · exact .inr (Pool.ghost_spawn_of_ne (P := P) op hu)
  refine ⟨h.conforms.spawn (operation_processing op {}), fun id => (h.held id).spawn
    (operation_hand op), ?_, ?_, ?_, h.processed, ?_⟩
  · intro u e he
    obtain hu | hu := hghost u <;> rw [hu] at he
    · cases he
    · exact h.known u e he
  · intro u id hid
    obtain hu | hu := hghost u <;> rw [hu] at hid
    · cases hid
    · exact h.closed u id hid
  · intro u e subs he hsubs
    obtain hu | hu := hghost u <;> rw [hu] at he hsubs
    · cases he
    · exact h.found u e subs he hsubs
  · intro id e he hp
    refine (h.pending id e he hp).imp_right ?_
    rintro ⟨u, hu⟩
    refine ⟨u, ?_⟩
    -- A thread at rest has nothing in hand.
    have hne : u ≠ t := by
      rintro rfl
      exact (h.held id).returned ha hu
    rwa [Pool.ghost_spawn_of_ne (P := P) op hne]

/-- A subscription stored by a call that waits for an event there is was stored in time. -/
theorem inTime_or_mem {s : EventSubscription} {e : Event} (hc : Timely P t ⟨c, r⟩)
    (hs : s ∈ (Shared.effect t P.shared c r).subscriptions) (he : s.awaits e = true) :
    InTime P s ∨ s ∈ P.shared.subscriptions := by
  rcases Shared.mem_subscriptions_effect hs (open_of_awaits he) with ⟨w, subs, v, hx, hmem⟩ | hs
  · cases hx
    exact .inl (hc.2 w subs rfl s hmem)
  · exact .inr hs

section Proceed

variable (h : Delivered P) (hk : (P.threads t).rest = .call c k)
  (hr : P.shared.reply o c = some r) (hc : Timely P t ⟨c, r⟩)

include h hr

theorem Delivered.known_proceed (u : ℕ) (e : Event)
    (he : ((P.proceed t ⟨c, r⟩ (k r) (Shared.effect t P.shared c r)).ghost processing {} u).event =
      some e) :
    ∃ e', (Shared.effect t P.shared c r).event e.id = some e' ∧
      Shared.eventKey e' = Shared.eventKey e := by
  have hold (he : (P.ghost processing {} u).event = some e) :
      ∃ e', (Shared.effect t P.shared c r).event e.id = some e' ∧
        Shared.eventKey e' = Shared.eventKey e := by
    obtain ⟨e₁, he₁, hkey₁⟩ := h.known u e he
    obtain ⟨e₂, he₂, hkey₂⟩ := Shared.event_effect_of_some (t := t) hr he₁
    exact ⟨e₂, he₂, hkey₂.trans hkey₁⟩
  by_cases hu : u = t
  · subst hu
    rw [Pool.ghost_proceed_self] at he
    rcases Processing.next_event he with ⟨id, hx⟩ | he
    · cases hx
      have hstored := Shared.answered_getEvent (Shared.answered_of_reply_ok hr)
      obtain rfl : e.id = id := Table.key_of_get hstored
      exact ⟨e, hstored, rfl⟩
    · exact hold he
  · rw [Pool.ghost_proceed_of_ne (P := P) _ _ _ hu] at he
    exact hold he

theorem Delivered.closed_proceed (u : ℕ) (id : String)
    (hid : id ∈ ((P.proceed t ⟨c, r⟩ (k r) (Shared.effect t P.shared c r)).ghost processing {}
      u).terminated) :
    (Shared.effect t P.shared c r).Closed id := by
  by_cases hu : u = t
  · subst hu
    rw [Pool.ghost_proceed_self] at hid
    rcases Processing.next_terminated hid with ⟨v, hx⟩ | hid
    · cases hx
      exact Shared.closed_terminate hr
    · exact (h.closed u id hid).effect hr
  · rw [Pool.ghost_proceed_of_ne (P := P) _ _ _ hu] at hid
    exact (h.closed u id hid).effect hr

include hk hc

theorem Delivered.found_proceed (u : ℕ) (e : Event) (subs : List EventSubscription)
    (he : ((P.proceed t ⟨c, r⟩ (k r) (Shared.effect t P.shared c r)).ghost processing {} u).event =
      some e)
    (hsubs : ((P.proceed t ⟨c, r⟩ (k r) (Shared.effect t P.shared c r)).ghost processing {}
      u).found = some subs)
    (s : EventSubscription) (hs : s ∈ (Shared.effect t P.shared c r).subscriptions)
    (hawaits : s.awaits e = true) : s ∈ subs := by
  -- A subscription stored now would be late for an event already looked up.
  have hold (he : (P.ghost processing {} u).event = some e)
      (hsubs : (P.ghost processing {} u).found = some subs) : s ∈ subs := by
    rcases inTime_or_mem hc hs hawaits with hin | hs
    · obtain ⟨e', he', hkey⟩ := h.known u e he
      have hnone := (hin e.id e' he' (awaits_congr hkey s ▸ hawaits)).2 u e he rfl
      rw [hsubs] at hnone
      cases hnone
    · exact h.found u e subs he hsubs s hs hawaits
  by_cases hu : u = t
  · subst hu
    rw [Pool.ghost_proceed_self] at he hsubs
    obtain ⟨hevent, hsubs | ⟨eventName, eventKey, asOf, hx⟩⟩ := Processing.next_found he hsubs
    · exact hold hevent hsubs
    · cases hx
      obtain ⟨e', he', hkey⟩ := h.conforms.accept hk
      rw [hevent] at he'
      cases he'
      have hans := Shared.answered_of_reply_ok hr
      simp only [Shared.answered, Option.some.injEq, Except.ok.injEq] at hans
      subst hans
      simp only [Shared.eventKey, Prod.mk.injEq] at hkey
      obtain ⟨rfl, rfl, rfl⟩ := hkey
      exact Shared.mem_matchingSubscriptions.mpr ⟨hs, hawaits⟩
  · rw [Pool.ghost_proceed_of_ne (P := P) _ _ _ hu] at he hsubs
    exact hold he hsubs

/-- When an event is marked as processed, all subscriptions for it have been terminated. -/
theorem Delivered.processed_proceed (id : String) (e : Event)
    (he : (Shared.effect t P.shared c r).event id = some e) (hp : e.isProcessed = true)
    (s : EventSubscription) (hs : s ∈ (Shared.effect t P.shared c r).subscriptions) :
    s.awaits e = false := by
  by_contra hawaits
  rw [Bool.not_eq_false] at hawaits
  rcases Shared.event_effect_eq_some he with ⟨e₀, hx, rfl⟩ | he | ⟨e₀, v, hx, he₀, rfl⟩
  · cases hx
    have hnew : e₀.isProcessed = false := h.conforms.accept hk
    rw [hnew] at hp
    cases hp
  · rcases inTime_or_mem hc hs hawaits with hin | hs
    · rw [(hin id e he hawaits).1] at hp
      cases hp
    · rw [h.processed id e he hp s hs] at hawaits
      cases hawaits
  · cases hx
    obtain ⟨e₁, subs, he₁, rfl, hsubs, hall⟩ := h.conforms.accept hk
    obtain ⟨e₂, he₂, hkey⟩ := h.known t e₁ he₁
    rw [he₀] at he₂
    cases he₂
    have hawaits₁ : s.awaits e₁ = true := awaits_congr hkey s ▸ hawaits
    have hmem := h.found t e₁ subs he₁ hsubs s hs hawaits₁
    exact (h.closed t s.id (hall s hmem)).2 s hs rfl (open_of_awaits hawaits)

omit h hk hr hc in
/-- An event in hand stays there, or is queued or processed. -/
theorem hand_proceed {id : String} {inHand : Prop} {e : Event} (hin : inHand)
    (he : (Shared.effect t P.shared c r).event id = some e) (hp : e.isProcessed = false) :
    id ∈ (Shared.effect t P.shared c r).queues .event ∨ Hand.next id inHand c r := by
  unfold Hand.next
  split
  · exact .inr (.inr hin)
  · exact .inr (.inr hin)
  · next id' v =>
    by_cases hid : id' = id
    · exact .inl (by simp [Shared.effect, Shared.granted, hid])
    · exact .inr ⟨hin, hid⟩
  · next id' v =>
    refine .inr ⟨hin, ?_⟩
    rintro rfl
    rw [Shared.isProcessed_of_mark he] at hp
    cases hp
  · exact .inr hin

theorem Delivered.pending_proceed (id : String) (e : Event)
    (he : (Shared.effect t P.shared c r).event id = some e) (hp : e.isProcessed = false) :
    id ∈ (Shared.effect t P.shared c r).queues .event ∨
      ∃ u, (P.proceed t ⟨c, r⟩ (k r) (Shared.effect t P.shared c r)).ghost (hand id) False u := by
  have hself (hnext : Hand.next id (P.ghost (hand id) False t) c r) :
      ∃ u, (P.proceed t ⟨c, r⟩ (k r) (Shared.effect t P.shared c r)).ghost (hand id) False u := by
    refine ⟨t, ?_⟩
    rw [Pool.ghost_proceed_self]
    exact hnext
  rcases Shared.event_effect_eq_some he with ⟨e₀, hx, -⟩ | he₀ | ⟨e₀, v, hx, -, rfl⟩
  · cases hx
    exact .inr (hself (.inl rfl))
  · rcases h.pending id e he₀ hp with hq | ⟨u, hu⟩
    · rcases Shared.mem_queues_effect (t := t) hr hq with hq | hx
      · exact .inl hq
      · cases hx
        exact .inr (hself (.inl rfl))
    · by_cases hne : u = t
      · subst hne
        exact (hand_proceed hu he hp).imp_right hself
      · refine .inr ⟨u, ?_⟩
        rwa [Pool.ghost_proceed_of_ne (P := P) _ _ _ hne]
  · cases hp

theorem Delivered.proceed :
    Delivered (P.proceed t ⟨c, r⟩ (k r) (Shared.effect t P.shared c r)) where
  conforms := h.conforms.proceed hk (Shared.expected_of_reply hr) _
  held id := (h.held id).proceed hk ⟨Shared.expected_of_reply hr, hc.1⟩ _
  known := h.known_proceed hr
  closed := h.closed_proceed hr
  found := h.found_proceed hk hr hc
  processed := h.processed_proceed hk hr hc
  pending := h.pending_proceed hk hr hc

end Proceed

theorem delivered_of_run (h : Pool.Run Timely (Pool.start hosts Shared.empty) P) :
    Delivered P := by
  refine h.invariant (N := Delivered) ?_ delivered_start
  intro P P' hP hstep
  cases hstep with
  | spawn t op a ha => exact hP.spawn ha op
  | call t c k o r s hk hs hc =>
    obtain ⟨hr, rfl⟩ := Shared.answer_eq_some.mp hs
    exact hP.proceed hk hr hc

end Runs

/-- **No lost event.** In every state reached by timely steps, an event that a stored open
subscription waits for has not been processed, and it is queued or some operation under way will
queue it or mark it as processed. -/
theorem awaited_event_pending {P : Pool hosts}
    (h : Pool.Run Timely (Pool.start hosts Shared.empty) P) {id : String} {e : Event}
    {s : EventSubscription} (he : P.shared.event id = some e) (hs : s ∈ P.shared.subscriptions)
    (hawaits : s.awaits e = true) :
    e.isProcessed = false ∧
      (id ∈ P.shared.queues .event ∨ ∃ u, Handles id (P.threads u).rest) := by
  have hP := delivered_of_run h
  have hp : e.isProcessed = false := by
    by_contra hp
    rw [hP.processed id e he (by simpa using hp) s hs] at hawaits
    cases hawaits
  refine ⟨hp, (hP.pending id e he hp).imp_right ?_⟩
  rintro ⟨u, hu⟩
  have hheld := hP.held id u
  rw [eq_true hu] at hheld
  exact ⟨u, hheld⟩

/-- A workflow whose only step waits for an event, and a host for it. -/
def waitingHost : WorkflowHost :=
  ⟨[{ WorkflowDefinition.new "waiting" 1 with steps := [WorkflowStep.new 0 "wait"] }],
    [("wait", WaitForStep.run ⟨"go", "k"⟩)], none⟩

/-- Starts the waiting workflow `w`, and runs its step up to where the pass is about to store the
subscription. -/
def waitMoves : List (Pool.Move hosts) :=
  .spawn 0 (.startWorkflow waitingHost "waiting" 1 .null none) :: tick 0 "w" ::
    List.replicate 4 (tick 0 "u") ++
    .spawn 1 (.consumeWorkflow waitingHost) :: List.replicate 9 (tick 1 "u") ++ [tick 1 "s"]

/-- Publishes the event `id`, one the workflow waits for, on thread `t`. -/
def publishMoves (t : ℕ) (id : String) (data : Json) : List (Pool.Move hosts) :=
  .spawn t (.publishEvent "go" "k" data) :: List.replicate 3 (tick t id)

/-- No request fails, and no event is there when subscriptions are stored. -/
def beforeEvents (P : Pool hosts) (_ : ℕ) (x : Exchange Provider) : Bool :=
  x.1.succeeded x.2 &&
    match x.1 with
    | .request (.persistWorkflowWithSubscriptions _ _) => P.shared.events.isEmpty
    | _ => true

theorem timely_of_beforeEvents {P : Pool hosts} {t : ℕ} {x : Exchange Provider}
    (h : beforeEvents P t x = true) : Timely P t x := by
  obtain ⟨hsucceeded, hempty⟩ := Bool.and_eq_true_iff.mp h
  refine ⟨hsucceeded, fun w subs hx s _ id e he => ?_⟩
  rw [hx] at hempty
  have hmem := Table.mem_of_get he
  rw [List.isEmpty_iff.mp hempty] at hmem
  cases hmem

/-- An event published after the subscription was stored is pending. -/
theorem awaited_event_pending_published : ∃ (P : Pool hosts) (e : Event) (s : EventSubscription),
    Pool.Run Timely (Pool.start hosts Shared.empty) P ∧ P.shared.event "e" = some e ∧
      s ∈ P.shared.subscriptions ∧ s.awaits e = true ∧ e.isProcessed = false ∧
      ("e" ∈ P.shared.queues .event ∨ ∃ u, Handles "e" (P.threads u).rest) := by
  have hfacts : (Pool.schedule beforeEvents (waitMoves ++ [tick 1 "u"] ++ publishMoves 2 "e" .null)
      (Pool.start hosts Shared.empty)).map (fun P => (P.shared.event "e").any fun e =>
        P.shared.subscriptions.any (·.awaits e)) = some true := rfl
  obtain ⟨P, hP, hvalues⟩ := Option.map_eq_some_iff.mp hfacts
  obtain ⟨e, he, hsubs⟩ := (Option.any_eq_true _ _).mp hvalues
  obtain ⟨s, hs, hawaits⟩ := List.any_eq_true.mp hsubs
  have hrun : Pool.Run Timely (Pool.start hosts Shared.empty) P :=
    Pool.run_of_schedule (n := 3) (Ω := fun _ => true)
      (fun P o t c r s _ _ _ hg => timely_of_beforeEvents hg) (Pool.idleFrom_start _) (by rfl)
      (by rfl) hP
  exact ⟨P, e, s, hrun, he, hs, hawaits, awaited_event_pending hrun he hs hawaits⟩

/-- The pointer of the subscription waits, and no event has been delivered to it. -/
def Shared.waits (σ : Shared) (s : EventSubscription) : Bool :=
  (σ.workflow s.workflowId).any fun w => w.executionPointers.any fun p =>
    p.id = s.executionPointerId ∧ p.status = .waitingForEvent ∧ p.eventPublished = false

/-- With succeeding requests alone, an event can be lost: it is published and processed after the
step has asked to wait for it and before the pass stores the subscription. -/
theorem event_processed_before_subscription : ¬∀ (P : Pool hosts) (id : String) (e : Event)
    (s : EventSubscription),
    Pool.Run Succeeding (Pool.start hosts Shared.empty) P →
    P.shared.event id = some e → s ∈ P.shared.subscriptions → s.awaits e = true →
    P.shared.waits s = true →
      e.isProcessed = false ∧
        (id ∈ P.shared.queues .event ∨ ∃ u, Handles id (P.threads u).rest) := by
  intro hclaim
  have hfacts : (Pool.schedule (fun _ _ x => Call.succeeded x.1 x.2)
      (waitMoves ++ publishMoves 2 "e" .null ++
      .spawn 2 .consumeEvent :: List.replicate 4 (tick 2 "u") ++ [tick 1 "u"])
      (Pool.start hosts Shared.empty)).map (fun P => (P.shared.event "e").any fun e =>
        e.isProcessed && P.shared.subscriptions.any fun s => s.awaits e && P.shared.waits s) =
      some true := rfl
  obtain ⟨P, hP, hvalues⟩ := Option.map_eq_some_iff.mp hfacts
  obtain ⟨e, he, hsubs⟩ := (Option.any_eq_true _ _).mp hvalues
  obtain ⟨hp, hsubs⟩ := Bool.and_eq_true_iff.mp hsubs
  obtain ⟨s, hs, hs'⟩ := List.any_eq_true.mp hsubs
  obtain ⟨hawaits, hwaits⟩ := Bool.and_eq_true_iff.mp hs'
  have hrun : Pool.Run Succeeding (Pool.start hosts Shared.empty) P := by
    refine Pool.run_of_schedule (n := 3) (Ω := fun _ => true) ?_ (Pool.idleFrom_start _) (by rfl)
      (by rfl) hP
    exact fun P o t c r s _ _ _ hg => hg
  have hnot := (hclaim P "e" e s hrun he hs hawaits hwaits).1
  rw [hnot] at hp
  cases hp

end Wfe
