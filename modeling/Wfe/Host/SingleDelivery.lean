import Wfe.Host.EventDelivery

/-!
# One event per wait

A consumer delivers an event to a subscription under the lock of its workflow: it writes the data
of the event to the waiting pointer, queues the workflow, terminates the subscription and releases
the lock. But it has looked up the subscription before it took the lock, and does not look again.
A second consumer with another event of the same name and key may have found the subscription as
well; it takes the lock when the first has released it and overwrites the data, for the pointer
keeps waiting until the workflow is executed.

If a consumer never takes the lock for a subscription that has been terminated in the meantime,
and no request fails between the write and the termination, each subscription is delivered to at
most once.

## Main definitions

* `delivering`: the protocol of delivery under a lock
* `deliveries`: the deliveries to a subscription in a run
* `Fresh`: the steps under which they are of one event

## Main results

* `operation_delivering`: every operation keeps to the protocol
* `one_event_per_subscription`: one event for each subscription
* `event_data_overwritten`: a second event overwrites the data of the first
-/

namespace Wfe

open Program Provider

/-! ## Delivery under a lock -/

/-- What a thread holds: no lock, the lock of a workflow, or that lock for the delivery to a
subscription, before and after the event is written. -/
inductive Stage
  | idle
  | holding (resource : String)
  | armed (subscriptionId resource : String)
  | written (subscriptionId resource : String)

/-- The lock a thread holds. -/
def Stage.lock : Stage → Option String
  | idle => none
  | holding resource | armed _ resource | written _ resource => some resource

/-- The subscriptions found, and what the thread holds. -/
structure Delivery where
  found : List EventSubscription := []
  stage : Stage := .idle

namespace Delivery

/-- Until the subscription of an event just written is terminated, no request fails. -/
@[simp] def allow (g : Delivery) (c : Call) (r : c.Reply) : Prop :=
  Shared.expected c r ∧ ∀ id resource, g.stage = .written id resource → c.succeeded r = true

/-- A thread takes one lock at a time, for a subscription it has found; it writes an event under
this lock, terminates the subscription, and releases the lock it has taken. -/
@[simp] def accept (g : Delivery) : Call → Prop
  | .request (.acquireLock (.event _ id) resource) =>
    g.stage = .idle ∧ ∃ s ∈ g.found, s.id = id ∧ s.workflowId = resource
  | .request (.acquireLock _ _) => g.stage = .idle
  | .request (.releaseLock resource) =>
    g.stage = .holding resource ∨ ∃ id, g.stage = .armed id resource
  | .request (.persistWorkflow (.event _ id) _) => ∃ resource, g.stage = .armed id resource
  | .request (.terminateSubscription id) => ∃ resource, g.stage = .written id resource
  | _ => True

@[simp] def next (g : Delivery) : (c : Call) → c.Reply → Delivery
  | .request (.getSubscriptions _ _ _), .ok subs => { g with found := subs }
  | .request (.acquireLock (.event _ id) resource), .ok true =>
    { g with stage := .armed id resource }
  | .request (.acquireLock _ resource), .ok true => { g with stage := .holding resource }
  | .request (.releaseLock _), _ => { g with stage := .idle }
  | .request (.persistWorkflow (.event _ id) _), .ok _ =>
    { g with stage := .written id (g.stage.lock.getD "") }
  | .request (.terminateSubscription _), .ok _ =>
    { g with stage := .holding (g.stage.lock.getD "") }
  | _, _ => g

end Delivery

/-- Watches the delivery of events. -/
def delivering : Monitor Provider Delivery where
  allow := Delivery.allow
  accept := Delivery.accept
  next := Delivery.next

section Operations

variable {g : Delivery}

@[simp] theorem delivering_allow (c : Call) (r : c.Reply) :
    delivering.allow g c r = g.allow c r := rfl

@[simp] theorem delivering_accept (c : Call) : delivering.accept g c = g.accept c := rfl

@[simp] theorem delivering_next (c : Call) (r : c.Reply) :
    delivering.next g c r = g.next c r := rfl

/-- The calls that are neither about locks nor about deliveries. -/
def Call.aside : Call → Prop
  | .request (.acquireLock _ _) | .request (.releaseLock _) | .request (.getSubscriptions _ _ _)
  | .request (.persistWorkflow (.event _ _) _) | .request (.terminateSubscription _) => False
  | _ => True

theorem next_of_aside {c : Call} (h : c.aside) (r : c.Reply) : g.next c r = g := by
  cases c with
  | request q =>
    cases q with
    | persistWorkflow origin w => cases origin <;> first | rfl | cases h
    | _ => first | rfl | cases h
  | _ => rfl

theorem keeps_delivering {N : Delivery → Prop} {c : Call} (h : c.aside) :
    delivering.Keeps N c := by
  intro g hg
  refine ⟨?_, fun r _ => ?_⟩
  · cases c with
    | request q =>
      cases q with
      | persistWorkflow origin w => cases origin <;> trivial
      | _ => trivial
    | _ => trivial
  · rwa [delivering_next, next_of_aside h]

theorem executeInner_delivering (workflowId : String) (definition : WorkflowDefinition)
    (h : WorkflowHost) {resource : String} (hg : g.stage = .holding resource) :
    MeetsE delivering (fun g _ => g.stage = .holding resource)
      (fun g _ => g.stage = .holding resource)
      (executeInner workflowId definition h.stepRegistry.resolve (some h.hostContext)) g := by
  refine meetsE_executeInner (N := fun g => g.stage = .holding resource)
    (C := fun _ g => g.stage = .holding resource) (S := fun _ g => g.stage = .holding resource)
    (h.hostContext_starts workflowId) ?_ ?_ ?_ ?_ ?_ ?_ ?_ ?_ ?_
  · simp [hg]
  · -- A pass makes none of the calls the protocol is about, apart from its lock.
    intro c hc
    refine keeps_delivering ?_
    cases c with
    | request q => cases q <;> trivial
    | _ => trivial
  · intro g w hg _
    simp [hg]
  · intro g e hg
    exact ⟨trivial, fun _ _ => hg⟩
  · intro g w hg _
    simp [-bind_pure_comp, completeWorkflow, hg]
  · exact fun g w hg _ _ => hg
  · intro g w subs hg
    unfold persistPass
    split_ifs <;> simp [hg]
  · intro g w errors hg
    simp [hg]
  · intro g w hg
    unfold requeue
    split_ifs <;> simp [hg]

theorem consumeWorkflow_delivering (h : WorkflowHost) (hg : g.stage = .idle) :
    MeetsE delivering (fun g _ => g.stage = .idle) (fun g _ => g.stage = .idle)
      (consumeWorkflow h) g := by
  refine meetsE_consumeWorkflow (M := delivering) (N := fun g => g.stage = .idle) ?_ ?_ ?_ hg
  · intro c hc
    refine keeps_delivering ?_
    cases c with
    | request q => cases q <;> trivial
    | _ => trivial
  · intro workflowId endpoints g hg
    simp [injectServiceEndpoints, hg]
  · intro workflowId definition g hg
    simp [execute, hg]
    exact (executeInner_delivering workflowId definition h rfl).mono (fun _ _ h => .inl h)
      fun _ _ h => .inl h

/-- The loop takes the lock of each subscription in turn. -/
theorem deliverAll_delivering (eventId : String) (event : Event) {found : List EventSubscription}
    (subs : List EventSubscription) (hsubs : ∀ s ∈ subs, s ∈ found) :
    MeetsE delivering (fun g _ => g.stage = .idle) (fun g _ => g.stage = .idle)
      (deliverAll eventId event subs) ⟨found, .idle⟩ := by
  induction subs with
  | nil => simp [deliverAll]
  | cons sub subs ih =>
    simp [-bind_pure_comp, deliverAll, deliver]
    exact ⟨⟨sub, hsubs sub (by simp), rfl, rfl⟩, fun _ _ => ⟨rfl, ih fun s hs =>
      hsubs s (by simp [hs])⟩⟩

theorem consumeEvent_delivering (hg : g.stage = .idle) :
    MeetsE delivering (fun g _ => g.stage = .idle) (fun g _ => g.stage = .idle) consumeEvent g := by
  simp [consumeEvent, hg]
  rintro (_ | eventId)
  · simp [hg]
  · simp [processEvent, hg]
    intro event _ subs
    refine (deliverAll_delivering eventId event subs fun _ h => h).mono ?_ ?_
    · rintro g (_ | _) h <;> simp [h]
    · intro g e h
      simp [h]

theorem operation_delivering (op : Operation) :
    op.program.Meets delivering (fun g _ => g.stage = .idle) {} := by
  have hplain (h : op.Plain) : op.program.Meets delivering (fun g _ => g.stage = .idle) {} := by
    refine h.calls.keeps (M := delivering) (N := fun g => g.stage = .idle)
      (fun c hc => keeps_delivering ?_) rfl
    cases c with
    | request q =>
      cases q with
      | persistWorkflow origin w => cases origin <;> trivial
      | _ => trivial
    | _ => trivial
  cases op with
  | consumeWorkflow h => exact meets_operation (consumeWorkflow_delivering h rfl)
  | consumeEvent => exact meets_operation (consumeEvent_delivering rfl)
  | publishEvent eventName eventKey data =>
    refine meets_operation (M := delivering) (N := fun g => g.stage = .idle) ?_
    simp [-bind_pure_comp, publishEvent]
  | _ => exact hplain trivial

end Operations

/-! ## Runs -/

/-- The delivery to the subscription `id` made by an exchange: the event, and the instance
written. -/
def deliveryOf (id : String) : Exchange Provider → Option (String × WorkflowInstance)
  | ⟨.request (.persistWorkflow (.event eventId id') w), .ok _⟩ =>
    if id' = id then some (eventId, w) else none
  | _ => none

/-- The deliveries to the subscription `id`, in order. -/
def deliveries (id : String) (P : Pool hosts) : List (String × WorkflowInstance) :=
  P.trace.filterMap fun x => deliveryOf id x.2

/-- Once an event has been delivered to the pointer of `s`, no delivery of another event changes
the data there. -/
def OneEvent (s : EventSubscription) (P : Pool hosts) : Prop :=
  (deliveries s.id P).Pairwise fun d d' => d.1 ≠ d'.1 →
    ∀ p ∈ d.2.executionPointers, ∀ p' ∈ d'.2.executionPointers,
      p.id = s.executionPointerId → p'.id = s.executionPointerId → p.eventPublished = true →
      p'.eventData = p.eventData

/-- The lock for a delivery is taken only while the subscription is open, and no request of a
thread fails between the writing of an event and the termination of its subscription. -/
def Fresh (P : Pool hosts) (t : ℕ) (x : Exchange Provider) : Prop :=
  (∀ eventId id resource,
    x = ⟨.request (.acquireLock (.event eventId id) resource), .ok true⟩ →
      ¬P.shared.Closed id) ∧
  ∀ id resource, (P.ghost delivering {} t).stage = .written id resource →
    x.1.succeeded x.2 = true

/-- The moves of the protocol. -/
inductive Delivery.Moves (g : Delivery) : Exchange Provider → Delivery → Prop
  | look (eventName eventKey : String) (asOf : DateTime) (subs : List EventSubscription) :
      Moves g ⟨.request (.getSubscriptions eventName eventKey asOf), .ok subs⟩
        { g with found := subs }
  | arm (eventId : String) (s : EventSubscription) : g.stage = .idle → s ∈ g.found →
      Moves g ⟨.request (.acquireLock (.event eventId s.id) s.workflowId), .ok true⟩
        { g with stage := .armed s.id s.workflowId }
  | hold (origin : Origin) (resource : String) : g.stage = .idle →
      Moves g ⟨.request (.acquireLock origin resource), .ok true⟩
        { g with stage := .holding resource }
  | release (resource : String) (r : Except WfeError Unit) : g.stage.lock = some resource →
      (∀ id resource, g.stage ≠ .written id resource) →
      Moves g ⟨.request (.releaseLock resource), r⟩ { g with stage := .idle }
  | write (eventId id resource : String) (w : WorkflowInstance) (v : Unit) :
      g.stage = .armed id resource →
      Moves g ⟨.request (.persistWorkflow (.event eventId id) w), .ok v⟩
        { g with stage := .written id resource }
  | terminate (id resource : String) (v : Unit) : g.stage = .written id resource →
      Moves g ⟨.request (.terminateSubscription id), .ok v⟩ { g with stage := .holding resource }
  | other (x : Exchange Provider) : (∀ id, deliveryOf id x = none) →
      (∀ resource, x.1 ≠ .request (.releaseLock resource)) → Moves g x g

theorem Delivery.moves {g : Delivery} {c : Call} (h : g.accept c) (r : c.Reply) :
    g.Moves ⟨c, r⟩ (g.next c r) := by
  have hother (hd : ∀ id, deliveryOf id ⟨c, r⟩ = none)
      (hc : ∀ resource, c ≠ .request (.releaseLock resource)) : g.Moves ⟨c, r⟩ g :=
    .other ⟨c, r⟩ hd hc
  -- Only five requests move the protocol; a failed one leaves it where it is.
  cases c with
  | request q =>
    cases q with
    | acquireLock origin resource =>
      rcases r with e | (_ | _)
      · cases origin <;> exact hother (fun _ => rfl) (by simp)
      · cases origin <;> exact hother (fun _ => rfl) (by simp)
      · cases origin with
        | event eventId id =>
          obtain ⟨hidle, s, hs, rfl, rfl⟩ := h
          exact .arm eventId s hidle hs
        | _ => exact .hold _ resource h
    | releaseLock resource =>
      rcases h with h | ⟨id, h⟩
      · exact .release resource r (by simp [h, Stage.lock]) (by simp [h])
      · exact .release resource r (by simp [h, Stage.lock]) (by simp [h])
    | getSubscriptions eventName eventKey asOf =>
      cases r with
      | error e => exact hother (fun _ => rfl) (by simp)
      | ok subs => exact .look eventName eventKey asOf subs
    | persistWorkflow origin w =>
      cases r with
      | error e => cases origin <;> exact hother (fun _ => rfl) (by simp)
      | ok v =>
        cases origin with
        | event eventId id =>
          obtain ⟨resource, h⟩ := h
          have hmove := Moves.write eventId id resource w v h
          simpa [h, Stage.lock] using hmove
        | _ => exact hother (fun _ => rfl) (by simp)
    | terminateSubscription id =>
      cases r with
      | error e => exact hother (fun _ => rfl) (by simp)
      | ok v =>
        obtain ⟨resource, h⟩ := h
        have hmove := Moves.terminate id resource v h
        simpa [h, Stage.lock] using hmove
    | _ => exact hother (fun _ => rfl) (by simp)
  | _ => exact hother (fun _ => rfl) (by simp)

/-- Threads hold the locks they think they hold; what is armed has not been delivered to, and what
has been delivered to is terminated, or about to be. -/
structure SingleDelivered (P : Pool hosts) : Prop where
  conforms : Pool.Conforms delivering {} (fun g _ => g.stage = .idle) P
  nodup : (P.shared.subscriptions.map EventSubscription.id).Nodup
  found : ∀ u, ∀ s ∈ (P.ghost delivering {} u).found, P.shared.owner s.id = some s.workflowId
  locked : ∀ u resource, (P.ghost delivering {} u).stage.lock = some resource →
    P.shared.holder resource = some u
  owned : ∀ u id resource, (P.ghost delivering {} u).stage = .armed id resource ∨
    (P.ghost delivering {} u).stage = .written id resource → P.shared.owner id = some resource
  armed : ∀ u id resource, (P.ghost delivering {} u).stage = .armed id resource →
    deliveries id P = []
  delivered : ∀ id, deliveries id P ≠ [] → P.shared.Closed id ∨
    ∃ u resource, (P.ghost delivering {} u).stage = .written id resource
  once : ∀ id, (deliveries id P).length ≤ 1

section Runs

variable {P : Pool hosts} {t : ℕ} {c : Call} {k : c.Reply → Action Outcome} {o : Oracle}
  {r : c.Reply}

theorem singleDelivered_start : SingleDelivered (Pool.start hosts Shared.empty) where
  conforms := Pool.conforms_start _ rfl
  nodup := List.nodup_nil
  found _ _ h := by cases h
  locked _ _ h := by cases h
  owned _ _ _ h := by obtain h | h := h <;> cases h
  armed _ _ _ h := by cases h
  delivered _ h := absurd rfl h
  once _ := Nat.zero_le _

theorem SingleDelivered.spawn (h : SingleDelivered P) {a : Outcome}
    (ha : (P.threads t).rest = .ret a) (op : Operation) : SingleDelivered (P.spawn t op) := by
  have hghost (u : ℕ) : (P.spawn t op).ghost delivering {} u = {} ∨
      (P.spawn t op).ghost delivering {} u = P.ghost delivering {} u := by
    by_cases hu : u = t
    · subst hu
      exact .inl (Pool.ghost_spawn_self (P := P) u op)
    · exact .inr (Pool.ghost_spawn_of_ne (P := P) op hu)
  refine ⟨h.conforms.spawn (operation_delivering op), h.nodup, ?_, ?_, ?_, ?_, ?_, h.once⟩
  · intro u s hs
    obtain hu | hu := hghost u <;> rw [hu] at hs
    · cases hs
    · exact h.found u s hs
  · intro u resource hlock
    obtain hu | hu := hghost u <;> rw [hu] at hlock
    · cases hlock
    · exact h.locked u resource hlock
  · intro u id resource hstage
    obtain hu | hu := hghost u <;> rw [hu] at hstage
    · obtain hstage | hstage := hstage <;> cases hstage
    · exact h.owned u id resource hstage
  · intro u id resource hstage
    obtain hu | hu := hghost u <;> rw [hu] at hstage
    · cases hstage
    · exact h.armed u id resource hstage
  · intro id hid
    refine (h.delivered id hid).imp_right ?_
    rintro ⟨u, resource, hu⟩
    -- A thread at rest holds nothing.
    have hne : u ≠ t := by
      rintro rfl
      have hidle : (P.ghost delivering {} u).stage = .idle := h.conforms.returned ha
      rw [hidle] at hu
      cases hu
    refine ⟨u, resource, ?_⟩
    rwa [Pool.ghost_spawn_of_ne (P := P) op hne]

theorem deliveries_proceed (id : String) (x : Exchange Provider) (p : Action Outcome) (s : Shared) :
    deliveries id (P.proceed t x p s) = deliveries id P ++ (deliveryOf id x).toList := by
  simp only [deliveries, Pool.proceed_trace, List.filterMap_append]
  cases h : deliveryOf id x <;> simp [h]

/-- Two threads that hold the lock of one subscription are the same. -/
theorem SingleDelivered.unique (h : SingleDelivered P) {u u' : ℕ} {id resource resource' : String}
    (hu : (P.ghost delivering {} u).stage = .armed id resource)
    (hu' : (P.ghost delivering {} u').stage = .armed id resource') : u = u' := by
  have howner := h.owned u id resource (.inl hu)
  rw [h.owned u' id resource' (.inl hu')] at howner
  cases howner
  have hholder := h.locked u resource (by rw [hu, Stage.lock])
  rw [h.locked u' resource (by rw [hu', Stage.lock])] at hholder
  cases hholder
  rfl

section Proceed

variable (h : SingleDelivered P) (hk : (P.threads t).rest = .call c k)
  (hr : P.shared.reply o c = some r) (hc : Fresh P t ⟨c, r⟩)

include h hk

theorem SingleDelivered.moves :
    (P.ghost delivering {} t).Moves ⟨c, r⟩
      ((P.proceed t ⟨c, r⟩ (k r) (Shared.effect t P.shared c r)).ghost delivering {} t) := by
  rw [Pool.ghost_proceed_self]
  exact Delivery.moves (h.conforms.accept hk) r

include hr

theorem SingleDelivered.found_proceed (u : ℕ) (s : EventSubscription)
    (hs : s ∈ ((P.proceed t ⟨c, r⟩ (k r) (Shared.effect t P.shared c r)).ghost delivering {}
      u).found) :
    (Shared.effect t P.shared c r).owner s.id = some s.workflowId := by
  by_cases hu : u = t
  · subst hu
    have hmoves := h.moves (r := r) hk
    generalize (P.proceed u ⟨c, r⟩ (k r) (Shared.effect u P.shared c r)).ghost delivering {} u = g'
      at hmoves hs
    cases hmoves with
    | look eventName eventKey asOf subs =>
      have hans := Shared.answered_of_reply_ok hr
      simp only [Shared.answered, Option.some.injEq, Except.ok.injEq] at hans
      subst hans
      -- What is found is stored, and the owner of a subscription does not change.
      have hmem := (Shared.mem_matchingSubscriptions.mp hs).1
      refine Shared.owner_effect ?_
      rw [Shared.owner, Table.get_of_mem h.nodup hmem]
      rfl
    | _ => exact Shared.owner_effect (h.found u s hs)
  · rw [Pool.ghost_proceed_of_ne (P := P) _ _ _ hu] at hs
    exact Shared.owner_effect (h.found u s hs)

theorem SingleDelivered.locked_proceed (u : ℕ) (resource : String)
    (hlock : ((P.proceed t ⟨c, r⟩ (k r) (Shared.effect t P.shared c r)).ghost delivering {}
      u).stage.lock = some resource) :
    (Shared.effect t P.shared c r).holder resource = some u := by
  have hmoves := h.moves (r := r) hk
  have hold (hlock : (P.ghost delivering {} u).stage.lock = some resource)
      (hne : c ≠ .request (.releaseLock resource)) :
      (Shared.effect t P.shared c r).holder resource = some u := by
    rcases Shared.holder_effect (t := t) hr (h.locked u resource hlock) with hholder | ⟨v, hx⟩
    · exact hholder
    · cases hx
      exact absurd rfl hne
  by_cases hu : u = t
  · subst hu
    generalize (P.proceed u ⟨c, r⟩ (k r) (Shared.effect u P.shared c r)).ghost delivering {} u = g'
      at hmoves hlock
    cases hmoves with
    | look eventName eventKey asOf subs => exact hold hlock (by simp)
    | arm eventId s hidle hs =>
      cases hlock
      exact Shared.holder_acquire ..
    | hold origin resource' hidle =>
      cases hlock
      exact Shared.holder_acquire ..
    | release resource' r hlock' hne => cases hlock
    | write eventId id resource' w v hstage =>
      cases hlock
      exact hold (by rw [hstage, Stage.lock]) (by simp)
    | terminate id resource' v hstage =>
      cases hlock
      exact hold (by rw [hstage, Stage.lock]) (by simp)
    | other _ hd hne => exact hold hlock (hne resource)
  · rw [Pool.ghost_proceed_of_ne (P := P) _ _ _ hu] at hlock
    refine hold hlock fun hrelease => ?_
    generalize (P.proceed t ⟨c, r⟩ (k r) (Shared.effect t P.shared c r)).ghost delivering {} t = g'
      at hmoves
    -- Only the holder of a lock releases it.
    cases hmoves with
    | release _ r hlock' hne =>
      cases hrelease
      have hholder := h.locked t resource hlock'
      rw [h.locked u resource hlock] at hholder
      cases hholder
      exact hu rfl
    | other _ hd hne => exact hne resource hrelease
    | _ => cases hrelease

theorem SingleDelivered.owned_proceed (u : ℕ) (id resource : String)
    (hstage : ((P.proceed t ⟨c, r⟩ (k r) (Shared.effect t P.shared c r)).ghost delivering {}
        u).stage = .armed id resource ∨
      ((P.proceed t ⟨c, r⟩ (k r) (Shared.effect t P.shared c r)).ghost delivering {}
        u).stage = .written id resource) :
    (Shared.effect t P.shared c r).owner id = some resource := by
  refine Shared.owner_effect ?_
  by_cases hu : u = t
  · subst hu
    have hmoves := h.moves (r := r) hk
    generalize (P.proceed u ⟨c, r⟩ (k r) (Shared.effect u P.shared c r)).ghost delivering {} u = g'
      at hmoves hstage
    cases hmoves with
    | look eventName eventKey asOf subs => exact h.owned u id resource hstage
    | arm eventId s hidle hs =>
      obtain hstage | hstage := hstage <;> cases hstage
      exact h.found u s hs
    | write eventId id' resource' w v harmed =>
      obtain hstage | hstage := hstage <;> cases hstage
      exact h.owned u id resource (.inl harmed)
    | other _ hd hne => exact h.owned u id resource hstage
    | _ => obtain hstage | hstage := hstage <;> cases hstage
  · rw [Pool.ghost_proceed_of_ne (P := P) _ _ _ hu] at hstage
    exact h.owned u id resource hstage

omit hr in
/-- An exchange delivers to a subscription only by writing under its lock. -/
theorem SingleDelivered.deliveryOf_eq {id : String} {d : String × WorkflowInstance}
    (hd : deliveryOf id ⟨c, r⟩ = some d) :
    ∃ resource, (P.ghost delivering {} t).stage = .armed id resource ∧
      ((P.proceed t ⟨c, r⟩ (k r) (Shared.effect t P.shared c r)).ghost delivering {} t).stage =
        .written id resource := by
  have hmoves := h.moves (r := r) hk
  generalize (P.proceed t ⟨c, r⟩ (k r) (Shared.effect t P.shared c r)).ghost delivering {} t = g'
    at hmoves
  cases hmoves with
  | write eventId id' resource w v harmed =>
    simp only [deliveryOf] at hd
    split_ifs at hd with hid
    subst hid
    exact ⟨resource, harmed, rfl⟩
  | other _ hnone hne =>
    rw [hnone] at hd
    cases hd
  | _ => cases hd

include hc

/-- A subscription whose lock is free and that has been delivered to has been terminated. -/
theorem SingleDelivered.armed_proceed (u : ℕ) (id resource : String)
    (hstage : ((P.proceed t ⟨c, r⟩ (k r) (Shared.effect t P.shared c r)).ghost delivering {}
      u).stage = .armed id resource) :
    deliveries id (P.proceed t ⟨c, r⟩ (k r) (Shared.effect t P.shared c r)) = [] := by
  rw [deliveries_proceed]
  have hold (harmed : (P.ghost delivering {} u).stage = .armed id resource) :
      deliveries id P ++ (deliveryOf id ⟨c, r⟩).toList = [] := by
    rw [h.armed u id resource harmed]
    cases hd : deliveryOf id ⟨c, r⟩ with
    | none => rfl
    | some d =>
      obtain ⟨resource', harmed', hwritten⟩ := h.deliveryOf_eq hk hd
      -- The thread that writes is the one that is armed, and it is not armed after that.
      obtain rfl := h.unique harmed harmed'
      rw [hstage] at hwritten
      cases hwritten
  by_cases hu : u = t
  · subst hu
    have hmoves := h.moves (r := r) hk
    generalize (P.proceed u ⟨c, r⟩ (k r) (Shared.effect u P.shared c r)).ghost delivering {} u = g'
      at hmoves hstage hold
    cases hmoves with
    | look eventName eventKey asOf subs => exact hold hstage
    | arm eventId s hidle hs =>
      cases hstage
      -- A delivery before means that the subscription is closed, or that its writer holds the lock.
      by_contra hne
      have hne : deliveries s.id P ≠ [] := by simpa [deliveryOf] using hne
      rcases h.delivered s.id hne with hclosed | ⟨u', resource, hwritten⟩
      · exact hc.1 eventId s.id s.workflowId rfl hclosed
      · have howner := h.found u s hs
        rw [h.owned u' s.id resource (.inr hwritten)] at howner
        cases howner
        have hholder := h.locked u' s.workflowId (by rw [hwritten, Stage.lock])
        rw [Shared.holder_of_acquired hr] at hholder
        cases hholder
    | other _ hd hne => exact hold hstage
    | _ => cases hstage
  · rw [Pool.ghost_proceed_of_ne (P := P) _ _ _ hu] at hstage
    exact hold hstage

omit hc in
theorem SingleDelivered.delivered_proceed (id : String)
    (hid : deliveries id (P.proceed t ⟨c, r⟩ (k r) (Shared.effect t P.shared c r)) ≠ []) :
    (Shared.effect t P.shared c r).Closed id ∨
      ∃ u resource, ((P.proceed t ⟨c, r⟩ (k r) (Shared.effect t P.shared c r)).ghost delivering {}
        u).stage = .written id resource := by
  rw [deliveries_proceed] at hid
  cases hd : deliveryOf id ⟨c, r⟩ with
  | some d =>
    -- This very exchange is the delivery.
    obtain ⟨resource, -, hwritten⟩ := h.deliveryOf_eq hk hd
    exact .inr ⟨t, resource, hwritten⟩
  | none =>
    have hid : deliveries id P ≠ [] := by simpa [hd] using hid
    rcases h.delivered id hid with hclosed | ⟨u, resource, hwritten⟩
    · exact .inl (hclosed.effect hr)
    by_cases hu : u = t
    · subst hu
      have hmoves := h.moves (r := r) hk
      have hstay (hg : ((P.proceed u ⟨c, r⟩ (k r) (Shared.effect u P.shared c r)).ghost delivering
          {} u).stage = (P.ghost delivering {} u).stage) :
          (Shared.effect u P.shared c r).Closed id ∨
            ∃ u' resource, ((P.proceed u ⟨c, r⟩ (k r) (Shared.effect u P.shared c r)).ghost
              delivering {} u').stage = .written id resource :=
        .inr ⟨u, resource, hg.trans hwritten⟩
      generalize hg' : (P.proceed u ⟨c, r⟩ (k r) (Shared.effect u P.shared c r)).ghost delivering {}
        u = g' at hmoves
      rw [hg'] at hstay
      -- From the written stage the only ways on are to stay and to terminate.
      cases hmoves with
      | look eventName eventKey asOf subs => exact hstay rfl
      | terminate id' resource' v hstage =>
        rw [hwritten] at hstage
        cases hstage
        exact .inl (Shared.closed_terminate hr)
      | release resource' r hlock hne => exact absurd hwritten (hne id resource)
      | other _ hnone hne => exact hstay rfl
      | arm eventId s hidle hs =>
        rw [hwritten] at hidle
        cases hidle
      | hold origin resource' hidle =>
        rw [hwritten] at hidle
        cases hidle
      | write eventId id' resource' w v harmed =>
        rw [hwritten] at harmed
        cases harmed
    · refine .inr ⟨u, resource, ?_⟩
      rwa [Pool.ghost_proceed_of_ne (P := P) _ _ _ hu]

theorem SingleDelivered.proceed :
    SingleDelivered (P.proceed t ⟨c, r⟩ (k r) (Shared.effect t P.shared c r)) where
  conforms := h.conforms.proceed hk ⟨Shared.expected_of_reply hr, hc.2⟩ _
  nodup := Shared.nodup_subscriptions_effect hr h.nodup
  found := h.found_proceed hk hr
  locked := h.locked_proceed hk hr
  owned := h.owned_proceed hk hr
  armed := h.armed_proceed hk hr hc
  delivered := h.delivered_proceed hk hr
  once id := by
    rw [deliveries_proceed]
    cases hd : deliveryOf id ⟨c, r⟩ with
    | none => simpa using h.once id
    | some d =>
      obtain ⟨resource, harmed, -⟩ := h.deliveryOf_eq hk hd
      rw [h.armed t id resource harmed]
      exact Nat.le_refl 1

end Proceed

theorem singleDelivered_of_run (h : Pool.Run Fresh (Pool.start hosts Shared.empty) P) :
    SingleDelivered P := by
  refine h.invariant (N := SingleDelivered) ?_ singleDelivered_start
  intro P P' hP hstep
  cases hstep with
  | spawn t op a ha => exact hP.spawn ha op
  | call t c k o r s hk hs hc =>
    obtain ⟨hr, rfl⟩ := Shared.answer_eq_some.mp hs
    exact hP.proceed hk hr hc

end Runs

/-- **One event per wait.** In every state reached by fresh steps, a subscription has been
delivered to at most once, and so the data of its pointer are those of one event. -/
theorem one_event_per_subscription {P : Pool hosts}
    (h : Pool.Run Fresh (Pool.start hosts Shared.empty) P) (s : EventSubscription) :
    (deliveries s.id P).length ≤ 1 ∧ OneEvent s P := by
  have honce := (singleDelivered_of_run h).once s.id
  refine ⟨honce, ?_⟩
  unfold OneEvent
  match hd : deliveries s.id P with
  | [] => exact .nil
  | [d] => exact List.pairwise_singleton _ d
  | d :: d' :: ds =>
    rw [hd] at honce
    simp at honce

/-- No request fails, and the lock for a delivery is taken only if no subscription of this id has
been terminated. -/
def whileOpen (P : Pool hosts) (_ : ℕ) (x : Exchange Provider) : Bool :=
  x.1.succeeded x.2 &&
    match x.1 with
    | .request (.acquireLock (.event _ id) _) =>
      P.shared.subscriptions.all fun s => s.id ≠ id || s.externalToken.isNone
    | _ => true

theorem fresh_of_whileOpen {P : Pool hosts} {t : ℕ} {x : Exchange Provider}
    (h : whileOpen P t x = true) : Fresh P t x := by
  obtain ⟨hsucceeded, hopen⟩ := Bool.and_eq_true_iff.mp h
  refine ⟨?_, fun _ _ _ => hsucceeded⟩
  rintro eventId id resource rfl ⟨⟨s, hs, hid⟩, hclosed⟩
  have hopen := List.all_eq_true.mp hopen s hs
  exact hclosed s hs hid (by simpa [hid] using hopen)

/-- Two events of one name and key. The first one is delivered to the subscription that waits for
it, and the second one finds that subscription terminated. -/
theorem one_event_per_subscription_delivered : ∃ (P : Pool hosts) (s : EventSubscription),
    Pool.Run Fresh (Pool.start hosts Shared.empty) P ∧ s ∈ P.shared.subscriptions ∧
      (P.shared.events.map fun e => (e.id, e.isProcessed)) = [("e", true), ("f", true)] ∧
      deliveries s.id P ≠ [] ∧ (deliveries s.id P).length ≤ 1 ∧ OneEvent s P := by
  have hfacts : (Pool.schedule whileOpen (waitMoves ++ List.replicate 2 (tick 1 "u") ++
      publishMoves 2 "e" (.string "first") ++
      .spawn 2 .consumeEvent :: List.replicate 10 (tick 2 "u") ++
      publishMoves 3 "f" (.string "second") ++
      .spawn 3 .consumeEvent :: List.replicate 4 (tick 3 "u"))
      (Pool.start hosts Shared.empty)).map (fun P =>
        (P.shared.events.map fun e => (e.id, e.isProcessed)) == [("e", true), ("f", true)] &&
          P.shared.subscriptions.any fun s => !(deliveries s.id P).isEmpty) = some true := by decide
  obtain ⟨P, hP, hvalues⟩ := Option.map_eq_some_iff.mp hfacts
  obtain ⟨hprocessed, hany⟩ := Bool.and_eq_true_iff.mp hvalues
  obtain ⟨s, hs, hne⟩ := List.any_eq_true.mp hany
  have hrun : Pool.Run Fresh (Pool.start hosts Shared.empty) P :=
    Pool.run_of_schedule (n := 4) (Ω := fun _ => true)
      (fun P o t c r s _ _ _ hg => fresh_of_whileOpen hg) (Pool.idleFrom_start _) (by rfl)
      (by rfl) hP
  exact ⟨P, s, hrun, hs, beq_iff_eq.mp hprocessed, by simpa using hne,
    one_event_per_subscription hrun s⟩

/-- Two deliveries to the pointer of `s`, with different data. -/
def overwritten (s : EventSubscription) : List (String × WorkflowInstance) → Bool
  | [d, d'] => d.1 ≠ d'.1 && d.2.executionPointers.any fun p => d'.2.executionPointers.any fun p' =>
      p.id = s.executionPointerId ∧ p'.id = s.executionPointerId ∧ p.eventPublished = true ∧
        p'.eventData ≠ p.eventData
  | _ => false

theorem not_oneEvent {s : EventSubscription} {P : Pool hosts}
    (h : overwritten s (deliveries s.id P) = true) : ¬OneEvent s P := by
  intro hone
  unfold OneEvent at hone
  generalize deliveries s.id P = ds at h hone
  unfold overwritten at h
  split at h
  · next d d' =>
    obtain ⟨hne, hany⟩ := Bool.and_eq_true_iff.mp h
    obtain ⟨p, hp, hany⟩ := List.any_eq_true.mp hany
    obtain ⟨p', hp', hpp'⟩ := List.any_eq_true.mp hany
    obtain ⟨hid, hid', hpublished, hdata⟩ := of_decide_eq_true hpp'
    have hpair := List.rel_of_pairwise_cons hone (List.mem_singleton_self d')
    exact hdata (hpair (by simpa using hne) p hp p' hp' hid hid' hpublished)
  · -- Only a list of two deliveries counts as overwritten.
    cases h

/-- With reliable providers alone, two consumers that have both found the subscription deliver
their events one after the other, and the second overwrites the data of the first. -/
theorem event_data_overwritten : ¬∀ (P : Pool hosts) (s : EventSubscription),
    Pool.Run Reliable (Pool.start hosts Shared.empty) P → s ∈ P.shared.subscriptions →
      OneEvent s P := by
  intro hclaim
  -- Both consumers look up the subscriptions before either delivers.
  have hfacts : (Pool.schedule (fun _ _ _ => true) (waitMoves ++ List.replicate 2 (tick 1 "u") ++
      publishMoves 2 "e" (.string "first") ++ publishMoves 3 "f" (.string "second") ++
      .spawn 2 .consumeEvent :: List.replicate 3 (tick 2 "u") ++
      .spawn 3 .consumeEvent :: List.replicate 3 (tick 3 "u") ++
      List.replicate 6 (tick 2 "u") ++ List.replicate 3 (tick 3 "u"))
      (Pool.start hosts Shared.empty)).map (fun P => P.shared.subscriptions.any fun s =>
        overwritten s (deliveries s.id P)) = some true := by decide +kernel
  obtain ⟨P, hP, hvalues⟩ := Option.map_eq_some_iff.mp hfacts
  obtain ⟨s, hs, hover⟩ := List.any_eq_true.mp hvalues
  have hrun := reliable_of_schedule 4 (Pool.idleFrom_start _) (by rfl) (by rfl) hP
  exact not_oneEvent hover (hclaim P s hrun hs)

end Wfe
