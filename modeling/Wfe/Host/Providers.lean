import Wfe.Library.Pool
import Wfe.Library.Table
import Wfe.Executor.Provider

/-!
# The shared providers

The state behind the provider calls, as the in-memory providers keep it: the tables of the store,
the locks and the queues. An answer is made in two parts, the reply, which may depend on what the
outside world decides, and the effect of a call that got this reply. Any call of a fallible
provider may fail, and a failed call has no effect.

UUIDs are taken to be non-empty and new: a call that would draw an empty one, or store a new
record under an id in use, has no answer.

## Main definitions

* `Shared`: the store, the locks with their holders, and the queues
* `Oracle`, `Shared.reply`: replies, and what decides them
* `Shared.effect`: the effect of a call

## Main results

* `Shared.workflow_effect`: the instances after a call
* `Shared.mem_queues_effect`: the queues after a call
* `Shared.holder_effect`: the locks after a call
-/

namespace Wfe

/-- The state shared by all hosts. The lock provider does not record who holds a lock; the
thread is kept here to speak about it. -/
structure Shared where
  workflows : List WorkflowInstance
  events : List Event
  subscriptions : List EventSubscription
  errors : List ExecutionError
  sequences : List (String × Nat)
  locks : List (String × Nat)
  queues : QueueType → List String

namespace Shared

/-- Nothing stored, locked or queued. -/
def empty : Shared := ⟨[], [], [], [], [], [], fun _ => []⟩

/-- The instance stored under `id`. -/
def workflow (σ : Shared) (id : String) : Option WorkflowInstance :=
  Table.get WorkflowInstance.id σ.workflows id

/-- The event stored under `id`. -/
def event (σ : Shared) (id : String) : Option Event := Table.get Event.id σ.events id

/-- The thread that holds the lock of `resource`. -/
def holder (σ : Shared) (resource : String) : Option Nat :=
  (Table.get Prod.fst σ.locks resource).map Prod.snd

/-- The last number drawn from the sequence of a definition. -/
def sequence (σ : Shared) (definitionId : String) : Nat :=
  ((Table.get Prod.fst σ.sequences definitionId).map Prod.snd).getD 0

end Shared

/-! ## Replies -/

/-- What the outside world decides about one call: clock and UUIDs, the answer of an external
system, provisioned endpoints, the iteration order of the store's hash maps, and whether the call
fails. -/
structure Oracle where
  ambient : Ambient
  external : Json := .null
  endpoints : List ServiceEndpoint := []
  order : List EventSubscription := []
  choice : String := ""
  failure : Option WfeError := none

/-- The subscription is for events of this name, key and time, and has not been terminated. -/
def EventSubscription.matches (s : EventSubscription) (eventName eventKey : String)
    (asOf : DateTime) : Bool :=
  s.eventName = eventName ∧ s.eventKey = eventKey ∧ s.subscribeAsOf ≤ asOf ∧ s.externalToken = none

namespace Shared

variable (o : Oracle) (σ : Shared)

/-- `get_subscriptions`, in the order the hash map has them. -/
def matchingSubscriptions (eventName eventKey : String) (asOf : DateTime) :
    List EventSubscription :=
  let found := σ.subscriptions.filter (·.matches eventName eventKey asOf)
  if o.order.isPerm found then o.order else found

/-- `get_workflow_instance_by_name`: any instance of that name, the one under `o.choice`. -/
def workflowByName (name : String) : Option (Except WfeError WorkflowInstance) :=
  match (σ.workflow o.choice).filter fun w => w.name = name with
  | some w => some (.ok w)
  | none =>
    if σ.workflows.any fun w => w.name = name then none
    else some (.error (.workflowNotFound name))

/-- The id a new record is stored under. -/
def newId (id : String) : String := if id = "" then o.ambient.uuid 0 else id

/-- Subscriptions stored together have new and distinct ids. -/
def newSubscriptions (subs : List EventSubscription) : Bool :=
  (subs.map EventSubscription.id).Nodup ∧
    ∀ s ∈ subs, s.id ∉ σ.subscriptions.map EventSubscription.id

/-- The result of a request to a provider that does not fail by itself. -/
def answered : (q : Request) → Option (Except WfeError q.Value)
  | .acquireLock _ resource => some (.ok (σ.holder resource).isNone)
  | .releaseLock _ | .queueWork _ _ | .persistWorkflow _ _ | .persistErrors _ | .teardown _ =>
    some (.ok ())
  | .dequeueWork queue => some (.ok (σ.queues queue).head?)
  | .createNewWorkflow w =>
    if σ.workflow (newId o w.id) = none then some (.ok (newId o w.id)) else none
  | .persistWorkflowWithSubscriptions _ subs =>
    if σ.newSubscriptions subs then some (.ok ()) else none
  | .getWorkflowInstance id =>
    some (match σ.workflow id with
      | some w => .ok w
      | none => .error (.workflowNotFound id))
  | .getWorkflowInstanceByName name => σ.workflowByName o name
  | .nextDefinitionSequence definitionId => some (.ok (σ.sequence definitionId + 1))
  | .createEvent e => if σ.event (newId o e.id) = none then some (.ok (newId o e.id)) else none
  | .getEvent id =>
    some (match σ.event id with
      | some e => .ok e
      | none => .error (.eventNotFound id))
  | .markEventProcessed id =>
    some (match σ.event id with
      | some _ => .ok ()
      | none => .error (.eventNotFound id))
  | .getSubscriptions eventName eventKey asOf =>
    some (.ok (σ.matchingSubscriptions o eventName eventKey asOf))
  | .terminateSubscription id =>
    some (if σ.subscriptions.any fun s => s.id = id then .ok ()
      else .error (.subscriptionNotFound id))
  | .provision _ _ => some (.ok o.endpoints)

/-- The reply to a call. -/
def reply : (c : Call) → Option c.Reply
  | .ambient => if o.ambient.uuid 0 = "" then none else some o.ambient
  | .external _ => some o.external
  | .trace _ | .publishLifecycle _ => some ()
  | .request q =>
    match o.failure with
    | some e => some (.error e)
    | none => σ.answered o q

/-! ## Effects -/

/-- An instance as it is stored when it is created. -/
@[simp] def named (id : String) (w : WorkflowInstance) : WorkflowInstance :=
  { w with id := id, name := if w.name = "" then id else w.name }

/-- The state after a request of thread `t` succeeded with the value `v`. -/
def granted (t : Nat) (σ : Shared) : (q : Request) → q.Value → Shared
  | .acquireLock _ resource, true => { σ with locks := (resource, t) :: σ.locks }
  | .releaseLock resource, _ => { σ with locks := σ.locks.filter fun l => l.1 ≠ resource }
  | .queueWork id queue, _ =>
    { σ with queues := Function.update σ.queues queue (σ.queues queue ++ [id]) }
  | .dequeueWork queue, _ =>
    { σ with queues := Function.update σ.queues queue (σ.queues queue).tail }
  | .createNewWorkflow w, id =>
    { σ with workflows := Table.put WorkflowInstance.id (named id w) σ.workflows }
  | .persistWorkflow _ w, _ =>
    { σ with workflows := Table.put WorkflowInstance.id w σ.workflows }
  | .persistWorkflowWithSubscriptions w subs, _ =>
    { σ with
      workflows := Table.put WorkflowInstance.id w σ.workflows
      subscriptions := σ.subscriptions ++ subs }
  | .nextDefinitionSequence definitionId, n =>
    { σ with sequences := Table.put Prod.fst (definitionId, n) σ.sequences }
  | .persistErrors errors, _ => { σ with errors := σ.errors ++ errors }
  | .createEvent e, id => { σ with events := Table.put Event.id { e with id := id } σ.events }
  | .markEventProcessed id, _ =>
    { σ with events := σ.events.map fun e =>
        if e.id = id then { e with isProcessed := true } else e }
  | .terminateSubscription id, _ =>
    { σ with subscriptions := σ.subscriptions.map fun s =>
        if s.id = id then { s with externalToken := some "__terminated__" } else s }
  | .acquireLock _ _, false | .getWorkflowInstance _, _ | .getWorkflowInstanceByName _, _
  | .getEvent _, _ | .getSubscriptions _ _ _, _ | .provision _ _, _ | .teardown _, _ => σ

/-- The state after thread `t` had the call `c` answered by `r`: only a request that succeeds
changes it. -/
def effect (t : Nat) (σ : Shared) : (c : Call) → c.Reply → Shared
  | .request q, .ok v => granted t σ q v
  | .request _, .error _ | .ambient, _ | .external _, _ | .trace _, _ | .publishLifecycle _, _ => σ

/-- The answer to `c`: its reply with its effect. -/
def answer (t : Nat) (c : Call) : Option (c.Reply × Shared) :=
  (σ.reply o c).map fun r => (r, effect t σ c r)

/-- The reply is one the provider gives by itself, without failing. -/
def Answers (σ : Shared) (q : Request) (r : Except WfeError q.Value) : Prop :=
  ∃ o, σ.answered o q = some r

variable {o σ}

theorem answer_eq_some {t : Nat} {c : Call} {r : c.Reply} {s : Shared} :
    σ.answer o t c = some (r, s) ↔ σ.reply o c = some r ∧ s = effect t σ c r := by
  simp only [answer, Option.map_eq_some_iff, Prod.mk.injEq]
  constructor
  · rintro ⟨r', hr, rfl, rfl⟩
    exact ⟨hr, rfl⟩
  · rintro ⟨hr, rfl⟩
    exact ⟨r, hr, rfl, rfl⟩

theorem reply_request {q : Request} {r : Except WfeError q.Value}
    (h : σ.reply o (.request q) = some r) :
    (∃ e, r = .error e) ∨ σ.answered o q = some r := by
  simp only [reply] at h
  split at h
  · next e _ =>
    cases h
    exact .inl ⟨e, rfl⟩
  · exact .inr h

theorem answered_of_reply_ok {q : Request} {v : q.Value}
    (h : σ.reply o (.request q) = some (.ok v)) : σ.answered o q = some (.ok v) := by
  rcases reply_request h with ⟨e, he⟩ | h
  · cases he
  · exact h

theorem answers_of_reply {q : Request} {r : Except WfeError q.Value} (ho : o.failure = none)
    (h : σ.reply o (.request q) = some r) : σ.Answers q r := by
  simp only [reply, ho] at h
  exact ⟨o, h⟩

/-! ## Instances -/

/-- The instance an exchange stores. -/
@[simp] def written : (c : Call) → c.Reply → Option WorkflowInstance
  | .request (.createNewWorkflow w), .ok id => some (named id w)
  | .request (.persistWorkflow _ w), .ok _ => some w
  | .request (.persistWorkflowWithSubscriptions w _), .ok _ => some w
  | _, _ => none

/-- The stored instances change by what is written, and only so. -/
theorem workflow_effect (t : Nat) (σ : Shared) (c : Call) (r : c.Reply) (id : String) :
    (effect t σ c r).workflow id =
      match written c r with
      | some w => if w.id = id then some w else σ.workflow id
      | none => σ.workflow id := by
  cases c with
  | request q =>
    cases r with
    | error e => cases q <;> rfl
    | ok v =>
      cases q with
      | acquireLock origin resource => cases v <;> rfl
      | createNewWorkflow w => exact Table.get_put ..
      | persistWorkflow origin w => exact Table.get_put ..
      | persistWorkflowWithSubscriptions w subs => exact Table.get_put ..
      | _ => rfl
  | _ => rfl

theorem workflow_effect_eq_some {t : Nat} {c : Call} {r : c.Reply} {id : String}
    {w : WorkflowInstance} (h : (effect t σ c r).workflow id = some w) :
    (written c r = some w ∧ w.id = id) ∨
      ((∀ w', written c r = some w' → w'.id ≠ id) ∧ σ.workflow id = some w) := by
  rw [workflow_effect] at h
  split at h
  · next w' hw' =>
    split_ifs at h with hid
    · cases h
      exact .inl ⟨hw', hid⟩
    · refine .inr ⟨fun w'' hw'' => ?_, h⟩
      rw [hw'] at hw''
      cases hw''
      exact hid
  · next hw' =>
    refine .inr ⟨fun w'' hw'' => ?_, h⟩
    rw [hw'] at hw''
    cases hw''

/-- The instance an exchange reads. -/
@[simp] def loaded : (c : Call) → c.Reply → Option WorkflowInstance
  | .request (.getWorkflowInstance _), .ok w => some w
  | .request (.getWorkflowInstanceByName _), .ok w => some w
  | _, _ => none

theorem answered_getWorkflowInstance {id : String} {w : WorkflowInstance}
    (h : σ.answered o (.getWorkflowInstance id) = some (.ok w)) : σ.workflow id = some w := by
  simp only [answered, Option.some.injEq] at h
  split at h
  · next w' hw' =>
    cases h
    exact hw'
  · cases h

theorem answered_getWorkflowInstance_error {id : String} {e : WfeError}
    (h : σ.answered o (.getWorkflowInstance id) = some (.error e)) : σ.workflow id = none := by
  simp only [answered, Option.some.injEq] at h
  split at h
  · cases h
  · assumption

theorem workflow_id {id : String} {w : WorkflowInstance} (h : σ.workflow id = some w) :
    w.id = id := Table.key_of_get h

/-- What is read is what is stored. -/
theorem workflow_of_loaded {c : Call} {r : c.Reply} {w : WorkflowInstance}
    (h : σ.reply o c = some r) (hw : loaded c r = some w) : σ.workflow w.id = some w := by
  unfold loaded at hw
  split at hw
  · cases hw
    have hw' := answered_getWorkflowInstance (answered_of_reply_ok h)
    rwa [workflow_id hw']
  · cases hw
    have h := answered_of_reply_ok h
    simp only [answered, workflowByName] at h
    split at h
    · next w' hw' =>
      cases h
      have hc := (Option.filter_eq_some_iff.mp hw').1
      rwa [workflow_id hc]
    · split at h <;> cases h
  · cases hw

/-! ## Queues -/

/-- An entry leaves its queue only by being dequeued. -/
theorem mem_queues_effect {t : Nat} {c : Call} {r : c.Reply} {id : String} {queue : QueueType}
    (h : σ.reply o c = some r) (hid : id ∈ σ.queues queue) :
    id ∈ (effect t σ c r).queues queue ∨
      (⟨c, r⟩ : Exchange Provider) = ⟨.request (.dequeueWork queue), .ok (some id)⟩ := by
  cases c with
  | request q =>
    cases r with
    | error e => exact .inl hid
    | ok v =>
      cases q with
      | acquireLock origin resource => cases v <;> exact .inl hid
      | queueWork id' queue' =>
        refine .inl ?_
        by_cases hq : queue' = queue
        · subst hq
          simp [effect, granted, hid]
        · simpa [effect, granted, Function.update_of_ne (Ne.symm hq)] using hid
      | dequeueWork queue' =>
        by_cases hq : queue' = queue
        · subst hq
          have hv := answered_of_reply_ok h
          simp only [answered, Option.some.injEq, Except.ok.injEq] at hv
          subst hv
          cases hl : σ.queues queue' with
          | nil => simp [hl] at hid
          | cons x l =>
            rw [hl, List.mem_cons] at hid
            rcases hid with rfl | hid
            · exact .inr rfl
            · exact .inl (by simpa [effect, granted, hl] using hid)
        · exact .inl (by
            simpa [effect, granted, Function.update_of_ne (Ne.symm hq)] using hid)
      | _ => exact .inl hid
  | _ => exact .inl hid

/-! ## Locks -/

/-- A lock that is granted was free. -/
theorem holder_of_acquired {origin : Origin} {resource : String}
    (h : σ.reply o (.request (.acquireLock origin resource)) = some (.ok true)) :
    σ.holder resource = none := by
  have hans := answered_of_reply_ok h
  simp only [answered, Option.some.injEq, Except.ok.injEq] at hans
  simpa using hans

theorem holder_acquire (t : Nat) (σ : Shared) (origin : Origin) (resource : String) :
    (effect t σ (.request (.acquireLock origin resource)) (.ok true)).holder resource =
      some t := by
  simp [effect, granted, holder, Table.get]

/-- A lock is held until it is released. -/
theorem holder_effect {t u : Nat} {c : Call} {r : c.Reply} {resource : String}
    (hr : σ.reply o c = some r) (h : σ.holder resource = some u) :
    (effect t σ c r).holder resource = some u ∨
      ∃ v, (⟨c, r⟩ : Exchange Provider) = ⟨.request (.releaseLock resource), .ok v⟩ := by
  cases c with
  | request q =>
    cases r with
    | error err => exact .inl h
    | ok v =>
      cases q with
      | acquireLock origin resource' =>
        cases v with
        | false => exact .inl h
        | true =>
          have hne : resource' ≠ resource := by
            rintro rfl
            rw [holder_of_acquired hr] at h
            cases h
          refine .inl ?_
          simpa [effect, granted, holder, Table.get, hne] using h
      | releaseLock resource' =>
        by_cases hres : resource' = resource
        · subst hres
          exact .inr ⟨v, rfl⟩
        · refine .inl ?_
          rw [holder, effect, granted, Table.get_filter_of_ne _ hres]
          exact h
      | _ => exact .inl h
  | _ => exact .inl h

/-! ## Events -/

/-- An event found after a call was created by it, or was there before. -/
theorem event_effect_eq_some {t : Nat} {c : Call} {r : c.Reply} {id : String} {e : Event}
    (h : (effect t σ c r).event id = some e) :
    (∃ e₀, (⟨c, r⟩ : Exchange Provider) = ⟨.request (.createEvent e₀), .ok id⟩ ∧
      e = { e₀ with id := id }) ∨
    σ.event id = some e ∨
    (∃ e₀ v, (⟨c, r⟩ : Exchange Provider) = ⟨.request (.markEventProcessed id), .ok v⟩ ∧
      σ.event id = some e₀ ∧ e = { e₀ with isProcessed := true }) := by
  cases c with
  | request q =>
    cases r with
    | error err => exact .inr (.inl h)
    | ok v =>
      cases q with
      | acquireLock origin resource => cases v <;> exact .inr (.inl h)
      | createEvent e₀ =>
        rw [event, effect, granted, Table.get_put] at h
        split_ifs at h with hid
        · cases h
          obtain rfl : v = id := hid
          exact .inl ⟨e₀, rfl, rfl⟩
        · exact .inr (.inl h)
      | markEventProcessed id' =>
        rw [event, effect, granted, Table.get_map (fun e => by split_ifs <;> rfl)] at h
        obtain ⟨e₀, he₀, rfl⟩ := Option.map_eq_some_iff.mp h
        have hid : e₀.id = id := Table.key_of_get he₀
        split_ifs with hid'
        · obtain rfl : id = id' := hid.symm.trans hid'
          exact .inr (.inr ⟨e₀, v, rfl, he₀, rfl⟩)
        · exact .inr (.inl he₀)
      | _ => exact .inr (.inl h)
  | _ => exact .inr (.inl h)

/-- Name, key and time of an event; they never change. -/
def eventKey (e : Event) : String × String × DateTime := (e.eventName, e.eventKey, e.eventTime)

theorem event_effect_of_some {t : Nat} {c : Call} {r : c.Reply} {id : String} {e : Event}
    (hr : σ.reply o c = some r) (h : σ.event id = some e) :
    ∃ e', (effect t σ c r).event id = some e' ∧ eventKey e' = eventKey e := by
  cases c with
  | request q =>
    cases r with
    | error err => exact ⟨e, h, rfl⟩
    | ok v =>
      cases q with
      | acquireLock origin resource => cases v <;> exact ⟨e, h, rfl⟩
      | createEvent e₀ =>
        have hnew := answered_of_reply_ok hr
        simp only [answered] at hnew
        split_ifs at hnew with hnone
        cases hnew
        refine ⟨e, ?_, rfl⟩
        rw [event, effect, granted, Table.get_put, if_neg]
        · exact h
        · rintro rfl
          rw [hnone] at h
          cases h
      | markEventProcessed id' =>
        rw [event, effect, granted, Table.get_map (fun e => by split_ifs <;> rfl)]
        rw [event] at h
        rw [h, Option.map_some]
        refine ⟨_, rfl, ?_⟩
        split_ifs <;> rfl
      | _ => exact ⟨e, h, rfl⟩
  | _ => exact ⟨e, h, rfl⟩

theorem isProcessed_of_mark {t : Nat} {id : String} {v : Unit} {e : Event}
    (h : (effect t σ (.request (.markEventProcessed id)) (.ok v)).event id = some e) :
    e.isProcessed = true := by
  rw [event, effect, granted, Table.get_map (fun e => by split_ifs <;> rfl)] at h
  obtain ⟨e₀, he₀, rfl⟩ := Option.map_eq_some_iff.mp h
  rw [if_pos (Table.key_of_get he₀)]

theorem answered_getEvent {id : String} {e : Event}
    (h : σ.answered o (.getEvent id) = some (.ok e)) : σ.event id = some e := by
  simp only [answered, Option.some.injEq] at h
  split at h
  · next e' he' =>
    cases h
    exact he'
  · cases h

/-! ## Subscriptions -/

/-- The subscription `id` is stored, and terminated. -/
def Closed (σ : Shared) (id : String) : Prop :=
  (∃ s ∈ σ.subscriptions, s.id = id) ∧ ∀ s ∈ σ.subscriptions, s.id = id → s.externalToken ≠ none

/-- An open subscription found after a call was stored by it, or was there before. -/
theorem mem_subscriptions_effect {t : Nat} {c : Call} {r : c.Reply} {s : EventSubscription}
    (h : s ∈ (effect t σ c r).subscriptions) (hopen : s.externalToken = none) :
    (∃ w subs v, (⟨c, r⟩ : Exchange Provider) =
      ⟨.request (.persistWorkflowWithSubscriptions w subs), .ok v⟩ ∧ s ∈ subs) ∨
    s ∈ σ.subscriptions := by
  cases c with
  | request q =>
    cases r with
    | error err => exact .inr h
    | ok v =>
      cases q with
      | acquireLock origin resource => cases v <;> exact .inr h
      | persistWorkflowWithSubscriptions w subs =>
        rcases List.mem_append.mp h with h | h
        · exact .inr h
        · exact .inl ⟨w, subs, v, rfl, h⟩
      | terminateSubscription id =>
        obtain ⟨s', hs', rfl⟩ := List.mem_map.mp h
        by_cases hid : s'.id = id
        · simp [hid] at hopen
        · exact .inr (by simpa [hid] using hs')
      | _ => exact .inr h
  | _ => exact .inr h

theorem closed_terminate {t : Nat} {id : String} {v : Unit}
    (hr : σ.reply o (.request (.terminateSubscription id)) = some (.ok v)) :
    (effect t σ (.request (.terminateSubscription id)) (.ok v)).Closed id := by
  have hans := answered_of_reply_ok hr
  simp only [answered, Option.some.injEq] at hans
  split_ifs at hans with hany
  obtain ⟨s, hs, hid⟩ := List.any_eq_true.mp hany
  have hid : s.id = id := by simpa using hid
  constructor
  · exact ⟨_, List.mem_map.mpr ⟨s, hs, rfl⟩, by simp [hid]⟩
  · intro s' hs' hid'
    obtain ⟨s₀, -, rfl⟩ := List.mem_map.mp hs'
    split_ifs at hid' ⊢ <;> simp_all

/-- A terminated subscription stays so. -/
theorem Closed.effect {t : Nat} {c : Call} {r : c.Reply} {id : String} (h : σ.Closed id)
    (hr : σ.reply o c = some r) : (effect t σ c r).Closed id := by
  cases c with
  | request q =>
    cases r with
    | error err => exact h
    | ok v =>
      cases q with
      | acquireLock origin resource => cases v <;> exact h
      | persistWorkflowWithSubscriptions w subs =>
        have hnew := answered_of_reply_ok hr
        simp only [answered] at hnew
        split_ifs at hnew with hsubs
        simp only [newSubscriptions, decide_eq_true_eq] at hsubs
        obtain ⟨⟨s, hs, hid⟩, hclosed⟩ := h
        refine ⟨⟨s, List.mem_append_left _ hs, hid⟩, fun s' hs' hid' => ?_⟩
        rcases List.mem_append.mp hs' with hs' | hs'
        · exact hclosed s' hs' hid'
        · exact absurd (List.mem_map.mpr ⟨s, hs, hid.trans hid'.symm⟩) (hsubs.2 s' hs')
      | terminateSubscription id' =>
        obtain ⟨⟨s, hs, hid⟩, hclosed⟩ := h
        constructor
        · refine ⟨_, List.mem_map.mpr ⟨s, hs, rfl⟩, ?_⟩
          split_ifs <;> exact hid
        · intro s' hs' hid'
          obtain ⟨s₀, hs₀, rfl⟩ := List.mem_map.mp hs'
          split_ifs at hid' ⊢
          · simp
          · exact hclosed s₀ hs₀ hid'
      | _ => exact h
  | _ => exact h

/-- The workflow a stored subscription belongs to. -/
def owner (σ : Shared) (id : String) : Option String :=
  (Table.get EventSubscription.id σ.subscriptions id).map EventSubscription.workflowId

/-- Subscriptions keep their workflow. -/
theorem owner_effect {t : Nat} {c : Call} {r : c.Reply} {id workflowId : String}
    (h : σ.owner id = some workflowId) : (effect t σ c r).owner id = some workflowId := by
  cases c with
  | request q =>
    cases r with
    | error err => exact h
    | ok v =>
      cases q with
      | acquireLock origin resource => cases v <;> exact h
      | persistWorkflowWithSubscriptions w subs =>
        obtain ⟨s, hs, rfl⟩ := Option.map_eq_some_iff.mp h
        rw [Table.get] at hs
        simp [owner, effect, granted, Table.get, hs]
      | terminateSubscription id' =>
        obtain ⟨s, hs, rfl⟩ := Option.map_eq_some_iff.mp h
        rw [owner, effect, granted, Table.get_map (fun s => by split_ifs <;> rfl), hs]
        by_cases hid : s.id = id' <;> simp [hid]
      | _ => exact h
  | _ => exact h

/-- Subscriptions have distinct ids. -/
theorem nodup_subscriptions_effect {t : Nat} {c : Call} {r : c.Reply}
    (hr : σ.reply o c = some r) (h : (σ.subscriptions.map EventSubscription.id).Nodup) :
    ((effect t σ c r).subscriptions.map EventSubscription.id).Nodup := by
  cases c with
  | request q =>
    cases r with
    | error err => exact h
    | ok v =>
      cases q with
      | acquireLock origin resource => cases v <;> exact h
      | persistWorkflowWithSubscriptions w subs =>
        have hnew := answered_of_reply_ok hr
        simp only [answered] at hnew
        split_ifs at hnew with hsubs
        simp only [newSubscriptions, decide_eq_true_eq] at hsubs
        simp only [effect, granted, List.map_append]
        refine List.nodup_append.mpr ⟨h, hsubs.1, fun id hid id' hid' => ?_⟩
        rintro rfl
        obtain ⟨s, hs, rfl⟩ := List.mem_map.mp hid'
        exact hsubs.2 s hs hid
      | terminateSubscription id' =>
        have hids : (σ.subscriptions.map fun s => if s.id = id' then
            { s with externalToken := some "__terminated__" } else s).map EventSubscription.id =
            σ.subscriptions.map EventSubscription.id := by
          rw [List.map_map]
          refine List.map_congr_left fun s _ => ?_
          by_cases hid : s.id = id' <;> simp [hid]
        simp only [effect, granted]
        rwa [hids]
      | _ => exact h
  | _ => exact h

/-- The lookup finds every subscription that matches. -/
theorem mem_matchingSubscriptions {eventName key : String} {asOf : DateTime}
    {s : EventSubscription} :
    s ∈ σ.matchingSubscriptions o eventName key asOf ↔
      s ∈ σ.subscriptions ∧ s.matches eventName key asOf = true := by
  simp only [matchingSubscriptions]
  split_ifs with h
  · rw [(List.isPerm_iff.mp h).mem_iff, List.mem_filter]
  · rw [List.mem_filter]

/-! ## What every reply satisfies -/

/-- Lookups return what was asked for, UUIDs are not empty, and an event that has an id keeps
it. -/
@[simp] def expected : (c : Call) → c.Reply → Prop
  | .ambient, env => env.uuid 0 ≠ ""
  | .request (.getWorkflowInstance id), .ok w => w.id = id
  | .request (.getEvent id), .ok e => e.id = id
  | .request (.createEvent e), .ok id => e.id ≠ "" → id = e.id
  | _, _ => True

theorem expected_of_reply {c : Call} {r : c.Reply} (h : σ.reply o c = some r) : expected c r := by
  cases c with
  | ambient =>
    simp only [reply] at h
    split_ifs at h with hne
    cases h
    exact hne
  | request q =>
    cases r with
    | error e => cases q <;> trivial
    | ok v =>
      have hans := answered_of_reply_ok h
      cases q with
      | getWorkflowInstance id => exact workflow_id (answered_getWorkflowInstance hans)
      | getEvent id => exact Table.key_of_get (answered_getEvent hans)
      | createEvent e =>
        simp only [answered] at hans
        split_ifs at hans
        cases hans
        exact fun hne => if_neg hne
      | _ => trivial
  | _ => trivial

end Shared

end Wfe
