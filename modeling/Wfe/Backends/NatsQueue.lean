import Wfe.Library.Fair
import Wfe.Models.Definition
import Mathlib.Data.List.Nodup
import Mathlib.Data.List.Perm.Subperm

/-!
# Queues in JetStream

`NatsQueueProvider`: the work of each queue is a stream of messages. Every instance has durable
consumers of its own, one for each stream, which are delivered the stream from its beginning. A task
of the instance takes the messages that have been delivered, sends their ids into a bounded channel,
from which `dequeue_work` receives them, and acknowledges those for which there was room. JetStream
delivers a message again and again until the consumer has acknowledged it.

## Main definitions

* `queueWork`, `dequeueWork`, `Worker.turn`: the provider
* `Action`, `Nats.next`: what clients, tasks and server do
* `Fair`: unacknowledged messages are delivered again, tasks run and instances keep dequeuing
* `ExactlyOnce`: every item that is queued is dequeued once, over all instances
* `Orderly`: there is one instance, and nothing is delivered to it again that it has accepted

## Main results

* `exactlyOnce_of_orderly`: fair and orderly runs deliver exactly once
* `delivered_to_each`: an instance that starts later is handed what has been consumed before
-/

open Filter

namespace Wfe.NatsQueue

/-! ## The provider -/

/-- `CHANNEL_CAPACITY`. -/
def channelCapacity : ℕ := 256

/-- A message of a stream: its number in the stream, and the id that was queued. -/
structure Message where
  seq : ℕ
  id : String
deriving DecidableEq, Repr

/-- What an instance has for one queue: the messages that its consumer has acknowledged, those that
have been delivered to its task, the channel, and the message that the task has sent into the
channel and is to acknowledge next. The channel holds the ids; the numbers are kept to tell the
messages apart. -/
structure Worker where
  acked : List ℕ := []
  inbox : List Message := []
  channel : List Message := []
  acking : Option Message := none

/-- The streams, the instances, and all that their `dequeue_work` calls have returned. -/
structure Nats where
  stream : QueueType → List String
  instances : List String
  worker : String → QueueType → Worker
  returned : QueueType → List Message

namespace Worker

/-- `try_send`: fails if the channel is full. -/
def trySend (w : Worker) (m : Message) : Option Worker :=
  if w.channel.length < channelCapacity then some { w with channel := w.channel ++ [m] } else none

/-- The next step of the task: it acknowledges the message it has accepted, or takes the next one
that has been delivered. Ids are queued as strings, so that the payload is always valid UTF-8. -/
def turn (w : Worker) (failure : Option String) : Worker :=
  match w.acking, w.inbox with
  | some m, _ =>
    match failure with
    | some _ => { w with acking := none }
    | none => { w with acking := none, acked := w.acked ++ [m.seq] }
  | none, [] => w
  | none, m :: inbox =>
    match trySend { w with inbox } m with
    | some w => { w with acking := some m }
    | none => { w with inbox }

end Worker

namespace Nats

/-- The state with another worker for a queue of an instance. -/
def setWorker (s : Nats) (self : String) (queue : QueueType) (w : Worker) : Nats :=
  { s with worker := Function.update s.worker self (Function.update (s.worker self) queue w) }

def queueWork (failure : Option String) (id : String) (queue : QueueType) (s : Nats) :
    Except WfeError Unit × Nats :=
  match failure with
  | some e => (.error (.persistence s!"failed to publish: {e}"), s)
  | none =>
    (.ok (), { s with stream := Function.update s.stream queue (s.stream queue ++ [id]) })

/-- A channel that stays empty for the timeout has no work. -/
def dequeueWork (self : String) (queue : QueueType) (s : Nats) :
    Except WfeError (Option String) × Nats :=
  match (s.worker self queue).channel with
  | [] => (.ok none, s)
  | m :: channel =>
    (.ok (some m.id),
      { s.setWorker self queue { s.worker self queue with channel } with
        returned := Function.update s.returned queue (s.returned queue ++ [m]) })

/-- `new` and `start`: the consumers, channels and tasks of a further instance. -/
def launch (self : String) (s : Nats) : Nats := { s with instances := s.instances ++ [self] }

/-- The server delivers a message to an instance that has not acknowledged it. -/
def deliver (self : String) (queue : QueueType) (n : ℕ) (s : Nats) : Nats :=
  match (s.stream queue)[n]? with
  | none => s
  | some id =>
    let w := s.worker self queue
    if self ∈ s.instances ∧ n ∉ w.acked then
      s.setWorker self queue { w with inbox := w.inbox ++ [⟨n, id⟩] }
    else s

end Nats

/-- What happens at one time. An action that is not possible has no effect. -/
inductive Action
  | queueWork (failure : Option String) (id : String) (queue : QueueType)
  | launch (self : String)
  | deliver (self : String) (queue : QueueType) (n : ℕ)
  | turn (self : String) (queue : QueueType) (failure : Option String)
  | dequeueWork (self : String) (queue : QueueType)

def Nats.next (s : Nats) : Action → Nats
  | .queueWork failure id queue => (s.queueWork failure id queue).2
  | .launch self => s.launch self
  | .deliver self queue n => s.deliver self queue n
  | .turn self queue failure => s.setWorker self queue ((s.worker self queue).turn failure)
  | .dequeueWork self queue => (s.dequeueWork self queue).2

/-- Empty streams, and no instance. -/
def Nats.empty : Nats := ⟨fun _ => [], [], fun _ _ => {}, fun _ => []⟩

/-- The states of the run that takes the actions `α`. -/
abbrev states (α : ℕ → Action) : ℕ → Nats := Endless.states Nats.next .empty α

/-! ## What is claimed -/

/-- A message that its consumer never acknowledges is delivered to it again and again; the tasks of
all instances run, and all instances keep dequeuing. -/
structure Fair (α : ℕ → Action) : Prop where
  delivered : ∀ k self queue n, self ∈ (states α k).instances →
    n < ((states α k).stream queue).length → (∀ j, n ∉ ((states α j).worker self queue).acked) →
    ∃ᶠ j in atTop, α j = .deliver self queue n
  runs : ∀ k self queue, self ∈ (states α k).instances →
    ∃ᶠ j in atTop, ∃ failure, α j = .turn self queue failure
  dequeues : ∀ k self queue, self ∈ (states α k).instances →
    ∃ᶠ j in atTop, α j = .dequeueWork self queue

/-- Of every call `queue_work(id, queue)`, there is from some time on exactly one `Some(id)` that
`dequeue_work(queue)` has returned on any instance. -/
def ExactlyOnce (α : ℕ → Action) : Prop :=
  ∀ k queue n id, ((states α k).stream queue)[n]? = some id →
    ∀ᶠ j in atTop, ((states α j).returned queue).filter (fun m => m.seq = n) = [⟨n, id⟩]

/-- The messages that are on their way in an instance, or have been returned. -/
def Nats.taken (s : Nats) (self : String) (queue : QueueType) : List Message :=
  (s.worker self queue).inbox ++ ((s.worker self queue).channel ++ s.returned queue)

/-- The first instance is the only one, and no message is delivered to it while it is handling it,
or after it has accepted it. -/
def Orderly (s : Nats) : Action → Prop
  | .launch _ => s.instances = []
  | .deliver self queue n => ∀ m ∈ s.taken self queue, m.seq ≠ n
  | _ => True

/-- The task is about to send message `n` into a full channel. -/
def Refuses (s : Nats) (queue : QueueType) (n : ℕ) : Action → Prop
  | .turn self queue' _ => queue' = queue ∧ (s.worker self queue).acking = none ∧
      (∃ m ∈ (s.worker self queue).inbox.head?, m.seq = n) ∧
      channelCapacity ≤ (s.worker self queue).channel.length
  | _ => False

/-! ## One queue of one instance -/

/-- What there is of one queue when there is only one instance. -/
structure View where
  stream : List String
  worker : Worker
  returned : List Message

namespace View

/-- The messages that the instance has accepted. -/
def accepted (v : View) : List Message := v.worker.channel ++ v.returned

/-- Those, and the ones on the way to its task. -/
def taken (v : View) : List Message := v.worker.inbox ++ v.accepted

def turn (v : View) (failure : Option String) : View := { v with worker := v.worker.turn failure }

def dequeue (v : View) : View :=
  match v.worker.channel with
  | [] => v
  | m :: channel =>
    { v with worker := { v.worker with channel }, returned := v.returned ++ [m] }

/-- What an action does to the queue of the instance `self`. -/
inductive Step (self : String) (queue : QueueType) : Action → View → View → Prop
  | stay (a : Action) (v : View) : (∀ failure, a ≠ .turn self queue failure) →
      a ≠ .dequeueWork self queue → Step self queue a v v
  | queueWork (v : View) (id : String) :
      Step self queue (.queueWork none id queue) v { v with stream := v.stream ++ [id] }
  | deliver (v : View) (n : ℕ) (id : String) : v.stream[n]? = some id →
      (∀ m ∈ v.taken, m.seq ≠ n) →
      Step self queue (.deliver self queue n) v
        { v with worker := { v.worker with inbox := v.worker.inbox ++ [⟨n, id⟩] } }
  | turn (v : View) (failure : Option String) :
      Step self queue (.turn self queue failure) v (v.turn failure)
  | dequeue (v : View) : Step self queue (.dequeueWork self queue) v v.dequeue

end View

namespace Nats

variable {s : Nats} {self : String} {queue : QueueType}

def view (s : Nats) (self : String) (queue : QueueType) : View :=
  ⟨s.stream queue, s.worker self queue, s.returned queue⟩

/-- There is no other instance than `i`. -/
structure Alone (i : String) (s : Nats) : Prop where
  instances : ∀ j ∈ s.instances, j = i
  workers : ∀ j, j ≠ i → ∀ queue, s.worker j queue = {}

theorem worker_setWorker (i : String) (queue' : QueueType) (w : Worker) :
    (s.setWorker self queue w).worker i queue' =
      if i = self ∧ queue' = queue then w else s.worker i queue' := by
  by_cases hi : i = self
  · subst hi
    by_cases hq : queue' = queue
    · subst hq
      simp [setWorker]
    · simp [setWorker, hq]
  · simp [setWorker, hi]

theorem view_setWorker (w : Worker) :
    (s.setWorker self queue w).view self queue = { s.view self queue with worker := w } := by
  simp only [view, worker_setWorker, and_self, if_true]
  rfl

theorem view_setWorker_of_ne {i : String} {queue' : QueueType} (w : Worker)
    (h : ¬(self = i ∧ queue = queue')) :
    (s.setWorker i queue' w).view self queue = s.view self queue := by
  simp only [view, worker_setWorker, if_neg h]
  rfl

theorem view_dequeueWork :
    (s.next (.dequeueWork self queue)).view self queue = (s.view self queue).dequeue := by
  simp only [next, dequeueWork, View.dequeue, view]
  split
  · rfl
  · simp [setWorker]

/-- What is dequeued elsewhere comes from another queue, since other instances have nothing. -/
theorem Alone.view_dequeueWork_of_ne {i : String} {queue' : QueueType} (h : Alone self s)
    (hne : ¬(self = i ∧ queue = queue')) :
    (s.next (.dequeueWork i queue')).view self queue = s.view self queue := by
  simp only [next, dequeueWork]
  split
  · rfl
  · next m channel hchannel =>
    obtain rfl : i = self := by
      by_contra hi
      rw [h.workers i hi queue'] at hchannel
      cases hchannel
    have hq : queue ≠ queue' := fun hq => hne ⟨rfl, hq⟩
    simp [view, setWorker, hq]

/-- Every action takes its step on each queue of the only instance. -/
theorem Alone.step (h : Alone self s) (a : Action) (horderly : Orderly s a) :
    View.Step self queue a (s.view self queue) ((s.next a).view self queue) := by
  cases a with
  | queueWork failure id queue' =>
    cases failure with
    | some e => exact .stay _ _ (by simp) (by simp)
    | none =>
      by_cases hq : queue = queue'
      · subst hq
        have hview : (s.next (.queueWork none id queue)).view self queue =
            { s.view self queue with stream := (s.view self queue).stream ++ [id] } := by
          simp [next, queueWork, view]
        rw [hview]
        exact .queueWork _ _
      · have hview : (s.next (.queueWork none id queue')).view self queue = s.view self queue := by
          simp [next, queueWork, view, hq]
        rw [hview]
        exact .stay _ _ (by simp) (by simp)
  | launch i => exact .stay _ _ (by simp) (by simp)
  | deliver i queue' n =>
    simp only [next, deliver]
    split
    · exact .stay _ _ (by simp) (by simp)
    · next id hid =>
      split
      · next hi =>
        obtain rfl := h.instances i hi.1
        by_cases hq : queue = queue'
        · subst hq
          rw [view_setWorker]
          exact .deliver _ n id hid horderly
        · rw [view_setWorker_of_ne _ (by simp [hq])]
          exact .stay _ _ (by simp) (by simp)
      · exact .stay _ _ (by simp) (by simp)
  | turn i queue' failure =>
    by_cases hself : self = i ∧ queue = queue'
    · obtain ⟨rfl, rfl⟩ := hself
      rw [next, view_setWorker]
      exact .turn _ failure
    · rw [next, view_setWorker_of_ne _ hself]
      exact .stay _ _ (by simpa using fun hi hq => hself ⟨hi.symm, hq.symm⟩) (by simp)
  | dequeueWork i queue' =>
    by_cases hself : self = i ∧ queue = queue'
    · obtain ⟨rfl, rfl⟩ := hself
      rw [view_dequeueWork]
      exact .dequeue _
    · rw [h.view_dequeueWork_of_ne hself]
      exact .stay _ _ (by simp) (by simpa using fun hi hq => hself ⟨hi.symm, hq.symm⟩)

theorem Alone.next (h : Alone self s) {a : Action} (hnext : ∀ i ∈ (s.next a).instances, i = self) :
    Alone self (s.next a) where
  instances := hnext
  workers i hi queue := by
    have hidle := h.workers i hi
    cases a with
    | queueWork failure id queue' => cases failure <;> exact hidle queue
    | launch j => exact hidle queue
    | deliver j queue' n =>
      simp only [Nats.next, deliver]
      split
      · exact hidle queue
      · split
        · next hj =>
          have hne : i ≠ j := fun hij => hi (h.instances i (hij ▸ hj.1))
          simp [worker_setWorker, hne, hidle]
        · exact hidle queue
    | turn j queue' failure =>
      rw [Nats.next, worker_setWorker]
      split_ifs with hj
      · -- The task of an instance that has not started has nothing to do.
        rw [← hj.1, hidle]
        rfl
      · exact hidle queue
    | dequeueWork j queue' =>
      simp only [Nats.next, dequeueWork]
      split
      · exact hidle queue
      · next m channel hchannel =>
        have hne : i ≠ j := by
          rintro rfl
          rw [hidle] at hchannel
          cases hchannel
        simpa [worker_setWorker, hne] using hidle queue

end Nats

/-! ## At most once -/

/-- What the task does in its turn: it acknowledges, waits, accepts or refuses. -/
theorem Worker.turn_cases (w : Worker) (failure : Option String) :
    (∃ m acked, w.acking = some m ∧ (∀ n ∈ acked, n ∈ w.acked ∨ n = m.seq) ∧ w.acked ⊆ acked ∧
      w.turn failure = { w with acking := none, acked }) ∨
    (w.acking = none ∧ w.inbox = [] ∧ w.turn failure = w) ∨
    (∃ m inbox, w.acking = none ∧ w.inbox = m :: inbox ∧ w.channel.length < channelCapacity ∧
      w.turn failure = { w with inbox, channel := w.channel ++ [m], acking := some m }) ∨
    ∃ m inbox, w.acking = none ∧ w.inbox = m :: inbox ∧ channelCapacity ≤ w.channel.length ∧
      w.turn failure = { w with inbox } := by
  rcases hacking : w.acking with _ | m
  · rcases hinbox : w.inbox with _ | ⟨m, inbox⟩
    · exact .inr (.inl ⟨rfl, rfl, by simp [turn, hacking, hinbox]⟩)
    · by_cases hroom : w.channel.length < channelCapacity
      · exact .inr (.inr (.inl ⟨m, inbox, rfl, rfl, hroom,
          by simp [turn, trySend, hacking, hinbox, hroom]⟩))
      · exact .inr (.inr (.inr ⟨m, inbox, rfl, rfl, by omega,
          by simp [turn, trySend, hacking, hinbox, hroom]⟩))
  · cases failure with
    | some e => exact .inl ⟨m, w.acked, rfl, fun n => .inl, fun _ => id, by simp [turn, hacking]⟩
    | none =>
      refine .inl ⟨m, w.acked ++ [m.seq], rfl, fun n hn => ?_, List.subset_append_left _ _,
        by simp [turn, hacking]⟩
      simpa using hn

namespace View

variable {self : String} {queue : QueueType} {a : Action} {v v' : View}

/-- Each message is taken at most once, as it is in the stream, and what has been acknowledged has
been accepted. -/
structure Sound (v : View) : Prop where
  stream : ∀ m ∈ v.taken, v.stream[m.seq]? = some m.id
  nodup : (v.taken.map Message.seq).Nodup
  acked : ∀ n ∈ v.worker.acked, ∃ m ∈ v.accepted, m.seq = n
  acking : ∀ m ∈ v.worker.acking, m ∈ v.accepted

/-- Messages that move on, or are dropped, are still taken at most once. -/
theorem Sound.of_subperm (h : Sound v) (hstream : v'.stream = v.stream)
    (htaken : v'.taken.Subperm v.taken)
    (hacked : ∀ n ∈ v'.worker.acked, ∃ m ∈ v'.accepted, m.seq = n)
    (hacking : ∀ m ∈ v'.worker.acking, m ∈ v'.accepted) : Sound v' where
  stream m hm := by
    rw [hstream]
    exact h.stream m (htaken.subset hm)
  nodup := by
    obtain ⟨l, hperm, hsub⟩ := htaken
    exact (hperm.map Message.seq).nodup_iff.mp (h.nodup.sublist (hsub.map _))
  acked := hacked
  acking := hacking

theorem Sound.turn (h : Sound v) (failure : Option String) : Sound (v.turn failure) := by
  rcases v.worker.turn_cases failure with ⟨m, acked, hm, hacked, -, hw⟩ | ⟨-, -, hw⟩ |
    ⟨m, inbox, -, hinbox, -, hw⟩ | ⟨m, inbox, hacking, hinbox, -, hw⟩ <;> rw [View.turn, hw]
  · -- The message that is acknowledged has been accepted.
    refine h.of_subperm rfl (List.Subperm.refl _) (fun n hn => ?_) (by simp)
    rcases hacked n hn with hn | rfl
    · exact h.acked n hn
    · exact ⟨m, h.acking m hm, rfl⟩
  · exact h
  · -- The message that is accepted moves from the inbox to the channel.
    have hperm : (inbox ++ (v.worker.channel ++ [m] ++ v.returned)).Perm v.taken := by
      rw [taken, hinbox, accepted, List.append_assoc, List.singleton_append]
      exact (List.perm_middle.append_left inbox).trans List.perm_middle
    refine h.of_subperm rfl hperm.subperm (fun n hn => ?_) ?_
    · obtain ⟨m', hm', hseq⟩ := h.acked n hn
      exact ⟨m', by simp only [accepted, List.mem_append] at hm' ⊢; tauto, hseq⟩
    · simp [accepted]
  · -- The message that is refused is dropped.
    refine h.of_subperm rfl (List.Sublist.subperm ?_) h.acked h.acking
    rw [taken, taken, hinbox]
    exact List.sublist_cons_self m _

theorem Sound.dequeue (h : Sound v) : Sound v.dequeue := by
  rcases hchannel : v.worker.channel with _ | ⟨m, channel⟩ <;> rw [View.dequeue, hchannel]
  · exact h
  · have hperm : (channel ++ (v.returned ++ [m])).Perm v.accepted := by
      rw [accepted, hchannel, ← List.append_assoc]
      exact List.perm_append_singleton m _
    refine h.of_subperm rfl (hperm.append_left _).subperm (fun n hn => ?_) fun m' hm' => ?_
    · obtain ⟨m', hm', hseq⟩ := h.acked n hn
      exact ⟨m', hperm.mem_iff.mpr hm', hseq⟩
    · exact hperm.mem_iff.mpr (h.acking m' hm')

theorem Sound.step (h : Sound v) (hstep : Step self queue a v v') : Sound v' := by
  cases hstep with
  | stay => exact h
  | queueWork _ id =>
    refine ⟨fun m hm => ?_, h.nodup, h.acked, h.acking⟩
    exact List.getElem?_append_left (List.getElem?_eq_some_iff.mp (h.stream m hm)).1 ▸ h.stream m hm
  | deliver _ n id hid hnew =>
    have hperm : (v.worker.inbox ++ [(⟨n, id⟩ : Message)] ++ v.accepted).Perm
        (⟨n, id⟩ :: v.taken) := by
      rw [List.append_assoc]
      exact List.perm_middle
    refine ⟨fun m hm => ?_, ?_, h.acked, h.acking⟩
    · rcases List.mem_cons.mp (hperm.mem_iff.mp hm) with rfl | hm
      · exact hid
      · exact h.stream m hm
    · refine (hperm.map Message.seq).nodup_iff.mpr (List.nodup_cons.mpr ⟨?_, h.nodup⟩)
      simpa using hnew
  | turn _ failure => exact h.turn failure
  | dequeue => exact h.dequeue

/-! ## Onwards -/

variable {m : Message}

/-- How many turns of the task it takes at most until a message in its inbox is next. -/
def inboxRank (v : View) (m : Message) : ℕ :=
  2 * v.worker.inbox.idxOf m + if v.worker.acking.isSome then 1 else 0

/-- A message in the inbox moves on, or is refused. -/
theorem inbox_turn (failure : Option String) (hm : m ∈ v.worker.inbox)
    (hroom : ¬(v.worker.acking = none ∧ v.worker.inbox.head? = some m ∧
      channelCapacity ≤ v.worker.channel.length)) :
    m ∈ (v.turn failure).accepted ∨ m ∈ (v.turn failure).worker.inbox ∧
      (v.turn failure).inboxRank m < v.inboxRank m := by
  rcases v.worker.turn_cases failure with ⟨m', acked, hm', -, -, hw⟩ | ⟨-, hinbox, -⟩ |
    ⟨m', inbox, hacking, hinbox, -, hw⟩ | ⟨m', inbox, hacking, hinbox, hfull, hw⟩
  · rw [View.turn, hw]
    exact .inr ⟨hm, by simp [inboxRank, hm']⟩
  · simp [hinbox] at hm
  · rw [View.turn, hw]
    by_cases hne : m' = m
    · exact .inl (by simp [accepted, hne])
    · rw [hinbox] at hm
      have hm : m ∈ inbox := (List.mem_cons.mp hm).resolve_left (Ne.symm hne)
      refine .inr ⟨hm, ?_⟩
      simp [inboxRank, hinbox, hacking, List.idxOf_cons_ne _ hne]
      omega
  · rw [View.turn, hw]
    have hne : m' ≠ m := by
      rintro rfl
      exact hroom ⟨hacking, by rw [hinbox]; rfl, hfull⟩
    rw [hinbox] at hm
    have hm : m ∈ inbox := (List.mem_cons.mp hm).resolve_left (Ne.symm hne)
    refine .inr ⟨hm, ?_⟩
    simp [inboxRank, hinbox, hacking, List.idxOf_cons_ne _ hne]

theorem inbox_step (hstep : Step self queue a v v') (hm : m ∈ v.worker.inbox)
    (hroom : ∀ failure, a = .turn self queue failure → ¬(v.worker.acking = none ∧
      v.worker.inbox.head? = some m ∧ channelCapacity ≤ v.worker.channel.length)) :
    m ∈ v'.accepted ∨ m ∈ v'.worker.inbox ∧ v'.inboxRank m ≤ v.inboxRank m := by
  cases hstep with
  | stay => exact .inr ⟨hm, le_rfl⟩
  | queueWork _ id => exact .inr ⟨hm, le_rfl⟩
  | deliver _ n id _ _ =>
    refine .inr ⟨List.mem_append_left _ hm, ?_⟩
    simp [inboxRank, List.idxOf_append_of_mem hm]
  | turn _ failure =>
    rcases inbox_turn failure hm (hroom failure rfl) with h | ⟨h, hlt⟩
    · exact .inl h
    · exact .inr ⟨h, hlt.le⟩
  | dequeue =>
    rcases hchannel : v.worker.channel with _ | ⟨m', channel⟩ <;> simp only [dequeue, hchannel]
    · exact .inr ⟨hm, le_rfl⟩
    · exact .inr ⟨hm, le_rfl⟩

/-- The channel is received from its front and filled at its end. -/
theorem channel_dequeue (hm : m ∈ v.worker.channel) :
    m ∈ v.dequeue.returned ∨ m ∈ v.dequeue.worker.channel ∧
      v.dequeue.worker.channel.idxOf m < v.worker.channel.idxOf m := by
  rcases hchannel : v.worker.channel with _ | ⟨m', channel⟩ <;> rw [hchannel] at hm
  · cases hm
  · simp only [dequeue, hchannel]
    by_cases hne : m' = m
    · exact .inl (by simp [hne])
    · refine .inr ⟨(List.mem_cons.mp hm).resolve_left (Ne.symm hne), ?_⟩
      simp [List.idxOf_cons_ne _ hne]

theorem channel_step (hstep : Step self queue a v v') (hm : m ∈ v.worker.channel) :
    m ∈ v'.returned ∨ m ∈ v'.worker.channel ∧
      v'.worker.channel.idxOf m ≤ v.worker.channel.idxOf m := by
  cases hstep with
  | stay => exact .inr ⟨hm, le_rfl⟩
  | queueWork _ id => exact .inr ⟨hm, le_rfl⟩
  | deliver _ n id _ _ => exact .inr ⟨hm, le_rfl⟩
  | turn _ failure =>
    rcases v.worker.turn_cases failure with ⟨m', acked, -, -, -, hw⟩ | ⟨-, -, hw⟩ |
      ⟨m', inbox, -, -, -, hw⟩ | ⟨m', inbox, -, -, -, hw⟩ <;> rw [View.turn, hw]
    · exact .inr ⟨hm, le_rfl⟩
    · exact .inr ⟨hm, le_rfl⟩
    · exact .inr ⟨List.mem_append_left _ hm, by simp [List.idxOf_append_of_mem hm]⟩
    · exact .inr ⟨hm, le_rfl⟩
  | dequeue =>
    rcases channel_dequeue hm with h | ⟨h, hlt⟩
    · exact .inl h
    · exact .inr ⟨h, hlt.le⟩

/-- What is published, acknowledged or returned stays so. -/
theorem Step.grows (hstep : Step self queue a v v') : v.stream <+: v'.stream ∧
    v.worker.acked ⊆ v'.worker.acked ∧ v.returned ⊆ v'.returned := by
  cases hstep with
  | stay => exact ⟨List.prefix_refl _, List.Subset.refl _, List.Subset.refl _⟩
  | queueWork _ id => exact ⟨List.prefix_append _ _, List.Subset.refl _, List.Subset.refl _⟩
  | deliver _ n id _ _ => exact ⟨List.prefix_refl _, List.Subset.refl _, List.Subset.refl _⟩
  | turn _ failure =>
    refine ⟨List.prefix_refl _, ?_, List.Subset.refl _⟩
    rcases v.worker.turn_cases failure with ⟨m', acked, -, -, hsub, hw⟩ | ⟨-, -, hw⟩ |
      ⟨m', inbox, -, -, -, hw⟩ | ⟨m', inbox, -, -, -, hw⟩ <;> rw [View.turn, hw]
    · exact hsub
    · exact List.Subset.refl _
    · exact List.Subset.refl _
    · exact List.Subset.refl _
  | dequeue =>
    rcases hchannel : v.worker.channel with _ | ⟨m', channel⟩ <;> simp only [View.dequeue, hchannel]
    · exact ⟨List.prefix_refl _, List.Subset.refl _, List.Subset.refl _⟩
    · exact ⟨List.prefix_refl _, List.Subset.refl _, List.subset_append_left _ _⟩

/-- A message that has been returned has been returned once. -/
theorem Sound.filter_returned (h : Sound v) (hm : m ∈ v.returned) :
    v.returned.filter (fun x => x.seq = m.seq) = [m] := by
  have hnodup : (v.returned.map Message.seq).Nodup :=
    h.nodup.sublist (((List.sublist_append_right _ _).trans (List.sublist_append_right _ _)).map _)
  -- A message is determined by its number.
  have hfilter : v.returned.filter (fun x => x.seq = m.seq) = v.returned.filter (· = m) := by
    refine List.filter_congr fun x hx => ?_
    have hiff : x.seq = m.seq ↔ x = m :=
      ⟨fun hseq => List.inj_on_of_nodup_map hnodup hx hm hseq, fun hxm => hxm ▸ rfl⟩
    simp [hiff]
  rw [hfilter, List.filter_eq, List.count_eq_one_of_mem hnodup.of_map hm, List.replicate_one]

end View

/-! ## Exactly once -/

section Runs

variable {α : ℕ → Action} {self : String} {queue : QueueType}

theorem Nats.instances_next (s : Nats) (a : Action) : s.instances ⊆ (s.next a).instances := by
  cases a with
  | queueWork failure id queue => cases failure <;> exact List.Subset.refl _
  | launch i => exact List.subset_append_left _ _
  | deliver i queue n =>
    simp only [next, deliver]
    split
    · exact List.Subset.refl _
    · split <;> exact List.Subset.refl _
  | turn i queue failure => exact List.Subset.refl _
  | dequeueWork i queue =>
    simp only [next, dequeueWork]
    split <;> exact List.Subset.refl _

theorem Nats.instances_of_orderly {s : Nats} {a : Action} (horderly : Orderly s a)
    (h : ∀ i ∈ s.instances, ∀ j ∈ s.instances, i = j) :
    ∀ i ∈ (s.next a).instances, ∀ j ∈ (s.next a).instances, i = j := by
  cases a with
  | queueWork failure id queue => cases failure <;> exact h
  | launch i =>
    have hnone : s.instances = [] := horderly
    simp [next, launch, hnone]
  | deliver i queue n =>
    simp only [next, deliver]
    split
    · exact h
    · split <;> exact h
  | turn i queue failure => exact h
  | dequeueWork i queue =>
    simp only [next, dequeueWork]
    split <;> exact h

theorem mem_instances_of_le {j k : ℕ} (hjk : j ≤ k) (hself : self ∈ (states α j).instances) :
    self ∈ (states α k).instances :=
  Endless.stable (N := fun s : Nats => self ∈ s.instances) (fun s a hs => s.instances_next a hs) hjk
    hself

/-- In orderly runs, an instance that is launched at some time is alone at all times. -/
theorem alone_of_orderly (horderly : ∀ k, Orderly (states α k) (α k)) {j : ℕ}
    (hself : self ∈ (states α j).instances) (k : ℕ) : Nats.Alone self (states α k) := by
  have hinstances (k : ℕ) : ∀ i ∈ (states α k).instances, i = self := by
    intro i hi
    have hi' := mem_instances_of_le (le_max_left k j) hi
    have hself' := mem_instances_of_le (le_max_right k j) hself
    have hone := Endless.invariant (C := Orderly)
      (N := fun s => ∀ i ∈ s.instances, ∀ j ∈ s.instances, i = j)
      (by simp [Nats.empty]) (fun s a hs ha => Nats.instances_of_orderly ha hs) horderly (max k j)
    exact hone i hi' self hself'
  induction k with
  | zero => exact ⟨hinstances 0, fun _ _ _ => rfl⟩
  | succ k ih => exact ih.next (hinstances (k + 1))

section Alone

variable (horderly : ∀ k, Orderly (states α k) (α k)) (halone : ∀ k, Nats.Alone self (states α k))
include horderly halone

theorem step_view (k : ℕ) : View.Step self queue (α k) ((states α k).view self queue)
    ((states α (k + 1)).view self queue) := (halone k).step (α k) (horderly k)

theorem sound_view (k : ℕ) : ((states α k).view self queue).Sound := by
  induction k with
  | zero =>
    refine ⟨?_, List.nodup_nil, ?_, ?_⟩ <;>
      simp [Endless.states, Nats.empty, Nats.view, View.taken, View.accepted]
  | succ k ih => exact ih.step (step_view horderly halone k)

theorem grows_view {j k : ℕ} (hjk : j ≤ k) :
    ((states α j).view self queue).stream <+: ((states α k).view self queue).stream ∧
    ((states α j).view self queue).worker.acked ⊆ ((states α k).view self queue).worker.acked ∧
    ((states α j).view self queue).returned ⊆ ((states α k).view self queue).returned := by
  induction k, hjk using Nat.le_induction with
  | base => exact ⟨List.prefix_refl _, List.Subset.refl _, List.Subset.refl _⟩
  | succ k _ ih =>
    have hstep : View.Step self queue _ _ _ := step_view horderly halone k
    obtain ⟨hstream, hacked, hreturned⟩ := hstep.grows
    exact ⟨ih.1.trans hstream, List.Subset.trans ih.2.1 hacked, List.Subset.trans ih.2.2 hreturned⟩

/-- A message stays in the stream. -/
theorem stream_of_le {j k n : ℕ} {id : String} (hjk : j ≤ k)
    (hid : ((states α j).stream queue)[n]? = some id) :
    ((states α k).stream queue)[n]? = some id := by
  have hgrows : (states α j).stream queue <+: (states α k).stream queue :=
    (grows_view horderly halone hjk).1
  obtain ⟨rest, hrest⟩ := hgrows
  rw [← hrest, List.getElem?_append_left (List.getElem?_eq_some_iff.mp hid).1]
  exact hid

variable {m : Message}

/-- What has been published is taken by the instance. -/
theorem published_leadsTo_taken (hfair : Fair α) {j : ℕ} (hself : self ∈ (states α j).instances) :
    LeadsTo (fun k => ((states α k).stream queue)[m.seq]? = some m.id)
      (fun k => m ∈ ((states α k).view self queue).taken) := by
  intro k hk
  by_contra hnever
  have hnot (i : ℕ) (hi : k ≤ i) : m ∉ ((states α i).view self queue).taken :=
    fun hm => hnever ⟨i, hi, hm⟩
  -- It is never acknowledged, since only what has been accepted is.
  have hacked (i : ℕ) : m.seq ∉ ((states α i).worker self queue).acked := by
    intro hi
    have hlater := (grows_view horderly halone (le_max_left i k)).2.1 hi
    obtain ⟨m', hm', hseq⟩ := (sound_view horderly halone (max i k)).acked m.seq hlater
    have htaken : m' ∈ ((states α (max i k)).view self queue).taken := List.mem_append_right _ hm'
    have hid' := (sound_view horderly halone (max i k)).stream m' htaken
    have hid := stream_of_le horderly halone (le_max_right i k) hk
    obtain rfl : m' = m := by
      rw [hseq] at hid'
      have hids := Option.some.inj (hid'.symm.trans hid)
      cases m
      cases m'
      cases hseq
      cases hids
      rfl
    exact hnot (max i k) (le_max_right i k) htaken
  -- So it is delivered once more, and is in the inbox then.
  have hlength : m.seq < ((states α (max j k)).stream queue).length :=
    (List.getElem?_eq_some_iff.mp (stream_of_le horderly halone (le_max_right j k) hk)).1
  have hdelivered := hfair.delivered (max j k) self queue m.seq
    (mem_instances_of_le (le_max_left j k) hself) hlength hacked
  obtain ⟨i, hi, ha⟩ := frequently_atTop.mp hdelivered (max j k)
  have hid := stream_of_le horderly halone ((le_max_right j k).trans hi) hk
  have hmem := mem_instances_of_le ((le_max_left j k).trans hi) hself
  refine hnot (i + 1) (by omega) (List.mem_append_left _ ?_)
  rw [states, Endless.states, ha, Nats.next, Nats.deliver, hid]
  simp [hmem, hacked i, Nats.view_setWorker]

/-- What has come into the inbox is accepted, if it is not refused for ever. -/
theorem inbox_leadsTo_accepted (hfair : Fair α) {j : ℕ} (hself : self ∈ (states α j).instances)
    {n : ℕ} (hroom : ∀ k, n ≤ k → ¬Refuses (states α k) queue m.seq (α k)) :
    LeadsTo (fun k => n ≤ k ∧ m ∈ ((states α k).view self queue).worker.inbox)
      (fun k => m ∈ ((states α k).view self queue).accepted) := by
  have hroom' (k : ℕ) (hk : n ≤ k) (failure : Option String)
      (ha : α k = .turn self queue failure) :
      ¬(((states α k).view self queue).worker.acking = none ∧
        ((states α k).view self queue).worker.inbox.head? = some m ∧
        channelCapacity ≤ ((states α k).view self queue).worker.channel.length) := by
    rintro ⟨hacking, hhead, hfull⟩
    have hno := hroom k hk
    rw [ha] at hno
    exact hno ⟨rfl, hacking, ⟨m, hhead, rfl⟩, hfull⟩
  refine leadsTo_of_rank (μ := fun k => ((states α k).view self queue).inboxRank m)
    (a := fun k => ∃ failure, α k = .turn self queue failure) ?_ ?_ (hfair.runs j self queue hself)
  · rintro k ⟨hk, hm⟩
    rcases View.inbox_step (step_view horderly halone k) hm (hroom' k hk) with h | ⟨h, hle⟩
    · exact .inl h
    · exact .inr ⟨⟨by omega, h⟩, hle⟩
  · rintro k ⟨hk, hm⟩ ⟨failure, ha⟩
    have hview : (states α (k + 1)).view self queue =
        ((states α k).view self queue).turn failure := by
      rw [states, Endless.states, ha, Nats.next, Nats.view_setWorker]
      rfl
    rcases View.inbox_turn failure hm (hroom' k hk failure ha) with h | ⟨h, hlt⟩
    · exact .inl (by rwa [hview])
    · exact .inr ⟨⟨by omega, by rwa [hview]⟩, by rwa [hview]⟩

/-- What is in the channel is returned. -/
theorem channel_leadsTo_returned (hfair : Fair α) {j : ℕ}
    (hself : self ∈ (states α j).instances) :
    LeadsTo (fun k => m ∈ ((states α k).view self queue).worker.channel)
      (fun k => m ∈ (states α k).returned queue) := by
  refine leadsTo_of_rank
    (μ := fun k => ((states α k).view self queue).worker.channel.idxOf m)
    (a := fun k => α k = .dequeueWork self queue) ?_ ?_ (hfair.dequeues j self queue hself)
  · intro k hm
    exact View.channel_step (step_view horderly halone k) hm
  · intro k hm ha
    have hview : (states α (k + 1)).view self queue = ((states α k).view self queue).dequeue := by
      rw [states, Endless.states, ha, Nats.view_dequeueWork]
    have h := View.channel_dequeue hm
    rwa [← hview] at h

end Alone

/-- **Exactly once.** A fair run delivers every item exactly once if there is one instance, nothing
that it has accepted is delivered to it again, and no message finds its channel full for ever. -/
theorem exactlyOnce_of_orderly (hfair : Fair α) (horderly : ∀ k, Orderly (states α k) (α k))
    (hlaunched : ∃ k, (states α k).instances ≠ [])
    (hroom : ∀ queue n, ∀ᶠ k in atTop, ¬Refuses (states α k) queue n (α k)) : ExactlyOnce α := by
  obtain ⟨j, hj⟩ := hlaunched
  obtain ⟨self, hself⟩ := List.exists_mem_of_ne_nil _ hj
  have halone := alone_of_orderly horderly hself
  intro k queue n id hid
  obtain ⟨l, hl⟩ := eventually_atTop.mp (hroom queue n)
  -- From the time on at which it is not refused any more, the message goes its way.
  obtain ⟨i, hi, htaken⟩ := published_leadsTo_taken (m := ⟨n, id⟩) horderly halone hfair hself
    (max k l) (stream_of_le horderly halone (le_max_left k l) hid)
  have haccepted : ∃ i, (⟨n, id⟩ : Message) ∈ ((states α i).view self queue).accepted := by
    rcases List.mem_append.mp htaken with hinbox | haccepted
    · obtain ⟨i', -, h⟩ := inbox_leadsTo_accepted (m := ⟨n, id⟩) horderly halone hfair hself hl i
        ⟨(le_max_right k l).trans hi, hinbox⟩
      exact ⟨i', h⟩
    · exact ⟨i, haccepted⟩
  obtain ⟨i, haccepted⟩ := haccepted
  have hreturned : ∃ i, (⟨n, id⟩ : Message) ∈ (states α i).returned queue := by
    rcases List.mem_append.mp haccepted with hchannel | hreturned
    · obtain ⟨i', -, h⟩ := channel_leadsTo_returned horderly halone hfair hself i hchannel
      exact ⟨i', h⟩
    · exact ⟨i, hreturned⟩
  obtain ⟨i, hreturned⟩ := hreturned
  refine eventually_atTop.mpr ⟨i, fun i' hi' => ?_⟩
  exact (sound_view horderly halone i').filter_returned
    ((grows_view horderly halone hi').2.2 hreturned)

end Runs

/-! ## Runs that settle -/

section Settled

variable {first : List Action} {selves : List String}

def queueTypes : List QueueType := [.workflow, .event, .index]

theorem mem_queueTypes (queue : QueueType) : queue ∈ queueTypes := by cases queue <;> decide

/-- Every task of some instances has a turn, and every queue is dequeued from. -/
def rounds (selves : List String) : List Action :=
  selves.flatMap fun self => queueTypes.flatMap fun queue =>
    [.turn self queue none, .dequeueWork self queue]

/-- There are no other instances, and they have acknowledged and returned everything. -/
def Nats.Settled (selves : List String) (s : Nats) : Prop :=
  (∀ i ∈ s.instances, i ∈ selves) ∧ ∀ self ∈ selves, ∀ queue ∈ queueTypes,
    (s.worker self queue).acking = none ∧ (s.worker self queue).inbox = [] ∧
    (s.worker self queue).channel = [] ∧
    ∀ n < (s.stream queue).length, n ∈ (s.worker self queue).acked

instance (s : Nats) : Decidable (s.Settled selves) := inferInstanceAs (Decidable (_ ∧ _))

instance (s : Nats) (a : Action) : Decidable (Orderly s a) :=
  match a with
  | .launch _ => inferInstanceAs (Decidable (_ = _))
  | .deliver self queue n => inferInstanceAs (Decidable (∀ m ∈ s.taken self queue, m.seq ≠ n))
  | .queueWork _ _ _ | .turn _ _ _ | .dequeueWork _ _ => inferInstanceAs (Decidable True)

theorem mem_rounds {a : Action} (ha : a ∈ rounds selves) : ∃ self ∈ selves, ∃ queue,
    a = .turn self queue none ∨ a = .dequeueWork self queue := by
  obtain ⟨self, hself, ha⟩ := List.mem_flatMap.mp ha
  obtain ⟨queue, -, ha⟩ := List.mem_flatMap.mp ha
  exact ⟨self, hself, queue, by simpa using ha⟩

theorem rounds_mem {self : String} (hself : self ∈ selves) (queue : QueueType) :
    .turn self queue none ∈ rounds selves ∧ .dequeueWork self queue ∈ rounds selves := by
  constructor <;>
    exact List.mem_flatMap.mpr ⟨self, hself, List.mem_flatMap.mpr ⟨queue, mem_queueTypes queue,
      by simp⟩⟩

/-- Nothing happens any more to instances that have settled. -/
theorem Nats.Settled.next {s : Nats} (h : s.Settled selves) {a : Action} (ha : a ∈ rounds selves) :
    s.next a = s := by
  obtain ⟨self, hself, queue, rfl | rfl⟩ := mem_rounds ha
  · obtain ⟨hacking, hinbox, -, -⟩ := h.2 self hself queue (mem_queueTypes queue)
    simp [Nats.next, Worker.turn, hacking, hinbox, setWorker]
  · obtain ⟨-, -, hchannel, -⟩ := h.2 self hself queue (mem_queueTypes queue)
    simp [Nats.next, dequeueWork, hchannel]

theorem Nats.stream_next (s : Nats) (a : Action) (queue : QueueType) :
    (s.stream queue).length ≤ ((s.next a).stream queue).length := by
  cases a with
  | queueWork failure id queue' =>
    cases failure with
    | some e => exact le_rfl
    | none => by_cases hq : queue = queue' <;> simp [next, queueWork, hq]
  | launch i => exact le_rfl
  | deliver i queue' n =>
    simp only [next, deliver]
    split
    · exact le_rfl
    · split <;> exact le_rfl
  | turn i queue' failure => exact le_rfl
  | dequeueWork i queue' =>
    simp only [next, dequeueWork]
    split <;> exact le_rfl

variable {hloop : 0 < (rounds selves).length} (h : (first.foldl Nats.next .empty).Settled selves)
include h

theorem states_settled {k : ℕ} (hk : first.length ≤ k) :
    states (Endless.lasso first (rounds selves) hloop) k = first.foldl Nats.next .empty :=
  Endless.states_lasso (fun _ ha => h.next ha) hk

/-- A run that settles is fair. -/
theorem fair_of_settled : Fair (Endless.lasso first (rounds selves) hloop) := by
  have hmem (k : ℕ) (self : String)
      (hself : self ∈ (states (Endless.lasso first (rounds selves) hloop) k).instances) :
      self ∈ selves := by
    have hlater := mem_instances_of_le (le_max_left k first.length) hself
    rw [states_settled h (le_max_right _ _)] at hlater
    exact h.1 self hlater
  refine ⟨fun k self queue n hself hn hacked => ?_, fun k self queue hself => ?_,
    fun k self queue hself => ?_⟩
  · -- There is nothing that has not been acknowledged.
    have hlater : n < ((states _ (max k first.length)).stream queue).length :=
      Endless.stable (N := fun s : Nats => n < (s.stream queue).length)
        (fun s a hs => lt_of_lt_of_le hs (s.stream_next a queue)) (le_max_left k first.length) hn
    rw [states_settled h (le_max_right _ _)] at hlater
    have hall := (h.2 self (hmem k self hself) queue (mem_queueTypes queue)).2.2.2 n hlater
    have hnot := hacked first.length
    rw [states_settled h le_rfl] at hnot
    exact absurd hall hnot
  · exact (Endless.frequently_lasso (rounds_mem (hmem k self hself) queue).1).mono
      fun _ ha => ⟨none, ha⟩
  · exact Endless.frequently_lasso (rounds_mem (hmem k self hself) queue).2

theorem room_of_settled (queue : QueueType) (n : ℕ) : ∀ᶠ k in atTop,
    ¬Refuses (states (Endless.lasso first (rounds selves) hloop) k) queue n
      (Endless.lasso first (rounds selves) hloop k) := by
  refine eventually_atTop.mpr ⟨first.length, fun k hk hrefuses => ?_⟩
  rw [states_settled h hk] at hrefuses
  have hmem : Endless.lasso first (rounds selves) hloop k ∈ rounds selves := Endless.lasso_mem hk
  obtain ⟨self, hself, queue', ha | ha⟩ := mem_rounds hmem <;> rw [ha] at hrefuses
  · obtain ⟨rfl, -, ⟨m, hm, -⟩, -⟩ := hrefuses
    rw [(h.2 self hself queue' (mem_queueTypes queue')).2.1] at hm
    cases hm
  · exact hrefuses

end Settled

/-- An instance starts and is handed an item that has been queued before. -/
def consumed (self : String) : List Action :=
  [.launch self, .deliver self .workflow 0, .turn self .workflow none, .turn self .workflow none,
    .dequeueWork self .workflow]

/-- One instance, and one item. -/
def oneInstance : ℕ → Action :=
  Endless.lasso (.queueWork none "w" .workflow :: consumed "a") (rounds ["a"]) (by decide)

theorem exactlyOnce_oneInstance : Fair oneInstance ∧ ExactlyOnce oneInstance := by
  have hsettled : ((Action.queueWork none "w" .workflow :: consumed "a").foldl Nats.next
      .empty).Settled ["a"] := by decide
  have hfirst : ∀ k < 6, Orderly (states oneInstance k) (oneInstance k) := by decide
  have hfair : Fair oneInstance := fair_of_settled hsettled
  refine ⟨hfair, exactlyOnce_of_orderly hfair (fun k => ?_) ⟨2, by decide⟩
    (room_of_settled hsettled)⟩
  by_cases hk : k < 6
  · exact hfirst k hk
  · have hmem : oneInstance k ∈ rounds ["a"] := Endless.lasso_mem (Nat.le_of_not_lt hk)
    obtain ⟨self, -, queue, ha | ha⟩ := mem_rounds hmem <;> rw [ha] <;> trivial

/-- The same, and another instance that starts when the item has been consumed. -/
def laterInstance : ℕ → Action :=
  Endless.lasso (.queueWork none "w" .workflow :: (consumed "a" ++ consumed "b"))
    (rounds ["a", "b"]) (by decide)

/-- An instance that starts later is handed what has been consumed before: its consumer is delivered
the whole stream, too. -/
theorem delivered_to_each : ¬∀ α : ℕ → Action, Fair α → (∃ k, (states α k).instances ≠ []) →
    (∀ queue n, ∀ᶠ k in atTop, ¬Refuses (states α k) queue n (α k)) → ExactlyOnce α := by
  intro hclaim
  have hsettled : ((Action.queueWork none "w" .workflow :: (consumed "a" ++ consumed "b")).foldl
      Nats.next .empty).Settled ["a", "b"] := by decide
  have honce := hclaim laterInstance (fair_of_settled hsettled) ⟨2, by decide⟩
    (room_of_settled hsettled)
  have hid : ((states laterInstance 1).stream .workflow)[0]? = some "w" := by decide
  obtain ⟨j, hj⟩ := eventually_atTop.mp (honce 1 .workflow 0 "w" hid)
  have hreturned := hj (max j 11) (le_max_left _ _)
  have hstate : states laterInstance (max j 11) = _ := states_settled hsettled (le_max_right _ _)
  rw [hstate] at hreturned
  exact absurd hreturned (by decide)

end Wfe.NatsQueue
