import Wfe.Library.Before
import Wfe.Library.Table
import Wfe.Models.Definition

/-!
# The log store

Chunks of output are appended to the history of their step and sent to the channel of their
workflow, in two steps of one call. A client that follows a workflow is served by a task that reads
the history, shard after shard of the concurrent map it is kept in, sorts it by time and forwards
it; only then does it subscribe to the channel and forward what arrives there. The calls that write
chunks run concurrently with the task, and with each other.

## Main definitions

* `LogStore.push`, `LogStore.send`: the two steps of `write_chunk`
* `LogStore.collect`, `sortByTimestamp`: the parts of `get_history`
* `Follower`: where the task of `stream_logs` stands
* `Follow.step`, `Follow.run`: the interleavings of a task with the calls that write

## Main results

* `Follow.step_push`, `Follow.step_send`, `Follow.step_read`, `Follow.step_replay`,
  `Follow.step_subscribe`, `Follow.step_recv`: what each step does
* `Follow.step_frame`: the task leaves the store alone
-/

namespace Wfe.Server

/-! ## Chunks -/

inductive LogStreamType
  | stdout
  | stderr
deriving DecidableEq, Repr

structure LogChunk where
  workflowId : String
  definitionId : String
  stepId : Nat
  stepName : String
  stream : LogStreamType
  data : List UInt8
  timestamp : DateTime
deriving DecidableEq, Repr

/-- A call of `write_chunk`. The number tells calls with equal chunks apart; the code does not see
it. -/
structure Write where
  call : Nat
  chunk : LogChunk
deriving DecidableEq, Repr

/-- The entry of the history a chunk belongs to. -/
def LogChunk.key (chunk : LogChunk) : String × Nat := (chunk.workflowId, chunk.stepId)

/-! ## The store -/

/-- What the channel of each workflow has carried, and the history of each step. A channel that does
not exist has carried nothing. -/
structure LogStore where
  live : String → List Write
  history : List ((String × Nat) × List Write)

namespace LogStore

def empty : LogStore := ⟨fun _ => [], []⟩

/-- The chunks of a step so far. -/
def entry (key : String × Nat) (history : List ((String × Nat) × List Write)) : List Write :=
  ((Table.get Prod.fst history key).map Prod.snd).getD []

/-- The first step of `write_chunk`: appends to the entry of the key, which is made if need be. -/
def push (store : LogStore) (w : Write) : LogStore :=
  { store with
    history := Table.put Prod.fst (w.chunk.key, entry w.chunk.key store.history ++ [w])
      store.history }

/-- The second step of `write_chunk`. -/
def send (store : LogStore) (w : Write) : LogStore :=
  { store with
    live := Function.update store.live w.chunk.workflowId
      (store.live w.chunk.workflowId ++ [w]) }

/-- What `get_history` takes of the entries it comes across. -/
def collect (workflowId : String) (stepId : Option Nat)
    (entries : List ((String × Nat) × List Write)) : List Write :=
  entries.flatMap fun entry =>
    if entry.1.1 = workflowId ∧ (stepId = none ∨ stepId = some entry.1.2) then entry.2 else []

end LogStore

/-- `sort_by_key`, which is stable. -/
def sortByTimestamp (result : List Write) : List Write :=
  result.mergeSort fun a b => a.chunk.timestamp ≤ b.chunk.timestamp

/-- The capacity of a channel: a receiver that is further behind has lost messages. -/
def broadcastCapacity : Nat := 4096

/-- The shards of the map: every key is in one of them. -/
structure Sharding where
  shards : Nat
  shardOf : String × Nat → Nat
  shardOf_lt : ∀ key, shardOf key < shards

/-! ## The task -/

/-- The request, with the id of the instance it is about. -/
structure StreamLogsRequest where
  workflowId : String
  stepName : String
  follow : Bool
deriving DecidableEq, Repr

/-- The filter for the name of a step, which an empty name switches off. -/
def StreamLogsRequest.admits (request : StreamLogsRequest) (w : Write) : Bool :=
  request.stepName = "" || w.chunk.stepName = request.stepName

/-- Where the task stands. -/
inductive Follower
  /-- In `get_history`, before a shard. -/
  | reading (shard : Nat) (result : List Write)
  /-- With chunks of the history to forward. -/
  | replaying (history : List Write)
  /-- Subscribed, before a message of the channel. -/
  | following (position : Nat)
  | ended
deriving DecidableEq, Repr

/-- The calls and the task, in the middle of what they are doing. -/
structure Follow where
  store : LogStore
  /-- The calls so far. -/
  calls : Nat
  /-- The calls between their two steps. -/
  pending : List Write
  follower : Follower
  /-- What has been handed to the client. -/
  delivered : List Write

/-- The atomic steps. A shard is read under its lock, its entries in the order the map has them. -/
inductive Event
  | push (w : Write)
  | send (w : Write)
  | readShard (shard : Nat) (entries : List ((String × Nat) × List Write))
  | replay
  | subscribe
  | recv
deriving DecidableEq, Repr

/-- The call that takes its first step. -/
def Event.pushed : Event → Option Write
  | .push w => some w
  | _ => none

/-- The call that takes its second step. -/
def Event.sent : Event → Option Write
  | .send w => some w
  | _ => none

namespace Follow

def start : Follow := ⟨.empty, 0, [], .reading 0 [], []⟩

/-- Hands a chunk to the client unless it is filtered out. -/
def forward (request : StreamLogsRequest) (w : Write) (σ : Follow) : Follow :=
  if request.admits w then { σ with delivered := σ.delivered ++ [w] } else σ

/-- The messages the receiver has not seen. -/
def behind (request : StreamLogsRequest) (σ : Follow) : Nat :=
  match σ.follower with
  | .following position => (σ.store.live request.workflowId).length - position
  | _ => 0

/-- The loop over the history, before its next round. -/
def stepReplay (request : StreamLogsRequest) (σ : Follow) : Option Follow :=
  match σ.follower with
  | .replaying (w :: rest) => some { forward request w σ with follower := .replaying rest }
  | .replaying [] => if request.follow then none else some { σ with follower := .ended }
  | _ => none

/-- The end of the loop in follow mode. -/
def stepSubscribe (request : StreamLogsRequest) (σ : Follow) : Option Follow :=
  match σ.follower with
  | .replaying [] =>
    if request.follow then
      some { σ with follower := .following (σ.store.live request.workflowId).length }
    else none
  | _ => none

/-- One round of the loop over the channel. -/
def stepRecv (request : StreamLogsRequest) (σ : Follow) : Option Follow :=
  match σ.follower with
  | .following position =>
    let sent := σ.store.live request.workflowId
    if broadcastCapacity < sent.length - position then
      -- `Lagged`: the receiver goes on with the oldest message that is left.
      some { σ with follower := .following (sent.length - broadcastCapacity) }
    else
      sent[position]?.map fun w =>
        { forward request w σ with follower := .following (position + 1) }
  | _ => none

/-- One shard of `get_history`, and the sort after the last. -/
def stepRead (H : Sharding) (request : StreamLogsRequest) (shard : Nat)
    (entries : List ((String × Nat) × List Write)) (σ : Follow) : Option Follow :=
  match σ.follower with
  | .reading next result =>
    if shard = next ∧ entries.isPerm (σ.store.history.filter fun e => H.shardOf e.1 = shard) then
      let result := result ++ LogStore.collect request.workflowId none entries
      if shard + 1 < H.shards then some { σ with follower := .reading (shard + 1) result }
      else some { σ with follower := .replaying (sortByTimestamp result) }
    else none
  | _ => none

def step (H : Sharding) (request : StreamLogsRequest) (σ : Follow) : Event → Option Follow
  | .push w =>
    if w.call = σ.calls then
      some { σ with
        store := σ.store.push w
        calls := σ.calls + 1
        pending := w :: σ.pending }
    else none
  | .send w =>
    if w ∈ σ.pending then
      some { σ with
        store := σ.store.send w
        pending := σ.pending.erase w }
    else none
  | .readShard shard entries => stepRead H request shard entries σ
  | .replay => stepReplay request σ
  | .subscribe => stepSubscribe request σ
  | .recv => stepRecv request σ

/-- The state after these events, if they can happen in this order. -/
def run (H : Sharding) (request : StreamLogsRequest) (es : List Event) : Option Follow :=
  es.foldlM (step H request) start

theorem run_concat (H : Sharding) (request : StreamLogsRequest) (es : List Event) (e : Event) :
    run H request (es ++ [e]) = (run H request es).bind fun σ => step H request σ e := by
  simp [run, List.foldlM_append]

/-- Every call has returned, and the client has been handed everything that was sent. -/
def Settled (request : StreamLogsRequest) (σ : Follow) : Prop :=
  σ.pending = [] ∧
    σ.follower = .following (σ.store.live request.workflowId).length

/-! ## What a step does -/

section Steps

variable {H : Sharding} {request : StreamLogsRequest} {σ σ' : Follow} {w : Write}

/-- A call begins. -/
theorem step_push (h : step H request σ (.push w) = some σ') :
    w.call = σ.calls ∧ σ' = { σ with
      store := σ.store.push w
      calls := σ.calls + 1
      pending := w :: σ.pending } := by
  simp only [step] at h
  split_ifs at h with hw
  exact ⟨hw, (Option.some_inj.1 h).symm⟩

/-- A call returns. -/
theorem step_send (h : step H request σ (.send w) = some σ') :
    w ∈ σ.pending ∧ σ' = { σ with
      store := σ.store.send w
      pending := σ.pending.erase w } := by
  simp only [step] at h
  split_ifs at h with hw
  exact ⟨hw, (Option.some_inj.1 h).symm⟩

theorem forward_store : (forward request w σ).store = σ.store := by
  unfold forward
  split_ifs <;> rfl

theorem forward_calls : (forward request w σ).calls = σ.calls := by
  unfold forward
  split_ifs <;> rfl

theorem forward_pending : (forward request w σ).pending = σ.pending := by
  unfold forward
  split_ifs <;> rfl

theorem forward_delivered :
    (forward request w σ).delivered = σ.delivered ++ [w].filter request.admits := by
  unfold forward
  split_ifs with hw <;> simp [hw]

/-- One shard is read. -/
theorem step_read {shard : Nat} {entries : List ((String × Nat) × List Write)}
    (h : step H request σ (.readShard shard entries) = some σ') :
    ∃ result, σ.follower = .reading shard result ∧
      entries.Perm (σ.store.history.filter fun e => H.shardOf e.1 = shard) ∧
      σ' = { σ with
        follower :=
          if shard + 1 < H.shards then
            .reading (shard + 1) (result ++ LogStore.collect request.workflowId none entries)
          else
            .replaying (sortByTimestamp
              (result ++ LogStore.collect request.workflowId none entries)) } := by
  simp only [step, stepRead] at h
  split at h
  · next shard' result hσ =>
    split_ifs at h with hread hlast
    -- There is another shard to read, or this was the last one.
    · obtain ⟨rfl, hperm⟩ := hread
      refine ⟨result, hσ, List.isPerm_iff.1 hperm, ?_⟩
      rw [if_pos hlast]
      exact (Option.some_inj.1 h).symm
    · obtain ⟨rfl, hperm⟩ := hread
      refine ⟨result, hσ, List.isPerm_iff.1 hperm, ?_⟩
      rw [if_neg hlast]
      exact (Option.some_inj.1 h).symm
  · cases h

/-- One chunk of the history is forwarded, or there is none left and nothing to follow. -/
theorem step_replay (h : step H request σ .replay = some σ') :
    (∃ v rest, σ.follower = .replaying (v :: rest) ∧
      σ' = { forward request v σ with follower := .replaying rest }) ∨
    (σ.follower = .replaying [] ∧ σ' = { σ with follower := .ended }) := by
  simp only [step, stepReplay] at h
  split at h
  · next v rest hσ => exact .inl ⟨v, rest, hσ, (Option.some_inj.1 h).symm⟩
  · next hσ =>
    split_ifs at h
    exact .inr ⟨hσ, (Option.some_inj.1 h).symm⟩
  · cases h

/-- The task subscribes. -/
theorem step_subscribe (h : step H request σ .subscribe = some σ') :
    σ.follower = .replaying [] ∧
      σ' = { σ with follower := .following (σ.store.live request.workflowId).length } := by
  simp only [step, stepSubscribe] at h
  split at h
  · next hσ =>
    split_ifs at h
    exact ⟨hσ, (Option.some_inj.1 h).symm⟩
  · cases h

/-- The receiver skips what it has lost, or forwards the next message. -/
theorem step_recv (h : step H request σ .recv = some σ') :
    ∃ position, σ.follower = .following position ∧
      ((broadcastCapacity < σ.behind request ∧
          σ' = { σ with
            follower := .following
              ((σ.store.live request.workflowId).length - broadcastCapacity) }) ∨
        ∃ v, (σ.store.live request.workflowId)[position]? = some v ∧
          σ' = { forward request v σ with follower := .following (position + 1) }) := by
  simp only [step, stepRecv] at h
  split at h
  · next position hσ =>
    refine ⟨position, hσ, ?_⟩
    split_ifs at h with hlag
    · refine .inl ⟨?_, (Option.some_inj.1 h).symm⟩
      rwa [behind, hσ]
    · obtain ⟨v, hv, rfl⟩ := Option.map_eq_some_iff.1 h
      exact .inr ⟨v, hv, rfl⟩
  · cases h

/-- A step of the task leaves the calls and the store alone. -/
theorem step_frame {e : Event} (h : step H request σ e = some σ') (hpush : e.pushed = none)
    (hsend : e.sent = none) :
    σ'.store = σ.store ∧ σ'.calls = σ.calls ∧ σ'.pending = σ.pending := by
  cases e with
  | push w => cases hpush
  | send w => cases hsend
  | readShard shard entries =>
    obtain ⟨result, -, -, rfl⟩ := step_read h
    exact ⟨rfl, rfl, rfl⟩
  | replay =>
    rcases step_replay h with ⟨v, rest, -, rfl⟩ | ⟨-, rfl⟩
    · exact ⟨forward_store, forward_calls, forward_pending⟩
    · exact ⟨rfl, rfl, rfl⟩
  | subscribe =>
    obtain ⟨-, rfl⟩ := step_subscribe h
    exact ⟨rfl, rfl, rfl⟩
  | recv =>
    obtain ⟨position, -, ⟨-, rfl⟩ | ⟨v, -, rfl⟩⟩ := step_recv h
    · exact ⟨rfl, rfl, rfl⟩
    · exact ⟨forward_store, forward_calls, forward_pending⟩

end Steps

end Follow

end Wfe.Server
