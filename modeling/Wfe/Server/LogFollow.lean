import Mathlib.Data.List.Induction
import Wfe.Server.LogStore

/-!
# Following a log

What a client that follows a workflow gets, against what was written. The task reads the history
before it subscribes, so a chunk is handed over once exactly if it is stored before its shard of the
history is read and sent before the subscription, or neither: a call that has only one of its two
steps in time has its chunk repeated or lost. The chunks of a step that come from the history are in
the order of their times.

## Main definitions

* `Followed`: the client has been handed what was written, once and in order
* `Seamless`: the interleavings in which no call straddles the two feeds
* `Writes`, `Served`: what the calls and the task have done, as invariants

## Main results

* `Writes.step`, `Served.step`: each step keeps them
* `followed_iff_seamless`: in which interleavings following a log loses and repeats nothing
-/

namespace Wfe.Server

namespace Follow

/-! ## Interleavings -/

/-- The calls that have taken their first step. -/
def written (es : List Event) : List Write := es.filterMap Event.pushed

/-- The calls that have taken their second step. -/
def sent (es : List Event) : List Write := es.filterMap Event.sent

/-- The chunks that the client asked for. -/
def wanted (request : StreamLogsRequest) (w : Write) : Bool :=
  w.chunk.workflowId = request.workflowId && request.admits w

/-- The chunk is stored before its shard of the history is read. -/
def StoredInTime (H : Sharding) (es : List Event) (w : Write) : Prop :=
  ∃ entries, Before es (.push w) (.readShard (H.shardOf w.chunk.key) entries)

/-- The chunk is sent before the task subscribes. -/
def SentInTime (es : List Event) (w : Write) : Prop := Before es (.send w) .subscribe

/-- One chunk is written before another: it is stored before it, and sent before it. Calls that
overlap need not be in an order. -/
def WrittenBefore (es : List Event) (a b : Write) : Prop :=
  Before es (.push a) (.push b) ∧ Before es (.send a) (.send b)

/-- What was written and asked for has been delivered, every chunk once and those of a step in the
order they were written in. -/
def Followed (request : StreamLogsRequest) (es : List Event) (delivered : List Write) : Prop :=
  delivered.Perm ((written es).filter (wanted request)) ∧
    ∀ a b, wanted request a → wanted request b → a.chunk.stepId = b.chunk.stepId →
      WrittenBefore es a b → Before delivered a b

/-- No call is stored in time and sent too late, or the other way round, and the chunks of a step
that are replayed carry times in the order they were written in. -/
def Seamless (H : Sharding) (request : StreamLogsRequest) (es : List Event) : Prop :=
  (∀ w ∈ written es, wanted request w → (StoredInTime H es w ↔ SentInTime es w)) ∧
    ∀ a b, wanted request a → wanted request b → a.chunk.stepId = b.chunk.stepId →
      WrittenBefore es a b → StoredInTime H es b → a.chunk.timestamp ≤ b.chunk.timestamp

/-- The receiver has lost nothing whenever it looks for a message. -/
def NeverLags (H : Sharding) (request : StreamLogsRequest) (es : List Event) : Prop :=
  ∀ es₁ es₂ σ, es = es₁ ++ .recv :: es₂ → run H request es₁ = some σ →
    σ.behind request ≤ broadcastCapacity

section Events

variable {es : List Event} {e : Event} {w a b : Write}

theorem mem_written : w ∈ written es ↔ .push w ∈ es := by
  rw [written, List.mem_filterMap]
  constructor
  · rintro ⟨e, he, hw⟩
    cases e <;> cases hw
    exact he
  · exact fun h => ⟨_, h, rfl⟩

theorem mem_sent : w ∈ sent es ↔ .send w ∈ es := by
  rw [sent, List.mem_filterMap]
  constructor
  · rintro ⟨e, he, hw⟩
    cases e <;> cases hw
    exact he
  · exact fun h => ⟨_, h, rfl⟩

theorem before_written : Before (written es) a b ↔ Before es (.push a) (.push b) := by
  rw [written, before_filterMap]
  constructor
  · rintro ⟨x, y, hx, hy, h⟩
    cases x <;> cases hx
    cases y <;> cases hy
    exact h
  · exact fun h => ⟨_, _, rfl, rfl, h⟩

theorem before_sent : Before (sent es) a b ↔ Before es (.send a) (.send b) := by
  rw [sent, before_filterMap]
  constructor
  · rintro ⟨x, y, hx, hy, h⟩
    cases x <;> cases hx
    cases y <;> cases hy
    exact h
  · exact fun h => ⟨_, _, rfl, rfl, h⟩

@[simp] theorem written_concat : written (es ++ [e]) = written es ++ e.pushed.toList := by
  rw [written, List.filterMap_append]
  cases e <;> rfl

@[simp] theorem sent_concat : sent (es ++ [e]) = sent es ++ e.sent.toList := by
  rw [sent, List.filterMap_append]
  cases e <;> rfl

end Events

/-! ## The calls -/

/-- What the calls have done: the history has the chunks of each step in the order they were stored,
and the channels carry what was sent. -/
structure Writes (es : List Event) (σ : Follow) : Prop where
  lt : ∀ w ∈ written es, w.call < σ.calls
  nodup : (written es).Nodup
  pending : (sent es ++ σ.pending).Perm (written es)
  keys : (σ.store.history.map Prod.fst).Nodup
  entry : ∀ key, LogStore.entry key σ.store.history =
    (written es).filter fun w => w.chunk.key = key
  live : ∀ workflowId, σ.store.live workflowId =
    (sent es).filter fun w => w.chunk.workflowId = workflowId

theorem writes_start : Writes [] start :=
  ⟨nofun, .nil, .nil, .nil, fun _ => rfl, fun _ => rfl⟩

section Calls

variable {H : Sharding} {request : StreamLogsRequest} {es : List Event} {σ σ' : Follow} {w : Write}

theorem Writes.push (hσ : Writes es σ) (h : step H request σ (.push w) = some σ') :
    Writes (es ++ [.push w]) σ' := by
  obtain ⟨hw, rfl⟩ := step_push h
  -- The number of the call is new.
  have hnew : w ∉ written es := fun hmem => absurd (hσ.lt w hmem) (by omega)
  have hwritten : written (es ++ [.push w]) = written es ++ [w] := written_concat
  have hsent : sent (es ++ [.push w]) = sent es := by simp [Event.sent]
  refine ⟨?_, ?_, ?_, Table.nodup_put hσ.keys, fun key => ?_, ?_⟩
  · rw [hwritten]
    intro v hv
    rcases List.mem_append.1 hv with hv | hv
    · exact Nat.lt_succ_of_lt (hσ.lt v hv)
    · rw [List.mem_singleton.1 hv, hw]
      exact Nat.lt_succ_self _
  · rw [hwritten]
    refine List.nodup_append.2 ⟨hσ.nodup, List.pairwise_singleton _ w, fun v hv u hu => ?_⟩
    rw [List.mem_singleton.1 hu]
    rintro rfl
    exact hnew hv
  · rw [hwritten, hsent]
    exact List.perm_middle.trans ((hσ.pending.cons w).trans (List.perm_append_singleton w _).symm)
  · rw [hwritten, List.filter_append, ← hσ.entry key]
    unfold LogStore.entry
    simp only [LogStore.push]
    rw [Table.get_put]
    by_cases hkey : w.chunk.key = key
    · subst hkey
      simp [LogStore.entry]
    · simp [hkey]
  · rw [hsent]
    exact hσ.live

theorem Writes.send (hσ : Writes es σ) (h : step H request σ (.send w) = some σ') :
    Writes (es ++ [.send w]) σ' := by
  obtain ⟨hw, rfl⟩ := step_send h
  have hwritten : written (es ++ [.send w]) = written es := by simp [Event.pushed]
  have hsent : sent (es ++ [.send w]) = sent es ++ [w] := sent_concat
  refine ⟨?_, ?_, ?_, hσ.keys, ?_, fun workflowId => ?_⟩
  · rw [hwritten]
    exact hσ.lt
  · rw [hwritten]
    exact hσ.nodup
  · rw [hwritten, hsent, List.append_assoc]
    exact ((List.perm_cons_erase hw).symm.append_left (sent es)).trans hσ.pending
  · rw [hwritten]
    exact hσ.entry
  · rw [hsent, List.filter_append, ← hσ.live workflowId]
    simp only [LogStore.send]
    by_cases hid : workflowId = w.chunk.workflowId
    · subst hid
      simp
    · rw [Function.update_of_ne hid]
      simp [Ne.symm hid]

/-- Each step keeps what the calls have done. -/
theorem Writes.step {e : Event} (hσ : Writes es σ) (h : step H request σ e = some σ') :
    Writes (es ++ [e]) σ' := by
  -- The steps of the follower touch neither the store nor the calls that write to it.
  have hframe (hpush : e.pushed = none) (hsend : e.sent = none) : Writes (es ++ [e]) σ' := by
    obtain ⟨hstore, hcalls, hpending⟩ := step_frame h hpush hsend
    have hwritten : written (es ++ [e]) = written es := by simp [hpush]
    have hsent : sent (es ++ [e]) = sent es := by simp [hsend]
    refine ⟨?_, ?_, ?_, ?_, fun key => ?_, fun workflowId => ?_⟩
    · rw [hwritten, hcalls]
      exact hσ.lt
    · rw [hwritten]
      exact hσ.nodup
    · rw [hwritten, hsent, hpending]
      exact hσ.pending
    · rw [hstore]
      exact hσ.keys
    · rw [hwritten, hstore]
      exact hσ.entry key
    · rw [hsent, hstore]
      exact hσ.live workflowId
  cases e with
  | push w => exact hσ.push h
  | send w => exact hσ.send h
  | readShard | replay | subscribe | recv => exact hframe rfl rfl

end Calls

/-! ## The history that is read -/

section Read

variable {H : Sharding} {request : StreamLogsRequest} {es : List Event} {e : Event}
  {σ σ' : Follow} {w a b : Write} {R : List Write}

/-- What is in the history under some key. -/
theorem Writes.mem_history (hσ : Writes es σ) {key : String × Nat} {ws : List Write}
    (h : (key, ws) ∈ σ.store.history) :
    ws = (written es).filter fun w => w.chunk.key = key := by
  rw [← hσ.entry key, LogStore.entry, Table.get_of_mem hσ.keys h]
  rfl

/-- Every chunk has an entry of the history. -/
theorem Writes.exists_history (hσ : Writes es σ) (h : w ∈ written es) :
    (w.chunk.key, (written es).filter fun v => v.chunk.key = w.chunk.key) ∈ σ.store.history := by
  have hmem : w ∈ LogStore.entry w.chunk.key σ.store.history := by
    rw [hσ.entry]
    exact List.mem_filter.2 ⟨h, by simp⟩
  rw [← hσ.entry]
  unfold LogStore.entry at hmem ⊢
  cases hget : Table.get Prod.fst σ.store.history w.chunk.key with
  | none => simp [hget] at hmem
  | some entry =>
    have hkey : entry.1 = w.chunk.key := Table.key_of_get hget
    simp only [Option.map_some, Option.getD_some]
    rw [← hkey]
    exact Table.mem_of_get hget

/-- Without a step, the entries of the workflow are taken. -/
theorem collect_none (entries : List ((String × Nat) × List Write)) :
    LogStore.collect request.workflowId none entries = entries.flatMap fun entry =>
      if entry.1.1 = request.workflowId then entry.2 else [] := by
  simp only [LogStore.collect, true_or, and_true]

section Shard

variable {shard : Nat} {entries : List ((String × Nat) × List Write)}
  (hσ : Writes es σ)
  (hentries : entries.Perm (σ.store.history.filter fun e => H.shardOf e.1 = shard))

include hσ hentries

/-- What is read of a shard. -/
theorem mem_collect : w ∈ LogStore.collect request.workflowId none entries ↔
    w ∈ written es ∧ w.chunk.workflowId = request.workflowId ∧
      H.shardOf w.chunk.key = shard := by
  rw [collect_none, List.mem_flatMap]
  constructor
  · rintro ⟨⟨key, ws⟩, hentry, hw⟩
    obtain ⟨hmem, hshard⟩ := List.mem_filter.1 (hentries.mem_iff.1 hentry)
    split_ifs at hw with hid
    · rw [hσ.mem_history hmem, List.mem_filter] at hw
      have hkey : w.chunk.key = key := of_decide_eq_true hw.2
      refine ⟨hw.1, ?_, ?_⟩
      · rw [← hid, ← hkey]
        rfl
      · rw [hkey]
        exact of_decide_eq_true hshard
    · cases hw
  · rintro ⟨hw, hid, hshard⟩
    refine ⟨_, hentries.mem_iff.2 (List.mem_filter.2 ⟨hσ.exists_history hw, by simpa⟩), ?_⟩
    rw [if_pos (show w.chunk.key.1 = request.workflowId from hid)]
    exact List.mem_filter.2 ⟨hw, by simp⟩

theorem nodup_collect : (LogStore.collect request.workflowId none entries).Nodup := by
  -- Entries have different keys, and a chunk is in the entry of its key.
  have hkeys : (entries.map Prod.fst).Nodup :=
    (hentries.map Prod.fst).nodup_iff.2 (hσ.keys.sublist (List.filter_sublist.map _))
  have hfilter {entry : (String × Nat) × List Write} (hmem : entry ∈ entries) :
      entry.2 = (written es).filter fun w => w.chunk.key = entry.1 :=
    hσ.mem_history (List.mem_filter.1 (hentries.mem_iff.1 hmem)).1
  rw [collect_none, List.nodup_flatMap]
  constructor
  · intro entry hmem
    split_ifs
    · rw [hfilter hmem]
      exact hσ.nodup.filter _
    · exact .nil
  · refine (List.pairwise_map.1 hkeys).imp_of_mem fun {x y} hx hy hne => ?_
    intro w hwx hwy
    simp only [List.mem_ite_nil_right] at hwx hwy
    rw [hfilter hx, List.mem_filter] at hwx
    rw [hfilter hy, List.mem_filter] at hwy
    exact hne ((of_decide_eq_true hwx.2.2).symm.trans (of_decide_eq_true hwy.2.2))

/-- The chunks of a step are read in the order they were stored. -/
theorem before_collect (hkey : a.chunk.key = b.chunk.key)
    (hb : b ∈ LogStore.collect request.workflowId none entries)
    (h : Before es (.push a) (.push b)) :
    Before (LogStore.collect request.workflowId none entries) a b := by
  obtain ⟨hmem, hid, hshard⟩ := (mem_collect hσ hentries).1 hb
  have hentry := hentries.mem_iff.2 (List.mem_filter.2 ⟨hσ.exists_history hmem, by simpa⟩)
  obtain ⟨l₁, l₂, hsplit⟩ := List.append_of_mem hentry
  rw [collect_none, hsplit, List.flatMap_append, List.flatMap_cons, before_append, before_append]
  refine .inr (.inr (.inl ?_))
  rw [if_pos (show b.chunk.key.1 = request.workflowId from hid), before_filter, before_written]
  exact ⟨h, by simp [hkey], by simp⟩

end Shard

/-- The chunks of the history that have been read. -/
structure Snapshot (H : Sharding) (request : StreamLogsRequest) (es : List Event)
    (R : List Write) : Prop where
  nodup : R.Nodup
  mem_iff : ∀ w, w ∈ R ↔ w.chunk.workflowId = request.workflowId ∧ StoredInTime H es w
  before : ∀ a b, a.chunk.key = b.chunk.key → b ∈ R → Before es (.push a) (.push b) → Before R a b

theorem StoredInTime.mem_written (h : StoredInTime H es w) : w ∈ written es :=
  Follow.mem_written.2 h.choose_spec.mem_left

/-- Nothing is stored in time by a step that reads no shard. -/
theorem storedInTime_concat (he : ∀ shard entries, e ≠ .readShard shard entries) :
    StoredInTime H (es ++ [e]) w ↔ StoredInTime H es w := by
  simp only [StoredInTime, before_concat]
  refine exists_congr fun entries => or_iff_left fun h => ?_
  exact he _ _ h.2.symm

theorem storedInTime_read {shard : Nat} {entries : List ((String × Nat) × List Write)} :
    StoredInTime H (es ++ [.readShard shard entries]) w ↔
      StoredInTime H es w ∨ (w ∈ written es ∧ H.shardOf w.chunk.key = shard) := by
  simp only [StoredInTime, before_concat, Event.readShard.injEq, Follow.mem_written]
  constructor
  · rintro ⟨entries', h | ⟨hmem, hshard, -⟩⟩
    · exact .inl ⟨entries', h⟩
    · exact .inr ⟨hmem, hshard⟩
  · rintro (⟨entries', h⟩ | ⟨hmem, hshard⟩)
    · exact ⟨entries', .inl h⟩
    · exact ⟨entries, .inr ⟨hmem, hshard, rfl⟩⟩

/-- A later step that reads nothing leaves what has been read. -/
theorem Snapshot.concat (hR : Snapshot H request es R) (hσ : Writes es σ)
    (h : step H request σ e = some σ') (he : ∀ shard entries, e ≠ .readShard shard entries) :
    Snapshot H request (es ++ [e]) R := by
  refine ⟨hR.nodup, fun w => ?_, fun a b hkey hb hab => ?_⟩
  · rw [storedInTime_concat he]
    exact hR.mem_iff w
  · rcases before_concat.1 hab with hab | ⟨-, rfl⟩
    · exact hR.before a b hkey hb hab
    · -- What has been read is not stored again.
      have hlt := hσ.lt b ((hR.mem_iff b).1 hb).2.mem_written
      have hcall := (step_push h).1
      omega

/-- A shard is read. -/
theorem Snapshot.read (hR : Snapshot H request es R) (hσ : Writes es σ) {shard : Nat}
    {entries : List ((String × Nat) × List Write)}
    (hentries : entries.Perm (σ.store.history.filter fun e => H.shardOf e.1 = shard))
    (hnew : ∀ entries, .readShard shard entries ∉ es) :
    Snapshot H request (es ++ [.readShard shard entries])
      (R ++ LogStore.collect request.workflowId none entries) := by
  refine ⟨?_, fun w => ?_, fun a b hkey hb hab => ?_⟩
  · -- A chunk is in one shard only, and this one has not been read before.
    refine List.nodup_append.2 ⟨hR.nodup, nodup_collect hσ hentries, fun x hx y hy => ?_⟩
    rintro rfl
    obtain ⟨-, entries', hread⟩ := (hR.mem_iff x).1 hx
    obtain ⟨-, -, hshard⟩ := (mem_collect hσ hentries).1 hy
    rw [hshard] at hread
    exact hnew entries' hread.mem_right
  · rw [List.mem_append, hR.mem_iff, mem_collect hσ hentries, storedInTime_read]
    tauto
  · have hbefore : Before es (.push a) (.push b) := by
      rcases before_concat.1 hab with hab | ⟨-, hb⟩
      · exact hab
      · cases hb
    rw [before_append]
    rcases List.mem_append.1 hb with hb | hb
    · exact .inl (hR.before a b hkey hb hbefore)
    · exact .inr (.inr (before_collect hσ hentries hkey hb hbefore))

end Read

/-! ## The task -/

/-- What the task has handed to the client: nothing while it reads, then the sorted history as far
as it has come, then as much of what was sent after it subscribed. -/
def Served (H : Sharding) (request : StreamLogsRequest) (es : List Event) (σ : Follow) : Prop :=
  match σ.follower with
  | .reading next R =>
    Snapshot H request es R ∧ (∀ shard entries, .readShard shard entries ∈ es → shard < next) ∧
      .subscribe ∉ es ∧ σ.delivered = []
  | .replaying rest =>
    ∃ R done, Snapshot H request es R ∧ sortByTimestamp R = done ++ rest ∧
      .subscribe ∉ es ∧ σ.delivered = done.filter request.admits
  | .following position =>
    ∃ R early late, Snapshot H request es R ∧
      σ.store.live request.workflowId = early ++ late ∧
      (∀ w, w.chunk.workflowId = request.workflowId → (w ∈ early ↔ SentInTime es w)) ∧
      early.length ≤ position ∧ position ≤ (early ++ late).length ∧
      σ.delivered = (sortByTimestamp R).filter request.admits ++
        (late.take (position - early.length)).filter request.admits
  | .ended => True

section Task

variable {H : Sharding} {request : StreamLogsRequest} {es : List Event} {e : Event}
  {σ σ' : Follow}

theorem served_start : Served H request [] start :=
  ⟨⟨.nil, fun _ => ⟨nofun, fun h => absurd h.2.choose_spec not_before_nil⟩, nofun⟩, nofun, nofun,
    rfl⟩

/-- Nothing is sent in time by a step other than the subscription. -/
theorem sentInTime_concat {w : Write} (he : e ≠ .subscribe) :
    SentInTime (es ++ [e]) w ↔ SentInTime es w := by
  rw [SentInTime, SentInTime, before_concat]
  exact or_iff_left fun h => he h.2.symm

/-- A step of a call leaves the task where it is; what is sent comes last. -/
theorem Served.frame (hserved : Served H request es σ) (hσ : Writes es σ)
    (h : step H request σ e = some σ') (hread : ∀ shard entries, e ≠ .readShard shard entries)
    (hsubscribe : e ≠ .subscribe) (hfollower : σ'.follower = σ.follower)
    (hdelivered : σ'.delivered = σ.delivered)
    (hlive : ∃ new, σ'.store.live request.workflowId = σ.store.live request.workflowId ++ new) :
    Served H request (es ++ [e]) σ' := by
  have hnotMem : .subscribe ∉ es → .subscribe ∉ es ++ [e] := by
    intro hes hmem
    rcases List.mem_append.1 hmem with hmem | hmem
    · exact hes hmem
    · exact hsubscribe (List.mem_singleton.1 hmem).symm
  unfold Served at hserved ⊢
  rw [hfollower, hdelivered]
  cases hcase : σ.follower with
  | reading next R =>
    simp only [hcase] at hserved
    obtain ⟨hR, hshards, hes, hnone⟩ := hserved
    refine ⟨hR.concat hσ h hread, fun shard entries hmem => ?_, hnotMem hes, hnone⟩
    rcases List.mem_append.1 hmem with hmem | hmem
    · exact hshards shard entries hmem
    · exact absurd (List.mem_singleton.1 hmem).symm (hread shard entries)
  | replaying rest =>
    simp only [hcase] at hserved
    obtain ⟨R, done, hR, hsorted, hes, hdone⟩ := hserved
    exact ⟨R, done, hR.concat hσ h hread, hsorted, hnotMem hes, hdone⟩
  | following position =>
    simp only [hcase] at hserved
    obtain ⟨R, early, late, hR, hsplit, hearly, hfrom, hto, hdone⟩ := hserved
    obtain ⟨new, hnew⟩ := hlive
    -- What is sent after the subscription comes too late for the snapshot.
    refine ⟨R, early, late ++ new, hR.concat hσ h hread, ?_, fun w hw => ?_, hfrom, ?_, ?_⟩
    · rw [hnew, hsplit, List.append_assoc]
    · rw [sentInTime_concat hsubscribe]
      exact hearly w hw
    · simp only [List.length_append] at hto ⊢
      omega
    · rw [List.length_append] at hto
      rw [List.take_append_of_le_length (by omega)]
      exact hdone
  | ended => trivial

theorem Served.read (hserved : Served H request es σ) (hσ : Writes es σ) {shard : Nat}
    {entries : List ((String × Nat) × List Write)}
    (h : step H request σ (.readShard shard entries) = some σ') :
    Served H request (es ++ [.readShard shard entries]) σ' := by
  obtain ⟨R, hfollower, hentries, rfl⟩ := step_read h
  simp only [Served, hfollower] at hserved
  obtain ⟨hR, hshards, hes, hnone⟩ := hserved
  have hsnapshot := hR.read hσ hentries fun entries' hmem =>
    absurd (hshards shard entries' hmem) (Nat.lt_irrefl shard)
  have hsubscribe : .subscribe ∉ es ++ [.readShard shard entries] := by simpa using hes
  unfold Served
  by_cases hlast : shard + 1 < H.shards
  · simp only [hlast, if_true]
    refine ⟨hsnapshot, fun shard' entries' hmem => ?_, hsubscribe, hnone⟩
    rcases List.mem_append.1 hmem with hmem | hmem
    · exact Nat.lt_succ_of_lt (hshards shard' entries' hmem)
    · cases List.mem_singleton.1 hmem
      exact Nat.lt_succ_self _
  · simp only [hlast, if_false]
    exact ⟨_, [], hsnapshot, rfl, hsubscribe, hnone⟩

theorem Served.replay (hserved : Served H request es σ) (hσ : Writes es σ)
    (h : step H request σ .replay = some σ') : Served H request (es ++ [.replay]) σ' := by
  rcases step_replay h with ⟨v, rest, hfollower, rfl⟩ | ⟨hfollower, rfl⟩
  · simp only [Served, hfollower] at hserved ⊢
    obtain ⟨R, done, hR, hsorted, hes, hdone⟩ := hserved
    refine ⟨R, done ++ [v], hR.concat hσ h nofun, ?_, by simpa using hes, ?_⟩
    · rw [hsorted, List.append_assoc]
      rfl
    · rw [forward_delivered, hdone, List.filter_append]
  · trivial

theorem Served.subscribe (hserved : Served H request es σ) (hσ : Writes es σ)
    (h : step H request σ .subscribe = some σ') : Served H request (es ++ [.subscribe]) σ' := by
  obtain ⟨hfollower, rfl⟩ := step_subscribe h
  simp only [Served, hfollower] at hserved ⊢
  obtain ⟨R, done, hR, hsorted, hes, hdone⟩ := hserved
  refine ⟨R, σ.store.live request.workflowId, [], hR.concat hσ h nofun, by simp, fun w hw => ?_,
    Nat.le_refl _, by simp, ?_⟩
  · -- What the channel has carried so far was sent in time.
    rw [SentInTime, before_concat, hσ.live, List.mem_filter, mem_sent]
    have hnot : ¬Before es (.send w) .subscribe := fun h => hes h.mem_right
    simp [hnot, hw]
  · rw [hsorted, hdone]
    simp

theorem Served.recv (hserved : Served H request es σ) (hσ : Writes es σ)
    (h : step H request σ .recv = some σ') (hlag : σ.behind request ≤ broadcastCapacity) :
    Served H request (es ++ [.recv]) σ' := by
  obtain ⟨position, hfollower, ⟨hlost, -⟩ | ⟨v, hv, rfl⟩⟩ := step_recv h
  · exact absurd hlag (Nat.not_le_of_lt hlost)
  · simp only [Served, hfollower, forward_store] at hserved ⊢
    obtain ⟨R, early, late, hR, hsplit, hearly, hfrom, hto, hdone⟩ := hserved
    rw [hsplit, List.getElem?_append_right hfrom] at hv
    obtain ⟨hlt, hget⟩ := List.getElem?_eq_some_iff.1 hv
    refine ⟨R, early, late, hR.concat hσ h nofun, hsplit, fun w hw => ?_, by omega, ?_, ?_⟩
    · rw [sentInTime_concat (e := .recv) nofun]
      exact hearly w hw
    · rw [List.length_append]
      omega
    · rw [forward_delivered, hdone, List.append_assoc, ← List.filter_append]
      have hnext : position + 1 - early.length = position - early.length + 1 := by omega
      rw [hnext, List.take_add_one, hv]
      rfl

/-- Each step of the task or of a call keeps what has been handed over. -/
theorem Served.step (hserved : Served H request es σ) (hσ : Writes es σ)
    (h : Follow.step H request σ e = some σ')
    (hlag : e = .recv → σ.behind request ≤ broadcastCapacity) :
    Served H request (es ++ [e]) σ' := by
  cases e with
  | push w =>
    obtain ⟨-, rfl⟩ := step_push h
    exact hserved.frame hσ h nofun nofun rfl rfl ⟨[], (List.append_nil _).symm⟩
  | send w =>
    obtain ⟨-, rfl⟩ := step_send h
    refine hserved.frame hσ h nofun nofun rfl rfl ?_
    by_cases hid : request.workflowId = w.chunk.workflowId
    · exact ⟨[w], by simp [LogStore.send, hid]⟩
    · exact ⟨[], by simp [LogStore.send, Function.update_of_ne hid]⟩
  | readShard shard entries => exact hserved.read hσ h
  | replay => exact hserved.replay hσ h
  | subscribe => exact hserved.subscribe hσ h
  | recv => exact hserved.recv hσ h (hlag rfl)

/-- What the calls have done after a run. -/
theorem run_writes (h : run H request es = some σ) : Writes es σ := by
  induction es using List.reverseRecOn generalizing σ with
  | nil =>
    cases h
    exact writes_start
  | append_singleton es e ih =>
    rw [run_concat] at h
    obtain ⟨σ₀, hrun, hstep⟩ := Option.bind_eq_some_iff.1 h
    exact (ih hrun).step hstep

/-- What the task has done after a run without lags. -/
theorem run_served (hlag : NeverLags H request es) (h : run H request es = some σ) :
    Served H request es σ := by
  induction es using List.reverseRecOn generalizing σ with
  | nil =>
    cases h
    exact served_start
  | append_singleton es e ih =>
    rw [run_concat] at h
    obtain ⟨σ₀, hrun, hstep⟩ := Option.bind_eq_some_iff.1 h
    have hlag₀ : NeverLags H request es := by
      rintro es₁ es₂ σ₁ rfl hσ₁
      exact hlag es₁ (es₂ ++ [e]) σ₁ (by simp) hσ₁
    refine (ih hlag₀ hrun).step (run_writes hrun) hstep ?_
    rintro rfl
    exact hlag es [] σ₀ rfl hrun

end Task

/-! ## The two feeds -/

section Feeds

variable {H : Sharding} {request : StreamLogsRequest} {es : List Event} {σ : Follow}
  {R early late : List Write} {a b w : Write}

/-- What a client has been handed once everything has come to rest: the sorted history `R`, and then
the messages `late` that were sent after the subscription. -/
structure Feeds (H : Sharding) (request : StreamLogsRequest) (es : List Event)
    (delivered R early late : List Write) : Prop where
  snapshot : Snapshot H request es R
  nodup : (early ++ late).Nodup
  mem_iff : ∀ w, w ∈ early ++ late ↔
    w ∈ written es ∧ w.chunk.workflowId = request.workflowId
  before : ∀ a b, a.chunk.workflowId = request.workflowId →
    b.chunk.workflowId = request.workflowId → Before es (.send a) (.send b) →
    Before (early ++ late) a b
  sentInTime : ∀ w, w.chunk.workflowId = request.workflowId → (w ∈ early ↔ SentInTime es w)
  delivered : delivered = (sortByTimestamp R ++ late).filter request.admits

theorem Settled.feeds (hlag : NeverLags H request es) (hrun : run H request es = some σ)
    (hσ : σ.Settled request) : ∃ R early late, Feeds H request es σ.delivered R early late := by
  have hwrites := run_writes hrun
  have hserved := run_served hlag hrun
  obtain ⟨hpending, hfollower⟩ := hσ
  simp only [Served, hfollower] at hserved
  obtain ⟨R, early, late, hR, hsplit, hearly, hfrom, -, hdone⟩ := hserved
  -- Every call has returned, so what was written was sent.
  have hperm : (sent es).Perm (written es) := by
    have hall := hwrites.pending
    rwa [hpending, List.append_nil] at hall
  have hlive : early ++ late = (sent es).filter fun w =>
      w.chunk.workflowId = request.workflowId := by
    rw [← hsplit, hwrites.live]
  refine ⟨R, early, late, hR, ?_, fun w => ?_, fun a b ha hb hab => ?_, hearly, ?_⟩
  · rw [hlive]
    exact (hperm.nodup_iff.2 hwrites.nodup).filter _
  · rw [hlive, List.mem_filter, hperm.mem_iff, decide_eq_true_eq]
  · rw [hlive, before_filter, before_sent]
    exact ⟨hab, by simpa using ha, by simpa using hb⟩
  · rw [hdone, List.filter_append, List.take_of_length_le]
    rw [hsplit, List.length_append]
    omega

theorem workflowId_of_wanted (h : wanted request w = true) :
    w.chunk.workflowId = request.workflowId :=
  of_decide_eq_true (Bool.and_eq_true_iff.1 h).1

theorem admits_of_wanted (h : wanted request w = true) : request.admits w = true :=
  (Bool.and_eq_true_iff.1 h).2

theorem mem_sortByTimestamp : w ∈ sortByTimestamp R ↔ w ∈ R :=
  (List.mergeSort_perm R _).mem_iff

variable {delivered : List Write} (hf : Feeds H request es delivered R early late)

include hf

theorem Feeds.mem_delivered (hw : wanted request w) : w ∈ delivered ↔ w ∈ R ∨ w ∈ late := by
  rw [hf.delivered, List.mem_filter, List.mem_append, mem_sortByTimestamp]
  exact and_iff_left (admits_of_wanted hw)

theorem Feeds.mem_early_or (hmem : w ∈ written es) (hw : wanted request w) :
    w ∈ early ∨ w ∈ late :=
  List.mem_append.1 ((hf.mem_iff w).2 ⟨hmem, workflowId_of_wanted hw⟩)

theorem Feeds.mem_R_iff (hw : wanted request w) : w ∈ R ↔ StoredInTime H es w := by
  rw [hf.snapshot.mem_iff]
  exact and_iff_right (workflowId_of_wanted hw)

theorem Feeds.disjoint (h : w ∈ early) : w ∉ late := fun h' =>
  (List.nodup_append.1 hf.nodup).2.2 w h w h' rfl

/-- Every chunk is delivered once if and only if no call straddles the two feeds. -/
theorem Feeds.perm_iff (hwritten : (written es).Nodup) :
    delivered.Perm ((written es).filter (wanted request)) ↔
      ∀ w ∈ written es, wanted request w → (StoredInTime H es w ↔ SentInTime es w) := by
  have hsorted : (sortByTimestamp R).Nodup :=
    (List.mergeSort_perm R _).nodup_iff.2 hf.snapshot.nodup
  constructor
  · intro hperm w hmem hw
    rw [← hf.mem_R_iff hw, ← hf.sentInTime w (workflowId_of_wanted hw)]
    have hnodup := hperm.nodup_iff.2 (hwritten.filter _)
    rw [hf.delivered, List.filter_append, List.nodup_append] at hnodup
    constructor
    · -- What is read and sent too late is delivered twice.
      intro hR
      refine (hf.mem_early_or hmem hw).resolve_right fun hlate => ?_
      have hadmits := admits_of_wanted hw
      exact hnodup.2.2 w (List.mem_filter.2 ⟨mem_sortByTimestamp.2 hR, hadmits⟩) w
        (List.mem_filter.2 ⟨hlate, hadmits⟩) rfl
    · -- What is sent in time but not read is not delivered.
      intro hearly
      have hdelivered := hperm.mem_iff.2 (List.mem_filter.2 ⟨hmem, hw⟩)
      exact ((hf.mem_delivered hw).1 hdelivered).resolve_right (hf.disjoint hearly)
  · intro h
    refine (List.perm_ext_iff_of_nodup ?_ (hwritten.filter _)).2 fun w => ?_
    · rw [hf.delivered, List.filter_append, List.nodup_append]
      refine ⟨hsorted.filter _, ((List.nodup_append.1 hf.nodup).2.1).filter _, fun v hv u hu => ?_⟩
      rintro rfl
      obtain ⟨hv, hadmits⟩ := List.mem_filter.1 hv
      obtain ⟨hmem, hid⟩ := (hf.mem_iff v).1 (List.mem_append_right _ (List.mem_filter.1 hu).1)
      have hw : wanted request v = true := by simp [wanted, hid, hadmits]
      have hearly := (hf.sentInTime v hid).2
        ((h v hmem hw).1 ((hf.mem_R_iff hw).1 (mem_sortByTimestamp.1 hv)))
      exact hf.disjoint hearly (List.mem_filter.1 hu).1
    · rw [List.mem_filter]
      constructor
      · intro hdelivered
        have hmem : w ∈ written es ∧ w.chunk.workflowId = request.workflowId := by
          rw [hf.delivered, List.mem_filter, List.mem_append, mem_sortByTimestamp] at hdelivered
          rcases hdelivered.1 with hR | hlate
          · have hstored := (hf.snapshot.mem_iff w).1 hR
            exact ⟨hstored.2.mem_written, hstored.1⟩
          · exact (hf.mem_iff w).1 (List.mem_append_right _ hlate)
        rw [hf.delivered] at hdelivered
        exact ⟨hmem.1, by simp [wanted, hmem.2, (List.mem_filter.1 hdelivered).2]⟩
      · rintro ⟨hmem, hw⟩
        rw [hf.mem_delivered hw, hf.mem_R_iff hw, h w hmem hw,
          ← hf.sentInTime w (workflowId_of_wanted hw)]
        exact hf.mem_early_or hmem hw

/-- Where no call straddles the two feeds, two chunks of a step are delivered in the order they were
written in, unless the second is replayed and carries an earlier time. -/
theorem Feeds.before_iff
    (h : ∀ w ∈ written es, wanted request w → (StoredInTime H es w ↔ SentInTime es w))
    (ha : wanted request a) (hb : wanted request b) (hstep : a.chunk.stepId = b.chunk.stepId)
    (hab : WrittenBefore es a b) :
    Before delivered a b ↔
      (StoredInTime H es b → a.chunk.timestamp ≤ b.chunk.timestamp) := by
  have haid := workflowId_of_wanted ha
  have hbid := workflowId_of_wanted hb
  have hkey : a.chunk.key = b.chunk.key := by
    rw [LogChunk.key, LogChunk.key, haid, hbid, hstep]
  have hamem : a ∈ written es := mem_written.2 hab.1.mem_left
  have hbmem : b ∈ written es := mem_written.2 hab.1.mem_right
  have hlive := hf.before a b haid hbid hab.2
  rw [hf.delivered, before_filter, before_append, ← hf.mem_R_iff hb]
  simp only [admits_of_wanted ha, admits_of_wanted hb, and_true]
  by_cases hbR : b ∈ R
  · -- Both are replayed, and the sort decides.
    have hlate : b ∉ late := hf.disjoint
      ((hf.sentInTime b hbid).2 ((h b hbmem hb).1 ((hf.mem_R_iff hb).1 hbR)))
    have hnot : ¬Before late a b := fun h => hlate h.mem_right
    have hsort := @Before.mergeSort_iff _ _ _ _ (fun w => w.chunk.timestamp)
      (hf.snapshot.before a b hkey hbR hab.1)
    simp only [hbR, hlate, hnot, and_false, or_false, forall_const]
    exact hsort
  · refine iff_of_true ?_ fun hR => absurd hR hbR
    have hearly : b ∉ early := fun hearly => hbR
      ((hf.mem_R_iff hb).2 ((h b hbmem hb).2 ((hf.sentInTime b hbid).1 hearly)))
    have hlate := (hf.mem_early_or hbmem hb).resolve_left hearly
    rcases hf.mem_early_or hamem ha with haearly | halate
    · have haR := (hf.mem_R_iff ha).2 ((h a hamem ha).2 ((hf.sentInTime a haid).1 haearly))
      exact .inr (.inl ⟨mem_sortByTimestamp.2 haR, hlate⟩)
    · rcases before_append.1 hlive with hlive | ⟨haearly, -⟩ | hlive
      · exact absurd hlive.mem_right hearly
      · exact absurd halate (hf.disjoint haearly)
      · exact .inr (.inr hlive)

end Feeds

/-- **Following a log loses and repeats nothing if and only if no call straddles the two feeds**,
and the times of replayed chunks agree with the order they were written in. -/
theorem followed_iff_seamless (H : Sharding) (request : StreamLogsRequest) (es : List Event)
    (σ : Follow) (hrun : run H request es = some σ) (hsettled : σ.Settled request)
    (hlag : NeverLags H request es) :
    Followed request es σ.delivered ↔ Seamless H request es := by
  obtain ⟨R, early, late, hf⟩ := hsettled.feeds hlag hrun
  have hnodup := (run_writes hrun).nodup
  unfold Followed Seamless
  rw [hf.perm_iff hnodup]
  refine and_congr_right fun h => ?_
  refine forall₄_congr fun a b ha hb => forall₂_congr fun hstep hab => ?_
  exact hf.before_iff h ha hb hstep hab

/-- A short run never lags. -/
theorem neverLags_of_length {H : Sharding} {request : StreamLogsRequest} {es : List Event}
    (h : es.length ≤ broadcastCapacity) : NeverLags H request es := by
  rintro es₁ es₂ σ rfl hrun
  have hsent : (sent es₁).length ≤ es₁.length := List.length_filterMap_le ..
  have hlive : (σ.store.live request.workflowId).length ≤ (sent es₁).length := by
    rw [(run_writes hrun).live]
    exact List.length_filter_le ..
  have hbehind : σ.behind request ≤ (σ.store.live request.workflowId).length := by
    unfold behind
    split
    · exact Nat.sub_le ..
    · exact Nat.zero_le _
  rw [List.length_append] at h
  omega

def oneShard : Sharding := ⟨1, fun _ => 0, fun _ => Nat.one_pos⟩

/-- A request to follow a workflow. -/
def followId : StreamLogsRequest := ⟨"id", "", true⟩

/-- A chunk of that workflow. -/
def someChunk : LogChunk := ⟨"id", "d", 0, "build", .stdout, [], 0⟩

/-- A chunk is written before the task starts, and another one when it has subscribed. -/
def writtenApart : List Event :=
  [.push ⟨0, someChunk⟩, .send ⟨0, someChunk⟩,
    .readShard 0 [(("id", 0), [⟨0, someChunk⟩])], .replay, .subscribe,
    .push ⟨1, someChunk⟩, .send ⟨1, someChunk⟩, .recv]

/-- Where that leads to. -/
def writtenApartEnd : Follow where
  store := (((LogStore.empty.push ⟨0, someChunk⟩).send ⟨0, someChunk⟩).push
    ⟨1, someChunk⟩).send ⟨1, someChunk⟩
  calls := 2
  pending := []
  follower := .following 2
  delivered := [⟨0, someChunk⟩, ⟨1, someChunk⟩]

theorem followed_iff_seamless_writtenApart :
    Followed followId writtenApart writtenApartEnd.delivered ↔
      Seamless oneShard followId writtenApart :=
  followed_iff_seamless oneShard followId writtenApart writtenApartEnd
    (by with_unfolding_all rfl) ⟨rfl, rfl⟩ (neverLags_of_length (by decide))

/-- A chunk is written after the history was read and before the task subscribes. -/
def writtenBetween : List Event :=
  [.readShard 0 [], .push ⟨0, someChunk⟩, .send ⟨0, someChunk⟩, .subscribe]

/-- Where that leads to. -/
def writtenBetweenEnd : Follow where
  store := (LogStore.empty.push ⟨0, someChunk⟩).send ⟨0, someChunk⟩
  calls := 1
  pending := []
  follower := .following 1
  delivered := []

/-- The chunk is lost. -/
theorem writtenBetween_not_followed :
    run oneShard followId writtenBetween = some writtenBetweenEnd ∧
      writtenBetweenEnd.Settled followId ∧ NeverLags oneShard followId writtenBetween ∧
      ¬Followed followId writtenBetween writtenBetweenEnd.delivered := by
  refine ⟨by with_unfolding_all rfl, ⟨rfl, rfl⟩, neverLags_of_length (by decide), fun h => ?_⟩
  exact absurd h.1.length_eq (by decide)

end Follow

end Wfe.Server
