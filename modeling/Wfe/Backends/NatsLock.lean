import Wfe.Library.Pool
import Wfe.Models.Definition

/-!
# Locks in a JetStream bucket

`NatsLockProvider`: the lock of a resource is an entry of a key-value bucket, whose value is the id
of the provider instance that has created it. An instance remembers the resources it holds in a set,
and its heartbeat writes their entries again and again, from a snapshot of the set. A release reads
the entry, deletes it if it is its own, and only then updates the set. Entries do not expire here.
Each operation on the bucket or on the set is a call of its own, and any calls may come in between.

## Main definitions

* `acquireLock`, `releaseLock`, `heartbeat`: the provider
* `locks`: the machine of all instances on one bucket
* `Holding`: an instance has acquired a lock and has not called for its release
* `Safe`: the entry of a lock that is held is that of its holder, and a lock that has been released
  has none
* `Orderly`: heartbeats write only own entries, and only locks that are held are released

## Main results

* `safe_of_orderly`: runs whose steps are orderly are safe
* `heartbeat_overwrites`: a heartbeat with a stale snapshot takes the lock of another instance
-/

namespace Wfe.NatsLock

/-! ## The provider -/

/-- The errors of `kv.create`. -/
inductive CreateError
  | alreadyExists
  | other (message : String)
deriving DecidableEq, Repr

/-- The calls of an instance: those on the entry of a resource in the bucket, and those on the set
`held_locks`. -/
inductive KvCall
  | create (self resource : String)
  | entry (self resource : String)
  | delete (self resource : String)
  | put (self resource : String)
  | insert (self resource : String)
  | remove (self resource : String)
  | snapshot (self : String)
deriving DecidableEq, Repr

@[reducible] def KvCall.Reply : KvCall → Type
  | create _ _ => Except CreateError Unit
  | entry _ _ => Except String (Option String)
  | delete _ _ | put _ _ => Except String Unit
  | insert _ _ | remove _ _ => Unit
  | snapshot _ => List String

abbrev Kv : Interface := ⟨KvCall, KvCall.Reply⟩

abbrev perform (c : KvCall) : Program Kv c.Reply := Program.perform (I := Kv) c

def acquireLock (self resource : String) : Program Kv (Except WfeError Bool) := do
  match ← perform (.create self resource) with
  | .ok _ =>
    perform (.insert self resource)
    return .ok true
  | .error .alreadyExists => return .ok false
  | .error (.other e) =>
    return .error (.lockFailed s!"failed to acquire lock for {resource}: {e}")

/-- Deletes the entry if it is the own one; failures are only logged. -/
def deleteOwn (self resource : String) : Except String (Option String) → Program Kv Unit
  | .ok (some holder) =>
    if holder = self then do let _ ← perform (.delete self resource) else return ()
  | .ok none | .error _ => return ()

def releaseLock (self resource : String) : Program Kv (Except WfeError Unit) := do
  deleteOwn self resource (← perform (.entry self resource))
  perform (.remove self resource)
  return .ok ()

/-- The loop over the snapshot; failures are only logged. -/
def refresh (self : String) : List String → Program Kv Unit
  | [] => return ()
  | resource :: resources => do
    let _ ← perform (.put self resource)
    refresh self resources

/-- One round of the heartbeat. -/
def heartbeat (self : String) : Program Kv Unit := do
  refresh self (← perform (.snapshot self))

/-! ## The machine -/

/-- `lock_key`. -/
def lockKey (scope resource : String) : String := s!"{scope}.lock.{resource}"

theorem lockKey_injective (scope : String) : Function.Injective (lockKey scope) :=
  fun _ _ h => (String.append_right_inj _).mp h

/-- The bucket, and the set `held_locks` of each instance. -/
structure Locks where
  bucket : String → Option String
  held : String → List String

/-- What the outside world decides: whether a call on the bucket fails, and in which order a set is
iterated. -/
structure Fault where
  failure : Option String := none
  order : List String := []

inductive LockOp
  | acquire (self resource : String)
  | release (self resource : String)
  | heartbeat (self : String)
deriving DecidableEq, Repr

inductive LockOutcome
  | idle
  | acquired (r : Except WfeError Bool)
  | released (r : Except WfeError Unit)
  | beaten

def LockOp.program : LockOp → Program Kv LockOutcome
  | acquire self resource => acquireLock self resource >>= fun r => pure (.acquired r)
  | release self resource => releaseLock self resource >>= fun r => pure (.released r)
  | heartbeat self => NatsLock.heartbeat self >>= fun _ => pure .beaten

namespace Locks

variable (scope : String) (o : Fault) (s : Locks)

/-- The entry of a resource. -/
def value (resource : String) : Option String := s.bucket (lockKey scope resource)

/-- The bucket with another entry for a resource. -/
def write (resource : String) (v : Option String) : Locks :=
  { s with bucket := Function.update s.bucket (lockKey scope resource) v }

/-- The answer to a call: a call on the bucket that fails has no effect. -/
def answer : (c : KvCall) → c.Reply × Locks
  | .create self resource =>
    match o.failure, s.value scope resource with
    | some e, _ => (.error (.other e), s)
    | none, some _ => (.error .alreadyExists, s)
    | none, none => (.ok (), s.write scope resource (some self))
  | .entry _ resource =>
    match o.failure with
    | some e => (.error e, s)
    | none => (.ok (s.value scope resource), s)
  | .delete _ resource =>
    match o.failure with
    | some e => (.error e, s)
    | none => (.ok (), s.write scope resource none)
  | .put self resource =>
    match o.failure with
    | some e => (.error e, s)
    | none => (.ok (), s.write scope resource (some self))
  | .insert self resource =>
    ((), { s with held := Function.update s.held self ((s.held self).insert resource) })
  | .remove self resource =>
    ((), { s with held := Function.update s.held self ((s.held self).filter (· ≠ resource)) })
  | .snapshot self => (if o.order.isPerm (s.held self) then o.order else s.held self, s)

variable {scope} in
@[simp] theorem value_write (resource : String) (v : Option String) (r : String) :
    (s.write scope resource v).value scope r = if r = resource then v else s.value scope r := by
  simp [value, write, Function.update_apply, (lockKey_injective scope).eq_iff]

end Locks

/-- Any number of instances on one bucket, with the keys of one configuration. -/
abbrev locks (scope : String) : Machine Kv where
  Op := LockOp
  Outcome := LockOutcome
  idle := .idle
  State := Locks
  Oracle := Fault
  program := LockOp.program
  answer := fun o _ s c => some (s.answer scope o c)

/-- An empty bucket. -/
def Locks.empty : Locks := ⟨fun _ => none, fun _ => []⟩

/-! ## What is claimed -/

/-- Whether an instance holds a lock after an exchange: `insert` is the last call of an
`acquire_lock` that returns true, `entry` the first one of `release_lock`. -/
def nextHolding (self resource : String) (holding : Bool) (x : ℕ × Exchange Kv) : Bool :=
  if x.2.1 = .insert self resource then true
  else if x.2.1 = .entry self resource then false
  else holding

/-- `acquire_lock` has returned true on the instance, and it has not called `release_lock` since. -/
def Holding (trace : List (ℕ × Exchange Kv)) (self resource : String) : Prop :=
  trace.foldl (nextHolding self resource) false = true

/-- Where a call of the provider is: it has created an entry and not returned yet, it is about to
delete an entry, or it is about to update the set after that. -/
inductive Phase
  | idle
  | created (self resource : String)
  | deleting (self resource : String)
  | removing (self resource : String)
deriving DecidableEq, Repr

/-- The order of the calls on a lock. -/
def lockMonitor : Monitor Kv Phase where
  allow _ _ _ := True
  accept phase c :=
    match c with
    | .create _ _ | .entry _ _ | .snapshot _ | .put _ _ => phase = .idle
    | .insert self resource => phase = .created self resource
    | .delete self resource => phase = .deleting self resource
    | .remove self resource => phase = .removing self resource
  next phase c r :=
    match c, r with
    | .create self resource, .ok _ => .created self resource
    | .create _ _, .error _ => .idle
    | .entry self resource, .ok (some holder) =>
      if holder = self then .deleting self resource else .removing self resource
    | .entry self resource, .ok none | .entry self resource, .error _ => .removing self resource
    | .delete self resource, _ => .removing self resource
    | .insert _ _, _ | .remove _ _, _ => .idle
    | .snapshot _, _ | .put _ _, _ => phase

/-- Where thread `t` is. -/
abbrev phase {scope : String} (P : Pool (locks scope)) (t : ℕ) : Phase :=
  P.ghost lockMonitor .idle t

/-- The entry of a lock that is held is that of its holder; and when nobody holds the lock of a
resource, and all calls that have acquired or released it have returned, it has no entry. -/
structure Safe {scope : String} (P : Pool (locks scope)) : Prop where
  held : ∀ self resource, Holding P.trace self resource → P.shared.value scope resource = some self
  released : ∀ resource, (∀ self, ¬Holding P.trace self resource) →
    (∀ t self, phase P t ≠ .created self resource ∧ phase P t ≠ .deleting self resource ∧
      phase P t ≠ .removing self resource) → P.shared.value scope resource = none

/-- No call on the bucket fails. -/
def Reliable {scope : String} (_ : Pool (locks scope)) (_ : ℕ) : Exchange Kv → Prop
  | ⟨.create _ _, .error (.other _)⟩ | ⟨.entry _ _, .error _⟩ | ⟨.delete _ _, .error _⟩
  | ⟨.put _ _, .error _⟩ => False
  | _ => True

/-- A heartbeat writes the entry of a resource only while it is its own. A release that finds its
own entry is one of a holder, and its calls on the bucket succeed. -/
def Orderly {scope : String} (P : Pool (locks scope)) (_ : ℕ) : Exchange Kv → Prop
  | ⟨.put self resource, .ok _⟩ => P.shared.value scope resource = some self
  | ⟨.entry self resource, r⟩ => P.shared.value scope resource = some self →
      Holding P.trace self resource ∧ r.isOk = true
  | ⟨.delete _ _, r⟩ => r.isOk = true
  | _ => True

/-! ## Programs -/

section Programs

open Program

theorem refresh_idle (self : String) (resources : List String) :
    Meets lockMonitor (fun phase _ => phase = .idle) (refresh self resources) .idle := by
  induction resources with
  | nil => rfl
  | cons resource resources ih => exact ⟨rfl, fun _ _ => ih⟩

/-- Every operation makes its calls in order. -/
theorem LockOp.meets (op : LockOp) :
    op.program.Meets lockMonitor (fun phase _ => phase = .idle) .idle := by
  cases op with
  | acquire self resource =>
    refine ⟨rfl, fun r _ => ?_⟩
    rcases r with (_ | e) | _
    · rfl
    · rfl
    · exact ⟨rfl, fun _ _ => rfl⟩
  | release self resource =>
    refine ⟨rfl, fun r _ => ?_⟩
    have hremove : Meets lockMonitor (fun phase _ => phase = .idle)
        (perform (.remove self resource) >>= fun _ => pure (LockOutcome.released (.ok ())))
        (.removing self resource) := ⟨rfl, fun _ _ => rfl⟩
    -- An entry of its own is deleted before the set is updated.
    have hdelete : Meets lockMonitor (fun phase _ => phase = .idle)
        (perform (.delete self resource) >>= fun _ => perform (.remove self resource) >>= fun _ =>
          pure (LockOutcome.released (.ok ())))
        (.deleting self resource) := ⟨rfl, fun _ _ => hremove⟩
    rcases r with e | _ | holder
    · exact hremove
    · exact hremove
    · show Meets lockMonitor _
        (((if holder = self then perform (.delete self resource) >>= fun _ => pure () else pure ())
          >>= fun _ => perform (.remove self resource) >>= fun _ => pure (Except.ok ()))
          >>= fun r => pure (LockOutcome.released r))
        (if holder = self then .deleting self resource else .removing self resource)
      by_cases hholder : holder = self
      · simp only [if_pos hholder]
        exact hdelete
      · simp only [if_neg hholder]
        exact hremove
  | heartbeat self =>
    refine ⟨rfl, fun resources _ => ?_⟩
    exact meets_bind.mpr (refresh_idle self resources)

end Programs

/-! ## Ownership -/

section Ownership

variable {scope : String} {P : Pool (locks scope)} {t : ℕ} {self resource : String}

/-- The call is about to hand over the entry it has created, or to delete it. -/
def Phase.Busy (self resource : String) (phase : Phase) : Prop :=
  phase = .created self resource ∨ phase = .deleting self resource

/-- The entry of a resource belongs to nobody, to an instance that holds the lock, or to a call of
an instance that has acquired it or is about to delete it; and nobody else lays claim to it. -/
structure OwnedBy (P : Pool (locks scope)) (resource : String)
    (owner : Option (Option ℕ × String)) : Prop where
  value : P.shared.value scope resource = owner.map Prod.snd
  holding : ∀ i, Holding P.trace i resource ↔ owner = some (none, i)
  busy : ∀ u i, (phase P u).Busy i resource ↔ owner = some (some u, i)

theorem holding_concat (trace : List (ℕ × Exchange Kv)) (x : ℕ × Exchange Kv) :
    Holding (trace ++ [x]) self resource ↔ x.2.1 = .insert self resource ∨
      x.2.1 ≠ .entry self resource ∧ Holding trace self resource := by
  simp only [Holding, List.foldl_append, List.foldl_cons, List.foldl_nil, nextHolding]
  split_ifs with hinsert hentry
  · simp [hinsert]
  · simp [hentry]
  · simp [hinsert, hentry]

/-- An owner after an exchange: what has to be shown of its thread and of the others. -/
theorem OwnedBy.proceed {x : Exchange Kv} {p : Program Kv LockOutcome} {s : Locks}
    {owner : Option (Option ℕ × String)} (hvalue : s.value scope resource = owner.map Prod.snd)
    (hholding : ∀ i, (x.1 = .insert i resource ∨ x.1 ≠ .entry i resource ∧
      Holding P.trace i resource) ↔ owner = some (none, i))
    (hself : ∀ i, (lockMonitor.next (phase P t) x.1 x.2).Busy i resource ↔
      owner = some (some t, i))
    (hothers : ∀ u i, u ≠ t → ((phase P u).Busy i resource ↔ owner = some (some u, i))) :
    OwnedBy (P.proceed t x p s) resource owner where
  value := hvalue
  holding i := by
    rw [Pool.proceed_trace, holding_concat]
    exact hholding i
  busy u i := by
    by_cases hu : u = t
    · subst hu
      rw [phase, Pool.ghost_proceed_self]
      exact hself i
    · rw [phase, Pool.ghost_proceed_of_ne _ _ _ hu]
      exact hothers u i hu

/-- An exchange that leaves the entry and all claims to it leaves the owner. -/
theorem OwnedBy.frame {x : Exchange Kv} {p : Program Kv LockOutcome} {s : Locks}
    {owner : Option (Option ℕ × String)} (h : OwnedBy P resource owner)
    (hvalue : s.value scope resource = P.shared.value scope resource)
    (hholding : ∀ i, (x.1 = .insert i resource ∨ x.1 ≠ .entry i resource ∧
      Holding P.trace i resource) ↔ Holding P.trace i resource)
    (hself : ∀ i, (lockMonitor.next (phase P t) x.1 x.2).Busy i resource ↔
      (phase P t).Busy i resource) : OwnedBy (P.proceed t x p s) resource owner :=
  .proceed (hvalue.trans h.value) (fun i => (hholding i).trans (h.holding i))
    (fun i => (hself i).trans (h.busy t i)) fun u i _ => h.busy u i

/-- The resource a call is about. -/
def KvCall.resource? : KvCall → Option String
  | create _ r | entry _ r | delete _ r | put _ r | insert _ r | remove _ r => some r
  | snapshot _ => none

theorem Locks.value_answer {o : Fault} {s s' : Locks} {c : KvCall} {r : c.Reply}
    (hs : s.answer scope o c = (r, s')) (hc : c.resource? ≠ some resource) :
    s'.value scope resource = s.value scope resource := by
  have hne (r' : String) (hc' : c.resource? = some r') : resource ≠ r' := by
    rintro rfl
    exact hc hc'
  cases c with
  | create i r' | entry i r' | delete i r' | put i r' =>
    simp only [Locks.answer] at hs
    split at hs <;> cases hs <;> simp [hne r' rfl]
  | insert i r' | remove i r' | snapshot i =>
    cases hs
    rfl

/-- The phase of a call is about its own resource. -/
theorem not_busy_of_accept {ph : Phase} {c : KvCall} (haccept : lockMonitor.accept ph c)
    (hc : c.resource? ≠ some resource) (r : c.Reply) :
    ¬ph.Busy self resource ∧ ¬(lockMonitor.next ph c r).Busy self resource := by
  cases c with
  | create i r' => cases r <;> simp_all [lockMonitor, Phase.Busy, KvCall.resource?]
  | entry i r' =>
    rcases r with _ | _ | holder
    · simp_all [lockMonitor, Phase.Busy]
    · simp_all [lockMonitor, Phase.Busy]
    · by_cases hholder : holder = i <;> simp_all [lockMonitor, Phase.Busy, KvCall.resource?]
  | _ => simp_all [lockMonitor, Phase.Busy, KvCall.resource?]

/-- A call leaves the owners of all other resources. -/
theorem OwnedBy.elsewhere {c : KvCall} {r : c.Reply} {p : Program Kv LockOutcome} {o : Fault}
    {s : Locks} {owner : Option (Option ℕ × String)} (h : OwnedBy P resource owner)
    (haccept : lockMonitor.accept (phase P t) c) (hs : P.shared.answer scope o c = (r, s))
    (hc : c.resource? ≠ some resource) : OwnedBy (P.proceed t ⟨c, r⟩ p s) resource owner := by
  refine h.frame (Locks.value_answer hs hc) (fun i => ?_) fun i => ?_
  · have hinsert : c ≠ .insert i resource := fun he => hc (by rw [he]; rfl)
    have hentry : c ≠ .entry i resource := fun he => hc (by rw [he]; rfl)
    simp [hinsert, hentry]
  · have hbusy : ¬(phase P t).Busy i resource ∧ _ := not_busy_of_accept haccept hc r
    exact iff_of_false hbusy.2 hbusy.1

/-- The entries are owned, and every call is where its history has put it. -/
structure Tidy (P : Pool (locks scope)) : Prop where
  conforms : Pool.Conforms lockMonitor .idle (fun phase _ => phase = .idle) P
  owner : ∀ resource, ∃ owner, OwnedBy P resource owner

theorem tidy_start : Tidy (Pool.start (locks scope) .empty) where
  conforms := Pool.conforms_start _ rfl
  owner _ := ⟨none, rfl, fun _ => by simp [Pool.start, Holding], fun _ _ => by simp [Phase.Busy]⟩

theorem Tidy.spawn {op : LockOp} {a : LockOutcome} (h : Tidy P) (ha : (P.threads t).rest = .ret a) :
    Tidy (P.spawn t op) where
  conforms := h.conforms.spawn op.meets
  owner resource := by
    obtain ⟨owner, ho⟩ := h.owner resource
    refine ⟨owner, ho.value, ho.holding, fun u i => ?_⟩
    by_cases hu : u = t
    · -- A thread that has returned was idle, and is so again.
      subst hu
      have hidle : phase P u = .idle := h.conforms.returned ha
      rw [phase, Pool.ghost_spawn_self, ← hidle]
      exact ho.busy u i
    · rw [phase, Pool.ghost_spawn_of_ne (S := locks scope) op hu]
      exact ho.busy u i

section Own

variable {p : Program Kv LockOutcome} {o : Fault} {s : Locks} {owner : Option (Option ℕ × String)}

/-- A call that keeps the entry and the set of locks, and that is not about to give up an entry. -/
theorem OwnedBy.quiet {x : Exchange Kv} (h : OwnedBy P resource owner)
    (hvalue : s.value scope resource = P.shared.value scope resource)
    (hinsert : ∀ i, x.1 ≠ .insert i resource)
    (hentry : ∀ i, x.1 = .entry i resource → ¬Holding P.trace i resource)
    (hphase : ∀ i, ¬(phase P t).Busy i resource)
    (hnext : ∀ i, ¬(lockMonitor.next (phase P t) x.1 x.2).Busy i resource) :
    OwnedBy (P.proceed t x p s) resource owner := by
  refine h.frame hvalue (fun i => ?_) fun i => iff_of_false (hnext i) (hphase i)
  constructor
  · rintro (hx | ⟨-, hi⟩)
    · exact absurd hx (hinsert i)
    · exact hi
  · intro hi
    exact .inr ⟨fun hx => hentry i hx hi, hi⟩

/-- Who creates an entry is its owner. -/
theorem OwnedBy.create {r : Except CreateError Unit} (h : OwnedBy P resource owner)
    (hphase : phase P t = .idle) (hs : P.shared.answer scope o (.create self resource) = (r, s)) :
    ∃ owner, OwnedBy (P.proceed t ⟨.create self resource, r⟩ p s) resource owner := by
  have hbusy (i : String) : ¬(phase P t).Busy i resource := by simp [hphase, Phase.Busy]
  simp only [Locks.answer] at hs
  split at hs
  · cases hs
    exact ⟨owner, h.quiet rfl (by simp) (by simp) hbusy (by simp [lockMonitor, Phase.Busy])⟩
  · cases hs
    exact ⟨owner, h.quiet rfl (by simp) (by simp) hbusy (by simp [lockMonitor, Phase.Busy])⟩
  · next hnone =>
    cases hs
    -- There was no entry, and so no owner.
    have howner : owner = none := by simpa [hnone] using h.value.symm
    subst howner
    refine ⟨some (some t, self), .proceed (by simp) (fun i => ?_) (fun i => ?_) fun u i hu => ?_⟩
    · simp [h.holding i]
    · simp [lockMonitor, Phase.Busy]
    · simp [h.busy u i, Ne.symm hu]

/-- The call that has created the entry hands it over to its instance. -/
theorem OwnedBy.insert (h : OwnedBy P resource owner) (hphase : phase P t = .created self resource)
    (hvalue : s.value scope resource = P.shared.value scope resource) :
    OwnedBy (P.proceed t ⟨.insert self resource, ()⟩ p s) resource (some (none, self)) := by
  have howner := (h.busy t self).mp (.inl hphase)
  subst howner
  refine .proceed (hvalue.trans h.value) (fun i => ?_) (fun i => ?_) fun u i hu => ?_
  · simp [h.holding i]
  · simp [lockMonitor, Phase.Busy]
  · simp [h.busy u i, Ne.symm hu]

/-- A release that finds the entry of its instance takes it over from the instance. -/
theorem OwnedBy.entry (h : OwnedBy P resource owner) (hholding : Holding P.trace self resource) :
    OwnedBy (P.proceed t ⟨.entry self resource, .ok (some self)⟩ p P.shared) resource
      (some (some t, self)) := by
  have howner := (h.holding self).mp hholding
  subst howner
  refine .proceed h.value (fun i => ?_) (fun i => ?_) fun u i hu => ?_
  · simp [h.holding i]
  · simp [lockMonitor, Phase.Busy]
  · simp [h.busy u i, Ne.symm hu]

/-- After the deletion there is no entry, and no owner. -/
theorem OwnedBy.delete {r : Except String Unit} (h : OwnedBy P resource owner)
    (hphase : phase P t = .deleting self resource) (hvalue : s.value scope resource = none) :
    OwnedBy (P.proceed t ⟨.delete self resource, r⟩ p s) resource none := by
  have howner := (h.busy t self).mp (.inr hphase)
  subst howner
  refine .proceed hvalue (fun i => ?_) (fun i => ?_) fun u i hu => ?_
  · simp [h.holding i]
  · simp [lockMonitor, Phase.Busy]
  · simp [h.busy u i, Ne.symm hu]

/-- A release either takes over an entry of its own, or leaves the owner. -/
theorem OwnedBy.read {r : Except String (Option String)} (h : OwnedBy P resource owner)
    (hphase : phase P t = .idle) (hs : P.shared.answer scope o (.entry self resource) = (r, s))
    (horderly : Orderly P t ⟨.entry self resource, r⟩) :
    ∃ owner, OwnedBy (P.proceed t ⟨.entry self resource, r⟩ p s) resource owner := by
  by_cases hown : P.shared.value scope resource = some self
  · obtain ⟨hholding, hok⟩ := horderly hown
    simp only [Locks.answer] at hs
    split at hs
    · cases hs
      cases hok
    · cases hs
      rw [hown]
      exact ⟨_, h.entry hholding⟩
  · -- The instance does not hold the lock, since a holder would find its own entry.
    have hholding : ¬Holding P.trace self resource := fun hi => hown (by
      rw [h.value, (h.holding self).mp hi]
      rfl)
    have hnext (i : String) : ¬(lockMonitor.next (phase P t) (.entry self resource) r).Busy i
        resource := by
      simp only [Locks.answer] at hs
      split at hs
      · cases hs
        simp [lockMonitor, Phase.Busy]
      · cases hs
        cases hvalue : P.shared.value scope resource with
        | none => simp [lockMonitor, Phase.Busy]
        | some holder =>
          have hne : holder ≠ self := by
            rintro rfl
            exact hown hvalue
          simp [lockMonitor, Phase.Busy, hne]
    refine ⟨owner, h.quiet ?_ (by simp) ?_ (by simp [hphase, Phase.Busy]) hnext⟩
    · simp only [Locks.answer] at hs
      split at hs <;> cases hs <;> rfl
    · rintro i hi
      cases hi
      exact hholding

/-- A call of an orderly run leaves its resource with an owner, if it had one. -/
theorem OwnedBy.step {c : KvCall} {r : c.Reply} (h : OwnedBy P resource owner)
    (haccept : lockMonitor.accept (phase P t) c) (hs : P.shared.answer scope o c = (r, s))
    (horderly : Orderly P t ⟨c, r⟩) (hc : c.resource? = some resource) :
    ∃ owner, OwnedBy (P.proceed t ⟨c, r⟩ p s) resource owner := by
  cases c with
  | snapshot i => cases hc
  | create i r' =>
    cases hc
    exact h.create haccept hs
  | entry i r' =>
    cases hc
    exact h.read haccept hs horderly
  | delete i r' =>
    cases hc
    simp only [Locks.answer] at hs
    split at hs
    · cases hs
      cases horderly
    · cases hs
      exact ⟨none, h.delete haccept (by simp)⟩
  | insert i r' =>
    cases hc
    cases hs
    exact ⟨_, h.insert haccept rfl⟩
  | remove i r' =>
    cases hc
    cases hs
    have hphase : phase P t = .removing i resource := haccept
    exact ⟨owner, h.quiet rfl (by simp) (by simp) (by simp [hphase, Phase.Busy])
      (by simp [lockMonitor, Phase.Busy])⟩
  | put i r' =>
    cases hc
    have hphase : phase P t = .idle := haccept
    -- A write of the value that is there already changes nothing.
    have hvalue : s.value scope resource = P.shared.value scope resource := by
      simp only [Locks.answer] at hs
      split at hs
      · cases hs
        rfl
      · cases hs
        simpa using Eq.symm horderly
    exact ⟨owner, h.quiet hvalue (by simp) (by simp) (by simp [hphase, Phase.Busy])
      (by simp [lockMonitor, Phase.Busy, hphase])⟩

end Own

theorem Tidy.step {P' : Pool (locks scope)} (h : Tidy P) (hstep : Pool.Step Orderly P P') :
    Tidy P' := by
  cases hstep with
  | spawn t op a ha => exact h.spawn ha
  | call t c k o r s hk hs horderly =>
    have haccept := h.conforms.accept hk
    have hanswer : P.shared.answer scope o c = (r, s) := Option.some.inj hs
    refine ⟨h.conforms.proceed hk trivial s, fun resource => ?_⟩
    obtain ⟨owner, ho⟩ := h.owner resource
    by_cases hc : c.resource? = some resource
    · exact ho.step haccept hanswer horderly hc
    · exact ⟨owner, ho.elsewhere haccept hanswer hc⟩

theorem Tidy.safe (h : Tidy P) : Safe P where
  held self resource hholding := by
    obtain ⟨owner, ho⟩ := h.owner resource
    rw [ho.value, (ho.holding self).mp hholding]
    rfl
  released resource hholding hphase := by
    obtain ⟨owner, ho⟩ := h.owner resource
    rw [ho.value]
    rcases owner with _ | ⟨_ | t, i⟩
    · rfl
    · exact absurd ((ho.holding i).mpr rfl) (hholding i)
    · obtain ⟨hcreated, hdeleting, -⟩ := hphase t i
      exact absurd ((ho.busy t i).mpr rfl) (not_or.mpr ⟨hcreated, hdeleting⟩)

/-- **A released lock stays released.** In every state of an orderly run of any number of
instances, a lock that is held has the entry of its holder, and one that has been released has
none. -/
theorem safe_of_orderly (h : Pool.Run Orderly (Pool.start (locks scope) .empty) P) : Safe P :=
  Tidy.safe (h.invariant (fun _ _ hP hstep => hP.step hstep) tidy_start)

end Ownership

/-! ## Runs -/

section Runs

variable {scope : String} (P : Pool (locks scope)) (t : ℕ) (self resource : String)

instance (trace : List (ℕ × Exchange Kv)) : Decidable (Holding trace self resource) :=
  inferInstanceAs (Decidable (_ = _))

instance (x : Exchange Kv) : Decidable (Reliable P t x) :=
  match x with
  | ⟨.create _ _, .error (.other _)⟩ | ⟨.entry _ _, .error _⟩ | ⟨.delete _ _, .error _⟩
  | ⟨.put _ _, .error _⟩ => inferInstanceAs (Decidable False)
  | ⟨.create _ _, .ok _⟩ | ⟨.create _ _, .error .alreadyExists⟩ | ⟨.entry _ _, .ok _⟩
  | ⟨.delete _ _, .ok _⟩ | ⟨.put _ _, .ok _⟩ | ⟨.insert _ _, _⟩ | ⟨.remove _ _, _⟩
  | ⟨.snapshot _, _⟩ => inferInstanceAs (Decidable True)

instance (x : Exchange Kv) : Decidable (Orderly P t x) :=
  match x with
  | ⟨.put _ _, .ok _⟩ => inferInstanceAs (Decidable (_ = _))
  | ⟨.entry self resource, r⟩ => inferInstanceAs (Decidable (P.shared.value scope resource =
      some self → Holding P.trace self resource ∧ r.isOk = true))
  | ⟨.delete _ _, _⟩ => inferInstanceAs (Decidable (_ = _))
  | ⟨.create _ _, _⟩ | ⟨.put _ _, .error _⟩ | ⟨.insert _ _, _⟩ | ⟨.remove _ _, _⟩
  | ⟨.snapshot _, _⟩ => inferInstanceAs (Decidable True)

/-- The pool after a schedule whose steps meet a decidable condition. -/
abbrev scheduled (C : Pool (locks scope) → ℕ → Exchange Kv → Prop) [∀ P t x, Decidable (C P t x)]
    (ms : List (Pool.Move (locks scope))) : Option (Pool (locks scope)) :=
  Pool.schedule (fun P t x => decide (C P t x)) ms (Pool.start (locks scope) .empty)

end Runs

/-- An instance acquires a lock, renews it in its heartbeat and releases it; then another instance
acquires it. -/
def handover : List (Pool.Move (locks "wfe")) :=
  [.spawn 0 (.acquire "a" "r"), .call 0 {}, .call 0 {}, .spawn 1 (.heartbeat "a"), .call 1 {},
    .call 1 {}, .spawn 0 (.release "a" "r"), .call 0 {}, .call 0 {}, .call 0 {},
    .spawn 0 (.acquire "b" "r"), .call 0 {}, .call 0 {}]

theorem safe_handover : ∃ P : Pool (locks "wfe"),
    Pool.Run Orderly (Pool.start (locks "wfe") .empty) P ∧ Holding P.trace "b" "r" ∧ Safe P := by
  have hfacts : (scheduled Orderly handover).map (fun P => decide (Holding P.trace "b" "r")) =
      some true := by decide
  obtain ⟨P, hP, hholding⟩ := Option.map_eq_some_iff.mp hfacts
  have hrun := Pool.run_of_schedule_decide (n := 2) (fun _ _ => rfl) (by rfl) hP
  exact ⟨P, hrun, of_decide_eq_true hholding, safe_of_orderly hrun⟩

/-- The same, but with the release and the acquisition of the other instance between the snapshot
of the heartbeat and its write. -/
def staleBeat : List (Pool.Move (locks "wfe")) :=
  [.spawn 0 (.acquire "a" "r"), .call 0 {}, .call 0 {}, .spawn 1 (.heartbeat "a"), .call 1 {},
    .spawn 0 (.release "a" "r"), .call 0 {}, .call 0 {}, .call 0 {},
    .spawn 0 (.acquire "b" "r"), .call 0 {}, .call 0 {}, .call 1 {}]

/-- A heartbeat with a stale snapshot takes the lock of another instance, without any failure. -/
theorem heartbeat_overwrites : ¬∀ P : Pool (locks "wfe"),
    Pool.Run Reliable (Pool.start (locks "wfe") .empty) P → Safe P := by
  intro hsafe
  have hfacts : (scheduled Reliable staleBeat).map (fun P =>
      decide (Holding P.trace "b" "r") && decide (P.shared.value "wfe" "r" = some "a")) =
      some true := by decide
  obtain ⟨P, hP, hvalues⟩ := Option.map_eq_some_iff.mp hfacts
  obtain ⟨hholding, hvalue⟩ : Holding P.trace "b" "r" ∧ P.shared.value "wfe" "r" = some "a" := by
    simpa using hvalues
  have hrun := Pool.run_of_schedule_decide (n := 2) (fun _ _ => rfl) (by rfl) hP
  have hheld := (hsafe P hrun).held "b" "r" hholding
  rw [hvalue] at hheld
  exact absurd hheld (by decide)

end Wfe.NatsLock
