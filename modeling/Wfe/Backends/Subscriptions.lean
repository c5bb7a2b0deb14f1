import Wfe.Library.Table
import Wfe.Models.Instance
import Mathlib.Data.List.Perm.Basic
import Mathlib.Data.List.Nodup

/-!
# Subscriptions in three stores

The repositories of event subscriptions of the in-memory, the SQLite and the Postgres provider. A
subscription is open until a worker claims it with a token, and is open again when the token is
cleared; once it is terminated it should stay so. The stores have their own ways to say this: in
memory, a terminated subscription has a reserved token; SQLite has a column for it; Postgres deletes
the row. The two SQL stores are one definition with the statements in which they differ for
parameters. What a column keeps of a value, and how the server compares times, is a parameter, too.

The registry is what all three are for. Every call that is proper in a registry has the same result
in all stores, and every other call has not: the stores agree on a sequence of calls if and only if
its calls are proper.

## Main definitions

* `Memory.answer`, `Dialect.answer`: the stores
* `Registry`: the subscriptions with what has become of them
* `Proper`: the calls for which the stores have one meaning
* `Uniform`: the stores agree on a sequence of calls, and what is terminated stays so

## Main results

* `uniform_iff_proper`: exactly the sequences of proper calls are uniform
* `claimed_after_termination`: SQLite lets a worker claim what has been terminated
-/

namespace Wfe.Subscriptions

/-! ## Calls and results -/

/-- The calls; `generated` is the UUID that is drawn for a subscription without an id. -/
inductive Call
  | createEventSubscription (s : EventSubscription) (generated : String)
  | getSubscriptions (eventName eventKey : String) (asOf : DateTime)
  | getFirstOpenSubscription (eventName eventKey : String) (asOf : DateTime)
  | getSubscription (id : String)
  | setSubscriptionToken (id token workerId : String) (expiry : DateTime)
  | clearSubscriptionToken (id token : String)
  | terminateSubscription (id : String)
deriving DecidableEq, Repr

inductive Result
  | created (r : Except WfeError String)
  | listed (r : Except WfeError (List EventSubscription))
  | first (r : Except WfeError (Option EventSubscription))
  | loaded (r : Except WfeError EventSubscription)
  | claimed (r : Except WfeError Bool)
  | cleared (r : Except WfeError Unit)
  | terminated (r : Except WfeError Unit)

/-- What a call leaves, with its result as one of any call. -/
def tagged {α σ : Type} (tag : Except WfeError α → Result) (r : Except WfeError α × σ) :
    Result × σ := (tag r.1, r.2)

/-- The id under which a subscription is stored. -/
def storedId (s : EventSubscription) (generated : String) : String :=
  if s.id = "" then generated else s.id

/-- A worker claims the subscription. -/
def claim (token workerId : String) (expiry : DateTime) (s : EventSubscription) :
    EventSubscription :=
  { s with
    externalToken := some token, externalWorkerId := some workerId,
    externalTokenExpiry := some expiry }

def unclaim (s : EventSubscription) : EventSubscription :=
  { s with externalToken := none, externalWorkerId := none, externalTokenExpiry := none }

/-- The subscription is for events of this name and key. -/
def isFor (eventName eventKey : String) (s : EventSubscription) : Bool :=
  s.eventName = eventName ∧ s.eventKey = eventKey

/-- Any one of the records found: which one is up to the order in which the store has them. -/
def pick {ρ : Type} (n : ℕ) (found : List ρ) : Option ρ := found[n % found.length]?

/-! ## The in-memory store -/

namespace Memory

variable (n : ℕ) (subs : List EventSubscription)

/-- `get_mut`, and a change of what it finds. -/
def modify (id : String) (f : EventSubscription → EventSubscription) : List EventSubscription :=
  subs.map fun s => if s.id = id then f s else s

/-- The subscription is for the event, and has no token. -/
def isOpen (eventName eventKey : String) (asOf : DateTime) (s : EventSubscription) : Bool :=
  isFor eventName eventKey s ∧ s.subscribeAsOf ≤ asOf ∧ s.externalToken = none

def createEventSubscription (s : EventSubscription) (generated : String) :
    Except WfeError String × List EventSubscription :=
  let id := storedId s generated
  (.ok id, Table.put EventSubscription.id { s with id } subs)

def getSubscriptions (eventName eventKey : String) (asOf : DateTime) :
    Except WfeError (List EventSubscription) :=
  .ok (subs.filter (isOpen eventName eventKey asOf))

def terminateSubscription (id : String) : Except WfeError Unit × List EventSubscription :=
  match Table.get EventSubscription.id subs id with
  | some _ => (.ok (), modify subs id fun s => { s with externalToken := some "__terminated__" })
  | none => (.error (.subscriptionNotFound id), subs)

def getSubscription (id : String) : Except WfeError EventSubscription :=
  match Table.get EventSubscription.id subs id with
  | some s => .ok s
  | none => .error (.subscriptionNotFound id)

def getFirstOpenSubscription (eventName eventKey : String) (asOf : DateTime) :
    Except WfeError (Option EventSubscription) :=
  .ok (pick n (subs.filter (isOpen eventName eventKey asOf)))

def setSubscriptionToken (id token workerId : String) (expiry : DateTime) :
    Except WfeError Bool × List EventSubscription :=
  match Table.get EventSubscription.id subs id with
  | some s =>
    if s.externalToken.isSome then (.ok false, subs)
    else (.ok true, modify subs id (claim token workerId expiry))
  | none => (.error (.subscriptionNotFound id), subs)

def clearSubscriptionToken (id token : String) : Except WfeError Unit × List EventSubscription :=
  match Table.get EventSubscription.id subs id with
  | some s =>
    if s.externalToken ≠ some token then
      (.error (.persistence s!"Token mismatch for subscription {id}"), subs)
    else (.ok (), modify subs id unclaim)
  | none => (.error (.subscriptionNotFound id), subs)

def answer : Call → Result × List EventSubscription
  | .createEventSubscription s generated =>
    tagged .created (createEventSubscription subs s generated)
  | .getSubscriptions eventName eventKey asOf =>
    (.listed (getSubscriptions subs eventName eventKey asOf), subs)
  | .getFirstOpenSubscription eventName eventKey asOf =>
    (.first (getFirstOpenSubscription n subs eventName eventKey asOf), subs)
  | .getSubscription id => (.loaded (getSubscription subs id), subs)
  | .setSubscriptionToken id token workerId expiry =>
    tagged .claimed (setSubscriptionToken subs id token workerId expiry)
  | .clearSubscriptionToken id token => tagged .cleared (clearSubscriptionToken subs id token)
  | .terminateSubscription id => tagged .terminated (terminateSubscription subs id)

end Memory

/-! ## The SQL stores -/

/-- What a server makes of values: what is read of a time or a document that has been written, how
it compares a time in a column with a bound, and its message for a primary key that is in use. -/
structure Columns where
  time : DateTime → DateTime
  notAfter : DateTime → DateTime → Bool
  document : Json → Json
  duplicate : String

/-- `UPDATE … WHERE p`, with the number of rows affected. -/
def update {ρ : Type} (p : ρ → Bool) (f : ρ → ρ) (rows : List ρ) : ℕ × List ρ :=
  (rows.countP p, rows.map fun r => if p r then f r else r)

/-- `DELETE … WHERE p`, with the number of rows affected. -/
def delete {ρ : Type} (p : ρ → Bool) (rows : List ρ) : ℕ × List ρ :=
  (rows.countP p, rows.filter fun r => !p r)

/-- What differs between the SQL stores: their rows, what `get_subscriptions` and
`get_first_open_subscription` ask of a row besides its event, how a subscription is terminated, and
the type of the column for the step. -/
structure Dialect (ρ : Type) where
  sub : ρ → EventSubscription
  modify : (EventSubscription → EventSubscription) → ρ → ρ
  insert : EventSubscription → ρ
  isActive : ρ → Bool
  isOpen : ρ → Bool
  terminate : String → List ρ → ℕ × List ρ
  stepId : ℕ → ℕ

namespace Dialect

variable {ρ : Type} (D : Dialect ρ) (cols : Columns) (n : ℕ) (rows : List ρ)

/-- What is read of a subscription that has been inserted. -/
def kept (s : EventSubscription) : EventSubscription :=
  { s with
    stepId := D.stepId s.stepId, subscribeAsOf := cols.time s.subscribeAsOf
    subscriptionData := s.subscriptionData.map cols.document
    externalTokenExpiry := s.externalTokenExpiry.map cols.time }

def hasId (id : String) (r : ρ) : Bool := (D.sub r).id = id

/-- The row is for the event. -/
def isFor (eventName eventKey : String) (asOf : DateTime) (r : ρ) : Bool :=
  Subscriptions.isFor eventName eventKey (D.sub r) ∧ cols.notAfter (D.sub r).subscribeAsOf asOf

def createEventSubscription (s : EventSubscription) (generated : String) :
    Except WfeError String × List ρ :=
  let id := storedId s generated
  if rows.any (D.hasId id) then (.error (.persistence cols.duplicate), rows)
  else (.ok id, rows ++ [D.insert (D.kept cols { s with id })])

def getSubscriptions (eventName eventKey : String) (asOf : DateTime) :
    Except WfeError (List EventSubscription) :=
  .ok ((rows.filter fun r => D.isFor cols eventName eventKey asOf r && D.isActive r).map D.sub)

def terminateSubscription (id : String) : Except WfeError Unit × List ρ :=
  let result := D.terminate id rows
  if result.1 = 0 then (.error (.subscriptionNotFound id), result.2) else (.ok (), result.2)

def getSubscription (id : String) : Except WfeError EventSubscription :=
  match rows.find? (D.hasId id) with
  | some r => .ok (D.sub r)
  | none => .error (.subscriptionNotFound id)

def getFirstOpenSubscription (eventName eventKey : String) (asOf : DateTime) :
    Except WfeError (Option EventSubscription) :=
  .ok ((pick n (rows.filter fun r => D.isFor cols eventName eventKey asOf r && D.isOpen r)).map
    D.sub)

/-- Sets the token if there is none. -/
def setSubscriptionToken (id token workerId : String) (expiry : DateTime) :
    Except WfeError Bool × List ρ :=
  let result := update (fun r => D.hasId id r && (D.sub r).externalToken.isNone)
    (D.modify (claim token workerId (cols.time expiry))) rows
  if result.1 = 0 then
    if result.2.any (D.hasId id) then (.ok false, result.2)
    else (.error (.subscriptionNotFound id), result.2)
  else (.ok true, result.2)

def clearSubscriptionToken (id token : String) : Except WfeError Unit × List ρ :=
  let result := update (fun r => D.hasId id r && (D.sub r).externalToken = some token)
    (D.modify unclaim) rows
  if result.1 = 0 then (.error (.subscriptionNotFound id), result.2) else (.ok (), result.2)

def answer : Call → Result × List ρ
  | .createEventSubscription s generated =>
    tagged .created (D.createEventSubscription cols rows s generated)
  | .getSubscriptions eventName eventKey asOf =>
    (.listed (D.getSubscriptions cols rows eventName eventKey asOf), rows)
  | .getFirstOpenSubscription eventName eventKey asOf =>
    (.first (D.getFirstOpenSubscription cols n rows eventName eventKey asOf), rows)
  | .getSubscription id => (.loaded (D.getSubscription rows id), rows)
  | .setSubscriptionToken id token workerId expiry =>
    tagged .claimed (D.setSubscriptionToken cols rows id token workerId expiry)
  | .clearSubscriptionToken id token => tagged .cleared (D.clearSubscriptionToken rows id token)
  | .terminateSubscription id => tagged .terminated (D.terminateSubscription rows id)

end Dialect

/-- A row of SQLite has a column `terminated`. -/
structure Row where
  sub : EventSubscription
  terminated : Bool
deriving DecidableEq, Repr

/-- Terminated subscriptions keep their rows; those that are listed may be claimed. The column for
the step has 64 bits. -/
def sqlite : Dialect Row where
  sub := Row.sub
  modify f r := { r with sub := f r.sub }
  insert s := ⟨s, false⟩
  isActive r := !r.terminated
  isOpen r := !r.terminated && r.sub.externalToken.isNone
  terminate id := update (fun r => r.sub.id = id) fun r => { r with terminated := true }
  stepId n := n

/-- `n as i32`, and back `as usize`. -/
def asI32 (n : ℕ) : ℕ :=
  if n % 2 ^ 32 < 2 ^ 31 then n % 2 ^ 32 else n % 2 ^ 32 + (2 ^ 64 - 2 ^ 32)

/-- Terminated subscriptions lose their rows; those that are listed are open. -/
def postgres : Dialect EventSubscription where
  sub s := s
  modify f := f
  insert s := s
  isActive s := s.externalToken.isNone
  isOpen s := s.externalToken.isNone
  terminate id := delete fun s => s.id = id
  stepId := asI32

/-! ## What is claimed -/

/-- The results of a sequence of calls; `o` decides which records the store has first. -/
def results {σ : Type} (answer : ℕ → σ → Call → Result × σ) : (ℕ → ℕ) → σ → List Call → List Result
  | _, _, [] => []
  | o, s, c :: calls =>
    (answer (o 0) s c).1 :: results answer (fun k => o (k + 1)) (answer (o 0) s c).2 calls

/-- Errors are the same up to their kind. -/
def Same {α : Type} (R : α → α → Prop) : Except WfeError α → Except WfeError α → Prop
  | .ok a, .ok b => R a b
  | .error e, .error e' => e.ctorIdx = e'.ctorIdx
  | .ok _, .error _ | .error _, .ok _ => False

/-- Results agree if they are the same, lists up to their order. -/
def Result.Agree : Result → Result → Prop
  | .created r, .created r' => Same Eq r r'
  | .listed r, .listed r' => Same List.Perm r r'
  | .first r, .first r' => Same Eq r r'
  | .loaded r, .loaded r' => Same Eq r r'
  | .claimed r, .claimed r' => Same Eq r r'
  | .cleared r, .cleared r' => Same Eq r r'
  | .terminated r, .terminated r' => Same Eq r r'
  | _, _ => False

/-- The result shows the subscription open, or lets a worker claim it. -/
def Opens (id : String) : Call × Result → Prop
  | (.setSubscriptionToken id' _ _ _, .claimed (.ok true)) => id' = id
  | (_, .listed (.ok found)) => ∃ s ∈ found, s.id = id
  | (_, .first (.ok (some s))) => s.id = id
  | _ => False

/-- After a subscription has been terminated, no result shows it open or lets a worker claim it. -/
def Final (calls : List Call) (rs : List Result) : Prop :=
  (calls.zip rs).Pairwise fun x y =>
    ∀ id, x = (.terminateSubscription id, .terminated (.ok ())) → ¬Opens id y

/-- The three stores agree on a sequence of calls, in whatever order they have their records, and
in all of them what is terminated stays so. -/
def Uniform (lite pg : Columns) (calls : List Call) : Prop :=
  ∀ o₁ o₂ o₃ : ℕ → ℕ,
    let memory := results Memory.answer o₁ [] calls
    let sqlite := results (sqlite.answer lite) o₂ [] calls
    let postgres := results (postgres.answer pg) o₃ [] calls
    (List.Forall₂ Result.Agree memory sqlite ∧ List.Forall₂ Result.Agree sqlite postgres ∧
      List.Forall₂ Result.Agree memory postgres) ∧
    Final calls memory ∧ Final calls sqlite ∧ Final calls postgres

/-! ## The registry -/

/-- The subscriptions that there have been, with what has become of them. -/
abbrev Registry := List Row

namespace Registry

variable (g : Registry)

def get (id : String) : Option Row := Table.get (fun r => r.sub.id) g id

def modify (id : String) (f : Row → Row) : Registry :=
  g.map fun r => if r.sub.id = id then f r else r

/-- The subscriptions that have not been terminated. -/
def live : List EventSubscription := (g.filter fun r => !r.terminated).map Row.sub

/-- The open subscriptions for an event. -/
def openFor (eventName eventKey : String) (asOf : DateTime) : List EventSubscription :=
  (live g).filter (Memory.isOpen eventName eventKey asOf)

/-- What a proper call is to do. -/
def answer : Call → Result × Registry
  | .createEventSubscription s generated =>
    (.created (.ok (storedId s generated)), g ++ [⟨{ s with id := storedId s generated }, false⟩])
  | .getSubscriptions eventName eventKey asOf =>
    (.listed (.ok (openFor g eventName eventKey asOf)), g)
  | .getFirstOpenSubscription eventName eventKey asOf =>
    (.first (.ok (openFor g eventName eventKey asOf).head?), g)
  | .getSubscription id =>
    match get g id with
    | none => (.loaded (.error (.subscriptionNotFound id)), g)
    | some r => (.loaded (.ok r.sub), g)
  | .setSubscriptionToken id token workerId expiry =>
    match get g id with
    | none => (.claimed (.error (.subscriptionNotFound id)), g)
    | some r =>
      if r.sub.externalToken.isSome then (.claimed (.ok false), g)
      else
        (.claimed (.ok true),
          modify g id fun r => { r with sub := claim token workerId expiry r.sub })
  | .clearSubscriptionToken id _ =>
    match get g id with
    | none => (.cleared (.error (.subscriptionNotFound id)), g)
    | some _ => (.cleared (.ok ()), modify g id fun r => { r with sub := unclaim r.sub })
  | .terminateSubscription id =>
    match get g id with
    | none => (.terminated (.error (.subscriptionNotFound id)), g)
    | some _ => (.terminated (.ok ()), modify g id fun r => { r with terminated := true })

/-- The calls that have one meaning: a subscription has a new id; it is not asked for what has been
terminated; claimed subscriptions are not for the events that are asked for, and at most one is open
for them if only one is asked for; and only the token that is there is cleared. -/
def Proper : Call → Prop
  | .createEventSubscription s generated => ∀ r ∈ g, r.sub.id ≠ storedId s generated
  | .getSubscriptions eventName eventKey asOf => ∀ s ∈ live g, isFor eventName eventKey s →
      s.subscribeAsOf ≤ asOf → s.externalToken = none
  | .getFirstOpenSubscription eventName eventKey asOf =>
    (openFor g eventName eventKey asOf).length ≤ 1
  | .getSubscription id | .setSubscriptionToken id _ _ _ | .terminateSubscription id =>
    ∀ r ∈ g, r.sub.id = id → r.terminated = false
  | .clearSubscriptionToken id token => ∀ r ∈ g, r.sub.id = id →
      r.terminated = false ∧ r.sub.externalToken = some token

/-- All calls of a sequence are proper. -/
def ProperRun : Registry → List Call → Prop
  | _, [] => True
  | g, c :: calls => Proper g c ∧ ProperRun (answer g c).2 calls

end Registry

/-- The columns keep these times and documents as they are, and times are compared as such. -/
structure Columns.Exact (cols : Columns) (times : DateTime → Prop) (documents : Json → Prop) :
    Prop where
  time : ∀ t, times t → cols.time t = t
  notAfter : ∀ t u, times t → times u → cols.notAfter t u = decide (t ≤ u)
  document : ∀ d, documents d → cols.document d = d

/-- The times and documents of a call are among these, and its step is in the range of a signed
32-bit integer. -/
def Call.Within (times : DateTime → Prop) (documents : Json → Prop) : Call → Prop
  | .createEventSubscription s _ => times s.subscribeAsOf ∧
      (∀ t ∈ s.externalTokenExpiry, times t) ∧ (∀ d ∈ s.subscriptionData, documents d) ∧
      s.stepId < 2 ^ 31
  | .getSubscriptions _ _ asOf | .getFirstOpenSubscription _ _ asOf => times asOf
  | .setSubscriptionToken _ _ _ expiry => times expiry
  | .getSubscription _ | .clearSubscriptionToken _ _ | .terminateSubscription _ => True

/-! ## One subscription of a SQL store -/

namespace Dialect

variable {ρ : Type} {D : Dialect ρ} {cols : Columns} {id token workerId : String}
  {expiry : DateTime}

section Absent

variable {rows : List ρ} (h : ∀ r ∈ rows, D.hasId id r = false)
include h

theorem any_hasId_of_absent : rows.any (D.hasId id) = false := by simpa using h

theorem update_of_absent (p : ρ → Bool) (f : ρ → ρ) :
    update (fun r => D.hasId id r && p r) f rows = (0, rows) := by
  have hcount : rows.countP (fun r => D.hasId id r && p r) = 0 :=
    List.countP_eq_zero.mpr fun r hr => by simp [h r hr]
  have hmap : rows.map (fun r => if D.hasId id r && p r then f r else r) = rows := by
    conv_rhs => rw [← List.map_id rows]
    exact List.map_congr_left fun r hr => by simp [h r hr]
  rw [update, hcount, hmap]

theorem getSubscription_of_absent :
    D.getSubscription rows id = .error (.subscriptionNotFound id) := by
  have hfind : rows.find? (D.hasId id) = none :=
    List.find?_eq_none.mpr fun r hr => by simp [h r hr]
  rw [getSubscription, hfind]

theorem setSubscriptionToken_of_absent : D.setSubscriptionToken cols rows id token workerId expiry =
    (.error (.subscriptionNotFound id), rows) := by
  simp only [setSubscriptionToken, update_of_absent h, any_hasId_of_absent h]
  simp

theorem clearSubscriptionToken_of_absent :
    D.clearSubscriptionToken rows id token = (.error (.subscriptionNotFound id), rows) := by
  simp [clearSubscriptionToken, update_of_absent h]

end Absent

section Present

variable {r₁ r₂ : List ρ} {r : ρ} (hr : D.hasId id r = true)
  (h : ∀ b ∈ r₁ ++ r₂, D.hasId id b = false)
include hr h

theorem getSubscription_of_present : D.getSubscription (r₁ ++ r :: r₂) id = .ok (D.sub r) := by
  rw [getSubscription, Table.find?_single h, if_pos hr]

theorem update_of_present (p : ρ → Bool) (f : ρ → ρ) :
    update (fun b => D.hasId id b && p b) f (r₁ ++ r :: r₂) =
      if p r then (1, r₁ ++ f r :: r₂) else (0, r₁ ++ r :: r₂) := by
  have hp : ∀ b ∈ r₁ ++ r₂, (D.hasId id b && p b) = false := fun b hb => by simp [h b hb]
  rw [update, Table.countP_single hp, Table.map_single hp, hr, Bool.true_and]
  cases p r <;> rfl

theorem setSubscriptionToken_of_present :
    D.setSubscriptionToken cols (r₁ ++ r :: r₂) id token workerId expiry =
      if (D.sub r).externalToken.isSome then (.ok false, r₁ ++ r :: r₂)
      else (.ok true, r₁ ++ D.modify (claim token workerId (cols.time expiry)) r :: r₂) := by
  simp only [setSubscriptionToken, update_of_present hr h]
  cases htoken : (D.sub r).externalToken <;> simp [hr]

theorem clearSubscriptionToken_of_present :
    D.clearSubscriptionToken (r₁ ++ r :: r₂) id token =
      if (D.sub r).externalToken = some token then (.ok (), r₁ ++ D.modify unclaim r :: r₂)
      else (.error (.subscriptionNotFound id), r₁ ++ r :: r₂) := by
  simp only [clearSubscriptionToken, update_of_present hr h]
  by_cases htoken : (D.sub r).externalToken = some token <;> simp [htoken]

end Present

end Dialect

/-! ## The registry under proper calls -/

section Pick

variable {ρ τ : Type}

theorem pick_map (n : ℕ) (found : List ρ) (f : ρ → τ) :
    pick n (found.map f) = (pick n found).map f := by simp [pick]

theorem pick_eq_head? {found : List ρ} (h : found.length ≤ 1) (n : ℕ) :
    pick n found = found.head? := by
  rcases found with _ | ⟨r, _ | ⟨r', rest⟩⟩
  · rfl
  · simp [pick, Nat.mod_one]
  · simp at h

end Pick

namespace Registry

variable {g g₁ g₂ : Registry} {r : Row} {id : String} {times : DateTime → Prop}
  {documents : Json → Prop} {c : Call}

/-- Ids are distinct, and the times are among those that all columns keep. -/
structure Valid (times : DateTime → Prop) (g : Registry) : Prop where
  nodup : (g.map fun r => r.sub.id).Nodup
  times : ∀ r ∈ g, times r.sub.subscribeAsOf

/-- There is one subscription of an id, or there is none. -/
theorem Valid.split (h : Valid times g) (id : String) : (∀ r ∈ g, r.sub.id ≠ id) ∨
    ∃ g₁ r g₂, g = g₁ ++ r :: g₂ ∧ r.sub.id = id ∧ ∀ b ∈ g₁ ++ g₂, b.sub.id ≠ id :=
  Table.split h.nodup id

theorem get_of_absent (h : ∀ r ∈ g, r.sub.id ≠ id) : get g id = none := Table.get_eq_none.mpr h

section Present

variable (hr : r.sub.id = id) (h : ∀ b ∈ g₁ ++ g₂, b.sub.id ≠ id)
include hr h

theorem get_of_present : get (g₁ ++ r :: g₂) id = some r := by
  rw [get, Table.get, Table.find?_single (by simpa using h)]
  simp [hr]

theorem modify_of_present (f : Row → Row) : modify (g₁ ++ r :: g₂) id f = g₁ ++ f r :: g₂ := by
  have hsingle := Table.map_single (a := r) (p := fun b : Row => b.sub.id = id) (by simpa using h) f
  simpa [modify, hr] using hsingle

end Present

/-- What a call does to the registry: nothing, or it adds a subscription, or it changes one, which
keeps its id and its time and stays terminated. -/
theorem Valid.answer_cases (h : Valid times g) (c : Call) : (answer g c).2 = g ∨
    (∃ s generated, c = .createEventSubscription s generated ∧
      (answer g c).2 = g ++ [⟨{ s with id := storedId s generated }, false⟩]) ∨
    ∃ g₁ r g₂ r', g = g₁ ++ r :: g₂ ∧ (answer g c).2 = g₁ ++ r' :: g₂ ∧ r'.sub.id = r.sub.id ∧
      r'.sub.subscribeAsOf = r.sub.subscribeAsOf ∧
      (r.terminated = true → r'.terminated = true) := by
  cases c with
  | createEventSubscription s generated => exact .inr (.inl ⟨s, generated, rfl, rfl⟩)
  | getSubscriptions eventName eventKey asOf => exact .inl rfl
  | getFirstOpenSubscription eventName eventKey asOf => exact .inl rfl
  | getSubscription id =>
    simp only [Registry.answer]
    split <;> exact .inl rfl
  | setSubscriptionToken id token workerId expiry =>
    rcases h.split id with habsent | ⟨g₁, r, g₂, rfl, hid, hothers⟩
    · simp [Registry.answer, get_of_absent habsent]
    · simp only [Registry.answer, get_of_present hid hothers, modify_of_present hid hothers]
      split
      · exact .inl rfl
      · exact .inr (.inr ⟨g₁, r, g₂, _, rfl, rfl, rfl, rfl, fun ht => ht⟩)
  | clearSubscriptionToken id token =>
    rcases h.split id with habsent | ⟨g₁, r, g₂, rfl, hid, hothers⟩
    · simp [Registry.answer, get_of_absent habsent]
    · simp only [Registry.answer, get_of_present hid hothers, modify_of_present hid hothers]
      exact .inr (.inr ⟨g₁, r, g₂, _, rfl, rfl, rfl, rfl, fun ht => ht⟩)
  | terminateSubscription id =>
    rcases h.split id with habsent | ⟨g₁, r, g₂, rfl, hid, hothers⟩
    · simp [Registry.answer, get_of_absent habsent]
    · simp only [Registry.answer, get_of_present hid hothers, modify_of_present hid hothers]
      exact .inr (.inr ⟨g₁, r, g₂, _, rfl, rfl, rfl, rfl, fun _ => rfl⟩)

/-- Proper calls keep the registry valid. -/
theorem Valid.answer (h : Valid times g) (hc : c.Within times documents) (hproper : Proper g c) :
    Valid times (answer g c).2 := by
  rcases h.answer_cases c with hsame | ⟨s, generated, rfl, hnew⟩ |
    ⟨g₁, r, g₂, r', rfl, hchanged, hid, htime, -⟩
  · rwa [hsame]
  · rw [hnew]
    refine ⟨?_, fun r hr => ?_⟩
    · rw [List.map_append]
      refine List.nodup_append.mpr ⟨h.nodup, List.nodup_singleton _, ?_⟩
      rintro _ hx _ hy
      obtain ⟨r, hr, rfl⟩ := List.mem_map.mp hx
      rw [List.mem_singleton.mp hy]
      exact hproper r hr
    · rcases List.mem_append.mp hr with hr | hr
      · exact h.times r hr
      · rw [List.mem_singleton.mp hr]
        exact hc.1
  · rw [hchanged]
    refine ⟨?_, fun b hb => ?_⟩
    · have hnodup := h.nodup
      simp only [List.map_append, List.map_cons, hid] at hnodup ⊢
      exact hnodup
    · rcases List.mem_append.mp hb with hb | hb
      · exact h.times b (List.mem_append_left _ hb)
      · rcases List.mem_cons.mp hb with rfl | hb
        · rw [htime]
          exact h.times r (by simp)
        · exact h.times b (by simp [hb])

end Registry

/-! ## Refinement -/

section Refinement

variable {g : Registry} {times : DateTime → Prop} {documents : Json → Prop} {c : Call}
  {lite pg : Columns}

/-- What all columns keep is read as it has been written. -/
theorem Dialect.kept_eq {ρ : Type} {D : Dialect ρ} {cols : Columns} {s : EventSubscription}
    (hcols : cols.Exact times documents) {generated : String}
    (hs : (Call.createEventSubscription s generated).Within times documents)
    (hstep : D.stepId s.stepId = s.stepId) (id : String) :
    D.kept cols { s with id } = { s with id } := by
  obtain ⟨htime, hexpiry, hdata, -⟩ := hs
  have hexpiry' : s.externalTokenExpiry.map cols.time = s.externalTokenExpiry := by
    cases hs : s.externalTokenExpiry with
    | none => rfl
    | some t => simp [hcols.time t (hexpiry t hs)]
  have hdata' : s.subscriptionData.map cols.document = s.subscriptionData := by
    cases hs : s.subscriptionData with
    | none => rfl
    | some d => simp [hcols.document d (hdata d hs)]
  simp [kept, hstep, hcols.time _ htime, hexpiry', hdata']

theorem asI32_of_lt {n : ℕ} (h : n < 2 ^ 31) : asI32 n = n := by
  have hmod : n % 2 ^ 32 = n := Nat.mod_eq_of_lt (by omega)
  rw [asI32, hmod, if_pos h]

theorem Registry.openFor_eq (g : Registry) (eventName eventKey : String) (asOf : DateTime) :
    openFor g eventName eventKey asOf = (g.filter fun r =>
      Memory.isOpen eventName eventKey asOf r.sub && !r.terminated).map Row.sub := by
  rw [openFor, live, List.filter_map, List.filter_filter]
  rfl

theorem Registry.mem_live {g : Registry} {s : EventSubscription} :
    s ∈ live g ↔ ∃ r ∈ g, r.terminated = false ∧ r.sub = s := by
  simp [live, and_assoc]

/-- The open rows for an event are found by SQLite, too. -/
theorem sqlite_open (hcols : lite.Exact times documents) (hg : g.Valid times) {asOf : DateTime}
    (hasOf : times asOf) (eventName eventKey : String) :
    (g.filter fun r => sqlite.isFor lite eventName eventKey asOf r && sqlite.isOpen r).map Row.sub =
      g.openFor eventName eventKey asOf := by
  rw [Registry.openFor_eq]
  congr 1
  refine List.filter_congr fun r hr => ?_
  have hnotAfter := hcols.notAfter _ _ (hg.times r hr) hasOf
  rw [Bool.eq_iff_iff]
  simp [Dialect.isFor, sqlite, Memory.isOpen, hnotAfter]
  tauto

/-- SQLite lists the claimed rows as well, but there are none. -/
theorem sqlite_active (hcols : lite.Exact times documents) (hg : g.Valid times) {asOf : DateTime}
    (hasOf : times asOf) {eventName eventKey : String}
    (hproper : g.Proper (.getSubscriptions eventName eventKey asOf)) :
    (g.filter fun r => sqlite.isFor lite eventName eventKey asOf r && sqlite.isActive r).map
      Row.sub = g.openFor eventName eventKey asOf := by
  rw [Registry.openFor_eq]
  congr 1
  refine List.filter_congr fun r hr => ?_
  have hnotAfter := hcols.notAfter _ _ (hg.times r hr) hasOf
  have hopen (hlive : r.terminated = false) (hfor : isFor eventName eventKey r.sub)
      (hle : r.sub.subscribeAsOf ≤ asOf) : r.sub.externalToken = none :=
    hproper r.sub (Registry.mem_live.mpr ⟨r, hr, hlive, rfl⟩) hfor hle
  rw [Bool.eq_iff_iff]
  simp [Dialect.isFor, sqlite, Memory.isOpen, hnotAfter]
  tauto

theorem sqlite_hasId {id : String} {r : Row} (h : r.sub.id = id) : sqlite.hasId id r = true :=
  decide_eq_true h

theorem sqlite_not_hasId {id : String} {l : List Row} (h : ∀ r ∈ l, r.sub.id ≠ id) :
    ∀ r ∈ l, sqlite.hasId id r = false := fun r hr => decide_eq_false (h r hr)

theorem sqlite_terminate (id : String) (rows : List Row) : sqlite.terminate id rows =
    update (fun r => sqlite.hasId id r && true) (fun r => { r with terminated := true }) rows := by
  simp only [Bool.and_true]
  rfl

/-- The rows of SQLite are the registry. -/
theorem sqlite_refines (hcols : lite.Exact times documents) (hg : g.Valid times)
    (hc : c.Within times documents) (hproper : g.Proper c) (n : ℕ) :
    sqlite.answer lite n g c = g.answer c := by
  cases c with
  | createEventSubscription s generated =>
    have hany := Dialect.any_hasId_of_absent (sqlite_not_hasId hproper)
    simp only [Dialect.answer, Dialect.createEventSubscription, hany, Registry.answer, tagged,
      Dialect.kept_eq (D := sqlite) hcols hc rfl]
    rfl
  | getSubscriptions eventName eventKey asOf =>
    rw [Dialect.answer, Dialect.getSubscriptions, Registry.answer,
      ← sqlite_active hcols hg hc hproper]
    rfl
  | getFirstOpenSubscription eventName eventKey asOf =>
    rw [Dialect.answer, Dialect.getFirstOpenSubscription, Registry.answer, ← pick_map,
      ← pick_eq_head? hproper n, ← sqlite_open hcols hg hc]
    rfl
  | getSubscription id =>
    -- From here on there is no row with the id, or a single one among the others.
    rcases hg.split id with habsent | ⟨g₁, r, g₂, rfl, hid, hothers⟩
    · simp only [Dialect.answer, Dialect.getSubscription_of_absent (sqlite_not_hasId habsent),
        Registry.answer, Registry.get_of_absent habsent]
    · simp only [Dialect.answer, Registry.answer, Registry.get_of_present hid hothers,
        Dialect.getSubscription_of_present (sqlite_hasId hid) (sqlite_not_hasId hothers)]
      rfl
  | setSubscriptionToken id token workerId expiry =>
    rcases hg.split id with habsent | ⟨g₁, r, g₂, rfl, hid, hothers⟩
    · simp only [Dialect.answer, Dialect.setSubscriptionToken_of_absent (sqlite_not_hasId habsent),
        Registry.answer, Registry.get_of_absent habsent, tagged]
    · simp only [Dialect.answer, Registry.answer, Registry.get_of_present hid hothers, tagged,
        Dialect.setSubscriptionToken_of_present (sqlite_hasId hid) (sqlite_not_hasId hothers),
        Registry.modify_of_present hid hothers, hcols.time _ hc]
      split <;> simp_all [sqlite]
  | clearSubscriptionToken id token =>
    rcases hg.split id with habsent | ⟨g₁, r, g₂, rfl, hid, hothers⟩
    · simp only [Dialect.answer,
        Dialect.clearSubscriptionToken_of_absent (sqlite_not_hasId habsent), Registry.answer,
        Registry.get_of_absent habsent, tagged]
    · have htoken := (hproper r (by simp) hid).2
      simp only [Dialect.answer, Registry.answer, Registry.get_of_present hid hothers, tagged,
        Dialect.clearSubscriptionToken_of_present (sqlite_hasId hid) (sqlite_not_hasId hothers),
        Registry.modify_of_present hid hothers]
      simp [sqlite, htoken]
  | terminateSubscription id =>
    simp only [Dialect.answer, Dialect.terminateSubscription, sqlite_terminate]
    rcases hg.split id with habsent | ⟨g₁, r, g₂, rfl, hid, hothers⟩
    · rw [Dialect.update_of_absent (sqlite_not_hasId habsent)]
      simp [Registry.answer, Registry.get_of_absent habsent, tagged]
    · rw [Dialect.update_of_present (sqlite_hasId hid) (sqlite_not_hasId hothers)]
      simp [Registry.answer, Registry.get_of_present hid hothers,
        Registry.modify_of_present hid hothers, tagged]

section Postgres

variable {g₁ g₂ : Registry} {r : Row} {id : String}

theorem Registry.live_split (hlive : r.terminated = false) :
    live (g₁ ++ r :: g₂) = live g₁ ++ r.sub :: live g₂ := by
  simp [live, hlive]

theorem postgres_hasId {s : EventSubscription} (h : s.id = id) : postgres.hasId id s = true :=
  decide_eq_true h

theorem postgres_not_hasId (h : ∀ r ∈ g, r.sub.id ≠ id) :
    ∀ s ∈ g.live, postgres.hasId id s = false := fun s hs => by
  obtain ⟨r, hr, -, rfl⟩ := Registry.mem_live.mp hs
  exact decide_eq_false (h r hr)

theorem postgres_not_hasId_split (h : ∀ r ∈ g₁ ++ g₂, r.sub.id ≠ id) :
    ∀ s ∈ Registry.live g₁ ++ Registry.live g₂, postgres.hasId id s = false := fun s hs => by
  rcases List.mem_append.mp hs with hs | hs
  · exact postgres_not_hasId (fun r hr => h r (List.mem_append_left _ hr)) s hs
  · exact postgres_not_hasId (fun r hr => h r (List.mem_append_right _ hr)) s hs

theorem postgres_open (hcols : pg.Exact times documents) (hg : g.Valid times) {asOf : DateTime}
    (hasOf : times asOf) (eventName eventKey : String) :
    (g.live.filter fun s => postgres.isFor pg eventName eventKey asOf s && postgres.isOpen s) =
      g.openFor eventName eventKey asOf := by
  refine List.filter_congr fun s hs => ?_
  obtain ⟨r, hr, -, rfl⟩ := Registry.mem_live.mp hs
  have hnotAfter := hcols.notAfter _ _ (hg.times r hr) hasOf
  rw [Bool.eq_iff_iff]
  simp [Dialect.isFor, postgres, Memory.isOpen, hnotAfter, and_assoc]

theorem postgres_terminate_of_absent {rows : List EventSubscription}
    (h : ∀ s ∈ rows, postgres.hasId id s = false) : postgres.terminate id rows = (0, rows) := by
  have hcount : rows.countP (postgres.hasId id) = 0 :=
    List.countP_eq_zero.mpr fun s hs => by simp [h s hs]
  have hfilter : (rows.filter fun s => !postgres.hasId id s) = rows :=
    List.filter_eq_self.mpr fun s hs => by simp [h s hs]
  exact Prod.ext hcount hfilter

theorem postgres_terminate_of_present (hid : r.sub.id = id)
    (h : ∀ b ∈ g₁ ++ g₂, b.sub.id ≠ id) :
    postgres.terminate id (Registry.live g₁ ++ r.sub :: Registry.live g₂) =
      (1, Registry.live g₁ ++ Registry.live g₂) := by
  have hnot := postgres_not_hasId_split h
  have hcount := Table.countP_single (a := r.sub) hnot
  have hfilter := Table.filter_single (a := r.sub) hnot
  rw [postgres_hasId hid, if_pos rfl] at hcount hfilter
  exact Prod.ext hcount hfilter

/-- The rows of Postgres are the subscriptions that have not been terminated. -/
theorem postgres_refines (hcols : pg.Exact times documents) (hg : g.Valid times)
    (hc : c.Within times documents) (hproper : g.Proper c) (n : ℕ) :
    postgres.answer pg n g.live c = ((g.answer c).1, (g.answer c).2.live) := by
  cases c with
  | createEventSubscription s generated =>
    have hany := Dialect.any_hasId_of_absent (postgres_not_hasId hproper)
    simp only [Dialect.answer, Dialect.createEventSubscription, hany, Registry.answer, tagged,
      Dialect.kept_eq (D := postgres) hcols hc (asI32_of_lt hc.2.2.2)]
    simp [Registry.live, postgres]
  | getSubscriptions eventName eventKey asOf =>
    rw [Dialect.answer, Dialect.getSubscriptions, Registry.answer, ← postgres_open hcols hg hc]
    simp [postgres]
  | getFirstOpenSubscription eventName eventKey asOf =>
    rw [Dialect.answer, Dialect.getFirstOpenSubscription, postgres_open hcols hg hc,
      pick_eq_head? hproper n]
    simp [postgres, Registry.answer]
  | getSubscription id =>
    -- From here on there is no row with the id, or a single one among the others.
    rcases hg.split id with habsent | ⟨g₁, r, g₂, rfl, hid, hothers⟩
    · simp only [Dialect.answer, Dialect.getSubscription_of_absent (postgres_not_hasId habsent),
        Registry.answer, Registry.get_of_absent habsent]
    · have hlive := hproper r (by simp) hid
      simp only [Dialect.answer, Registry.answer, Registry.get_of_present hid hothers,
        Registry.live_split hlive,
        Dialect.getSubscription_of_present (postgres_hasId hid) (postgres_not_hasId_split hothers)]
      rfl
  | setSubscriptionToken id token workerId expiry =>
    rcases hg.split id with habsent | ⟨g₁, r, g₂, rfl, hid, hothers⟩
    · simp only [Dialect.answer,
        Dialect.setSubscriptionToken_of_absent (postgres_not_hasId habsent), Registry.answer,
        Registry.get_of_absent habsent, tagged]
    · have hlive := hproper r (by simp) hid
      simp only [Dialect.answer, Registry.answer, Registry.get_of_present hid hothers, tagged,
        Registry.live_split hlive, Registry.modify_of_present hid hothers, hcols.time _ hc,
        Dialect.setSubscriptionToken_of_present (postgres_hasId hid)
          (postgres_not_hasId_split hothers)]
      split <;> simp_all [postgres, Registry.live_split]
  | clearSubscriptionToken id token =>
    rcases hg.split id with habsent | ⟨g₁, r, g₂, rfl, hid, hothers⟩
    · simp only [Dialect.answer, Registry.answer, Registry.get_of_absent habsent, tagged,
        Dialect.clearSubscriptionToken_of_absent (postgres_not_hasId habsent)]
    · obtain ⟨hlive, htoken⟩ := hproper r (by simp) hid
      simp only [Dialect.answer, Registry.answer, Registry.get_of_present hid hothers, tagged,
        Registry.live_split hlive, Registry.modify_of_present hid hothers,
        Dialect.clearSubscriptionToken_of_present (postgres_hasId hid)
          (postgres_not_hasId_split hothers)]
      simp [postgres, htoken, Registry.live_split, hlive]
  | terminateSubscription id =>
    rcases hg.split id with habsent | ⟨g₁, r, g₂, rfl, hid, hothers⟩
    · rw [Dialect.answer, Dialect.terminateSubscription,
        postgres_terminate_of_absent (postgres_not_hasId habsent)]
      simp [Registry.answer, Registry.get_of_absent habsent, tagged]
    · have hlive := hproper r (by simp) hid
      rw [Dialect.answer, Dialect.terminateSubscription, Registry.live_split hlive,
        postgres_terminate_of_present hid hothers]
      simp [Registry.answer, Registry.get_of_present hid hothers, tagged,
        Registry.modify_of_present hid hothers, Registry.live]

end Postgres

section Memory

variable {g₁ g₂ : Registry} {r : Row} {id : String}

/-- A terminated subscription has the reserved token. -/
def memoryOf (r : Row) : EventSubscription :=
  if r.terminated then { r.sub with externalToken := some "__terminated__" } else r.sub

@[simp] theorem memoryOf_id (r : Row) : (memoryOf r).id = r.sub.id := by
  cases h : r.terminated <;> simp [memoryOf, h]

theorem memoryOf_of_live (hlive : r.terminated = false) : memoryOf r = r.sub := by
  simp [memoryOf, hlive]

theorem memory_open (eventName eventKey : String) (asOf : DateTime) :
    (g.map memoryOf).filter (Memory.isOpen eventName eventKey asOf) =
      g.openFor eventName eventKey asOf := by
  rw [Registry.openFor_eq, List.filter_map]
  induction g with
  | nil => rfl
  | cons r g ih =>
    rw [List.filter_cons, List.filter_cons]
    cases hterminated : r.terminated with
    | true => simpa [Memory.isOpen, memoryOf, hterminated] using ih
    | false =>
      simp only [Function.comp_apply, memoryOf_of_live hterminated, Bool.not_false, Bool.and_true]
      split
      · rw [List.map_cons, List.map_cons, ih, memoryOf_of_live hterminated]
      · exact ih

theorem memory_get_of_absent (h : ∀ r ∈ g, r.sub.id ≠ id) :
    Table.get EventSubscription.id (g.map memoryOf) id = none :=
  Table.get_eq_none.mpr (by simpa using h)

theorem memory_not_id (h : ∀ b ∈ g₁ ++ g₂, b.sub.id ≠ id) :
    ∀ s ∈ g₁.map memoryOf ++ g₂.map memoryOf, decide (s.id = id) = false := by
  intro s hs
  rw [← List.map_append] at hs
  obtain ⟨b, hb, rfl⟩ := List.mem_map.mp hs
  simpa using h b hb

section Present

variable (hid : r.sub.id = id) (h : ∀ b ∈ g₁ ++ g₂, b.sub.id ≠ id)
include hid h

theorem memory_get_of_present :
    Table.get EventSubscription.id ((g₁ ++ r :: g₂).map memoryOf) id = some (memoryOf r) := by
  rw [List.map_append, List.map_cons, Table.get, Table.find?_single (memory_not_id h)]
  simp [hid]

theorem memory_modify (f : EventSubscription → EventSubscription) :
    Memory.modify ((g₁ ++ r :: g₂).map memoryOf) id f =
      g₁.map memoryOf ++ f (memoryOf r) :: g₂.map memoryOf := by
  have hsingle := Table.map_single (a := memoryOf r) (memory_not_id h) f
  rw [List.map_append, List.map_cons]
  simpa [Memory.modify, hid] using hsingle

end Present

/-- The in-memory store has the subscriptions of the registry. -/
theorem memory_refines (hg : g.Valid times) (hproper : g.Proper c) (n : ℕ) :
    Memory.answer n (g.map memoryOf) c = ((g.answer c).1, (g.answer c).2.map memoryOf) := by
  cases c with
  | createEventSubscription s generated =>
    have hnew : ∀ r ∈ g, r.sub.id ≠ storedId s generated := hproper
    have hput : Table.put EventSubscription.id { s with id := storedId s generated }
        (g.map memoryOf) = g.map memoryOf ++ [{ s with id := storedId s generated }] :=
      Table.put_of_forall_ne (by simpa using hnew)
    simp [Memory.answer, Memory.createEventSubscription, tagged, hput, Registry.answer, memoryOf]
  | getSubscriptions eventName eventKey asOf =>
    rw [Memory.answer, Memory.getSubscriptions, memory_open, Registry.answer]
  | getFirstOpenSubscription eventName eventKey asOf =>
    rw [Memory.answer, Memory.getFirstOpenSubscription, memory_open, pick_eq_head? hproper,
      Registry.answer]
  | getSubscription id =>
    -- From here on there is no row with the id, or a single one among the others.
    rcases hg.split id with habsent | ⟨g₁, r, g₂, rfl, hid, hothers⟩
    · simp [Memory.answer, Memory.getSubscription, memory_get_of_absent habsent, Registry.answer,
        Registry.get_of_absent habsent]
    · have hlive := hproper r (by simp) hid
      rw [Memory.answer, Memory.getSubscription, memory_get_of_present hid hothers]
      simp [Registry.answer, Registry.get_of_present hid hothers, memoryOf_of_live hlive]
  | setSubscriptionToken id token workerId expiry =>
    rcases hg.split id with habsent | ⟨g₁, r, g₂, rfl, hid, hothers⟩
    · simp [Memory.answer, Memory.setSubscriptionToken, memory_get_of_absent habsent, tagged,
        Registry.answer, Registry.get_of_absent habsent]
    · have hlive := hproper r (by simp) hid
      rw [Memory.answer, Memory.setSubscriptionToken, memory_get_of_present hid hothers]
      simp only [memory_modify hid hothers, memoryOf_of_live hlive, tagged, Registry.answer,
        Registry.get_of_present hid hothers, Registry.modify_of_present hid hothers]
      split <;> simp [memoryOf, hlive]
  | clearSubscriptionToken id token =>
    rcases hg.split id with habsent | ⟨g₁, r, g₂, rfl, hid, hothers⟩
    · simp [Memory.answer, Memory.clearSubscriptionToken, memory_get_of_absent habsent, tagged,
        Registry.answer, Registry.get_of_absent habsent]
    · obtain ⟨hlive, htoken⟩ := hproper r (by simp) hid
      rw [Memory.answer, Memory.clearSubscriptionToken, memory_get_of_present hid hothers]
      simp only [memory_modify hid hothers, memoryOf_of_live hlive, tagged, Registry.answer, htoken,
        Registry.get_of_present hid hothers, Registry.modify_of_present hid hothers]
      simp [memoryOf, hlive]
  | terminateSubscription id =>
    rcases hg.split id with habsent | ⟨g₁, r, g₂, rfl, hid, hothers⟩
    · simp [Memory.answer, Memory.terminateSubscription, memory_get_of_absent habsent, tagged,
        Registry.answer, Registry.get_of_absent habsent]
    · have hlive := hproper r (by simp) hid
      rw [Memory.answer, Memory.terminateSubscription, memory_get_of_present hid hothers]
      simp only [memory_modify hid hothers, memoryOf_of_live hlive, tagged, Registry.answer,
        Registry.get_of_present hid hothers, Registry.modify_of_present hid hothers]
      simp [memoryOf]

end Memory

end Refinement

/-! ## Proper runs -/

section Runs

variable {σ : Type} {g : Registry} {times : DateTime → Prop} {documents : Json → Prop} {c : Call}
  {calls : List Call} {lite pg : Columns}

/-- The results of what the registry is to do. -/
abbrev Registry.results (g : Registry) (calls : List Call) : List Result :=
  Subscriptions.results (fun _ => Registry.answer) (fun _ => 0) g calls

/-- A store that refines the registry has its results in proper runs. -/
theorem results_eq {answer : ℕ → σ → Call → Result × σ} (repr : Registry → σ)
    (hrefines : ∀ g c, g.Valid times → c.Within times documents → g.Proper c → ∀ n,
      answer n (repr g) c = ((g.answer c).1, repr (g.answer c).2))
    (hg : g.Valid times) (hcalls : ∀ c ∈ calls, c.Within times documents)
    (hproper : g.ProperRun calls) (o : ℕ → ℕ) :
    results answer o (repr g) calls = g.results calls := by
  induction calls generalizing g o with
  | nil => rfl
  | cons c calls ih =>
    have hc := hcalls c List.mem_cons_self
    rw [results, hrefines g c hg hc hproper.1 (o 0),
      ih (hg.answer hc hproper.1) (fun c' h => hcalls c' (List.mem_cons_of_mem c h)) hproper.2]
    rfl

theorem Result.agree_refl (r : Result) : r.Agree r := by
  have hsame {α : Type} {R : α → α → Prop} (hR : ∀ a, R a a) (x : Except WfeError α) :
      Same R x x := by
    cases x with
    | ok a => exact hR a
    | error e => rfl
  cases r with
  | listed x => exact hsame List.Perm.refl x
  | created x | first x | loaded x | claimed x | cleared x | terminated x =>
    exact hsame (fun _ => rfl) x

/-! ## Termination -/

/-- The subscription `id` has been terminated. -/
def Registry.Terminated (g : Registry) (id : String) : Prop :=
  ∃ r ∈ g, r.sub.id = id ∧ r.terminated = true

/-- What has been terminated stays so. -/
theorem Registry.Terminated.answer {id : String} (h : g.Terminated id) (hg : g.Valid times)
    (c : Call) : Terminated (g.answer c).2 id := by
  obtain ⟨b, hb, hbid, hterminated⟩ := h
  rcases hg.answer_cases c with hsame | ⟨s, generated, -, hnew⟩ |
    ⟨g₁, r, g₂, r', rfl, hchanged, hid, -, hstays⟩
  · rw [hsame]
    exact ⟨b, hb, hbid, hterminated⟩
  · rw [hnew]
    exact ⟨b, List.mem_append_left _ hb, hbid, hterminated⟩
  · rw [hchanged]
    rcases List.mem_append.mp hb with hb | hb
    · exact ⟨b, List.mem_append_left _ hb, hbid, hterminated⟩
    · rcases List.mem_cons.mp hb with rfl | hb
      · exact ⟨r', by simp, hid.trans hbid, hstays hterminated⟩
      · exact ⟨b, by simp [hb], hbid, hterminated⟩

/-- A subscription that has been terminated is not among the live ones. -/
theorem Registry.Terminated.not_live {id : String} (h : g.Terminated id) (hg : g.Valid times)
    {s : EventSubscription} (hs : s ∈ g.live) : s.id ≠ id := by
  rintro rfl
  obtain ⟨b, hb, hlive, rfl⟩ := mem_live.mp hs
  obtain ⟨r, hr, hid, hterminated⟩ := h
  have hrb : r = b := List.inj_on_of_nodup_map hg.nodup hr hb hid
  rw [hrb, hlive] at hterminated
  cases hterminated

/-- Proper calls do not show it open, and do not claim it. -/
theorem Registry.Terminated.not_opens {id : String} (h : g.Terminated id) (hg : g.Valid times)
    (hproper : g.Proper c) : ¬Opens id (c, (g.answer c).1) := by
  cases c with
  | createEventSubscription s generated => exact not_false
  | getSubscriptions eventName eventKey asOf =>
    rintro ⟨s, hs, hid⟩
    exact h.not_live hg (List.mem_of_mem_filter hs) hid
  | getFirstOpenSubscription eventName eventKey asOf =>
    simp only [Registry.answer]
    rcases hfirst : (g.openFor eventName eventKey asOf).head? with _ | s
    · exact not_false
    · exact h.not_live hg (List.mem_of_mem_filter (List.mem_of_head? hfirst))
  | getSubscription id' =>
    simp only [Registry.answer]
    split <;> exact not_false
  | setSubscriptionToken id' token workerId expiry =>
    have hne : id' ≠ id := by
      rintro rfl
      obtain ⟨r, hr, hid, hterminated⟩ := h
      rw [hproper r hr hid] at hterminated
      cases hterminated
    simp only [Registry.answer]
    split
    · exact not_false
    · split
      · exact not_false
      · exact hne
  | clearSubscriptionToken id' token =>
    simp only [Registry.answer]
    split <;> exact not_false
  | terminateSubscription id' =>
    simp only [Registry.answer]
    split <;> exact not_false

theorem Registry.terminated_of_answer {id : String} (hg : g.Valid times)
    (h : (g.answer (.terminateSubscription id)).1 = .terminated (.ok ())) :
    Terminated (g.answer (.terminateSubscription id)).2 id := by
  rcases hg.split id with habsent | ⟨g₁, r, g₂, rfl, hid, hothers⟩
  · simp [Registry.answer, get_of_absent habsent] at h
  · simp only [Registry.answer, get_of_present hid hothers, modify_of_present hid hothers]
    exact ⟨{ r with terminated := true }, by simp, hid, rfl⟩

/-- In a proper run, nothing that has been terminated before it is opened. -/
theorem Registry.Terminated.results {id : String} (h : g.Terminated id) (hg : g.Valid times)
    (hcalls : ∀ c ∈ calls, c.Within times documents) (hproper : g.ProperRun calls) :
    ∀ y ∈ calls.zip (g.results calls), ¬Opens id y := by
  induction calls generalizing g with
  | nil => simp [Subscriptions.results]
  | cons c calls ih =>
    have hc := hcalls c List.mem_cons_self
    intro y hy
    rcases List.mem_cons.mp hy with rfl | hy
    · exact h.not_opens hg hproper.1
    · exact ih (h.answer hg c) (hg.answer hc hproper.1)
        (fun c' hc' => hcalls c' (List.mem_cons_of_mem c hc')) hproper.2 y hy

theorem Registry.final_results (hg : g.Valid times)
    (hcalls : ∀ c ∈ calls, c.Within times documents) (hproper : g.ProperRun calls) :
    Final calls (g.results calls) := by
  induction calls generalizing g with
  | nil => exact List.Pairwise.nil
  | cons c calls ih =>
    have hc := hcalls c List.mem_cons_self
    have hrest (c' : Call) (hc' : c' ∈ calls) := hcalls c' (List.mem_cons_of_mem c hc')
    refine List.pairwise_cons.mpr ⟨?_, ih (hg.answer hc hproper.1) hrest hproper.2⟩
    intro y hy id hx
    obtain ⟨rfl, hr⟩ := Prod.mk.inj hx
    have hterminated := Registry.terminated_of_answer hg hr
    exact hterminated.results (hg.answer hc hproper.1) hrest hproper.2 y hy

/-! ## Improper calls -/

/-- The stores agree on the next call, in whatever order they have their records. -/
def AgreeOn (lite pg : Columns) (g : Registry) (c : Call) : Prop :=
  ∀ n₁ n₂ n₃, (Memory.answer n₁ (g.map memoryOf) c).1.Agree (sqlite.answer lite n₂ g c).1 ∧
    (sqlite.answer lite n₂ g c).1.Agree (postgres.answer pg n₃ g.live c).1 ∧
    (Memory.answer n₁ (g.map memoryOf) c).1.Agree (postgres.answer pg n₃ g.live c).1

theorem Registry.nodup_openFor (hg : g.Valid times) (eventName eventKey : String)
    (asOf : DateTime) : (g.openFor eventName eventKey asOf).Nodup := by
  have hsubs : (g.map Row.sub).Nodup := by
    refine List.Nodup.of_map EventSubscription.id ?_
    rw [List.map_map]
    exact hg.nodup
  rw [openFor_eq]
  exact hsubs.sublist (List.filter_sublist.map _)

/-- A subscription that is in the registry, but not as it should be for the call, is terminated or
has another token. -/
theorem Registry.Terminated.postgres_absent {id : String} (h : g.Terminated id)
    (hg : g.Valid times) : ∀ s ∈ g.live, postgres.hasId id s = false :=
  fun _ hs => decide_eq_false (h.not_live hg hs)

theorem Registry.Terminated.memory_get {id : String} (h : g.Terminated id) (hg : g.Valid times) :
    ∃ s, Table.get EventSubscription.id (g.map memoryOf) id = some s ∧
      s.externalToken = some "__terminated__" := by
  obtain ⟨b, hb, hbid, hterminated⟩ := h
  rcases hg.split id with habsent | ⟨g₁, r, g₂, rfl, hid, hothers⟩
  · exact absurd hbid (habsent b hb)
  · refine ⟨_, memory_get_of_present hid hothers, ?_⟩
    have hbr : b = r := List.inj_on_of_nodup_map hg.nodup hb (by simp) (hbid.trans hid.symm)
    rw [hbr] at hterminated
    simp [memoryOf, hterminated]

theorem mismatch_ne_notFound (message id : String) :
    (WfeError.persistence message).ctorIdx ≠ (WfeError.subscriptionNotFound id).ctorIdx := by
  show 6 ≠ 3
  decide

/-- For a call on a terminated subscription, memory has an answer and Postgres has not. -/
theorem AgreeOn.not_terminated {id : String} (h : AgreeOn lite pg g c) (hg : g.Valid times)
    (hc : (∃ token workerId expiry, c = .setSubscriptionToken id token workerId expiry) ∨
      c = .getSubscription id ∨ c = .terminateSubscription id ∨
      ∃ token, c = .clearSubscriptionToken id token) : ¬g.Terminated id := by
  intro hterminated
  obtain ⟨s, hs, htoken⟩ := hterminated.memory_get hg
  have habsent := hterminated.postgres_absent hg
  have hagree := (h 0 0 0).2.2
  rcases hc with ⟨token, workerId, expiry, rfl⟩ | rfl | rfl | ⟨token, rfl⟩
  · rw [Memory.answer, Memory.setSubscriptionToken, hs, Dialect.answer,
      Dialect.setSubscriptionToken_of_absent habsent] at hagree
    simp [htoken, tagged, Result.Agree, Same] at hagree
  · rw [Memory.answer, Memory.getSubscription, hs, Dialect.answer,
      Dialect.getSubscription_of_absent habsent] at hagree
    exact hagree
  · rw [Memory.answer, Memory.terminateSubscription, hs, Dialect.answer,
      Dialect.terminateSubscription, postgres_terminate_of_absent habsent] at hagree
    exact hagree
  · rw [Memory.answer, Memory.clearSubscriptionToken, hs, Dialect.answer,
      Dialect.clearSubscriptionToken_of_absent habsent] at hagree
    simp only [htoken] at hagree
    split at hagree
    · exact mismatch_ne_notFound _ _ hagree
    · exact hagree

/-- If memory lists what SQLite lists, nothing that is live has a token. -/
theorem AgreeOn.openFor_complete {eventName eventKey : String} {asOf : DateTime}
    (h : AgreeOn lite pg g (.getSubscriptions eventName eventKey asOf))
    (hlite : lite.Exact times documents) (hg : g.Valid times) (hasOf : times asOf) :
    g.Proper (.getSubscriptions eventName eventKey asOf) := by
  intro s hs hfor hle
  obtain ⟨r, hr, hlive, rfl⟩ := Registry.mem_live.mp hs
  have hagree := (h 0 0 0).1
  rw [Memory.answer, Memory.getSubscriptions, memory_open, Dialect.answer,
    Dialect.getSubscriptions] at hagree
  have hperm : List.Perm _ _ := hagree
  have hmem : r.sub ∈ g.openFor eventName eventKey asOf := by
    refine hperm.mem_iff.mpr (List.mem_map.mpr ⟨r, List.mem_filter.mpr ⟨hr, ?_⟩, rfl⟩)
    have hnotAfter := hlite.notAfter _ _ (hg.times r hr) hasOf
    simp [Dialect.isFor, sqlite, hnotAfter, hfor, hle, hlive]
  have hopen := (List.mem_filter.mp hmem).2
  simp only [Memory.isOpen, decide_eq_true_eq] at hopen
  exact hopen.2.2

/-- If memory and SQLite have the same subscription first in any order, there is at most one. -/
theorem AgreeOn.openFor_unique {eventName eventKey : String} {asOf : DateTime}
    (h : AgreeOn lite pg g (.getFirstOpenSubscription eventName eventKey asOf))
    (hlite : lite.Exact times documents) (hg : g.Valid times) (hasOf : times asOf) :
    g.Proper (.getFirstOpenSubscription eventName eventKey asOf) := by
  by_contra hmany
  -- Memory has one subscription first, and SQLite another one.
  have hagree := (h 0 1 0).1
  rw [Memory.answer, Memory.getFirstOpenSubscription, memory_open, Dialect.answer,
    Dialect.getFirstOpenSubscription, ← pick_map] at hagree
  have hpick : pick 0 (g.openFor eventName eventKey asOf) =
      pick 1 (g.openFor eventName eventKey asOf) := by
    rw [← sqlite_open hlite hg hasOf] at hagree ⊢
    exact hagree
  have hnodup := Registry.nodup_openFor hg eventName eventKey asOf
  rcases hfound : g.openFor eventName eventKey asOf with _ | ⟨s, _ | ⟨s', rest⟩⟩
  · exact hmany (by simp [Registry.Proper, hfound])
  · exact hmany (by simp [Registry.Proper, hfound])
  · rw [hfound] at hpick hnodup
    obtain rfl : s = s' := by simpa [pick] using hpick
    simp at hnodup

/-- If memory and Postgres agree on clearing a token, it is the token there is. -/
theorem AgreeOn.token_eq {id token : String} {r : Row}
    (h : AgreeOn lite pg g (.clearSubscriptionToken id token)) (hg : g.Valid times) (hr : r ∈ g)
    (hid : r.sub.id = id) (hlive : r.terminated = false) : r.sub.externalToken = some token := by
  by_contra htoken
  -- For another token, memory reports a mismatch, and Postgres finds nothing.
  have hagree := (h 0 0 0).2.2
  rcases hg.split id with habsent | ⟨g₁, b, g₂, rfl, hbid, hothers⟩
  · exact habsent r hr hid
  · obtain rfl : r = b :=
      List.inj_on_of_nodup_map hg.nodup hr (by simp) (hid.trans hbid.symm)
    rw [Memory.answer, Memory.clearSubscriptionToken, memory_get_of_present hid hothers,
      Dialect.answer, Registry.live_split hlive, Dialect.clearSubscriptionToken_of_present
        (postgres_hasId hid) (postgres_not_hasId_split hothers)] at hagree
    have hsub : postgres.sub r.sub = r.sub := rfl
    simp only [memoryOf_of_live hlive, hsub, if_neg htoken] at hagree
    rw [if_pos htoken] at hagree
    exact mismatch_ne_notFound _ _ hagree

theorem AgreeOn.proper (h : AgreeOn lite pg g c) (hlite : lite.Exact times documents)
    (hg : g.Valid times) (hc : c.Within times documents) : g.Proper c := by
  have hlive {id : String} (hnot : ¬g.Terminated id) (r : Row) (hr : r ∈ g) (hid : r.sub.id = id) :
      r.terminated = false := by
    cases hterminated : r.terminated with
    | false => rfl
    | true => exact absurd ⟨r, hr, hid, hterminated⟩ hnot
  cases c with
  | createEventSubscription s generated =>
    intro r hr hid
    have hagree := (h 0 0 0).1
    have hany : g.any (sqlite.hasId (storedId s generated)) = true :=
      List.any_eq_true.mpr ⟨r, hr, sqlite_hasId hid⟩
    rw [Memory.answer, Dialect.answer, Dialect.createEventSubscription, hany] at hagree
    exact hagree
  | getSubscriptions eventName eventKey asOf => exact h.openFor_complete hlite hg hc
  | getFirstOpenSubscription eventName eventKey asOf => exact h.openFor_unique hlite hg hc
  | getSubscription id => exact hlive (h.not_terminated hg (.inr (.inl rfl)))
  | setSubscriptionToken id token workerId expiry =>
    exact hlive (h.not_terminated hg (.inl ⟨token, workerId, expiry, rfl⟩))
  | terminateSubscription id => exact hlive (h.not_terminated hg (.inr (.inr (.inl rfl))))
  | clearSubscriptionToken id token =>
    have hnot := h.not_terminated hg (.inr (.inr (.inr ⟨token, rfl⟩)))
    intro r hr hid
    have hstill := hlive hnot r hr hid
    exact ⟨hstill, h.token_eq hg hr hid hstill⟩

/-- If the stores agree on all calls of a sequence, the calls are proper. -/
theorem properRun_of_agree (hlite : lite.Exact times documents) (hpg : pg.Exact times documents)
    (hg : g.Valid times) (hcalls : ∀ c ∈ calls, c.Within times documents)
    (h : ∀ o₁ o₂ o₃ : ℕ → ℕ,
      List.Forall₂ Result.Agree (results Memory.answer o₁ (g.map memoryOf) calls)
        (results (sqlite.answer lite) o₂ g calls) ∧
      List.Forall₂ Result.Agree (results (sqlite.answer lite) o₂ g calls)
        (results (postgres.answer pg) o₃ g.live calls) ∧
      List.Forall₂ Result.Agree (results Memory.answer o₁ (g.map memoryOf) calls)
        (results (postgres.answer pg) o₃ g.live calls)) : g.ProperRun calls := by
  induction calls generalizing g with
  | nil => trivial
  | cons c calls ih =>
    have hc := hcalls c List.mem_cons_self
    have hagree : AgreeOn lite pg g c := by
      intro n₁ n₂ n₃
      obtain ⟨h₁, h₂, h₃⟩ := h (fun _ => n₁) (fun _ => n₂) fun _ => n₃
      exact ⟨(List.forall₂_cons.mp h₁).1, (List.forall₂_cons.mp h₂).1, (List.forall₂_cons.mp h₃).1⟩
    have hproper := hagree.proper hlite hg hc
    refine ⟨hproper, ih (hg.answer hc hproper)
      (fun c' hc' => hcalls c' (List.mem_cons_of_mem c hc')) fun o₁ o₂ o₃ => ?_⟩
    -- The orders in the rest are those of the whole sequence after the first call.
    have hrest := h (fun k => o₁ (k - 1)) (fun k => o₂ (k - 1)) fun k => o₃ (k - 1)
    simp only [results, memory_refines hg hproper, sqlite_refines hlite hg hc hproper,
      postgres_refines hpg hg hc hproper, List.forall₂_cons, Nat.add_sub_cancel] at hrest
    exact ⟨hrest.1.2, hrest.2.1.2, hrest.2.2.2⟩

/-- **The stores agree exactly on the sequences of proper calls.** -/
theorem uniform_iff_proper (hlite : lite.Exact times documents) (hpg : pg.Exact times documents)
    (hcalls : ∀ c ∈ calls, c.Within times documents) :
    Uniform lite pg calls ↔ Registry.ProperRun [] calls := by
  have hempty : Registry.Valid times [] := ⟨List.nodup_nil, by simp⟩
  constructor
  · intro h
    exact properRun_of_agree hlite hpg hempty hcalls fun o₁ o₂ o₃ => (h o₁ o₂ o₃).1
  · intro hproper o₁ o₂ o₃
    have hmemory : results Memory.answer o₁ [] calls = Registry.results [] calls :=
      results_eq (fun g => g.map memoryOf)
        (fun g c hg _ hproper n => memory_refines hg hproper n) hempty hcalls hproper o₁
    have hsqlite : results (sqlite.answer lite) o₂ [] calls = Registry.results [] calls :=
      results_eq (fun g => g)
        (fun g c hg hc hproper n => sqlite_refines hlite hg hc hproper n) hempty hcalls hproper o₂
    have hpostgres : results (postgres.answer pg) o₃ [] calls = Registry.results [] calls :=
      results_eq Registry.live
        (fun g c hg hc hproper n => postgres_refines hpg hg hc hproper n) hempty hcalls hproper o₃
    have hfinal := Registry.final_results hempty hcalls hproper
    have hagree : List.Forall₂ Result.Agree (Registry.results [] calls)
        (Registry.results [] calls) := List.forall₂_same.mpr fun r _ => r.agree_refl
    simp only [hmemory, hsqlite, hpostgres]
    exact ⟨⟨hagree, hagree, hagree⟩, hfinal, hfinal, hfinal⟩

end Runs

/-! ## Sequences of calls -/

instance (g : Registry) (c : Call) : Decidable (g.Proper c) :=
  match c with
  | .createEventSubscription s generated =>
    inferInstanceAs (Decidable (∀ r ∈ g, r.sub.id ≠ storedId s generated))
  | .getSubscriptions eventName eventKey asOf =>
    inferInstanceAs (Decidable (∀ s ∈ g.live, isFor eventName eventKey s →
      s.subscribeAsOf ≤ asOf → s.externalToken = none))
  | .getFirstOpenSubscription _ _ _ => inferInstanceAs (Decidable (_ ≤ 1))
  | .getSubscription id | .setSubscriptionToken id _ _ _ | .terminateSubscription id =>
    inferInstanceAs (Decidable (∀ r ∈ g, r.sub.id = id → r.terminated = false))
  | .clearSubscriptionToken id token =>
    inferInstanceAs (Decidable (∀ r ∈ g, r.sub.id = id →
      r.terminated = false ∧ r.sub.externalToken = some token))

instance decidableProperRun : (g : Registry) → (calls : List Call) → Decidable (g.ProperRun calls)
  | _, [] => inferInstanceAs (Decidable True)
  | g, c :: calls =>
    have := decidableProperRun (g.answer c).2 calls
    inferInstanceAs (Decidable (g.Proper c ∧ _))

/-- Columns that keep times to the nanosecond. -/
def nanosecondColumns : Columns where
  time t := t
  notAfter t u := t ≤ u
  document d := d
  duplicate := "UNIQUE constraint failed: event_subscriptions.id"

/-- Columns that keep times to the microsecond. -/
def microsecondColumns : Columns where
  time t := t / 1000 * 1000
  notAfter t u := t / 1000 ≤ u / 1000
  document d := d
  duplicate := "duplicate key value violates unique constraint \"event_subscriptions_pkey\""

/-- Whole microseconds. -/
def isMicroseconds (t : DateTime) : Prop := t % 1000 = 0

theorem nanosecondColumns_exact : nanosecondColumns.Exact isMicroseconds fun _ => True :=
  ⟨fun _ _ => rfl, fun _ _ _ _ => rfl, fun _ _ => rfl⟩

theorem microsecondColumns_exact : microsecondColumns.Exact isMicroseconds fun _ => True where
  time t ht := by
    have htime (t : ℤ) (ht : t % 1000 = 0) : t / 1000 * 1000 = t := by omega
    exact htime t ht
  notAfter t u ht hu := by
    have hle (t u : ℤ) (ht : t % 1000 = 0) (hu : u % 1000 = 0) :
        t / 1000 ≤ u / 1000 ↔ t ≤ u := by omega
    exact decide_eq_decide.mpr (hle t u ht hu)
  document _ _ := rfl

/-- A subscription that is claimed, handed back, and terminated in the end. -/
def lifecycle : List Call :=
  [.createEventSubscription (.new "s" "w" 0 "p" "paid" "order" 0) "",
    .getSubscriptions "paid" "order" 0,
    .setSubscriptionToken "s" "token" "worker" 30000000000, .getSubscription "s",
    .clearSubscriptionToken "s" "token", .getFirstOpenSubscription "paid" "order" 0,
    .terminateSubscription "s", .getSubscriptions "paid" "order" 0]

theorem uniform_lifecycle : Uniform nanosecondColumns microsecondColumns lifecycle := by
  refine (uniform_iff_proper nanosecondColumns_exact microsecondColumns_exact ?_).mpr
    (by decide)
  simp [lifecycle, Call.Within, EventSubscription.new, isMicroseconds]

/-- A subscription that a worker claims after it has been terminated. -/
def lateClaim : List Call :=
  [.createEventSubscription (.new "s" "w" 0 "p" "paid" "order" 0) "", .terminateSubscription "s",
    .setSubscriptionToken "s" "token" "worker" 30000000000]

/-- In SQLite, a worker can claim what has been terminated: memory refuses it, and Postgres does not
find it. -/
theorem claimed_after_termination : ¬∀ calls : List Call,
    (∀ c ∈ calls, c.Within isMicroseconds fun _ => True) →
      Uniform nanosecondColumns microsecondColumns calls := by
  intro h
  have hcalls : ∀ c ∈ lateClaim, c.Within isMicroseconds fun _ => True := by
    simp [lateClaim, Call.Within, EventSubscription.new, isMicroseconds]
  have hfinal := (h lateClaim hcalls (fun _ => 0) (fun _ => 0) fun _ => 0).2.2.1
  have hresults : results (sqlite.answer nanosecondColumns) (fun _ => 0) [] lateClaim =
      [.created (.ok "s"), .terminated (.ok ()), .claimed (.ok true)] := by rfl
  rw [hresults] at hfinal
  have hrest := (List.pairwise_cons.mp hfinal).2
  exact (List.pairwise_cons.mp hrest).1 _ List.mem_cons_self "s" rfl rfl

end Wfe.Subscriptions
