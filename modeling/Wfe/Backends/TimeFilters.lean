import Wfe.Backends.Subscriptions
import Wfe.Library.Rfc3339

/-!
# Times in the columns of SQLite

SQLite has times as texts and compares them byte by byte, and the in-memory store compares the times
themselves. Both comparisons are the same for the years that have four digits, whatever the
precision of the times; so the queries for events and for the first open subscription find the same
in both stores. Only `get_subscriptions` does not: SQLite asks whether a subscription has been
terminated, and the in-memory store whether it has a token, which a claimed one has, too. So it
selects the same exactly if no subscription that it asks for is claimed.

How the time library writes a time is a parameter, with the documented format for an assumption.

## Main definitions

* `RendersRfc3339`: the documented format
* `rfc3339Columns`: the columns of SQLite
* `Events.Memory`, `Events.Sqlite`: the events in both stores

## Main results

* `cmpColumn_dtToString`: texts are in the order of the times
* `rfc3339Columns_exact`: so the stores compare times in the same way
* `Events.results_eq`: the stores hold the same events after the same calls
* `timeFilters_agree`: what both stores select
-/

namespace Wfe

open Calendar Rfc3339 Subscriptions

/-! ## Times as texts -/

/-- The year of the instant is from 0 to 9999. -/
def DateTime.InYears (t : DateTime) : Prop := HasFourDigits (CivilTime.ofInstant t).year

instance (t : DateTime) : Decidable t.InYears := inferInstanceAs (Decidable (_ ∧ _))

/-- The time library writes a time in UTC in RFC 3339, with as many digits of the fraction as it
takes, but in groups of three. -/
def RendersRfc3339 (toRfc3339 : DateTime → String) : Prop :=
  ∀ t : CivilTime, HasFourDigits t.year → toRfc3339 t.instant = String.ofList (text t)

def dtToString (toRfc3339 : DateTime → String) (dt : DateTime) : String := toRfc3339 dt

/-- The order of texts in a column is that of their bytes. -/
def cmpColumn (a b : String) : Ordering := cmpBytes (Utf8.encode a.toList) (Utf8.encode b.toList)

/-- `a <= b` in a condition on columns. -/
def columnLe (a b : String) : Bool := (cmpColumn a b).isLE

section Texts

variable {toRfc3339 : DateTime → String} (hformat : RendersRfc3339 toRfc3339) {a b : DateTime}
include hformat

theorem dtToString_eq (ha : a.InYears) :
    dtToString toRfc3339 a = String.ofList (text (CivilTime.ofInstant a)) := by
  have h := hformat (CivilTime.ofInstant a) ha
  rwa [CivilTime.instant_ofInstant] at h

/-- **The texts of times are in the order of the times.** -/
theorem cmpColumn_dtToString (ha : a.InYears) (hb : b.InYears) :
    cmpColumn (dtToString toRfc3339 a) (dtToString toRfc3339 b) = cmp a b := by
  rw [cmpColumn, dtToString_eq hformat ha, dtToString_eq hformat hb, String.toList_ofList,
    String.toList_ofList, cmpBytes_text ha hb, CivilTime.instant_ofInstant,
    CivilTime.instant_ofInstant]

theorem columnLe_dtToString (ha : a.InYears) (hb : b.InYears) :
    columnLe (dtToString toRfc3339 a) (dtToString toRfc3339 b) = decide (a ≤ b) := by
  rw [columnLe, cmpColumn_dtToString hformat ha hb, Bool.eq_iff_iff, decide_eq_true_eq,
    ← not_lt, ← cmp_eq_gt_iff]
  cases cmp a b <;> decide

end Texts

/-! ## Subscriptions -/

/-- The columns of SQLite: a time is kept to the nanosecond, as a text. -/
def rfc3339Columns (toRfc3339 : DateTime → String) : Columns where
  time t := t
  notAfter t u := columnLe (dtToString toRfc3339 t) (dtToString toRfc3339 u)
  document d := d
  duplicate := "UNIQUE constraint failed: event_subscriptions.id"

theorem rfc3339Columns_exact {toRfc3339 : DateTime → String}
    (hformat : RendersRfc3339 toRfc3339) :
    (rfc3339Columns toRfc3339).Exact DateTime.InYears fun _ => True :=
  ⟨fun _ _ => rfl, fun _ _ ht hu => columnLe_dtToString hformat ht hu, fun _ _ => rfl⟩

namespace Subscriptions

variable (g : Registry) (eventName eventKey : String) (asOf : DateTime)

/-- The subscriptions for an event that have not been terminated, but are claimed. -/
def Registry.claimedFor : List EventSubscription :=
  g.live.filter fun s =>
    isFor eventName eventKey s ∧ s.subscribeAsOf ≤ asOf ∧ s.externalToken.isSome

variable {g eventName eventKey asOf}

/-- SQLite lists the claimed subscriptions besides the open ones. -/
theorem sqlite_listed {toRfc3339 : DateTime → String} (hformat : RendersRfc3339 toRfc3339)
    (hg : g.Valid DateTime.InYears) (hasOf : asOf.InYears) :
    ((g.filter fun r => sqlite.isFor (rfc3339Columns toRfc3339) eventName eventKey asOf r &&
      sqlite.isActive r).map Row.sub).Perm
        (g.openFor eventName eventKey asOf ++ g.claimedFor eventName eventKey asOf) := by
  have hlisted : (g.filter fun r =>
      sqlite.isFor (rfc3339Columns toRfc3339) eventName eventKey asOf r &&
        sqlite.isActive r).map Row.sub =
      g.live.filter fun s => isFor eventName eventKey s ∧ s.subscribeAsOf ≤ asOf := by
    rw [Registry.live, List.filter_map, List.filter_filter]
    congr 1
    refine List.filter_congr fun r hr => ?_
    have hnotAfter := (rfc3339Columns_exact hformat).notAfter _ _ (hg.times r hr) hasOf
    simp [Dialect.isFor, sqlite, hnotAfter]
  have hopen : (g.live.filter fun s =>
      isFor eventName eventKey s ∧ s.subscribeAsOf ≤ asOf).filter (·.externalToken.isNone) =
      g.openFor eventName eventKey asOf := by
    rw [Registry.openFor, List.filter_filter]
    refine List.filter_congr fun s _ => ?_
    rw [Bool.eq_iff_iff]
    simp [Memory.isOpen]
    tauto
  have hclaimed : (g.live.filter fun s =>
      isFor eventName eventKey s ∧ s.subscribeAsOf ≤ asOf).filter (!·.externalToken.isNone) =
      g.claimedFor eventName eventKey asOf := by
    rw [Registry.claimedFor, List.filter_filter]
    refine List.filter_congr fun s _ => ?_
    rw [Bool.eq_iff_iff]
    simp [Option.isSome_iff_ne_none]
    tauto
  -- What has not been terminated is open or claimed.
  rw [hlisted, ← hopen, ← hclaimed]
  exact (List.filter_append_perm _ _).symm

end Subscriptions

/-- Lists that differ by what comes behind one of them are the same exactly if nothing does. -/
theorem perm_iff_of_append {α : Type} {l l' more : List α} (h : l'.Perm (l ++ more)) :
    l.Perm l' ↔ more = [] := by
  constructor
  · intro hperm
    have hlength := (hperm.trans h).length_eq
    rw [List.length_append] at hlength
    exact List.eq_nil_of_length_eq_zero (by omega)
  · rintro rfl
    rw [List.append_nil] at h
    exact h.symm

/-! ## Events -/

namespace Events

/-- The id under which an event is stored. -/
def storedId (e : Event) (generated : String) : String := if e.id = "" then generated else e.id

/-- The calls that change events; `generated` is the UUID that is drawn for one without an id. -/
inductive Call
  | createEvent (e : Event) (generated : String)
  | markEventProcessed (id : String)
  | markEventUnprocessed (id : String)
deriving DecidableEq, Repr

inductive Result
  | created (r : Except WfeError String)
  | marked (r : Except WfeError Unit)

namespace Memory

variable (events : List Event)

def createEvent (e : Event) (generated : String) : Except WfeError String × List Event :=
  let id := storedId e generated
  (.ok id, Table.put Event.id { e with id } events)

/-- `get_mut`, and a change of what it finds. -/
def mark (id : String) (isProcessed : Bool) : Except WfeError Unit × List Event :=
  match Table.get Event.id events id with
  | some _ => (.ok (), events.map fun e => if e.id = id then { e with isProcessed } else e)
  | none => (.error (.eventNotFound id), events)

def markEventProcessed (id : String) : Except WfeError Unit × List Event := mark events id true

def markEventUnprocessed (id : String) : Except WfeError Unit × List Event := mark events id false

def getRunnableEvents (asAt : DateTime) : Except WfeError (List String) :=
  .ok ((events.filter fun e => !e.isProcessed ∧ e.eventTime ≤ asAt).map Event.id)

def getEvents (eventName eventKey : String) (asOf : DateTime) : Except WfeError (List String) :=
  .ok ((events.filter fun e =>
    e.eventName = eventName ∧ e.eventKey = eventKey ∧ e.eventTime ≤ asOf).map Event.id)

def answer : Call → Result × List Event
  | .createEvent e generated => Prod.map .created id (createEvent events e generated)
  | .markEventProcessed eventId => Prod.map .marked id (markEventProcessed events eventId)
  | .markEventUnprocessed eventId => Prod.map .marked id (markEventUnprocessed events eventId)

end Memory

namespace Sqlite

/-- A row of the table of events. -/
structure Row where
  id : String
  eventName : String
  eventKey : String
  eventData : Json
  eventTime : String
  isProcessed : Bool
deriving DecidableEq, Repr

variable (toRfc3339 : DateTime → String) (duplicate : String) (rows : List Row)

/-- The values that are inserted for an event. -/
def rowOf (e : Event) : Row where
  id := e.id
  eventName := e.eventName
  eventKey := e.eventKey
  eventData := e.eventData
  eventTime := dtToString toRfc3339 e.eventTime
  isProcessed := e.isProcessed

/-- `duplicate` is the message for a primary key that is in use. -/
def createEvent (e : Event) (generated : String) : Except WfeError String × List Row :=
  let id := storedId e generated
  if rows.any fun r => r.id = id then (.error (.persistence duplicate), rows)
  else (.ok id, rows ++ [rowOf toRfc3339 { e with id }])

def mark (id : String) (isProcessed : Bool) : Except WfeError Unit × List Row :=
  let result := update (fun r : Row => r.id = id) (fun r => { r with isProcessed }) rows
  if result.1 = 0 then (.error (.eventNotFound id), result.2) else (.ok (), result.2)

def markEventProcessed (id : String) : Except WfeError Unit × List Row := mark rows id true

def markEventUnprocessed (id : String) : Except WfeError Unit × List Row := mark rows id false

def getRunnableEvents (asAt : DateTime) : Except WfeError (List String) :=
  .ok ((rows.filter fun r =>
    !r.isProcessed && columnLe r.eventTime (dtToString toRfc3339 asAt)).map Row.id)

def getEvents (eventName eventKey : String) (asOf : DateTime) : Except WfeError (List String) :=
  .ok ((rows.filter fun r => r.eventName = eventName && r.eventKey = eventKey &&
    columnLe r.eventTime (dtToString toRfc3339 asOf)).map Row.id)

def answer : Call → Result × List Row
  | .createEvent e generated =>
    Prod.map .created id (createEvent toRfc3339 duplicate rows e generated)
  | .markEventProcessed eventId => Prod.map .marked id (markEventProcessed rows eventId)
  | .markEventUnprocessed eventId => Prod.map .marked id (markEventUnprocessed rows eventId)

end Sqlite

/-! ## The same events in both stores -/

section Stores

variable {toRfc3339 : DateTime → String} {duplicate : String} {events : List Event}

/-- An event is created under a new id. -/
def Fresh (events : List Event) : Call → Prop
  | .createEvent e generated => ∀ e' ∈ events, e'.id ≠ storedId e generated
  | .markEventProcessed _ | .markEventUnprocessed _ => True

theorem mark_refines (id : String) (isProcessed : Bool) :
    Sqlite.mark (events.map (Sqlite.rowOf toRfc3339)) id isProcessed =
      ((Memory.mark events id isProcessed).1,
        (Memory.mark events id isProcessed).2.map (Sqlite.rowOf toRfc3339)) := by
  have hrows : (update (fun r : Sqlite.Row => r.id = id) (fun r => { r with isProcessed })
      (events.map (Sqlite.rowOf toRfc3339))).2 =
        (events.map fun e => if e.id = id then { e with isProcessed } else e).map
          (Sqlite.rowOf toRfc3339) := by
    simp only [update, List.map_map]
    refine List.map_congr_left fun e _ => ?_
    by_cases h : e.id = id <;> simp [Sqlite.rowOf, h]
  have hcount : (update (fun r : Sqlite.Row => r.id = id) (fun r => { r with isProcessed })
      (events.map (Sqlite.rowOf toRfc3339))).1 = 0 ↔ Table.get Event.id events id = none := by
    rw [Table.get_eq_none, update, List.countP_eq_zero]
    simp [Sqlite.rowOf]
  rw [Sqlite.mark, Memory.mark]
  cases hget : Table.get Event.id events id with
  | none =>
    -- Nothing is changed where there is no such event.
    have hsame :
        (events.map fun e => if e.id = id then { e with isProcessed } else e) = events := by
      conv_rhs => rw [← List.map_id events]
      exact List.map_congr_left fun e he => if_neg (Table.get_eq_none.mp hget e he)
    simp only [hcount.mpr hget, hrows, hsame]
    rfl
  | some e =>
    have hfound : ¬Table.get Event.id events id = none := by rw [hget]; exact Option.some_ne_none e
    simp only [if_neg (mt hcount.mp hfound), hrows]

/-- **A call does the same in both stores.** -/
theorem sqlite_refines {c : Call} (hc : Fresh events c) :
    Sqlite.answer toRfc3339 duplicate (events.map (Sqlite.rowOf toRfc3339)) c =
      ((Memory.answer events c).1,
        (Memory.answer events c).2.map (Sqlite.rowOf toRfc3339)) := by
  cases c with
  | createEvent e generated =>
    have hnew : ∀ e' ∈ events, e'.id ≠ storedId e generated := hc
    have hany : (events.map (Sqlite.rowOf toRfc3339)).any
        (fun r => r.id = storedId e generated) = false := by
      rw [List.any_map]
      refine List.any_eq_false.mpr fun e' he' => ?_
      show ¬decide (e'.id = storedId e generated) = true
      simpa using hnew e' he'
    rw [Sqlite.answer, Sqlite.createEvent, hany, Memory.answer, Memory.createEvent,
      Table.put_of_forall_ne hnew]
    simp
  | markEventProcessed eventId =>
    rw [Sqlite.answer, Sqlite.markEventProcessed, mark_refines]
    rfl
  | markEventUnprocessed eventId =>
    rw [Sqlite.answer, Sqlite.markEventUnprocessed, mark_refines]
    rfl

/-- The results of a sequence of calls, and what is stored after it. -/
def run {σ : Type} (answer : σ → Call → Result × σ) : σ → List Call → List Result × σ
  | s, [] => ([], s)
  | s, c :: calls => Prod.map ((answer s c).1 :: ·) id (run answer (answer s c).2 calls)

/-- Every event of a sequence of calls is created under a new id. -/
def FreshRun : List Event → List Call → Prop
  | _, [] => True
  | events, c :: calls => Fresh events c ∧ FreshRun (Memory.answer events c).2 calls

/-- **The stores hold the same events after the same calls.** -/
theorem run_refines {calls : List Call} (hcalls : FreshRun events calls) :
    run (Sqlite.answer toRfc3339 duplicate) (events.map (Sqlite.rowOf toRfc3339)) calls =
      ((run Memory.answer events calls).1,
        (run Memory.answer events calls).2.map (Sqlite.rowOf toRfc3339)) := by
  induction calls generalizing events with
  | nil => rfl
  | cons c calls ih =>
    obtain ⟨hc, hrest⟩ := hcalls
    rw [run, run, sqlite_refines hc, ih hrest]
    rfl

section Filters

variable (hformat : RendersRfc3339 toRfc3339) (hevents : ∀ e ∈ events, e.eventTime.InYears)
  {asOf : DateTime} (hasOf : asOf.InYears)
include hformat hevents hasOf

/-- The events that are due are the same. -/
theorem getRunnableEvents_eq :
    Sqlite.getRunnableEvents toRfc3339 (events.map (Sqlite.rowOf toRfc3339)) asOf =
      Memory.getRunnableEvents events asOf := by
  rw [Sqlite.getRunnableEvents, Memory.getRunnableEvents, List.filter_map, List.map_map]
  congr 2
  refine List.filter_congr fun e he => ?_
  simp [Sqlite.rowOf, columnLe_dtToString hformat (hevents e he) hasOf]

/-- The events of a name and a key are the same. -/
theorem getEvents_eq (eventName eventKey : String) :
    Sqlite.getEvents toRfc3339 (events.map (Sqlite.rowOf toRfc3339)) eventName eventKey asOf =
      Memory.getEvents events eventName eventKey asOf := by
  rw [Sqlite.getEvents, Memory.getEvents, List.filter_map, List.map_map]
  congr 2
  refine List.filter_congr fun e he => ?_
  show (decide (e.eventName = eventName) && decide (e.eventKey = eventKey) &&
    columnLe (dtToString toRfc3339 e.eventTime) (dtToString toRfc3339 asOf)) = _
  rw [columnLe_dtToString hformat (hevents e he) hasOf, Bool.eq_iff_iff]
  simp [and_assoc]

end Filters

/-- The year of an event that is created is from 0 to 9999. -/
def Call.InYears : Call → Prop
  | .createEvent e _ => e.eventTime.InYears
  | .markEventProcessed _ | .markEventUnprocessed _ => True

theorem mark_inYears {id : String} {isProcessed : Bool}
    (hevents : ∀ e ∈ events, e.eventTime.InYears) :
    ∀ e ∈ (Memory.mark events id isProcessed).2, e.eventTime.InYears := by
  rw [Memory.mark]
  cases Table.get Event.id events id with
  | none => exact hevents
  | some _ =>
    refine List.forall_mem_map.mpr fun e he => ?_
    split_ifs
    · exact hevents e he
    · exact hevents e he

theorem answer_inYears {c : Call} (hevents : ∀ e ∈ events, e.eventTime.InYears)
    (hc : Fresh events c) (hyear : c.InYears) :
    ∀ e ∈ (Memory.answer events c).2, e.eventTime.InYears := by
  cases c with
  | createEvent e generated =>
    have hnew : ∀ e' ∈ events, e'.id ≠ storedId e generated := hc
    have hput := Table.put_of_forall_ne (a := { e with id := storedId e generated }) hnew
    rw [Memory.answer, Memory.createEvent]
    simp only [Prod.map_snd, id_eq, hput]
    exact List.forall_mem_append.mpr ⟨hevents, List.forall_mem_singleton.mpr hyear⟩
  | markEventProcessed eventId => exact mark_inYears hevents
  | markEventUnprocessed eventId => exact mark_inYears hevents

theorem run_inYears {calls : List Call} (hevents : ∀ e ∈ events, e.eventTime.InYears)
    (hcalls : FreshRun events calls) (hyears : ∀ c ∈ calls, c.InYears) :
    ∀ e ∈ (run Memory.answer events calls).2, e.eventTime.InYears := by
  induction calls generalizing events with
  | nil => exact hevents
  | cons c calls ih =>
    obtain ⟨hc, hrest⟩ := hcalls
    rw [List.forall_mem_cons] at hyears
    exact ih (answer_inYears hevents hc hyears.1) hrest hyears.2

/-- **After the same calls, the same events are due in both stores.** -/
theorem runnable_after_run (hformat : RendersRfc3339 toRfc3339) {calls : List Call}
    (hcalls : FreshRun [] calls) (hyears : ∀ c ∈ calls, c.InYears) {asAt : DateTime}
    (hasAt : asAt.InYears) :
    Sqlite.getRunnableEvents toRfc3339 (run (Sqlite.answer toRfc3339 duplicate) [] calls).2 asAt =
      Memory.getRunnableEvents (run Memory.answer [] calls).2 asAt := by
  have hrun : run (Sqlite.answer toRfc3339 duplicate) [] calls =
      ((run Memory.answer [] calls).1,
        (run Memory.answer [] calls).2.map (Sqlite.rowOf toRfc3339)) := run_refines hcalls
  rw [hrun]
  exact getRunnableEvents_eq hformat (run_inYears (by simp) hcalls hyears) hasAt

end Stores

end Events

/-! ## What is selected -/

/-- **The comparison of texts is that of times, and the stores select the same**, but for the
claimed subscriptions that SQLite lists: so `get_subscriptions` selects the same exactly if none of
those it asks for is claimed. -/
theorem timeFilters_agree {toRfc3339 : DateTime → String} (hformat : RendersRfc3339 toRfc3339) :
    (∀ a b : DateTime, a.InYears → b.InYears →
      cmpColumn (dtToString toRfc3339 a) (dtToString toRfc3339 b) = cmp a b) ∧
    (∀ (g : Registry) (asOf : DateTime), g.Valid DateTime.InYears → asOf.InYears →
      ∀ eventName eventKey,
        (∃ listed found, sqlite.getSubscriptions (rfc3339Columns toRfc3339) g eventName eventKey
            asOf = .ok listed ∧
          Memory.getSubscriptions (g.map memoryOf) eventName eventKey asOf = .ok found ∧
          listed.Perm (found ++ g.claimedFor eventName eventKey asOf)) ∧
        (Same List.Perm (Memory.getSubscriptions (g.map memoryOf) eventName eventKey asOf)
            (sqlite.getSubscriptions (rfc3339Columns toRfc3339) g eventName eventKey asOf) ↔
          g.claimedFor eventName eventKey asOf = []) ∧
        ∀ n, sqlite.getFirstOpenSubscription (rfc3339Columns toRfc3339) n g eventName eventKey
            asOf =
          Memory.getFirstOpenSubscription n (g.map memoryOf) eventName eventKey asOf) ∧
    (∀ (events : List Event) (asOf : DateTime), (∀ e ∈ events, e.eventTime.InYears) →
      asOf.InYears →
        Events.Sqlite.getRunnableEvents toRfc3339 (events.map (Events.Sqlite.rowOf toRfc3339))
            asOf = Events.Memory.getRunnableEvents events asOf ∧
        ∀ eventName eventKey,
          Events.Sqlite.getEvents toRfc3339 (events.map (Events.Sqlite.rowOf toRfc3339)) eventName
              eventKey asOf = Events.Memory.getEvents events eventName eventKey asOf) := by
  refine ⟨fun a b => cmpColumn_dtToString hformat, ?_, ?_⟩
  · intro g asOf hg hasOf eventName eventKey
    refine ⟨⟨_, _, rfl, rfl, ?_⟩, ?_, fun n => ?_⟩
    · rw [memory_open]
      exact sqlite_listed hformat hg hasOf
    · rw [Memory.getSubscriptions, memory_open]
      exact perm_iff_of_append (sqlite_listed hformat hg hasOf)
    · rw [Dialect.getFirstOpenSubscription, Memory.getFirstOpenSubscription, memory_open,
        ← pick_map, ← sqlite_open (rfc3339Columns_exact hformat) hg hasOf]
      rfl
  · intro events asOf hevents hasOf
    exact ⟨Events.getRunnableEvents_eq hformat hevents hasOf,
      Events.getEvents_eq hformat hevents hasOf⟩

/-- A function that writes times in this format. -/
def rfc3339 (t : DateTime) : String := String.ofList (text (CivilTime.ofInstant t))

theorem rendersRfc3339 : RendersRfc3339 rfc3339 := by
  intro t _
  rw [rfc3339, CivilTime.ofInstant_instant]

/-- A subscription that a worker has claimed. -/
def claimedSubscription : Row where
  sub := claim "token" "worker" 30000000000 (.new "s" "w" 0 "p" "paid" "order" 0)
  terminated := false

theorem claimedSubscription_valid : Registry.Valid DateTime.InYears [claimedSubscription] where
  nodup := List.nodup_singleton _
  times := by
    rw [List.forall_mem_singleton]
    decide

/-- Half a second after the epoch comes after it, in the texts as well. With a claimed subscription
for one event, both stores list the same for another one, and have no other one open. -/
theorem timeFilters_agree_half_second :
    cmpColumn (dtToString rfc3339 0) (dtToString rfc3339 500000000) = .lt ∧
    Same List.Perm (Memory.getSubscriptions ([claimedSubscription].map memoryOf) "sent" "order"
        500000000)
      (sqlite.getSubscriptions (rfc3339Columns rfc3339) [claimedSubscription] "sent" "order"
        500000000) ∧
    ∀ n, sqlite.getFirstOpenSubscription (rfc3339Columns rfc3339) n [claimedSubscription] "paid"
      "order" 500000000 = .ok none := by
  obtain ⟨htexts, hsubscriptions, -⟩ := timeFilters_agree rendersRfc3339
  have hstores := hsubscriptions [claimedSubscription] 500000000 claimedSubscription_valid
    (by decide)
  refine ⟨(htexts 0 500000000 (by decide) (by decide)).trans (by decide),
    (hstores "sent" "order").2.1.mpr (by decide), fun n => ?_⟩
  rw [(hstores "paid" "order").2.2 n]
  rfl

/-- SQLite lists a claimed subscription that the in-memory store does not list. -/
theorem claimed_listed : ¬∀ (g : Registry) (asOf : DateTime), g.Valid DateTime.InYears →
    asOf.InYears → ∀ eventName eventKey,
      Same List.Perm (Memory.getSubscriptions (g.map memoryOf) eventName eventKey asOf)
        (sqlite.getSubscriptions (rfc3339Columns rfc3339) g eventName eventKey asOf) := by
  intro h
  have hperm := h [claimedSubscription] 0 claimedSubscription_valid (by decide) "paid" "order"
  have hmemory : Memory.getSubscriptions ([claimedSubscription].map memoryOf) "paid" "order" 0 =
      .ok [] := by rfl
  have hsqlite : sqlite.getSubscriptions (rfc3339Columns rfc3339) [claimedSubscription] "paid"
      "order" 0 = .ok [claimedSubscription.sub] := by rfl
  rw [hmemory, hsqlite] at hperm
  exact absurd (List.Perm.length_eq hperm) (by decide)

end Wfe
