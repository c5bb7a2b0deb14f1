import Wfe.Backends.CommandBatches

/-!
# Scheduled commands are kept

In SQLite, too, what is owed always has a row: the row that a run deletes is that of the command it
has handled, and no other row is given its id. The three stores therefore lose no command in runs
that meet their conditions, and each of them can lose one in a run that does not.

## Main definitions

* `Rows.Tracks`: the row of an id is that of a command
* `Settled`: the invariant in SQLite

## Main results

* `kept_of_conditions`: runs that meet their conditions lose no command
* `command_lost`: in each of the stores a command can be lost
-/

namespace Wfe.Commands

/-! ## The SQLite store -/

section Sqlite

open Program

/-- Ids are below the next one and belong to one key, and names have their texts. -/
structure Rows.Sound (s : Rows) : Prop where
  lt : ∀ r ∈ s.rows, r.id < s.next
  unique : ∀ r ∈ s.rows, ∀ r' ∈ s.rows, r.id = r'.id → r.key = r'.key
  named : ∀ r ∈ s.rows, ∃ n, r.commandName = commandNameToStr n

/-- A row with the id, if there is one, is that of the command; and the id will not be given to
another row. -/
def Rows.Tracks (s : Rows) (i : ℕ × ScheduledCommand) : Prop :=
  i.1 < s.next ∧ ∀ r ∈ s.rows, r.id = i.1 → r.key = i.2.key

section Rows

variable {s : Rows} {c : ScheduledCommand} {i : ℕ × ScheduledCommand}

theorem Rows.sound_empty : Rows.empty.Sound := ⟨by simp [empty], by simp [empty], by simp [empty]⟩

theorem Rows.Sound.append (h : s.Sound) : (s.append c).Sound where
  lt r hr := by
    rcases List.mem_append.mp hr with hr | hr
    · exact Nat.lt_succ_of_lt (h.lt r hr)
    · obtain rfl : r = c.row s.next := by simpa using hr
      exact Nat.lt_succ_self _
  unique r hr r' hr' hid := by
    rcases List.mem_append.mp hr with hr | hr <;> rcases List.mem_append.mp hr' with hr' | hr'
    · exact h.unique r hr r' hr' hid
    · obtain rfl : r' = c.row s.next := by simpa using hr'
      exact absurd hid (Nat.ne_of_lt (h.lt r hr))
    · obtain rfl : r = c.row s.next := by simpa using hr
      exact absurd hid.symm (Nat.ne_of_lt (h.lt r' hr'))
    · obtain rfl : r = c.row s.next := by simpa using hr
      obtain rfl : r' = c.row s.next := by simpa using hr'
      rfl
  named r hr := by
    rcases List.mem_append.mp hr with hr | hr
    · exact h.named r hr
    · obtain rfl : r = c.row s.next := by simpa using hr
      exact ⟨c.commandName, rfl⟩

theorem Rows.Sound.insertOrIgnore (h : s.Sound) : (s.insertOrIgnore c).Sound := by
  rw [Rows.insertOrIgnore]
  split_ifs
  · exact h
  · exact h.append

theorem Rows.Sound.delete (h : s.Sound) (p : Row → Bool) : (s.delete p).Sound where
  lt r hr := h.lt r (Rows.mem_delete.mp hr).1
  unique r hr r' hr' := h.unique r (Rows.mem_delete.mp hr).1 r' (Rows.mem_delete.mp hr').1
  named r hr := h.named r (Rows.mem_delete.mp hr).1

theorem Rows.Tracks.insertOrIgnore (h : s.Tracks i) : (s.insertOrIgnore c).Tracks i := by
  rw [Rows.insertOrIgnore]
  split_ifs
  · exact h
  · refine ⟨Nat.lt_succ_of_lt h.1, fun r hr hid => ?_⟩
    rcases List.mem_append.mp hr with hr | hr
    · exact h.2 r hr hid
    · obtain rfl : r = c.row s.next := by simpa using hr
      exact absurd hid.symm (Nat.ne_of_lt h.1)

theorem Rows.Tracks.delete (h : s.Tracks i) (p : Row → Bool) : (s.delete p).Tracks i :=
  ⟨h.1, fun r hr => h.2 r (Rows.mem_delete.mp hr).1⟩

variable {fromStr : String → Except String CommandName}
  (hfromStr : ∀ n, fromStr ("\"" ++ commandNameToStr n ++ "\"") = .ok n)
include hfromStr

/-- What is read of a row is tracked. -/
theorem Rows.Sound.tracks (h : s.Sound) {r : Row} (hr : r ∈ s.rows)
    (hi : r.entry (deserialize fromStr) = .ok i) : s.Tracks i := by
  obtain ⟨hid, hcommand⟩ := Row.entry_eq_ok hi
  obtain ⟨hname, hdata⟩ := Row.command_eq_ok hcommand
  obtain ⟨n, hn⟩ := h.named r hr
  have hn' : n = i.2.commandName := by
    rw [hn, deserialize, hfromStr n] at hname
    exact Except.ok.inj hname
  refine ⟨hid ▸ h.lt r hr, fun r' hr' hid' => ?_⟩
  rw [h.unique r' hr' r hr (hid'.trans hid)]
  exact Prod.ext (hn.trans (congrArg commandNameToStr hn')) hdata.symm

end Rows

variable {fromStr : String → Except String CommandName} {P P' : Pool (sqlite fromStr)} {t : ℕ}

/-- The commands a run has in hand, with the ids of their rows. -/
def Turn.items (g : Turn) : List (ℕ × ScheduledCommand) := g.current.toList ++ g.pending

theorem Sqlite.handleEach_meets (commands : List (ℕ × ScheduledCommand)) :
    Meets (turns fromStr) (fun g _ => g.items = []) (handleEach commands)
      { pending := commands } := by
  induction commands with
  | nil => rfl
  | cons i commands ih =>
    obtain ⟨dbId, cmd⟩ := i
    refine ⟨⟨rfl, dbId, commands, rfl⟩, fun _ _ => ⟨⟨rfl, dbId, rfl⟩, fun r _ => ?_⟩⟩
    cases r with
    | error e => rfl
    | ok _ =>
      refine ⟨⟨rfl, cmd, rfl⟩, fun r _ => ?_⟩
      cases r with
      | error e => rfl
      | ok _ => exact ih

/-- Every operation makes its calls in order, and ends with nothing in hand. -/
theorem Sqlite.meets (op : CommandOp) : Meets (turns fromStr) (fun g _ => g.items = [])
    (op.program (Sqlite.processCommands fromStr)) {} := by
  cases op with
  | schedule command => exact ⟨trivial, fun _ _ => rfl⟩
  | process asOf =>
    refine meets_bind.mpr ⟨⟨rfl, rfl⟩, fun r _ => ?_⟩
    cases r with
    | error e => rfl
    | ok rows =>
      show Meets (turns fromStr) _ (handleRows (rows.mapM _)) (.ofRows (rows.mapM _))
      cases rows.mapM (Row.entry (deserialize fromStr)) with
      | error e => rfl
      | ok commands => exact handleEach_meets commands

/-- If the row of the command that a run is at is stored, the command has been passed to the handler
since it was scheduled, and is not owed when it has been handled. -/
structure Settling (s : Rows) (trace : List (ℕ × Exchange Store)) (u : ℕ) (g : Turn) : Prop where
  handling : ∀ i c, g.current = some (i, c) → (∃ r ∈ s.rows, r.id = i) → g.handled = false →
    PassedSince ScheduledCommand.key trace u c
  handled : ∀ i c, g.current = some (i, c) → (∃ r ∈ s.rows, r.id = i) → g.handled = true →
    ¬Owed ScheduledCommand.key trace c.key

/-- The table is sound, runs have commands of its rows in hand and settle them, and what is owed has
a row. -/
structure Settled (P : Pool (sqlite fromStr)) : Prop where
  conforms : Pool.Conforms (turns fromStr) {} (fun g _ => g.items = []) P
  sound : P.shared.Sound
  tracked : ∀ u, ∀ i ∈ (turn P u).items, P.shared.Tracks i
  stored : ∀ k, Owed ScheduledCommand.key P.trace k → P.shared.Has k
  settling : ∀ u, Settling P.shared P.trace u (turn P u)

theorem settling_of_none {s : Rows} {trace : List (ℕ × Exchange Store)} {u : ℕ} {g : Turn}
    (h : g.current = none) : Settling s trace u g := ⟨by simp [h], by simp [h]⟩

theorem settled_start : Settled (Pool.start (sqlite fromStr) .empty) where
  conforms := Pool.conforms_start _ rfl
  sound := Rows.sound_empty
  tracked _ _ h := by cases h
  stored _ h := absurd h not_owed_nil
  settling _ := settling_of_none rfl

theorem Settled.spawn {op : CommandOp} {a : CommandOutcome} (h : Settled P)
    (ha : (P.threads t).rest = .ret a) : Settled (P.spawn t op) where
  conforms := h.conforms.spawn (Sqlite.meets op)
  sound := h.sound
  tracked u := by
    by_cases hu : u = t
    · subst hu
      rw [turn, Pool.ghost_spawn_self]
      rintro i ⟨⟩
    · rw [turn, Pool.ghost_spawn_of_ne (S := sqlite fromStr) op hu]
      exact h.tracked u
  stored := h.stored
  settling u := by
    by_cases hu : u = t
    · subst hu
      rw [turn, Pool.ghost_spawn_self]
      exact settling_of_none rfl
    · rw [turn, Pool.ghost_spawn_of_ne (S := sqlite fromStr) op hu]
      exact h.settling u

/-- A run has nothing new in hand after a call other than the reading of rows. -/
theorem Turn.mem_items_next {g : Turn} {call : StoreCall} {r : call.Reply}
    (haccept : (turns fromStr).accept g call)
    (hselect : ∀ asOf rows, (⟨call, r⟩ : Exchange Store) ≠ ⟨.select asOf, .ok rows⟩)
    {i : ℕ × ScheduledCommand} (hi : i ∈ ((turns fromStr).next g call r).items) : i ∈ g.items := by
  cases call with
  | insert c => exact hi
  | handler c =>
    obtain ⟨-, id, rest, hpending⟩ := haccept
    have hi' : i ∈ g.pending.head?.toList ++ g.pending.tail := hi
    rw [hpending] at hi'
    exact List.mem_append_right _ (hpending ▸ hi')
  | select asOf =>
    cases r with
    | error e => cases hi
    | ok rows => exact absurd rfl (hselect asOf rows)
  | returned c =>
    cases r with
    | error e => cases hi
    | ok _ => exact hi
  | delete id =>
    cases r with
    | error e => cases hi
    | ok _ => exact List.mem_append_right _ hi
  | drain asOf | deleteDue asOf => exact haccept.elim

section Call

variable {call : StoreCall} {r : call.Reply} {o : Fault} {s : Rows}
  {p : Program Store CommandOutcome}

/-- An exchange that does not schedule the command a run is at, and gives its id to no other row,
leaves it to be settled. -/
theorem Settling.frame {x : ℕ × Exchange Store} {trace : List (ℕ × Exchange Store)} {u : ℕ}
    {g : Turn} {s s' : Rows} (h : Settling s trace u g)
    (hs : ∀ i c, g.current = some (i, c) → (∃ r ∈ s'.rows, r.id = i) → ∃ r ∈ s.rows, r.id = i)
    (hx : ∀ i c, g.current = some (i, c) → (∃ r ∈ s.rows, r.id = i) → ∀ v d, x = scheduled v d →
      d.key ≠ c.key) : Settling s' (trace ++ [x]) u g where
  handling i c hc hrow hhandled :=
    (h.handling i c hc (hs i c hc hrow) hhandled).concat (hx i c hc (hs i c hc hrow))
  handled i c hc hrow hhandled howed :=
    h.handled i c hc (hs i c hc hrow) hhandled (howed.before (hx i c hc (hs i c hc hrow)))

/-- The command that thread `t` is at, after a call of its own. -/
theorem Settling.next {x : Exchange Store} {g : Turn} {trace : List (ℕ × Exchange Store)}
    {s : Rows} (h : Settling s trace t g) (haccept : (turns fromStr).accept g x.1)
    (hinsert : ∀ c, x ≠ ⟨.insert c, .ok ()⟩) (hdelete : ∀ id, x ≠ ⟨.delete id, .ok ()⟩) :
    Settling s (trace ++ [(t, x)]) t ((turns fromStr).next g x.1 x.2) := by
  obtain ⟨call, r⟩ := x
  cases call with
  | insert c =>
    refine h.frame (fun _ _ _ hrow => hrow) fun _ _ _ _ v d hd => ?_
    exact absurd (congrArg Prod.snd hd) (hinsert d)
  | select asOf =>
    cases r with
    | error e => exact settling_of_none rfl
    | ok rows =>
      refine settling_of_none ?_
      show (Turn.ofRows (rows.mapM _)).current = none
      cases rows.mapM (Row.entry (deserialize fromStr)) <;> rfl
  | handler c =>
    obtain ⟨-, id, rest, hpending⟩ := haccept
    have hcurrent (i : ℕ) (d : ScheduledCommand) (hd : g.pending.head? = some (i, d)) : d = c := by
      rw [hpending] at hd
      cases hd
      rfl
    refine ⟨fun i d hd _ _ => ?_, fun _ _ _ _ h => (by cases h)⟩
    obtain rfl := hcurrent i d hd
    exact passedSince_passed
  | returned c =>
    cases r with
    | error e => exact settling_of_none rfl
    | ok _ =>
      obtain ⟨hhandled, id, hcurrent⟩ := haccept
      refine ⟨fun _ _ _ _ h => (by cases h), fun i d hd hrow _ howed => ?_⟩
      -- The handler has returned, and the command was not scheduled in between.
      obtain rfl : d = c := congrArg Prod.snd (Option.some.inj (hd.symm.trans hcurrent))
      have hpassed := h.handling i d hd hrow hhandled
      rcases owed_concat howed with ⟨v, d', hd', -⟩ | ⟨-, hnot⟩
      · simp [scheduled] at hd'
      · exact hnot t d rfl rfl hpassed
  | delete id =>
    cases r with
    | error e => exact settling_of_none rfl
    | ok _ => exact absurd rfl (hdelete id)
  | drain asOf | deleteDue asOf => exact haccept.elim

section Answer

variable (hs : (sqlite fromStr).answer o t P.shared call = some (r, s))
  {i : ℕ × ScheduledCommand}
include hs

theorem Rows.Sound.answer (h : P.shared.Sound) : s.Sound := by
  rcases Rows.answer_cases hs with ⟨c, -, rfl⟩ | ⟨id, -, rfl⟩ | ⟨asOf, -, rfl⟩ | ⟨asOf, -, rfl⟩ |
    ⟨-, -, rfl⟩
  · exact h.insertOrIgnore
  · exact h.delete _
  · exact h.delete _
  · exact h
  · exact h

theorem Rows.Tracks.answer (h : P.shared.Tracks i) : s.Tracks i := by
  rcases Rows.answer_cases hs with ⟨c, -, rfl⟩ | ⟨id, -, rfl⟩ | ⟨asOf, -, rfl⟩ | ⟨asOf, -, rfl⟩ |
    ⟨-, -, rfl⟩
  · exact h.insertOrIgnore
  · exact h.delete _
  · exact h.delete _
  · exact h
  · exact h

/-- The id of a command that is tracked is not given to a new row. -/
theorem Rows.Tracks.exists_of_answer (h : P.shared.Tracks i) (hrow : ∃ row ∈ s.rows, row.id = i.1) :
    ∃ row ∈ P.shared.rows, row.id = i.1 := by
  obtain ⟨row, hrow, hid⟩ := hrow
  rcases Rows.answer_cases hs with ⟨c, -, rfl⟩ | ⟨id, -, rfl⟩ | ⟨asOf, -, rfl⟩ | ⟨asOf, -, rfl⟩ |
    ⟨-, -, rfl⟩
  · rcases Rows.mem_insertOrIgnore hrow with hrow | rfl
    · exact ⟨row, hrow, hid⟩
    · exact absurd hid.symm (Nat.ne_of_lt h.1)
  · exact ⟨row, (Rows.mem_delete.mp hrow).1, hid⟩
  · exact ⟨row, (Rows.mem_delete.mp hrow).1, hid⟩
  · exact ⟨row, hrow, hid⟩
  · exact ⟨row, hrow, hid⟩

end Answer

variable (h : Settled P) (hs : (sqlite fromStr).answer o t P.shared call = some (r, s))
  (haccept : (turns fromStr).accept (turn P t) call)
include h hs

/-- A call other than the deletion of its row leaves the command of a run to be settled. -/
theorem Settled.settling_frame (hapart : Apart P t ⟨call, r⟩) (u : ℕ) :
    Settling s (P.trace ++ [(t, ⟨call, r⟩)]) u (turn P u) := by
  have htracks (i : ℕ) (c : ScheduledCommand) (hc : (turn P u).current = some (i, c)) :
      P.shared.Tracks (i, c) := h.tracked u (i, c) (by simp [Turn.items, hc])
  refine (h.settling u).frame (fun i c hc => (htracks i c hc).exists_of_answer hs) ?_
  rintro i c hc ⟨row, hrow, hid⟩ v d hd hk
  cases hd
  exact hapart u i c hc hk.symm row hrow hid

include haccept

/-- No call deletes a row that is owed. -/
theorem Settled.has_of_owed {k : String × String}
    (howed : Owed ScheduledCommand.key (P.trace ++ [(t, ⟨call, r⟩)]) k) : s.Has k := by
  rcases Rows.answer_cases hs with ⟨c, hx, rfl⟩ | ⟨id, hx, rfl⟩ | ⟨asOf, hx, -⟩ | ⟨asOf, hx, rfl⟩ |
    ⟨hinsert, -, rfl⟩
  · cases hx
    refine Rows.has_insertOrIgnore ?_
    rcases owed_concat howed with ⟨u, d, hd, hk⟩ | ⟨hbefore, -⟩
    · cases hd
      exact .inr hk
    · exact .inl (h.stored k hbefore)
  · cases hx
    obtain ⟨hhandled, c, hcurrent⟩ := haccept
    have hbefore := howed.before (by simp [scheduled])
    obtain ⟨row, hrow, rfl⟩ := h.stored k hbefore
    refine ⟨row, Rows.mem_delete.mpr ⟨hrow, ?_⟩, rfl⟩
    -- The row that is deleted is that of the command that has been handled.
    rw [decide_eq_false_iff_not]
    rintro rfl
    have htracks := h.tracked t (row.id, c) (by simp [Turn.items, hcurrent])
    rw [htracks.2 row hrow rfl] at hbefore
    exact (h.settling t).handled row.id c hcurrent ⟨row, hrow, rfl⟩ hhandled hbefore
  · cases hx
    exact haccept.elim
  · cases hx
    exact h.stored k (howed.before (by simp [scheduled]))
  · exact h.stored k (howed.before fun u d hd => absurd (congrArg Prod.snd hd) (hinsert d))

/-- Every run settles the command it is at. -/
theorem Settled.settling_proceed (hapart : Apart P t ⟨call, r⟩) (u : ℕ) :
    Settling s (P.trace ++ [(t, ⟨call, r⟩)]) u (turn (P.proceed t ⟨call, r⟩ p s) u) := by
  by_cases hu : u = t
  · subst hu
    rw [turn, Pool.ghost_proceed_self]
    rcases Rows.answer_cases hs with ⟨c, hx, -⟩ | ⟨id, hx, -⟩ | ⟨asOf, hx, -⟩ | ⟨asOf, hx, rfl⟩ |
      ⟨hinsert, -, rfl⟩
    · cases hx
      exact h.settling_frame hs hapart u
    · cases hx
      exact settling_of_none rfl
    · cases hx
      exact haccept.elim
    · cases hx
      exact (h.settling u).next haccept (by simp) (by simp)
    · by_cases hdelete : ∃ id, (⟨call, r⟩ : Exchange Store) = ⟨.delete id, .ok ()⟩
      · obtain ⟨id, hx⟩ := hdelete
        cases hx
        exact settling_of_none rfl
      · exact (h.settling u).next haccept hinsert fun id hx => hdelete ⟨id, hx⟩
  · rw [turn, Pool.ghost_proceed_of_ne _ _ _ hu]
    exact h.settling_frame hs hapart u

/-- Every run has commands of rows in hand. -/
theorem Settled.tracked_proceed
    (hfromStr : ∀ n, fromStr ("\"" ++ commandNameToStr n ++ "\"") = .ok n) (u : ℕ)
    {i : ℕ × ScheduledCommand} (hi : i ∈ (turn (P.proceed t ⟨call, r⟩ p s) u).items) :
    s.Tracks i := by
  by_cases hu : u = t
  · subst hu
    rw [turn, Pool.ghost_proceed_self] at hi
    by_cases hselect : ∃ asOf rows, (⟨call, r⟩ : Exchange Store) = ⟨.select asOf, .ok rows⟩
    · obtain ⟨asOf, rows, hx⟩ := hselect
      cases hx
      obtain ⟨hrows, rfl⟩ : rows = P.shared.due asOf o.order ∧ s = P.shared := by
        rcases Fault.attempt_cases (Option.some.inj hs) with ⟨e, he, -⟩ | ⟨hr, hs'⟩
        · cases he
        · exact ⟨Except.ok.inj hr, hs'⟩
      have hi' : i ∈ (Turn.ofRows (rows.mapM (Row.entry (deserialize fromStr)))).items := hi
      cases hmap : rows.mapM (Row.entry (deserialize fromStr)) with
      | error e =>
        rw [hmap] at hi'
        cases hi'
      | ok commands =>
        rw [hmap] at hi'
        obtain ⟨row, hrow, hentry⟩ := (mem_of_mapM hmap).1 i hi'
        rw [hrows] at hrow
        exact h.sound.tracks hfromStr (Rows.mem_due.mp hrow).1 hentry
    · refine (h.tracked u i (Turn.mem_items_next haccept ?_ hi)).answer hs
      exact fun asOf rows hx => hselect ⟨asOf, rows, hx⟩
  · rw [turn, Pool.ghost_proceed_of_ne _ _ _ hu] at hi
    exact (h.tracked u i hi).answer hs

end Call

theorem Settled.step (hfromStr : ∀ n, fromStr ("\"" ++ commandNameToStr n ++ "\"") = .ok n)
    (h : Settled P) (hstep : Pool.Step Apart P P') : Settled P' := by
  cases hstep with
  | spawn t op a ha => exact h.spawn ha
  | call t call k o r s hk hs hapart =>
    have haccept := h.conforms.accept hk
    exact {
      conforms := h.conforms.proceed hk trivial s
      sound := h.sound.answer hs
      tracked := fun u _ hi => h.tracked_proceed hs haccept hfromStr u hi
      stored := fun _ howed => h.has_of_owed hs haccept howed
      settling := h.settling_proceed hs haccept hapart }

end Sqlite

/-! ## Runs -/

/-- **Scheduled commands are kept.** In every state of a run of any number of calls that meet their
conditions, every command that has been scheduled is stored or has been handled since; in memory, it
may also be in the hands of a run of `process_commands` that has not given up. -/
theorem kept_of_conditions {fromStr : String → Except String CommandName}
    (hfromStr : ∀ n, fromStr ("\"" ++ commandNameToStr n ++ "\"") = .ok n) :
    (∀ P, Pool.Run Covered (Pool.start memory []) P →
      Kept id (fun c => c ∈ P.shared ∨ ∃ t, c ∈ (batch P t).commands) P.trace) ∧
    (∀ P, Pool.Run Apart (Pool.start (sqlite fromStr) .empty) P →
      Kept ScheduledCommand.key P.shared.Has P.trace) ∧
    (∀ P, Pool.Run Ahead (Pool.start postgres .empty) P →
      Kept ScheduledCommand.key P.shared.Has P.trace) := by
  refine ⟨fun P hrun => ?_, fun P hrun => ?_, fun P hrun => ?_⟩
  · have hheld : Held P := hrun.invariant (fun _ _ hP hstep => hP.step hstep) held_start
    exact hheld.kept
  · have hsettled : Settled P :=
      hrun.invariant (fun _ _ hP hstep => hP.step hfromStr hstep) settled_start
    exact kept_of_owed hsettled.stored
  · have hlisted : Listed P := hrun.invariant (fun _ _ hP hstep => hP.step hstep) listed_start
    exact kept_of_owed hlisted.stored

section Runs

/-- The deserializer on the names. -/
def jsonName (s : String) : Except String CommandName :=
  if s = "\"ProcessWorkflow\"" then .ok .processWorkflow
  else if s = "\"ProcessEvent\"" then .ok .processEvent
  else .error "unknown variant"

theorem jsonName_commandNameToStr (n : CommandName) :
    jsonName ("\"" ++ commandNameToStr n ++ "\"") = .ok n := by cases n <;> decide

instance (P : Pool memory) (t : ℕ) (x : Exchange Store) : Decidable (Covered P t x) :=
  match x with
  | ⟨.returned _, .error _⟩ =>
    inferInstanceAs (Decidable (∀ c ∈ (batch P t).commands, c ∈ P.shared))
  | ⟨.returned _, .ok _⟩ | ⟨.insert _, _⟩ | ⟨.drain _, _⟩ | ⟨.select _, _⟩ | ⟨.handler _, _⟩
  | ⟨.delete _, _⟩ | ⟨.deleteDue _, _⟩ => inferInstanceAs (Decidable True)

/-- Commands are scheduled only while no run of the first two threads is at a command. -/
def betweenTurns {fromStr : String → Except String CommandName} (P : Pool (sqlite fromStr))
    (_ : ℕ) : Exchange Store → Bool
  | ⟨.insert _, _⟩ => (List.range 2).all fun u => (turn P u).current.isNone
  | _ => true

theorem apart_of_betweenTurns {fromStr : String → Except String CommandName}
    {P : Pool (sqlite fromStr)} {t : ℕ} {x : Exchange Store} (hP : Pool.UnusedFrom 2 P)
    (h : betweenTurns P t x = true) : Apart P t x := by
  obtain ⟨call, r⟩ := x
  cases call with
  | insert c =>
    cases r with
    | error e => trivial
    | ok _ =>
      intro u id d hcurrent
      by_cases hu : u < 2
      · have hnone := List.all_eq_true.mp h u (List.mem_range.mpr hu)
        rw [hcurrent] at hnone
        cases hnone
      · rw [turn, hP.ghost_eq (Nat.le_of_not_lt hu)] at hcurrent
        cases hcurrent
  | drain _ | select _ | handler _ | returned _ | delete _ | deleteDue _ => trivial

/-- Commands are scheduled only for later than the times of the runs of the first two threads. -/
def forLater (P : Pool postgres) (_ : ℕ) : Exchange Store → Bool
  | ⟨.insert c, _⟩ =>
    (List.range 2).all fun u => (batch P u).asOf.all fun asOf => asOf < c.executeTime
  | _ => true

theorem ahead_of_forLater {P : Pool postgres} {t : ℕ} {x : Exchange Store}
    (hP : Pool.UnusedFrom 2 P) (h : forLater P t x = true) : Ahead P t x := by
  obtain ⟨call, r⟩ := x
  cases call with
  | insert c =>
    cases r with
    | error e => trivial
    | ok _ =>
      intro u asOf hasOf hdue
      by_cases hu : u < 2
      · have hlater := List.all_eq_true.mp h u (List.mem_range.mpr hu)
        rw [hasOf] at hlater
        have hlt : asOf < c.executeTime := by simpa using hlater
        omega
      · rw [batch, hP.ghost_eq (Nat.le_of_not_lt hu)] at hasOf
        cases hasOf
  | drain _ | select _ | handler _ | returned _ | delete _ | deleteDue _ => trivial

/-- A command that has been scheduled by the call of an exchange. -/
def commandScheduled : ℕ × Exchange Store → Option ScheduledCommand
  | (_, ⟨.insert c, .ok _⟩) => some c
  | _ => none

/-- A command on which a handler has returned Ok. -/
def commandSucceeded : ℕ × Exchange Store → Option ScheduledCommand
  | (_, ⟨.returned c, .ok _⟩) => some c
  | _ => none

/-- A command that is kept is stored, or a handler has returned Ok on it. -/
theorem Kept.stored_or_succeeded {κ : Type} {key : ScheduledCommand → κ} {stored : κ → Prop}
    {l : List (ℕ × Exchange Store)} (h : Kept key stored l) {n : ℕ} {c : ScheduledCommand}
    (hn : l[n]?.bind commandScheduled = some c) :
    stored (key c) ∨ ∃ d ∈ (l.drop (n + 1)).filterMap commandSucceeded, key d = key c := by
  obtain ⟨x, hx, hc⟩ := Option.bind_eq_some_iff.mp hn
  obtain ⟨t, call, r⟩ := x
  have hsplit : l = l.take n ++ (t, ⟨call, r⟩) :: l.drop (n + 1) := by
    obtain ⟨hlt, hget⟩ := List.getElem?_eq_some_iff.mp hx
    rw [← hget, List.getElem_cons_drop, List.take_append_drop]
  have hscheduled : (t, (⟨call, r⟩ : Exchange Store)) = scheduled t c := by
    cases call with
    | insert d =>
      cases r with
      | error e => cases hc
      | ok _ =>
        cases hc
        rfl
    | drain _ | select _ | handler _ | returned _ | delete _ | deleteDue _ => cases hc
  rw [hscheduled] at hsplit
  rcases h _ t c _ hsplit with hstored | ⟨u, d, hd, hsub⟩
  · exact .inl hstored
  · exact .inr ⟨d, List.mem_filterMap.mpr ⟨succeeded u d, hsub.subset (by simp), rfl⟩, hd⟩

end Runs

/-- A command for the time of one millisecond. -/
def early (data : String) : ScheduledCommand := ⟨.processWorkflow, data, 1⟩

/-- A command for the time of nine milliseconds. -/
def late (data : String) : ScheduledCommand := ⟨.processEvent, data, 9⟩

/-- In memory, one of two commands is due, and is handled while another is scheduled. -/
def memoryRun : List (Pool.Move memory) :=
  [.spawn 0 (.schedule (early "a")), .call 0 {}, .spawn 0 (.schedule (late "b")), .call 0 {},
    .spawn 0 (.process 5000000), .call 0 {}, .call 0 {}, .spawn 1 (.schedule (early "a")),
    .call 1 {}, .call 0 {}]

/-- In SQLite, a command is handled, and another one is scheduled before that. -/
def sqliteRun : List (Pool.Move (sqlite jsonName)) :=
  [.spawn 0 (.schedule (early "a")), .call 0 {}, .spawn 0 (.process 5000000), .call 0 {},
    .spawn 1 (.schedule (early "b")), .call 1 {}, .call 0 {}, .call 0 {}, .call 0 {}]

/-- In Postgres, a command is handled, and another one is scheduled meanwhile. -/
def postgresRun : List (Pool.Move postgres) :=
  [.spawn 0 (.schedule (early "a")), .call 0 {}, .spawn 0 (.process 5000000), .call 0 {},
    .call 0 {}, .spawn 1 (.schedule (late "b")), .call 1 {}, .call 0 {}, .call 0 {}]

theorem kept_meanwhile :
    (∃ P, Pool.Run Covered (Pool.start memory []) P ∧ P.shared = [late "b", early "a"] ∧
      Kept id (fun c => c ∈ P.shared ∨ ∃ t, c ∈ (batch P t).commands) P.trace) ∧
    (∃ P, Pool.Run Apart (Pool.start (sqlite jsonName) .empty) P ∧
      P.shared.rows = [(early "b").row 1] ∧ Kept ScheduledCommand.key P.shared.Has P.trace) ∧
    ∃ P, Pool.Run Ahead (Pool.start postgres .empty) P ∧ P.shared.rows = [(late "b").row 1] ∧
      Kept ScheduledCommand.key P.shared.Has P.trace := by
  have hkept := kept_of_conditions jsonName_commandNameToStr
  refine ⟨?_, ?_, ?_⟩
  · have hfacts : (Pool.schedule (fun P t x => decide (Covered P t x)) memoryRun
        (Pool.start memory [])).map (·.shared) = some [late "b", early "a"] := by decide
    obtain ⟨P, hP, hshared⟩ := Option.map_eq_some_iff.mp hfacts
    have hrun := Pool.run_of_schedule_decide (n := 2) (fun _ _ => rfl) (by rfl) hP
    exact ⟨P, hrun, hshared, hkept.1 P hrun⟩
  · have hfacts : (Pool.schedule betweenTurns sqliteRun
        (Pool.start (sqlite jsonName) .empty)).map (·.shared.rows) =
        some [(early "b").row 1] := by decide
    obtain ⟨P, hP, hshared⟩ := Option.map_eq_some_iff.mp hfacts
    have hrun := Pool.run_of_schedule_unused (n := 2) (fun _ _ _ => apart_of_betweenTurns)
      (fun _ _ => rfl) (by rfl) hP
    exact ⟨P, hrun, hshared, hkept.2.1 P hrun⟩
  · have hfacts : (Pool.schedule forLater postgresRun (Pool.start postgres .empty)).map
        (·.shared.rows) = some [(late "b").row 1] := by decide
    obtain ⟨P, hP, hshared⟩ := Option.map_eq_some_iff.mp hfacts
    have hrun := Pool.run_of_schedule_unused (n := 2) (fun _ _ _ => ahead_of_forLater)
      (fun _ _ => rfl) (by rfl) hP
    exact ⟨P, hrun, hshared, hkept.2.2 P hrun⟩

section Lost

/-- In memory, the handler fails on the first of two commands that are due. -/
def memoryLoss : List (Pool.Move memory) :=
  [.spawn 0 (.schedule (early "a")), .call 0 {}, .spawn 0 (.schedule (early "b")), .call 0 {},
    .spawn 0 (.process 5000000), .call 0 {}, .call 0 {},
    .call 0 { handled := .error (.other "failed") }]

/-- In SQLite, a command that has been handled is scheduled again before its row is deleted. -/
def sqliteLoss : List (Pool.Move (sqlite jsonName)) :=
  [.spawn 0 (.schedule (early "a")), .call 0 {}, .spawn 0 (.process 5000000), .call 0 {},
    .call 0 {}, .call 0 {}, .spawn 1 (.schedule (early "a")), .call 1 {}, .call 0 {}]

/-- In Postgres, a command is scheduled after the due rows have been read and before they are
deleted. -/
def postgresLoss : List (Pool.Move postgres) :=
  [.spawn 0 (.process 5000000), .call 0 {}, .spawn 1 (.schedule (early "a")), .call 1 {},
    .call 0 {}]

/-- The pool after a schedule in which everything may happen. -/
abbrev free {S : Machine Store} (s : S.State) (ms : List (Pool.Move S)) : Option (Pool S) :=
  Pool.schedule (fun _ _ _ => decide True) ms (Pool.start S s)

/-- There is a run on two threads after which all have returned, nothing is stored, and no handler
has returned Ok since the `n`th exchange, which has scheduled a command. -/
theorem not_kept_of_facts {S : Machine Store} {s : S.State} {κ : Type} {key : ScheduledCommand → κ}
    {stored : S.State → κ → Prop} {isEmpty : S.State → Bool}
    (hempty : ∀ s, isEmpty s = true → ∀ k, ¬stored s k) {ms : List (Pool.Move S)}
    (hms : (ms.all fun m => m.thread < 2) = true) {n : ℕ} {c : ScheduledCommand}
    (hfacts : (free s ms).map (fun P => (isEmpty P.shared,
      (List.range 2).all fun t => (P.threads t).rest.finished,
      P.trace[n]?.bind commandScheduled, (P.trace.drop (n + 1)).filterMap commandSucceeded)) =
      some (true, true, some c, [])) :
    ¬∀ P, Pool.Run (fun _ _ _ => True) (Pool.start S s) P →
      (∀ t, (P.threads t).rest.finished = true) → Kept key (stored P.shared) P.trace := by
  intro hclaim
  obtain ⟨P, hP, hvalues⟩ := Option.map_eq_some_iff.mp hfacts
  simp only [Prod.mk.injEq] at hvalues
  obtain ⟨hnone, hfinished, hscheduled, hsucceeded⟩ := hvalues
  have hrun := Pool.run_of_schedule_decide (n := 2) (fun _ _ => rfl) hms hP
  have hall := ((Pool.idleFrom_start s).schedule hms hP).finished hfinished
  rcases (hclaim P hrun hall).stored_or_succeeded hscheduled with hstored | ⟨d, hd, -⟩
  · exact hempty P.shared hnone (key c) hstored
  · rw [hsucceeded] at hd
    cases hd

theorem Rows.not_has_of_isEmpty (s : Rows) (h : s.rows.isEmpty = true) (k : String × String) :
    ¬s.Has k := by
  simp [Rows.Has, List.isEmpty_iff.mp h]

/-- In each of the stores there is a run after which a command that has been scheduled is neither
stored nor has it been handled since, although all calls have returned. -/
theorem command_lost :
    (¬∀ P, Pool.Run (fun _ _ _ => True) (Pool.start memory []) P →
      (∀ t, (P.threads t).rest.finished = true) → Kept id (fun c => c ∈ P.shared) P.trace) ∧
    (¬∀ P, Pool.Run (fun _ _ _ => True) (Pool.start (sqlite jsonName) .empty) P →
      (∀ t, (P.threads t).rest.finished = true) →
        Kept ScheduledCommand.key P.shared.Has P.trace) ∧
    ¬∀ P, Pool.Run (fun _ _ _ => True) (Pool.start postgres .empty) P →
      (∀ t, (P.threads t).rest.finished = true) →
        Kept ScheduledCommand.key P.shared.Has P.trace := by
  refine ⟨?_, ?_, ?_⟩
  · have hfacts : (free [] memoryLoss).map (fun P => (P.shared.isEmpty,
        (List.range 2).all fun t => (P.threads t).rest.finished,
        P.trace[1]?.bind commandScheduled, (P.trace.drop 2).filterMap commandSucceeded)) =
        some (true, true, some (early "b"), []) := by decide
    exact not_kept_of_facts (fun s hs k => by simp [List.isEmpty_iff.mp hs]) (by rfl) hfacts
  · have hfacts : (free Rows.empty sqliteLoss).map (fun P => (P.shared.rows.isEmpty,
        (List.range 2).all fun t => (P.threads t).rest.finished,
        P.trace[4]?.bind commandScheduled, (P.trace.drop 5).filterMap commandSucceeded)) =
        some (true, true, some (early "a"), []) := by decide
    exact not_kept_of_facts Rows.not_has_of_isEmpty (by rfl) hfacts
  · have hfacts : (free Rows.empty postgresLoss).map (fun P => (P.shared.rows.isEmpty,
        (List.range 2).all fun t => (P.threads t).rest.finished,
        P.trace[1]?.bind commandScheduled, (P.trace.drop 2).filterMap commandSucceeded)) =
        some (true, true, some (early "a"), []) := by decide
    exact not_kept_of_facts Rows.not_has_of_isEmpty (by rfl) hfacts

end Lost

end Wfe.Commands
