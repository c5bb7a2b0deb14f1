import Wfe.Backends.Commands

/-!
# Commands that are owed

A command is owed while none with its key has been handled since it was scheduled. What is owed is
stored, or a run of `process_commands` has it in hand: this is the invariant in memory, where a run
that gives up must leave everything stored that it has in hand. In Postgres, what is owed always has
a row, since a run awaits all due rows that are owed until it deletes what is due.

## Main definitions

* `Owed`, `PassedSince`: commands that have to be handled, and those a handler is at
* `Awaits`: what a run in memory or in Postgres is about to handle
* `Held`, `Listed`: the invariants of these stores

## Main results

* `owed_concat`: what is owed after an exchange
* `Awaits.proceed`: what a run awaits is awaited until it has been handled
* `Held.step`, `Listed.step`: the invariants are kept
-/

namespace Wfe.Commands

/-! ## Commands that are owed -/

section Owed

variable {κ : Type} (key : ScheduledCommand → κ)

/-- A command with this key has been scheduled, and none has been handled since. -/
def Owed (trace : List (ℕ × Exchange Store)) (k : κ) : Prop :=
  ∃ before t c since, trace = before ++ scheduled t c :: since ∧ key c = k ∧ ¬Handled key k since

/-- Thread `t` has passed the command to the handler since one with its key was last scheduled. -/
def PassedSince (trace : List (ℕ × Exchange Store)) (t : ℕ) (c : ScheduledCommand) : Prop :=
  ∀ before u d since, trace = before ++ scheduled u d :: since → key d = key c →
    passed t c ∈ since

variable {key} {trace : List (ℕ × Exchange Store)} {x : ℕ × Exchange Store} {t : ℕ}
  {c : ScheduledCommand} {k : κ}

/-- Where what is owed is stored, all commands are kept. -/
theorem kept_of_owed {stored : κ → Prop} (h : ∀ k, Owed key trace k → stored k) :
    Kept key stored trace := by
  intro before t c since htrace
  by_cases hhandled : Handled key (key c) since
  · exact .inr hhandled
  · exact .inl (h (key c) ⟨before, t, c, since, htrace, rfl, hhandled⟩)

theorem not_owed_nil : ¬Owed key [] k := by
  rintro ⟨before, t, c, since, htrace, -⟩
  simp at htrace

/-- A list with one more element, split at one of its elements. -/
theorem concat_split {α : Type} {l before since : List α} {a b : α}
    (h : l ++ [a] = before ++ b :: since) :
    (since = [] ∧ b = a ∧ before = l) ∨ ∃ rest, since = rest ++ [a] ∧ l = before ++ b :: rest := by
  rcases List.eq_nil_or_concat' since with rfl | ⟨rest, last, rfl⟩
  · obtain ⟨rfl, hab⟩ := List.append_inj' h rfl
    cases hab
    exact .inl ⟨rfl, rfl, rfl⟩
  · have h' : l ++ [a] = (before ++ b :: rest) ++ [last] := by simpa using h
    obtain ⟨rfl, hlast⟩ := List.append_inj' h' rfl
    cases hlast
    exact .inr ⟨rest, rfl, rfl⟩

/-- What is owed after an exchange has been scheduled by it, or was owed before; and it has not
come back from a handler that it had been passed to since it was scheduled. -/
theorem owed_concat (h : Owed key (trace ++ [x]) k) :
    (∃ t c, x = scheduled t c ∧ key c = k) ∨
    Owed key trace k ∧ ∀ t c, x = succeeded t c → key c = k → ¬PassedSince key trace t c := by
  obtain ⟨before, u, d, since, htrace, hd, hhandled⟩ := h
  rcases concat_split htrace with ⟨-, hx, -⟩ | ⟨rest, rfl, rfl⟩
  · exact .inl ⟨u, d, hx.symm, hd⟩
  · refine .inr ⟨⟨before, u, d, rest, rfl, hd, fun hrest => hhandled ?_⟩, ?_⟩
    · obtain ⟨t, c, hc, hsub⟩ := hrest
      exact ⟨t, c, hc, hsub.trans (List.sublist_append_left ..)⟩
    · rintro t c rfl hc hpassed
      have hmem := hpassed before u d rest rfl (hd.trans hc.symm)
      exact hhandled ⟨t, c, hc, (List.singleton_sublist.mpr hmem).append (List.Sublist.refl _)⟩

/-- What is owed after an exchange that does not schedule it was owed before. -/
theorem Owed.before (h : Owed key (trace ++ [x]) k)
    (hx : ∀ t c, x = scheduled t c → key c ≠ k) : Owed key trace k := by
  rcases owed_concat h with ⟨t, c, hc, hk⟩ | ⟨hbefore, -⟩
  · exact absurd hk (hx t c hc)
  · exact hbefore

theorem PassedSince.concat (h : PassedSince key trace t c)
    (hx : ∀ u d, x = scheduled u d → key d ≠ key c) : PassedSince key (trace ++ [x]) t c := by
  intro before u d since htrace hd
  rcases concat_split htrace with ⟨-, hx', -⟩ | ⟨rest, rfl, rfl⟩
  · exact absurd hd (hx u d hx'.symm)
  · exact List.mem_append_left _ (h before u d rest rfl hd)

theorem passedSince_passed : PassedSince key (trace ++ [passed t c]) t c := by
  intro before u d since htrace hd
  rcases concat_split htrace with ⟨-, hx, -⟩ | ⟨rest, rfl, rfl⟩
  · simp [scheduled, passed] at hx
  · simp

end Owed

/-! ## Rows -/

/-- What is read of a list of rows, all of which can be read. -/
theorem mem_of_mapM {α β ε : Type} {f : α → Except ε β} {l : List α} {l' : List β}
    (h : l.mapM f = .ok l') :
    (∀ b ∈ l', ∃ a ∈ l, f a = .ok b) ∧ ∀ a ∈ l, ∃ b ∈ l', f a = .ok b := by
  induction l generalizing l' with
  | nil =>
    cases h
    simp
  | cons a l ih =>
    rw [List.mapM_cons] at h
    cases ha : f a with
    | error e => simp [ha, bind, Except.bind] at h
    | ok b =>
      cases hl : l.mapM f with
      | error e => simp [ha, hl, bind, Except.bind] at h
      | ok bs =>
        have hl' : b :: bs = l' := by simpa [ha, hl, bind, Except.bind, pure, Except.pure] using h
        subst hl'
        obtain ⟨hbs, hl⟩ := ih hl
        constructor
        · rintro b' (_ | ⟨_, hb'⟩)
          · exact ⟨a, List.mem_cons_self, ha⟩
          · obtain ⟨a', ha', hfa'⟩ := hbs b' hb'
            exact ⟨a', List.mem_cons_of_mem a ha', hfa'⟩
        · rintro a' (_ | ⟨_, ha'⟩)
          · exact ⟨b, List.mem_cons_self, ha⟩
          · obtain ⟨b', hb', hfa'⟩ := hl a' ha'
            exact ⟨b', List.mem_cons_of_mem b hb', hfa'⟩

theorem Row.command_eq_ok {name : String → Except WfeError CommandName} {r : Row}
    {c : ScheduledCommand} (h : r.command name = .ok c) :
    name r.commandName = .ok c.commandName ∧ c.data = r.data := by
  cases hname : name r.commandName with
  | error e => simp [command, hname, bind, Except.bind] at h
  | ok n =>
    have hc : (⟨n, r.data, r.executeTime⟩ : ScheduledCommand) = c := by
      simpa [command, hname, bind, Except.bind, pure, Except.pure] using h
    subst hc
    exact ⟨rfl, rfl⟩

theorem Row.entry_eq_ok {name : String → Except WfeError CommandName} {r : Row}
    {i : ℕ × ScheduledCommand} (h : r.entry name = .ok i) :
    i.1 = r.id ∧ r.command name = .ok i.2 := by
  cases hc : r.command name with
  | error e => simp [entry, hc, bind, Except.bind] at h
  | ok c =>
    have hi : (r.id, c) = i := by simpa [entry, hc, bind, Except.bind, pure, Except.pure] using h
    subst hi
    exact ⟨rfl, rfl⟩

theorem commandNameToStr_of_strToCommandName {s : String} {n : CommandName}
    (h : strToCommandName s = .ok n) : commandNameToStr n = s := by
  simp only [strToCommandName] at h
  split_ifs at h with hw he
  · cases h
    exact hw.symm
  · cases h
    exact he.symm

theorem Row.key_of_command {r : Row} {c : ScheduledCommand}
    (h : r.command strToCommandName = .ok c) : c.key = r.key := by
  obtain ⟨hname, hdata⟩ := Row.command_eq_ok h
  exact Prod.ext (commandNameToStr_of_strToCommandName hname) hdata

/-- A statement fails without effect, or has its effect. -/
theorem Fault.attempt_cases {α σ : Type} {o : Fault} {s s' s'' : σ} {r : α} {r' : Except String α}
    (h : o.attempt s r s' = (r', s'')) :
    (∃ e, r' = .error e ∧ s'' = s) ∨ r' = .ok r ∧ s'' = s' := by
  rw [attempt] at h
  split at h <;> cases h
  · exact .inl ⟨_, rfl, rfl⟩
  · exact .inr ⟨rfl, rfl⟩

namespace Rows

variable {s : Rows} {c : ScheduledCommand}

theorem mem_due {asOf : ℤ} {order : List Row} {r : Row} :
    r ∈ s.due asOf order ↔ r ∈ s.rows ∧ r.executeTime ≤ asOf := by
  have hfilter : r ∈ s.rows.filter (Row.isDue asOf) ↔ r ∈ s.rows ∧ r.executeTime ≤ asOf := by
    simp [Row.isDue]
  rw [due]
  split_ifs with horder
  · rw [(List.isPerm_iff.mp horder).mem_iff, hfilter]
  · exact hfilter

theorem mem_delete {p : Row → Bool} {r : Row} :
    r ∈ (s.delete p).rows ↔ r ∈ s.rows ∧ p r = false := by
  simp [delete]

/-- The row that is inserted has a new id, and all others were there before. -/
theorem mem_insertOrIgnore {r : Row} (h : r ∈ (s.insertOrIgnore c).rows) :
    r ∈ s.rows ∨ r = c.row s.next := by
  rw [insertOrIgnore] at h
  split_ifs at h
  · exact .inl h
  · simpa [append] using h

/-- If the key of a command is in use, there is a row for it already. -/
theorem has_of_any {k : String × String} (hany : s.rows.any (fun r => r.key = c.key) = true)
    (h : s.Has k ∨ c.key = k) : s.Has k := by
  rcases h with h | rfl
  · exact h
  · simpa [Has] using hany

theorem has_append {k : String × String} (h : s.Has k ∨ c.key = k) : (s.append c).Has k := by
  rcases h with ⟨r, hr, hk⟩ | rfl
  · exact ⟨r, List.mem_append_left _ hr, hk⟩
  · exact ⟨c.row s.next, by simp [append], rfl⟩

theorem has_insertOrIgnore {k : String × String} (h : s.Has k ∨ c.key = k) :
    (s.insertOrIgnore c).Has k := by
  rw [insertOrIgnore]
  split_ifs with hany
  · exact has_of_any hany h
  · exact has_append h

/-- A row of another key was there before, and one of this key is for the time of the command. -/
theorem mem_upsert {r : Row} (h : r ∈ (s.upsert c).rows) :
    (r.key = c.key ∧ r.executeTime = c.executeTime) ∨ (r.key ≠ c.key ∧ r ∈ s.rows) := by
  rw [upsert] at h
  split_ifs at h with hany
  · obtain ⟨r', hr', rfl⟩ := List.mem_map.mp h
    split_ifs with hk
    · exact .inl ⟨hk, rfl⟩
    · exact .inr ⟨hk, hr'⟩
  · rcases List.mem_append.mp h with hr | hr
    · exact .inr ⟨fun hk => hany (List.any_eq_true.mpr ⟨r, hr, by simpa using hk⟩), hr⟩
    · obtain rfl : r = c.row s.next := by simpa using hr
      exact .inl ⟨rfl, rfl⟩

theorem has_upsert {k : String × String} (h : s.Has k ∨ c.key = k) : (s.upsert c).Has k := by
  rw [upsert]
  split_ifs with hany
  · obtain ⟨r, hr, rfl⟩ := has_of_any hany h
    refine ⟨_, List.mem_map_of_mem hr, ?_⟩
    split_ifs <;> rfl
  · exact has_append h

/-- What a call does to the table. -/
theorem answer_cases {s' : Rows} {o : Fault} {inserted : ScheduledCommand → Rows} {call : StoreCall}
    {r : call.Reply} (hs : s.answer o inserted call = some (r, s')) :
    (∃ c, (⟨call, r⟩ : Exchange Store) = ⟨.insert c, .ok ()⟩ ∧ s' = inserted c) ∨
    (∃ id, (⟨call, r⟩ : Exchange Store) = ⟨.delete id, .ok ()⟩ ∧
      s' = s.delete fun r => r.id = id) ∨
    (∃ asOf, (⟨call, r⟩ : Exchange Store) = ⟨.deleteDue asOf, .ok ()⟩ ∧
      s' = s.delete (Row.isDue asOf)) ∨
    (∃ asOf, (⟨call, r⟩ : Exchange Store) = ⟨.select asOf, .ok (s.due asOf o.order)⟩ ∧ s' = s) ∨
    (∀ c, (⟨call, r⟩ : Exchange Store) ≠ ⟨.insert c, .ok ()⟩) ∧
      (∀ asOf rows, (⟨call, r⟩ : Exchange Store) ≠ ⟨.select asOf, .ok rows⟩) ∧ s' = s := by
  cases call with
  | insert c =>
    rcases Fault.attempt_cases (Option.some.inj hs) with ⟨e, rfl, rfl⟩ | ⟨rfl, rfl⟩
    · exact .inr (.inr (.inr (.inr ⟨by simp, by simp, rfl⟩)))
    · exact .inl ⟨c, rfl, rfl⟩
  | select asOf =>
    rcases Fault.attempt_cases (Option.some.inj hs) with ⟨e, rfl, rfl⟩ | ⟨rfl, rfl⟩
    · exact .inr (.inr (.inr (.inr ⟨by simp, by simp, rfl⟩)))
    · exact .inr (.inr (.inr (.inl ⟨asOf, rfl, rfl⟩)))
  | delete id =>
    rcases Fault.attempt_cases (Option.some.inj hs) with ⟨e, rfl, rfl⟩ | ⟨rfl, rfl⟩
    · exact .inr (.inr (.inr (.inr ⟨by simp, by simp, rfl⟩)))
    · exact .inr (.inl ⟨id, rfl, rfl⟩)
  | deleteDue asOf =>
    rcases Fault.attempt_cases (Option.some.inj hs) with ⟨e, rfl, rfl⟩ | ⟨rfl, rfl⟩
    · exact .inr (.inr (.inr (.inr ⟨by simp, by simp, rfl⟩)))
    · exact .inr (.inr (.inl ⟨asOf, rfl, rfl⟩))
  | handler c | returned c =>
    cases hs
    exact .inr (.inr (.inr (.inr ⟨by simp, by simp, rfl⟩)))
  | drain asOf => cases hs

end Rows

/-! ## Runs that handle a batch -/

section Batches

open Program

variable {S : Machine Store} {κ : Type} {key : ScheduledCommand → κ} {P : Pool S} {t u : ℕ} {k : κ}

/-- The run has no command in hand. -/
def Batch.Empty (b : Batch) : Prop := b.commands = []

theorem Batch.empty_iff {b : Batch} : b.Empty ↔ b.current = none ∧ b.pending = [] := by
  simp [Empty, commands]

/-- The loop ends with an empty batch of the same run, or it fails. -/
theorem handleAll_meets (asOf : Option ℤ) (cmds : List ScheduledCommand) :
    Meets batches (fun b r => b.Empty ∧ (r.isOk = true → b.asOf = asOf)) (handleAll cmds)
      { asOf, pending := cmds } := by
  induction cmds with
  | nil => exact ⟨rfl, fun _ => rfl⟩
  | cons cmd cmds ih =>
    refine ⟨⟨rfl, cmds, rfl⟩, fun _ _ => ⟨rfl, fun r _ => ?_⟩⟩
    cases r with
    | error e => exact ⟨rfl, fun h => by cases h⟩
    | ok _ => exact ih

theorem scheduleCommand_meets (command : ScheduledCommand) :
    Meets batches (fun b _ => b.Empty) (scheduleCommand command) {} := ⟨trivial, fun _ _ => rfl⟩

theorem Memory.processCommands_meets (asOf : DateTime) :
    Meets batches (fun b _ => b.Empty) (Memory.processCommands asOf) {} :=
  ⟨rfl, fun due _ => (handleAll_meets _ due).mono fun _ _ h => h.1⟩

theorem Postgres.processCommands_meets (asOf : DateTime) :
    Meets batches (fun b _ => b.Empty) (Postgres.processCommands asOf) {} := by
  refine ⟨rfl, fun r _ => ?_⟩
  cases r with
  | error e => rfl
  | ok rows =>
    show Meets batches _ (handleRows asOf.timestampMillis (rows.mapM _))
      (.ofRows asOf.timestampMillis (rows.mapM _))
    cases rows.mapM (Row.command strToCommandName) with
    | error e => rfl
    | ok commands =>
      refine meets_bind.mpr ((handleAll_meets (some asOf.timestampMillis) commands).mono ?_)
      rintro b r ⟨hempty, hasOf⟩
      cases r with
      | error e => exact hempty
      | ok _ => exact ⟨⟨hasOf rfl, hempty⟩, fun _ _ => rfl⟩

/-- Every operation makes its calls in order, and ends with nothing in hand. -/
theorem CommandOp.meets {process : DateTime → Program Store (Except WfeError Unit)}
    (hprocess : ∀ asOf, Meets batches (fun b _ => b.Empty) (process asOf) {}) (op : CommandOp) :
    Meets batches (fun b _ => b.Empty) (op.program process) {} := by
  cases op with
  | schedule command => exact meets_bind.mpr (scheduleCommand_meets command)
  | process asOf => exact meets_bind.mpr (hprocess asOf)

variable (key) in
/-- Thread `t` has yet to pass a command with this key to the handler, or awaits the result of the
handler, to which it has passed one since it was last scheduled. -/
def Awaits (P : Pool S) (t : ℕ) (k : κ) : Prop :=
  (∃ c ∈ (batch P t).pending, key c = k) ∨
  ∃ c, (batch P t).current = some c ∧ key c = k ∧ PassedSince key P.trace t c

theorem Awaits.not_empty (h : Awaits key P t k) : ¬(batch P t).Empty := by
  rw [Batch.empty_iff]
  rintro ⟨hcurrent, hpending⟩
  rcases h with ⟨c, hc, -⟩ | ⟨c, hc, -⟩
  · rw [hpending] at hc
    cases hc
  · rw [hcurrent] at hc
    cases hc

theorem Awaits.mem_commands (h : Awaits key P t k) : ∃ c ∈ (batch P t).commands, key c = k := by
  rcases h with ⟨c, hc, hk⟩ | ⟨c, hc, hk, -⟩
  · exact ⟨c, List.mem_append_right _ hc, hk⟩
  · exact ⟨c, List.mem_append_left _ (by simp [hc]), hk⟩

/-- A thread that takes up an operation had nothing in hand. -/
theorem Awaits.spawn {op : S.Op} (h : Awaits key P u k) (hempty : (batch P t).Empty) :
    Awaits key (P.spawn t op) u k := by
  by_cases hu : u = t
  · subst hu
    exact absurd hempty h.not_empty
  · simpa only [Awaits, batch, Pool.ghost_spawn_of_ne op hu, Pool.spawn_trace] using h

/-- A command that a thread awaits is awaited by it after any exchange, or it has been handled. The
exceptions are that it has been scheduled again, and that the handler has failed. -/
theorem Awaits.proceed {x : Exchange Store} {p : Program Store S.Outcome} {s : S.State}
    (h : Awaits key P u k) (haccept : batches.accept (batch P t) x.1)
    (hscheduled : ∀ c, (t, x) = scheduled t c → key c ≠ k)
    (hfailed : u = t → ∀ c e, x ≠ ⟨.returned c, .error e⟩)
    (howed : Owed key (P.trace ++ [(t, x)]) k) : Awaits key (P.proceed t x p s) u k := by
  -- A command with another key leaves what has been passed to a handler as it is.
  have hnext (v : ℕ) (c : ScheduledCommand) (hk : key c = k)
      (hpassed : PassedSince key P.trace v c) :
      PassedSince key (P.trace ++ [(t, x)]) v c := by
    refine hpassed.concat fun w d hd => ?_
    obtain rfl : t = w := congrArg Prod.fst hd
    rw [hk]
    exact hscheduled d hd
  by_cases hu : u = t
  · subst hu
    simp only [Awaits, batch, Pool.ghost_proceed_self, Pool.proceed_trace]
    obtain ⟨c, r⟩ := x
    cases c with
    | insert d =>
      rcases h with h | ⟨c, hc, hk, hpassed⟩
      · exact .inl h
      · exact .inr ⟨c, hc, hk, hnext u c hk hpassed⟩
    -- These calls are made with nothing in hand.
    | drain asOf | select asOf => exact absurd haccept h.not_empty
    | deleteDue asOf => exact absurd haccept.2 h.not_empty
    | delete id => exact haccept.elim
    | handler d =>
      -- The first of the pending commands becomes the current one.
      obtain ⟨hcurrent, rest, hpending⟩ := haccept
      rcases h with ⟨c, hc, hk⟩ | ⟨c, hc, -⟩
      · rw [hpending] at hc
        rcases List.mem_cons.mp hc with rfl | hc
        · exact .inr ⟨c, rfl, hk, passedSince_passed⟩
        · refine .inl ⟨c, ?_, hk⟩
          show c ∈ (batch P u).pending.tail
          rwa [hpending]
      · rw [hcurrent] at hc
        cases hc
    | returned d =>
      cases r with
      | error e => exact absurd rfl (hfailed rfl d e)
      | ok _ =>
        rcases h with h | ⟨c, hc, hk, hpassed⟩
        · exact .inl h
        · -- The handler has returned Ok, so that the command is not owed any more.
          obtain rfl : c = d := Option.some.inj (hc.symm.trans haccept)
          rcases owed_concat howed with ⟨v, d, hd, -⟩ | ⟨-, hnot⟩
          · simp [scheduled] at hd
          · exact absurd hpassed (hnot u c rfl hk)
  · simp only [Awaits, batch, Pool.ghost_proceed_of_ne _ _ _ hu, Pool.proceed_trace]
    rcases h with h | ⟨c, hc, hk, hpassed⟩
    · exact .inl h
    · exact .inr ⟨c, hc, hk, hnext u c hk hpassed⟩

end Batches

/-! ## The in-memory store -/

section Memory

variable {P P' : Pool memory} {t : ℕ}

/-- What is owed is stored or awaited, and every run is where its history has put it. -/
structure Held (P : Pool memory) : Prop where
  conforms : Pool.Conforms batches {} (fun b _ => b.Empty) P
  owed : ∀ c, Owed id P.trace c → c ∈ P.shared ∨ ∃ u, Awaits id P u c

theorem held_start : Held (Pool.start memory []) where
  conforms := Pool.conforms_start _ rfl
  owed _ h := absurd h not_owed_nil

theorem Held.spawn {op : CommandOp} {a : CommandOutcome} (h : Held P)
    (ha : (P.threads t).rest = .ret a) : Held (P.spawn t op) where
  conforms := h.conforms.spawn (op.meets Memory.processCommands_meets)
  owed c hc := by
    have hempty : (batch P t).Empty := h.conforms.returned ha
    rcases h.owed c hc with hstored | ⟨u, hu⟩
    · exact .inl hstored
    · exact .inr ⟨u, hu.spawn hempty⟩

/-- A command in the store stays there, or it is drained. -/
theorem mem_of_answer {cmds cmds' : List ScheduledCommand} {o : Fault} {call : StoreCall}
    {r : call.Reply} (hs : memory.answer o t cmds call = some (r, cmds')) {c : ScheduledCommand}
    (hc : c ∈ cmds) : c ∈ cmds' ∨ ∃ asOf due, (⟨call, r⟩ : Exchange Store) = ⟨.drain asOf, due⟩ ∧
      c ∈ due := by
  cases call with
  | insert d =>
    cases hs
    exact .inl (List.mem_append_left _ hc)
  | drain asOf =>
    have hpartition : cmds.partition (ScheduledCommand.isDue asOf) = (r, cmds') :=
      Option.some.inj hs
    rw [List.partition_eq_filter_filter] at hpartition
    cases hpartition
    by_cases hdue : c.isDue asOf
    · exact .inr ⟨asOf, _, rfl, List.mem_filter.mpr ⟨hc, hdue⟩⟩
    · exact .inl (List.mem_filter.mpr ⟨hc, by simpa using hdue⟩)
  | handler d | returned d =>
    cases hs
    exact .inl hc
  | select asOf | delete id | deleteDue asOf => cases hs

theorem Held.step (h : Held P) (hstep : Pool.Step Covered P P') : Held P' := by
  cases hstep with
  | spawn t op a ha => exact h.spawn ha
  | call t call k o r s hk hs hcovered =>
    have haccept := h.conforms.accept hk
    refine ⟨h.conforms.proceed hk trivial s, fun c howed => ?_⟩
    by_cases hscheduled : (t, (⟨call, r⟩ : Exchange Store)) = scheduled t c
    · -- The command has just been scheduled.
      cases hscheduled
      cases hs
      exact .inl (List.mem_append_right _ List.mem_cons_self)
    have hbefore : Owed id P.trace c := by
      refine howed.before ?_
      rintro u d hd rfl
      obtain rfl : t = u := congrArg Prod.fst hd
      exact hscheduled hd
    rcases h.owed c hbefore with hstored | ⟨u, hu⟩
    · -- What is not stored any more has been drained by this very run.
      rcases mem_of_answer hs hstored with hstored | ⟨asOf, due, hx, hc⟩
      · exact .inl hstored
      · cases hx
        refine .inr ⟨t, .inl ⟨c, ?_, rfl⟩⟩
        rw [batch, Pool.ghost_proceed_self]
        exact hc
    · by_cases hfailed : u = t ∧ ∃ d e, (⟨call, r⟩ : Exchange Store) = ⟨.returned d, .error e⟩
      · -- The run gives up, and everything it has in hand is stored.
        obtain ⟨rfl, d, e, hx⟩ := hfailed
        obtain ⟨c', hc', rfl⟩ := hu.mem_commands
        cases hx
        have hshared : s = P.shared := (congrArg Prod.snd (Option.some.inj hs)).symm
        rw [Pool.proceed_shared, hshared]
        exact .inl (hcovered c' hc')
      · refine .inr ⟨u, hu.proceed haccept ?_ ?_ howed⟩
        · rintro d hd rfl
          exact hscheduled hd
        · intro hut d e hx
          exact hfailed ⟨hut, d, e, hx⟩

/-- In every state of a run that is covered, a command that is owed is stored, or a run of
`process_commands` has it in hand. -/
theorem Held.kept (h : Held P) :
    Kept id (fun c => c ∈ P.shared ∨ ∃ u, c ∈ (batch P u).commands) P.trace := by
  refine kept_of_owed fun c hc => ?_
  rcases h.owed c hc with hstored | ⟨u, hu⟩
  · exact .inl hstored
  · obtain ⟨c', hc', rfl⟩ := hu.mem_commands
    exact .inr ⟨u, hc'⟩

end Memory

/-! ## The Postgres store -/

section Postgres

variable {P P' : Pool postgres} {t : ℕ}

/-- What is owed has a row; and if the row is due in a run, the run awaits it. -/
structure Listed (P : Pool postgres) : Prop where
  conforms : Pool.Conforms batches {} (fun b _ => b.Empty) P
  stored : ∀ k, Owed ScheduledCommand.key P.trace k → P.shared.Has k
  awaited : ∀ u asOf, (batch P u).asOf = some asOf → ∀ r ∈ P.shared.rows, r.executeTime ≤ asOf →
    Owed ScheduledCommand.key P.trace r.key → Awaits ScheduledCommand.key P u r.key

theorem listed_start : Listed (Pool.start postgres .empty) where
  conforms := Pool.conforms_start _ rfl
  stored _ h := absurd h not_owed_nil
  awaited _ _ h := by cases h

theorem Listed.spawn {op : CommandOp} {a : CommandOutcome} (h : Listed P)
    (ha : (P.threads t).rest = .ret a) : Listed (P.spawn t op) where
  conforms := h.conforms.spawn (op.meets Postgres.processCommands_meets)
  stored := h.stored
  awaited u asOf hasOf r hr hdue howed := by
    have hempty : (batch P t).Empty := h.conforms.returned ha
    by_cases hu : u = t
    · subst hu
      rw [batch, Pool.ghost_spawn_self] at hasOf
      cases hasOf
    · rw [batch, Pool.ghost_spawn_of_ne (S := postgres) op hu] at hasOf
      exact (h.awaited u asOf hasOf r hr hdue howed).spawn hempty

/-- A run that is in progress after a call other than the reading of rows was so before, and its
handler has not failed. -/
theorem Batch.asOf_next {b : Batch} {call : StoreCall} {r : call.Reply} {asOf : ℤ}
    (hdrain : ∀ asOf, call ≠ .drain asOf)
    (hselect : ∀ asOf rows, (⟨call, r⟩ : Exchange Store) ≠ ⟨.select asOf, .ok rows⟩)
    (h : (batches.next b call r).asOf = some asOf) :
    b.asOf = some asOf ∧ ∀ c e, (⟨call, r⟩ : Exchange Store) ≠ ⟨.returned c, .error e⟩ := by
  cases call with
  | insert c | handler c | delete id => exact ⟨h, by simp⟩
  | drain asOf => exact absurd rfl (hdrain asOf)
  | deleteDue asOf => cases h
  | select asOf =>
    cases r with
    | error e => cases h
    | ok rows => exact absurd rfl (hselect asOf rows)
  | returned c =>
    cases r with
    | error e => cases h
    | ok _ => exact ⟨h, by simp⟩

/-- A run that has read the rows has all that are due yet to pass to the handler. -/
theorem Rows.mem_ofRows {s : Rows} {asOf asOf' : ℤ} {order : List Row} {r : Row} {b : Batch}
    (hb : b = .ofRows asOf' ((s.due asOf' order).mapM (Row.command strToCommandName)))
    (hasOf : b.asOf = some asOf) (hr : r ∈ s.rows) (hdue : r.executeTime ≤ asOf) :
    ∃ c ∈ b.pending, c.key = r.key := by
  cases hmap : (s.due asOf' order).mapM (Row.command strToCommandName) with
  | error e =>
    rw [hb, hmap] at hasOf
    cases hasOf
  | ok commands =>
    rw [hmap] at hb
    subst hb
    cases hasOf
    obtain ⟨c, hc, hcommand⟩ := (mem_of_mapM hmap).2 r (Rows.mem_due.mpr ⟨hr, hdue⟩)
    exact ⟨c, hc, Row.key_of_command hcommand⟩

section Call

variable {call : StoreCall} {r : call.Reply} {o : Fault} {s : Rows}
  {p : Program Store CommandOutcome} (h : Listed P)
  (hs : postgres.answer o t P.shared call = some (r, s))
  (haccept : batches.accept (batch P t) call)
include h hs haccept

/-- No call deletes a row that is owed. -/
theorem Listed.has_of_owed {k : String × String}
    (howed : Owed ScheduledCommand.key (P.trace ++ [(t, ⟨call, r⟩)]) k) : s.Has k := by
  rcases Rows.answer_cases hs with ⟨c, hx, rfl⟩ | ⟨id, hx, -⟩ | ⟨asOf, hx, rfl⟩ | ⟨asOf, hx, rfl⟩ |
    ⟨hinsert, -, rfl⟩
  · cases hx
    refine Rows.has_upsert ?_
    rcases owed_concat howed with ⟨u, d, hd, hk⟩ | ⟨hbefore, -⟩
    · cases hd
      exact .inr hk
    · exact .inl (h.stored k hbefore)
  · cases hx
    exact haccept.elim
  · cases hx
    obtain ⟨hasOf, hempty⟩ := haccept
    -- A due row that is owed would be awaited, but the run has handled everything.
    have hbefore := howed.before (by simp [scheduled])
    obtain ⟨row, hrow, rfl⟩ := h.stored k hbefore
    have hnot : ¬row.executeTime ≤ asOf := fun hdue =>
      (h.awaited t asOf hasOf row hrow hdue hbefore).not_empty hempty
    exact ⟨row, Rows.mem_delete.mpr ⟨hrow, by simpa [Row.isDue] using hnot⟩, rfl⟩
  · cases hx
    exact h.stored k (howed.before (by simp [scheduled]))
  · exact h.stored k (howed.before fun u d hd => absurd (congrArg Prod.snd hd) (hinsert d))

/-- A row that is not that of a command just scheduled is awaited by a run in progress, if it was so
before. -/
theorem Listed.awaits_of_mem {u : ℕ} {asOf : ℤ} {row : Row} (hrow : row ∈ P.shared.rows)
    (hdue : row.executeTime ≤ asOf)
    (hasOf : (batch (P.proceed t ⟨call, r⟩ p s) u).asOf = some asOf)
    (hselect : u = t → ∀ asOf rows, (⟨call, r⟩ : Exchange Store) ≠ ⟨.select asOf, .ok rows⟩)
    (hkey : ∀ c, (t, (⟨call, r⟩ : Exchange Store)) = scheduled t c → c.key ≠ row.key)
    (howed : Owed ScheduledCommand.key (P.trace ++ [(t, ⟨call, r⟩)]) row.key) :
    Awaits ScheduledCommand.key (P.proceed t ⟨call, r⟩ p s) u row.key := by
  have hbefore : Owed ScheduledCommand.key P.trace row.key := howed.before fun v d hd => by
    obtain rfl : t = v := congrArg Prod.fst hd
    exact hkey d hd
  by_cases hu : u = t
  · subst hu
    rw [batch, Pool.ghost_proceed_self] at hasOf
    have hdrain (asOf : ℤ) : call ≠ .drain asOf := by
      rintro rfl
      cases hs
    obtain ⟨hasOf, hfailed⟩ := Batch.asOf_next hdrain (hselect rfl) hasOf
    exact (h.awaited u asOf hasOf row hrow hdue hbefore).proceed haccept hkey (fun _ => hfailed)
      howed
  · rw [batch, Pool.ghost_proceed_of_ne _ _ _ hu] at hasOf
    exact (h.awaited u asOf hasOf row hrow hdue hbefore).proceed haccept hkey
      (fun hut => absurd hut hu) howed

/-- Runs in progress await all owed rows that are due in them. -/
theorem Listed.awaits_of_owed (hahead : Ahead P t ⟨call, r⟩) {u : ℕ} {asOf : ℤ} {row : Row}
    (hasOf : (batch (P.proceed t ⟨call, r⟩ p s) u).asOf = some asOf) (hrow : row ∈ s.rows)
    (hdue : row.executeTime ≤ asOf)
    (howed : Owed ScheduledCommand.key (P.trace ++ [(t, ⟨call, r⟩)]) row.key) :
    Awaits ScheduledCommand.key (P.proceed t ⟨call, r⟩ p s) u row.key := by
  rcases Rows.answer_cases hs with ⟨c, hx, hs'⟩ | ⟨id, hx, -⟩ | ⟨asOf', hx, hs'⟩ |
    ⟨asOf', hx, hs'⟩ | ⟨hinsert, hselect, hs'⟩
  · cases hx
    rw [hs'] at hrow
    rcases Rows.mem_upsert hrow with ⟨hk, htime⟩ | ⟨hk, hmem⟩
    · -- The row is that of the command: the run has it yet to pass to the handler.
      have hbatch : batch (P.proceed t ⟨.insert c, .ok ()⟩ p s) u = batch P u := by
        by_cases hu : u = t
        · subst hu
          rw [batch, Pool.ghost_proceed_self]
          rfl
        · exact Pool.ghost_proceed_of_ne _ _ _ hu
      rw [hbatch] at hasOf
      obtain ⟨d, hd, hdk⟩ := hahead u asOf hasOf (htime ▸ hdue)
      exact .inl ⟨d, by rwa [hbatch], hdk.trans hk.symm⟩
    · refine h.awaits_of_mem hs haccept hmem hdue hasOf (by simp) ?_ howed
      rintro d hd
      cases hd
      exact Ne.symm hk
  · cases hx
    exact haccept.elim
  · cases hx
    rw [hs'] at hrow
    exact h.awaits_of_mem hs haccept (Rows.mem_delete.mp hrow).1 hdue hasOf (by simp)
      (by simp [scheduled]) howed
  · cases hx
    rw [hs'] at hrow
    by_cases hu : u = t
    · subst hu
      exact .inl (Rows.mem_ofRows (Pool.ghost_proceed_self ..) hasOf hrow hdue)
    · exact h.awaits_of_mem hs haccept hrow hdue hasOf (fun hut => absurd hut hu)
        (by simp [scheduled]) howed
  · rw [hs'] at hrow
    refine h.awaits_of_mem hs haccept hrow hdue hasOf (fun _ => hselect) ?_ howed
    intro c hc
    exact absurd (congrArg Prod.snd hc) (hinsert c)

end Call

theorem Listed.step (h : Listed P) (hstep : Pool.Step Ahead P P') : Listed P' := by
  cases hstep with
  | spawn t op a ha => exact h.spawn ha
  | call t call k o r s hk hs hahead =>
    have haccept := h.conforms.accept hk
    exact ⟨h.conforms.proceed hk trivial s, fun _ howed => h.has_of_owed hs haccept howed,
      fun _ _ hasOf _ hrow hdue howed => h.awaits_of_owed hs haccept hahead hasOf hrow hdue howed⟩

end Postgres

end Wfe.Commands
