import Wfe.Library.Pool
import Wfe.Models.Definition

/-!
# Scheduled commands in three stores

The repositories of scheduled commands of the in-memory, the SQLite and the Postgres provider. A run
of `process_commands` passes the commands that are due to a handler, which may fail. The stores
remove commands at different moments: in memory all due commands are taken out before the first of
them is handled, SQLite deletes the row of a command when it has been handled, and Postgres deletes
whatever is due when all have been. Each access to the store is a call of its own, as are the
beginning and the end of the work of a handler, and any calls may come in between.

In the SQL stores a command is one of its name and its data, which are unique, and in memory it is
one of its time as well. The deserializer that SQLite uses for names is a parameter.

## Main definitions

* `Memory.processCommands`, `Sqlite.processCommands`, `Postgres.processCommands`: the runs
* `memory`, `sqlite`, `postgres`: the machines of all calls on one store
* `Kept`: every command that has been scheduled is stored, or has been handled since
* `Covered`, `Apart`, `Ahead`: what the steps have to meet in the three stores

That runs which meet these conditions lose no command is shown in `Wfe.Backends.CommandsKept`.
-/

namespace Wfe.Commands

/-! ## Commands and rows -/

inductive CommandName
  | processWorkflow
  | processEvent
deriving DecidableEq, Repr

/-- `execute_time` is in milliseconds since the epoch. -/
structure ScheduledCommand where
  commandName : CommandName
  data : String
  executeTime : ℤ
deriving DecidableEq, Repr

/-- The text of a name in both SQL stores. -/
def commandNameToStr : CommandName → String
  | .processWorkflow => "ProcessWorkflow"
  | .processEvent => "ProcessEvent"

def strToCommandName (s : String) : Except WfeError CommandName :=
  if s = "ProcessWorkflow" then .ok .processWorkflow
  else if s = "ProcessEvent" then .ok .processEvent
  else .error (.persistence s!"Unknown command name: {s}")

/-- The deserializer on the text of a name in quotes. -/
def deserialize (fromStr : String → Except String CommandName) (s : String) :
    Except WfeError CommandName :=
  match fromStr ("\"" ++ s ++ "\"") with
  | .ok name => .ok name
  | .error e => .error (.persistence s!"Failed to deserialize CommandName: {e}")

/-- A row of `scheduled_commands`. -/
structure Row where
  id : ℕ
  commandName : String
  data : String
  executeTime : ℤ
deriving DecidableEq, Repr

/-- The columns that are unique. -/
def Row.key (r : Row) : String × String := (r.commandName, r.data)

def ScheduledCommand.key (c : ScheduledCommand) : String × String :=
  (commandNameToStr c.commandName, c.data)

def ScheduledCommand.row (id : ℕ) (c : ScheduledCommand) : Row :=
  ⟨id, commandNameToStr c.commandName, c.data, c.executeTime⟩

/-- The command of a row. -/
def Row.command (name : String → Except WfeError CommandName) (r : Row) :
    Except WfeError ScheduledCommand := do
  return ⟨← name r.commandName, r.data, r.executeTime⟩

/-- The command of a row with the id of the row. -/
def Row.entry (name : String → Except WfeError CommandName) (r : Row) :
    Except WfeError (ℕ × ScheduledCommand) := do
  return (r.id, ← r.command name)

/-! ## The providers -/

/-- The calls of the providers: `insert` is that of `schedule_command`, `drain` takes the due
commands out of the vector in memory, `select`, `delete` and `deleteDue` are statements, and
`handler` and `returned` are the beginning and the end of the work of a handler. -/
inductive StoreCall
  | insert (command : ScheduledCommand)
  | drain (asOf : ℤ)
  | select (asOf : ℤ)
  | handler (command : ScheduledCommand)
  | returned (command : ScheduledCommand)
  | delete (id : ℕ)
  | deleteDue (asOf : ℤ)
deriving DecidableEq, Repr

@[reducible] def StoreCall.Reply : StoreCall → Type
  | insert _ | delete _ | deleteDue _ => Except String Unit
  | drain _ => List ScheduledCommand
  | select _ => Except String (List Row)
  | handler _ => Unit
  | returned _ => Except WfeError Unit

abbrev Store : Interface := ⟨StoreCall, StoreCall.Reply⟩

abbrev perform (c : StoreCall) : Program Store c.Reply := Program.perform (I := Store) c

/-- The result of a statement whose value is of no interest. -/
def executed : Except String Unit → Except WfeError Unit
  | .ok _ => .ok ()
  | .error e => .error (.persistence e)

/-- In memory, where the insertion never fails, and by one statement in the SQL stores. -/
def scheduleCommand (command : ScheduledCommand) : Program Store (Except WfeError Unit) := do
  return executed (← perform (.insert command))

/-- Passes the commands to the handler, up to the first failure. -/
def handleAll : List ScheduledCommand → Program Store (Except WfeError Unit)
  | [] => return .ok ()
  | cmd :: cmds => do
    perform (.handler cmd)
    match ← perform (.returned cmd) with
    | .ok _ => handleAll cmds
    | .error e => return .error e

def Memory.processCommands (asOf : DateTime) : Program Store (Except WfeError Unit) := do
  handleAll (← perform (.drain asOf.timestampMillis))

namespace Sqlite

/-- Passes the commands to the handler and deletes their rows, up to the first failure. -/
def handleEach : List (ℕ × ScheduledCommand) → Program Store (Except WfeError Unit)
  | [] => return .ok ()
  | (dbId, cmd) :: commands => do
    perform (.handler cmd)
    match ← perform (.returned cmd) with
    | .error e => return .error e
    | .ok _ =>
      match ← perform (.delete dbId) with
      | .error e => return .error (.persistence e)
      | .ok _ => handleEach commands

/-- What follows the reading of the rows. -/
def handleRows : Except WfeError (List (ℕ × ScheduledCommand)) →
    Program Store (Except WfeError Unit)
  | .error e => return .error e
  | .ok commands => handleEach commands

def processCommands (fromStr : String → Except String CommandName) (asOf : DateTime) :
    Program Store (Except WfeError Unit) := do
  match ← perform (.select asOf.timestampMillis) with
  | .error e => return .error (.persistence e)
  | .ok rows => handleRows (rows.mapM (Row.entry (deserialize fromStr)))

end Sqlite

namespace Postgres

/-- What follows the reading of the rows: only when all commands have been handled, what is due is
deleted. -/
def handleRows (asOf : ℤ) : Except WfeError (List ScheduledCommand) →
    Program Store (Except WfeError Unit)
  | .error e => return .error e
  | .ok commands => do
    match ← handleAll commands with
    | .error e => return .error e
    | .ok _ => return executed (← perform (.deleteDue asOf))

def processCommands (asOf : DateTime) : Program Store (Except WfeError Unit) := do
  match ← perform (.select asOf.timestampMillis) with
  | .error e => return .error (.persistence e)
  | .ok rows => handleRows asOf.timestampMillis (rows.mapM (Row.command strToCommandName))

end Postgres

/-! ## The machines -/

inductive CommandOp
  | schedule (command : ScheduledCommand)
  | process (asOf : DateTime)
deriving DecidableEq, Repr

inductive CommandOutcome
  | idle
  | done (r : Except WfeError Unit)

/-- The operations of a provider with its `process_commands`. -/
def CommandOp.program (process : DateTime → Program Store (Except WfeError Unit)) :
    CommandOp → Program Store CommandOutcome
  | .schedule command => scheduleCommand command >>= fun r => pure (.done r)
  | .process asOf => process asOf >>= fun r => pure (.done r)

/-- What the outside world decides: whether a statement fails, in which order rows are selected, and
what a handler returns. -/
structure Fault where
  failure : Option String := none
  order : List Row := []
  handled : Except WfeError Unit := .ok ()

/-- The answer to a statement: one that fails has no effect. -/
def Fault.attempt {α σ : Type} (o : Fault) (s : σ) (r : α) (s' : σ) : Except String α × σ :=
  match o.failure with
  | some e => (.error e, s)
  | none => (.ok r, s')

/-- The command is due. -/
def ScheduledCommand.isDue (asOf : ℤ) (c : ScheduledCommand) : Bool := c.executeTime ≤ asOf

def Row.isDue (asOf : ℤ) (r : Row) : Bool := r.executeTime ≤ asOf

/-- A provider with the vector of its commands. -/
abbrev memory : Machine Store where
  Op := CommandOp
  Outcome := CommandOutcome
  idle := .idle
  State := List ScheduledCommand
  Oracle := Fault
  program := CommandOp.program Memory.processCommands
  answer o _ cmds
    | .insert command => some (.ok (), cmds ++ [command])
    | .drain asOf => some (cmds.partition (ScheduledCommand.isDue asOf))
    | .handler _ => some ((), cmds)
    | .returned _ => some (o.handled, cmds)
    | .select _ | .delete _ | .deleteDue _ => none

/-- The table, and the next id. -/
structure Rows where
  rows : List Row
  next : ℕ

namespace Rows

def empty : Rows := ⟨[], 0⟩

variable (s : Rows) (c : ScheduledCommand)

/-- There is a row with the key. -/
def Has (k : String × String) : Prop := ∃ r ∈ s.rows, r.key = k

/-- A row for a command whose key is not in use. -/
def append : Rows := ⟨s.rows ++ [c.row s.next], s.next + 1⟩

/-- `INSERT OR IGNORE`. -/
def insertOrIgnore : Rows := if s.rows.any (fun r => r.key = c.key) then s else s.append c

/-- `INSERT … ON CONFLICT … DO UPDATE SET execute_time`: a conflict takes an id, too. -/
def upsert : Rows :=
  if s.rows.any (fun r => r.key = c.key) then
    { rows := s.rows.map fun r =>
        if r.key = c.key then { r with executeTime := c.executeTime } else r
      next := s.next + 1 }
  else s.append c

/-- The due rows, in any order. -/
def due (asOf : ℤ) (order : List Row) : List Row :=
  if order.isPerm (s.rows.filter (Row.isDue asOf)) then order else s.rows.filter (Row.isDue asOf)

/-- `DELETE … WHERE p`. -/
def delete (p : Row → Bool) : Rows := { s with rows := s.rows.filter fun r => !p r }

/-- The answers of the SQL stores, which differ in how they insert. -/
def answer (o : Fault) (inserted : ScheduledCommand → Rows) :
    (c : StoreCall) → Option (c.Reply × Rows)
  | .insert command => some (o.attempt s () (inserted command))
  | .select asOf => some (o.attempt s (s.due asOf o.order) s)
  | .handler _ => some ((), s)
  | .returned _ => some (o.handled, s)
  | .delete id => some (o.attempt s () (s.delete fun r => r.id = id))
  | .deleteDue asOf => some (o.attempt s () (s.delete (Row.isDue asOf)))
  | .drain _ => none

end Rows

/-- A provider on a SQLite database. -/
abbrev sqlite (fromStr : String → Except String CommandName) : Machine Store where
  Op := CommandOp
  Outcome := CommandOutcome
  idle := .idle
  State := Rows
  Oracle := Fault
  program := CommandOp.program (Sqlite.processCommands fromStr)
  answer o _ s c := s.answer o s.insertOrIgnore c

/-- Any number of providers on one Postgres database. -/
abbrev postgres : Machine Store where
  Op := CommandOp
  Outcome := CommandOutcome
  idle := .idle
  State := Rows
  Oracle := Fault
  program := CommandOp.program Postgres.processCommands
  answer o _ s c := s.answer o s.upsert c

/-! ## What is claimed -/

/-- `schedule_command` returns Ok. -/
def scheduled (t : ℕ) (c : ScheduledCommand) : ℕ × Exchange Store := (t, ⟨.insert c, .ok ()⟩)

/-- A run passes a command to the handler. -/
def passed (t : ℕ) (c : ScheduledCommand) : ℕ × Exchange Store := (t, ⟨.handler c, ()⟩)

/-- The handler returns Ok. -/
def succeeded (t : ℕ) (c : ScheduledCommand) : ℕ × Exchange Store := (t, ⟨.returned c, .ok ()⟩)

section Claim

variable {κ : Type} (key : ScheduledCommand → κ)

/-- A command with this key has been passed to a handler, which has then returned Ok. -/
def Handled (k : κ) (trace : List (ℕ × Exchange Store)) : Prop :=
  ∃ t c, key c = k ∧ [passed t c, succeeded t c].Sublist trace

/-- Every command that has been scheduled is stored, or has been passed to a handler that has
returned Ok after that. -/
def Kept (stored : κ → Prop) (trace : List (ℕ × Exchange Store)) : Prop :=
  ∀ before t c since, trace = before ++ scheduled t c :: since →
    stored (key c) ∨ Handled key (key c) since

end Claim

/-! ## Batches -/

/-- Where a run of `process_commands` is that does not delete in between: the time it is for, the
commands it has yet to pass to the handler, and the one the handler is at. -/
structure Batch where
  asOf : Option ℤ := none
  pending : List ScheduledCommand := []
  current : Option ScheduledCommand := none

/-- The commands a run has in hand. -/
def Batch.commands (b : Batch) : List ScheduledCommand := b.current.toList ++ b.pending

/-- Where a run in Postgres is when it has read the rows. -/
def Batch.ofRows (asOf : ℤ) : Except WfeError (List ScheduledCommand) → Batch
  | .ok commands => { asOf := some asOf, pending := commands }
  | .error _ => {}

/-- The order of the calls of a run in memory and in Postgres. -/
def batches : Monitor Store Batch where
  allow _ _ _ := True
  accept b c :=
    match c with
    | .insert _ => True
    | .drain _ | .select _ => b.commands = []
    | .handler c => b.current = none ∧ ∃ cs, b.pending = c :: cs
    | .returned c => b.current = some c
    | .deleteDue asOf => b.asOf = some asOf ∧ b.commands = []
    | .delete _ => False
  next b c r :=
    match c, r with
    | .drain asOf, due => { asOf := some asOf, pending := due }
    | .select asOf, .ok rows => .ofRows asOf (rows.mapM (Row.command strToCommandName))
    | .handler c, _ => { b with pending := b.pending.tail, current := some c }
    | .returned _, .ok _ => { b with current := none }
    | .select _, .error _ | .returned _, .error _ | .deleteDue _, _ => {}
    | .insert _, _ | .delete _, _ => b

/-- Where thread `t` is. -/
abbrev batch {S : Machine Store} (P : Pool S) (t : ℕ) : Batch := P.ghost batches {} t

/-- In memory: whenever a handler fails, all commands its run has in hand are stored as well. -/
def Covered (P : Pool memory) (t : ℕ) : Exchange Store → Prop
  | ⟨.returned _, .error _⟩ => ∀ c ∈ (batch P t).commands, c ∈ P.shared
  | _ => True

/-- In Postgres: whenever a command is scheduled, each run for a time at which it is due has it yet
to pass to the handler. -/
def Ahead (P : Pool postgres) (_ : ℕ) : Exchange Store → Prop
  | ⟨.insert c, .ok _⟩ => ∀ u asOf, (batch P u).asOf = some asOf → c.executeTime ≤ asOf →
      ∃ d ∈ (batch P u).pending, d.key = c.key
  | _ => True

/-! ## Turns -/

/-- Where a run of `process_commands` in SQLite is: the commands it has yet to pass to the handler,
with the ids of their rows, and the one that the handler is at or that has been handled, up to the
deletion of its row. -/
structure Turn where
  pending : List (ℕ × ScheduledCommand) := []
  current : Option (ℕ × ScheduledCommand) := none
  handled : Bool := false

/-- Where a run in SQLite is when it has read the rows. -/
def Turn.ofRows : Except WfeError (List (ℕ × ScheduledCommand)) → Turn
  | .ok commands => { pending := commands }
  | .error _ => {}

/-- The order of the calls of a run in SQLite. -/
def turns (fromStr : String → Except String CommandName) : Monitor Store Turn where
  allow _ _ _ := True
  accept g c :=
    match c with
    | .insert _ => True
    | .select _ => g.pending = [] ∧ g.current = none
    | .handler c => g.current = none ∧ ∃ id rest, g.pending = (id, c) :: rest
    | .returned c => g.handled = false ∧ ∃ id, g.current = some (id, c)
    | .delete id => g.handled = true ∧ ∃ c, g.current = some (id, c)
    | .drain _ | .deleteDue _ => False
  next g c r :=
    match c, r with
    | .select _, .ok rows => .ofRows (rows.mapM (Row.entry (deserialize fromStr)))
    | .handler _, _ => { pending := g.pending.tail, current := g.pending.head?, handled := false }
    | .returned _, .ok _ => { g with handled := true }
    | .delete _, .ok _ => { pending := g.pending }
    | .select _, .error _ | .returned _, .error _ | .delete _, .error _ => {}
    | .insert _, _ | .drain _, _ | .deleteDue _, _ => g

/-- Where thread `t` is. -/
abbrev turn {fromStr : String → Except String CommandName} (P : Pool (sqlite fromStr)) (t : ℕ) :
    Turn := P.ghost (turns fromStr) {} t

/-- In SQLite: no command is scheduled while a run has it in the hands of a handler or has yet to
delete the row of it that is stored. -/
def Apart {fromStr : String → Except String CommandName} (P : Pool (sqlite fromStr)) (_ : ℕ) :
    Exchange Store → Prop
  | ⟨.insert c, .ok _⟩ => ∀ u id d, (turn P u).current = some (id, d) → d.key = c.key →
      ∀ r ∈ P.shared.rows, r.id ≠ id
  | _ => True

end Wfe.Commands
