import Mathlib.Data.List.Sort
import Mathlib.Data.Set.Function
import Wfe.Backends.TablePrefix
import Wfe.Library.Pool
import Wfe.Models.Definition

/-!
# Migrations with a table prefix

A node that boots brings the Postgres store up to date: it points the search path of a connection at
its schema, takes an advisory lock, and applies the embedded migrations that the tracking table does
not list, each in a transaction with its row. Nodes of several hosts, with other schemas, prefixes
or releases of the program, share the lock; a statement of any of them may fail, and its connection
may go down before or after the server has done what it was asked to.

## Main definitions

* `ensureStoreExists`, `runPrefixedMigrations`, `applyPrefixedMigrationsLocked`: the code of a node
* `World`: the schemas, the connections and the lock
* `nodes`: the machine of all nodes
* `Distinguishes`: the scripts compared have different checksums
* `Migrated`: a schema holds the first migrations, each applied once and in order
-/

namespace Wfe.Migrations

/-- An embedded migration. -/
structure Migration where
  version : Int
  description : String
  sql : String
  isDown : Bool
deriving DecidableEq, Repr

/-- A row of the tracking table. -/
structure Row where
  version : Int
  description : String
  success : Bool
  checksum : List UInt8
deriving DecidableEq, Repr

structure PostgresOptions where
  schema : String
  tablePrefix : String
deriving DecidableEq, Repr

/-! ## The statements -/

/-- The statements a node has the server execute. `sqlxMigrate` is sqlx's own migrator, which works
on the unprefixed tables and a tracking table of its own. -/
inductive Statement
  | createSchema (schema : String)
  | acquire
  | showSearchPath
  | setSearchPath (path : String)
  | sqlxMigrate
  | advisoryLock
  | advisoryUnlock
  | createTrackingTable
  | selectDirty
  | selectApplied
  | begin
  | execute (sql : String)
  | insertRow (row : Row)
  | commit
  | rollback
deriving DecidableEq, Repr

/-- What a statement returns. -/
@[reducible] def Statement.Answer : Statement → Type
  | showSearchPath => String
  | selectDirty => Option Int
  | selectApplied => List (Int × List UInt8)
  | _ => Unit

abbrev Postgres : Interface := ⟨Statement, fun c => Except String c.Answer⟩

abbrev Fallible (α : Type) := ExceptT WfeError (Program Postgres) α

def perform (c : Statement) : Program Postgres (Except String c.Answer) :=
  Program.perform (I := Postgres) c

/-- A statement with `map_sqlx_err`. -/
def query (c : Statement) : Fallible c.Answer := ExceptT.mk do
  match ← perform c with
  | .ok a => return .ok a
  | .error e => return .error (.persistence e)

/-! ## A node -/

section Node

variable (digest : String → List UInt8)

/-- A transaction that is dropped before its commit is rolled back before the next statement. -/
def inTransaction (body : Fallible Unit) : Fallible Unit := ExceptT.mk do
  match ← body.run with
  | .ok _ => return .ok ()
  | .error e =>
    let _ ← perform .rollback
    return .error e

/-- The script of a migration and its row, in one transaction. -/
def applyMigration (sql : String) (row : Row) : Fallible Unit := do
  query .begin
  inTransaction do
    query (.execute sql)
    query (.insertRow row)
    query .commit

/-- The loop over the migrations, with the rows that were there before. -/
def applyMigrations (pre : String) (applied : List (Int × List UInt8)) :
    List Migration → Fallible Unit
  | [] => return ()
  | migration :: rest =>
    if migration.isDown then applyMigrations pre applied rest
    else
      let sql := substituteIdentifiers migration.sql pre
      match applied.lookup migration.version with
      | some recorded =>
        if recorded = digest sql then applyMigrations pre applied rest
        else throw (.persistence (s!"migration {migration.version} was previously applied with " ++
          "a different table prefix; the prefix of an existing store cannot be changed in place"))
      | none => do
        applyMigration sql ⟨migration.version, migration.description, true, digest sql⟩
        applyMigrations pre applied rest

def applyPrefixedMigrationsLocked (migrations : List Migration) (pre : String) : Fallible Unit := do
  query .createTrackingTable
  match ← query .selectDirty with
  | some version =>
    throw (.persistence (s!"migration {version} previously failed while applying (dirty); " ++
      "resolve it manually and clear the row in _wfe_sqlx_migrations"))
  | none =>
    let applied ← query .selectApplied
    applyMigrations digest pre applied migrations

/-- The lock is released however the migrations end. -/
def runPrefixedMigrations (migrations : List Migration) (pre : String) : Fallible Unit := do
  query .advisoryLock
  ExceptT.mk do
    let result ← (applyPrefixedMigrationsLocked digest migrations pre).run
    let _ ← perform .advisoryUnlock
    return result

/-- A name in double quotes. The schema has been checked to need no more than that. -/
def quoted (name : String) : String := "\"" ++ name ++ "\""

/-- The migrations of the store, with sqlx's own migrator if there is no prefix. -/
def migrate (migrations : List Migration) (options : PostgresOptions) : Fallible Unit :=
  if options.tablePrefix = "" then
    ExceptT.mk do
      match ← perform .sqlxMigrate with
      | .ok _ => return .ok ()
      | .error e =>
        return .error (.persistence s!"migration failed in schema {quoted options.schema}: {e}")
  else runPrefixedMigrations digest migrations options.tablePrefix

/-- `ensure_store_exists`. The search path is restored even if the migration failed. -/
def ensureStoreExists (migrations : List Migration) (options : PostgresOptions) :
    Fallible Unit := do
  ExceptT.mk do
    match ← perform (.createSchema options.schema) with
    | .ok _ => return .ok ()
    | .error e =>
      return .error (.persistence (s!"failed to create schema {quoted options.schema}: {e}. If " ++
        "the database user may not create schemas, have your DBA pre-create " ++
        s!"{quoted options.schema} and retry"))
  query .acquire
  let previous ← query .showSearchPath
  query (.setSearchPath (quoted options.schema))
  ExceptT.mk do
    let migrated ← (migrate digest migrations options).run
    match ← perform (.setSearchPath previous), migrated with
    | .error e, .ok _ => return .error (.persistence e)
    | _, _ => return migrated

end Node

/-! ## The server -/

variable {S : Type}

/-- What a schema holds: the tracking table, if it has been created, and everything else. -/
structure Schema (S : Type) where
  tracking : Option (List Row)
  store : S

/-- What a transaction writes. -/
inductive Write
  | script (sql : String)
  | insert (row : Row)
deriving DecidableEq, Repr

/-- A script does what the server makes of it; the version is the key of the tracking table. -/
def Schema.write (exec : String → S → Option S) (σ : Schema S) : Write → Option (Schema S)
  | .script sql => (exec sql σ.store).map fun s => { σ with store := s }
  | .insert row =>
    match σ.tracking with
    | none => none
    | some rows =>
      if rows.any fun r => r.version = row.version then none
      else some { σ with tracking := some (rows ++ [row]) }

def Schema.writeAll (exec : String → S → Option S) (σ : Schema S) (ws : List Write) :
    Option (Schema S) :=
  ws.foldlM (Schema.write exec) σ

/-- A connection: its search path, and its transaction if there is one, which is aborted or has made
these writes. -/
structure Session where
  path : String
  transaction : Option (Option (List Write))
deriving DecidableEq, Repr

/-- The server: the schemas by the search paths that lead to them, the connections of the nodes, and
the connection that holds the lock. -/
structure World (S : Type) where
  schemas : String → Schema S
  sessions : ℕ → Option Session
  holder : Option ℕ

/-- How a statement ends: as the server decides, with an error, or with the loss of the connection
before or after the server has executed it. -/
inductive Fault
  | none
  | refused (message : String)
  | lostBefore (message : String)
  | lostAfter (message : String)
deriving DecidableEq, Repr

namespace World

/-- No schema has been migrated, and no connection is open. -/
def fresh (store : S) : World S where
  schemas _ := ⟨Option.none, store⟩
  sessions _ := Option.none
  holder := Option.none

variable (exec : String → S → Option S) (w : World S) (t : ℕ)

def setSession (s : Option Session) : World S :=
  { w with sessions := Function.update w.sessions t s }

/-- The connection goes down: its transaction is gone, and the lock is free. -/
def drop : World S :=
  { w.setSession t none with holder := if w.holder = some t then none else w.holder }

/-- An error aborts a transaction. -/
def abort (s : Session) : World S :=
  match s.transaction with
  | none => w
  | some _ => w.setSession t (some ⟨s.path, some none⟩)

/-- A statement that writes, in a transaction or by itself. -/
def runWrite (s : Session) (write : Write) : Except String Unit × World S :=
  match s.transaction with
  | none =>
    match (w.schemas s.path).write exec write with
    | none => (.error "statement failed", w)
    | some σ => (.ok (), { w with schemas := Function.update w.schemas s.path σ })
  | some none => (.error "current transaction is aborted", w)
  | some (some ws) =>
    match (w.schemas s.path).writeAll exec (ws ++ [write]) with
    | none => (.error "statement failed", w.abort t s)
    | some _ => (.ok (), w.setSession t (some ⟨s.path, some (some (ws ++ [write]))⟩))

/-- A commit makes the writes of the transaction, all or none. -/
def commit (s : Session) : Except String Unit × World S :=
  let closed := w.setSession t (some ⟨s.path, none⟩)
  match s.transaction with
  | none | some none => (.ok (), closed)
  | some (some ws) =>
    match (w.schemas s.path).writeAll exec ws with
    | none => (.error "commit failed", closed)
    | some σ => (.ok (), { closed with schemas := Function.update w.schemas s.path σ })

/-- The rows of the tracking table, by version. -/
def rows (s : Session) : Except String (List Row) :=
  match (w.schemas s.path).tracking with
  | none => .error "relation does not exist"
  | some rows => .ok (rows.insertionSort fun a b => a.version ≤ b.version)

/-- What the server does for a statement on an open connection; a lock that another connection holds
is waited for. -/
def execute (s : Session) : (c : Statement) → Option (Except String c.Answer × World S)
  | .createSchema _ | .acquire | .sqlxMigrate => some (.ok (), w)
  | .showSearchPath => some (.ok s.path, w)
  | .setSearchPath path => some (.ok (), w.setSession t (some ⟨path, s.transaction⟩))
  | .advisoryLock =>
    if w.holder = none ∨ w.holder = some t then some (.ok (), { w with holder := some t })
    else none
  | .advisoryUnlock =>
    some (.ok (), { w with holder := if w.holder = some t then none else w.holder })
  | .createTrackingTable =>
    let σ := w.schemas s.path
    some (.ok (), { w with
      schemas := Function.update w.schemas s.path ⟨some (σ.tracking.getD []), σ.store⟩ })
  | .selectDirty =>
    some ((w.rows s).map fun rows => (rows.find? fun r => !r.success).map Row.version, w)
  | .selectApplied =>
    some ((w.rows s).map fun rows => rows.map fun r => (r.version, r.checksum), w)
  | .begin =>
    match s.transaction with
    | none => some (.ok (), w.setSession t (some ⟨s.path, some (some [])⟩))
    | some _ => some (.error "already in a transaction", w)
  | .execute sql => some (w.runWrite exec t s (.script sql))
  | .insertRow row => some (w.runWrite exec t s (.insert row))
  | .commit => some (w.commit exec t s)
  | .rollback => some (.ok (), w.setSession t (some ⟨s.path, none⟩))

/-- An aborted transaction accepts nothing but its end. -/
def executeIn (s : Session) (c : Statement) : Option (Except String c.Answer × World S) :=
  if s.transaction = some none ∧ c ≠ .commit ∧ c ≠ .rollback then
    some (.error "current transaction is aborted", w)
  else
    w.execute exec t s c

/-- A node that asks for a connection has one opened if it has none. -/
def connect (c : Statement) : World S :=
  if c = .acquire ∧ w.sessions t = none then w.setSession t (some ⟨"public", none⟩) else w

/-- What becomes of a statement on the connection of node `t`; a rollback fails only with the
connection. -/
def attempt (fault : Fault) (c : Statement) : Option (Except String c.Answer × World S) :=
  match w.sessions t with
  | none => some (.error "connection closed", w)
  | some s =>
    match fault with
    | .none => w.executeIn exec t s c
    | .refused e => if c = .rollback then none else some (.error e, w.abort t s)
    | .lostBefore e => some (.error e, w.drop t)
    | .lostAfter e => (w.executeIn exec t s c).map fun r => (.error e, r.2.drop t)

/-- The answer to a statement. A schema is created on a connection of its own. -/
def answer (fault : Fault) : (c : Statement) → Option (Except String c.Answer × World S)
  | .createSchema _ =>
    match fault with
    | .none => some (.ok (), w)
    | .refused e | .lostBefore e | .lostAfter e => some (.error e, w)
  | c => (w.connect t c).attempt exec t fault c

end World

/-- All nodes. They have been built with the first migrations of one list, as many as there were at
the time, and are configured with prefixes among `prefixes`. -/
abbrev nodes (digest : String → List UInt8) (exec : String → S → Option S)
    (migrations : List Migration) (prefixes : Set String) : Machine Postgres where
  Op := { op : PostgresOptions × ℕ // op.1.tablePrefix ∈ prefixes }
  Outcome := Option ((PostgresOptions × ℕ) × Except WfeError Unit)
  idle := none
  State := World S
  Oracle := Fault
  program := fun op =>
    (ensureStoreExists digest (migrations.take op.1.2) op.1.1).run >>= fun r =>
      pure (some (op.1, r))
  answer := fun fault t w c => w.answer exec t fault c

/-! ## What is applied -/

/-- The migrations that are applied. -/
def ups (migrations : List Migration) : List Migration := migrations.filter fun m => !m.isDown

/-- The rewritten script. -/
def Migration.script (pre : String) (m : Migration) : String := substituteIdentifiers m.sql pre

/-- The row of a migration that has been applied with a prefix. -/
def Migration.row (digest : String → List UInt8) (pre : String) (m : Migration) : Row :=
  ⟨m.version, m.description, true, digest (m.script pre)⟩

/-- The scripts that a migration is rewritten to with prefixes among `prefixes` are told apart by
their checksums. -/
def Distinguishes (digest : String → List UInt8) (migrations : List Migration)
    (prefixes : Set String) : Prop :=
  ∀ m ∈ ups migrations, Set.InjOn digest ((fun pre => m.script pre) '' prefixes)

/-- Runs the scripts of migrations, rewritten with a prefix, one after another. -/
def runScripts (exec : String → S → Option S) (pre : String) (store : S) (ms : List Migration) :
    Option S :=
  ms.foldlM (fun s m => exec (m.script pre) s) store

/-- The rows of the tracking table, if there is one. -/
def Schema.listed (σ : Schema S) : List Row := σ.tracking.getD []

/-- The tracking table lists the first migrations, in order and with one prefix, and the rest of the
schema is what their scripts make of it when each is run once. -/
def Schema.Migrated (digest : String → List UInt8) (exec : String → S → Option S)
    (migrations : List Migration) (store : S) (σ : Schema S) : Prop :=
  ∃ pre k, σ.listed = ((ups migrations).take k).map (Migration.row digest pre) ∧
    runScripts exec pre store ((ups migrations).take k) = some σ.store

end Wfe.Migrations

