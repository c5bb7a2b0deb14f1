import Wfe.Backends.Migrations

/-!
# What a node does when it migrates a schema

A node reads the tracking table once, and from then on writes the migrations that come next, each
in a transaction that it commits or rolls back. What it has read stays true of its schema as long as
it holds the lock.

## Main definitions

* `Progress`: what a node knows of its connection and its schema
* `monitor`: a node writes the next migration, inside of a transaction, and nothing else

## Main results

* `meetsE_applyMigrations`: what the loop has found out when it is done
* `meets_ensureStoreExists`: what a node writes continues what it has read
-/

namespace Wfe.Migrations

open Program

variable {S : Type} (digest : String → List UInt8) (migrations : List Migration)
  (prefixes : Set String)

/-- What the code reads of a row. -/
def Row.pair (row : Row) : Int × List UInt8 := (row.version, row.checksum)

/-- A migration as it is listed. -/
def Migration.pair (pre : String) (m : Migration) : Int × List UInt8 :=
  (m.version, digest (m.script pre))

/-- The row that a write adds. -/
def Write.row? : Write → Option Row
  | script _ => none
  | insert row => some row

/-! ## What a node knows -/

/-- The transaction of a node: none, one with these writes, or one that has failed. -/
inductive Transaction
  | closed
  | opened (ws : List Write)
  | failed

/-- The search path, the lock, the rows that a schema is known to list, and the transaction. -/
structure Progress where
  path : Option String := none
  locked : Bool := false
  table : Option (String × List (Int × List UInt8)) := none
  transaction : Transaction := .closed

/-- The node knows that a schema lists these rows. -/
def Progress.knowing (g : Progress) (path : String) (pairs : List (Int × List UInt8)) : Progress :=
  { g with table := some (path, pairs) }

/-- The writes of the next migration, after those that the schema lists. -/
def Progress.Next (g : Progress) (ws : List Write) : Prop :=
  g.locked = true ∧ ∃ path, ∃ pre ∈ prefixes, ∃ k m,
    (ups migrations)[k]? = some m ∧ g.path = some path ∧
    g.table = some (path, ((ups migrations).take k).map (Migration.pair digest pre)) ∧
    ws = [.script (m.script pre), .insert (m.row digest pre)]

/-- Writes are those of the next migration; everything else but a rollback is done outside of
transactions, and what reads or writes the tracking table under the lock. -/
def monitor : Monitor Postgres Progress where
  allow _ c r :=
    match c, r with
    | .selectApplied, .ok pairs =>
      ∃ pre k, pairs = ((ups migrations).take k).map (Migration.pair digest pre)
    | _, _ => True
  accept g c :=
    match c with
    | .execute sql => ∃ ws rest, g.transaction = .opened ws ∧
        g.Next digest migrations prefixes (ws ++ [.script sql] ++ rest)
    | .insertRow row => ∃ ws rest, g.transaction = .opened ws ∧
        g.Next digest migrations prefixes (ws ++ [.insert row] ++ rest)
    | .commit => ∃ ws, g.transaction = .opened ws ∧ g.Next digest migrations prefixes ws
    | .rollback => g.transaction = .failed
    | .acquire => g.transaction = .closed ∧ g.locked = false ∧ g.path = none
    | .selectApplied => g.transaction = .closed ∧ g.locked = true
    | _ => g.transaction = .closed
  next g c r :=
    match c, r with
    | .setSearchPath path, .ok _ => { g with path := some path }
    | .setSearchPath _, .error _ => { g with path := none }
    | .advisoryLock, .ok _ => { g with locked := true, table := none }
    | .advisoryUnlock, _ => { g with locked := false }
    | .selectApplied, .ok pairs => { g with table := g.path.map fun path => (path, pairs) }
    | .begin, .ok _ => { g with transaction := .opened [] }
    | .execute sql, .ok _ =>
      match g.transaction with
      | .opened ws => { g with transaction := .opened (ws ++ [.script sql]) }
      | _ => g
    | .insertRow row, .ok _ =>
      match g.transaction with
      | .opened ws => { g with transaction := .opened (ws ++ [.insert row]) }
      | _ => g
    | .commit, .ok _ =>
      match g.transaction with
      | .opened ws => { g with
          transaction := .closed
          table := g.table.map fun t =>
            (t.1, t.2 ++ (ws.filterMap Write.row?).map Row.pair) }
      | _ => g
    | .execute _, .error _ | .insertRow _, .error _ | .commit, .error _ =>
      { g with transaction := .failed }
    | .rollback, _ => { g with transaction := .closed }
    | _, _ => g

/-! ## What a node does -/

section Node

variable {digest : String → List UInt8} {migrations : List Migration} {prefixes : Set String}
  {g : Progress}

/-- One statement. -/
theorem meetsE_query {c : Statement} {Q : Progress → c.Answer → Prop}
    {E : Progress → WfeError → Prop} (haccept : (monitor digest migrations prefixes).accept g c)
    (hok : ∀ a, (monitor digest migrations prefixes).allow g c (.ok a) →
      Q ((monitor digest migrations prefixes).next g c (.ok a)) a)
    (herror : ∀ e, E ((monitor digest migrations prefixes).next g c (.error e)) (.persistence e)) :
    MeetsE (monitor digest migrations prefixes) Q E (query c) g := by
  refine ⟨haccept, ?_⟩
  intro r hr
  cases r with
  | ok a => exact hok a hr
  | error e => exact herror e

/-- One statement, and what is done with its answer. -/
theorem meetsE_query_bind {α : Type} {c : Statement} {f : c.Answer → Fallible α}
    {Q : Progress → α → Prop} {E : Progress → WfeError → Prop}
    (haccept : (monitor digest migrations prefixes).accept g c)
    (herror : ∀ e, E ((monitor digest migrations prefixes).next g c (.error e)) (.persistence e))
    (hok : ∀ a, (monitor digest migrations prefixes).allow g c (.ok a) →
      MeetsE (monitor digest migrations prefixes) Q E (f a)
        ((monitor digest migrations prefixes).next g c (.ok a))) :
    MeetsE (monitor digest migrations prefixes) Q E (query c >>= f) g :=
  meetsE_bind.mpr (meetsE_query haccept hok herror)

/-- No transaction is open. -/
def Closed (g : Progress) (_ : WfeError) : Prop := g.transaction = .closed

/-- A transaction that fails is rolled back. -/
theorem meetsE_inTransaction {body : Fallible Unit} {Q : Progress → Unit → Prop}
    (h : MeetsE (monitor digest migrations prefixes) Q (fun g _ => g.transaction = .failed) body
      g) :
    MeetsE (monitor digest migrations prefixes) Q Closed (inTransaction body) g := by
  unfold MeetsE inTransaction
  rw [ExceptT.run_mk, meets_bind]
  refine Meets.mono h fun g r hr => ?_
  cases r with
  | ok a => exact hr
  | error e => exact ⟨hr, fun _ _ => rfl⟩

/-- One migration more is listed, or the transaction has been rolled back. -/
theorem meetsE_applyMigration {path pre : String} {k : ℕ} {m : Migration} (hpre : pre ∈ prefixes)
    (hlocked : g.locked = true) (hclosed : g.transaction = .closed) (hpath : g.path = some path)
    (hm : (ups migrations)[k]? = some m)
    (htable : g.table =
      some (path, ((ups migrations).take k).map (Migration.pair digest pre))) :
    MeetsE (monitor digest migrations prefixes)
      (fun g' _ => g' =
        g.knowing path (((ups migrations).take (k + 1)).map (Migration.pair digest pre)))
      Closed (applyMigration (m.script pre) (m.row digest pre)) g := by
  have hnext (g' : Progress) (hg' : g' = { g with transaction := g'.transaction }) :
      g'.Next digest migrations prefixes [.script (m.script pre), .insert (m.row digest pre)] := by
    rw [hg']
    exact ⟨hlocked, path, pre, hpre, k, m, hm, hpath, htable, rfl⟩
  refine meetsE_query_bind hclosed (fun _ => hclosed) fun _ _ => ?_
  refine meetsE_inTransaction ?_
  refine meetsE_query_bind ⟨[], _, rfl, hnext _ rfl⟩ (fun _ => rfl) fun _ _ => ?_
  refine meetsE_query_bind ⟨[.script (m.script pre)], [], rfl, hnext _ rfl⟩ (fun _ => rfl)
    fun _ _ => ?_
  refine meetsE_query ⟨_, rfl, hnext _ rfl⟩ (fun _ _ => ?_) fun _ => rfl
  have htake : (ups migrations).take (k + 1) = (ups migrations).take k ++ [m] := by
    rw [List.take_add_one, hm]
    rfl
  simp only [monitor, htable, htake, List.map_append, Progress.knowing]
  rw [hclosed]
  rfl

/-- With versions that differ, a migration is found among the first `k` if it is one of them. -/
theorem lookup_listed {pre : String} {l : List Migration} (hversions : (l.map (·.version)).Nodup)
    {i k : ℕ} {m : Migration} (hm : l[i]? = some m) :
    ((l.take k).map (Migration.pair digest pre)).lookup m.version =
      if i < k then some (digest (m.script pre)) else none := by
  induction l generalizing i k with
  | nil => cases hm
  | cons a l ih =>
    rw [List.map_cons, List.nodup_cons] at hversions
    obtain ⟨ha, hversions⟩ := hversions
    cases k with
    | zero => rfl
    | succ k =>
      rw [List.take_succ_cons, List.map_cons, Migration.pair, List.lookup_cons]
      cases i with
      | zero =>
        obtain rfl := Option.some_inj.1 hm
        simp
      | succ i =>
        have hmem : m ∈ l := List.mem_of_getElem? hm
        have hne : (m.version == a.version) = false := by
          rw [beq_eq_false_iff_ne]
          intro heq
          exact ha (heq ▸ List.mem_map_of_mem hmem)
        rw [hne, ih hversions hm]
        simp

/-- The loop: the migrations passed are listed with the node's own prefix, and after them whatever
was there before. -/
theorem meetsE_applyMigrations {path pre pre' : String} {k : ℕ}
    {applied : List (Int × List UInt8)} (done : List Migration) {rest : List Migration}
    (hpre : pre ∈ prefixes) (hversions : ((ups migrations).map (·.version)).Nodup)
    (happlied : applied = ((ups migrations).take k).map (Migration.pair digest pre'))
    (hsplit : done ++ rest <+: migrations)
    (hlocked : g.locked = true) (hclosed : g.transaction = .closed) (hpath : g.path = some path)
    (htable : g.table = some (path, (ups done).map (Migration.pair digest pre) ++
      applied.drop (ups done).length)) :
    MeetsE (monitor digest migrations prefixes)
      (fun g' _ => g'.transaction = .closed ∧ ∃ later,
        g'.table = some (path, (ups (done ++ rest)).map (Migration.pair digest pre) ++ later))
      Closed (applyMigrations digest pre applied rest) g := by
  induction rest generalizing done g with
  | nil =>
    rw [List.append_nil]
    exact ⟨hclosed, _, htable⟩
  | cons m rest ih =>
    have hassoc : done ++ [m] ++ rest = done ++ m :: rest := by simp
    rw [← hassoc] at hsplit ⊢
    unfold applyMigrations
    by_cases hdown : m.isDown = true
    · have hups : ups (done ++ [m]) = ups done := by simp [ups, hdown]
      rw [if_pos hdown]
      exact ih (done ++ [m]) hsplit hlocked hclosed hpath (by rw [hups]; exact htable)
    rw [if_neg hdown]
    have hups : ups (done ++ [m]) = ups done ++ [m] := by simp [ups, hdown]
    obtain ⟨later, hlater⟩ := hsplit
    have hall : ups migrations = ups done ++ m :: (ups rest ++ ups later) := by
      rw [← hlater, ups, List.filter_append, List.filter_append, ← ups, hups]
      simp [ups]
    have hm : (ups migrations)[(ups done).length]? = some m := by simp [hall]
    have htake : (ups migrations).take (ups done).length = ups done := by simp [hall]
    have htake' : (ups migrations).take ((ups done).length + 1) = ups (done ++ [m]) := by
      rw [List.take_add_one, hm, htake, hups]
      rfl
    have hlookup : applied.lookup m.version =
        if (ups done).length < k then some (digest (m.script pre')) else none := by
      rw [happlied]
      exact lookup_listed hversions hm
    simp only [hlookup]
    by_cases hk : (ups done).length < k
    · -- The migration was there before.
      simp only [if_pos hk]
      have hdrop : applied.drop (ups done).length =
          m.pair digest pre' :: applied.drop (ups (done ++ [m])).length := by
        rw [hups, List.length_append, List.length_singleton]
        refine List.drop_eq_getElem?_toList_append.trans ?_
        rw [happlied, List.getElem?_map, List.getElem?_take_of_lt hk, hm]
        rfl
      by_cases hsame : digest (m.script pre') = digest (substituteIdentifiers m.sql pre)
      · rw [if_pos hsame]
        refine ih (done ++ [m]) ⟨later, hlater⟩ hlocked hclosed hpath ?_
        have hpair : m.pair digest pre' = m.pair digest pre := by
          rw [Migration.pair, hsame]
          rfl
        rw [htable, hdrop, hpair, hups]
        simp
      · rw [if_neg hsame]
        exact hclosed
    · -- It is the next one.
      simp only [if_neg hk]
      have hdrop : applied.drop (ups done).length = [] := by
        rw [List.drop_eq_nil_iff, happlied, List.length_map, List.length_take]
        omega
      rw [hdrop, List.append_nil, ← htake] at htable
      refine (meetsE_applyMigration hpre hlocked hclosed hpath hm htable).bind ?_
      rintro _ - rfl
      refine ih (done ++ [m]) ⟨later, hlater⟩ hlocked hclosed hpath ?_
      have hdrop' : applied.drop (ups (done ++ [m])).length = [] := by
        rw [List.drop_eq_nil_iff, happlied, List.length_map, List.length_take, hups,
          List.length_append]
        omega
      rw [hdrop', List.append_nil, ← htake']
      rfl

/-- The first `n` migrations are listed in a schema with this prefix. -/
def Progress.Listing (digest : String → List UInt8) (migrations : List Migration) (n : ℕ)
    (path pre : String) (g : Progress) : Prop :=
  g.transaction = .closed ∧ ∃ later,
    g.table =
      some (path, (ups (migrations.take n)).map (Migration.pair digest pre) ++ later)

theorem meetsE_applyPrefixedMigrationsLocked {path pre : String} {n : ℕ} (hpre : pre ∈ prefixes)
    (hversions : ((ups migrations).map (·.version)).Nodup) (hlocked : g.locked = true)
    (hclosed : g.transaction = .closed) (hpath : g.path = some path) :
    MeetsE (monitor digest migrations prefixes)
      (fun g' _ => g'.Listing digest migrations n path pre) Closed
      (applyPrefixedMigrationsLocked digest (migrations.take n) pre) g := by
  refine meetsE_query_bind hclosed (fun _ => hclosed) fun _ _ => ?_
  refine meetsE_query_bind hclosed (fun _ => hclosed) fun dirty _ => ?_
  cases dirty with
  | some version => exact hclosed
  | none =>
    refine meetsE_query_bind ⟨hclosed, hlocked⟩ (fun _ => hclosed) ?_
    rintro applied ⟨pre', k, happlied⟩
    refine meetsE_applyMigrations [] hpre hversions happlied (List.take_prefix n migrations)
      hlocked hclosed hpath ?_
    simp [monitor, hpath, ups]

theorem meetsE_runPrefixedMigrations {path pre : String} {n : ℕ} (hpre : pre ∈ prefixes)
    (hversions : ((ups migrations).map (·.version)).Nodup) (hclosed : g.transaction = .closed)
    (hpath : g.path = some path) :
    MeetsE (monitor digest migrations prefixes)
      (fun g' _ => g'.Listing digest migrations n path pre) Closed
      (runPrefixedMigrations digest (migrations.take n) pre) g := by
  refine meetsE_query_bind hclosed (fun _ => hclosed) fun _ _ => ?_
  unfold MeetsE
  rw [ExceptT.run_mk, meets_bind]
  refine Meets.mono (meetsE_applyPrefixedMigrationsLocked hpre hversions rfl hclosed hpath) ?_
  intro g' r hr
  cases r with
  | ok a => exact ⟨hr.1, fun _ _ => hr⟩
  | error e => exact ⟨hr, fun _ _ => hr⟩

/-- A node that has succeeded has its migrations listed in its schema. -/
def Succeeded (digest : String → List UInt8) (migrations : List Migration)
    (options : PostgresOptions) (n : ℕ) (g : Progress) : Prop :=
  g.transaction = .closed ∧ (options.tablePrefix ≠ "" →
    g.Listing digest migrations n (quoted options.schema) options.tablePrefix)

theorem meetsE_migrate {options : PostgresOptions} {n : ℕ}
    (hpre : options.tablePrefix ∈ prefixes)
    (hversions : ((ups migrations).map (·.version)).Nodup) (hclosed : g.transaction = .closed)
    (hpath : g.path = some (quoted options.schema)) :
    MeetsE (monitor digest migrations prefixes)
      (fun g _ => Succeeded digest migrations options n g) Closed
      (migrate digest (migrations.take n) options) g := by
  unfold migrate
  split_ifs with hprefix
  · refine ⟨hclosed, fun r _ => ?_⟩
    cases r with
    | ok a => exact ⟨hclosed, fun h => absurd hprefix h⟩
    | error e => exact hclosed
  · exact (meetsE_runPrefixedMigrations hpre hversions hclosed hpath).mono
      (fun g _ hg => ⟨hg.1, fun _ => hg⟩) fun _ _ h => h

theorem meets_ensureStoreExists {options : PostgresOptions} {n : ℕ}
    (hpre : options.tablePrefix ∈ prefixes)
    (hversions : ((ups migrations).map (·.version)).Nodup) :
    MeetsE (monitor digest migrations prefixes)
      (fun g _ => Succeeded digest migrations options n g) Closed
      (ensureStoreExists digest (migrations.take n) options) {} := by
  unfold ensureStoreExists
  refine meetsE_bind.mpr ⟨rfl, ?_⟩
  intro created _
  cases created with
  | error e => exact rfl
  | ok a =>
    refine meetsE_query_bind ⟨rfl, rfl, rfl⟩ (fun _ => rfl) fun _ _ => ?_
    refine meetsE_query_bind rfl (fun _ => rfl) fun previous _ => ?_
    refine meetsE_query_bind rfl (fun _ => rfl) fun _ _ => ?_
    unfold MeetsE
    rw [ExceptT.run_mk, meets_bind]
    refine Meets.mono (meetsE_migrate hpre hversions rfl rfl) ?_
    intro g' r hr
    -- The search path is set once more, and what has been found out stays.
    cases r with
    | ok a =>
      refine ⟨hr.1, fun restored _ => ?_⟩
      cases restored with
      | ok b => exact hr
      | error e => exact hr.1
    | error e =>
      refine ⟨hr, fun restored _ => ?_⟩
      cases restored with
      | ok b => exact hr
      | error e' => exact hr

end Node

end Wfe.Migrations
