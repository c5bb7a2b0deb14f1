import Wfe.Backends.PostgresVersions

/-!
# Callers of the Postgres provider

What a caller does with the server, whatever the server answers, and what the server answers,
whatever happens to the connection.

## Main definitions

* `Progress`, `monitor`: what a caller has written, committed and read
* `Finds`, `Wrote`, `Failed`: what a statement finds and writes, and what it leaves when it fails
* `Existing`: callers persist what is there

## Main results

* `meets_program`: every call keeps to the monitor
* `answer_write`, `answer_commit`, `answer_selectPointers`: what becomes of a statement
-/

namespace Wfe.Postgres

open Program
open Sqlite (withIdAndName)
open Subscriptions (Columns)
open Transactions

/-! ## What a caller does -/

/-- What a caller has written in its transaction, has committed and has read. -/
structure Progress where
  written : List Statement := []
  committed : Option (List Statement) := none
  header : Option (String × WorkflowRow) := none
  pointers : Option (List PointerRow) := none

/-- A caller writes one instance in a transaction, in order and to the end, or reads one: its row
and then its pointers. -/
def monitor (cols : Columns) : Monitor Statements Progress where
  allow _ _ _ := True
  accept g c :=
    match c with
    | .begin | .rollback => g.written = []
    | .commit => ∃ w, Plan cols w g.written
    | .selectWorkflow _ => g.header = none ∧ g.pointers = none
    | .selectPointers id => g.pointers = none ∧ ∃ row, g.header = some (id, row)
    | c => ∃ w rest, Plan cols w (g.written ++ c :: rest)
  next g c r :=
    match c, r with
    | .begin, _ | .rollback, _ => g
    | .selectWorkflow id, .ok row => { g with header := row.map fun row => (id, row) }
    | .selectPointers _, .ok rows => { g with pointers := some rows }
    | .selectWorkflow _, .error _ | .selectPointers _, .error _ => g
    | .commit, .ok _ => { g with written := [], committed := some g.written }
    | c, .ok _ => { g with written := g.written ++ [c] }
    | _, .error _ => { g with written := [] }

/-- The transaction of an instance has been committed. -/
def Committed (cols : Columns) (w : WorkflowInstance) (g : Progress) : Prop :=
  g.written = [] ∧ ∃ cs ∈ g.committed, Plan cols w cs

/-- An instance has been put together from the rows that have been read. -/
def Read (id : String) (inst : WorkflowInstance) (g : Progress) : Prop :=
  g.written = [] ∧ ∃ row rows ps, g.header = some (id, row) ∧ g.pointers = some rows ∧
    rows.mapM rowToPointer = .ok ps ∧ rowToWorkflow row ps = .ok inst

/-- What a call has done when it returns. -/
def Returned (cols : Columns) (g : Progress) : Outcome → Prop
  | .created uuid w (.ok _) => Committed cols (withIdAndName uuid w) g
  | .persisted w (.ok _) => Committed cols w g
  | .got id (.ok inst) => Read id inst g
  | _ => g.written = []

section Programs

variable {cols : Columns} {g : Progress} {w : WorkflowInstance} {α : Type}

/-- One statement. -/
theorem meetsE_query {c : Statement} {Q : Progress → c.Answer → Prop}
    {E : Progress → WfeError → Prop} (haccept : (monitor cols).accept g c)
    (hok : ∀ a, Q ((monitor cols).next g c (.ok a)) a)
    (herror : ∀ e, E ((monitor cols).next g c (.error e)) (.persistence e)) :
    MeetsE (monitor cols) Q E (query c) g := by
  refine ⟨haccept, ?_⟩
  intro r _
  cases r with
  | ok a => exact hok a
  | error e => exact herror e

/-- One statement, and what is done with its answer. -/
theorem meetsE_query_bind {c : Statement} {f : c.Answer → Fallible α} {Q : Progress → α → Prop}
    {E : Progress → WfeError → Prop} (haccept : (monitor cols).accept g c)
    (herror : ∀ e, E ((monitor cols).next g c (.error e)) (.persistence e))
    (hok : ∀ a, MeetsE (monitor cols) Q E (f a) ((monitor cols).next g c (.ok a))) :
    MeetsE (monitor cols) Q E (query c >>= f) g :=
  meetsE_bind.mpr (meetsE_query haccept hok herror)

/-- Nothing is written any more. -/
def Closed (g : Progress) (_ : WfeError) : Prop := g.written = []

/-- A transaction that fails is rolled back. -/
theorem meetsE_inTransaction {body : Fallible Unit} {Q : Progress → Unit → Prop}
    (h : MeetsE (monitor cols) Q Closed body g) :
    MeetsE (monitor cols) Q Closed (inTransaction body) g := by
  unfold MeetsE inTransaction
  rw [ExceptT.run_mk, meets_bind]
  refine Meets.mono h fun g r hr => ?_
  cases r with
  | ok a => exact hr
  | error e => exact ⟨hr, fun _ _ => hr⟩

/-- The progress with more statements. -/
def Progress.add (g : Progress) (cs : List Statement) : Progress :=
  { g with written := g.written ++ cs }

theorem Progress.add_add (g : Progress) (cs cs' : List Statement) :
    (g.add cs).add cs' = g.add (cs ++ cs') := by
  unfold add
  rw [List.append_assoc]

/-- Pointers are inserted one by one, and then what comes next. -/
theorem meetsE_insertPointers {ps : List ExecutionPointer} (rest : List Statement)
    (hplan : Plan cols w
      (g.written ++ ((ps.map (pointerRow cols w.id)).map Statement.insertPointer ++ rest))) :
    MeetsE (monitor cols)
      (fun g' _ => g' = g.add ((ps.map (pointerRow cols w.id)).map Statement.insertPointer))
      Closed (insertPointers cols w.id ps) g := by
  induction ps generalizing g with
  | nil => exact (congrArg (Progress.mk · _ _ _) (List.append_nil _)).symm
  | cons p ps ih =>
    refine meetsE_query_bind ⟨w, _, hplan⟩ (fun _ => rfl) ?_
    intro _
    change MeetsE _ _ _ _ (g.add [.insertPointer (pointerRow cols w.id p)])
    refine (ih ?_).mono ?_ fun _ _ h => h
    · rw [Progress.add, List.append_assoc]
      exact hplan
    · rintro _ - rfl
      exact Progress.add_add ..

theorem meetsE_insertSubscriptions (w : WorkflowInstance) {rows : List SubscriptionRow}
    (rest : List Statement)
    (hplan : Plan cols w (g.written ++ (rows.map Statement.insertSubscription ++ rest))) :
    MeetsE (monitor cols) (fun g' _ => g' = g.add (rows.map Statement.insertSubscription))
      Closed (insertSubscriptions rows) g := by
  induction rows generalizing g with
  | nil => exact (congrArg (Progress.mk · _ _ _) (List.append_nil _)).symm
  | cons row rows ih =>
    refine meetsE_query_bind ⟨w, _, hplan⟩ (fun _ => rfl) ?_
    intro _
    change MeetsE _ _ _ _ (g.add [.insertSubscription row])
    refine (ih ?_).mono ?_ fun _ _ h => h
    · rw [Progress.add, List.append_assoc]
      exact hplan
    · rintro _ - rfl
      exact Progress.add_add ..

/-- A whole transaction is committed. -/
theorem meetsE_commit (hplan : Plan cols w g.written) :
    MeetsE (monitor cols) (fun g' _ => Committed cols w g') Closed (query .commit) g :=
  meetsE_query ⟨w, hplan⟩ (fun _ => ⟨rfl, g.written, rfl, hplan⟩) fun _ => rfl

theorem meetsE_createNewWorkflow (uuid : String) (w : WorkflowInstance) :
    MeetsE (monitor cols) (fun g' _ => Committed cols (withIdAndName uuid w) g') Closed
      (createNewWorkflow cols uuid w) {} := by
  unfold createNewWorkflow
  generalize withIdAndName uuid w = w
  have hplan : Plan cols w (creation cols w) := .inl rfl
  refine meetsE_query_bind rfl (fun _ => rfl) ?_
  intro _
  refine (meetsE_inTransaction ?_).bind fun _ _ h => h
  refine meetsE_query_bind ⟨w, _, hplan⟩ (fun _ => rfl) ?_
  intro _
  refine (meetsE_insertPointers [] ?_).bind ?_
  · rw [List.append_nil]
    exact hplan
  · rintro _ - rfl
    exact meetsE_commit hplan

theorem meetsE_persist (w : WorkflowInstance) (rows : List SubscriptionRow) :
    MeetsE (monitor cols) (fun g' _ => Committed cols w g') Closed (persist cols w rows) {} := by
  have hplan : Plan cols w (replacement cols w rows) := .inr ⟨rows, rfl⟩
  refine meetsE_query_bind rfl (fun _ => rfl) ?_
  intro _
  refine meetsE_inTransaction ?_
  refine meetsE_query_bind ⟨w, _, hplan⟩ (fun _ => rfl) ?_
  intro _
  refine meetsE_query_bind ⟨w, _, hplan⟩ (fun _ => rfl) ?_
  intro _
  refine (meetsE_insertPointers _ hplan).bind ?_
  rintro _ - rfl
  refine (meetsE_insertSubscriptions w [] ?_).bind ?_
  · rw [List.append_nil]
    exact hplan
  · rintro _ - rfl
    exact meetsE_commit hplan

theorem meetsE_getWorkflowInstance (id : String) :
    MeetsE (monitor cols) (fun g' inst => Read id inst g') Closed (getWorkflowInstance id) {} := by
  refine meetsE_query_bind ⟨rfl, rfl⟩ (fun _ => rfl) ?_
  intro row
  cases row with
  | none => exact meetsE_throw.mpr rfl
  | some row =>
    refine meetsE_bind.mpr ?_
    refine meetsE_query_bind ⟨rfl, row, rfl⟩ (fun _ => rfl) ?_
    intro rows
    show MeetsE _ _ _ (ExceptT.mk (ret (rows.mapM rowToPointer))) _
    cases hps : rows.mapM rowToPointer with
    | error e => exact meetsE_mk_error.mpr rfl
    | ok ps =>
      apply meetsE_mk_ok.mpr
      show MeetsE _ _ _ (ExceptT.mk (ret (rowToWorkflow row ps))) _
      cases hinst : rowToWorkflow row ps with
      | error e => exact meetsE_mk_error.mpr rfl
      | ok inst => exact ⟨rfl, row, rows, ps, rfl, rfl, hps, hinst⟩

/-- What holds when a call ends, however it ends. -/
theorem meets_call {β : Type} {body : Fallible β} {f : Except WfeError β → Outcome}
    {Q : Progress → β → Prop} (hbody : MeetsE (monitor cols) Q Closed body {})
    (hok : ∀ g b, Q g b → Returned cols g (f (.ok b)))
    (herror : ∀ g e, Closed g e → Returned cols g (f (.error e))) :
    (body.run >>= fun r => pure (f r)).Meets (monitor cols) (Returned cols) {} := by
  rw [meets_bind]
  refine Meets.mono hbody fun g r hr => ?_
  cases r with
  | ok b => exact hok g b hr
  | error e => exact herror g e hr

/-- **Every call** keeps to the monitor. -/
theorem meets_program (call : Call) :
    (program cols call).Meets (monitor cols) (Returned cols) {} := by
  cases call with
  | create uuid w =>
    exact meets_call (meetsE_createNewWorkflow uuid w) (fun _ _ h => h) fun _ _ h => h
  | persist w => exact meets_call (meetsE_persist w []) (fun _ _ h => h) fun _ _ h => h
  | persistWithSubscriptions uuid w subscriptions =>
    exact meets_call (meetsE_persist w _) (fun _ _ h => h) fun _ _ h => h
  | get id => exact meets_call (meetsE_getWorkflowInstance id) (fun _ _ h => h) fun _ _ h => h

end Programs

/-! ## What the server answers -/

/-- What a statement writes, given the tables that its transaction sees. -/
inductive Finds (db : Database) : Statement → Write → Prop
  | insertWorkflow (row : WorkflowRow) : headers db row.id = [] →
      Finds db (.insertWorkflow row) (.insertWorkflow row)
  | updateWorkflow (row : WorkflowRow) : headers db row.id ≠ [] →
      Finds db (.updateWorkflow row) (.updateWorkflow row)
  | deletePointers (id : String) : Finds db (.deletePointers id)
      (.deletePointers id ((pointersOf db id).map PointerRow.id))
  | insertPointer (row : PointerRow) : Finds db (.insertPointer row) (.insertPointer row)
  | insertSubscription (row : SubscriptionRow) :
      Finds db (.insertSubscription row) (.insertSubscription row)

/-- A statement that writes. -/
def Statement.isWrite : Statement → Bool
  | .insertWorkflow _ | .updateWorkflow _ | .deletePointers _ | .insertPointer _
  | .insertSubscription _ => true
  | _ => false

/-- An update has found its row. -/
def existing : Exchange Statements → Bool
  | ⟨.updateWorkflow _, .ok n⟩ => 0 < n
  | _ => true

/-- Every persisted instance is there. -/
def Existing (cols : Columns) (_ : Pool (store cols)) (_ : ℕ) (x : Exchange Statements) : Prop :=
  existing x = true

section Server

variable {s s' : Server Write} {t : ℕ} {o : Oracle} {order : List PointerRow → List PointerRow}

/-- A statement that fails leaves its transaction aborted or gone, if there was one. -/
def Failed (s : Server Write) (t : ℕ) (s' : Server Write) : Prop :=
  (s' = s ∧ s.status t ≠ .opened) ∨ ∃ status, s' = s.discard t status

/-- A statement has written `x`. -/
structure Wrote (s : Server Write) (t : ℕ) (c : Statement) (x : Write) (s' : Server Write) :
    Prop where
  opened : s.status t = .opened
  free : s.waits t Write.conflict x = false
  finds : Finds (tablesOf s t) c x
  after : s' = s.write t x

theorem discard_write (x : Write) (status : Status) :
    (s.write t x).discard t status = s.discard t status := by
  simp [Server.discard, Server.setStatus, Server.write, List.filter_append]

theorem discard_discard (status status' : Status) :
    (s.discard t status).discard t status' = s.discard t status' := by
  simp [Server.discard, Server.setStatus]

theorem discard_setStatus (status status' : Status) :
    (s.setStatus t status).discard t status' = s.discard t status' := by
  simp [Server.discard, Server.setStatus]

theorem discard_commit : (s.commit t).discard t .closed = s.commit t := by
  simp [Server.discard, Server.setStatus, Server.commit]

theorem write_cases {α : Type} {x : Write} {n : α} {r : Except String α}
    (h : write s t x n = some (r, s')) :
    (r = .ok n ∧ s.status t = .opened ∧ s.waits t Write.conflict x = false ∧
      x.violates (tablesOf s t) = false ∧ s' = s.write t x) ∨
    ∃ e, r = .error e ∧ Failed s t s' := by
  unfold write at h
  cases hstatus : s.status t with
  | closed =>
    rw [hstatus] at h
    cases h
    exact .inr ⟨_, rfl, .inl ⟨rfl, by rw [hstatus]; decide⟩⟩
  | aborted =>
    rw [hstatus] at h
    cases h
    exact .inr ⟨_, rfl, .inl ⟨rfl, by rw [hstatus]; decide⟩⟩
  | opened =>
    rw [hstatus] at h
    dsimp only at h
    split_ifs at h with hwaits hviolates
    · cases h
      exact .inr ⟨_, rfl, .inr ⟨_, rfl⟩⟩
    · cases h
      exact .inl ⟨rfl, rfl, by simpa using hwaits, by simpa using hviolates, rfl⟩

theorem writeNothing_cases {r : Except String ℕ} (h : writeNothing s t = some (r, s')) :
    (r = .ok 0 ∧ s' = s) ∨ ∃ e, r = .error e ∧ Failed s t s' := by
  unfold writeNothing at h
  cases hstatus : s.status t with
  | closed =>
    rw [hstatus] at h
    cases h
    exact .inr ⟨_, rfl, .inl ⟨rfl, by rw [hstatus]; decide⟩⟩
  | aborted =>
    rw [hstatus] at h
    cases h
    exact .inr ⟨_, rfl, .inl ⟨rfl, by rw [hstatus]; decide⟩⟩
  | opened =>
    rw [hstatus] at h
    cases h
    exact .inl ⟨rfl, rfl⟩

theorem headers_eq_nil {db : Database} {id : String} :
    headers db id = [] ↔ (db.workflows.any fun r => r.id = id) = false := by
  simp [headers]

/-- What becomes of a statement that writes. -/
theorem execute_write {c : Statement} (hc : c.isWrite = true) {r : Except String c.Answer}
    (h : execute s t order c = some (r, s')) :
    (∃ a x, r = .ok a ∧ Wrote s t c x s') ∨ (∃ e, r = .error e ∧ Failed s t s') ∨
    ∃ row, (⟨c, r⟩ : Exchange Statements) = ⟨.updateWorkflow row, .ok 0⟩ ∧ s' = s := by
  cases c with
  | insertWorkflow row =>
    rcases write_cases h with ⟨hr, hopened, hfree, hnot, hs⟩ | ⟨e, hr, hs⟩
    · refine .inl ⟨(), _, hr, hopened, hfree, .insertWorkflow row ?_, hs⟩
      rw [headers_eq_nil, List.any_eq_false]
      intro r hmem
      have hnot := List.any_eq_false.mp hnot r hmem
      simp only [decide_eq_true_eq, not_or] at hnot ⊢
      exact hnot.1
    · exact .inr (.inl ⟨e, hr, hs⟩)
  | updateWorkflow row =>
    change (if _ then _ else _) = _ at h
    split_ifs at h with hany
    · rcases write_cases h with ⟨hr, hopened, hfree, -, hs⟩ | ⟨e, hr, hs⟩
      · refine .inl ⟨_, _, hr, hopened, hfree, .updateWorkflow row ?_, hs⟩
        intro hnil
        rw [headers_eq_nil.mp hnil] at hany
        cases hany
      · exact .inr (.inl ⟨e, hr, hs⟩)
    · rcases writeNothing_cases h with ⟨rfl, hs⟩ | ⟨e, hr, hs⟩
      · exact .inr (.inr ⟨row, rfl, hs⟩)
      · exact .inr (.inl ⟨e, hr, hs⟩)
  | deletePointers id =>
    rcases write_cases h with ⟨hr, hopened, hfree, -, hs⟩ | ⟨e, hr, hs⟩
    · exact .inl ⟨_, _, hr, hopened, hfree, .deletePointers id, hs⟩
    · exact .inr (.inl ⟨e, hr, hs⟩)
  | insertPointer row =>
    rcases write_cases h with ⟨hr, hopened, hfree, -, hs⟩ | ⟨e, hr, hs⟩
    · exact .inl ⟨_, _, hr, hopened, hfree, .insertPointer row, hs⟩
    · exact .inr (.inl ⟨e, hr, hs⟩)
  | insertSubscription row =>
    rcases write_cases h with ⟨hr, hopened, hfree, -, hs⟩ | ⟨e, hr, hs⟩
    · exact .inl ⟨_, _, hr, hopened, hfree, .insertSubscription row, hs⟩
    · exact .inr (.inl ⟨e, hr, hs⟩)
  | begin | commit | rollback | selectWorkflow | selectPointers => cases hc

/-- The same with whatever happens to the connection. -/
theorem answer_write {c : Statement} (hc : c.isWrite = true) {r : Except String c.Answer}
    (h : answer s t o c = some (r, s')) :
    (∃ a x, r = .ok a ∧ Wrote s t c x s') ∨ (∃ e, r = .error e ∧ Failed s t s') ∨
    ∃ row, (⟨c, r⟩ : Exchange Statements) = ⟨.updateWorkflow row, .ok 0⟩ ∧ s' = s := by
  have htx : c.inTransaction = true := by cases c <;> first | rfl | cases hc
  have hrollback : c ≠ .rollback := by
    rintro rfl
    cases hc
  have hbegin : c ≠ .begin := by
    rintro rfl
    cases hc
  unfold answer at h
  cases hfault : o.fault with
  | none =>
    rw [hfault] at h
    exact execute_write hc h
  | refused e =>
    simp only [hfault, if_neg hrollback, if_pos htx, Option.some.injEq, Prod.mk.injEq] at h
    exact .inr (.inl ⟨e, h.1.symm, .inr ⟨_, h.2.symm⟩⟩)
  | lostBefore e =>
    simp only [hfault, if_pos htx, Option.some.injEq, Prod.mk.injEq] at h
    exact .inr (.inl ⟨e, h.1.symm, .inr ⟨_, h.2.symm⟩⟩)
  | lostAfter e =>
    simp only [hfault, if_neg hbegin, if_pos htx, Option.map_eq_some_iff, Prod.mk.injEq] at h
    obtain ⟨⟨r₀, s₀⟩, hexecute, hr, hs⟩ := h
    refine .inr (.inl ⟨e, hr.symm, .inr ⟨.closed, ?_⟩⟩)
    -- Whatever the statement has done to its transaction is gone with it.
    rcases execute_write hc hexecute with ⟨a, x, -, hwrote⟩ | ⟨e', -, hfailed⟩ | ⟨row, -, hsame⟩
    · rw [← hs, hwrote.after, discard_write]
    · rcases hfailed with ⟨hsame, -⟩ | ⟨status, hdiscard⟩
      · rw [← hs, hsame]
      · rw [← hs, hdiscard, discard_discard]
    · rw [← hs, hsame]

/-- What becomes of a commit. -/
theorem answer_commit {r : Except String Unit} (h : answer s t o .commit = some (r, s')) :
    (r = .ok () ∧ s' = s.commit t) ∨ ∃ e, r = .error e ∧
      (s' = s.commit t ∨ ∃ status, s' = s.discard t status) := by
  have hexecute (r : Except String Unit) (s' : Server Write)
      (h : execute s t o.order .commit = some (r, s')) :
      (r = .ok () ∧ s' = s.commit t) ∨ ∃ e, r = .error e ∧ s' = s.discard t .closed := by
    rw [execute] at h
    cases hstatus : s.status t <;> rw [hstatus] at h <;> cases h
    · exact .inr ⟨_, rfl, rfl⟩
    · exact .inl ⟨rfl, rfl⟩
    · exact .inr ⟨_, rfl, rfl⟩
  unfold answer at h
  cases hfault : o.fault with
  | none =>
    rw [hfault] at h
    rcases hexecute r s' h with hok | ⟨e, hr, hs⟩
    · exact .inl hok
    · exact .inr ⟨e, hr, .inr ⟨_, hs⟩⟩
  | refused e =>
    rw [hfault] at h
    cases h
    exact .inr ⟨e, rfl, .inr ⟨_, rfl⟩⟩
  | lostBefore e =>
    rw [hfault] at h
    cases h
    exact .inr ⟨e, rfl, .inr ⟨_, rfl⟩⟩
  | lostAfter e =>
    rw [hfault] at h
    obtain ⟨⟨r₀, s₀⟩, hr₀, heq⟩ := Option.map_eq_some_iff.mp h
    cases heq
    rcases hexecute r₀ s₀ hr₀ with ⟨-, rfl⟩ | ⟨e', -, rfl⟩
    · exact .inr ⟨e, rfl, .inl discard_commit⟩
    · exact .inr ⟨e, rfl, .inr ⟨_, discard_discard ..⟩⟩

/-- What becomes of a begin: no transaction has written anything. -/
theorem answer_begin {r : Except String Unit} (h : answer s t o .begin = some (r, s')) :
    s' = s ∨ (∃ status, s' = s.setStatus t status) ∨ s' = s.discard t .closed := by
  have hexecute (r : Except String Unit) (s' : Server Write)
      (h : execute s t o.order .begin = some (r, s')) : s' = s ∨ s' = s.setStatus t .opened := by
    rw [execute] at h
    cases hstatus : s.status t <;> rw [hstatus] at h <;> cases h
    · exact .inr rfl
    · exact .inl rfl
    · exact .inl rfl
  unfold answer at h
  cases hfault : o.fault with
  | none =>
    rw [hfault] at h
    rcases hexecute r s' h with hs | hs
    · exact .inl hs
    · exact .inr (.inl ⟨_, hs⟩)
  | refused e =>
    rw [hfault] at h
    cases h
    exact .inl rfl
  | lostBefore e =>
    rw [hfault] at h
    cases h
    exact .inl rfl
  | lostAfter e =>
    rw [hfault] at h
    obtain ⟨⟨r₀, s₀⟩, hr₀, heq⟩ := Option.map_eq_some_iff.mp h
    cases heq
    rcases hexecute r₀ s₀ hr₀ with rfl | rfl
    · exact .inr (.inr rfl)
    · exact .inr (.inr (discard_setStatus ..))

theorem answer_rollback {r : Except String Unit} (h : answer s t o .rollback = some (r, s')) :
    s' = s.discard t .closed := by
  unfold answer at h
  cases hfault : o.fault <;> rw [hfault] at h <;> cases h
  · rfl
  · rfl
  · exact discard_discard ..

/-- A statement that reads leaves the server as it is. -/
theorem answer_selectWorkflow {id : String} {r : Except String (Option WorkflowRow)}
    (h : answer s t o (.selectWorkflow id) = some (r, s')) :
    s' = s ∧ ∀ row, r = .ok row → row = (headers (tables s) id).head? := by
  unfold answer at h
  cases hfault : o.fault <;> rw [hfault] at h <;> cases h
  · refine ⟨rfl, ?_⟩
    rintro _ ⟨⟩
    exact (List.head?_filter ..).symm
  all_goals
    refine ⟨rfl, ?_⟩
    rintro _ ⟨⟩

theorem answer_selectPointers {id : String} {r : Except String (List PointerRow)}
    (h : answer s t o (.selectPointers id) = some (r, s')) :
    s' = s ∧ ∀ rows, r = .ok rows → rows.Perm (pointersOf (tables s) id) := by
  have hexecute (r : Except String (List PointerRow)) (s' : Server Write)
      (h : execute s t o.order (.selectPointers id) = some (r, s')) :
      s' = s ∧ ∀ rows, r = .ok rows → rows.Perm (pointersOf (tables s) id) := by
    change (if _ then _ else _) = _ at h
    split_ifs at h with hperm
    cases h
    refine ⟨rfl, ?_⟩
    rintro _ ⟨⟩
    exact List.isPerm_iff.mp hperm
  unfold answer at h
  cases hfault : o.fault with
  | none =>
    rw [hfault] at h
    exact hexecute r s' h
  | refused e | lostBefore e =>
    rw [hfault] at h
    cases h
    refine ⟨rfl, ?_⟩
    rintro _ ⟨⟩
  | lostAfter e =>
    rw [hfault] at h
    obtain ⟨⟨r₀, s₀⟩, hr₀, heq⟩ := Option.map_eq_some_iff.mp h
    cases heq
    refine ⟨(hexecute r₀ s₀ hr₀).1, ?_⟩
    rintro _ ⟨⟩

end Server

end Wfe.Postgres
