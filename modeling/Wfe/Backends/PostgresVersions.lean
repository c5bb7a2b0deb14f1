import Mathlib.Data.List.Induction
import Wfe.Backends.PostgresInstances

/-!
# Versions of instances in Postgres

Every transaction of the provider writes one instance: first its row, then its pointers. The row is
locked from then on, so the transactions on one instance follow each other, and each of them
replaces all that is there of its instance.

## Main definitions

* `Version`, `versionOf`, `current`: what a transaction leaves of an instance, and what is there
* `HoldsOf`, `Holds`: the tables are those of the current versions
* `Plan`: the statements of a transaction
* `Consistent`: the tables, and what the callers have written so far

## Main results

* `Plan.holds`: a whole transaction leaves its version, and the others as they were
* `Consistent.write`, `Consistent.commit`, `Consistent.discard`: what statements keep
-/

namespace Wfe.Postgres

open Subscriptions (Columns)
open Transactions

/-! ## Versions -/

/-- The rows of an instance. -/
structure Version where
  header : WorkflowRow
  pointers : List PointerRow
deriving DecidableEq, Repr

/-- What a transaction leaves of the instance that it writes. -/
def versionOf (ws : List Write) : Option Version :=
  (ws.findSome? Write.header).map fun row => ⟨row, ws.filterMap Write.pointer⟩

def versionFor (id : String) (ws : List Write) : Option Version :=
  (versionOf ws).filter fun v => v.header.id = id

/-- The version of an instance that has been committed last. -/
def current (log : List (List Write)) (id : String) : Option Version := latest (versionFor id) log

/-- The version that an instance is written as. -/
def version (cols : Columns) (w : WorkflowInstance) : Version :=
  ⟨workflowRow cols w, w.executionPointers.map (pointerRow cols w.id)⟩

/-- The rows of an instance in `workflows`. -/
def headers (db : Database) (id : String) : List WorkflowRow :=
  db.workflows.filter fun r => r.id = id

/-- The rows of an instance in `execution_pointers`. -/
def pointersOf (db : Database) (id : String) : List PointerRow :=
  db.executionPointers.filter fun r => r.workflowId = id

/-- The tables hold this version of an instance and nothing else of it, or nothing. -/
def HoldsOf (db : Database) (id : String) : Option Version → Prop
  | none => headers db id = [] ∧ pointersOf db id = []
  | some v => headers db id = [v.header] ∧ pointersOf db id = v.pointers

/-- The tables hold the current versions. -/
def Holds (s : Server Write) : Prop := ∀ id, HoldsOf (tables s) id (current s.log id)

section Versions

variable {ws : List Write} {v : Version} {id : String} {log log' : List (List Write)}

theorem versionFor_eq_some :
    versionFor id ws = some v ↔ versionOf ws = some v ∧ v.header.id = id := by
  simp [versionFor, Option.filter_eq_some_iff]

theorem current_concat : current (log ++ [ws]) id = (versionFor id ws).or (current log id) :=
  latest_concat ws

theorem current_concat_of_ne {row : WorkflowRow} {rows : List PointerRow}
    (hws : versionOf ws = some ⟨row, rows⟩) (hne : row.id ≠ id) :
    current (log ++ [ws]) id = current log id := by
  rw [current_concat, versionFor, hws]
  simp [Option.filter, hne]

theorem current_concat_self {row : WorkflowRow} {rows : List PointerRow}
    (hws : versionOf ws = some ⟨row, rows⟩) :
    current (log ++ [ws]) row.id = some ⟨row, rows⟩ := by
  rw [current_concat, versionFor, hws]
  simp [Option.filter]

theorem exists_of_current (h : current log id = some v) :
    v.header.id = id ∧ ∃ ws ∈ log, versionOf ws = some v := by
  obtain ⟨ws, hws, hv⟩ := exists_mem_of_latest h
  obtain ⟨hv, hid⟩ := versionFor_eq_some.mp hv
  exact ⟨hid, ws, hws, hv⟩

theorem isSome_current_append (h : log <+: log') (hlog : (current log id).isSome = true) :
    (current log' id).isSome = true :=
  isSome_latest_of_prefix h hlog

/-- Transactions that do not write an instance leave its version. -/
theorem current_append {rest : List (List Write)} (h : ∀ ws ∈ rest, versionFor id ws = none) :
    current (log ++ rest) id = current log id := by
  induction rest using List.reverseRecOn with
  | nil => rw [List.append_nil]
  | append_singleton rest ws ih =>
    rw [← List.append_assoc, current_concat, h ws (by simp), Option.none_or]
    exact ih fun ws hws => h ws (by simp [hws])

end Versions

/-! ## The rows of an instance after writes -/

section Rows

variable {db : Database} {id : String}

theorem headers_insertWorkflow (row : WorkflowRow) :
    headers (Write.apply db (.insertWorkflow row)) id =
      headers db id ++ if row.id = id then [row] else [] := by
  simp [headers, Write.apply, List.filter_append, List.filter_singleton]

theorem headers_updateWorkflow (row : WorkflowRow) :
    headers (Write.apply db (.updateWorkflow row)) id =
      if row.id = id then (headers db id).map fun _ => row else headers db id := by
  unfold headers Write.apply
  dsimp only
  induction db.workflows with
  | nil => simp
  | cons r rs ih =>
    rw [List.map_cons, List.filter_cons, List.filter_cons, ih]
    by_cases hr : r.id = row.id
    · by_cases hid : row.id = id <;> simp [hr, hid]
    · by_cases hid : row.id = id
      · have hne : r.id ≠ id := fun h => hr (h.trans hid.symm)
        simp [hid, hne]
      · simp [hr, hid]

theorem pointersOf_deletePointers (workflowId : String) (ids : List String) :
    pointersOf (Write.apply db (.deletePointers workflowId ids)) id =
      if workflowId = id then (pointersOf db id).filter fun r => r.id ∉ ids
      else pointersOf db id := by
  unfold pointersOf Write.apply
  dsimp only
  rw [List.filter_filter]
  split_ifs with h
  · rw [List.filter_filter]
    apply List.filter_congr
    intro r _
    by_cases hr : r.workflowId = id <;> simp [hr, h]
  · apply List.filter_congr
    intro r _
    by_cases hr : r.workflowId = id
    · simp [hr, Ne.symm h]
    · simp [hr]

theorem pointersOf_insertPointer (row : PointerRow) :
    pointersOf (Write.apply db (.insertPointer row)) id =
      pointersOf db id ++ if row.workflowId = id then [row] else [] := by
  simp [pointersOf, Write.apply, List.filter_append, List.filter_singleton]

/-- Rows of pointers of one instance that are inserted. -/
theorem rows_insertPointers (db : Database) {rows : List PointerRow}
    (hrows : ∀ row ∈ rows, row.workflowId = id) (id' : String) :
    headers ((rows.map Write.insertPointer).foldl Write.apply db) id' = headers db id' ∧
    pointersOf ((rows.map Write.insertPointer).foldl Write.apply db) id' =
      pointersOf db id' ++ if id = id' then rows else [] := by
  induction rows generalizing db with
  | nil => simp
  | cons row rows ih =>
    obtain ⟨hrow, hrows⟩ := List.forall_mem_cons.mp hrows
    obtain ⟨hheaders, hpointers⟩ := ih (Write.apply db (.insertPointer row)) hrows
    rw [List.map_cons, List.foldl_cons, hheaders, hpointers, pointersOf_insertPointer, hrow]
    refine ⟨rfl, ?_⟩
    by_cases hid : id = id' <;> simp [hid]

theorem rows_insertSubscriptions (db : Database) (rows : List SubscriptionRow) (id : String) :
    headers ((rows.map Write.insertSubscription).foldl Write.apply db) id = headers db id ∧
    pointersOf ((rows.map Write.insertSubscription).foldl Write.apply db) id =
      pointersOf db id := by
  induction rows generalizing db with
  | nil => exact ⟨rfl, rfl⟩
  | cons row rows ih => exact ih _

end Rows

/-! ## Transactions -/

/-- The statements that insert the pointers of an instance. -/
def pointerStatements (cols : Columns) (w : WorkflowInstance) : List Statement :=
  (version cols w).pointers.map Statement.insertPointer

/-- The statements of `create_new_workflow` between the begin and the commit. -/
def creation (cols : Columns) (w : WorkflowInstance) : List Statement :=
  .insertWorkflow (workflowRow cols w) :: pointerStatements cols w

/-- The statements of `persist_workflow` and `persist_workflow_with_subscriptions`. -/
def replacement (cols : Columns) (w : WorkflowInstance) (rows : List SubscriptionRow) :
    List Statement :=
  .updateWorkflow (workflowRow cols w) :: .deletePointers w.id ::
    (pointerStatements cols w ++ rows.map Statement.insertSubscription)

/-- The statements of a transaction that writes an instance. -/
def Plan (cols : Columns) (w : WorkflowInstance) (cs : List Statement) : Prop :=
  cs = creation cols w ∨ ∃ rows, cs = replacement cols w rows

/-- What a statement writes, where it relies on what has been committed. -/
inductive Effect (log : List (List Write)) : Statement → Write → Prop
  | insertWorkflow (row : WorkflowRow) : current log row.id = none →
      Effect log (.insertWorkflow row) (.insertWorkflow row)
  | updateWorkflow (row : WorkflowRow) : (current log row.id).isSome = true →
      Effect log (.updateWorkflow row) (.updateWorkflow row)
  | deletePointers (id : String) (ids : List String) :
      (∀ v ∈ current log id, ∀ r ∈ v.pointers, r.id ∈ ids) →
      Effect log (.deletePointers id) (.deletePointers id ids)
  | insertPointer (row : PointerRow) : Effect log (.insertPointer row) (.insertPointer row)
  | insertSubscription (row : SubscriptionRow) :
      Effect log (.insertSubscription row) (.insertSubscription row)

/-- The instance of which a statement writes the row, or replaces the pointers. -/
def Statement.about : Statement → Option String
  | .insertWorkflow row | .updateWorkflow row => some row.id
  | .deletePointers id => some id
  | _ => none

section Transactions

variable {cols : Columns} {log log' : List (List Write)} {w : WorkflowInstance}
  {cs : List Statement} {ws : List Write}

theorem Effect.mono {c : Statement} {x : Write} (h : Effect log c x)
    (hlog : ∀ id ∈ c.about, current log' id = current log id) : Effect log' c x := by
  cases h with
  | insertWorkflow row hrow => exact .insertWorkflow row ((hlog _ rfl).trans hrow)
  | updateWorkflow row hrow =>
    refine .updateWorkflow row ?_
    rw [hlog _ rfl]
    exact hrow
  | deletePointers id ids hids =>
    refine .deletePointers id ids ?_
    rw [hlog _ rfl]
    exact hids
  | insertPointer row => exact .insertPointer row
  | insertSubscription row => exact .insertSubscription row

theorem effects_mono (h : List.Forall₂ (Effect log) cs ws)
    (hlog : ∀ c ∈ cs, ∀ id ∈ c.about, current log' id = current log id) :
    List.Forall₂ (Effect log') cs ws := by
  induction h with
  | nil => exact .nil
  | cons hx _ ih =>
    obtain ⟨hc, hlog⟩ := List.forall_mem_cons.mp hlog
    exact .cons (hx.mono hc) (ih hlog)

theorem Plan.ne_nil (h : Plan cols w cs) : cs ≠ [] := by
  rcases h with rfl | ⟨rows, rfl⟩ <;> exact List.cons_ne_nil _ _

/-- What is inserted after the row is about no instance by itself. -/
theorem about_of_mem_inserts {rows : List SubscriptionRow} {c : Statement}
    (hc : c ∈ pointerStatements cols w ++ rows.map Statement.insertSubscription) :
    c.about = none := by
  rcases List.mem_append.mp hc with hc | hc
  · obtain ⟨row, -, rfl⟩ := List.mem_map.mp hc
    rfl
  · obtain ⟨row, -, rfl⟩ := List.mem_map.mp hc
    rfl

theorem about_of_mem_pointerStatements {c : Statement} (hc : c ∈ pointerStatements cols w) :
    c.about = none :=
  about_of_mem_inserts (List.mem_append_left (([] : List SubscriptionRow).map _) hc)

/-- A transaction is about one instance. -/
theorem Plan.about (h : Plan cols w cs) {c : Statement} (hc : c ∈ cs) {id : String}
    (hid : id ∈ c.about) : id = w.id := by
  rcases h with rfl | ⟨rows, rfl⟩
  · rcases List.mem_cons.mp hc with rfl | hc
    · exact (Option.some_inj.mp hid).symm
    · rw [about_of_mem_pointerStatements hc] at hid
      cases hid
  · rcases List.mem_cons.mp hc with rfl | hc
    · exact (Option.some_inj.mp hid).symm
    · rcases List.mem_cons.mp hc with rfl | hc
      · exact (Option.some_inj.mp hid).symm
      · rw [about_of_mem_inserts hc] at hid
        cases hid

/-- The row of the instance comes first. -/
theorem Plan.header_first {pre rest : List Statement} {c : Statement}
    (h : Plan cols w (pre ++ c :: rest)) {row : WorkflowRow}
    (hc : c = .insertWorkflow row ∨ c = .updateWorkflow row) : pre = [] := by
  have habout : c.about ≠ none := by rcases hc with rfl | rfl <;> exact Option.some_ne_none _
  by_contra hpre
  obtain ⟨y, pre, rfl⟩ := List.exists_cons_of_ne_nil hpre
  have hmem : c ∈ pre ++ c :: rest := by simp
  rcases h with heq | ⟨rows, heq⟩
  · have htail : pre ++ c :: rest = _ := (List.cons.inj heq).2
    rw [htail] at hmem
    exact habout (about_of_mem_pointerStatements hmem)
  · have htail : pre ++ c :: rest = _ := (List.cons.inj heq).2
    rw [htail] at hmem
    rcases List.mem_cons.mp hmem with rfl | hmem
    · rcases hc with hc | hc <;> cases hc
    · exact habout (about_of_mem_inserts hmem)

/-- The pointers are deleted right after the row has been updated. -/
theorem Plan.delete_second {pre rest : List Statement} {id : String}
    (h : Plan cols w (pre ++ .deletePointers id :: rest)) :
    pre = [.updateWorkflow (workflowRow cols w)] := by
  have habout : (Statement.deletePointers id).about ≠ none := Option.some_ne_none _
  rcases h with heq | ⟨rows, heq⟩
  · have hmem : Statement.deletePointers id ∈ creation cols w := by
      rw [← heq]
      simp
    rcases List.mem_cons.mp hmem with hmem | hmem
    · cases hmem
    · exact absurd (about_of_mem_pointerStatements hmem) habout
  · rcases pre with - | ⟨y, - | ⟨z, pre⟩⟩
    · cases (List.cons.inj heq).1
    · rw [(List.cons.inj heq).1]
    · have htail : pre ++ .deletePointers id :: rest = _ :=
        (List.cons.inj (List.cons.inj heq).2).2
      have hmem : Statement.deletePointers id ∈ pre ++ .deletePointers id :: rest := by simp
      rw [htail] at hmem
      exact absurd (about_of_mem_inserts hmem) habout

theorem effects_insertSubscriptions {rows : List SubscriptionRow}
    (h : List.Forall₂ (Effect log) (rows.map Statement.insertSubscription) ws) :
    ws = rows.map Write.insertSubscription := by
  induction rows generalizing ws with
  | nil =>
    cases h
    rfl
  | cons row rows ih =>
    obtain ⟨x, ws, hx, hws, rfl⟩ := List.forall₂_cons_left_iff.mp h
    cases hx
    rw [ih hws, List.map_cons]

/-- What is inserted after the row of the instance. -/
theorem effects_inserts {rows : List PointerRow} {rows' : List SubscriptionRow}
    (h : List.Forall₂ (Effect log)
      (rows.map Statement.insertPointer ++ rows'.map Statement.insertSubscription) ws) :
    ws = rows.map Write.insertPointer ++ rows'.map Write.insertSubscription := by
  induction rows generalizing ws with
  | nil => exact effects_insertSubscriptions h
  | cons row rows ih =>
    obtain ⟨x, ws, hx, hws, rfl⟩ := List.forall₂_cons_left_iff.mp h
    cases hx
    rw [ih hws]
    rfl

/-- What a whole transaction has written. -/
theorem Plan.writes (h : Plan cols w cs) (hws : List.Forall₂ (Effect log) cs ws) :
    (current log w.id = none ∧ ws = .insertWorkflow (workflowRow cols w) ::
      (version cols w).pointers.map Write.insertPointer) ∨
    ∃ (ids : List String) (rows : List SubscriptionRow), (current log w.id).isSome = true ∧
      (∀ v ∈ current log w.id, ∀ r ∈ v.pointers, r.id ∈ ids) ∧
      ws = .updateWorkflow (workflowRow cols w) :: .deletePointers w.id ids ::
        ((version cols w).pointers.map Write.insertPointer ++
          rows.map Write.insertSubscription) := by
  rcases h with rfl | ⟨rows, rfl⟩
  · obtain ⟨x, ws', hx, hws', rfl⟩ := List.forall₂_cons_left_iff.mp hws
    cases hx with
    | insertWorkflow _ hnone =>
      have hnil : pointerStatements cols w = pointerStatements cols w ++
          ([] : List SubscriptionRow).map Statement.insertSubscription := (List.append_nil _).symm
      rw [hnil] at hws'
      refine .inl ⟨hnone, ?_⟩
      rw [effects_inserts hws', List.map_nil, List.append_nil]
  · obtain ⟨x, ws', hx, hws', rfl⟩ := List.forall₂_cons_left_iff.mp hws
    obtain ⟨y, ws'', hy, hws'', rfl⟩ := List.forall₂_cons_left_iff.mp hws'
    cases hx with
    | updateWorkflow _ hsome =>
      cases hy with
      | deletePointers _ ids hids =>
        exact .inr ⟨ids, rows, hsome, hids, by rw [effects_inserts hws'']⟩

theorem filterMap_pointer_insertPointers (rows : List PointerRow) :
    (rows.map Write.insertPointer).filterMap Write.pointer = rows := by
  rw [List.filterMap_map]
  exact List.filterMap_some

/-- **A transaction writes the whole version** of its instance. -/
theorem Plan.versionOf (h : Plan cols w cs) (hws : List.Forall₂ (Effect log) cs ws) :
    versionOf ws = some (version cols w) := by
  rcases h.writes hws with ⟨-, rfl⟩ | ⟨ids, rows, -, -, rfl⟩
  · unfold Postgres.versionOf
    rw [List.filterMap_cons, filterMap_pointer_insertPointers]
    rfl
  · have hrows : (rows.map Write.insertSubscription).filterMap Write.pointer = [] := by
      rw [List.filterMap_map, List.filterMap_eq_nil_iff]
      intro _ _
      rfl
    unfold Postgres.versionOf
    simp only [List.filterMap_cons, Write.pointer, List.filterMap_append,
      filterMap_pointer_insertPointers, hrows, List.append_nil]
    rfl

/-- The rows of an instance after a whole transaction: of the one that is written, those of its new
version, and of the others what was there. -/
theorem Plan.rows (h : Plan cols w cs) (hws : List.Forall₂ (Effect log) cs ws) {db : Database}
    (hdb : HoldsOf db w.id (current log w.id)) (id : String) :
    headers (ws.foldl Write.apply db) id =
      (if w.id = id then [workflowRow cols w] else headers db id) ∧
    pointersOf (ws.foldl Write.apply db) id =
      (if w.id = id then (version cols w).pointers else pointersOf db id) := by
  have hpointers : ∀ row ∈ (version cols w).pointers, row.workflowId = w.id := by
    intro row hrow
    obtain ⟨p, -, rfl⟩ := List.mem_map.mp hrow
    rfl
  have hrow : (workflowRow cols w).id = w.id := rfl
  rcases h.writes hws with ⟨hnone, rfl⟩ | ⟨ids, rows, hsome, hids, rfl⟩
  · -- There was nothing of the instance.
    rw [hnone] at hdb
    obtain ⟨hheaders, hrows⟩ := rows_insertPointers
      (Write.apply db (.insertWorkflow (workflowRow cols w))) hpointers id
    have hkeep : pointersOf (Write.apply db (.insertWorkflow (workflowRow cols w))) id =
        pointersOf db id := rfl
    rw [List.foldl_cons, hheaders, hrows, headers_insertWorkflow, hkeep, hrow]
    split_ifs with heq
    · subst heq
      rw [hdb.1, hdb.2]
      exact ⟨rfl, rfl⟩
    · rw [List.append_nil, List.append_nil]
      exact ⟨rfl, rfl⟩
  · -- There was a version, and all of its pointers are found and deleted.
    obtain ⟨v, hv⟩ := Option.isSome_iff_exists.mp hsome
    rw [hv] at hdb
    have hgone : (v.pointers.filter fun r => r.id ∉ ids) = [] := by
      rw [List.filter_eq_nil_iff]
      intro r hr
      simpa using hids v hv r hr
    generalize hdb₁ : Write.apply db (.updateWorkflow (workflowRow cols w)) = db₁
    generalize hdb₂ : Write.apply db₁ (.deletePointers w.id ids) = db₂
    have hheaders₂ : headers db₂ id = headers db₁ id := by
      rw [← hdb₂]
      rfl
    have hrows₁ : pointersOf db₁ id = pointersOf db id := by
      rw [← hdb₁]
      rfl
    obtain ⟨hheaders₃, hrows₃⟩ := rows_insertPointers db₂ hpointers id
    generalize hdb₃ : ((version cols w).pointers.map Write.insertPointer).foldl Write.apply db₂ =
      db₃ at hheaders₃ hrows₃
    obtain ⟨hheaders₄, hrows₄⟩ := rows_insertSubscriptions db₃ rows id
    rw [List.foldl_cons, List.foldl_cons, List.foldl_append, hdb₁, hdb₂, hdb₃, hheaders₄, hrows₄,
      hheaders₃, hrows₃, hheaders₂, ← hdb₂, pointersOf_deletePointers, hrows₁, ← hdb₁,
      headers_updateWorkflow, hrow]
    split_ifs with heq
    · subst heq
      rw [hdb.1, hdb.2, hgone]
      exact ⟨rfl, rfl⟩
    · rw [List.append_nil]
      exact ⟨rfl, rfl⟩

/-- What is current after a whole transaction. -/
theorem Plan.current_concat (h : Plan cols w cs) (hws : List.Forall₂ (Effect log) cs ws)
    (id : String) : current (log ++ [ws]) id =
      if w.id = id then some (version cols w) else current log id := by
  split_ifs with heq
  · rw [← heq]
    exact current_concat_self (h.versionOf hws)
  · exact current_concat_of_ne (h.versionOf hws) heq

/-- **A transaction more**: the tables hold the version that has been written. -/
theorem Plan.holds (h : Plan cols w cs) (hws : List.Forall₂ (Effect log) cs ws)
    {db : Database} (hdb : ∀ id, HoldsOf db id (current log id)) (id : String) :
    HoldsOf (ws.foldl Write.apply db) id (current (log ++ [ws]) id) := by
  obtain ⟨hheaders, hrows⟩ := h.rows hws (hdb w.id) id
  rw [h.current_concat hws]
  by_cases heq : w.id = id
  · rw [if_pos heq] at hheaders hrows ⊢
    exact ⟨hheaders, hrows⟩
  · rw [if_neg heq] at hheaders hrows ⊢
    have hold := hdb id
    unfold HoldsOf at hold ⊢
    rw [hheaders, hrows]
    exact hold

end Transactions

/-! ## Several callers -/

/-- The tables hold what has been committed, and everyone is at some point of a transaction. -/
structure Consistent (cols : Columns) (s : Server Write) (written : ℕ → List Statement) : Prop where
  separate : s.Separate Write.conflict
  holds : Holds s
  whole : ∀ ws ∈ s.log, ∃ w, versionOf ws = some (version cols w)
  effects : ∀ t, List.Forall₂ (Effect s.log) (written t) (s.own t)
  planned : ∀ t, written t ≠ [] → ∃ w rest, Plan cols w (written t ++ rest)
  closed : ∀ t, s.status t ≠ .opened → s.own t = []

theorem Write.conflict_comm (x y : Write) : x.conflict y = y.conflict x := by
  have hany (a b : Option WorkflowRow) :
      (a.any fun row => b.any fun row' => row.id = row'.id ∨ row.name = row'.name) =
        b.any fun row => a.any fun row' => row.id = row'.id ∨ row.name = row'.name := by
    cases a <;> cases b <;> simp [eq_comm]
  have hids (a b : List String) : (a.any fun id => id ∈ b) = b.any fun id => id ∈ a := by
    rw [Bool.eq_iff_iff]
    simp [and_comm]
  have hsubscription (a b : Option String) :
      (a.isSome && decide (a = b)) = (b.isSome && decide (b = a)) := by
    cases a <;> cases b <;> simp [eq_comm]
  unfold Write.conflict
  rw [hany, hids, hsubscription]

namespace Consistent

variable {cols : Columns} {s : Server Write} {written : ℕ → List Statement} {t u : ℕ}
  {w w' : WorkflowInstance} {c : Statement} {x : Write}

/-- Whoever has written something has written the row of its instance. -/
theorem header (h : Consistent cols s written) (hne : written t ≠ [])
    {rest : List Statement} (hplan : Plan cols w (written t ++ rest)) :
    ∃ x ∈ s.own t, x.header = some (workflowRow cols w) := by
  have heffects := h.effects t
  obtain ⟨c, cs, hcs⟩ := List.exists_cons_of_ne_nil hne
  rw [hcs] at heffects hplan
  obtain ⟨x, ws, hx, -, hws⟩ := List.forall₂_cons_left_iff.mp heffects
  refine ⟨x, by rw [hws]; exact List.mem_cons_self, ?_⟩
  rcases hplan with heq | ⟨rows, heq⟩
  · obtain ⟨rfl, -⟩ := List.cons.inj heq
    cases hx
    rfl
  · obtain ⟨rfl, -⟩ := List.cons.inj heq
    cases hx
    rfl

/-- Two callers that have written something write different instances. -/
theorem ids_ne (h : Consistent cols s written) (htu : t ≠ u) (ht : written t ≠ [])
    (hu : written u ≠ []) {rest rest' : List Statement} (hplan : Plan cols w (written t ++ rest))
    (hplan' : Plan cols w' (written u ++ rest')) : w.id ≠ w'.id := by
  obtain ⟨x, hx, hheader⟩ := h.header ht hplan
  obtain ⟨y, hy, hheader'⟩ := h.header hu hplan'
  intro hid
  have hconflict : x.conflict y = false := h.separate.own htu hx hy
  have hrows : (workflowRow cols w).id = (workflowRow cols w').id := hid
  simp [Write.conflict, hheader, hheader', hrows] at hconflict

theorem write (h : Consistent cols s written) (hopened : s.status t = .opened)
    (hwaits : s.waits t Write.conflict x = false) (hx : Effect s.log c x)
    {rest : List Statement} (hplan : Plan cols w (written t ++ c :: rest)) :
    Consistent cols (s.write t x) (Function.update written t (written t ++ [c])) where
  separate := h.separate.write Write.conflict_comm hwaits
  holds := h.holds
  whole := h.whole
  effects u := by
    by_cases hu : u = t
    · subst hu
      rw [Function.update_self, Server.own_write_self]
      exact List.rel_append (h.effects u) (.cons hx .nil)
    · rw [Function.update_of_ne hu, Server.own_write_of_ne hu]
      exact h.effects u
  planned u hne := by
    by_cases hu : u = t
    · subst hu
      rw [Function.update_self]
      refine ⟨w, rest, ?_⟩
      rw [List.append_assoc]
      exact hplan
    · rw [Function.update_of_ne hu] at hne ⊢
      exact h.planned u hne
  closed u hu := by
    have hne : u ≠ t := by
      rintro rfl
      exact hu hopened
    rw [Server.own_write_of_ne hne]
    exact h.closed u hu

theorem discard (h : Consistent cols s written) (status : Status) :
    Consistent cols (s.discard t status) (Function.update written t []) where
  separate := h.separate.discard
  holds := h.holds
  whole := h.whole
  effects u := by
    by_cases hu : u = t
    · subst hu
      rw [Function.update_self, Server.own_discard_self]
      exact .nil
    · rw [Function.update_of_ne hu, Server.own_discard_of_ne hu]
      exact h.effects u
  planned u hne := by
    by_cases hu : u = t
    · subst hu
      rw [Function.update_self] at hne
      exact absurd rfl hne
    · rw [Function.update_of_ne hu] at hne ⊢
      exact h.planned u hne
  closed u hu := by
    by_cases hut : u = t
    · subst hut
      exact Server.own_discard_self
    · rw [Server.own_discard_of_ne hut]
      have hstatus : (s.discard t status).status u = s.status u := Function.update_of_ne hut ..
      exact h.closed u (by rwa [hstatus] at hu)

/-- A whole transaction is committed. -/
theorem commit (h : Consistent cols s written) (hplan : Plan cols w (written t)) :
    Consistent cols (s.commit t) (Function.update written t []) where
  separate := h.separate.commit
  holds := by
    intro id
    have htables : tables (s.commit t) = (s.own t).foldl Write.apply (tables s) := by
      unfold tables replay
      rw [Server.log_commit, List.flatten_append, List.foldl_append]
      simp
    rw [htables]
    exact hplan.holds (h.effects t) h.holds id
  whole ws hws := by
    rcases List.mem_append.mp hws with hws | hws
    · exact h.whole ws hws
    · rw [List.mem_singleton.mp hws]
      exact ⟨w, hplan.versionOf (h.effects t)⟩
  effects u := by
    rw [Server.own_commit]
    by_cases hu : u = t
    · subst hu
      rw [Function.update_self, Server.own_discard_self]
      exact .nil
    · rw [Function.update_of_ne hu, Server.own_discard_of_ne hu]
      -- What the others rely on stays, since they write other instances.
      refine effects_mono (h.effects u) ?_
      intro c hc id hid
      obtain ⟨w', rest, hplan'⟩ := h.planned u (List.ne_nil_of_mem hc)
      rw [hplan'.about (List.mem_append_left _ hc) hid, Server.log_commit,
        hplan.current_concat (h.effects t), if_neg]
      rw [← List.append_nil (written t)] at hplan
      exact h.ids_ne (Ne.symm hu) (by simpa using hplan.ne_nil) (List.ne_nil_of_mem hc) hplan hplan'
  planned u hne := by
    by_cases hu : u = t
    · subst hu
      rw [Function.update_self] at hne
      exact absurd rfl hne
    · rw [Function.update_of_ne hu] at hne ⊢
      exact h.planned u hne
  closed u hu := (h.discard (t := t) .closed).closed u hu

theorem setStatus (h : Consistent cols s written) (hwritten : written t = []) (status : Status) :
    Consistent cols (s.setStatus t status) written where
  separate := h.separate
  holds := h.holds
  whole := h.whole
  effects := h.effects
  planned := h.planned
  closed u hu := by
    by_cases hut : u = t
    · subst hut
      have heffects := h.effects u
      rw [hwritten] at heffects
      exact List.forall₂_nil_left_iff.mp heffects
    · have hstatus : (s.setStatus t status).status u = s.status u := Function.update_of_ne hut ..
      exact h.closed u (by rwa [hstatus] at hu)

end Consistent

end Wfe.Postgres
