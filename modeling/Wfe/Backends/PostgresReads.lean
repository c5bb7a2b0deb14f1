import Wfe.Backends.PostgresCallers

/-!
# What Postgres holds and what is read from it

In every run of any number of callers, the tables hold of every instance what the last transaction
on it has written, whatever fails in between. A caller that reads an instance gets its row from one
state of the tables and its pointers from the same or a later one.

## Main definitions

* `Inv`: what holds of every run
* `Reading`: what a caller has read, and when

## Main results

* `tables_hold`: **the tables hold the last version of each instance, whole**
* `getWorkflowInstance_reads`: **a caller reads the row of one version and the pointers of the same
  or a later one**
-/

namespace Wfe.Postgres

open Program
open Sqlite (withIdAndName)
open Subscriptions (Columns)
open Transactions

/-! ## Runs -/

/-- What a caller has found out and done. -/
def progress (cols : Columns) (P : Pool (store cols)) (t : ℕ) : Progress :=
  P.ghost (monitor cols) {} t

/-- What the callers have written in their transactions. -/
def written (cols : Columns) (P : Pool (store cols)) (t : ℕ) : List Statement :=
  (progress cols P t).written

/-- What holds of every run. -/
structure Inv (cols : Columns) (P : Pool (store cols)) : Prop where
  conforms : P.Conforms (monitor cols) {} (Returned cols)
  consistent : Consistent cols P.shared (written cols P)
  logged : ∀ t, ∀ cs ∈ (progress cols P t).committed,
    ∃ log, ∃ ws ∈ P.shared.log, List.Forall₂ (Effect log) cs ws

section Runs

variable {cols : Columns} {P P' : Pool (store cols)} {t u : ℕ} {s : Server Write} {c : Statement}
  {r : Except String c.Answer}

theorem Returned.written {g : Progress} {a : Outcome} (h : Returned cols g a) : g.written = [] := by
  cases a with
  | idle => exact h
  | created uuid w r => cases r with
    | ok => exact h.1
    | error => exact h
  | persisted w r => cases r with
    | ok => exact h.1
    | error => exact h
  | got id r => cases r with
    | ok => exact h.1
    | error => exact h

theorem written_proceed (p : Program Statements Outcome) :
    written cols (P.proceed t ⟨c, r⟩ p s) = Function.update (written cols P) t
      ((monitor cols).next (progress cols P t) c r).written := by
  ext1 u
  by_cases hu : u = t
  · subst hu
    rw [Function.update_self, written, progress, Pool.ghost_proceed_self]
    rfl
  · rw [Function.update_of_ne hu, written, progress, Pool.ghost_proceed_of_ne _ _ _ hu]
    rfl

theorem written_spawn (call : Call) :
    written cols (P.spawn t call) = Function.update (written cols P) t [] := by
  ext1 u
  by_cases hu : u = t
  · subst hu
    rw [Function.update_self, written, progress, Pool.ghost_spawn_self]
  · rw [Function.update_of_ne hu, written, progress, Pool.ghost_spawn_of_ne _ hu]
    rfl

/-- Before a transaction has written anything, it sees what has been committed. -/
theorem Consistent.tablesOf_eq {s : Server Write} {written : ℕ → List Statement}
    (h : Consistent cols s written) (hwritten : written t = []) : tablesOf s t = tables s := by
  have heffects := h.effects t
  rw [hwritten] at heffects
  unfold tablesOf Server.seen
  rw [List.forall₂_nil_left_iff.mp heffects, List.append_nil]
  rfl

/-- **What a statement finds**, it may rely on. -/
theorem Consistent.effect {s : Server Write} {written : ℕ → List Statement}
    (h : Consistent cols s written) {w : WorkflowInstance} {rest : List Statement} {x : Write}
    (hplan : Plan cols w (written t ++ c :: rest)) (hx : Finds (tablesOf s t) c x) :
    Effect s.log c x := by
  cases hx with
  | insertWorkflow row hnil =>
    rw [h.tablesOf_eq (hplan.header_first (.inl rfl))] at hnil
    have hold := h.holds row.id
    apply Effect.insertWorkflow
    cases hcurrent : current s.log row.id with
    | none => rfl
    | some v =>
      rw [hcurrent] at hold
      cases hold.1.symm.trans hnil
  | updateWorkflow row hne =>
    rw [h.tablesOf_eq (hplan.header_first (.inr rfl))] at hne
    have hold := h.holds row.id
    apply Effect.updateWorkflow
    cases hcurrent : current s.log row.id with
    | none =>
      rw [hcurrent] at hold
      exact absurd hold.1 hne
    | some v => rfl
  | deletePointers id =>
    -- The update of the row has left the pointers as they were committed.
    have heffects := h.effects t
    rw [hplan.delete_second] at heffects
    obtain ⟨x, ws, hx, hws, hown⟩ := List.forall₂_cons_left_iff.mp heffects
    rw [List.forall₂_nil_left_iff.mp hws] at hown
    cases hx
    have hpointers : pointersOf (tablesOf s t) id = pointersOf (tables s) id := by
      unfold tablesOf Server.seen replay
      rw [hown, List.foldl_append]
      rfl
    refine .deletePointers id _ fun v hv r hr => ?_
    have hold := h.holds id
    rw [hv] at hold
    rw [hpointers, hold.2]
    exact List.mem_map_of_mem hr
  | insertPointer row => exact .insertPointer row
  | insertSubscription row => exact .insertSubscription row

/-- The log grows. -/
theorem log_prefix_of_answer {s s' : Server Write} {o : Oracle}
    (h : answer s t o c = some (r, s')) : s.log <+: s'.log := by
  have hself : s.log <+: s.log := List.prefix_rfl
  by_cases hc : c.isWrite = true
  · rcases answer_write hc h with
      ⟨a, x, -, hwrote⟩ | ⟨e, -, ⟨rfl, -⟩ | ⟨status, rfl⟩⟩ | ⟨row, -, rfl⟩
    · rw [hwrote.after]
      exact hself
    all_goals exact hself
  · cases c with
    | begin => rcases answer_begin h with rfl | ⟨status, rfl⟩ | rfl <;> exact hself
    | commit =>
      rcases answer_commit h with ⟨-, rfl⟩ | ⟨e, -, rfl | ⟨status, rfl⟩⟩
      · exact List.prefix_append ..
      · exact List.prefix_append ..
      · exact hself
    | rollback =>
      obtain rfl := answer_rollback h
      exact hself
    | selectWorkflow id =>
      obtain rfl := (answer_selectWorkflow h).1
      exact hself
    | selectPointers id =>
      obtain rfl := (answer_selectPointers h).1
      exact hself
    | insertWorkflow | updateWorkflow | deletePointers | insertPointer | insertSubscription =>
      exact absurd rfl hc

/-- **A statement** keeps the tables consistent. -/
theorem Consistent.answer {s s' : Server Write} {written : ℕ → List Statement} {o : Oracle}
    {g : Progress} (h : Consistent cols s written) (hg : g.written = written t)
    (haccept : (monitor cols).accept g c) (hs : answer s t o c = some (r, s'))
    (hexisting : ∀ row, (⟨c, r⟩ : Exchange Statements) ≠ ⟨.updateWorkflow row, .ok 0⟩) :
    Consistent cols s' (Function.update written t ((monitor cols).next g c r).written) := by
  have hsame (hwritten : written t = []) : Function.update written t [] = written := by
    rw [← hwritten, Function.update_eq_self]
  have hnil (hwritten : written t = []) (hg : g.written = written t) :
      Function.update written t g.written = written := by
    rw [hg, Function.update_eq_self]
  by_cases hc : c.isWrite = true
  · have hplan : ∃ w rest, Plan cols w (written t ++ c :: rest) := by
      rw [← hg]
      cases c <;> first | exact haccept | cases hc
    have hok (a : c.Answer) : ((monitor cols).next g c (.ok a)).written = written t ++ [c] := by
      rw [← hg]
      cases c <;> first | rfl | cases hc
    have herror (e : String) : ((monitor cols).next g c (.error e)).written = [] := by
      cases c <;> first | rfl | cases hc
    rcases answer_write hc hs with ⟨a, x, rfl, hwrote⟩ | ⟨e, rfl, hfailed⟩ | ⟨row, heq, -⟩
    · obtain ⟨w, rest, hplan⟩ := hplan
      rw [hok, hwrote.after]
      exact h.write hwrote.opened hwrote.free (h.effect hplan hwrote.finds) hplan
    · rw [herror]
      rcases hfailed with ⟨rfl, hclosed⟩ | ⟨status, rfl⟩
      · -- There was no transaction, so nothing had been written in one.
        have heffects := h.effects t
        rw [h.closed t hclosed] at heffects
        rw [hsame (List.forall₂_nil_right_iff.mp heffects)]
        exact h
      · exact h.discard status
    · exact absurd heq (hexisting row)
  · cases c with
    | begin =>
      have hwritten : written t = [] := hg.symm.trans haccept
      have hnext : ((monitor cols).next g .begin r).written = [] := haccept
      rw [hnext]
      rcases answer_begin hs with rfl | ⟨status, rfl⟩ | rfl
      · rw [hsame hwritten]
        exact h
      · rw [hsame hwritten]
        exact h.setStatus hwritten status
      · exact h.discard _
    | commit =>
      obtain ⟨w, hplan⟩ := haccept
      rw [hg] at hplan
      rcases answer_commit hs with ⟨rfl, rfl⟩ | ⟨e, rfl, rfl | ⟨status, rfl⟩⟩
      · exact h.commit hplan
      · exact h.commit hplan
      · exact h.discard status
    | rollback =>
      have hnext : ((monitor cols).next g .rollback r).written = [] := haccept
      rw [hnext, answer_rollback hs]
      exact h.discard _
    | selectWorkflow id =>
      have hnext : ((monitor cols).next g (.selectWorkflow id) r).written = g.written := by
        cases r <;> rfl
      rw [hnext, hg, Function.update_eq_self, (answer_selectWorkflow hs).1]
      exact h
    | selectPointers id =>
      have hnext : ((monitor cols).next g (.selectPointers id) r).written = g.written := by
        cases r <;> rfl
      rw [hnext, hg, Function.update_eq_self, (answer_selectPointers hs).1]
      exact h
    | insertWorkflow | updateWorkflow | deletePointers | insertPointer | insertSubscription =>
      exact absurd rfl hc

theorem Inv.start : Inv cols (Pool.start (store cols) Server.empty) where
  conforms := Pool.conforms_start _ rfl
  consistent := {
    separate := .empty
    holds := fun _ => ⟨rfl, rfl⟩
    whole := by
      rintro ws ⟨⟩
    effects := fun _ => .nil
    planned := fun _ hne => absurd rfl hne
    closed := fun _ _ => rfl }
  logged := by
    rintro t cs ⟨⟩

@[simp] theorem progress_proceed_self (p : Program Statements Outcome) :
    progress cols (P.proceed t ⟨c, r⟩ p s) t = (monitor cols).next (progress cols P t) c r :=
  Pool.ghost_proceed_self ..

theorem progress_proceed_of_ne (p : Program Statements Outcome) (hu : u ≠ t) :
    progress cols (P.proceed t ⟨c, r⟩ p s) u = progress cols P u :=
  Pool.ghost_proceed_of_ne _ _ _ hu

/-- Only a commit commits anything. -/
theorem next_committed (cols : Columns) (g : Progress) :
    ((monitor cols).next g c r).committed = g.committed ∨
      (∃ a, (⟨c, r⟩ : Exchange Statements) = ⟨.commit, .ok a⟩) ∧
        ((monitor cols).next g c r).committed = some g.written := by
  cases c with
  | commit => cases r with
    | ok a => exact .inr ⟨⟨a, rfl⟩, rfl⟩
    | error e => exact .inl rfl
  | begin | rollback => exact .inl rfl
  | selectWorkflow | selectPointers | insertWorkflow | updateWorkflow | deletePointers
  | insertPointer | insertSubscription => cases r <;> exact .inl rfl

/-- What has been committed is in the log. -/
theorem Inv.logged_proceed (h : Inv cols P) (p : Program Statements Outcome) {o : Oracle}
    (hs : answer P.shared t o c = some (r, s)) :
    ∀ u, ∀ cs ∈ (progress cols (P.proceed t ⟨c, r⟩ p s) u).committed,
      ∃ log, ∃ ws ∈ s.log, List.Forall₂ (Effect log) cs ws := by
  have hlog := log_prefix_of_answer hs
  have hold (u : ℕ) : ∀ cs ∈ (progress cols P u).committed,
      ∃ log, ∃ ws ∈ s.log, List.Forall₂ (Effect log) cs ws := by
    intro cs hcs
    obtain ⟨log, ws, hws, heffects⟩ := h.logged u cs hcs
    exact ⟨log, ws, hlog.subset hws, heffects⟩
  intro u
  by_cases hu : u = t
  · subst hu
    rw [progress_proceed_self]
    rcases next_committed cols (progress cols P u) with hsame | ⟨⟨a, heq⟩, hnew⟩
    · rw [hsame]
      exact hold u
    · obtain rfl : c = .commit := congrArg Sigma.fst heq
      cases heq
      rintro cs hcs
      rw [hnew] at hcs
      cases hcs
      rcases answer_commit hs with ⟨-, rfl⟩ | ⟨e, hr, -⟩
      · exact ⟨P.shared.log, _, by simp, h.consistent.effects u⟩
      · cases hr
  · rw [progress_proceed_of_ne p hu]
    exact hold u

/-- **Every run**: the tables stay consistent, whatever fails. -/
theorem inv_run (hrun : Pool.Run (Existing cols) P P') (h : Inv cols P) : Inv cols P' := by
  refine hrun.invariant ?_ h
  intro P P' h hstep
  cases hstep with
  | spawn t op a ha =>
    have hwritten : written cols P t = [] := (h.conforms.returned ha).written
    refine ⟨h.conforms.spawn (meets_program op), ?_, ?_⟩
    · rw [written_spawn, ← hwritten, Function.update_eq_self]
      exact h.consistent
    · intro u
      by_cases hu : u = t
      · subst hu
        rw [progress, Pool.ghost_spawn_self]
        rintro cs ⟨⟩
      · rw [progress, Pool.ghost_spawn_of_ne _ hu]
        exact h.logged u
  | call t c k o r s hk hs hexisting =>
    refine ⟨h.conforms.proceed hk trivial s, ?_, h.logged_proceed (k r) hs⟩
    rw [written_proceed]
    refine h.consistent.answer rfl (h.conforms.accept hk) hs ?_
    rintro row heq
    unfold Existing at hexisting
    rw [heq] at hexisting
    cases hexisting

/-! ## What a caller reads -/

/-- What a caller has read of an instance: its row in one state of the tables, and its pointers in
the same or a later one, all of them since the log was `log`. -/
structure Reading (log : List (List Write)) (s : Server Write) (g : Progress) : Prop where
  since : log <+: s.log
  header : ∀ id row, g.header = some (id, row) → ∃ l v, log <+: l ∧ l <+: s.log ∧
    current l id = some v ∧ v.header = row ∧ ∀ rows, g.pointers = some rows →
      ∃ l' v', l <+: l' ∧ l' <+: s.log ∧ current l' id = some v' ∧ rows.Perm v'.pointers

section Reads

variable {log : List (List Write)} {s s' : Server Write} {g : Progress} {o : Oracle}

theorem Reading.mono {g' : Progress} (h : Reading log s g) (hlog : s.log <+: s'.log)
    (hheader : g'.header = g.header) (hpointers : g'.pointers = g.pointers) :
    Reading log s' g' where
  since := h.since.trans hlog
  header id row hrow := by
    rw [hheader] at hrow
    obtain ⟨l, v, hl, hl', hv, hv', hrows⟩ := h.header id row hrow
    refine ⟨l, v, hl, hl'.trans hlog, hv, hv', ?_⟩
    intro rows hr
    rw [hpointers] at hr
    obtain ⟨l₂, v₂, h₁, h₂, h₃, h₄⟩ := hrows rows hr
    exact ⟨l₂, v₂, h₁, h₂.trans hlog, h₃, h₄⟩

/-- A caller makes its next call. -/
theorem Reading.answer (h : Reading log s g) (hholds : Holds s)
    (haccept : (monitor cols).accept g c) (hs : Postgres.answer s t o c = some (r, s')) :
    Reading log s' ((monitor cols).next g c r) := by
  have hlog := log_prefix_of_answer hs
  cases c with
  | selectWorkflow id =>
    obtain ⟨rfl, hrow⟩ := answer_selectWorkflow hs
    cases r with
    | error e => exact h
    | ok row =>
      refine ⟨h.since, ?_⟩
      intro id' row' hheader
      obtain ⟨row₀, rfl, heq⟩ := Option.map_eq_some_iff.mp hheader
      cases heq
      have hhead := hrow _ rfl
      have hold := hholds id
      cases hcurrent : current s'.log id with
      | none =>
        rw [hcurrent] at hold
        rw [hold.1] at hhead
        cases hhead
      | some v =>
        rw [hcurrent] at hold
        rw [hold.1] at hhead
        cases hhead
        refine ⟨s'.log, v, h.since, List.prefix_rfl, hcurrent, rfl, ?_⟩
        intro rows hrows
        cases haccept.2.symm.trans hrows
  | selectPointers id =>
    obtain ⟨rfl, hrows⟩ := answer_selectPointers hs
    cases r with
    | error e => exact h
    | ok rows =>
      obtain ⟨-, row, hrow⟩ := haccept
      refine ⟨h.since, ?_⟩
      intro id' row' hheader
      cases hrow.symm.trans hheader
      obtain ⟨l, v, hl, hl', hv, hv', -⟩ := h.header id row hrow
      refine ⟨l, v, hl, hl', hv, hv', ?_⟩
      rintro _ ⟨⟩
      -- The instance is still there, and the tables hold its current version.
      obtain ⟨v', hv'⟩ := Option.isSome_iff_exists.mp
        (isSome_current_append hl' (Option.isSome_iff_exists.mpr ⟨v, hv⟩))
      have hold := hholds id
      rw [hv'] at hold
      refine ⟨s'.log, v', hl', List.prefix_rfl, hv', ?_⟩
      rw [← hold.2]
      exact hrows rows rfl
  | begin | rollback => exact h.mono hlog rfl rfl
  | commit | insertWorkflow | updateWorkflow | deletePointers | insertPointer
  | insertSubscription => cases r <;> exact h.mono hlog rfl rfl

end Reads

/-- A caller reads nothing that is older than its call. -/
theorem reading_run {log : List (List Write)} (hrun : Pool.Run (Existing cols) P P')
    (h : Inv cols P) (hreading : Reading log P.shared (progress cols P t)) :
    Reading log P'.shared (progress cols P' t) := by
  refine (hrun.invariant (N := fun P => Inv cols P ∧ Reading log P.shared (progress cols P t)) ?_
    ⟨h, hreading⟩).2
  rintro P P' ⟨h, hreading⟩ hstep
  refine ⟨inv_run (.single hstep) h, ?_⟩
  cases hstep with
  | spawn u op a ha =>
    by_cases hu : t = u
    · subst hu
      rw [progress, Pool.ghost_spawn_self]
      refine ⟨hreading.since, ?_⟩
      rintro id row ⟨⟩
    · rw [progress, Pool.ghost_spawn_of_ne _ hu]
      exact hreading
  | call u c k o r s hk hs hexisting =>
    by_cases hu : t = u
    · subst hu
      rw [progress_proceed_self]
      exact hreading.answer h.consistent.holds (h.conforms.accept hk) hs
    · rw [progress_proceed_of_ne _ hu]
      exact hreading.mono (log_prefix_of_answer hs) rfl rfl

/-- What a caller has committed is in the log. -/
theorem Inv.exists_of_committed (h : Inv cols P) {w : WorkflowInstance}
    (hcommitted : Committed cols w (progress cols P t)) :
    ∃ ws ∈ P.shared.log, versionOf ws = some (version cols w) := by
  obtain ⟨-, cs, hcs, hplan⟩ := hcommitted
  obtain ⟨log, ws, hws, heffects⟩ := h.logged t cs hcs
  exact ⟨ws, hws, hplan.versionOf heffects⟩

/-- The versions in the log are those of instances. -/
theorem Inv.exists_version (h : Inv cols P) {l : List (List Write)} (hl : l <+: P.shared.log)
    {id : String} {v : Version} (hv : current l id = some v) :
    ∃ w : WorkflowInstance, w.id = id ∧ v = version cols w := by
  obtain ⟨hid, ws, hws, hversion⟩ := exists_of_current hv
  obtain ⟨w, hw⟩ := h.consistent.whole ws (hl.subset hws)
  cases hversion.symm.trans hw
  exact ⟨w, hid, rfl⟩

end Runs

/-- **The tables hold the last version of each instance, whole.** In every run of any number of
callers, with statements that fail and connections that are lost before or after the server has done
what it was asked to, and with callers that persist only what is there: the tables hold of every
instance the rows of the version committed last, each transaction has left the rows of one instance,
and what a caller has been told is stored has been committed. -/
theorem tables_hold {cols : Columns} {P : Pool (store cols)}
    (hrun : Pool.Run (Existing cols) (Pool.start (store cols) Server.empty) P) :
    (∀ id, HoldsOf (tables P.shared) id (current P.shared.log id)) ∧
    (∀ ws ∈ P.shared.log, ∃ w, versionOf ws = some (version cols w)) ∧
    (∀ t w, (P.threads t).rest = .ret (.persisted w (.ok ())) →
      ∃ ws ∈ P.shared.log, versionOf ws = some (version cols w)) ∧
    ∀ t uuid w id, (P.threads t).rest = .ret (.created uuid w (.ok id)) →
      ∃ ws ∈ P.shared.log, versionOf ws = some (version cols (withIdAndName uuid w)) := by
  have h := inv_run hrun Inv.start
  refine ⟨h.consistent.holds, h.consistent.whole, ?_, ?_⟩
  · intro t w hret
    exact h.exists_of_committed (h.conforms.returned hret)
  · intro t uuid w id hret
    exact h.exists_of_committed (h.conforms.returned hret)

/-- **What a caller reads.** An instance is read as the row of one version and, in any order, the
pointers of the same or a later version, neither older than what had been committed when the call
began; it is one version if nothing of the instance is committed meanwhile. -/
theorem getWorkflowInstance_reads {cols : Columns} (hcols : Documents cols)
    {P P' : Pool (store cols)} {t : ℕ} {id : String} {inst : WorkflowInstance}
    (hstart : Pool.Run (Existing cols) (Pool.start (store cols) Server.empty) P)
    (hidle : (P.threads t).rest.finished = true)
    (hrun : Pool.Run (Existing cols) (P.spawn t (.get id)) P')
    (hret : (P'.threads t).rest = .ret (.got id (.ok inst))) :
    ∃ l l' w w' ps, P.shared.log <+: l ∧ l <+: l' ∧ l' <+: P'.shared.log ∧
      current l id = some (version cols w) ∧ current l' id = some (version cols w') ∧
      inst = { stored cols w with executionPointers := ps } ∧
      ps.Perm (stored cols w').executionPointers ∧
      ((∀ ws ∈ P'.shared.log.drop P.shared.log.length, versionFor id ws = none) → w = w') := by
  obtain ⟨a, ha⟩ := exists_ret_of_finished hidle
  have hspawn : Pool.Run (Existing cols) (Pool.start (store cols) Server.empty)
      (P.spawn t (.get id)) := hstart.tail (.spawn P t _ a ha)
  have h := inv_run hspawn Inv.start
  have h' := inv_run hrun h
  have hreading : Reading P.shared.log (P.spawn t (.get id)).shared
      (progress cols (P.spawn t (.get id)) t) := by
    rw [progress, Pool.ghost_spawn_self]
    refine ⟨List.prefix_rfl, ?_⟩
    rintro id row ⟨⟩
  obtain ⟨-, row, rows, ps, hrow, hrows, hps, hinst⟩ := h'.conforms.returned hret
  obtain ⟨l, v, hl, hl', hv, rfl, hpointers⟩ := (reading_run hrun h hreading).header id row hrow
  obtain ⟨l', v', hll', hl'', hv', hperm⟩ := hpointers rows hrows
  obtain ⟨w, rfl, rfl⟩ := h'.exists_version hl' hv
  obtain ⟨w', hid, rfl⟩ := h'.exists_version hl'' hv'
  have hinst' : inst = { stored cols w with executionPointers := ps } := by
    have heq := hinst.symm.trans (rowToWorkflow_workflowRow w ps)
    exact Except.ok.inj heq
  have hread (u : WorkflowInstance) (hperm : rows.Perm (version cols u).pointers) :
      ps.Perm (stored cols u).executionPointers := by
    obtain ⟨ps', hps', hperm'⟩ := mapM_rowToPointer hcols hperm
    cases hps.symm.trans hps'
    exact hperm'
  by_cases hquiet : ∀ ws ∈ P'.shared.log.drop P.shared.log.length, versionFor w.id ws = none
  · -- Nothing has been committed of it, so both versions are the one that was there.
    have hsame (l : List (List Write)) (hl : P.shared.log <+: l) (hl' : l <+: P'.shared.log) :
        current l w.id = current P.shared.log w.id := by
      obtain ⟨rest, rfl⟩ := hl
      obtain ⟨rest', hlog⟩ := hl'
      apply current_append
      intro ws hws
      apply hquiet
      rw [← hlog, List.append_assoc, List.drop_left]
      exact List.mem_append_left _ hws
    have heq : version cols w = version cols w' := by
      have h₁ := hv.symm.trans (hsame l hl hl')
      have h₂ := hv'.symm.trans (hsame l' (hl.trans hll') hl'')
      exact Option.some_inj.mp (h₁.trans h₂.symm)
    rw [← heq] at hv' hperm
    exact ⟨l, l', w, w, ps, hl, hll', hl'', hv, hv', hinst', hread w hperm, fun _ => rfl⟩
  · exact ⟨l, l', w, w', ps, hl, hll', hl'', hv, hv', hinst', hread w' hperm,
      fun h => absurd h hquiet⟩

/-! ## Two versions in one -/

/-- A server that keeps times and documents as they are. -/
def plain : Columns := ⟨id, fun t u => t ≤ u, id, "duplicate key"⟩

theorem plain_documents : Documents plain where
  strings _ := rfl
  object m := ⟨m, rfl⟩

/-- An instance with one pointer. -/
def first : WorkflowInstance where
  id := "w"
  name := "w"
  rootWorkflowId := none
  workflowDefinitionId := "d"
  version := 1
  description := none
  reference := none
  executionPointers := [.new "p" 0]
  nextExecution := some 0
  status := .runnable
  data := .object []
  createTime := 0
  completeTime := none

/-- The same when it is complete, with one pointer more. -/
def second : WorkflowInstance :=
  { first with status := .complete, executionPointers := [.new "p" 0, .new "q" 1] }

/-- A caller creates the first version. -/
def creating : List (Pool.Move (store plain)) :=
  .spawn 0 (.create "u" first) :: List.replicate 4 (.call 0 {})

/-- Another one replaces it while a third is reading. -/
def replacing : List (Pool.Move (store plain)) :=
  .call 1 {} :: .spawn 0 (.persist second) :: List.replicate 6 (.call 0 {}) ++ [.call 1 {}]

/-- A call of `persist_workflow` has returned. -/
def isPersisted : Program Statements Outcome → Bool
  | .ret (.persisted w (.ok _)) => w = second
  | _ => false

/-- An instance is created and replaced: its rows are those of the second version. -/
theorem tables_hold_replaced : ∃ P : Pool (store plain),
    isPersisted (P.threads 0).rest = true ∧
    (∀ id, HoldsOf (tables P.shared) id (current P.shared.log id)) ∧
    (∀ ws ∈ P.shared.log, ∃ w, versionOf ws = some (version plain w)) ∧
    (∀ t w, (P.threads t).rest = .ret (.persisted w (.ok ())) →
      ∃ ws ∈ P.shared.log, versionOf ws = some (version plain w)) ∧
    ∀ t uuid w id, (P.threads t).rest = .ret (.created uuid w (.ok id)) →
      ∃ ws ∈ P.shared.log, versionOf ws = some (version plain (withIdAndName uuid w)) := by
  have hpersisted : (Pool.schedule (fun _ _ x => existing x)
      (creating ++ .spawn 1 (.get "w") :: replacing) (Pool.start (store plain) Server.empty)).any
        (fun P => isPersisted (P.threads 0).rest) = true := by rfl
  obtain ⟨P, hP, hpersisted⟩ := (Option.any_eq_true ..).mp hpersisted
  have hrun : Pool.Run (Existing plain) (Pool.start (store plain) Server.empty) P :=
    Pool.run_of_schedule (Ω := fun _ => true) (fun _ _ _ _ _ _ _ _ _ h => h)
      (Pool.idleFrom_start Server.empty) (n := 2) (by rfl) (by rfl) hP
  exact ⟨P, hpersisted, tables_hold hrun⟩

/-- The row of the first version with the pointers of the second. -/
def isMixed : Program Statements Outcome → Bool
  | .ret (.got id (.ok inst)) =>
    id = "w" ∧ inst.status = .runnable ∧ inst.executionPointers.length = 2
  | _ => false

theorem exists_of_isMixed {p : Program Statements Outcome} (h : isMixed p = true) :
    ∃ inst, p = .ret (.got "w" (.ok inst)) ∧ inst.status = .runnable ∧
      inst.executionPointers.length = 2 := by
  unfold isMixed at h
  split at h
  · next id inst =>
    obtain ⟨rfl, hstatus, hlength⟩ := of_decide_eq_true h
    exact ⟨inst, rfl, hstatus, hlength⟩
  · cases h

/-- An instance is created, and replaced while it is read: what is read is runnable as it was, with
the pointers of the complete one. -/
theorem getWorkflowInstance_reads_mixed : ∃ (P P' : Pool (store plain)) (inst : WorkflowInstance),
    (P'.threads 1).rest = .ret (.got "w" (.ok inst)) ∧
    inst.status = .runnable ∧ inst.executionPointers.length = 2 ∧
    ∃ l l' w w' ps, P.shared.log <+: l ∧ l <+: l' ∧ l' <+: P'.shared.log ∧
      current l "w" = some (version plain w) ∧ current l' "w" = some (version plain w') ∧
      inst = { stored plain w with executionPointers := ps } ∧
      ps.Perm (stored plain w').executionPointers ∧
      ((∀ ws ∈ P'.shared.log.drop P.shared.log.length, versionFor "w" ws = none) → w = w') := by
  have hmixed : (((Pool.schedule (fun _ _ x => existing x) creating
      (Pool.start (store plain) Server.empty)).filter fun P => (P.threads 1).rest.finished).bind
        fun P => Pool.schedule (fun _ _ x => existing x) replacing (P.spawn 1 (.get "w"))).any
          (fun P => isMixed (P.threads 1).rest) = true := by rfl
  obtain ⟨P', hP', hmixed⟩ := (Option.any_eq_true ..).mp hmixed
  obtain ⟨P, hP, hreplacing⟩ := Option.bind_eq_some_iff.mp hP'
  obtain ⟨hcreating, hidle⟩ := Option.filter_eq_some_iff.mp hP
  obtain ⟨inst, hret, hstatus, hlength⟩ := exists_of_isMixed hmixed
  have hstart : Pool.Run (Existing plain) (Pool.start (store plain) Server.empty) P :=
    Pool.run_of_schedule (Ω := fun _ => true) (fun _ _ _ _ _ _ _ _ _ h => h)
      (Pool.idleFrom_start Server.empty) (n := 2) (by rfl) (by rfl) hcreating
  have hspawned : Pool.IdleFrom 2 (P.spawn 1 (.get "w")) := by
    intro u hu
    rw [Pool.spawn_threads_of_ne _ (by omega)]
    exact Pool.IdleFrom.schedule (Pool.idleFrom_start Server.empty) (by rfl) hcreating u hu
  have hrun : Pool.Run (Existing plain) (P.spawn 1 (.get "w")) P' :=
    Pool.run_of_schedule (Ω := fun _ => true) (fun _ _ _ _ _ _ _ _ _ h => h) hspawned (n := 2)
      (by rfl) (by rfl) hreplacing
  exact ⟨P, P', inst, hret, hstatus, hlength,
    getWorkflowInstance_reads plain_documents hstart hidle hrun hret⟩

end Wfe.Postgres
