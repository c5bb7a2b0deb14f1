import Wfe.Executor.Retries
import Wfe.Host.AbortedPasses
import Wfe.Host.Completion
import Wfe.Host.Stories
import Wfe.Library.Versions

/-!
# The retry budget

A step that is retried `m` times has `m + 1` attempts, and its pointer counts the failures. The
count is written with the instance, at the end of a pass: if the pass is aborted after the failure,
if its write fails, or if another operation writes a value that it has loaded before, then the
failure is forgotten and the step has another attempt. These are the only ways to break the budget.

## Main definitions

* `Visit`: a turn with the time its pass has read
* `Commits`, `Loses`: operations that write an instance, and passes that do not
* `KeepsBudget`: what the budget promises of an operation

## Main results

* `Commits.becomes`: what an operation does to a pointer
* `Loses.of_execute`, `Commits.of_evolves`: the operations of the hosts
* `retryBudget_iff`: the budget is kept exactly if no failure is forgotten
* `failures_uncounted`: a step that fails again and again
-/

namespace Wfe

open Program Provider Versions

/-- A turn, and the time at which its pass found the pointer runnable. -/
structure Visit where
  now : DateTime
  turn : Turn

/-- In this visit the body of the pointer fails. -/
def Visit.fails (x : PointerKey) (v : Visit) : Bool := v.turn.fails x

section Operations

variable (definition : WorkflowDefinition) (w : WorkflowInstance)

/-- An operation that has loaded `w` and writes another value. -/
inductive Commits : List Visit → WorkflowInstance → Prop
  | pass {resolve : StepResolver} {host : Option HostContext} {turns : List Turn} {now t : DateTime}
      {st : PassState} (hhost : HostContext.Starts host w.id) (hr : w.status = .runnable)
      (hturns : Turns definition resolve host w.id { workflow := w } turns st)
      (hall : turns.map Turn.index = runnableIndices w now) :
      Commits (turns.map (Visit.mk now)) (concluded t st.workflow)
  | other {c : Change} {w' : WorkflowInstance} (hdoes : Does definition w c w')
      (hc : c.turns = []) : Commits [] w'

/-- A pass over `w` that writes nothing. It has been aborted, its write has failed, or its host has
stopped. -/
inductive Loses : List Visit → Prop
  | pass {resolve : StepResolver} {host : Option HostContext} {turns : List Turn} {now : DateTime}
      {st : PassState} (hhost : HostContext.Starts host w.id) (hr : w.status = .runnable)
      (hturns : Turns definition resolve host w.id { workflow := w } turns st)
      (hsome : turns.map Turn.index <+: runnableIndices w now) :
      Loses (turns.map (Visit.mk now))

end Operations

section Operations

variable {definition : WorkflowDefinition} {resolve : StepResolver} {host : Option HostContext}
  {w w' : WorkflowInstance} {turns : List Turn} {st : PassState} {now : DateTime} {t : Turn}
  {c : Change} {visits : List Visit} {x : PointerKey} {m : Nat} {p p' : ExecutionPointer}

/-! ## The operations of the hosts -/

theorem Does.commits (h : Does definition w c w') :
    ∃ visits, Commits definition w visits w' ∧ visits.map Visit.turn = c.turns := by
  cases hc : c.turns with
  | nil => exact ⟨[], .other h hc, rfl⟩
  | cons t turns =>
    obtain ⟨hhost, hr, now, tm, st, hturns, hall, rfl⟩ | ⟨⟩ := h
    · refine ⟨_, .pass hhost hr hturns hall, ?_⟩
      rw [List.map_map, ← hc]
      exact List.map_id _
    all_goals cases hc

/-- What the hosts write, they commit. -/
theorem Commits.of_evolves (h : Evolves definition w w') :
    ∃ visits, Commits definition w visits w' := by
  obtain ⟨c, hdoes⟩ := evolves_iff_does.mp h
  obtain ⟨visits, hcommits, -⟩ := hdoes.commits
  exact ⟨visits, hcommits⟩

/-- A pass that is aborted is lost. -/
theorem Loses.of_execute (hhost : HostContext.Starts host w.id) (hr : w.status = .runnable)
    {tr : List (Exchange Provider)} {e : WfeError}
    (hpath : Path (execute w.id definition resolve host).run tr (.error e))
    (hloads : ∀ y ∈ tr, y.1.loads w y.2) (hraised : ∀ y ∈ tr, y.1.raised y.2 ≠ some e) :
    (∀ y ∈ tr, y.1.persists = none) ∧ ∃ visits, Loses definition w visits := by
  refine ⟨execute_persists hhost hpath hloads hraised, ?_⟩
  rcases execute_fails hhost hpath hloads with ⟨y, hy, he⟩ | ⟨now, done, i, rest, ran, st, hindices,
    hloop, -⟩
  · exact absurd he (hraised y hy)
  · have hdone : done <+: runnableIndices w now := hindices ▸ List.prefix_append _ _
    obtain ⟨turns, hturns, rfl, -⟩ := hloop.exists_turns fun i hi => by
      obtain ⟨p, hp, -⟩ := mem_runnableIndices (hdone.subset hi)
      exact (List.getElem?_eq_some_iff.mp hp).1
    exact ⟨_, .pass hhost hr hturns hdone⟩

/-! ## What the operations do to a pointer -/

theorem countP_visits (now : DateTime) (turns : List Turn) :
    (turns.map (Visit.mk now)).countP (·.fails x) = turns.countP (·.fails x) := by
  rw [List.countP_map]
  rfl

theorem ExecutionPointer.Woken.sleepUntil (h : p.Woken p') : p'.sleepUntil = p.sleepUntil := by
  cases h <;> rfl

theorem ExecutionPointer.Woken.becomes (h : p.Woken p') : Becomes m (some p) 0 (some p') := by
  cases h with
  | same => exact .kept rfl Iff.rfl fun _ => rfl
  | event data hwaits => exact .kept rfl Iff.rfl fun hfailed => by simp [hwaits] at hfailed

/-- **What an operation does to a pointer** at a step that is retried `m` times. -/
theorem Commits.becomes (h : Commits definition w visits w') (hm : 0 < m)
    (hretry : RetriesUpTo definition x.stepId m) :
    Becomes m (w.pointerAt x) (visits.countP (·.fails x)) (w'.pointerAt x) := by
  cases h with
  | pass hhost hr hturns hall =>
    obtain ⟨hnodup, hrunnable⟩ := hturns.runnable ⟨[], (List.append_nil _).trans hall⟩
    rw [pointerAt_concluded, countP_visits]
    exact hturns.becomes hm hretry hnodup fun t ht =>
      ⟨(hrunnable t ht).1, (isPointerRunnable_active (hrunnable t ht).2).2⟩
  | other hdoes hc =>
    obtain ⟨f, hf, hw'⟩ := hdoes.pointerAt (x := x) hc
    rw [hw', List.countP_nil]
    cases w.pointerAt x with
    | none => exact .absent
    | some p => exact (hf p).becomes

theorem pointerAt_of_isOf (hp : w.executionPointers[t.index]? = some t.pointer)
    (hof : t.isOf x = true) : w.pointerAt x = some t.pointer := by
  obtain ⟨hindex, hkey⟩ := of_decide_eq_true hof
  exact pointerAt_eq_some.mpr ⟨hindex ▸ hp, hkey⟩

/-- Only a pointer that waits for an event is run without a look at its sleep. -/
theorem sleepUntil_le (h : isPointerRunnable p now = true) (hwaits : p.status ≠ .waitingForEvent)
    {u : DateTime} (hu : p.sleepUntil = some u) : u ≤ now := by
  obtain ⟨-, h⟩ := Bool.and_eq_true_iff.mp h
  cases hs : p.status <;> simp_all

/-- A turn of a pointer at a step that is retried leaves it waiting for an event only if its sleep
was over. -/
theorem Commits.slept (h : Commits definition w visits w') (hm : 0 < m)
    (hretry : RetriesUpTo definition x.stepId m) (hp' : w'.pointerAt x = some p')
    (hwaits : p'.status = .waitingForEvent) :
    (∃ p, w.pointerAt x = some p ∧ p.status = .waitingForEvent ∧ p.sleepUntil = p'.sleepUntil) ∨
      ∃ v ∈ visits, v.turn.isOf x = true ∧ ∀ u, p'.sleepUntil = some u → u ≤ v.now := by
  cases h with
  | pass hhost hr hturns hall =>
    rename_i resolve host turns now tm st
    obtain ⟨hnodup, hrunnable⟩ := hturns.runnable ⟨[], (List.append_nil _).trans hall⟩
    rw [pointerAt_concluded] at hp'
    rcases hturns.pointerAt hm hretry hnodup fun t ht => (hrunnable t ht).1 with
      ⟨t, ht, hof, hbefore, p'', hafter, htally⟩ |
        ⟨-, hsame | ⟨-, q, hafter, -, hstatus⟩⟩
    · obtain rfl := Option.some_inj.mp (hp'.symm.trans hafter)
      have hsleep := htally.sleepUntil hwaits
      -- The pointer was waiting already, or the pass has found its sleep to be over.
      by_cases hwaited : t.pointer.status = .waitingForEvent
      · exact .inl ⟨_, hbefore, hwaited, hsleep.symm⟩
      · refine .inr ⟨⟨now, t⟩, List.mem_map_of_mem ht, hof, fun u hu => ?_⟩
        exact sleepUntil_le (hrunnable t ht).2 hwaited (hsleep ▸ hu)
    · exact .inl ⟨p', hsame ▸ hp', hwaits, rfl⟩
    · obtain rfl := Option.some_inj.mp (hp'.symm.trans hafter)
      simp [hstatus] at hwaits
  | other hdoes hc =>
    obtain ⟨f, hf, hw'⟩ := hdoes.pointerAt (x := x) hc
    obtain ⟨p, hp, rfl⟩ := Option.map_eq_some_iff.mp (hw' ▸ hp')
    exact .inl ⟨p, hp, (hf p).status ▸ hwaits, (hf p).sleepUntil.symm⟩

/-- A pointer comes to its visit as the operation has loaded it, and runnable. -/
theorem Commits.visit (h : Commits definition w visits w') {v : Visit} (hv : v ∈ visits)
    (hof : v.turn.isOf x = true) :
    w.pointerAt x = some v.turn.pointer ∧ isPointerRunnable v.turn.pointer v.now = true := by
  cases h with
  | pass hhost hr hturns hall =>
    obtain ⟨-, hrunnable⟩ := hturns.runnable ⟨[], (List.append_nil _).trans hall⟩
    obtain ⟨t, ht, rfl⟩ := List.mem_map.mp hv
    exact ⟨pointerAt_of_isOf (hrunnable t ht).1 hof, (hrunnable t ht).2⟩
  | other => cases hv

theorem Loses.visit (h : Loses definition w visits) {v : Visit} (hv : v ∈ visits)
    (hof : v.turn.isOf x = true) :
    w.pointerAt x = some v.turn.pointer ∧ isPointerRunnable v.turn.pointer v.now = true := by
  obtain ⟨hhost, hr, hturns, hsome⟩ := h
  obtain ⟨-, hrunnable⟩ := hturns.runnable hsome
  obtain ⟨t, ht, rfl⟩ := List.mem_map.mp hv
  exact ⟨pointerAt_of_isOf (hrunnable t ht).1 hof, (hrunnable t ht).2⟩

/-- A failure that suspends the workflow decides the pass, unless a later one terminates it. -/
theorem Commits.suspended (h : Commits definition w visits w') {earlier later : List Visit}
    {v : Visit} (hvisits : visits = earlier ++ v :: later)
    (hasks : v.turn.asks definition = some .suspended) :
    w'.status = .suspended ∨ w'.status = .terminated ∧
      ∃ v' ∈ later, v'.turn.asks definition = some .terminated := by
  cases h with
  | pass hhost hr hturns hall =>
    rename_i resolve host turns now tm st
    have hconducts : Conducts definition resolve host w turns (concluded tm st.workflow) :=
      ⟨hr, now, tm, st, hturns, hall, rfl⟩
    have hsplit : turns = earlier.map Visit.turn ++ v.turn :: later.map Visit.turn := by
      have hmap := congrArg (List.map Visit.turn) hvisits
      rw [List.map_map, List.map_append, List.map_cons] at hmap
      exact (List.map_id _).symm.trans hmap
    have hasked : asked definition turns = asked definition (earlier.map Visit.turn) ++
        .suspended :: asked definition (later.map Visit.turn) := by
      rw [hsplit, asked_append]
      simp [asked, hasks]
    -- The status written is the last one asked for.
    rw [hconducts.status, hasked, List.getLast?_append, List.getLast?_cons]
    cases hlast : (asked definition (later.map Visit.turn)).getLast? with
    | none => exact .inl rfl
    | some s =>
      have hmem := List.mem_of_getLast? hlast
      rcases eq_of_mem_asked hmem with rfl | rfl
      · exact .inl rfl
      · obtain ⟨t, ht, hterminates⟩ := mem_asked.mp hmem
        obtain ⟨v', hv', rfl⟩ := List.mem_map.mp ht
        exact .inr ⟨rfl, v', hv', hterminates⟩
  | other => simp at hvisits

/-- With no retries left, a failure suspends the workflow. -/
theorem asks_of_fails (hm : 0 < m) (hretry : RetriesUpTo definition x.stepId m)
    (hfails : t.fails x = true) (hcount : m ≤ t.pointer.retryCount) :
    t.asks definition = some .suspended := by
  obtain ⟨hof, hran⟩ := Bool.and_eq_true_iff.mp hfails
  obtain ⟨interval, hbehavior⟩ := hretry
  have hstep : t.pointer.stepId = x.stepId :=
    (of_decide_eq_true (of_decide_eq_true hof).2).2
  rw [← hstep] at hbehavior
  have hbehavior : errorBehaviorOf t.pointer definition = .retry interval m := hbehavior
  unfold Turn.asks
  split
  · simp only [askedStatus, hbehavior]
    exact if_pos ⟨hm, hcount⟩
  · next hnot =>
    cases hr : t.ran with
    | failed stepId e => exact absurd hr (hnot stepId e)
    | _ => simp [hr, Ran.isFailure] at hran

end Operations

/-! ## Runs -/

/-- What a retry budget of `m` promises of an operation, for the pointer `x`. -/
structure KeepsBudget (definition : WorkflowDefinition) (x : PointerKey) (m : Nat)
    (k : Work WorkflowInstance Visit) : Prop where
  /-- The pointer counts its failures, of which there are at most `m + 1`, and has failed for good
  exactly with the last one. -/
  budgeted : Budgeted m (k.after.events.countP (·.fails x)) (k.after.current.value.pointerAt x)
  /-- The last failure suspends the workflow, unless a later one terminates it. -/
  suspends : ∀ (w' : WorkflowInstance) (earlier later : List Visit) (v : Visit),
    k.written = some w' → k.events = earlier ++ v :: later → v.fails x = true →
    k.log.events.countP (·.fails x) = m →
    w'.status = .suspended ∨ w'.status = .terminated ∧
      ∃ v' ∈ later, v'.turn.asks definition = some .terminated
  /-- The pointer is not run before its sleep is over: a pass has found it to be over, this one or,
  when it waits for an event, one that has run it before. -/
  rested : ∀ v ∈ k.events, v.turn.isOf x = true → ∀ u, v.turn.pointer.sleepUntil = some u →
    u ≤ v.now ∨ v.turn.pointer.status = .waitingForEvent ∧
      ∃ v' ∈ k.log.events, v'.turn.isOf x = true ∧ u ≤ v'.now

section Runs

variable {definition : WorkflowDefinition} {w₀ : WorkflowInstance} {x : PointerKey} {m : Nat}
  {works : List (Work WorkflowInstance Visit)} {log : Log WorkflowInstance Visit}

theorem Started.budgeted (h : Started definition w₀) : Budgeted m 0 (w₀.pointerAt x) := by
  refine budgeted_zero fun q hq => ?_
  have hmem := List.mem_of_getElem? (pointerAt_eq_some.mp hq).1
  refine ⟨?_, (h.fresh q hmem).status⟩
  cases h <;> simp only [WorkflowHost.newInstance, WorkflowHost.newChild] at hmem <;>
    split_ifs at hmem <;> simp at hmem <;> rw [hmem] <;> rfl

variable (hm : 0 < m) (hretry : RetriesUpTo definition x.stepId m)

include hm hretry

/-- A pointer that waits for an event was run when its sleep was over. -/
theorem rested_of_run (h : Run (Commits definition) (Loses definition) w₀ works log)
    (hw₀ : Started definition w₀) : ∀ s ∈ log.versions, ∀ p, s.value.pointerAt x = some p →
      p.status = .waitingForEvent → ∀ u, p.sleepUntil = some u →
      ∃ v ∈ s.before, v.turn.isOf x = true ∧ u ≤ v.now := by
  refine h.rule (N := fun w before => ∀ p, w.pointerAt x = some p → p.status = .waitingForEvent →
    ∀ u, p.sleepUntil = some u → ∃ v ∈ before, v.turn.isOf x = true ∧ u ≤ v.now) ?_ ?_ ?_
  · intro p hp hwaits
    have hfresh := hw₀.fresh p (List.mem_of_getElem? (pointerAt_eq_some.mp hp).1)
    simp [hfresh.status] at hwaits
  · intro w visits visits' hle hw p hp hwaits u hu
    obtain ⟨v, hv, hslept⟩ := hw p hp hwaits u hu
    exact ⟨v, hle.subset hv, hslept⟩
  · intro w visits w' before hcommits hw p' hp' hwaits u hu
    rcases hcommits.slept hm hretry hp' hwaits with ⟨p, hp, hwaited, hsleep⟩ | ⟨v, hv, hof, hslept⟩
    · obtain ⟨v, hv, hslept⟩ := hw p hp hwaited u (hsleep.trans hu)
      exact ⟨v, List.mem_append_left _ hv, hslept⟩
    · exact ⟨v, List.mem_append_right _ hv, hof, hslept u hu⟩

omit hm hretry in
/-- A visit is one to the pointer that has been loaded, at a time at which it was runnable. -/
theorem visit_of_possible {k : Work WorkflowInstance Visit}
    (h : k.Possible (Commits definition) (Loses definition)) {v : Visit} (hv : v ∈ k.events)
    (hof : v.turn.isOf x = true) : k.base.value.pointerAt x = some v.turn.pointer ∧
      isPointerRunnable v.turn.pointer v.now = true := by
  unfold Work.Possible at h
  split at h
  · exact h.visit hv hof
  · exact h.visit hv hof

end Runs

/-- **The retry budget is kept exactly if no failure is forgotten.** In every run of the operations
of the hosts, whatever values they have loaded, and with passes that end without writing theirs:
every operation keeps the budget of a pointer at a step that is retried `m > 0` times if and only if
each one that writes has loaded a value that knows all failures of the pointer so far, and in no
pass that writes nothing the body of the pointer fails. -/
theorem retryBudget_iff (definition : WorkflowDefinition) (x : PointerKey) (m : Nat)
    (w₀ : WorkflowInstance) (works : List (Work WorkflowInstance Visit))
    (log : Log WorkflowInstance Visit) (hm : 0 < m) (hretry : RetriesUpTo definition x.stepId m)
    (hw₀ : Started definition w₀)
    (hrun : Run (Commits definition) (Loses definition) w₀ works log) :
    (∀ k ∈ works, KeepsBudget definition x m k) ↔ ∀ k ∈ works, k.Fresh (Visit.fails x) := by
  let Good (n : Nat) (w : WorkflowInstance) : Prop := Budgeted m n (w.pointerAt x)
  have hwrites : ∀ w visits w' n, Commits definition w visits w' → Good n w →
      Good (n + visits.countP (·.fails x)) w' := fun _ _ _ _ h hw =>
    (h.becomes hm hretry).budgeted hw
  have hover : ∀ w visits w' n k, Commits definition w visits w' → Good n w → n < k →
      ¬Good (k + visits.countP (·.fails x)) w' := fun _ _ _ _ _ h hw hlt =>
    (h.becomes hm hretry).not_budgeted hm hw hlt
  have hone : ∀ w n k, Good n w → Good (n + k) w → k = 0 := fun _ _ _ hw hw' => hw.eq_zero hw'
  have hcounts := hrun.counts_iff hw₀.budgeted hwrites hover hone
  refine ⟨fun h => hcounts.mp fun k hk => (h k hk).budgeted, fun hfresh k hk => ?_⟩
  obtain ⟨done, hdone, hsub, hbase, hpossible⟩ := hrun.of_mem hk
  obtain ⟨hbudgeted, -⟩ := hdone.counts (fun k hk => hfresh k (hsub k hk)) hw₀.budgeted hwrites
  refine ⟨hcounts.mpr hfresh k hk, ?_, ?_⟩
  · intro w' earlier later v hwritten hevents hfails hlast
    have hof := (Bool.and_eq_true_iff.mp hfails).1
    have hv : v ∈ k.events := by simp [hevents]
    obtain ⟨hp, -⟩ := visit_of_possible hpossible hv hof
    -- The value it has loaded knows all failures, so it has no retries left.
    have hk := hfresh k hk
    rw [Work.Fresh, hwritten] at hk
    obtain ⟨hcount, -⟩ := (hbudgeted _ hbase).2 _ hp
    rw [show k.base.before.countP (Visit.fails x) = m from hk.trans hlast, Nat.min_self] at hcount
    rw [Work.Possible, hwritten] at hpossible
    exact hpossible.suspended hevents (asks_of_fails hm hretry hfails (Nat.le_of_eq hcount.symm))
  · intro v hv hof u hu
    obtain ⟨hp, hrunnable⟩ := visit_of_possible hpossible hv hof
    by_cases hwaits : v.turn.pointer.status = .waitingForEvent
    · obtain ⟨v', hv', hslept⟩ := rested_of_run hm hretry hdone hw₀ _ hbase _ hp hwaits u hu
      exact .inr ⟨hwaits, v', (hdone.before_prefix hbase).subset hv', hslept⟩
    · exact .inl (sleepUntil_le hrunnable hwaits hu)

/-- Operations one after the other forget nothing. -/
theorem Lives.run {definition : WorkflowDefinition} {w₀ w : WorkflowInstance}
    {changes : List Change} (h : Lives definition w₀ changes w) : ∃ works log,
      Run (Commits definition) (Loses definition) w₀ works log ∧
      (∀ f, ∀ k ∈ works, k.Fresh f) ∧ log.current = ⟨w, log.events⟩ ∧
      log.events.map Visit.turn = turnsOf changes := by
  induction h with
  | nil => exact ⟨[], _, .nil, fun f k hk => absurd hk List.not_mem_nil, rfl, rfl⟩
  | snoc hlives hdoes ih =>
    rename_i changes c w' w''
    obtain ⟨works, log, hrun, hfresh, hcurrent, hturns⟩ := ih
    obtain ⟨visits, hcommits, hvisits⟩ := hdoes.commits
    -- Each operation has loaded the value in place.
    let k : Work WorkflowInstance Visit := ⟨log, log.current, visits, some w''⟩
    have hcurrent' : log.current.value = w' := by rw [hcurrent]
    have hpossible : k.Possible (Commits definition) (Loses definition) := by
      change Commits definition log.current.value visits w''
      exact hcurrent' ▸ hcommits
    refine ⟨works ++ [k], k.after, .snoc hrun List.mem_cons_self hpossible, ?_, rfl, ?_⟩
    · intro f j hj
      rcases List.mem_append.mp hj with hj | hj
      · exact hfresh f j hj
      · obtain rfl := List.mem_singleton.mp hj
        change log.current.before.countP f = log.events.countP f
        rw [hcurrent]
    · rw [Work.after_events, List.map_append, hturns, hvisits, turnsOf_snoc]

/-- One step, which is retried once. -/
def retriedOnce : WorkflowDefinition :=
  { WorkflowDefinition.new "retried" 1 with
    steps := [{ WorkflowStep.new 0 "step" with errorBehavior := some (.retry 0 1) }] }

/-- The step fails twice; then its pointer has failed, and the workflow is suspended. -/
theorem retryBudget_iff_retriedOnce : ∃ x works log,
    Run (Commits retriedOnce) (Loses retriedOnce) (startOf retriedOnce) works log ∧
    (∀ k ∈ works, KeepsBudget retriedOnce x 1 k) ∧ log.events.countP (·.fails x) = 2 ∧
    log.current.value.status = .suspended := by
  let x : PointerKey := ⟨0, ((startOf retriedOnce).executionPointers.map (·.id)).headD "", 0⟩
  obtain ⟨changes, w, hlives, hw⟩ := Simulation.history_any (d := retriedOnce)
    (w := startOf retriedOnce)
    (l := [.pass (failingAt ["step"]) "b", .pass (failingAt ["step"]) "a"])
    (f := fun changes w => w.status = .suspended ∧ (turnsOf changes).countP (·.fails x) = 2)
    (by decide)
  obtain ⟨hstatus, hcount⟩ := of_decide_eq_true hw
  obtain ⟨works, log, hrun, hfresh, hcurrent, hturns⟩ := hlives.run
  refine ⟨x, works, log, hrun, ?_, ?_, by rw [hcurrent, hstatus]⟩
  · exact (retryBudget_iff retriedOnce x 1 _ works log Nat.one_pos ⟨0, rfl⟩ (startOf_started _)
      hrun).mpr (hfresh _)
  · rw [← hcount, ← hturns, List.countP_map]
    rfl

/-- Two steps side by side, the first one to be retried once, the second one of a type that is not
registered. -/
def halfRetried : WorkflowDefinition :=
  { WorkflowDefinition.new "half" 1 with
    steps := [
      { WorkflowStep.new 0 sequenceKey with children := [1, 2] },
      { WorkflowStep.new 1 "step" with errorBehavior := some (.retry 0 1) },
      WorkflowStep.new 2 "missing"] }

def halfRetriedBodies : StepResolver := fun stepType =>
  if stepType = "missing" then none else failingAt ["step"] stepType

/-- The pointer of the step to be retried. -/
def halfRetriedKey (w : WorkflowInstance) : PointerKey :=
  ⟨1, ((w.executionPointers.map ExecutionPointer.id)[1]?).getD "", 1⟩

/-- The pass fails at the second step and writes nothing, so the first one fails three times, and
could go on so, while its pointer has counted no failure. -/
theorem failures_uncounted : ∃ x works log p,
    Run (Commits halfRetried) (Loses halfRetried) (startOf halfRetried) works log ∧
    RetriesUpTo halfRetried x.stepId 1 ∧ log.events.countP (·.fails x) = 3 ∧
    log.current.value.pointerAt x = some p ∧ p.retryCount = 0 ∧ p.status = .pending ∧
    (∃ tr e, Path (execute log.current.value.id halfRetried halfRetriedBodies none).run tr
        (.error e) ∧ (∃ y ∈ tr, y.1.startsBody = true) ∧ ∀ y ∈ tr, y.1.persists = none) ∧
    ¬∀ k ∈ works, KeepsBudget halfRetried x 1 k := by
  obtain ⟨changes, w, hlives, hw⟩ := Simulation.history_any (d := halfRetried)
    (w := startOf halfRetried) (l := [.pass halfRetriedBodies "a"])
    (f := fun changes w => w.status = .runnable ∧
      (turnsOf changes).countP (·.fails (halfRetriedKey w)) = 0 ∧
      (w.pointerAt (halfRetriedKey w)).any (fun p => p.retryCount = 0 ∧ p.status = .pending) ∧
      runnableIndices w 0 = [0, 1, 2] ∧
      (Simulation.turns halfRetried halfRetriedBodies none "b" { workflow := w } [0, 1]).any
        (fun ts => ts.1.countP (·.fails (halfRetriedKey w)) = 1) ∧
      grantedPassFails halfRetried halfRetriedBodies w = true ∧
      (∃ y ∈ (grantedPass halfRetried halfRetriedBodies w).1, y.1.startsBody = true) ∧
      ∀ y ∈ (grantedPass halfRetried halfRetriedBodies w).1, y.1.persists = none)
    (by decide)
  obtain ⟨hr, hnone, hp, hindices, hturns, herror, hstarts, hpersists⟩ := of_decide_eq_true hw
  obtain ⟨works, log, hrun, -, hcurrent, hevents⟩ := hlives.run
  obtain ⟨p, hp, hpending⟩ := (Option.any_eq_true _ _).mp hp
  obtain ⟨hcount, hstatus⟩ := of_decide_eq_true hpending
  obtain ⟨⟨turns, st⟩, hcomputed, hfails⟩ := (Option.any_eq_true _ _).mp hturns
  obtain ⟨hturns, hsome⟩ := Simulation.turns_sound rfl hcomputed
  have hvalue : log.current.value = w := by rw [hcurrent]
  -- The turns before the abort can be lost any number of times.
  have hloses : Loses halfRetried log.current.value (turns.map (Visit.mk 0)) := by
    rw [hvalue]
    exact .pass (by rintro _ ⟨⟩) hr hturns ⟨[2], by rw [hsome, hindices]; rfl⟩
  obtain ⟨works', log', hrun', hcurrent', hevents'⟩ := hrun.lose hloses 3
  have hfailures : log'.events.countP (·.fails (halfRetriedKey w)) = 3 := by
    have hbefore : log.events.countP (·.fails (halfRetriedKey w)) = 0 := by
      rw [← hnone, ← hevents, List.countP_map]
      rfl
    have hone := of_decide_eq_true hfails
    rw [← countP_visits 0] at hone
    simp [hevents', hbefore, List.countP_append, List.replicate, hone]
  obtain ⟨e, hpath, -⟩ := grantedPass_path _ _ w herror
  have hvalue' : log'.current.value = w := by rw [hcurrent', hvalue]
  refine ⟨halfRetriedKey w, works', log', p, hrun', ⟨0, rfl⟩, hfailures, hvalue' ▸ hp, hcount,
    hstatus, ⟨_, e, hvalue' ▸ hpath, hstarts, hpersists⟩, fun hkeeps => ?_⟩
  obtain ⟨k, hk, hafter⟩ := hrun'.exists_after fun hnil => by simp [hnil] at hfailures
  obtain ⟨-, hbudget⟩ := (hkeeps k hk).budgeted
  rw [hafter, hfailures, hvalue'] at hbudget
  -- Three failures are more than the step has attempts.
  have hbound := (hbudget p hp).bound
  omega

end Wfe
