import Mathlib.Data.List.Infix

/-!
# Values written over one another

A value is read, and later a new version of it is written, without a test that it is still the
version that was read. Work on it leaves events, and may also end with no version written. A count
of events that the value keeps is right all along exactly if no version is written over counted
events it does not know of, and no counted event belongs to work that writes nothing.

## Main definitions

* `Version`, `Log`: a version with its past, and the versions of a run
* `Work`: a piece of work, which writes a version or is lost
* `Run`: pieces of work, in the order in which they end
* `Work.Fresh`: no counted event is forgotten

## Main results

* `Run.rule`: what the versions of a run have in common
* `Run.counts_iff`: when the count of the current version is right all along
-/

namespace Versions

variable {V E : Type}

/-- A value, with all events up to the time it was written. -/
structure Version (V E : Type) where
  value : V
  before : List E

/-- The events so far, the version in place, and the versions it has replaced. -/
structure Log (V E : Type) where
  events : List E
  current : Version V E
  former : List (Version V E)

def Log.versions (l : Log V E) : List (Version V E) := l.current :: l.former

/-- A piece of work: the log when it ends, the version it has read, its events, and the value it
writes, if it does. -/
structure Work (V E : Type) where
  log : Log V E
  base : Version V E
  events : List E
  written : Option V

/-- The log with the work done. -/
def Work.after (k : Work V E) : Log V E :=
  match k.written with
  | some v => ⟨k.log.events ++ k.events, ⟨v, k.log.events ++ k.events⟩, k.log.versions⟩
  -- Its events have happened all the same.
  | none => { k.log with events := k.log.events ++ k.events }

/-- The work is possible. -/
def Work.Possible (writes : V → List E → V → Prop) (loses : V → List E → Prop) (k : Work V E) :
    Prop :=
  match k.written with
  | some v => writes k.base.value k.events v
  | none => loses k.base.value k.events

/-- Pieces of work from the value `v` on. -/
inductive Run (writes : V → List E → V → Prop) (loses : V → List E → Prop) (v : V) :
    List (Work V E) → Log V E → Prop
  | nil : Run writes loses v [] ⟨[], ⟨v, []⟩, []⟩
  | snoc {works : List (Work V E)} {k : Work V E} (h : Run writes loses v works k.log)
      (hbase : k.base ∈ k.log.versions) (hpossible : k.Possible writes loses) :
      Run writes loses v (works ++ [k]) k.after

/-- No counted event is forgotten: what is written knows them all, and lost work has none. -/
def Work.Fresh (f : E → Bool) (k : Work V E) : Prop :=
  match k.written with
  | some _ => k.base.before.countP f = k.log.events.countP f
  | none => k.events.countP f = 0

instance (f : E → Bool) (k : Work V E) : Decidable (k.Fresh f) := by
  unfold Work.Fresh
  split <;> infer_instance

section Run

variable {writes : V → List E → V → Prop} {loses : V → List E → Prop} {v : V}
  {works : List (Work V E)} {log : Log V E} {f : E → Bool} {Good : Nat → V → Prop}

@[simp] theorem Work.after_events (k : Work V E) : k.after.events = k.log.events ++ k.events := by
  unfold Work.after
  split <;> rfl

/-- Work that writes nothing leaves the versions; the others add one, with all events before it. -/
theorem Work.mem_versions {k : Work V E} {s : Version V E} (h : s ∈ k.after.versions) :
    s ∈ k.log.versions ∨ ∃ v, k.written = some v ∧ s = ⟨v, k.log.events ++ k.events⟩ := by
  unfold Work.after at h
  split at h
  · next v hv =>
    rcases List.mem_cons.mp h with rfl | h
    · exact .inr ⟨v, hv, rfl⟩
    · exact .inl h
  · exact .inl h

/-- What a version has before it is the beginning of all that happens. -/
theorem Run.before_prefix (h : Run writes loses v works log) {s : Version V E}
    (hs : s ∈ log.versions) : s.before <+: log.events := by
  induction h with
  | nil =>
    obtain rfl := List.mem_singleton.mp hs
    exact List.prefix_rfl
  | snoc _ _ _ ih =>
    rw [Work.after_events]
    rcases Work.mem_versions hs with hs | ⟨v, -, rfl⟩
    · exact (ih hs).trans (List.prefix_append _ _)
    · exact List.prefix_rfl

/-- Every piece of work is done on the run so far. -/
theorem Run.of_mem (h : Run writes loses v works log) {k : Work V E} (hk : k ∈ works) :
    ∃ done, Run writes loses v done k.log ∧ (∀ j ∈ done, j ∈ works) ∧
      k.base ∈ k.log.versions ∧ k.Possible writes loses := by
  induction h with
  | nil => cases hk
  | snoc hrun hbase hpossible ih =>
    rename_i works j
    rcases List.mem_append.mp hk with hk | hk
    · obtain ⟨done, hdone, hsub, hk⟩ := ih hk
      exact ⟨done, hdone, fun j hj => List.mem_append_left _ (hsub j hj), hk⟩
    · obtain rfl := List.mem_singleton.mp hk
      exact ⟨works, hrun, fun j hj => List.mem_append_left _ hj, hbase, hpossible⟩

/-- Where there are events, the log is that after some work. -/
theorem Run.exists_after (h : Run writes loses v works log) (hevents : log.events ≠ []) :
    ∃ k ∈ works, k.after = log := by
  cases h with
  | nil => exact absurd rfl hevents
  | snoc => exact ⟨_, by simp, rfl⟩

/-- Work that is lost can be lost again. -/
theorem Run.lose (h : Run writes loses v works log) {es : List E}
    (hloses : loses log.current.value es) (n : Nat) : ∃ works' log',
      Run writes loses v works' log' ∧ log'.current = log.current ∧
      log'.events = log.events ++ (List.replicate n es).flatten := by
  induction n with
  | zero => exact ⟨works, log, h, rfl, (List.append_nil _).symm⟩
  | succ n ih =>
    obtain ⟨works', log', hrun, hcurrent, hevents⟩ := ih
    let k : Work V E := ⟨log', log'.current, es, none⟩
    have hpossible : k.Possible writes loses := by
      change loses log'.current.value es
      exact hcurrent ▸ hloses
    refine ⟨works' ++ [k], k.after, .snoc hrun List.mem_cons_self hpossible, hcurrent, ?_⟩
    rw [Work.after_events, List.replicate_succ', List.flatten_append, List.flatten_singleton,
      ← List.append_assoc, ← hevents]

/-- What holds at the start, is not lost with time and is kept by what is written holds of all
versions. -/
theorem Run.rule {N : V → List E → Prop} (h : Run writes loses v works log) (hv : N v [])
    (hlater : ∀ v es es', es <+: es' → N v es → N v es')
    (hwrites : ∀ v es v' before, writes v es v' → N v before → N v' (before ++ es)) :
    ∀ s ∈ log.versions, N s.value s.before := by
  induction h with
  | nil =>
    intro s hs
    obtain rfl := List.mem_singleton.mp hs
    exact hv
  | snoc hrun hbase hpossible ih =>
    intro s hs
    rcases Work.mem_versions hs with hs | ⟨v', hv', rfl⟩
    · exact ih s hs
    · rw [Work.Possible, hv'] at hpossible
      exact hwrites _ _ _ _ hpossible (hlater _ _ _ (hrun.before_prefix hbase) (ih _ hbase))

/-- As long as nothing is forgotten, all versions have the right count, and the current one knows
all counted events. -/
theorem Run.counts (h : Run writes loses v works log) (hfresh : ∀ k ∈ works, k.Fresh f)
    (hstart : Good 0 v)
    (hwrites : ∀ v es v' n, writes v es v' → Good n v → Good (n + es.countP f) v') :
    (∀ s ∈ log.versions, Good (s.before.countP f) s.value) ∧
      log.current.before.countP f = log.events.countP f := by
  induction h with
  | nil =>
    refine ⟨fun s hs => ?_, rfl⟩
    obtain rfl := List.mem_singleton.mp hs
    exact hstart
  | snoc hrun hbase hpossible ih =>
    rename_i works k
    obtain ⟨hgood, hcurrent⟩ := ih fun k hk => hfresh k (List.mem_append_left _ hk)
    -- The last piece of work has read a version with the right count.
    have hk : k.Fresh f := hfresh k (by simp)
    rw [Work.Possible] at hpossible
    rw [Work.Fresh] at hk
    constructor
    · intro s hs
      rcases Work.mem_versions hs with hs | ⟨v', hv', rfl⟩
      · exact hgood s hs
      · simp only [hv'] at hpossible hk
        rw [List.countP_append, ← hk]
        exact hwrites _ _ _ _ hpossible (hgood _ hbase)
    · rw [Work.after_events, Work.after]
      cases hv : k.written with
      | some v' => rfl
      | none =>
        simp only [hv] at hk
        rw [List.countP_append, hk, Nat.add_zero]
        exact hcurrent

/-- **The count of the current version is right all along exactly if nothing is forgotten**, where a
value has one right count at most, and a version that is written over events it does not know of
cannot make up for them. -/
theorem Run.counts_iff (h : Run writes loses v works log) (hstart : Good 0 v)
    (hwrites : ∀ v es v' n, writes v es v' → Good n v → Good (n + es.countP f) v')
    (hover : ∀ v es v' n m, writes v es v' → Good n v → n < m → ¬Good (m + es.countP f) v')
    (hone : ∀ v n m, Good n v → Good (n + m) v → m = 0) :
    (∀ k ∈ works, Good (k.after.events.countP f) k.after.current.value) ↔
      ∀ k ∈ works, k.Fresh f := by
  induction h with
  | nil => simp
  | snoc hrun hbase hpossible ih =>
    rename_i works k
    simp only [List.forall_mem_append, List.forall_mem_singleton, ih]
    refine and_congr_right fun hfresh => ?_
    obtain ⟨hgood, hcurrent⟩ := hrun.counts hfresh hstart hwrites
    rw [Work.after_events, List.countP_append, Work.Fresh, Work.after]
    rw [Work.Possible] at hpossible
    cases hv : k.written with
    | some v' =>
      simp only [hv] at hpossible ⊢
      have hle : k.base.before.countP f ≤ k.log.events.countP f :=
        (hrun.before_prefix hbase).sublist.countP_le
      constructor
      · intro hk
        -- Otherwise there are events it does not know of.
        refine Nat.le_antisymm hle (Nat.le_of_not_lt fun hlt => ?_)
        exact hover _ _ _ _ _ hpossible (hgood _ hbase) hlt hk
      · intro hk
        rw [← hk]
        exact hwrites _ _ _ _ hpossible (hgood _ hbase)
    | none =>
      have hnow : Good (k.log.events.countP f) k.log.current.value :=
        hcurrent ▸ hgood _ List.mem_cons_self
      refine ⟨fun hk => hone _ _ _ hnow hk, fun hk => ?_⟩
      rw [hk]
      exact hnow

end Run

end Versions
