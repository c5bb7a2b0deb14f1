import Mathlib.Logic.Relation
import Wfe.Yaml.Names

/-!
# What the compiler keeps

The five branches of `compile_steps` read different fields of a step. A regular step keeps its
condition and its error behaviour, and leads to its hooks, but to its `ensure` hook only if it has
no `on_success` hook; a parallel block loses its hooks; a hook is built from its type and
configuration alone.

## Main definitions

* `WorkflowDefinition.Leads`: where a step leads to
* `Generated`, `Carries`: the step generated for a step, and what it has to carry
* `YamlStep.Keepable`: the main steps that are compiled without a loss

## Main results

* `Emits.link_name`: what is led to
* `compile_keeps`: when everything is kept
* `checks_hook_dropped`: a hook that is not
-/

namespace Wfe

/-- The step `id` leads to the step `id'`. -/
def WorkflowDefinition.Leads (d : WorkflowDefinition) (id id' : Nat) : Prop :=
  ∃ s ∈ d.steps, s.id = id ∧ id' ∈ s.links

/-- `s` is the step generated for `y`. -/
def Generated (d : WorkflowDefinition) (y : YamlStep) (s : WorkflowStep) : Prop :=
  s ∈ d.steps ∧ s.name = some y.name

/-- `s` carries what is specified for `y`: its condition, its error behaviour or the compensation by
its `on_failure` hook, and the ways to its hooks. -/
structure Carries (d : WorkflowDefinition) (y : YamlStep) (s : WorkflowStep) : Prop where
  when : y.when.mapM compileCondition = .ok s.when
  errorBehavior : y.onFailure = none → ∀ eb ∈ y.errorBehavior,
    ∃ behavior, mapErrorBehavior eb = .ok behavior ∧ s.errorBehavior = some behavior
  onFailure : ∀ hook ∈ y.onFailure, s.errorBehavior = some .compensate ∧
    ∃ s', Generated d hook s' ∧ s.compensationStepId = some s'.id
  hooks : ∀ hook ∈ y.hooks, ∃ s', Generated d hook s' ∧ Relation.TransGen d.Leads s.id s'.id

/-- A main step of which nothing is lost: a block without hooks, or a regular step with hooks that
specify nothing but what they run, and not with both an `on_success` and an `ensure` hook. -/
structure YamlStep.Keepable (y : YamlStep) : Prop where
  block : y.parallel.isSome → y.hooks = []
  nested : y.parallel = none → ∀ hook ∈ y.hooks, hook.nested = []
  plain : y.parallel = none → ∀ hook ∈ y.hooks, hook.when = none ∧ hook.errorBehavior = none
  ensure : y.parallel = none → y.onSuccess = none ∨ y.ensure = none

/-! ## Links -/

/-- The steps compiled with a main step that something leads to. -/
def YamlStep.linked (y : YamlStep) : List YamlStep :=
  y :: if y.parallel.isSome then [] else y.onFailure.toList ++ (y.onSuccess <|> y.ensure).toList

/-- The hook compiled with a main step that nothing leads to. -/
def YamlStep.idle (y : YamlStep) : List YamlStep :=
  if y.parallel.isSome ∨ y.onSuccess.isNone then [] else y.ensure.toList

section Links

variable {F : Features} {linked : Bool} {ys : List YamlStep} {x y : YamlStep} {n r : Nat}
  {ids : List Nat} {steps : List WorkflowStep} {fs : List (String × StepFactory)}
  {s : WorkflowStep}

theorem YamlStep.compiled_perm (y : YamlStep) : y.compiled.Perm (y.linked ++ y.idle) := by
  rw [compiled, linked, idle, hooks, List.cons_append]
  refine List.Perm.cons y ?_
  cases y.parallel with
  | some _ => simp
  | none => cases y.onSuccess <;> simp

/-- The names of a regular step and of the hooks that it leads to. -/
def RegularBuild.linkedNames (b : RegularBuild) : List String :=
  b.name :: (b.failure.toList ++ (b.success <|> b.ensure).toList).map Prod.fst

theorem RegularBuild.Of.linkedNames {b : RegularBuild} (hb : b.Of F y) :
    b.linkedNames = y.linked.map YamlStep.name := by
  have hfailure := buildHook_mapM_name hb.failure
  have hsuccess := buildHook_mapM_name hb.success
  have hensure := buildHook_mapM_name hb.ensure
  simp only [RegularBuild.linkedNames, YamlStep.linked, hb.regular, hb.name, Option.isSome_none,
    Bool.false_eq_true, if_false, List.map_cons, List.map_append, hfailure]
  cases hs : b.success <;> cases hy : y.onSuccess <;> simp_all

/-- A regular step leads to its hooks, and on to the next main step. -/
theorem RegularBuild.link_name (b : RegularBuild) (n : Nat) (next : Option Nat)
    (hs : s ∈ b.steps n next) (hr : r ∈ s.links) :
    (∃ s' ∈ b.steps n next, s'.id = r ∧ ∃ name ∈ b.linkedNames, s'.name = some name) ∨
      next = some r := by
  revert s r
  rcases b with ⟨_, _, _, _, _ | _, _ | _, _ | _⟩ <;> cases next <;>
    simp [steps, hookSteps, mainStep, hookOutcomes, failureId, successId, ensureId, nextOutcomes,
      WorkflowStep.links, BuiltStep.toStep, WorkflowStep.new, linkedNames]
  -- What is left is to choose the hook by its position.
  all_goals
    intro r
    tauto

/-- The step `r` is among `steps`, and generated for one of `ys`. -/
def StepFor (steps : List WorkflowStep) (ys : List YamlStep) (r : Nat) : Prop :=
  ∃ s ∈ steps, s.id = r ∧ ∃ y ∈ ys, s.name = some y.name

theorem StepFor.mono {steps' : List WorkflowStep} {ys' : List YamlStep} (h : StepFor steps ys r)
    (hsteps : steps ⊆ steps') (hys : ys ⊆ ys') : StepFor steps' ys' r := by
  obtain ⟨s, hs, hid, y, hy, hname⟩ := h
  exact ⟨s, hsteps hs, hid, y, hys hy, hname⟩

/-- A main id is that of a main step. -/
theorem Emits.main_name (h : Emits F linked ys n ids steps fs) (hid : r ∈ ids) :
    StepFor steps ((mainSteps ys).flatMap YamlStep.linked) r := by
  have hself {y : YamlStep} {ys : List YamlStep} :
      y ∈ (mainSteps (y :: ys)).flatMap YamlStep.linked := by
    simp [mainSteps, YamlStep.withChildren_eq, YamlStep.linked]
  have hlater {y : YamlStep} {ys : List YamlStep} :
      (mainSteps ys).flatMap YamlStep.linked ⊆ (mainSteps (y :: ys)).flatMap YamlStep.linked := by
    simp [mainSteps]
  induction h with
  | nil => cases hid
  | regular hb hys ih =>
    rcases List.mem_cons.mp hid with rfl | hid
    · exact ⟨_, List.mem_append_left _ (List.mem_append_right _ List.mem_cons_self), rfl, _, hself,
        congrArg some hb.name⟩
    · exact (ih hid).mono (List.subset_append_right _ _) hlater
  | block hy heb hcond hchildren hys _ ih =>
    rcases List.mem_cons.mp hid with rfl | hid
    · exact ⟨_, List.mem_append_left _ (List.mem_append_right _ List.mem_cons_self), rfl, _, hself,
        rfl⟩
    · exact (ih hid).mono (List.subset_append_right _ _) hlater

/-- What a step leads to is a main step, or one of the hooks that its step leads to. -/
theorem Emits.link_name (h : Emits F linked ys n ids steps fs) (hs : s ∈ steps)
    (hr : r ∈ s.links) : StepFor steps ((mainSteps ys).flatMap YamlStep.linked) r := by
  -- The next main step is one of those emitted after the part.
  have hnext {linked : Bool} {ys : List YamlStep} {n : Nat} {ids : List Nat}
      {steps : List WorkflowStep} {fs : List (String × StepFactory)}
      (h : Emits F linked ys n ids steps fs)
      (hr : (if linked then ids.head? else none) = some r) :
      StepFor steps ((mainSteps ys).flatMap YamlStep.linked) r := by
    cases linked with
    | false => cases hr
    | true => exact h.main_name (List.mem_of_head? hr)
  induction h with
  | nil => cases hs
  | regular hb hys ih =>
    simp only [mainSteps, YamlStep.withChildren_eq, hb.regular, mainBlock, List.flatMap_append,
      List.flatMap_singleton]
    rcases List.mem_append.mp hs with hs | hs
    · rcases RegularBuild.link_name _ _ _ hs hr with ⟨s', hs', hr', name, hmem, hname⟩ | hr
      · rw [hb.linkedNames] at hmem
        obtain ⟨x, hx, rfl⟩ := List.mem_map.mp hmem
        exact ⟨s', List.mem_append_left _ hs', hr', x, List.mem_append_left _ hx, hname⟩
      · exact (hnext hys hr).mono (List.subset_append_right _ _) (List.subset_append_right _ _)
    · exact (ih hs).mono (List.subset_append_right _ _) (List.subset_append_right _ _)
  | block hy heb hcond hchildren hys ihchildren ih =>
    simp only [mainSteps, YamlStep.withChildren_eq, hy, mainBlock, List.flatMap_append,
      List.flatMap_cons]
    rcases List.mem_append.mp hs with hs | hs
    · rcases List.mem_append.mp hs with hs | hs
      · refine (ihchildren hs).mono ?_ ?_ <;> simp [List.append_assoc]
      · obtain rfl := List.mem_singleton.mp hs
        refine (hnext hys ?_).mono (List.subset_append_right _ _) (List.subset_append_right _ _)
        simpa [WorkflowStep.links, containerStep, WorkflowStep.new, nextOutcomes] using hr
    · exact (ih hs).mono (List.subset_append_right _ _) (List.subset_append_right _ _)

/-- Nothing leads to a hook that is compiled but idle. -/
theorem Emits.not_mem_links (h : Emits F linked ys n ids steps fs)
    (hnames : ((allSteps ys).map YamlStep.name).Nodup) (hy : y ∈ mainSteps ys) (hx : x ∈ y.idle)
    {s' : WorkflowStep} (hs' : s' ∈ steps) (hname : s'.name = some x.name) (hs : s ∈ steps) :
    s'.id ∉ s.links := by
  intro hr
  obtain ⟨s'', hs'', hid, z, hz, hname'⟩ := h.link_name hs hr
  obtain rfl : s'' = s' := List.inj_on_of_nodup_map h.nodup hs'' hs' hid
  -- Linked and idle hooks have different names, since all names are distinct.
  have hnodup : (((mainSteps ys).flatMap YamlStep.linked).map YamlStep.name ++
      ((mainSteps ys).flatMap YamlStep.idle).map YamlStep.name).Nodup := by
    rw [← List.map_append]
    refine (List.Perm.map _ ?_).nodup_iff.mp (compiled_dropped_nodup hnames).of_append_left
    refine (List.Perm.flatMap_left _ fun y _ => y.compiled_perm).trans ?_
    exact (List.flatMap_append_perm ..).symm
  have hidle : x ∈ (mainSteps ys).flatMap YamlStep.idle := List.mem_flatMap.mpr ⟨y, hy, hx⟩
  refine (List.nodup_append.mp hnodup).2.2 _ (List.mem_map_of_mem hz) _
    (List.mem_map_of_mem hidle) ?_
  exact Option.some_inj.mp (hname'.symm.trans hname)

end Links

/-! ## Hooks -/

section Hooks

variable {F : Features} {y hook : YamlStep} {b : RegularBuild} {s : WorkflowStep}

theorem RegularBuild.Of.failure_hook (hb : b.Of F y) (hhook : y.onFailure = some hook) (n : Nat)
    (next : Option Nat) : ∃ s ∈ b.hookSteps n next, BuiltFrom F hook s ∧
      b.failureId n = some s.id := by
  rcases buildHook_mapM hb.failure with ⟨hnone, -⟩ | ⟨_, built, hsome, hb', hbuilt⟩
  · cases hhook.symm.trans hnone
  · cases hhook.symm.trans hsome
    refine ⟨built.toStep (n + 1) hook.name, ?_, ⟨rfl, built, hbuilt, rfl, rfl⟩, ?_⟩
    · simp [hookSteps, hb']
    · simp [failureId, hb']

theorem RegularBuild.Of.success_hook (hb : b.Of F y) (hhook : y.onSuccess = some hook) (n : Nat)
    (next : Option Nat) : ∃ s ∈ b.hookSteps n next, BuiltFrom F hook s ∧
      b.successId n = some s.id := by
  rcases buildHook_mapM hb.success with ⟨hnone, -⟩ | ⟨_, built, hsome, hb', hbuilt⟩
  · cases hhook.symm.trans hnone
  · cases hhook.symm.trans hsome
    refine ⟨{ built.toStep (n + 1 + b.failure.toList.length) hook.name with
      outcomes := nextOutcomes next }, ?_, ⟨rfl, built, hbuilt, rfl, rfl⟩, ?_⟩
    · simp [hookSteps, hb']
    · simp [successId, hb']

theorem RegularBuild.Of.ensure_hook (hb : b.Of F y) (hhook : y.ensure = some hook) (n : Nat)
    (next : Option Nat) : ∃ s ∈ b.hookSteps n next, BuiltFrom F hook s ∧
      b.ensureId n = some s.id := by
  rcases buildHook_mapM hb.ensure with ⟨hnone, -⟩ | ⟨_, built, hsome, hb', hbuilt⟩
  · cases hhook.symm.trans hnone
  · cases hhook.symm.trans hsome
    refine ⟨{
      built.toStep (n + 1 + b.failure.toList.length + b.success.toList.length) hook.name with
      outcomes := if b.success.isSome then [] else nextOutcomes next }, ?_,
      ⟨rfl, built, hbuilt, rfl, rfl⟩, ?_⟩
    · simp [hookSteps, hb']
    · simp [ensureId, hb']

/-- Hooks carry neither a condition nor an error behaviour. -/
theorem RegularBuild.plain_hookSteps (b : RegularBuild) {n : Nat} {next : Option Nat}
    (hs : s ∈ b.hookSteps n next) : s.when = none ∧ s.errorBehavior = none := by
  simp only [hookSteps, List.mem_append, List.mem_map, Option.mem_toList] at hs
  obtain (⟨h, -, rfl⟩ | ⟨h, -, rfl⟩) | ⟨h, -, rfl⟩ := hs <;> exact ⟨rfl, rfl⟩

theorem RegularBuild.Of.exists_hook (hb : b.Of F y) (hhook : hook ∈ y.hooks) (n : Nat)
    (next : Option Nat) : ∃ s ∈ b.hookSteps n next, BuiltFrom F hook s := by
  simp only [YamlStep.hooks, List.mem_append, Option.mem_toList] at hhook
  rcases hhook with (hhook | hhook) | hhook
  · obtain ⟨s, hs, hbuilt, -⟩ := hb.failure_hook hhook n next
    exact ⟨s, hs, hbuilt⟩
  · obtain ⟨s, hs, hbuilt, -⟩ := hb.success_hook hhook n next
    exact ⟨s, hs, hbuilt⟩
  · obtain ⟨s, hs, hbuilt, -⟩ := hb.ensure_hook hhook n next
    exact ⟨s, hs, hbuilt⟩

end Hooks

/-! ## When everything is kept -/

section Kept

variable {F : Features} {d : WorkflowDefinition} {y hook : YamlStep} {b : RegularBuild}
  {n : Nat} {next : Option Nat}

theorem mapM_eq_some {α β : Type} {f : α → Compiled β} {o : Option α} {r : Option β} {a : α}
    (h : o.mapM f = .ok r) (ho : o = some a) : ∃ b, f a = .ok b ∧ r = some b := by
  subst ho
  rw [Option.mapM_some, ← bind_pure_comp] at h
  obtain ⟨b, hb, h⟩ := Compiled.bind_eq_ok.mp h
  cases h
  exact ⟨b, hb, rfl⟩

/-- A regular step with its hooks carries everything but the way to an idle hook. -/
theorem RegularBuild.Of.carries (hb : b.Of F y) (hsteps : ∀ s ∈ b.steps n next, s ∈ d.steps)
    (hidle : y.onSuccess = none ∨ y.ensure = none) : Carries d y (b.mainStep n next) := by
  have hmain : b.mainStep n next ∈ d.steps := hsteps _ (by simp [steps])
  have hhook {s : WorkflowStep} (hs : s ∈ b.hookSteps n next) : s ∈ d.steps :=
    hsteps s (List.mem_append_left _ hs)
  have hlead {s : WorkflowStep} (h : s.id ∈ (b.mainStep n next).links) :
      Relation.TransGen d.Leads (b.mainStep n next).id s.id := .single ⟨_, hmain, rfl, h⟩
  refine ⟨hb.when, fun hnone eb heb => ?_, fun hook hmem => ?_, fun hook hmem => ?_⟩
  · obtain ⟨behavior, hbehavior, heq⟩ := mapM_eq_some hb.errorBehavior heb
    -- Without an `on_failure` hook the declared behaviour is kept.
    rcases buildHook_mapM hb.failure with ⟨-, hfailure⟩ | ⟨_, _, hsome, -⟩
    · exact ⟨behavior, hbehavior, by simp [mainStep, hfailure, heq]⟩
    · cases hnone.symm.trans hsome
  · obtain ⟨s, hs, ⟨hname, -⟩, hid⟩ := hb.failure_hook hmem n next
    refine ⟨?_, s, ⟨hhook hs, hname⟩, hid⟩
    have hsome : b.failure.isSome := by
      rw [← Option.isSome_map (f := fun _ => n + 1)]
      exact Option.isSome_of_eq_some hid
    simp [mainStep, hsome]
  · simp only [YamlStep.hooks, List.mem_append, Option.mem_toList] at hmem
    rcases hmem with (hmem | hmem) | hmem
    · obtain ⟨s, hs, ⟨hname, -⟩, hid⟩ := hb.failure_hook hmem n next
      exact ⟨s, ⟨hhook hs, hname⟩, hlead (by simp [WorkflowStep.links, mainStep, hid])⟩
    · obtain ⟨s, hs, ⟨hname, -⟩, hid⟩ := hb.success_hook hmem n next
      obtain ⟨h, hsuccess, -⟩ := Option.map_eq_some_iff.mp hid
      refine ⟨s, ⟨hhook hs, hname⟩, hlead ?_⟩
      simp [WorkflowStep.links, mainStep, hid, hsuccess, hookOutcomes]
    · obtain ⟨s, hs, ⟨hname, -⟩, hid⟩ := hb.ensure_hook hmem n next
      obtain ⟨h, hensure, -⟩ := Option.map_eq_some_iff.mp hid
      -- The `ensure` hook is linked only if there is no `on_success` hook.
      have hsuccess : b.success = none := by
        obtain hnone := hidle.resolve_right (by simp [hmem])
        rcases buildHook_mapM hb.success with ⟨-, hsuccess⟩ | ⟨_, _, hsome, -⟩
        · exact hsuccess
        · cases hnone.symm.trans hsome
      refine ⟨s, ⟨hhook hs, hname⟩, hlead ?_⟩
      simp [WorkflowStep.links, mainStep, hid, hensure, hsuccess, hookOutcomes, successId]

theorem YamlStep.hooks_eq_nil :
    y.hooks = [] ↔ y.onFailure = none ∧ y.onSuccess = none ∧ y.ensure = none := by
  simp [hooks]

theorem hooks_eq_nil_of_flatMap (h : y.hooks.flatMap YamlStep.withNested = []) : y.hooks = [] := by
  refine List.eq_nil_iff_forall_not_mem.mpr fun hook hmem => ?_
  have := List.flatMap_eq_nil_iff.mp h hook hmem
  simp [YamlStep.withNested_eq] at this

theorem hooks_eq_nil_of_nested (h : y.nested = []) : y.hooks = [] := by
  have hperm := y.nested_perm
  rw [h] at hperm
  exact hooks_eq_nil_of_flatMap (List.append_eq_nil_iff.mp hperm.nil_eq.symm).1

/-- Nothing is dropped with a main step when blocks have no hooks, and nothing is inside hooks. -/
theorem YamlStep.dropped_eq_nil : y.dropped = [] ↔ (y.parallel.isSome → y.hooks = []) ∧
    (y.parallel = none → ∀ hook ∈ y.hooks, hook.nested = []) := by
  unfold dropped
  cases y.parallel with
  | some children =>
    simp only [Option.isSome_some, if_true, reduceCtorEq, false_implies, and_true, true_implies]
    exact ⟨hooks_eq_nil_of_flatMap, fun h => by rw [h, List.flatMap_nil]⟩
  | none => simp [List.flatMap_eq_nil_iff]

/-- A block without hooks carries everything. -/
theorem containerStep_carries {ids : List Nat} {errorBehavior : Option ErrorBehavior}
    {cond : Option StepCondition} (heb : y.errorBehavior.mapM mapErrorBehavior = .ok errorBehavior)
    (hcond : y.when.mapM compileCondition = .ok cond) (hhooks : y.hooks = []) :
    Carries d y (containerStep n y.name errorBehavior ids cond next) := by
  refine ⟨hcond, fun _ eb hmem => mapM_eq_some heb hmem, fun hook hmem => ?_, by simp [hhooks]⟩
  cases (YamlStep.hooks_eq_nil.mp hhooks).1.symm.trans hmem

/-- A hook that specifies nothing but what it runs has nothing to carry. -/
theorem carries_of_plain {s : WorkflowStep} (hplain : hook.when = none ∧ hook.errorBehavior = none)
    (hnested : hook.nested = []) (hs : s.when = none) : Carries d hook s := by
  have hhooks := hooks_eq_nil_of_nested hnested
  obtain ⟨hfailure, -⟩ := YamlStep.hooks_eq_nil.mp hhooks
  refine ⟨?_, by simp [hplain.2], by simp [hfailure], by simp [hhooks]⟩
  rw [hplain.1, hs]
  rfl

variable {linked : Bool} {ys : List YamlStep} {ids : List Nat} {fs : List (String × StepFactory)}
  {s : WorkflowStep}

/-- The step generated for a hook is plain, so a hook that is kept specifies nothing else. -/
theorem Emits.plain_of_carries (h : Emits F linked ys n ids d.steps fs)
    (hnames : ((allSteps ys).map YamlStep.name).Nodup) (hy : y ∈ mainSteps ys)
    (hregular : y.parallel = none) (hhook : hook ∈ y.hooks) (hnested : hook.nested = [])
    (hs : Generated d hook s) (hcarries : Carries d hook s) :
    hook.when = none ∧ hook.errorBehavior = none := by
  obtain ⟨hs, hname⟩ := hs
  cases h.placed hy with
  | block children n ids inner fs eb cond next hpar => cases hregular.symm.trans hpar
  | regular b n next hb hsteps =>
    obtain ⟨s', hs', hname', -⟩ := hb.exists_hook hhook n next
    -- Names are distinct, so the step generated for the hook is the one of the build.
    obtain rfl : s = s' := h.eq_of_name hnames hs (hsteps s' (List.mem_append_left _ hs'))
      (hname.trans hname'.symm)
    obtain ⟨hwhen, herror⟩ := b.plain_hookSteps hs'
    constructor
    · refine Option.eq_none_iff_forall_ne_some.mpr fun c hc => ?_
      obtain ⟨_, -, hsome⟩ := mapM_eq_some hcarries.when hc
      cases hwhen.symm.trans hsome
    · refine Option.eq_none_iff_forall_ne_some.mpr fun eb heb => ?_
      have hhooks := hooks_eq_nil_of_nested hnested
      obtain ⟨_, -, hsome⟩ := hcarries.errorBehavior (YamlStep.hooks_eq_nil.mp hhooks).1 eb heb
      cases herror.symm.trans hsome

/-- Nothing leads to the `ensure` hook of a step with an `on_success` hook. -/
theorem Emits.ensure_of_carries (h : Emits F linked ys n ids d.steps fs)
    (hnames : ((allSteps ys).map YamlStep.name).Nodup) (hy : y ∈ mainSteps ys)
    (hregular : y.parallel = none) (hcarries : Carries d y s) :
    y.onSuccess = none ∨ y.ensure = none := by
  by_contra hboth
  obtain ⟨hsuccess, hensure⟩ := not_or.mp hboth
  obtain ⟨e, he⟩ := Option.ne_none_iff_exists'.mp hensure
  obtain ⟨s', ⟨hs', hname⟩, hreaches⟩ := hcarries.hooks e (by simp [YamlStep.hooks, he])
  -- The last link of the way to the hook would be a link to an idle hook.
  obtain ⟨_, -, s'', hs'', -, hlink⟩ := Relation.TransGen.tail'_iff.mp hreaches
  refine h.not_mem_links hnames hy ?_ hs' hname hs'' hlink
  simp [YamlStep.idle, hregular, hsuccess, he]

/-- What is compiled with a main step of which everything can be kept carries all it specifies. -/
theorem Emits.carries_of_keepable (h : Emits F linked ys n ids d.steps fs) (hy : y ∈ mainSteps ys)
    (hkeep : y.Keepable) {x : YamlStep} (hx : x ∈ y.compiled) :
    ∃ s, Generated d x s ∧ Carries d x s := by
  cases h.placed hy with
  | regular b n next hb hsteps =>
    rcases List.mem_cons.mp hx with rfl | hx
    · exact ⟨_, ⟨hsteps _ (by simp [RegularBuild.steps]), congrArg some hb.name⟩,
        hb.carries hsteps (hkeep.ensure hb.regular)⟩
    · -- A hook that specifies nothing but what it runs has nothing to lose.
      have hx : x ∈ y.hooks := by simpa [hb.regular] using hx
      obtain ⟨s, hs, hname, -⟩ := hb.exists_hook hx n next
      exact ⟨s, ⟨hsteps s (List.mem_append_left _ hs), hname⟩, carries_of_plain
        (hkeep.plain hb.regular x hx) (hkeep.nested hb.regular x hx) (b.plain_hookSteps hs).1⟩
  | block children n ids inner fs eb cond next hpar heb hcond _ _ hcontainer =>
    rcases List.mem_cons.mp hx with rfl | hx
    · exact ⟨_, ⟨hcontainer, rfl⟩, containerStep_carries heb hcond (hkeep.block (by simp [hpar]))⟩
    · simp [hpar] at hx

end Kept

/-- **When everything is kept.** What is specified in an accepted workflow gets into the compiled
definition if and only if no parallel block has hooks, the hooks specify nothing but what they run,
and no step has both an `on_success` and an `ensure` hook. -/
theorem compile_keeps (F : Features) (spec : WorkflowSpec) (cw : CompiledWorkflow)
    (hvalid : validate spec = .ok ()) (h : compile F spec = .ok cw) :
    (∀ y ∈ allSteps spec.steps,
      ∃ s, Generated cw.definition y s ∧ Carries cw.definition y s) ↔
    ∀ y ∈ mainSteps spec.steps, y.Keepable := by
  obtain ⟨ids, hemits⟩ := compile_emits h
  have hnames := validate_names hvalid
  -- A step of the specification is compiled with a main step, or dropped with one.
  have hmem {y : YamlStep} : y ∈ allSteps spec.steps ↔
      ∃ m ∈ mainSteps spec.steps, y ∈ m.compiled ∨ y ∈ m.dropped := by
    simp only [(allSteps_perm _).mem_iff, List.mem_flatMap, List.mem_append]
  constructor
  · intro hkept y hy
    have hdropped : y.dropped = [] := by
      refine List.eq_nil_iff_forall_not_mem.mpr fun x hx => ?_
      obtain ⟨s, ⟨hs, hname⟩, -⟩ := hkept x (hmem.mpr ⟨y, hy, .inr hx⟩)
      exact hemits.name_ne_of_dropped hnames hy hx hs hname
    obtain ⟨hblock, hnested⟩ := YamlStep.dropped_eq_nil.mp hdropped
    refine ⟨hblock, hnested, fun hregular hook hhook => ?_, fun hregular => ?_⟩
    · have hcompiled : hook ∈ y.compiled := by simp [YamlStep.compiled, hregular, hhook]
      obtain ⟨s, hs, hcarries⟩ := hkept hook (hmem.mpr ⟨y, hy, .inl hcompiled⟩)
      exact hemits.plain_of_carries hnames hy hregular hhook (hnested hregular hook hhook) hs
        hcarries
    · obtain ⟨s, -, hcarries⟩ := hkept y (hmem.mpr ⟨y, hy, .inl List.mem_cons_self⟩)
      exact hemits.ensure_of_carries hnames hy hregular hcarries
  · intro hkeep y hy
    obtain ⟨m, hm, hy⟩ := hmem.mp hy
    rw [YamlStep.dropped_eq_nil.mpr ⟨(hkeep m hm).block, (hkeep m hm).nested⟩] at hy
    exact hemits.carries_of_keepable hm (hkeep m hm) (hy.resolve_right List.not_mem_nil)

/-- Everything in the release workflow is kept. -/
theorem compile_keeps_release : ∃ cw, validate releaseSpec = .ok () ∧
    compile {} releaseSpec = .ok cw ∧ ∀ y ∈ allSteps releaseSpec.steps,
      ∃ s, Generated cw.definition y s ∧ Carries cw.definition y s := by
  obtain ⟨cw, hcw, -⟩ := compile_any {} releaseSpec (fun _ => true) (by decide +kernel)
  have hvalid : validate releaseSpec = .ok () := by decide
  refine ⟨cw, hvalid, hcw, (compile_keeps {} releaseSpec cw hvalid hcw).mpr fun y hy => ?_⟩
  simp only [releaseSpec, shellStep, mainSteps, YamlStep.withChildren, mainBlock, List.append_nil,
    List.cons_append, List.nil_append, List.mem_cons, List.not_mem_nil, or_false] at hy
  obtain rfl | rfl | rfl | rfl | rfl := hy <;>
    constructor <;> simp [YamlStep.hooks, YamlStep.nested, blockSteps, hookSteps]

/-- A parallel block with an `ensure` hook. -/
def guardedSpec : WorkflowSpec where
  id := "guarded"
  version := 1
  steps := [
    { name := "checks"
      parallel := some [shellStep "lint" "make lint"]
      ensure := some (shellStep "clean" "make clean") }]

/-- The hook is accepted, and no step is generated for it. -/
theorem checks_hook_dropped : ∃ cw, validate guardedSpec = .ok () ∧
    compile {} guardedSpec = .ok cw ∧ shellStep "clean" "make clean" ∈ allSteps guardedSpec.steps ∧
    ∀ s, ¬Generated cw.definition (shellStep "clean" "make clean") s := by
  obtain ⟨cw, hcw, hnames⟩ := compile_any {} guardedSpec
    (fun cw => ∀ s ∈ cw.definition.steps, s.name ≠ some "clean") (by decide)
  refine ⟨cw, by decide, hcw, ?_, fun s ⟨hs, hname⟩ => of_decide_eq_true hnames s hs hname⟩
  simp [guardedSpec, shellStep, allSteps, YamlStep.withNested, blockSteps, hookSteps]

end Wfe
