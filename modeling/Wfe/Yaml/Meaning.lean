import Wfe.Host.Completion
import Wfe.Host.TracedRuns
import Wfe.Yaml.Parallel

/-!
# What compiled workflows do

The meaning of a specification, given by what shows when it runs: its steps run one after another,
each followed by its hook, a step that fails for good ends the list it is in after its failure hook,
and the children of a parallel block run side by side. Since the children of a block are wired like
a sequence, each of them starts a run of its own through all that come after it.

A compiled workflow does nothing else: whatever the bodies return, fail with, wait for or are
retried, a run shows a prefix of what the specification means, and all of it when it is complete.

## Main definitions

* `InTurn`, `SideBySide`: what shows of the steps of a list, and of the children of a block
* `Stands`: a step of a definition stands for a step of the specification

## Main results

* `Emits.meaning`: the traces of a list that has been compiled
* `compiled_runs`: the runs of compiled workflows
-/

namespace Wfe

/-! ## The meaning of a specification -/

/-- The hook after a main step. -/
def YamlStep.hook (y : YamlStep) : Option YamlStep := y.onSuccess <|> y.ensure

/-- How a main step can end without failing. -/
inductive YamlStep.Ends (y : YamlStep) : Act → Prop
  | completes : Ends y .completes
  | skips (h : y.when.isSome = true) : Ends y .skips

/-- How a hook can end. Hooks have no conditions and no hooks. -/
inductive HookEnds : Act → Prop
  | completes : HookEnds .completes
  | fails : HookEnds .fails

/-- What shows of a regular step that ends its list: it fails, and its failure hook runs, or the
hook after it fails. -/
inductive YamlStep.Fails (y : YamlStep) : List (Act × YamlStep) → Prop
  | main (h : y.onFailure = none) : Fails y [(.fails, y)]
  | caught {hook : YamlStep} {a : Act} (h : y.onFailure = some hook) (ha : HookEnds a) :
      Fails y [(.fails, y), (a, hook)]
  | hook {hook : YamlStep} {a : Act} (h : y.hook = some hook) (ha : y.Ends a) :
      Fails y [(a, y), (.fails, hook)]

mutual

/-- What shows of a step after which the next one of its list runs. -/
inductive GoesOn : YamlStep → List (Act × YamlStep) → Prop
  | regular {y : YamlStep} {a : Act} (hy : y.parallel = none) (ha : y.Ends a) :
      GoesOn y ((a, y) :: y.hook.toList.map fun hook => (.completes, hook))
  | skipped {y : YamlStep} {children : List YamlStep} (hy : y.parallel = some children)
      (h : y.when.isSome = true) : GoesOn y [(.skips, y)]
  | empty {y : YamlStep} (hy : y.parallel = some []) : GoesOn y [(.completes, y)]
  | block {y : YamlStep} {children : List YamlStep} {u : List (Act × YamlStep)}
      (hy : y.parallel = some children) (hne : children ≠ []) (hu : SideBySide children u) :
      GoesOn y ((.opens, y) :: (u ++ [(.completes, y)]))

/-- What shows of a list of steps that run one after another. -/
inductive InTurn : List YamlStep → List (Act × YamlStep) → Prop
  | nil : InTurn [] []
  | next {y : YamlStep} {ys : List YamlStep} {u v : List (Act × YamlStep)} (hu : GoesOn y u)
      (hv : InTurn ys v) : InTurn (y :: ys) (u ++ v)
  | stop {y : YamlStep} {ys : List YamlStep} {u : List (Act × YamlStep)} (hy : y.parallel = none)
      (hu : y.Fails u) : InTurn (y :: ys) u

/-- What shows of the children of a block: each starts a run through those after it. -/
inductive SideBySide : List YamlStep → List (Act × YamlStep) → Prop
  | nil : SideBySide [] []
  | cons {y : YamlStep} {ys : List YamlStep} {u t v : List (Act × YamlStep)}
      (hu : InTurn (y :: ys) u) (ht : SideBySide ys t) (hv : Shuffle u t v) : SideBySide (y :: ys) v

end

/-- The step has been compiled or, for a hook, built from `y`. -/
def Stands (F : Features) (d : WorkflowDefinition) (x : Act × YamlStep) (z : Act × Nat) : Prop :=
  x.1 = z.1 ∧ ∃ s, d.findStep z.2 = some s ∧ (CompiledFrom F x.2 s ∨ BuiltFrom F x.2 s)

/-! ## Regular steps -/

section Regular

variable {F : Features} {d : WorkflowDefinition} {b : RegularBuild} {y hook : YamlStep}
  {ys : List YamlStep} {n id : Nat} {next goes : Option Nat} {s : WorkflowStep}
  {v : List (Act × Nat)}

theorem Traces.eq_nil (h : Traces d [] v) : v = [] := by
  cases h
  rfl

theorem traces_singleton : Traces d [id] v ↔ Trace d id v := by
  constructor
  · intro h
    cases h with
    | cons h hs hv =>
      rw [hs.eq_nil] at hv
      rwa [hv.eq_of_nil_right]
  · exact fun h => .cons h .nil (.nil_right v)

/-- `s` is the step of a hook of a regular step, and leads to `goes`. -/
structure HookStep (F : Features) (b : RegularBuild) (n : Nat) (next : Option Nat) (hook : YamlStep)
    (goes : Option Nat) (s : WorkflowStep) : Prop where
  mem : s ∈ b.steps n next
  built : BuiltFrom F hook s
  cond : s.when = none
  compensation : s.compensationStepId = none
  next : s.next = goes

/-- The main step leads to its hook, which leads to the next main step. -/
theorem RegularBuild.Of.leads (hb : b.Of F y) (n : Nat) (next : Option Nat) :
    (y.hook = none ∧ (b.mainStep n next).next = next) ∨
    ∃ hook s, y.hook = some hook ∧ HookStep F b n next hook next s ∧
      (b.mainStep n next).next = some s.id := by
  rcases buildHook_mapM hb.success with
    ⟨hsuccess, hsuccess'⟩ | ⟨hook, built, hsuccess, hsuccess', hbuilt⟩
  · rcases buildHook_mapM hb.ensure with
      ⟨hensure, hensure'⟩ | ⟨hook, built, hensure, hensure', hbuilt⟩
    · refine .inl ⟨by simp [YamlStep.hook, hsuccess, hensure], ?_⟩
      cases next <;> simp [RegularBuild.mainStep, WorkflowStep.next, hsuccess', hensure',
        nextOutcomes]
    · refine .inr ⟨hook, { built.toStep
        (n + 1 + b.failure.toList.length + b.success.toList.length) hook.name with
          outcomes := if b.success.isSome then [] else nextOutcomes next },
        by simp [YamlStep.hook, hsuccess, hensure],
        ⟨List.mem_append_left _ (List.mem_append_right _ ?_), ⟨rfl, built, hbuilt, rfl, rfl⟩, rfl,
          rfl, ?_⟩, ?_⟩
      · simp only [hensure', Option.toList_some, List.map_singleton, List.mem_singleton]
      · cases next <;> simp [WorkflowStep.next, hsuccess', nextOutcomes]
      · simp [RegularBuild.mainStep, WorkflowStep.next, hsuccess', hensure', hookOutcomes,
          RegularBuild.successId, RegularBuild.ensureId]
  · refine .inr ⟨hook, { built.toStep (n + 1 + b.failure.toList.length) hook.name with
        outcomes := nextOutcomes next }, by simp [YamlStep.hook, hsuccess],
      ⟨List.mem_append_left _ (List.mem_append_left _ (List.mem_append_right _ ?_)),
        ⟨rfl, built, hbuilt, rfl, rfl⟩, rfl, rfl, ?_⟩, ?_⟩
    · simp only [hsuccess', Option.toList_some, List.map_singleton, List.mem_singleton]
    · cases next <;> simp [WorkflowStep.next, nextOutcomes]
    · simp [RegularBuild.mainStep, WorkflowStep.next, hsuccess', hookOutcomes,
        RegularBuild.successId]

/-- The failure of the main step leads to its failure hook, which leads nowhere. -/
theorem RegularBuild.Of.failureHook (hb : b.Of F y) (n : Nat) (next : Option Nat) :
    (y.onFailure = none ∧ d.afterFailure (b.mainStep n next) = none) ∨
    ∃ hook s, y.onFailure = some hook ∧ HookStep F b n next hook none s ∧
      d.afterFailure (b.mainStep n next) = some s.id := by
  rcases buildHook_mapM hb.failure with ⟨hnone, hnone'⟩ | ⟨hook, built, hsome, hsome', hbuilt⟩
  · refine .inl ⟨hnone, ?_⟩
    simp [WorkflowDefinition.afterFailure, RegularBuild.mainStep, hnone', RegularBuild.failureId]
  · refine .inr ⟨hook, built.toStep (n + 1) hook.name, hsome,
      ⟨List.mem_append_left _ (List.mem_append_left _ (List.mem_append_left _ ?_)),
        ⟨rfl, built, hbuilt, rfl, rfl⟩, rfl, rfl, rfl⟩, ?_⟩
    · simp only [hsome', Option.toList_some, List.map_singleton, List.mem_singleton]
    · simp [WorkflowDefinition.afterFailure, RegularBuild.mainStep, hsome', RegularBuild.failureId]

theorem HookStep.trace (h : HookStep F b n next hook goes s)
    (hd : ∀ s ∈ b.steps n next, d.findStep s.id = some s) (hv : Trace d s.id v) :
    (∃ v', v = (.completes, s.id) :: v' ∧ Traces d goes.toList v') ∨ v = [(.fails, s.id)] := by
  have hs := hd s h.mem
  cases hv with
  | skipped hs' hwhen hn =>
    obtain rfl := Option.some_inj.mp (hs.symm.trans hs')
    simp [h.cond] at hwhen
  | completed hs' hleaf hn =>
    obtain rfl := Option.some_inj.mp (hs.symm.trans hs')
    rw [h.next] at hn
    exact .inl ⟨_, rfl, hn⟩
  | failed hs' hbody hn =>
    obtain rfl := Option.some_inj.mp (hs.symm.trans hs')
    have hnone : d.afterFailure s = none := by
      simp [WorkflowDefinition.afterFailure, h.compensation]
    rw [hnone] at hn
    rw [hn.eq_nil]
    exact .inr rfl
  | opened hs' hne hu hn =>
    obtain rfl := Option.some_inj.mp (hs.symm.trans hs')
    exact absurd (b.children_eq_nil h.mem) hne

theorem HookStep.stands (h : HookStep F b n next hook goes s)
    (hd : ∀ s ∈ b.steps n next, d.findStep s.id = some s) (a : Act) :
    Stands F d (a, hook) (a, s.id) := ⟨rfl, s, hd s h.mem, .inr h.built⟩

theorem RegularBuild.mainStep_mem (b : RegularBuild) (n : Nat) (next : Option Nat) :
    b.mainStep n next ∈ b.steps n next := List.mem_append_right _ List.mem_cons_self

theorem RegularBuild.Of.stands (hb : b.Of F y)
    (hd : ∀ s ∈ b.steps n next, d.findStep s.id = some s) (a : Act) :
    Stands F d (a, y) (a, n) :=
  ⟨rfl, _, hd _ (b.mainStep_mem n next), .inr (hb.built n next)⟩

/-- After a main step that has ended without failing: its hook, and the steps after it. -/
theorem RegularBuild.Of.ended (hb : b.Of F y)
    (hd : ∀ s ∈ b.steps n next, d.findStep s.id = some s)
    (hnext : ∀ v, Traces d next.toList v → ∃ vs, InTurn ys vs ∧ List.Forall₂ (Stands F d) vs v)
    {a : Act} (ha : y.Ends a) (hv : Traces d (b.mainStep n next).next.toList v) :
    ∃ vs, InTurn (y :: ys) vs ∧ List.Forall₂ (Stands F d) vs ((a, n) :: v) := by
  rcases hb.leads n next with ⟨hnone, hleads⟩ | ⟨hook, s, hsome, hhook, hleads⟩
  · rw [hleads] at hv
    obtain ⟨vs, hvs, hstands⟩ := hnext v hv
    have hgoes := GoesOn.regular hb.regular ha
    rw [hnone] at hgoes
    exact ⟨_, .next hgoes hvs, .cons (hb.stands hd a) hstands⟩
  · rw [hleads, Option.toList_some, traces_singleton] at hv
    rcases hhook.trace hd hv with ⟨v', rfl, hv'⟩ | rfl
    · obtain ⟨vs, hvs, hstands⟩ := hnext v' hv'
      have hgoes := GoesOn.regular hb.regular ha
      rw [hsome] at hgoes
      exact ⟨_, .next hgoes hvs,
        .cons (hb.stands hd a) (.cons (hhook.stands hd .completes) hstands)⟩
    · -- The hook has failed, and the list ends here.
      exact ⟨_, .stop hb.regular (.hook hsome ha),
        .cons (hb.stands hd a) (.cons (hhook.stands hd .fails) .nil)⟩

/-- The traces of a regular step, its hooks and the steps after it. -/
theorem RegularBuild.Of.meaning (hb : b.Of F y)
    (hd : ∀ s ∈ b.steps n next, d.findStep s.id = some s)
    (hnext : ∀ v, Traces d next.toList v → ∃ vs, InTurn ys vs ∧ List.Forall₂ (Stands F d) vs v)
    (hv : Trace d n v) :
    ∃ vs, InTurn (y :: ys) vs ∧ List.Forall₂ (Stands F d) vs v := by
  have hs : d.findStep n = some (b.mainStep n next) := hd _ (b.mainStep_mem n next)
  cases hv with
  | skipped hs' hwhen hn =>
    obtain rfl := Option.some_inj.mp (hs.symm.trans hs')
    refine hb.ended hd hnext (.skips ?_) hn
    -- The condition has been compiled from that of the step.
    cases hy : y.when with
    | none =>
      have hcond := hb.when
      rw [hy] at hcond
      have hnone : none = b.when := Except.ok.inj hcond
      simp [RegularBuild.mainStep, ← hnone] at hwhen
    | some c => rfl
  | completed hs' hleaf hn =>
    obtain rfl := Option.some_inj.mp (hs.symm.trans hs')
    exact hb.ended hd hnext .completes hn
  | failed hs' hbody hn =>
    obtain rfl := Option.some_inj.mp (hs.symm.trans hs')
    rcases hb.failureHook (d := d) n next with ⟨hnone, hleads⟩ | ⟨hook, s, hsome, hhook, hleads⟩
    · rw [hleads] at hn
      rw [hn.eq_nil]
      exact ⟨_, .stop hb.regular (.main hnone), .cons (hb.stands hd .fails) .nil⟩
    · rw [hleads, Option.toList_some, traces_singleton] at hn
      rcases hhook.trace hd hn with ⟨v', rfl, hv'⟩ | rfl
      · rw [hv'.eq_nil]
        exact ⟨_, .stop hb.regular (.caught hsome .completes),
          .cons (hb.stands hd .fails) (.cons (hhook.stands hd .completes) .nil)⟩
      · exact ⟨_, .stop hb.regular (.caught hsome .fails),
          .cons (hb.stands hd .fails) (.cons (hhook.stands hd .fails) .nil)⟩
  | opened hs' hne hu hn =>
    obtain rfl := Option.some_inj.mp (hs.symm.trans hs')
    exact absurd (b.children_eq_nil (b.mainStep_mem n next)) hne

end Regular

/-! ## Lists of steps -/

section Lists

variable {F : Features} {d : WorkflowDefinition} {linked : Bool} {y : YamlStep}
  {children ys : List YamlStep} {n : Nat} {ids : List Nat} {steps : List WorkflowStep}
  {fs : List (String × StepFactory)} {next : Option Nat} {v : List (Act × Nat)}

/-- What the traces of steps mean that have been compiled from `ys`. -/
structure Means (F : Features) (d : WorkflowDefinition) (ys : List YamlStep) (ids : List Nat) :
    Prop where
  inTurn : ∀ v, Traces d ids.head?.toList v → ∃ vs, InTurn ys vs ∧ List.Forall₂ (Stands F d) vs v
  sideBySide : ∀ v, Traces d ids v → ∃ vs, SideBySide ys vs ∧ List.Forall₂ (Stands F d) vs v

/-- Side by side, each child starts a run through those after it. -/
theorem Means.cons (hys : Means F d ys ids)
    (h : ∀ v, Trace d n v → ∃ vs, InTurn (y :: ys) vs ∧ List.Forall₂ (Stands F d) vs v) :
    Means F d (y :: ys) (n :: ids) := by
  refine ⟨fun v hv => h v (traces_singleton.mp hv), fun v hv => ?_⟩
  cases hv with
  | cons hu ht hv =>
    obtain ⟨us, hus, hu⟩ := h _ hu
    obtain ⟨ts, hts, ht⟩ := hys.sideBySide _ ht
    obtain ⟨vs, hvs, hv⟩ := hv.forall₂ hu ht
    exact ⟨vs, .cons hus hts hvs, hv⟩

/-- The traces of a block and the steps after it. -/
theorem Means.block {childIds : List Nat} {errorBehavior : Option ErrorBehavior}
    {cond : Option StepCondition} (hy : y.parallel = some children)
    (hcond : y.when.mapM compileCondition = .ok cond) (hchildren : Means F d children childIds)
    (hnil : childIds = [] ↔ children = [])
    (hs : d.findStep n = some (containerStep n y.name errorBehavior childIds cond next))
    (hnext : ∀ v, Traces d next.toList v → ∃ vs, InTurn ys vs ∧ List.Forall₂ (Stands F d) vs v)
    (hv : Trace d n v) :
    ∃ vs, InTurn (y :: ys) vs ∧ List.Forall₂ (Stands F d) vs v := by
  have hstands (a : Act) : Stands F d (a, y) (a, n) := by
    refine ⟨rfl, _, hs, .inl ?_⟩
    rw [CompiledFrom, hy]
    exact ⟨rfl, rfl⟩
  have hleads : (containerStep n y.name errorBehavior childIds cond next).next = next := by
    cases next <;> rfl
  cases hv with
  | skipped hs' hwhen hn =>
    obtain rfl := Option.some_inj.mp (hs.symm.trans hs')
    rw [hleads] at hn
    obtain ⟨vs, hvs, hv⟩ := hnext _ hn
    refine ⟨_, .next (.skipped hy ?_) hvs, .cons (hstands .skips) hv⟩
    cases hywhen : y.when with
    | none =>
      rw [hywhen] at hcond
      have hnone : none = cond := Except.ok.inj hcond
      rw [← hnone] at hwhen
      cases hwhen
    | some c => rfl
  | completed hs' hleaf hn =>
    obtain rfl := Option.some_inj.mp (hs.symm.trans hs')
    rw [hleads] at hn
    obtain ⟨vs, hvs, hv⟩ := hnext _ hn
    obtain rfl := hnil.mp hleaf
    exact ⟨_, .next (.empty hy) hvs, .cons (hstands .completes) hv⟩
  | failed hs' hbody hn =>
    obtain rfl := Option.some_inj.mp (hs.symm.trans hs')
    exact absurd rfl hbody
  | opened hs' hne hu hn =>
    obtain rfl := Option.some_inj.mp (hs.symm.trans hs')
    rw [hleads] at hn
    obtain ⟨vs, hvs, hv⟩ := hnext _ hn
    obtain ⟨us, hus, hu⟩ := hchildren.sideBySide _ hu
    refine ⟨_, .next (.block hy (fun h => hne (hnil.mpr h)) hus) hvs, .cons (hstands .opens) ?_⟩
    change List.Forall₂ _ (us ++ [(.completes, y)] ++ vs) _
    rw [List.append_assoc]
    exact List.rel_append hu (.cons (hstands .completes) hv)

/-- **The traces of a list that has been compiled** are what the list means. -/
theorem Emits.meaning (h : Emits F linked ys n ids steps fs) (hlinked : linked = true)
    (hd : ∀ s ∈ steps, d.findStep s.id = some s) : Means F d ys ids := by
  induction h with
  | nil =>
    have hnil (v : List (Act × Nat)) (hv : Traces d [] v) : v = [] := hv.eq_nil
    exact ⟨fun v hv => ⟨[], .nil, hnil v hv ▸ .nil⟩, fun v hv => ⟨[], .nil, hnil v hv ▸ .nil⟩⟩
  | regular hb hys ih =>
    subst hlinked
    have hys := ih rfl fun s hs => hd s (List.mem_append_right _ hs)
    exact hys.cons fun v hv =>
      hb.meaning (fun s hs => hd s (List.mem_append_left _ hs)) hys.inTurn hv
  | block hy heb hcond hchildren hys ihchildren ih =>
    subst hlinked
    have hys := ih rfl fun s hs => hd s (List.mem_append_right _ hs)
    have hkids := ihchildren rfl fun s hs =>
      hd s (List.mem_append_left _ (List.mem_append_left _ hs))
    have hlength := hchildren.compiledFrom.length_eq
    refine hys.cons fun v hv => Means.block hy hcond hkids ?_
      (hd _ (List.mem_append_left _ (List.mem_append_right _ List.mem_cons_self))) hys.inTurn hv
    rw [← List.length_eq_zero_iff, ← List.length_eq_zero_iff, hlength]

/-- The steps of a regular step lead to later ones, by outcomes without values. -/
theorem RegularBuild.forward (b : RegularBuild) {next : Option Nat}
    (hnext : ∀ id ∈ next, n + b.size ≤ id) {s : WorkflowStep} (hs : s ∈ b.steps n next) :
    (∀ r ∈ s.refs, s.id < r) ∧ ∀ o ∈ s.outcomes, o.value = none := by
  revert s
  rcases b with ⟨_, _, _, _, _ | _, _ | _, _ | _⟩ <;> rcases next with _ | id <;>
    simp [steps, hookSteps, mainStep, hookOutcomes, failureId, successId, ensureId, nextOutcomes,
      size, WorkflowStep.refs, BuiltStep.toStep, WorkflowStep.new] at hnext ⊢
  -- What is left are comparisons of ids.
  all_goals grind

/-- What is emitted leads to later steps, by outcomes without values, and its containers are
sequences. -/
theorem Emits.forward (h : Emits F linked ys n ids steps fs) {s : WorkflowStep} (hs : s ∈ steps) :
    (∀ r ∈ s.refs, s.id < r) ∧ (∀ o ∈ s.outcomes, o.value = none) ∧
      (s.children ≠ [] → s.stepType = sequenceKey) := by
  induction h with
  | nil => cases hs
  | @regular linked y ys n b ids steps fs hb hys ih =>
    rcases List.mem_append.mp hs with hs | hs
    · have hnext (id : Nat) (hid : id ∈ (if linked then ids.head? else none)) :
          n + b.size ≤ id := Nat.le_of_eq (hys.next_bounds hid).1.symm
      obtain ⟨hrefs, hvalues⟩ := b.forward hnext hs
      exact ⟨hrefs, hvalues, fun hne => absurd (b.children_eq_nil hs) hne⟩
    · exact ih hs
  | @block linked y children ys n childIds ids inner steps fs fs' eb cond hy heb hcond hchildren hys
      ihchildren ih =>
    rcases List.mem_append.mp hs with hs | hs
    · rcases List.mem_append.mp hs with hs | hs
      · exact ihchildren hs
      · obtain rfl := List.mem_singleton.mp hs
        refine ⟨fun r hr => ?_, fun o ho => ?_, fun _ => rfl⟩
        · -- The children come right after the container, and the next main step after them.
          simp only [WorkflowStep.refs, containerStep, WorkflowStep.new, nextOutcomes,
            List.mem_append, List.map_map, List.mem_map, Option.mem_toList, Function.comp_apply,
            reduceCtorEq, or_false] at hr
          rcases hr with ⟨_, hnext, rfl⟩ | hr
          · have := (hys.next_bounds hnext).1
            change n < _
            omega
          · have := (hchildren.main_bounds hr).1
            change n < _
            omega
        · obtain ⟨_, -, rfl⟩ := List.mem_map.mp ho
          rfl
    · exact ih hs

theorem exists_traces (ids : List Nat) (h : ∀ id ∈ ids, ∃ v, Trace d id v) :
    ∃ v, Traces d ids v := by
  induction ids with
  | nil => exact ⟨[], .nil⟩
  | cons id ids ih =>
    obtain ⟨u, hu⟩ := h id List.mem_cons_self
    obtain ⟨t, ht⟩ := ih fun id hid => h id (List.mem_cons_of_mem _ hid)
    exact ⟨u ++ t, .cons hu ht (.append u t)⟩

/-- If every step leads to later ones, every step has a trace. -/
theorem exists_trace (hclosed : d.Closed) (hforward : ∀ s ∈ d.steps, ∀ r ∈ s.refs, s.id < r)
    {s : WorkflowStep} {N : Nat} (hN : ∀ s ∈ d.steps, s.id < N) (k : Nat) {id : Nat}
    (hs : d.findStep id = some s) (hk : N ≤ id + k) : ∃ v, Trace d id v := by
  induction k generalizing id s with
  | zero =>
    have := hN s (List.mem_of_find?_eq_some hs)
    rw [d.findStep_id hs] at this
    omega
  | succ k ih =>
    have hmem := List.mem_of_find?_eq_some hs
    have href (r : Nat) (hr : r ∈ s.refs) : ∃ v, Trace d r v := by
      obtain ⟨s', hs'⟩ := Option.isSome_iff_exists.mp (hclosed s hmem r hr)
      have := hforward s hmem r hr
      rw [d.findStep_id hs] at this
      exact ih hs' (by omega)
    obtain ⟨n, hn⟩ := exists_traces s.next.toList fun r hr => href r (by
      obtain ⟨o, ho, rfl⟩ := Option.map_eq_some_iff.mp (Option.mem_toList.mp hr)
      exact List.mem_append_left _ (List.mem_append_left _
        (List.mem_map_of_mem (List.mem_of_head? ho))))
    by_cases hchildren : s.children = []
    · exact ⟨_, .completed hs hchildren hn⟩
    · obtain ⟨u, hu⟩ := exists_traces s.children fun r hr => href r
        (List.mem_append_left _ (List.mem_append_right _ hr))
      exact ⟨_, .opened hs hchildren hu hn⟩

end Lists

/-! ## Runs of compiled workflows -/

section Compiled

variable {F : Features} {spec : WorkflowSpec} {cw : CompiledWorkflow} {w : WorkflowInstance}

theorem compile_plain (h : compile F spec = .ok cw) : cw.definition.Plain := by
  obtain ⟨ids, hemits⟩ := compile_emits h
  exact ⟨fun s hs => (hemits.forward hs).2.1, fun s hs => (hemits.forward hs).2.2⟩

theorem compile_refs (h : compile F spec = .ok cw) : cw.definition.Closed := by
  obtain ⟨ids, hemits⟩ := compile_emits h
  exact fun s hs r hr => findStep_isSome.mpr (hemits.refs hs hr)

/-- The pointers of an instance of a compiled workflow are at steps of it. -/
theorem compiled_findStep (h : compile F spec = .ok cw) (hw : Reachable cw.definition w)
    {p : ExecutionPointer} (hp : p ∈ w.executionPointers) :
    (cw.definition.findStep p.stepId).isSome = true := by
  obtain ⟨ids, hemits⟩ := compile_emits h
  refine hw.forall_pointers (N := fun p => (cw.definition.findStep p.stepId).isSome = true)
    (fun p q hp hlater => by rwa [hlater.stepId])
    (fun p q _ hspawned => hspawned.findStep (compile_refs h)) ?_ p hp
  intro w hw p hp
  rcases hw.pointers with ⟨-, hnil⟩ | ⟨p', hsteps, hp', hid, -⟩
  · simp [hnil] at hp
  · obtain rfl : p = p' := by simpa [hp'] using hp
    rw [hid, findStep_isSome, hemits.mem_ids]
    exact ⟨Nat.le_refl 0, by simpa using List.length_pos_iff.mpr hsteps⟩

/-- Every step of a compiled workflow has a trace. -/
theorem compiled_trace (h : compile F spec = .ok cw) {id : Nat} {s : WorkflowStep}
    (hs : cw.definition.findStep id = some s) : ∃ v, Trace cw.definition id v := by
  obtain ⟨ids, hemits⟩ := compile_emits h
  refine exists_trace (compile_refs h) (fun s hs => (hemits.forward hs).1) (fun s hs => ?_)
    cw.definition.steps.length hs (Nat.le_add_left _ _)
  have hlt := (hemits.mem_ids.mp (List.mem_map_of_mem hs)).2
  rwa [Nat.zero_add] at hlt

/-- What shows of a run, followed by what can still show, is something the specification means. When
all pointers are done, nothing can. -/
theorem compiled_shows (h : compile F spec = .ok cw) {w₀ : WorkflowInstance} {changes : List Change}
    (hstarted : Started cw.definition w₀) (hlives : Lives cw.definition w₀ changes w)
    (hcontained : ∀ c ∈ changes, c.Contained cw.definition sequences) (hids : w.pointerIds.Nodup) :
    ∃ vs v, InTurn spec.steps vs ∧
      List.Forall₂ (Stands F cw.definition) vs
        ((turnsOf changes).flatMap (Turn.acts cw.definition) ++ v) ∧
      ((∀ p ∈ w.executionPointers, p.status.isDone = true) → v = []) := by
  obtain ⟨ids, hemits⟩ := compile_emits h
  have hreachable : Reachable cw.definition w := ⟨w₀, hstarted, hlives.evolves⟩
  have hstart : cw.definition.start = ids.head?.toList := by
    rw [WorkflowDefinition.start]
    cases hsteps : spec.steps with
    | nil =>
      rw [hsteps] at hemits
      generalize cw.definition.steps = steps, cw.stepFactories = fs at hemits
      cases hemits
      rfl
    | cons y ys =>
      obtain ⟨s, hs, -⟩ := (hsteps ▸ hemits).head
      rw [if_neg (List.ne_nil_of_mem hs), hemits.head_ids (by simp [hsteps])]
      rfl
  -- Every pointer is at a step, and what can still come of it is a trace of that step.
  obtain ⟨v, hv, hdone⟩ := hlives.traces hstarted (compile_plain h) hcontained hids fun q hq => by
    obtain ⟨s, hs⟩ := Option.isSome_iff_exists.mp (compiled_findStep h hreachable hq)
    refine ⟨s, hs, compiled_trace h hs, exists_traces _ fun r hr => ?_⟩
    obtain ⟨o, ho, rfl⟩ := Option.map_eq_some_iff.mp (Option.mem_toList.mp hr)
    obtain ⟨s', hs'⟩ := Option.isSome_iff_exists.mp (compile_refs h s (List.mem_of_find?_eq_some hs)
      o.nextStep (List.mem_append_left _ (List.mem_append_left _
        (List.mem_map_of_mem (List.mem_of_head? ho)))))
    exact compiled_trace h hs'
  rw [hstart] at hv
  obtain ⟨vs, hvs, hstands⟩ :=
    (hemits.meaning rfl fun s hs => Table.get_of_mem hemits.nodup hs).inTurn _ hv
  exact ⟨vs, v, hvs, hstands, hdone⟩

end Compiled

/-- **Compiled workflows do what their specification means.** Whatever the bodies of the steps do,
whichever hosts make the passes and however events come in: what shows of a run is the beginning of
something the specification means, and the whole of it if the workflow is complete. -/
theorem compiled_runs (F : Features) (spec : WorkflowSpec) (cw : CompiledWorkflow)
    (h : compile F spec = .ok cw) (w₀ w : WorkflowInstance) (changes : List Change)
    (hstarted : Started cw.definition w₀) (hlives : Lives cw.definition w₀ changes w)
    (hcontained : ∀ c ∈ changes, c.Contained cw.definition sequences) (hids : w.pointerIds.Nodup) :
    ∃ vs, InTurn spec.steps vs ∧ ∃ us, us <+: vs ∧
      List.Forall₂ (Stands F cw.definition) us
        ((turnsOf changes).flatMap (Turn.acts cw.definition)) ∧
      (w.status = .complete → us = vs) := by
  obtain ⟨vs, v, hvs, hstands, hdone⟩ := compiled_shows h hstarted hlives hcontained hids
  refine ⟨vs, hvs, _, List.take_prefix _ vs, List.forall₂_take_append _ _ _ hstands,
    fun hcomplete => ?_⟩
  -- Nothing can come any more of a workflow that is complete.
  have hreachable : Reachable cw.definition w := ⟨w₀, hstarted, hlives.evolves⟩
  rw [hdone (hreachable.finished hcomplete).2, List.append_nil] at hstands
  exact List.take_of_length_le (Nat.le_of_eq hstands.length_eq)

/-- The block of two children runs to its end: the second child runs beside the first one, and once
more after it. -/
theorem compiled_runs_checks : ∃ cw, compile {} checksSpec = .ok cw ∧
    ∃ changes w vs, Lives cw.definition (startOf cw.definition) changes w ∧ w.status = .complete ∧
      (turnsOf changes).flatMap (Turn.acts cw.definition) =
        [(.opens, 0), (.completes, 1), (.completes, 2), (.completes, 2), (.completes, 0)] ∧
      InTurn checksSpec.steps vs ∧ List.Forall₂ (Stands {} cw.definition) vs
        ((turnsOf changes).flatMap (Turn.acts cw.definition)) := by
  obtain ⟨cw, hcw, hrun⟩ := compile_any {} checksSpec
    (fun cw => (Simulation.history cw.definition (startOf cw.definition)
      [.pass proceeding "d", .pass proceeding "c", .pass proceeding "b", .pass proceeding "a"]).any
      (Function.uncurry fun changes w => w.pointerIds.Nodup ∧ w.status = .complete ∧
        (∀ change ∈ changes, ∀ t ∈ change.turns, t.Steady cw.definition) ∧
        (turnsOf changes).flatMap (Turn.acts cw.definition) =
          [(.opens, 0), (.completes, 1), (.completes, 2), (.completes, 2), (.completes, 0)]))
    (by decide)
  obtain ⟨⟨changes, w⟩, hhistory, hw⟩ := (Option.any_eq_true _ _).mp hrun
  obtain ⟨hids, hcomplete, hsteady, hacts⟩ := of_decide_eq_true hw
  have hlives := Simulation.history_sound hhistory
  have hcontained : ∀ change ∈ changes, change.Contained cw.definition sequences := by
    rintro (⟨resolve, turns⟩ | _) hchange
    · obtain ⟨seed, hseed⟩ := Simulation.history_resolve hhistory hchange
      obtain rfl : resolve = proceeding := by aesop
      exact ⟨sequences_runs, fun t ht _ => hsteady _ hchange t ht⟩
    all_goals trivial
  obtain ⟨vs, hvs, us, -, hus, heq⟩ := compiled_runs {} checksSpec cw hcw _ w changes
    (startOf_started _) hlives hcontained hids
  rw [heq hcomplete] at hus
  exact ⟨cw, hcw, changes, w, vs, hlives, hcomplete, hacts, hvs, hus⟩

end Wfe
