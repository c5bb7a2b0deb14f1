import Mathlib.Data.List.Forall2
import Wfe.Host.Registry
import Wfe.Yaml.Kept

/-!
# Registration of compiled workflows

A server registers the factories of a compiled workflow in the step registry of its host, one after
another, and then its definition. The key of a factory is made of the kind of its executor and the
name of its step. Names are distinct within one workflow, but not over all the workflows that a host
knows, and a factory replaces the one registered before under its key.

## Main definitions

* `executedSteps`: the steps that are given a factory
* `HostRegistries.registerWorkflow`: what a host does with a compiled workflow
* `LoadedWorkflow`: a workflow that was accepted and compiled
* `Configures`: what a workflow says of a kind of step and a name

## Main results

* `ExecutorKind.key_inj`: keys are distinct
* `Emits.factories`: the factories of a compiled workflow
* `own_configuration`: when a step runs its own configuration
* `foreign_configuration`: a step that does not
-/

namespace Wfe

/-- The kind of executor that a factory builds. -/
def StepFactory.kind : StepFactory → ExecutorKind
  | shell _ => .shell
  | deno _ => .deno
  | buildkit _ => .buildkit
  | containerd _ => .containerd
  | kubernetes _ _ => .kubernetes
  | cargo _ => .cargo
  | rustup _ => .rustup
  | gitRepo _ => .gitRepo
  | workflow _ => .workflow

/-- The steps that are given a factory with a main step. -/
def YamlStep.executed (y : YamlStep) : List YamlStep :=
  if y.parallel.isSome then [] else y.hooks ++ [y]

def executedSteps (ys : List YamlStep) : List YamlStep := (mainSteps ys).flatMap YamlStep.executed

/-! ## Keys -/

section Keys

variable {F : Features} {y : YamlStep} {b : BuiltStep}

/-- Different kinds and names have different keys. -/
theorem ExecutorKind.key_inj {kind kind' : ExecutorKind} {name name' : String}
    (h : kind.key name = kind'.key name') : kind = kind' ∧ name = name' := by
  have h' := congrArg String.toList h
  cases kind <;> cases kind' <;>
    simp [ExecutorKind.key, ExecutorKind.asStr, String.toList_append] at h' ⊢
  all_goals exact String.toList_inj.mp h'

/-- The key of a built step is made of its kind and its name. -/
theorem buildStep_key (h : buildStep F y = .ok b) : b.key = b.factory.kind.key y.name := by
  -- Every branch ends by returning the key made of its own kind.
  have hret {α : Type} {x : Compiled α} {f : α → BuiltStep}
      (hf : ∀ a, (f a).key = (f a).factory.kind.key y.name)
      (h : (x >>= fun a => pure (f a)) = .ok b) : b.key = b.factory.kind.key y.name := by
    obtain ⟨a, -, h⟩ := Compiled.bind_eq_ok.mp h
    cases h
    exact hf a
  unfold buildStep buildStepConfigAndFactory at h
  simp only at h
  split at h
  · exact hret (fun _ => rfl) h
  -- The executors behind a feature flag.
  iterate 5
    · split_ifs at h
      exact hret (fun _ => rfl) h
  · exact hret (fun _ => rfl) h
  · exact hret (fun _ => rfl) h
  · split_ifs at h
    split at h
    · cases h
      rfl
    · cases h
      rfl
    · cases h

end Keys

/-! ## The factories of a compiled workflow -/

section Factories

variable {F : Features} {linked : Bool} {ys : List YamlStep} {y : YamlStep} {n : Nat}
  {ids : List Nat} {steps : List WorkflowStep} {fs : List (String × StepFactory)}

/-- `kf` is the factory of `y`, with its key. -/
def FactoryOf (F : Features) (y : YamlStep) (kf : String × StepFactory) : Prop :=
  ∃ b, buildStep F y = .ok b ∧ kf = (b.key, b.factory)

theorem buildHook_mapM_factory {hook : Option YamlStep} {b : Option (String × BuiltStep)}
    (h : hook.mapM (buildHook F) = .ok b) : List.Forall₂ (FactoryOf F) hook.toList
      (b.toList.map fun h => (h.2.key, h.2.factory)) := by
  rcases buildHook_mapM h with ⟨rfl, rfl⟩ | ⟨y, built, rfl, rfl, hbuilt⟩
  · exact .nil
  · exact .cons ⟨built, hbuilt, rfl⟩ .nil

/-- The factories of a compiled workflow are those of the steps it executes, in this order. -/
theorem Emits.factories (h : Emits F linked ys n ids steps fs) :
    List.Forall₂ (FactoryOf F) ((mainSteps ys).flatMap YamlStep.executed) fs := by
  induction h with
  | nil => exact .nil
  | regular hb hys ih =>
    simp only [mainSteps, YamlStep.withChildren_eq, hb.regular, mainBlock, List.flatMap_append,
      List.flatMap_singleton]
    refine List.rel_append ?_ ih
    simp only [YamlStep.executed, hb.regular, Option.isSome_none, Bool.false_eq_true, if_false,
      YamlStep.hooks, RegularBuild.factories, List.map_append]
    -- The hooks come before the main step.
    refine List.rel_append (List.rel_append (List.rel_append ?_ ?_) ?_) ?_
    · exact buildHook_mapM_factory hb.failure
    · exact buildHook_mapM_factory hb.success
    · exact buildHook_mapM_factory hb.ensure
    · exact .cons ⟨_, hb.main, rfl⟩ .nil
  | block hy heb hcond hchildren hys ihchildren ih =>
    simp only [mainSteps, YamlStep.withChildren_eq, hy, mainBlock, List.flatMap_append,
      List.flatMap_cons, YamlStep.executed, Option.isSome_some, if_true, List.nil_append]
    exact List.rel_append ihchildren ih

theorem FactoryOf.key {kf : String × StepFactory} (h : FactoryOf F y kf) :
    kf.1 = kf.2.kind.key y.name := by
  obtain ⟨b, hb, rfl⟩ := h
  exact buildStep_key hb

theorem FactoryOf.eq {kf kf' : String × StepFactory} (h : FactoryOf F y kf)
    (h' : FactoryOf F y kf') : kf = kf' := by
  obtain ⟨b, hb, rfl⟩ := h
  obtain ⟨b', hb', rfl⟩ := h'
  cases hb.symm.trans hb'
  rfl

theorem mem_factories (h : List.Forall₂ (FactoryOf F) ys fs) {kf : String × StepFactory} :
    kf ∈ fs ↔ ∃ y ∈ ys, FactoryOf F y kf := by
  induction h with
  | nil => simp
  | cons hy _ ih =>
    simp only [List.mem_cons, ih, exists_eq_or_imp]
    exact or_congr_left ⟨fun h => h ▸ hy, fun h => h.eq hy⟩

/-- Steps with distinct names have factories with distinct keys. -/
theorem factories_nodup (h : List.Forall₂ (FactoryOf F) ys fs)
    (hnames : (ys.map YamlStep.name).Nodup) : (fs.map Prod.fst).Nodup := by
  induction h with
  | nil => exact .nil
  | cons hy hys ih =>
    rw [List.map_cons, List.nodup_cons] at hnames ⊢
    refine ⟨fun hmem => hnames.1 ?_, ih hnames.2⟩
    obtain ⟨kf, hkf, hkey⟩ := List.mem_map.mp hmem
    obtain ⟨y', hy', hfactory⟩ := (mem_factories hys).mp hkf
    obtain ⟨-, hname⟩ := ExecutorKind.key_inj (hfactory.key.symm.trans (hkey.trans hy.key))
    exact hname ▸ List.mem_map_of_mem hy'

theorem executedSteps_nodup (hnames : ((allSteps ys).map YamlStep.name).Nodup) :
    ((executedSteps ys).map YamlStep.name).Nodup := by
  -- What is executed is what is compiled, but for the containers.
  have hperm (y : YamlStep) :
      y.compiled.Perm (y.executed ++ if y.parallel.isSome then [y] else []) := by
    unfold YamlStep.compiled YamlStep.executed
    split_ifs
    · exact .refl _
    · rw [List.append_nil]
      exact (List.perm_append_comm : ([y] ++ y.hooks).Perm (y.hooks ++ [y]))
  have hcompiled := (compiled_dropped_nodup hnames).of_append_left
  have hall : ((mainSteps ys).flatMap YamlStep.compiled).Perm (executedSteps ys ++
      (mainSteps ys).flatMap fun y => if y.parallel.isSome then [y] else []) :=
    (List.Perm.flatMap_left _ fun y _ => hperm y).trans (List.flatMap_append_perm ..).symm
  have hnodup := (hall.map YamlStep.name).nodup_iff.mp hcompiled
  rw [List.map_append] at hnodup
  exact hnodup.of_append_left

/-- A step that is executed is generated, with its own key. -/
theorem Emits.executed (h : Emits F linked ys n ids steps fs) (hy : y ∈ executedSteps ys) :
    ∃ s ∈ steps, BuiltFrom F y s := by
  obtain ⟨m, hm, hy⟩ := List.mem_flatMap.mp hy
  cases h.placed hm with
  | block children n ids inner fs eb cond next hpar => simp [YamlStep.executed, hpar] at hy
  | regular b n next hb hsteps =>
    have hy : y ∈ m.hooks ++ [m] := by simpa [YamlStep.executed, hb.regular] using hy
    rcases List.mem_append.mp hy with hy | hy
    · obtain ⟨s, hs, hbuilt⟩ := hb.exists_hook hy n next
      exact ⟨s, hsteps s (List.mem_append_left _ hs), hbuilt⟩
    · obtain rfl := List.mem_singleton.mp hy
      exact ⟨b.mainStep n next, hsteps _ (by simp [RegularBuild.steps]), congrArg some hb.name,
        b.main, hb.main, rfl, rfl⟩

end Factories

/-! ## Registration -/

/-- The registries of a host. -/
structure HostRegistries where
  definitions : WorkflowRegistry := []
  steps : StepRegistry StepFactory := []

namespace HostRegistries

/-- One round of `register_workflow`: the factories of a compiled workflow, and its definition. -/
def registerWorkflow (r : HostRegistries) (compiled : CompiledWorkflow) : HostRegistries where
  definitions := r.definitions.register compiled.definition
  steps := compiled.stepFactories.foldl (fun reg kf => reg.registerFactory kf.1 kf.2) r.steps

/-- `register_workflow` for the workflows of a file, or of several files. -/
def registerWorkflows (r : HostRegistries) (compiled : List CompiledWorkflow) : HostRegistries :=
  compiled.foldl registerWorkflow r

end HostRegistries

/-- A workflow that was accepted and compiled. -/
structure LoadedWorkflow (F : Features) where
  spec : WorkflowSpec
  compiled : CompiledWorkflow
  valid : validate spec = .ok ()
  compiles : compile F spec = .ok compiled

/-- A workflow has a step of the given kind and name, and configures it for `factory`. -/
def Configures {F : Features} (wf : LoadedWorkflow F) (kind : ExecutorKind) (name : String)
    (factory : StepFactory) : Prop :=
  factory.kind = kind ∧ ∃ y ∈ executedSteps wf.spec.steps, y.name = name ∧
    ∃ b, buildStep F y = .ok b ∧ b.factory = factory

section Registration

variable {F : Features} {wf : LoadedWorkflow F} {kind : ExecutorKind} {name : String}
  {factory : StepFactory} {reg : StepRegistry StepFactory} {fs : List (String × StepFactory)}
  {k : String}

/-- What a workflow configures is what it registers. -/
theorem configures_iff : Configures wf kind name factory ↔
    (kind.key name, factory) ∈ wf.compiled.stepFactories := by
  obtain ⟨ids, hemits⟩ := compile_emits wf.compiles
  rw [mem_factories hemits.factories]
  constructor
  · rintro ⟨rfl, y, hy, rfl, b, hb, rfl⟩
    exact ⟨y, hy, b, hb, by rw [buildStep_key hb]⟩
  · rintro ⟨y, hy, b, hb, heq⟩
    obtain ⟨hkey, rfl⟩ := Prod.mk.inj heq
    obtain ⟨rfl, rfl⟩ := ExecutorKind.key_inj (hkey.trans (buildStep_key hb))
    exact ⟨rfl, y, hy, rfl, b, hb, rfl⟩

theorem LoadedWorkflow.keys_nodup (wf : LoadedWorkflow F) :
    (wf.compiled.stepFactories.map Prod.fst).Nodup := by
  obtain ⟨ids, hemits⟩ := compile_emits wf.compiles
  exact factories_nodup hemits.factories (executedSteps_nodup (validate_names wf.valid))

/-- Factories under other keys leave a key alone. -/
theorem resolve_foldl_of_not_mem (h : k ∉ fs.map Prod.fst) :
    (fs.foldl (fun reg kf => reg.registerFactory kf.1 kf.2) reg).resolve k = reg.resolve k := by
  have hnone : Table.get Prod.fst fs.reverse k = none :=
    Table.get_eq_none.mpr fun kf hkf hkey =>
      h (hkey ▸ List.mem_map_of_mem (List.mem_reverse.mp hkf))
  rw [StepRegistry.resolve_foldl, StepRegistry.resolve, hnone, Option.map_none, Option.none_or]

/-- With distinct keys, each factory is found under its key. -/
theorem resolve_foldl_of_mem (hnodup : (fs.map Prod.fst).Nodup) (h : (k, factory) ∈ fs) :
    (fs.foldl (fun reg kf => reg.registerFactory kf.1 kf.2) reg).resolve k = some factory := by
  have hsome : Table.get Prod.fst fs.reverse k = some (k, factory) :=
    Table.get_of_mem (by rwa [List.map_reverse, List.nodup_reverse]) (List.mem_reverse.mpr h)
  rw [StepRegistry.resolve_foldl, StepRegistry.resolve, hsome, Option.map_some, Option.some_or]

/-- Workflows without a step of a kind and name leave its key alone. -/
theorem resolve_registerWorkflows_of_forall_not {r : HostRegistries} {wfs : List (LoadedWorkflow F)}
    (h : ∀ wf ∈ wfs, ∀ factory, ¬Configures wf kind name factory) :
    (r.registerWorkflows (wfs.map LoadedWorkflow.compiled)).steps.resolve (kind.key name) =
      r.steps.resolve (kind.key name) := by
  induction wfs generalizing r with
  | nil => rfl
  | cons wf wfs ih =>
    obtain ⟨hwf, hwfs⟩ := List.forall_mem_cons.mp h
    refine (ih hwfs).trans (resolve_foldl_of_not_mem fun hmem => ?_)
    obtain ⟨⟨_, factory⟩, hmem, rfl⟩ := List.mem_map.mp hmem
    exact hwf factory (configures_iff.mpr hmem)

/-- The last workflow with a step of a kind and name decides what is found under its key. -/
theorem resolve_registerWorkflows_last {r : HostRegistries} {before after : List (LoadedWorkflow F)}
    (h : Configures wf kind name factory)
    (hafter : ∀ wf ∈ after, ∀ factory, ¬Configures wf kind name factory) :
    (r.registerWorkflows ((before ++ wf :: after).map LoadedWorkflow.compiled)).steps.resolve
      (kind.key name) = some factory := by
  have hsplit : r.registerWorkflows ((before ++ wf :: after).map LoadedWorkflow.compiled) =
      ((r.registerWorkflows (before.map LoadedWorkflow.compiled)).registerWorkflow
        wf.compiled).registerWorkflows (after.map LoadedWorkflow.compiled) := by
    simp [HostRegistries.registerWorkflows]
  rw [hsplit, resolve_registerWorkflows_of_forall_not hafter]
  exact resolve_foldl_of_mem wf.keys_nodup (configures_iff.mp h)

/-- Some workflow is the last one with a step of a kind and name, or none has one. -/
theorem exists_last_configures (wfs : List (LoadedWorkflow F)) (kind : ExecutorKind)
    (name : String) : (∀ wf ∈ wfs, ∀ factory, ¬Configures wf kind name factory) ∨
      ∃ before wf after factory, wfs = before ++ wf :: after ∧ Configures wf kind name factory ∧
        ∀ wf ∈ after, ∀ factory, ¬Configures wf kind name factory := by
  induction wfs with
  | nil => exact .inl (by simp)
  | cons wf wfs ih =>
    rcases ih with hnone | ⟨before, wf', after, factory, rfl, hlast⟩
    · by_cases h : ∃ factory, Configures wf kind name factory
      · obtain ⟨factory, h⟩ := h
        exact .inr ⟨[], wf, wfs, factory, rfl, h, hnone⟩
      · exact .inl (List.forall_mem_cons.mpr ⟨not_exists.mp h, hnone⟩)
    · exact .inr ⟨wf :: before, wf', after, factory, rfl, hlast⟩

end Registration

/-- **When a step runs its own configuration.** Of the workflows that are registered after that of a
step, let the last one that has a step of the same kind and name be considered. The step type of
the step is resolved to its own configuration if and only if there is no such workflow, or it
configures its step in the same way. -/
theorem own_configuration (F : Features) (r : HostRegistries) (earlier : List (LoadedWorkflow F))
    (wf : LoadedWorkflow F) (later : List (LoadedWorkflow F)) (y : YamlStep)
    (hy : y ∈ executedSteps wf.spec.steps) (s : WorkflowStep)
    (hs : Generated wf.compiled.definition y s) (b : BuiltStep) (hb : buildStep F y = .ok b) :
    (r.registerWorkflows ((earlier ++ wf :: later).map LoadedWorkflow.compiled)).steps.resolve
      s.stepType = some b.factory ↔
    ∀ before wf' after factory, later = before ++ wf' :: after →
      Configures wf' b.factory.kind y.name factory →
      (∀ wf'' ∈ after, ∀ factory', ¬Configures wf'' b.factory.kind y.name factory') →
      factory = b.factory := by
  -- The step generated for `y` has the key of its factory.
  have hkey : s.stepType = b.factory.kind.key y.name := by
    obtain ⟨ids, hemits⟩ := compile_emits wf.compiles
    obtain ⟨s', hs', hname, built, hbuilt, htype, -⟩ := hemits.executed hy
    obtain rfl : s = s' :=
      hemits.eq_of_name (validate_names wf.valid) hs.1 hs' (hs.2.trans hname.symm)
    cases hb.symm.trans hbuilt
    rw [htype, buildStep_key hb]
  have hown : Configures wf b.factory.kind y.name b.factory := ⟨rfl, y, hy, rfl, b, hb, rfl⟩
  rw [hkey]
  constructor
  · rintro hresolve before wf' after factory rfl hconf hafter
    have hlast : earlier ++ wf :: (before ++ wf' :: after) =
        (earlier ++ wf :: before) ++ wf' :: after := by simp
    rw [hlast, resolve_registerWorkflows_last hconf hafter] at hresolve
    exact Option.some_inj.mp hresolve
  · intro hsame
    -- The last workflow that registers the key decides, this one or a later one.
    rcases exists_last_configures later b.factory.kind y.name with
      hnone | ⟨before, wf', after, factory, rfl, hconf, hafter⟩
    · exact resolve_registerWorkflows_last hown hnone
    · have hlast : earlier ++ wf :: (before ++ wf' :: after) =
          (earlier ++ wf :: before) ++ wf' :: after := by simp
      rw [hlast, resolve_registerWorkflows_last hconf hafter,
        hsame before wf' after factory rfl hconf hafter]

/-- A workflow with one step, that runs a command. -/
def makeSpec (id run : String) : WorkflowSpec where
  id := id
  version := 1
  steps := [shellStep "build" run]

theorem executedSteps_makeSpec (id run : String) :
    executedSteps (makeSpec id run).steps = [shellStep "build" run] := rfl

/-- Two workflows with the same step: that of the first one runs its own configuration. -/
theorem own_configuration_make : ∃ (wf wf' : LoadedWorkflow {}) (s : WorkflowStep) (b : BuiltStep),
    wf.spec = makeSpec "a" "make" ∧ wf'.spec = makeSpec "b" "make" ∧
    Generated wf.compiled.definition (shellStep "build" "make") s ∧
    buildStep {} (shellStep "build" "make") = .ok b ∧
    (HostRegistries.registerWorkflows {} [wf.compiled, wf'.compiled]).steps.resolve s.stepType =
      some b.factory := by
  obtain ⟨a, ha, hname⟩ := compile_any {} (makeSpec "a" "make")
    (fun cw => ∃ s ∈ cw.definition.steps, s.name = some "build") (by decide)
  obtain ⟨a', ha', -⟩ := compile_any {} (makeSpec "b" "make") (fun _ => true) (by decide)
  obtain ⟨s, hs⟩ := of_decide_eq_true hname
  let wf : LoadedWorkflow {} := ⟨makeSpec "a" "make", a, by decide, ha⟩
  let wf' : LoadedWorkflow {} := ⟨makeSpec "b" "make", a', by decide, ha'⟩
  obtain ⟨b, hb⟩ : ∃ b, buildStep {} (shellStep "build" "make") = .ok b := ⟨_, rfl⟩
  have hmem : shellStep "build" "make" ∈ executedSteps wf.spec.steps := List.mem_cons_self
  refine ⟨wf, wf', s, b, rfl, rfl, hs, hb,
    (own_configuration {} {} [] wf [wf'] _ hmem s hs b hb).mpr ?_⟩
  -- The workflow registered later configures its step in the same way.
  rintro before wf'' after factory hlater ⟨-, y, hy, -, b', hb', rfl⟩ -
  obtain rfl : wf' = wf'' := by
    have hmem : wf'' ∈ [wf'] := hlater ▸ List.mem_append_right _ List.mem_cons_self
    exact (List.mem_singleton.mp hmem).symm
  obtain rfl := List.mem_singleton.mp (executedSteps_makeSpec "b" "make" ▸ hy)
  cases hb.symm.trans hb'
  rfl

/-- Two workflows with steps of the same name: that of the first one runs the command of the second
one. -/
theorem foreign_configuration : ∃ (wf wf' : LoadedWorkflow {}) (s : WorkflowStep)
    (config : ShellConfig), wf.spec = makeSpec "a" "make a" ∧ wf'.spec = makeSpec "b" "make b" ∧
    Generated wf.compiled.definition (shellStep "build" "make a") s ∧
    (HostRegistries.registerWorkflows {} [wf.compiled, wf'.compiled]).steps.resolve s.stepType =
      some (.shell config) ∧ config.run = "make b" := by
  obtain ⟨a, ha, hrest⟩ := compile_any {} (makeSpec "a" "make a") (fun a =>
    (compile {} (makeSpec "b" "make b")).toOption.any fun a' =>
      ∃ s ∈ a.definition.steps, s.name = some "build" ∧
        ((HostRegistries.registerWorkflows {} [a, a']).steps.resolve s.stepType).any fun
          | .shell config => config.run = "make b"
          | _ => false) (by decide)
  obtain ⟨a', ha', hresolve⟩ := compile_any {} (makeSpec "b" "make b") _ hrest
  obtain ⟨s, hs, hname, hfound⟩ := of_decide_eq_true hresolve
  obtain ⟨factory, hfactory, hrun⟩ := (Option.any_eq_true _ _).mp hfound
  split at hrun
  · exact ⟨⟨_, a, by decide, ha⟩, ⟨_, a', by decide, ha'⟩, s, _, rfl, rfl,
      ⟨hs, hname⟩, hfactory, of_decide_eq_true hrun⟩
  · cases hrun

end Wfe
