import Wfe.Builder.InlineSteps
import Wfe.Host.Stories
import Wfe.Yaml.References

/-!
# The names of pointers

A pointer keeps a copy of the name of its step. All sites that create pointers later in a run look
the name up by the id of the step; the initial pointer stands at step 0, but gets the name of the
step that is listed first, or no name at all if a workflow starts it. The compiler lists a step
after its hooks, and a parallel block after its children.

## Main definitions

* `DefinitionSource`: the compiler and the builder, with what they make
* `AlwaysNamed`: pointers have the names of their steps, all through a run

## Main results

* `alwaysNamed_iff`: a run has to begin with the right name
* `step_names_iff`: when it does, for each source and each way of starting a run
-/

namespace Wfe

open Program Provider

/-- The pointer has the name of its step. -/
def ExecutionPointer.Named (d : WorkflowDefinition) (p : ExecutionPointer) : Prop :=
  p.stepName = d.stepName p.stepId

/-- In every run from `w₀` on, all pointers have the names of their steps. -/
def AlwaysNamed (d : WorkflowDefinition) (w₀ : WorkflowInstance) : Prop :=
  ∀ changes w, Lives d w₀ changes w → ∀ p ∈ w.executionPointers, p.Named d

/-! ## Names during a run -/

section Runs

variable {definition : WorkflowDefinition} {resolve : StepResolver} {host : Option HostContext}
  {w w₀ : WorkflowInstance} {i : Nat} {step : WorkflowStep} {p p' : ExecutionPointer} {r : Ran}
  {new l₀ l : List ExecutionPointer} {gs : List Given}

theorem successorPointer_named (id : String) (stepId : Nat) (p : ExecutionPointer) :
    (successorPointer id stepId p definition).Named definition := rfl

theorem childPointers_named (uuid : Nat → String) (values : List Json) (children : List Nat)
    (p : ExecutionPointer) :
    ∀ q ∈ childPointers uuid values children p definition, q.Named definition := by
  intro q hq
  obtain ⟨k, hk, rfl⟩ := List.mem_mapIdx.mp hq
  rfl

/-- A result keeps the name of its pointer, and names what it creates. -/
theorem processResult_named (env : Ambient) (result : ExecutionResult) (p : ExecutionPointer)
    (workflowId : String) :
    (processResult env result p definition workflowId).1.stepName = p.stepName ∧
      ∀ q ∈ (processResult env result p definition workflowId).2.newPointers,
        q.Named definition := by
  unfold processResult
  split
  · refine ⟨rfl, fun q hq => ?_⟩
    obtain ⟨id, -, rfl⟩ := List.mem_map.mp hq
    exact successorPointer_named ..
  split
  · exact ⟨rfl, childPointers_named _ _ _ p⟩
  -- Nothing else creates pointers.
  · repeat' split
    all_goals exact ⟨rfl, List.forall_mem_nil _⟩

theorem handleError_named (env : Ambient) (p : ExecutionPointer) :
    (handleError env p definition).1.stepName = p.stepName ∧
      ∀ q ∈ (handleError env p definition).2.newPointers, q.Named definition := by
  unfold handleError
  split
  · split_ifs <;> exact ⟨rfl, List.forall_mem_nil _⟩
  · exact ⟨rfl, List.forall_mem_nil _⟩
  · exact ⟨rfl, List.forall_mem_nil _⟩
  · refine ⟨rfl, fun q hq => ?_⟩
    obtain ⟨id, -, rfl⟩ := List.mem_map.mp hq
    exact successorPointer_named ..

/-- A turn keeps the name of its pointer, and names what it creates. -/
theorem Turned.named (h : Turned definition resolve host w i step p r p' new) :
    p'.stepName = p.stepName ∧ ∀ q ∈ new, q.Named definition := by
  cases h with
  | skipped env hwhen =>
    refine ⟨rfl, fun q hq => ?_⟩
    obtain ⟨o, -, rfl⟩ := List.mem_map.mp hq
    exact successorPointer_named ..
  | returned env env' hbody hyields => exact processResult_named env' _ (startPointer env p) w.id
  | failed env env' hbody hyields => exact handleError_named env' (startPointer env p)

theorem ExecutionPointer.Woken.stepName (h : p.Woken p') : p'.stepName = p.stepName := by
  cases h <;> rfl

/-- If all pointers have the right names at first, so they do later on. -/
theorem Story.named (h : Story definition l₀ gs l) (hl₀ : ∀ p ∈ l₀, p.Named definition) :
    ∀ p ∈ l, p.Named definition := by
  induction h with
  | nil => exact hl₀
  | @woken gs l f _ hf ih =>
    intro q hq
    obtain ⟨p, hp, rfl⟩ := List.mem_map.mp hq
    have hnamed := ih p hp
    rwa [ExecutionPointer.Named, (hf p).stepName, (hf p).later.stepId]
  | turn _ hturn ih =>
    obtain ⟨hv, hpointer, -, -, hturned⟩ := hturn
    obtain ⟨hname, hnew⟩ := hturned.named
    intro q hq
    rcases List.mem_append.mp hq with hq | hq
    · rcases List.mem_or_eq_of_mem_set hq with hq | rfl
      · exact ih q hq
      · -- The pointer of the turn keeps its step as well.
        have hnamed := ih _ (List.mem_of_getElem? hpointer)
        rwa [ExecutionPointer.Named, hname, hturned.later.stepId]
    · exact hnew q hq

/-- The pointers of a run have the right names if and only if the initial one has. -/
theorem alwaysNamed_iff :
    AlwaysNamed definition w₀ ↔ ∀ p ∈ w₀.executionPointers, p.Named definition :=
  ⟨fun h => h [] w₀ .nil, fun h _ _ hlives => hlives.story.named h⟩

/-! ## Names at the start -/

/-- An application's run: the initial pointer gets the name of the step that is listed first. -/
theorem newInstance_alwaysNamed_iff (env : Ambient) (definitionId : String) (version : Nat)
    (data : Json) (name : String) :
    AlwaysNamed definition
        { WorkflowHost.newInstance env definition definitionId version data with name := name } ↔
      definition.steps.head?.bind WorkflowStep.name = definition.stepName 0 := by
  rw [alwaysNamed_iff, WorkflowHost.newInstance]
  by_cases hsteps : definition.steps = []
  · simp [hsteps, WorkflowDefinition.stepName, WorkflowDefinition.findStep]
  · rw [if_neg hsteps, List.forall_mem_singleton]
    rfl

/-- A child: the initial pointer gets no name. -/
theorem newChild_alwaysNamed_iff (env : Ambient) (definitionId : String) (version : Nat)
    (data : Json) (parentRoot : Option String) (name : String) :
    AlwaysNamed definition { WorkflowHost.newChild env definition definitionId version data
        parentRoot with name := name } ↔ definition.stepName 0 = none := by
  rw [alwaysNamed_iff, WorkflowHost.newChild]
  by_cases hsteps : definition.steps = []
  · simp [hsteps, WorkflowDefinition.stepName, WorkflowDefinition.findStep]
  · rw [if_neg hsteps, List.forall_mem_singleton, eq_comm]
    rfl

end Runs

/-! ## Compiled definitions -/

mutual

/-- The name of the step that is listed first once a step is compiled: its first hook comes before
it, and so do the children of a block. -/
def YamlStep.listedFirst : YamlStep → String
  | { name, parallel := some children, .. } => (listedFirst children).getD name
  | y => ((y.onFailure <|> y.onSuccess <|> y.ensure).getD y).name

/-- The name of the step that is listed first once a list is compiled. -/
def listedFirst : List YamlStep → Option String
  | [] => none
  | y :: _ => some y.listedFirst

end

section Compiled

variable {F : Features} {linked : Bool} {ys : List YamlStep} {y : YamlStep} {n : Nat}
  {ids : List Nat} {steps : List WorkflowStep} {fs : List (String × StepFactory)}

theorem YamlStep.listedFirst_regular (h : y.parallel = none) :
    y.listedFirst = ((y.onFailure <|> y.onSuccess <|> y.ensure).getD y).name := by
  obtain ⟨_, _, _, _, _, _ | _, _, _, _, _, _⟩ := y
  · rfl
  · cases h

theorem YamlStep.listedFirst_block {children : List YamlStep} (h : y.parallel = some children) :
    y.listedFirst = (Wfe.listedFirst children).getD y.name := by
  obtain ⟨_, _, _, _, _, _ | _, _, _, _, _, _⟩ := y
  · cases h
  · cases h
    rfl

/-- The first of the steps of a regular step is its first hook. -/
theorem RegularBuild.Of.head {b : RegularBuild} (hb : b.Of F y) (next : Option Nat) :
    (b.steps n next).head?.map WorkflowStep.name = some (some y.listedFirst) := by
  rw [YamlStep.listedFirst_regular hb.regular]
  -- The hooks are listed in this order, as far as they are there, and then the step itself.
  rcases buildHook_mapM hb.failure with ⟨hy, hf⟩ | ⟨hook, built, hy, hf, -⟩
  · rcases buildHook_mapM hb.success with ⟨hy', hs⟩ | ⟨hook, built, hy', hs, -⟩
    · rcases buildHook_mapM hb.ensure with ⟨hy'', he⟩ | ⟨hook, built, hy'', he, -⟩
      · simp [RegularBuild.steps, RegularBuild.hookSteps, RegularBuild.mainStep, BuiltStep.toStep,
          hy, hf, hy', hs, hy'', he, hb.name]
      · simp [RegularBuild.steps, RegularBuild.hookSteps, BuiltStep.toStep, hy, hf, hy', hs, hy'',
          he]
    · simp [RegularBuild.steps, RegularBuild.hookSteps, BuiltStep.toStep, hy, hf, hy', hs]
  · simp [RegularBuild.steps, RegularBuild.hookSteps, BuiltStep.toStep, hy, hf]

theorem Emits.listedFirst (h : Emits F linked ys n ids steps fs) :
    steps.head?.map WorkflowStep.name = (listedFirst ys).map some := by
  induction h with
  | nil => rfl
  | regular hb hys ih =>
    rename_i b ids _ _
    rw [List.head?_append, Option.map_or, hb.head]
    rfl
  | block hy heb hcond hchildren hys ihchildren ih =>
    rename_i y _ _ _ _ _ inner _ _ _ _ _
    rw [Wfe.listedFirst, YamlStep.listedFirst_block hy, List.head?_append, List.head?_append,
      Option.map_or, Option.map_or, ihchildren]
    -- A block without children is the first one itself.
    cases Wfe.listedFirst _ with
    | none => rfl
    | some first => rfl

theorem CompiledFrom.name {s : WorkflowStep} (h : CompiledFrom F y s) : s.name = some y.name := by
  unfold CompiledFrom at h
  split at h
  · exact h.1
  · exact h.1

/-- The step with the first id is that of the first element of the list. -/
theorem Emits.find?_first (h : Emits F linked ys n ids steps fs) :
    (steps.find? fun s => s.id = n).bind WorkflowStep.name = ys.head?.map YamlStep.name := by
  cases ys with
  | nil =>
    cases h
    rfl
  | cons y ys =>
    obtain ⟨s, hs, hid, hfrom⟩ := h.head
    cases hfind : steps.find? fun s => s.id = n with
    | none => exact absurd hid (by simpa using List.find?_eq_none.mp hfind s hs)
    | some s' =>
      have hid' : s'.id = n := by simpa using List.find?_some hfind
      obtain rfl := List.inj_on_of_nodup_map h.nodup (List.mem_of_find?_eq_some hfind) hs
        (hid'.trans hid.symm)
      exact hfrom.name

end Compiled

/-! ## Sources -/

/-- What makes definitions: the compiler, and the builder. -/
inductive DefinitionSource
  | compiled (F : Features) (spec : WorkflowSpec) (cw : CompiledWorkflow)
      (h : compile F spec = .ok cw)
  | built (b : WorkflowBuilder) (h : Built b) (id : String) (version : Nat)

namespace DefinitionSource

def definition : DefinitionSource → WorkflowDefinition
  | compiled _ _ cw _ => cw.definition
  | built b _ id version => b.build id version

/-- The name of the step where runs begin. -/
def entryName : DefinitionSource → Option String
  | compiled _ spec _ _ => spec.steps.head?.map YamlStep.name
  | built b _ _ _ => b.steps.head?.bind WorkflowStep.name

/-- The name of the step that is listed first: the compiler may list others before the one where
runs begin, the builder does not. -/
def listedName : DefinitionSource → Option String
  | compiled _ spec _ _ => listedFirst spec.steps
  | source@(built _ _ _ _) => source.entryName

theorem stepName_zero (source : DefinitionSource) :
    source.definition.stepName 0 = source.entryName := by
  cases source with
  | compiled F spec cw h =>
    obtain ⟨ids, hemits⟩ := compile_emits h
    exact hemits.find?_first
  | built b h id version =>
    change (b.steps.find? fun s => s.id = 0).bind WorkflowStep.name = b.steps.head?.bind _
    cases hsteps : b.steps with
    | nil => rfl
    | cons s ss =>
      have hid : s.id = 0 := h.id (i := 0) (by rw [hsteps]; rfl)
      rw [List.find?_cons_of_pos (by simpa using hid)]
      rfl

theorem head?_name (source : DefinitionSource) :
    source.definition.steps.head?.bind WorkflowStep.name = source.listedName := by
  cases source with
  | compiled F spec cw h =>
    obtain ⟨ids, hemits⟩ := compile_emits h
    have hfirst := congrArg (Option.bind · fun name => name) hemits.listedFirst
    rw [Option.bind_map, Option.bind_map] at hfirst
    exact hfirst.trans (Option.bind_fun_some _)
  | built b h id version => rfl

end DefinitionSource

/-- **The names of pointers.** In the runs of a definition that the compiler or the builder has
made, all pointers always have the names of their steps if and only if the initial one has: if an
application starts the run, the step that is listed first must have the name of the one where the
run begins, as it always has with the builder; and if a workflow starts it, that one must have no
name. -/
theorem step_names_iff (source : DefinitionSource) (env : Ambient) (definitionId : String)
    (version : Nat) (data : Json) (parentRoot : Option String) (name : String) :
    (AlwaysNamed source.definition
        { WorkflowHost.newInstance env source.definition definitionId version data with
          name := name } ↔ source.listedName = source.entryName) ∧
    (AlwaysNamed source.definition
        { WorkflowHost.newChild env source.definition definitionId version data parentRoot with
          name := name } ↔ source.entryName = none) := by
  rw [newInstance_alwaysNamed_iff, newChild_alwaysNamed_iff, source.head?_name,
    source.stepName_zero]
  exact ⟨Iff.rfl, Iff.rfl⟩

/-- The release begins with the build, but the hook that reports its failure is listed first; and a
workflow that starts a release names no step at all. -/
theorem step_names_release : ∃ cw, compile {} releaseSpec = .ok cw ∧
    ¬AlwaysNamed cw.definition (startOf cw.definition) ∧
    ¬AlwaysNamed cw.definition
      { WorkflowHost.newChild default cw.definition "release" 1 .null none with
        name := "release-1" } := by
  obtain ⟨cw, hcw, hnames⟩ := compile_any {} releaseSpec (fun cw =>
    cw.definition.steps.head?.bind WorkflowStep.name = some "report" ∧
      cw.definition.stepName 0 = some "build") (by decide +kernel)
  obtain ⟨hlisted, hentry⟩ := of_decide_eq_true hnames
  refine ⟨cw, hcw, fun hnamed => ?_, fun hnamed => ?_⟩
  · have heq := (newInstance_alwaysNamed_iff ..).mp hnamed
    rw [hlisted, hentry] at heq
    exact absurd heq (by decide)
  · have heq := (newChild_alwaysNamed_iff ..).mp hnamed
    rw [hentry] at heq
    cases heq

end Wfe
