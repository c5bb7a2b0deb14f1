import Wfe.Host.Evolution
import Wfe.Yaml.Layout

/-!
# Compiled references are closed

The ids of a compiled definition are the numbers below the number of its steps, and whatever a
step refers to, as an outcome, as a child or as a compensation, is a step of the definition. New
pointers are created at steps that are referred to, so an instance never has a pointer at a step
that does not exist, and a pass never reports one.

## Main definitions

* `WorkflowStep.refs`: the ids a step refers to
* `BuiltFrom`, `CompiledFrom`: the steps a hook and a main step are compiled to

## Main results

* `Emits.refs`: what is emitted refers to itself only
* `compile_closed`: compiled references are closed, and executing them never misses a step
-/

namespace Wfe

open Program

/-- The ids a step refers to. -/
def WorkflowStep.refs (s : WorkflowStep) : List Nat :=
  s.outcomes.map StepOutcome.nextStep ++ s.children ++ s.compensationStepId.toList

/-- `s` has the name, the type and the configuration of the YAML step `y`. -/
def BuiltFrom (F : Features) (y : YamlStep) (s : WorkflowStep) : Prop :=
  s.name = some y.name ∧
    ∃ built, buildStep F y = .ok built ∧ s.stepType = built.key ∧ s.stepConfig = some built.config

/-- `s` is a main step for `y`: a container, or a step built from `y`. -/
def CompiledFrom (F : Features) (y : YamlStep) (s : WorkflowStep) : Prop :=
  match y.parallel with
  | some _ => s.name = some y.name ∧ s.stepType = sequenceKey
  | none => BuiltFrom F y s

section Refs

variable {F : Features} {linked : Bool} {ys : List YamlStep} {n : Nat} {ids : List Nat}
  {steps : List WorkflowStep} {fs : List (String × StepFactory)}

/-- A regular step and its hooks refer to each other, and to the next main step. -/
theorem RegularBuild.refs_steps (b : RegularBuild) (next : Option Nat) {s : WorkflowStep}
    (hs : s ∈ b.steps n next) {r : Nat} (hr : r ∈ s.refs) :
    (n ≤ r ∧ r < n + b.size) ∨ next = some r := by
  revert s r
  rcases b with ⟨_, _, _, _, _ | _, _ | _, _ | _⟩ <;> cases next <;>
    simp [steps, hookSteps, mainStep, hookOutcomes, failureId, successId, ensureId, size,
      nextOutcomes, WorkflowStep.refs, BuiltStep.toStep, WorkflowStep.new]
  all_goals
    intro r hr
    omega

/-- What is emitted refers to itself only. -/
theorem Emits.refs (h : Emits F linked ys n ids steps fs) {s : WorkflowStep} (hs : s ∈ steps)
    {r : Nat} (hr : r ∈ s.refs) : r ∈ steps.map WorkflowStep.id := by
  induction h with
  | nil => cases hs
  | regular hb hys ih =>
    rename_i linked _ _ n b ids _ _
    rw [List.map_append, List.mem_append]
    rcases List.mem_append.mp hs with hs | hs
    · rcases b.refs_steps _ hs hr with hr | hr
      · exact .inl ((b.ids_steps n _).mem_iff.mpr (List.mem_range'_1.mpr hr))
      · cases linked with
        | false => cases hr
        | true => exact .inr (hys.main_mem (List.mem_of_head? hr))
    · exact .inr (ih hs)
  | block hy heb hcond hchildren hys ihchildren ih =>
    rename_i linked _ _ _ n childIds ids inner _ _ _ _ _
    simp only [List.map_append, List.mem_append, List.mem_singleton] at hs ⊢
    rcases hs with (hs | rfl) | hs
    · exact .inl (.inl (ihchildren hs))
    · -- The container refers to its children and to the next main step.
      simp only [WorkflowStep.refs, containerStep, WorkflowStep.new, nextOutcomes, List.mem_append,
        List.map_map, List.mem_map, Option.mem_toList, Function.comp_apply, reduceCtorEq,
        or_false] at hr
      rcases hr with ⟨_, hnext, rfl⟩ | hr
      · cases linked with
        | false => cases hnext
        | true => exact .inr (hys.main_mem (List.mem_of_head? hnext))
      · exact .inl (.inl (hchildren.main_mem hr))
    · exact .inr (ih hs)

/-- The first step of a list takes the first id. -/
theorem Emits.head {y : YamlStep} (h : Emits F linked (y :: ys) n ids steps fs) :
    ∃ s ∈ steps, s.id = n ∧ CompiledFrom F y s := by
  cases h with
  | regular hb hys =>
    rename_i b ids _ _
    refine ⟨b.mainStep n (if linked then ids.head? else none), by simp [RegularBuild.steps], rfl,
      ?_⟩
    rw [CompiledFrom, hb.regular]
    exact ⟨congrArg some hb.name, b.main, hb.main, rfl, rfl⟩
  | block hy heb hcond hchildren hys =>
    refine ⟨_, List.mem_append_left _ (List.mem_append_right _ List.mem_cons_self), rfl, ?_⟩
    rw [CompiledFrom, hy]
    exact ⟨rfl, rfl⟩

end Refs

/-! ## Execution -/

/-- Whatever a step of `definition` refers to is a step of `definition`. -/
def WorkflowDefinition.Closed (definition : WorkflowDefinition) : Prop :=
  ∀ s ∈ definition.steps, ∀ r ∈ s.refs, (definition.findStep r).isSome

section Execution

variable {definition : WorkflowDefinition} {p q : ExecutionPointer} {w : WorkflowInstance}

theorem findStep_isSome {id : Nat} :
    (definition.findStep id).isSome ↔ id ∈ definition.steps.map WorkflowStep.id := by
  simp [WorkflowDefinition.findStep]

/-- New pointers are at steps of a closed definition. -/
theorem Spawned.findStep (hclosed : definition.Closed) (h : Spawned definition p q) :
    (definition.findStep q.stepId).isSome := by
  cases h with
  | next id hstep ho =>
    refine hclosed _ (List.mem_of_find?_eq_some hstep) _ ?_
    exact List.mem_append_left _ (List.mem_append_left _ (List.mem_map_of_mem ho))
  | compensation id hstep hc =>
    refine hclosed _ (List.mem_of_find?_eq_some hstep) _ ?_
    exact List.mem_append_right _ (Option.mem_toList.mpr hc)
  | child hstep hq _ _ _ =>
    refine hclosed _ (List.mem_of_find?_eq_some hstep) _ ?_
    exact List.mem_append_left _ (List.mem_append_right _ hq)

/-- A pass over pointers at steps of a closed definition does not miss a step. -/
theorem Aborts.ne_stepNotFound {resolve : StepResolver} {host : Option HostContext}
    {indices : List Nat} {e : WfeError} (hclosed : definition.Closed)
    (hw : ∀ p ∈ w.executionPointers, (definition.findStep p.stepId).isSome)
    (h : Aborts definition resolve host w.id { workflow := w } indices e) (stepId : Nat) :
    e ≠ .stepNotFound stepId := by
  rintro rfl
  obtain ⟨done, idx, rest, ran, st', -, hloop, habort⟩ := h
  obtain ⟨p, hp, hnone⟩ := findStep_of_stepNotFound habort
  have hall := hloop.forall_pointers (N := fun p => (definition.findStep p.stepId).isSome)
    (fun p q hp hlater => by rwa [hlater.stepId]) (fun p q _ h => h.findStep hclosed) hw
  simpa [hnone] using hall p hp

end Execution

/-- A specification whose compilation can be computed. -/
theorem compile_any (F : Features) (spec : WorkflowSpec) (test : CompiledWorkflow → Bool)
    (h : (compile F spec).toOption.any test = true) :
    ∃ cw, compile F spec = .ok cw ∧ test cw = true := by
  cases hc : compile F spec with
  | error e => simp [hc, Except.toOption] at h
  | ok cw => exact ⟨cw, rfl, by simpa [hc, Except.toOption] using h⟩

/-- **Compiled references are closed**, so an instance of a compiled definition never misses a
step, whatever its bodies and the operations on it do. -/
theorem compile_closed (F : Features) (spec : WorkflowSpec) (cw : CompiledWorkflow)
    (h : compile F spec = .ok cw) :
    (cw.definition.steps.map WorkflowStep.id).Perm (List.range cw.definition.steps.length) ∧
    (∀ y ∈ spec.steps.head?, ∃ s ∈ cw.definition.steps, s.id = 0 ∧ CompiledFrom F y s) ∧
    (∀ s ∈ cw.definition.steps,
      (∀ o ∈ s.outcomes, ∃ s' ∈ cw.definition.steps, s'.id = o.nextStep) ∧
      (∀ child ∈ s.children, ∃ s' ∈ cw.definition.steps, s'.id = child) ∧
      ∀ id ∈ s.compensationStepId, ∃ s' ∈ cw.definition.steps, s'.id = id) ∧
    ∀ w, Reachable cw.definition w → ∀ resolve host, HostContext.Starts host w.id →
      ∀ tr r, Path (execute w.id cw.definition resolve host).run tr r →
        (∀ y ∈ tr, y.1.loads w y.2 ∧ ∀ stepId, y.1.raised y.2 ≠ some (.stepNotFound stepId)) →
        ∀ stepId, r ≠ .error (.stepNotFound stepId) := by
  obtain ⟨ids, hemits⟩ := compile_emits h
  have hrefs : ∀ s ∈ cw.definition.steps, ∀ r ∈ s.refs,
      ∃ s' ∈ cw.definition.steps, s'.id = r := fun s hs r hr =>
    List.mem_map.mp (hemits.refs hs hr)
  have hclosed : cw.definition.Closed := fun s hs r hr =>
    findStep_isSome.mpr (hemits.refs hs hr)
  refine ⟨?_, ?_, fun s hs => ⟨?_, ?_, ?_⟩, ?_⟩
  · rw [List.range_eq_range']
    exact hemits.ids_perm
  · intro y hy
    cases hsteps : spec.steps with
    | nil => simp [hsteps] at hy
    | cons y' ys =>
      obtain rfl : y' = y := by simpa [hsteps] using hy
      rw [hsteps] at hemits
      exact hemits.head
  · exact fun o ho => hrefs s hs _
      (List.mem_append_left _ (List.mem_append_left _ (List.mem_map_of_mem ho)))
  · exact fun child hchild => hrefs s hs _
      (List.mem_append_left _ (List.mem_append_right _ hchild))
  · exact fun id hid => hrefs s hs _ (List.mem_append_right _ (Option.mem_toList.mpr hid))
  · rintro w hw resolve host hhost tr _ hpath htr stepId rfl
    -- Every pointer stands at a step of the definition, in every state an instance can reach.
    have hall : ∀ p ∈ w.executionPointers, (cw.definition.findStep p.stepId).isSome := by
      refine hw.forall_pointers (N := fun p => (cw.definition.findStep p.stepId).isSome)
        (fun p q hp hlater => by rwa [hlater.stepId]) (fun p q _ h => h.findStep hclosed) ?_
      intro w hw p hp
      rcases hw.pointers with ⟨-, hnil⟩ | ⟨p', hsteps, hp', hid, -⟩
      · simp [hnil] at hp
      · obtain rfl : p = p' := by simpa [hp'] using hp
        rw [hid, findStep_isSome, hemits.mem_ids]
        exact ⟨Nat.le_refl 0, by simpa using List.length_pos_iff.mpr hsteps⟩
    rcases execute_fails hhost hpath fun y hy => (htr y hy).1 with ⟨y, hy, he⟩ | ⟨now, habort⟩
    · exact (htr y hy).2 stepId he
    · exact habort.ne_stepNotFound hclosed hall stepId rfl

/-- A shell step that runs a command. -/
def shellStep (name run : String) : YamlStep :=
  { name := name, stepType := some "shell", config := some { run := some run } }

/-- A workflow with hooks and a parallel block. -/
def releaseSpec : WorkflowSpec where
  id := "release"
  version := 1
  steps := [
    { shellStep "build" "make" with
      onFailure := some (shellStep "report" "mail")
      ensure := some (shellStep "clean" "make clean") },
    { name := "checks",
      parallel := some [shellStep "lint" "make lint", shellStep "test" "make test"] },
    shellStep "publish" "make publish"]

theorem compile_closed_release : ∃ cw, compile {} releaseSpec = .ok cw ∧
    (cw.definition.steps.map WorkflowStep.id).Perm (List.range 7) ∧
    ∃ w, Reachable cw.definition w ∧ ∀ resolve tr r,
      Path (execute w.id cw.definition resolve none).run tr r →
      (∀ y ∈ tr, y.1.loads w y.2 ∧ ∀ stepId, y.1.raised y.2 ≠ some (.stepNotFound stepId)) →
      ∀ stepId, r ≠ .error (.stepNotFound stepId) := by
  obtain ⟨cw, hcw, hlen⟩ := compile_any {} releaseSpec
    (fun cw => cw.definition.steps.length = 7) (by decide +kernel)
  obtain ⟨hperm, -, -, hfound⟩ := compile_closed {} releaseSpec cw hcw
  have hlen : cw.definition.steps.length = 7 := by simpa using hlen
  let w := { WorkflowHost.newInstance default cw.definition "release" 1 .null with name := "" }
  have hw : Reachable cw.definition w := ⟨w, .root default "release" 1 .null "", .refl⟩
  exact ⟨cw, hcw, hlen ▸ hperm, w, hw, fun resolve => hfound w hw resolve none (by rintro _ ⟨⟩)⟩

end Wfe
