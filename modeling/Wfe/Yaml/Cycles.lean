import Mathlib.Data.List.Dedup
import Wfe.Library.Search
import Wfe.Library.Table
import Wfe.Yaml.Validation

/-!
# References between workflows

`validate_multi`: the checks on the workflows of one file together. Steps of type `workflow` refer
to other workflows by id, and the references between the workflows of the file must not form a
cycle; references to ids that are not in the file are let through. The hash sets of the source are
lists here, iterated in an order that is arbitrary for each of them.

## Main definitions

* `collectWorkflowRefs`: the ids that the steps of a workflow refer to, at any depth
* `detectCycles`, `validateWorkflowReferences`, `validateMulti`: the checks
* `Refers`: the graph of references

## Main results

* `mem_collectWorkflowRefs`: all references are collected
* `reference_cycles_exact`: a cycle is reported exactly if there is one, in any order
* `reported_cycle_depends`: which cycle is reported depends on the order
-/

namespace Wfe

/-! ## References -/

/-- The id that a step of type `workflow` refers to. -/
def workflowRef (stepType : Option String) (config : Option StepConfig) : Option String :=
  if stepType = some "workflow" then config.bind StepConfig.childWorkflow else none

/-- `refs.insert`, if the step refers to a workflow. -/
def insertRef (refs : List String) : Option String → List String
  | some id => refs.insert id
  | none => refs

mutual

/-- One round of the loop of `collect_workflow_refs`. -/
def collectStepRefs : YamlStep → List String → List String
  | { stepType, config, parallel, onSuccess, onFailure, ensure, .. }, refs =>
    let refs := insertRef refs (workflowRef stepType config)
    let refs := collectBlockRefs parallel refs
    let refs := collectHookRefs onSuccess refs
    let refs := collectHookRefs onFailure refs
    collectHookRefs ensure refs

def collectBlockRefs : Option (List YamlStep) → List String → List String
  | some children, refs => collectWorkflowRefs children refs
  | none, refs => refs

def collectHookRefs : Option YamlStep → List String → List String
  | some hook, refs => collectStepRefs hook refs
  | none, refs => refs

/-- `collect_workflow_refs`. -/
def collectWorkflowRefs : List YamlStep → List String → List String
  | [], refs => refs
  | y :: ys, refs => collectWorkflowRefs ys (collectStepRefs y refs)

end

/-! ## Cycles -/

/-- The orders in which the hash sets are iterated: the set of known ids, and for each workflow the
set of ids it refers to. -/
structure HashOrder where
  arrange : Option String → List String → List String
  perm : ∀ key l, (arrange key l).Perm l.dedup

theorem HashOrder.mem_arrange (order : HashOrder) {key : Option String} {l : List String}
    {id : String} : id ∈ order.arrange key l ↔ id ∈ l := by
  rw [(order.perm key l).mem_iff, List.mem_dedup]

/-- The message of a cycle that `neighbor` closes. -/
def circularReference (cycle : List String) (neighbor : String) : YamlWorkflowError :=
  let shown := Text.join " -> " cycle
  .validation s!"Circular workflow reference detected: {shown} -> {neighbor}"

/-- `detect_cycles`; `none` where the source panics. -/
def detectCycles (order : HashOrder) (knownIds : List String)
    (deps : String → Option (List String)) : Option (Compiled Unit) :=
  let neighbors := fun node => order.arrange (some node) ((deps node).getD [])
  match Search.search neighbors (order.arrange none knownIds) with
  | .ok _ => some (.ok ())
  | .error (.cycle cycle neighbor) => some (.error (circularReference cycle neighbor))
  | .error (.astray _) | .error .exhausted => none

/-- The references of each workflow; a later workflow of the same id takes the place of an earlier
one. -/
def referenceMap (specs : List WorkflowSpec) : String → Option (List String) :=
  specs.foldl (fun deps spec =>
    Function.update deps spec.id (some (collectWorkflowRefs spec.steps []))) fun _ => none

def validateWorkflowReferences (order : HashOrder) (specs : List WorkflowSpec) :
    Option (Compiled Unit) :=
  detectCycles order (specs.map WorkflowSpec.id) (referenceMap specs)

/-- The check for duplicate ids. -/
def validateIds : List WorkflowSpec → List String → Compiled Unit
  | [], _ => .ok ()
  | spec :: specs, seen => do
    rejectIf (spec.id ∈ seen) s!"Duplicate workflow ID: '{spec.id}'"
    validateIds specs (spec.id :: seen)

/-- The checks of `validate_multi` before the references. -/
def validateEach (specs : List WorkflowSpec) : Compiled Unit := do
  specs.forM validate
  validateIds specs []

/-- `validate_multi`; `none` where the source panics. -/
def validateMulti (order : HashOrder) (specs : List WorkflowSpec) : Option (Compiled Unit) :=
  match validateEach specs with
  | .error e => some (.error e)
  | .ok _ => validateWorkflowReferences order specs

/-! ## What is collected -/

mutual

theorem mem_collectStepRefs (y : YamlStep) (refs : List String) (id : String) :
    id ∈ collectStepRefs y refs ↔
      id ∈ refs ∨ ∃ z ∈ y.withNested, workflowRef z.stepType z.config = some id := by
  obtain ⟨name, stepType, config, inputs, outputs, parallel, errorBehavior, onSuccess, onFailure,
    ensure, when⟩ := y
  have hown : id ∈ insertRef refs (workflowRef stepType config) ↔
      id ∈ refs ∨ workflowRef stepType config = some id := by
    cases workflowRef stepType config with
    | none => simp [insertRef]
    | some ref => simp [insertRef, or_comm, eq_comm]
  simp only [collectStepRefs, YamlStep.withNested, mem_collectHookRefs ensure,
    mem_collectHookRefs onFailure, mem_collectHookRefs onSuccess, mem_collectBlockRefs parallel,
    hown]
  simp only [List.mem_cons, List.mem_append, or_and_right, exists_or, exists_eq_left, or_assoc]

theorem mem_collectBlockRefs (block : Option (List YamlStep)) (refs : List String) (id : String) :
    id ∈ collectBlockRefs block refs ↔
      id ∈ refs ∨ ∃ z ∈ blockSteps block, workflowRef z.stepType z.config = some id := by
  cases block with
  | none => simp [collectBlockRefs, blockSteps]
  | some children => exact mem_collectWorkflowRefs children refs id

theorem mem_collectHookRefs (hook : Option YamlStep) (refs : List String) (id : String) :
    id ∈ collectHookRefs hook refs ↔
      id ∈ refs ∨ ∃ z ∈ hookSteps hook, workflowRef z.stepType z.config = some id := by
  cases hook with
  | none => simp [collectHookRefs, hookSteps]
  | some hook => exact mem_collectStepRefs hook refs id

/-- **All references are collected**, those of hooks and of the children of blocks included. -/
theorem mem_collectWorkflowRefs (ys : List YamlStep) (refs : List String) (id : String) :
    id ∈ collectWorkflowRefs ys refs ↔
      id ∈ refs ∨ ∃ z ∈ allSteps ys, workflowRef z.stepType z.config = some id := by
  cases ys with
  | nil => simp [collectWorkflowRefs, allSteps]
  | cons y ys =>
    rw [collectWorkflowRefs, mem_collectWorkflowRefs ys, mem_collectStepRefs y, allSteps]
    simp only [List.mem_append, or_and_right, exists_or, or_assoc]

end

/-! ## The graph of references -/

/-- The workflow that an id stands for: the last one of this id. -/
def specOf (specs : List WorkflowSpec) (id : String) : Option WorkflowSpec :=
  Table.get WorkflowSpec.id specs.reverse id

/-- Some step of the workflow `a`, at any depth, refers to the workflow `b` of the same file. -/
def Refers (specs : List WorkflowSpec) (a b : String) : Prop :=
  ∃ spec, specOf specs a = some spec ∧ b ∈ specs.map WorkflowSpec.id ∧
    ∃ y ∈ allSteps spec.steps, workflowRef y.stepType y.config = some b

section Graph

variable {specs : List WorkflowSpec}

/-- With distinct ids, an id stands for the only workflow that has it. -/
theorem specOf_eq_some (hids : (specs.map WorkflowSpec.id).Nodup) {id : String}
    {spec : WorkflowSpec} : specOf specs id = some spec ↔ spec ∈ specs ∧ spec.id = id := by
  constructor
  · intro h
    exact ⟨List.mem_reverse.mp (Table.mem_of_get h), Table.key_of_get h⟩
  · rintro ⟨hmem, rfl⟩
    refine Table.get_of_mem ?_ (List.mem_reverse.mpr hmem)
    rw [List.map_reverse]
    exact List.nodup_reverse.mpr hids

/-- An id stands for the last workflow that has it. -/
theorem specOf_eq_some_iff {id : String} {spec : WorkflowSpec} : specOf specs id = some spec ↔
    ∃ before after, specs = before ++ spec :: after ∧ spec.id = id ∧
      id ∉ after.map WorkflowSpec.id := by
  rw [specOf, Table.get, List.find?_eq_some_iff_append]
  constructor
  · rintro ⟨hid, after, before, heq, hafter⟩
    refine ⟨before.reverse, after.reverse, ?_, by simpa using hid, by simpa using hafter⟩
    rw [← List.reverse_reverse specs, heq]
    simp
  · rintro ⟨before, after, rfl, hid, hafter⟩
    exact ⟨by simpa using hid, after.reverse, before.reverse, by simp, by simpa using hafter⟩

theorem referenceMap_eq (specs : List WorkflowSpec) (id : String) :
    referenceMap specs id =
      (specOf specs id).map fun spec => collectWorkflowRefs spec.steps [] := by
  induction specs using List.reverseRecOn with
  | nil => rfl
  | append_singleton specs spec ih =>
    rw [referenceMap, List.foldl_append]
    by_cases hid : id = spec.id
    · subst hid
      simp [specOf, Table.get]
    · rw [referenceMap] at ih
      simpa [specOf, Table.get, hid, Ne.symm hid] using ih

/-- The edges that the search follows are the references. -/
theorem edge_iff_refers (specs : List WorkflowSpec) (order : HashOrder) (a b : String) :
    Search.Edge (fun node => order.arrange (some node) ((referenceMap specs node).getD []))
      (order.arrange none (specs.map WorkflowSpec.id)) a b ↔ Refers specs a b := by
  rw [Search.Edge, order.mem_arrange, order.mem_arrange, referenceMap_eq, Refers]
  cases specOf specs a with
  | none => simp
  | some spec => simp [mem_collectWorkflowRefs, and_comm]

/-- How the check of the references ends: without a cycle in the graph, or with one that is
reported. -/
theorem validateWorkflowReferences_eq (order : HashOrder) (specs : List WorkflowSpec) :
    (validateWorkflowReferences order specs = some (.ok ()) ∧
      ∀ a, ¬Relation.TransGen (Refers specs) a a) ∨
    ∃ cycle back, validateWorkflowReferences order specs =
        some (.error (circularReference cycle back)) ∧
      Search.Cycle (Refers specs) cycle back := by
  have hedges := funext fun a => funext fun b => propext (edge_iff_refers specs order a b)
  have hsearch := Search.search_iff
    (fun node => order.arrange (some node) ((referenceMap specs node).getD []))
    (order.arrange none (specs.map WorkflowSpec.id))
  rw [hedges] at hsearch
  rcases hsearch with ⟨⟨colors, hok⟩, hacyclic⟩ | ⟨cycle, back, herror, hcycle⟩
  · refine .inl ⟨?_, hacyclic⟩
    simp only [validateWorkflowReferences, detectCycles, hok]
  · refine .inr ⟨cycle, back, ?_, hcycle⟩
    simp only [validateWorkflowReferences, detectCycles, herror]

theorem validateIds_of_nodup (seen : List String)
    (h : (specs.map WorkflowSpec.id ++ seen).Nodup) : validateIds specs seen = .ok () := by
  induction specs generalizing seen with
  | nil => rfl
  | cons spec specs ih =>
    have hnot : spec.id ∉ seen := fun hmem =>
      (List.nodup_cons.mp h).1 (List.mem_append_right _ hmem)
    rw [validateIds, rejectIf, if_neg hnot]
    exact ih (spec.id :: seen) (List.nodup_middle.mpr h)

/-- Workflows that are valid each by itself, with distinct ids, pass the checks before the
references. -/
theorem validateEach_eq_ok (hids : (specs.map WorkflowSpec.id).Nodup)
    (hvalid : ∀ spec ∈ specs, validate spec = .ok ()) : validateEach specs = .ok () := by
  rw [validateEach, Compiled.forM_eq_ok.mpr hvalid]
  exact validateIds_of_nodup [] (by simpa using hids)

end Graph

/-- **Reference cycles are found exactly.** In whatever order the hash sets are iterated, the check
of the references does not panic, it returns an error exactly if the references form a cycle, and
the cycle it reports is one. Here `a` refers to `b` when some step of the workflow of id `a` does,
of the last one if there are several. Workflows that are valid each by itself and have distinct ids
are rejected together exactly if their references form a cycle, with a report of one. -/
theorem reference_cycles_exact (order : HashOrder) (specs : List WorkflowSpec) :
    (∃ r, validateWorkflowReferences order specs = some r ∧
      ((∃ e, r = .error e) ↔ ∃ a, Relation.TransGen (Refers specs) a a) ∧
      ∀ e, r = .error e → ∃ cycle back, e = circularReference cycle back ∧
        Search.Cycle (Refers specs) cycle back) ∧
    (∀ a b, Refers specs a b ↔ b ∈ specs.map WorkflowSpec.id ∧ ∃ before spec after,
      specs = before ++ spec :: after ∧ spec.id = a ∧ a ∉ after.map WorkflowSpec.id ∧
        ∃ y ∈ allSteps spec.steps, workflowRef y.stepType y.config = some b) ∧
    ((specs.map WorkflowSpec.id).Nodup →
      (∀ a b, Refers specs a b ↔ b ∈ specs.map WorkflowSpec.id ∧ ∃ spec ∈ specs, spec.id = a ∧
        ∃ y ∈ allSteps spec.steps, workflowRef y.stepType y.config = some b) ∧
      ((∀ spec ∈ specs, validate spec = .ok ()) →
        ∃ r, validateMulti order specs = some r ∧
          ((∃ e, r = .error e) ↔ ∃ a, Relation.TransGen (Refers specs) a a) ∧
          ∀ e, r = .error e → ∃ cycle back, e = circularReference cycle back ∧
            Search.Cycle (Refers specs) cycle back)) := by
  have hends := validateWorkflowReferences_eq order specs
  have hexact : ∃ r, validateWorkflowReferences order specs = some r ∧
      ((∃ e, r = .error e) ↔ ∃ a, Relation.TransGen (Refers specs) a a) ∧
      ∀ e, r = .error e → ∃ cycle back, e = circularReference cycle back ∧
        Search.Cycle (Refers specs) cycle back := by
    rcases hends with ⟨hok, hacyclic⟩ | ⟨cycle, back, herror, hcycle⟩
    · refine ⟨_, hok, ⟨?_, fun ⟨a, ha⟩ => absurd ha (hacyclic a)⟩, ?_⟩
      · rintro ⟨e, he⟩
        cases he
      · rintro e ⟨⟩
    · refine ⟨_, herror, ⟨fun _ => ⟨back, hcycle.transGen⟩, fun _ => ⟨_, rfl⟩⟩, ?_⟩
      rintro e ⟨⟩
      exact ⟨cycle, back, rfl, hcycle⟩
  refine ⟨hexact, fun a b => ?_, fun hids => ⟨fun a b => ?_, fun hvalid => ?_⟩⟩
  · simp only [Refers, specOf_eq_some_iff]
    constructor
    · rintro ⟨spec, ⟨before, after, hspecs, hid, hlast⟩, hb, hy⟩
      exact ⟨hb, before, spec, after, hspecs, hid, hlast, hy⟩
    · rintro ⟨hb, before, spec, after, hspecs, hid, hlast, hy⟩
      exact ⟨spec, ⟨before, after, hspecs, hid, hlast⟩, hb, hy⟩
  · simp only [Refers, specOf_eq_some hids]
    constructor
    · rintro ⟨spec, ⟨hmem, hid⟩, hb, hy⟩
      exact ⟨hb, spec, hmem, hid, hy⟩
    · rintro ⟨hb, spec, hmem, hid, hy⟩
      exact ⟨spec, ⟨hmem, hid⟩, hb, hy⟩
  · obtain ⟨r, hr, hcycle⟩ := hexact
    exact ⟨r, by rw [validateMulti, validateEach_eq_ok hids hvalid, hr], hcycle⟩

/-! ## Two orders -/

/-- The workflow of id `id` has one step, which calls the workflow of id `child`. -/
def callingSpec (id child : String) : WorkflowSpec where
  id := id
  version := 1
  steps := [{
    name := "call"
    stepType := some "workflow"
    config := some { childWorkflow := some child } }]

/-- The ids in the order in which they are first met. -/
def HashOrder.listed : HashOrder := ⟨fun _ l => l.dedup, fun _ _ => .refl _⟩

/-- The ids the other way round. -/
def HashOrder.reversed : HashOrder := ⟨fun _ l => l.dedup.reverse, fun _ _ => List.reverse_perm _⟩

/-- Two workflows that call each other are rejected. -/
theorem reference_cycles_exact_mutual :
    ∃ e, validateMulti .listed [callingSpec "a" "b", callingSpec "b" "a"] = some (.error e) := by
  obtain ⟨-, -, hdistinct⟩ :=
    reference_cycles_exact .listed [callingSpec "a" "b", callingSpec "b" "a"]
  obtain ⟨hrefers, hrejects⟩ := hdistinct (by decide)
  obtain ⟨r, hr, hcycle, -⟩ := hrejects (by decide)
  obtain ⟨e, rfl⟩ := hcycle.mpr ⟨"a", .tail (.single ((hrefers "a" "b").mpr (by decide)))
    ((hrefers "b" "a").mpr (by decide))⟩
  exact ⟨e, hr⟩

/-- Of two workflows that call themselves, the one whose id comes first is reported. And of two
workflows of one id, which are rejected before, only the last one counts. -/
theorem reported_cycle_depends :
    (∃ e e', validateMulti .listed [callingSpec "a" "a", callingSpec "b" "b"] = some (.error e) ∧
      validateMulti .reversed [callingSpec "a" "a", callingSpec "b" "b"] = some (.error e') ∧
      e ≠ e') ∧
    validateWorkflowReferences .listed [callingSpec "a" "a", callingSpec "a" "b"] =
      some (.ok ()) := by
  refine ⟨⟨circularReference ["a"] "a", circularReference ["b"] "b", rfl, rfl, by decide⟩, rfl⟩

end Wfe
