import Wfe.Executor.Containers
import Wfe.Executor.Simulation
import Wfe.Yaml.Sequential
import Wfe.Yaml.Validation

/-!
# Parallel blocks

The children of a parallel block are compiled by the function that compiles a sequence, so each is
wired to the next one: the container spawns all of them, and each then leads to the next once more.
Only blocks of at most one child run their children once.

## Main definitions

* `Apart`: nothing emitted leads to a child
* `ChildrenOnce`: the containers of a compiled workflow run each child once

## Main results

* `Emits.apart`: with blocks of at most one child, nothing leads to a child
* `narrow_children_once`: such blocks run each child once
* `checks_children_twice`: a block of two children does not
-/

namespace Wfe

/-- The steps emitted from id `n` on, with main steps `ids`, do not lead to children. -/
structure Apart (n : Nat) (ids : List Nat) (steps : List WorkflowStep) : Prop where
  bounds : ∀ k ∈ steps.flatMap WorkflowStep.children, n < k ∧ k < n + steps.length
  nodup : (steps.flatMap WorkflowStep.children).Nodup
  main : ∀ id ∈ ids, id ∉ steps.flatMap WorkflowStep.children
  links : ∀ s ∈ steps, ∀ t ∈ s.links, n < t ∧ t ∉ steps.flatMap WorkflowStep.children
  container : ∀ s ∈ steps, s.children ≠ [] → s.stepType = sequenceKey
  irrefl : ∀ s ∈ steps, s.id ∉ s.children

section Apart

variable {F : Features} {linked : Bool} {ys : List YamlStep} {n : Nat} {ids : List Nat}
  {steps : List WorkflowStep} {fs : List (String × StepFactory)}

theorem RegularBuild.children_eq_nil (b : RegularBuild) {next : Option Nat} {s : WorkflowStep}
    (hs : s ∈ b.steps n next) : s.children = [] := by
  revert s
  rcases b with ⟨_, _, _, _, _ | _, _ | _, _ | _⟩ <;>
    simp [steps, hookSteps, mainStep, BuiltStep.toStep, WorkflowStep.new]

theorem RegularBuild.flatMap_children (b : RegularBuild) (next : Option Nat) :
    (b.steps n next).flatMap WorkflowStep.children = [] :=
  List.flatMap_eq_nil_iff.mpr fun _ hs => b.children_eq_nil hs

/-- A regular step and its hooks lead to later steps. -/
theorem RegularBuild.lt_links (b : RegularBuild) {next : Option Nat}
    (hnext : ∀ id ∈ next, n < id) {s : WorkflowStep} (hs : s ∈ b.steps n next) {t : Nat}
    (ht : t ∈ s.links) : n < t := by
  revert s t
  rcases b with ⟨_, _, _, _, _ | _, _ | _, _ | _⟩ <;> rcases next with _ | id <;>
    simp [steps, hookSteps, mainStep, hookOutcomes, failureId, successId, ensureId, nextOutcomes,
      WorkflowStep.links, BuiltStep.toStep, WorkflowStep.new] at hnext ⊢
  -- What is left are comparisons of the ids of the hooks with `n`.
  all_goals grind

theorem WorkflowStep.links_subset_refs (s : WorkflowStep) {t : Nat} (h : t ∈ s.links) :
    t ∈ s.refs := by
  rcases List.mem_append.mp h with h | h
  · exact List.mem_append_left _ (List.mem_append_left _ h)
  · exact List.mem_append_right _ h

/-- What is emitted from `n` on leads to steps below its end. -/
theorem Emits.links_lt (h : Emits F linked ys n ids steps fs) {s : WorkflowStep} (hs : s ∈ steps)
    {t : Nat} (ht : t ∈ s.links) : t < n + steps.length :=
  (h.mem_ids.mp (h.refs hs (s.links_subset_refs ht))).2

theorem Emits.main_bounds (h : Emits F linked ys n ids steps fs) {id : Nat} (hid : id ∈ ids) :
    n ≤ id ∧ id < n + steps.length :=
  h.mem_ids.mp (h.main_mem hid)

/-- A list of at most one step has no main step but the first. -/
theorem Emits.eq_of_narrow (h : Emits F linked ys n ids steps fs) (hlen : ys.length ≤ 1) {id : Nat}
    (hid : id ∈ ids) : id = n ∧ ids.Nodup := by
  cases h with
  | nil => cases hid
  | regular hb hys =>
    obtain rfl := List.eq_nil_of_length_eq_zero (Nat.le_zero.mp (Nat.le_of_succ_le_succ hlen))
    cases hys
    exact ⟨List.mem_singleton.mp hid, List.nodup_singleton _⟩
  | block hy heb hcond hchildren hys =>
    obtain rfl := List.eq_nil_of_length_eq_zero (Nat.le_zero.mp (Nat.le_of_succ_le_succ hlen))
    cases hys
    exact ⟨List.mem_singleton.mp hid, List.nodup_singleton _⟩

/-- The next main step comes after what is emitted. -/
theorem Emits.next_bounds (h : Emits F linked ys n ids steps fs) {next : Nat}
    (hnext : (if linked then ids.head? else none) = some next) : next = n ∧ next ∈ ids := by
  cases linked with
  | false => cases hnext
  | true =>
    refine ⟨?_, List.mem_of_head? hnext⟩
    -- An unlinked list, or an empty one, has no next main step.
    have hys : ys ≠ [] := by
      rintro rfl
      cases h
      cases hnext
    exact Option.some_inj.mp (hnext.symm.trans (h.head_ids hys))

/-- What is emitted for one step, followed by what is emitted for the steps after it. -/
theorem Apart.append {part : List WorkflowStep} (hpart : Apart n [n] part)
    (h : Apart (n + part.length) ids steps) (hids : ∀ id ∈ ids, n + part.length ≤ id)
    (hpos : 0 < part.length)
    (hleads : ∀ s ∈ part, ∀ t ∈ s.links, t < n + part.length ∨ t ∈ ids) :
    Apart n (n :: ids) (part ++ steps) := by
  have hkids : (part ++ steps).flatMap WorkflowStep.children =
      part.flatMap WorkflowStep.children ++ steps.flatMap WorkflowStep.children :=
    List.flatMap_append
  refine ⟨?_, ?_, ?_, ?_, ?_, ?_⟩
  · intro k hk
    rw [hkids] at hk
    rw [List.length_append]
    rcases List.mem_append.mp hk with hk | hk
    · have := hpart.bounds k hk
      omega
    · have := h.bounds k hk
      omega
  · rw [hkids]
    refine List.nodup_append.mpr ⟨hpart.nodup, h.nodup, ?_⟩
    -- Children of the part come before those of the steps after it.
    rintro k hk k' hk' rfl
    have := hpart.bounds k hk
    have := h.bounds k hk'
    omega
  · intro id hid hk
    rw [hkids] at hk
    rcases List.mem_cons.mp hid with rfl | hid
    · -- The first main step comes before every child.
      rcases List.mem_append.mp hk with hk | hk
      · exact hpart.main id (List.mem_singleton_self id) hk
      · have := h.bounds id hk
        omega
    · rcases List.mem_append.mp hk with hk | hk
      · have := hpart.bounds id hk
        have := hids id hid
        omega
      · exact h.main id hid hk
  · intro s hs t ht
    rw [hkids, List.mem_append, not_or]
    rcases List.mem_append.mp hs with hs | hs
    · -- A target is inside the part, or the next main step, which is no child.
      obtain ⟨hlt, hk⟩ := hpart.links s hs t ht
      refine ⟨hlt, hk, fun hk => ?_⟩
      rcases hleads s hs t ht with hlt | hid
      · have := h.bounds t hk
        omega
      · exact h.main t hid hk
    · obtain ⟨hlt, hk⟩ := h.links s hs t ht
      refine ⟨by omega, fun hk => ?_, hk⟩
      have := hpart.bounds t hk
      omega
  · intro s hs
    rcases List.mem_append.mp hs with hs | hs
    · exact hpart.container s hs
    · exact h.container s hs
  · intro s hs
    rcases List.mem_append.mp hs with hs | hs
    · exact hpart.irrefl s hs
    · exact h.irrefl s hs

/-- A regular step has no children, nor have its hooks. -/
theorem RegularBuild.apart (b : RegularBuild) {next : Option Nat} (hnext : ∀ id ∈ next, n < id) :
    Apart n [n] (b.steps n next) := by
  -- There are no children at all, so only the links have to be looked at.
  have hkids := b.flatMap_children (n := n) next
  refine ⟨?_, ?_, ?_, ?_, ?_, ?_⟩
  · intro k hk
    rw [hkids] at hk
    cases hk
  · rw [hkids]
    exact .nil
  · intro id hid
    rw [hkids]
    exact List.not_mem_nil
  · intro s hs t ht
    rw [hkids]
    exact ⟨b.lt_links hnext hs ht, List.not_mem_nil⟩
  · intro s hs hchildren
    exact absurd (b.children_eq_nil hs) hchildren
  · intro s hs
    rw [b.children_eq_nil hs]
    exact List.not_mem_nil

/-- A container leads to the next main step only. -/
theorem mem_containerStep_links {name : String} {errorBehavior : Option ErrorBehavior}
    {childIds : List Nat} {cond : Option StepCondition} {next : Option Nat} {t : Nat} :
    t ∈ (containerStep n name errorBehavior childIds cond next).links ↔ next = some t := by
  simp [WorkflowStep.links, containerStep, WorkflowStep.new, nextOutcomes]

/-- A container of at most one child: nothing inside the block leads to that child. -/
theorem Apart.container_append {children : List YamlStep} {childIds : List Nat}
    {inner : List WorkflowStep} {name : String} {errorBehavior : Option ErrorBehavior}
    {cond : Option StepCondition} {next : Option Nat} (hnarrow : children.length ≤ 1)
    (hchildren : Emits F true children (n + 1) childIds inner fs)
    (hinner : Apart (n + 1) childIds inner)
    (hnext : ∀ id ∈ next, n + 1 + inner.length ≤ id) :
    Apart n [n] (inner ++ [containerStep n name errorBehavior childIds cond next]) := by
  have hkids : (inner ++ [containerStep n name errorBehavior childIds cond next]).flatMap
      WorkflowStep.children = inner.flatMap WorkflowStep.children ++ childIds := by
    rw [List.flatMap_append, List.flatMap_singleton]
    rfl
  -- A block of at most one child: it can only be the step right after the container.
  have hchild (id : Nat) (hid : id ∈ childIds) : id = n + 1 ∧ id < n + 1 + inner.length :=
    ⟨(hchildren.eq_of_narrow hnarrow hid).1, (hchildren.main_bounds hid).2⟩
  have hbounds (k : Nat) (hk : k ∈ inner.flatMap WorkflowStep.children ++ childIds) :
      n < k ∧ k < n + 1 + inner.length := by
    rcases List.mem_append.mp hk with hk | hk
    · have := hinner.bounds k hk
      omega
    · have := hchild k hk
      omega
  refine ⟨?_, ?_, ?_, ?_, ?_, ?_⟩
  · intro k hk
    rw [hkids] at hk
    have := hbounds k hk
    rw [List.length_append, List.length_singleton]
    omega
  · rw [hkids]
    refine List.nodup_append.mpr ⟨hinner.nodup, ?_, ?_⟩
    · cases childIds with
      | nil => exact .nil
      | cons id childIds => exact (hchildren.eq_of_narrow hnarrow List.mem_cons_self).2
    · rintro k hk id hid rfl
      exact hinner.main k hid hk
  · intro id hid hk
    obtain rfl := List.mem_singleton.mp hid
    rw [hkids] at hk
    have := hbounds id hk
    omega
  · intro s hs t ht
    rw [hkids]
    rcases List.mem_append.mp hs with hs | hs
    · -- The only child is the first step of the block, and links lead further.
      obtain ⟨hlt, hk⟩ := hinner.links s hs t ht
      refine ⟨by omega, fun hk' => ?_⟩
      rcases List.mem_append.mp hk' with hk' | hk'
      · exact hk hk'
      · have := hchild t hk'
        omega
    · -- The container itself leads out of the block.
      obtain rfl := List.mem_singleton.mp hs
      have := hnext t (mem_containerStep_links.mp ht)
      refine ⟨by omega, fun hk => ?_⟩
      have := hbounds t hk
      omega
  · intro s hs hne
    rcases List.mem_append.mp hs with hs | hs
    · exact hinner.container s hs hne
    · obtain rfl := List.mem_singleton.mp hs
      rfl
  · intro s hs hid
    rcases List.mem_append.mp hs with hs | hs
    · exact hinner.irrefl s hs hid
    · obtain rfl := List.mem_singleton.mp hs
      exact absurd (hchild n hid).1 (by omega)

theorem Apart.regular {b : RegularBuild}
    (hys : Emits F linked ys (n + b.size) ids steps fs) (h : Apart (n + b.size) ids steps) :
    Apart n (n :: ids) (b.steps n (if linked then ids.head? else none) ++ steps) := by
  have hsize := b.size_pos
  have hnext (id : Nat) (hid : id ∈ (if linked then ids.head? else none)) : n < id := by
    have := (hys.next_bounds hid).1
    omega
  refine (b.apart hnext).append ?_ ?_ ?_ ?_
  · rwa [b.length_steps]
  · rw [b.length_steps]
    exact fun id hid => (hys.main_bounds hid).1
  · rwa [b.length_steps]
  · intro s hs t ht
    rw [b.length_steps]
    rcases b.refs_steps _ hs (s.links_subset_refs ht) with hr | hr
    · exact .inl hr.2
    · exact .inr (hys.next_bounds hr).2

theorem Apart.block {children : List YamlStep} {childIds : List Nat} {inner : List WorkflowStep}
    {fs' : List (String × StepFactory)} {name : String} {errorBehavior : Option ErrorBehavior}
    {cond : Option StepCondition} (hnarrow : children.length ≤ 1)
    (hchildren : Emits F true children (n + 1) childIds inner fs)
    (hys : Emits F linked ys (n + 1 + inner.length) ids steps fs')
    (hinner : Apart (n + 1) childIds inner) (h : Apart (n + 1 + inner.length) ids steps) :
    Apart n (n :: ids) (inner ++ [containerStep n name errorBehavior childIds cond
      (if linked then ids.head? else none)] ++ steps) := by
  have hlen : n + (inner ++ [containerStep n name errorBehavior childIds cond
      (if linked then ids.head? else none)]).length = n + 1 + inner.length := by
    rw [List.length_append, List.length_singleton]
    omega
  refine (hinner.container_append hnarrow hchildren fun id hid =>
    Nat.le_of_eq (hys.next_bounds hid).1.symm).append ?_ ?_ ?_ ?_
  · rwa [hlen]
  · rw [hlen]
    exact fun id hid => (hys.main_bounds hid).1
  · rw [List.length_append, List.length_singleton]
    exact Nat.succ_pos _
  · intro s hs t ht
    rw [hlen]
    rcases List.mem_append.mp hs with hs | hs
    · exact .inl (hchildren.links_lt hs ht)
    · obtain rfl := List.mem_singleton.mp hs
      exact .inr (hys.next_bounds (mem_containerStep_links.mp ht)).2

/-- With blocks of at most one child, nothing leads to a child. -/
theorem Emits.apart (h : Emits F linked ys n ids steps fs)
    (hnarrow : ∀ y ∈ mainSteps ys, ∀ children ∈ y.parallel, children.length ≤ 1) :
    Apart n ids steps := by
  induction h with
  | nil => exact ⟨by simp, .nil, by simp, by simp, by simp, by simp⟩
  | regular hb hys ih =>
    exact .regular hys (ih fun y hy => hnarrow y (List.mem_append_right _ hy))
  | block hy heb hcond hchildren hys ihchildren ih =>
    rename_i y children ys _ _ _ _ _ _ _ _ _
    -- The main steps of a block are its container and those of its children.
    have hmain : mainSteps (y :: ys) = y :: mainSteps children ++ mainSteps ys := by
      rw [mainSteps, YamlStep.withChildren_eq, hy, mainBlock]
    rw [hmain] at hnarrow
    refine .block (hnarrow y (by simp) children hy) hchildren hys (ihchildren ?_) (ih ?_)
    · exact fun y hy => hnarrow y (by simp [hy])
    · exact fun y hy => hnarrow y (by simp [hy])

/-- What is emitted with blocks of at most one child is detached. -/
theorem Emits.detached {d : WorkflowDefinition} (h : Emits F linked ys 0 ids d.steps fs)
    (hnarrow : ∀ y ∈ mainSteps ys, ∀ children ∈ y.parallel, children.length ≤ 1) :
    d.Detached := by
  have hapart := h.apart hnarrow
  refine ⟨hapart.nodup, fun h => ?_, fun s hs o ho => ?_, fun s hs id hid => ?_, hapart.container,
    hapart.irrefl⟩
  · exact absurd (hapart.bounds 0 h).1 (Nat.lt_irrefl 0)
  · exact (hapart.links s hs _ (List.mem_append_left _ (List.mem_map_of_mem ho))).2
  · exact (hapart.links s hs _ (List.mem_append_right _ (Option.mem_toList.mpr hid))).2

/-- The main steps have been compiled from the steps of the list. -/
theorem Emits.compiledFrom (h : Emits F linked ys n ids steps fs) :
    List.Forall₂ (fun y id => ∃ s ∈ steps, s.id = id ∧ CompiledFrom F y s) ys ids := by
  induction h with
  | nil => exact .nil
  | regular hb hys ih =>
    refine .cons (Emits.regular hb hys).head (ih.imp ?_)
    rintro y id ⟨s, hs, hid, hy⟩
    exact ⟨s, List.mem_append_right _ hs, hid, hy⟩
  | block hy heb hcond hchildren hys ihchildren ih =>
    refine .cons (Emits.block hy heb hcond hchildren hys).head (ih.imp ?_)
    rintro y id ⟨s, hs, hid, hy⟩
    exact ⟨s, List.mem_append_right _ hs, hid, hy⟩

end Apart

/-- A new instance satisfies the invariant of containers. -/
theorem Started.spawnInv {d : WorkflowDefinition} {w : WorkflowInstance} (hd : d.Detached)
    (h : Started d w) : SpawnInv d w.executionPointers := by
  rcases h.pointers with ⟨-, hnil⟩ | ⟨p, -, hp, hid, -, hstatus, hscope, -, -⟩
  · rw [hnil]
    exact ⟨by simp, by simp, by simp⟩
  · rw [hp]
    refine ⟨by simp [hscope], ?_, ?_⟩
    · simp [hid, hd.first]
    · simp [hstatus, hscope, ExecutionPointer.inner]

/-- The parallel blocks of a workflow run their children once: each is compiled to a container
whose children are the steps listed, and in every run in which the bodies proceed and the
conditions are true, a pointer of the container is complete only when there is one pointer for each
child in its scope, and no child follows another. -/
def ChildrenOnce (F : Features) (spec : WorkflowSpec) (d : WorkflowDefinition) : Prop :=
  ∀ y ∈ mainSteps spec.steps, ∀ children, y.parallel = some children →
    ∃ c ∈ d.steps, CompiledFrom F y c ∧
      List.Forall₂ (fun y id => ∃ s ∈ d.steps, s.id = id ∧ CompiledFrom F y s) children c.children ∧
      ∀ resolve host w₀ rans w, resolve sequenceKey = some SequenceStep.run → Started d w₀ →
        Passes d resolve host w₀ rans w → (∀ ran ∈ rans, ∀ r ∈ ran, r.Smooth d) →
        w.pointerIds.Nodup → SpawnedOnce w.executionPointers c

/-- **Parallel blocks of at most one child run their children once.** -/
theorem narrow_children_once (F : Features) (spec : WorkflowSpec) (cw : CompiledWorkflow)
    (h : compile F spec = .ok cw)
    (hnarrow : ∀ y ∈ mainSteps spec.steps, ∀ children, y.parallel = some children →
      children.length ≤ 1) : ChildrenOnce F spec cw.definition := by
  obtain ⟨ids, hemits⟩ := compile_emits h
  have hd : cw.definition.Detached := hemits.detached hnarrow
  intro y hy children hpar
  cases hemits.placed hy with
  | regular b n next hb hsteps => simp [hb.regular] at hpar
  | block children' n childIds inner fs eb cond next hy heb hcond hchildren hinner hcontainer =>
    obtain rfl : children = children' := Option.some_inj.mp (hpar.symm.trans hy)
    refine ⟨_, hcontainer, ?_, ?_, ?_⟩
    · rw [CompiledFrom, hy]
      exact ⟨rfl, rfl⟩
    · refine hchildren.compiledFrom.imp ?_
      rintro y id ⟨s, hs, hid, hy⟩
      exact ⟨s, hinner s hs, hid, hy⟩
    · intro resolve host w₀ rans w hseq hw₀ hpasses hran hids
      have hinv := hpasses.spawnInv hd hseq hran hids (hw₀.spawnInv hd)
      exact hinv.spawnedOnce hd hids (Table.get_of_mem hemits.nodup hcontainer)

/-- A workflow of nested blocks of one child each. -/
def nestedSpec : WorkflowSpec where
  id := "nested"
  version := 1
  steps := [
    { name := "outer",
      parallel := some [{ name := "inner", parallel := some [shellStep "test" "make test"] }] }]

theorem narrow_children_once_nested : validate nestedSpec = .ok () ∧
    ∃ cw, compile {} nestedSpec = .ok cw ∧ ChildrenOnce {} nestedSpec cw.definition ∧
      ∃ rans w, Passes cw.definition proceeding none (startOf cw.definition) rans w ∧
        (∀ ran ∈ rans, ∀ r ∈ ran, r.Smooth cw.definition) ∧ w.pointerIds.Nodup ∧
        w.status = .complete := by
  refine ⟨by decide, ?_⟩
  obtain ⟨cw, hcw, hrun⟩ := compile_any {} nestedSpec
    (fun cw => (Simulation.passes cw.definition proceeding none (startOf cw.definition)
      ["e", "d", "c", "b", "a"]).any (Function.uncurry fun rans w =>
        (∀ ran ∈ rans, ∀ r ∈ ran, r.Smooth cw.definition) ∧ w.pointerIds.Nodup ∧
          w.status = .complete)) (by decide)
  obtain ⟨rans, w, hpasses, hw⟩ := Simulation.passes_any hrun
  refine ⟨cw, hcw, narrow_children_once {} nestedSpec cw hcw ?_, rans, w, hpasses, ?_⟩
  · simp [nestedSpec, mainSteps, YamlStep.withChildren, mainBlock, shellStep]
  · exact of_decide_eq_true hw

/-- A block of two children. -/
def checksSpec : WorkflowSpec where
  id := "checks"
  version := 1
  steps := [
    { name := "checks",
      parallel := some [shellStep "lint" "make lint", shellStep "test" "make test"] }]

/-- The second child of the block runs twice: the container spawns it, and the first child leads to
it. -/
theorem checks_children_twice : validate checksSpec = .ok () ∧
    ∃ cw, compile {} checksSpec = .ok cw ∧ ¬ChildrenOnce {} checksSpec cw.definition := by
  refine ⟨by decide, ?_⟩
  obtain ⟨cw, hcw, hrun⟩ := compile_any {} checksSpec
    (fun cw => (Simulation.passes cw.definition proceeding none (startOf cw.definition)
      ["d", "c", "b", "a"]).any (Function.uncurry fun rans w =>
        (∀ ran ∈ rans, ∀ r ∈ ran, r.Smooth cw.definition) ∧ w.pointerIds.Nodup ∧
          ∃ p ∈ w.executionPointers, p.stepId = 0 ∧ p.status = .complete ∧
            spawnCount w.executionPointers 2 p.inner = 2) ∧
      ∀ c ∈ cw.definition.steps, c.name = some "checks" → c.id = 0 ∧ 2 ∈ c.children)
    (by decide)
  obtain ⟨hrun, hchecks⟩ := of_decide_eq_true hrun
  obtain ⟨rans, w, hpasses, hw⟩ := Simulation.passes_any hrun
  obtain ⟨hran, hids, p, hp, hid, hcomplete, htwice⟩ := of_decide_eq_true hw
  refine ⟨cw, hcw, fun honce => ?_⟩
  obtain ⟨c, hc, hname, -, honce⟩ := honce _ List.mem_cons_self _ rfl
  obtain ⟨hcid, hchild⟩ := hchecks c hc hname.1
  have hspawned := honce proceeding none _ rans w rfl (startOf_started _) hpasses hran hids
  have hone := hspawned.once p hp (hid.trans hcid.symm) hcomplete 2 hchild
  omega

end Wfe
