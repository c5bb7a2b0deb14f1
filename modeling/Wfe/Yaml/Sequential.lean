import Mathlib.Data.List.Forall2
import Wfe.Executor.Chain
import Wfe.Library.Table
import Wfe.Yaml.References

/-!
# Sequential workflows run in source order

A workflow without parallel blocks compiles to a chain: each main step leads to its `on_success`
hook, or else to its `ensure` hook, or else to the next main step, and the hook leads to the next
main step. So with bodies that all proceed it runs in source order.

## Main definitions

* `YamlStep.program`, `sourceOrder`: the steps a specification names, in source order
* `Sequence`: the steps they are compiled to

## Main results

* `Emits.sequence`: a list of regular steps is compiled to a sequence
* `sequential_order`: sequential workflows run in source order
-/

namespace Wfe

/-- The main step, followed by its `on_success` hook, or else by its `ensure` hook. -/
def YamlStep.program (y : YamlStep) : List YamlStep := y :: (y.onSuccess <|> y.ensure).toList

def sourceOrder (ys : List YamlStep) : List YamlStep := ys.flatMap YamlStep.program

/-- The steps with ids `ids` are built from `ys`, and lead one to the next and at last to
`last`. -/
inductive Sequence (F : Features) (steps : List WorkflowStep) (last : Option Nat) :
    List YamlStep → List Nat → Prop
  | nil : Sequence F steps last [] []
  | cons {y : YamlStep} {ys : List YamlStep} {s : WorkflowStep} {ids : List Nat}
      (hs : s ∈ steps) (hy : BuiltFrom F y s) (hnext : findNextStep s none = ids.head?.or last)
      (h : Sequence F steps last ys ids) : Sequence F steps last (y :: ys) (s.id :: ids)

section Sequence

variable {F : Features} {n : Nat} {ids ids' : List Nat} {steps steps' : List WorkflowStep}
  {fs : List (String × StepFactory)} {y : YamlStep} {ys ys' : List YamlStep}
  {next last : Option Nat} {b : RegularBuild}

theorem Sequence.mono (h : Sequence F steps last ys ids) (hsub : ∀ s ∈ steps, s ∈ steps') :
    Sequence F steps' last ys ids := by
  induction h with
  | nil => exact .nil
  | cons hs hy hnext _ ih => exact .cons (hsub _ hs) hy hnext ih

theorem Sequence.append (h : Sequence F steps (ids'.head?.or last) ys ids)
    (h' : Sequence F steps' last ys' ids') :
    Sequence F (steps ++ steps') last (ys ++ ys') (ids ++ ids') := by
  induction h with
  | nil => exact h'.mono fun s hs => List.mem_append_right _ hs
  | cons hs hy hnext _ ih =>
    rw [List.cons_append, List.cons_append]
    refine .cons (List.mem_append_left _ hs) hy ?_ ih
    rw [hnext, List.head?_append, Option.or_assoc]

theorem findNextStep_nextOutcomes (s : WorkflowStep) (next : Option Nat)
    (h : s.outcomes = nextOutcomes next) : findNextStep s none = next := by
  cases next <;> simp [findNextStep, h, nextOutcomes]

/-- The hook a main step leads to. -/
def RegularBuild.hookId (b : RegularBuild) (n : Nat) : Option Nat :=
  (b.successId n).or (b.ensureId n)

theorem RegularBuild.Of.built (hb : b.Of F y) (n : Nat) (next : Option Nat) :
    BuiltFrom F y (b.mainStep n next) :=
  ⟨congrArg some hb.name, b.main, hb.main, rfl, rfl⟩

/-- A main step, and the hook it leads to. -/
theorem RegularBuild.Of.sequence_hook (hb : b.Of F y) {hook : YamlStep} {s : WorkflowStep}
    (hs : s ∈ b.hookSteps n next) (hbuilt : BuiltFrom F hook s)
    (houtcomes : s.outcomes = nextOutcomes next)
    (hleads : findNextStep (b.mainStep n next) none = some s.id) :
    Sequence F (b.steps n next) next [y, hook] [n, s.id] := by
  refine .cons (List.mem_append_right _ List.mem_cons_self) (hb.built n next) hleads ?_
  refine .cons (List.mem_append_left _ hs) hbuilt ?_ .nil
  exact findNextStep_nextOutcomes _ _ houtcomes

theorem RegularBuild.Of.sequence (hb : b.Of F y) (n : Nat) (next : Option Nat) :
    Sequence F (b.steps n next) next y.program (n :: (b.hookId n).toList) := by
  rcases buildHook_mapM hb.success with
    ⟨hsuccess, hsuccess'⟩ | ⟨hook, built, hsuccess, hsuccess', hbuilt⟩
  · rcases buildHook_mapM hb.ensure with
      ⟨hensure, hensure'⟩ | ⟨hook, built, hensure, hensure', hbuilt⟩
    · have hprogram : y.program = [y] := by simp [YamlStep.program, hsuccess, hensure]
      have hid : b.hookId n = none := by
        simp [RegularBuild.hookId, RegularBuild.successId, RegularBuild.ensureId, hsuccess',
          hensure']
      rw [hprogram, hid]
      refine .cons (List.mem_append_right _ List.mem_cons_self) (hb.built n next) ?_ .nil
      exact findNextStep_nextOutcomes _ _ (by simp [RegularBuild.mainStep, hsuccess', hensure'])
    · have hprogram : y.program = [y, hook] := by simp [YamlStep.program, hsuccess, hensure]
      have hid : b.hookId n = some (n + 1 + b.failure.toList.length) := by
        simp [RegularBuild.hookId, RegularBuild.successId, RegularBuild.ensureId, hsuccess',
          hensure']
      rw [hprogram, hid]
      refine hb.sequence_hook (s := { built.toStep _ hook.name with
        outcomes := nextOutcomes next }) ?_ ⟨rfl, built, hbuilt, rfl, rfl⟩ rfl ?_
      · simp [RegularBuild.hookSteps, hsuccess', hensure']
      · simp [findNextStep, RegularBuild.mainStep, hsuccess', hensure', hookOutcomes,
          RegularBuild.successId, RegularBuild.ensureId, BuiltStep.toStep, WorkflowStep.new]
  · -- An `ensure` hook beside an `on_success` hook is built, and nothing leads to it.
    have hprogram : y.program = [y, hook] := by simp [YamlStep.program, hsuccess]
    have hid : b.hookId n = some (n + 1 + b.failure.toList.length) := by
      simp [RegularBuild.hookId, RegularBuild.successId, hsuccess']
    rw [hprogram, hid]
    refine hb.sequence_hook (s := { built.toStep _ hook.name with
      outcomes := nextOutcomes next }) ?_ ⟨rfl, built, hbuilt, rfl, rfl⟩ rfl ?_
    · simp [RegularBuild.hookSteps, hsuccess']
    · simp [findNextStep, RegularBuild.mainStep, hsuccess', hookOutcomes, RegularBuild.successId,
        BuiltStep.toStep, WorkflowStep.new]

/-- The hook a main step leads to has an id among those of its hooks. -/
theorem RegularBuild.hookId_bounds (b : RegularBuild) {id : Nat} (h : b.hookId n = some id) :
    n < id ∧ id < n + b.size := by
  rcases b with ⟨_, _, _, _, _ | _, _ | _, _ | _⟩ <;>
    simp [hookId, successId, ensureId, size] at h ⊢ <;> omega

/-- A list of regular steps is compiled to a sequence, with ids in ascending order. -/
theorem Emits.sequence (h : Emits F true ys n ids steps fs)
    (hseq : ∀ y ∈ ys, y.parallel = none) :
    ∃ order, Sequence F steps none (sourceOrder ys) order ∧ order.head? = ids.head? ∧
      order.Pairwise (· < ·) ∧ ∀ id ∈ order, n ≤ id := by
  -- The order is that of the main steps, each followed by the hook it leads to.
  generalize hlinked : true = linked at h
  induction h with
  | nil => exact ⟨[], .nil, rfl, .nil, by simp⟩
  | regular hb hys ih =>
    subst hlinked
    rename_i n b ids steps fs
    obtain ⟨order, hsequence, hhead, hsorted, hle⟩ :=
      ih (fun y hy => hseq y (List.mem_cons_of_mem _ hy)) rfl
    refine ⟨n :: (b.hookId n).toList ++ order, ?_, rfl, ?_, ?_⟩
    · refine Sequence.append ?_ hsequence
      rw [hhead, Option.or_none]
      exact hb.sequence n _
    · -- The ids of a step and its hooks come before those of the next step.
      refine List.pairwise_append.mpr ⟨?_, hsorted, fun i hi j hj => ?_⟩
      · refine List.pairwise_cons.mpr ⟨fun i hi => ?_, ?_⟩
        · exact (b.hookId_bounds (Option.mem_toList.mp hi)).1
        · cases b.hookId n <;> simp
      · have hj := hle j hj
        have hi : i < n + b.size := by
          rcases List.mem_cons.mp hi with rfl | hi
          · have := b.size_pos
            omega
          · exact (b.hookId_bounds (Option.mem_toList.mp hi)).2
        omega
    · intro i hi
      rcases List.mem_append.mp hi with hi | hi
      · rcases List.mem_cons.mp hi with rfl | hi
        · exact Nat.le_refl _
        · exact Nat.le_of_lt (b.hookId_bounds (Option.mem_toList.mp hi)).1
      · exact Nat.le_trans (Nat.le_add_right _ _) (hle i hi)
  | block hy => simp [hy] at hseq

/-- A sequence that leads nowhere is a chain. -/
theorem Sequence.chain {definition : WorkflowDefinition}
    (hnodup : (definition.steps.map WorkflowStep.id).Nodup)
    (h : Sequence F definition.steps none ys ids) :
    definition.Chain ids ∧ List.Forall₂
      (fun y id => ∃ s, definition.findStep id = some s ∧ BuiltFrom F y s) ys ids := by
  induction h with
  | nil => exact ⟨trivial, .nil⟩
  | cons hs hy hnext _ ih =>
    have hfind := Table.get_of_mem hnodup hs
    exact ⟨⟨⟨_, hfind, by rw [hnext, Option.or_none]⟩, ih.1⟩, .cons ⟨_, hfind, hy⟩ ih.2⟩

/-- A new instance is at the first step of a chain that starts at step 0. -/
theorem Started.chainAt {definition : WorkflowDefinition} {w : WorkflowInstance}
    (h : Started definition w) (hchain : definition.Chain ids) (hids : ids.head? = some 0) :
    ChainAt ids 0 w := by
  obtain ⟨id, ids, rfl⟩ := List.exists_cons_of_ne_nil (l := ids) (by rintro rfl; cases hids)
  obtain rfl : id = 0 := by simpa using hids
  obtain ⟨step, hstep, -⟩ := hchain.1
  rcases h.pointers with ⟨hnil, -⟩ | ⟨p, -, hp, hid, hactive, hstatus, -, -, hsleep⟩
  · simp [WorkflowDefinition.findStep, hnil] at hstep
  · refine ⟨⟨[], [p], hp, rfl, by simp, by simp [hid], ?_⟩, by simp [h.status]⟩
    intro q hq
    obtain rfl := List.mem_singleton.mp hq
    exact ⟨hactive, hstatus, hsleep⟩

end Sequence

/-- **Sequential workflows run in source order.** A workflow without parallel blocks runs one step
in each pass as long as every body proceeds and every condition is true: each main step, followed
by its `on_success` hook or else by its `ensure` hook. It is complete when all have run, and as
long as it is not, and the next body proceeds, the next pass can be made. -/
theorem sequential_order (F : Features) (spec : WorkflowSpec) (cw : CompiledWorkflow)
    (h : compile F spec = .ok cw) (hsteps : spec.steps ≠ [])
    (hseq : ∀ y ∈ spec.steps, y.parallel = none) :
    ∃ order : List Nat, order.Nodup ∧
      List.Forall₂ (fun y id => ∃ s, cw.definition.findStep id = some s ∧ BuiltFrom F y s)
        (sourceOrder spec.steps) order ∧
      ∀ w₀, Started cw.definition w₀ → ∀ resolve host rans w,
        Passes cw.definition resolve host w₀ rans w →
        (∀ ran ∈ rans, ∀ r ∈ ran, r.Proceeded) →
        rans.length ≤ order.length ∧
        rans.map (List.map Ran.stepId) = (order.take rans.length).map (fun id => [id]) ∧
        (w.status = .complete ↔ rans.length = order.length) ∧
        ∀ s, order[rans.length]?.bind cw.definition.findStep = some s →
          s.when.all (fun c => Condition.evaluate c w.data matches .ok true) →
          ∀ body, resolve s.stepType = some body →
          (∀ context r, Yields host body context r →
            ∃ result, r = .ok result ∧ result.proceed = true ∧ result.outcomeValue = none) →
          ∃ ran w', Pass cw.definition resolve host w ran w' ∧ ∀ r ∈ ran, r.Proceeded := by
  obtain ⟨ids, hemits⟩ := compile_emits h
  obtain ⟨order, hsequence, hhead, hsorted, -⟩ := hemits.sequence hseq
  obtain ⟨hchain, hforall⟩ := hsequence.chain hemits.nodup
  refine ⟨order, hsorted.imp Nat.ne_of_lt, hforall, ?_⟩
  intro w₀ hw₀ resolve host rans w hpasses hran
  -- A new instance stands at step 0, the first of the chain.
  have h₀ := hw₀.chainAt hchain (hhead.trans (hemits.head_ids hsteps))
  obtain ⟨hat, hle, hmap⟩ := h₀.passes hchain hpasses hran
  refine ⟨hle, hmap, ?_, ?_⟩
  · rw [hat.status]
    split_ifs with hlt
    · simp [Nat.ne_of_lt hlt]
    · simp [Nat.le_antisymm hle (Nat.le_of_not_lt hlt)]
  · intro s hs hwhen body hbody hproceeds
    obtain ⟨id, hid, hs⟩ := Option.bind_eq_some_iff.mp hs
    obtain ⟨hlt, rfl⟩ := List.getElem?_eq_some_iff.mp hid
    exact hat.exists_pass hlt hs hwhen hbody hproceeds

/-- A pipeline with hooks on two of its three steps. -/
def pipelineSpec : WorkflowSpec where
  id := "pipeline"
  version := 1
  steps := [
    { shellStep "build" "make" with
      onSuccess := some (shellStep "notify" "mail")
      ensure := some (shellStep "unlock" "rm lock") },
    { shellStep "test" "make test" with ensure := some (shellStep "clean" "make clean") },
    shellStep "publish" "make publish"]

/-- The pipeline runs to its end in five passes. -/
theorem sequential_order_pipeline : ∃ cw, compile {} pipelineSpec = .ok cw ∧
    ∃ (order : List Nat) (w₀ w : WorkflowInstance) (rans : List (List Ran)), order.length = 5 ∧
      Started cw.definition w₀ ∧
      Passes cw.definition (fun _ => some proceedBody) none w₀ rans w ∧
      rans.map (List.map Ran.stepId) = order.map (fun id => [id]) ∧ w.status = .complete := by
  obtain ⟨cw, hcw, hwhen⟩ := compile_any {} pipelineSpec
    (fun cw => cw.definition.steps.all fun s => s.when.isNone) (by decide +kernel)
  obtain ⟨order, -, hforall, hruns⟩ := sequential_order {} pipelineSpec cw hcw (by decide +kernel)
    (by simp [pipelineSpec, shellStep])
  let w₀ := { WorkflowHost.newInstance default cw.definition "pipeline" 1 .null with name := "" }
  have hw₀ : Started cw.definition w₀ := .root default "pipeline" 1 .null ""
  have hbody (context : StepExecutionContext) (r : Except WfeError ExecutionResult)
      (h : Yields none proceedBody context r) :
      ∃ result, r = .ok result ∧ result.proceed = true ∧ result.outcomeValue = none := by
    obtain ⟨tr, h⟩ := h
    obtain ⟨-, rfl⟩ := Program.path_ret.mp h
    exact ⟨_, rfl, rfl, rfl⟩
  have hrun (k : Nat) (hk : k ≤ order.length) : ∃ rans w,
      Passes cw.definition (fun _ => some proceedBody) none w₀ rans w ∧
        (∀ ran ∈ rans, ∀ r ∈ ran, r.Proceeded) ∧ rans.length = k := by
    induction k with
    | zero => exact ⟨[], w₀, .nil, by simp, rfl⟩
    | succ k ih =>
      obtain ⟨rans, w, hpasses, hran, rfl⟩ := ih (Nat.le_of_succ_le hk)
      obtain ⟨s, hs, -⟩ := (List.forall₂_iff_get.mp hforall).2 rans.length
        (hforall.length_eq ▸ hk) hk
      have hnone : s.when = none := by
        simpa using List.all_eq_true.mp hwhen s (List.mem_of_find?_eq_some hs)
      obtain ⟨ran, w', hpass, hran'⟩ := (hruns w₀ hw₀ _ _ rans w hpasses hran).2.2.2 s
        (by simpa [List.getElem?_eq_getElem (Nat.lt_of_succ_le hk)] using hs) (by simp [hnone])
        proceedBody rfl hbody
      refine ⟨rans ++ [ran], w', .snoc hpasses hpass, ?_, by simp⟩
      intro ran' hmem
      rcases List.mem_append.mp hmem with hmem | hmem
      · exact hran ran' hmem
      · exact List.mem_singleton.mp hmem ▸ hran'
  obtain ⟨rans, w, hpasses, hran, hlen⟩ := hrun order.length (Nat.le_refl _)
  obtain ⟨-, hmap, hcomplete, -⟩ := hruns w₀ hw₀ _ _ rans w hpasses hran
  rw [hlen, List.take_length] at hmap
  exact ⟨cw, hcw, order, w₀, w, rans, hforall.length_eq.symm, hw₀, hpasses, hmap,
    hcomplete.mpr hlen⟩

end Wfe
