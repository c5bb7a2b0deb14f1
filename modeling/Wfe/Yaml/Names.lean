import Mathlib.Data.List.Perm.Basic
import Wfe.Yaml.References
import Wfe.Yaml.Validation

/-!
# The names of compiled steps

Validation makes the names of a workflow distinct, over all the steps and hooks that occur in it,
so a compiled step is known by its name. Not every step that occurs is compiled: the hooks of a
parallel block are not, nor is anything inside a hook.

## Main definitions

* `YamlStep.hooks`, `YamlStep.nested`: the hooks of a step, and the steps inside it
* `YamlStep.compiled`, `YamlStep.dropped`: the steps that are compiled with a main step, and those
  that are not
* `WorkflowDefinition.nameAt`: the name of the step with an id

## Main results

* `allSteps_perm`: the steps that occur in a workflow
* `Emits.names_perm`: the names of what is emitted
* `Emits.eq_of_name`, `Emits.name_ne_of_dropped`: compiled steps are known by their names
-/

namespace Wfe

/-- The steps inside a step. -/
def YamlStep.nested (y : YamlStep) : List YamlStep :=
  blockSteps y.parallel ++ hookSteps y.onSuccess ++ hookSteps y.onFailure ++ hookSteps y.ensure

/-- The hooks of a step, in the order they are compiled. -/
def YamlStep.hooks (y : YamlStep) : List YamlStep :=
  y.onFailure.toList ++ y.onSuccess.toList ++ y.ensure.toList

/-- The steps that are compiled with a main step: the step, and its hooks if it is regular. -/
def YamlStep.compiled (y : YamlStep) : List YamlStep :=
  y :: if y.parallel.isSome then [] else y.hooks

/-- The steps that are lost with a main step: the hooks of a block, and what is inside a hook. -/
def YamlStep.dropped (y : YamlStep) : List YamlStep :=
  if y.parallel.isSome then y.hooks.flatMap YamlStep.withNested else y.hooks.flatMap YamlStep.nested

/-! ## The steps that occur -/

section Occurring

theorem YamlStep.withNested_eq (y : YamlStep) : y.withNested = y :: y.nested := by
  obtain ⟨_, _, _, _, _, _, _, _, _, _, _⟩ := y
  rfl

theorem hookSteps_eq (hook : Option YamlStep) :
    hookSteps hook = hook.toList.flatMap YamlStep.withNested := by
  cases hook <;> simp [hookSteps]

theorem YamlStep.nested_perm (y : YamlStep) :
    y.nested.Perm (y.hooks.flatMap YamlStep.withNested ++ blockSteps y.parallel) := by
  simp only [nested, hooks, hookSteps_eq, List.flatMap_append, List.append_assoc]
  refine List.perm_append_comm.trans ?_
  simp only [List.append_assoc]
  exact List.perm_append_comm_assoc ..

/-- What is inside a step, but not inside its block, is compiled or dropped with it. -/
theorem YamlStep.withNested_perm (y : YamlStep) :
    y.withNested.Perm (y.compiled ++ y.dropped ++ blockSteps y.parallel) := by
  rw [withNested_eq, compiled, dropped, List.cons_append, List.cons_append]
  refine (y.nested_perm.trans (List.Perm.append_right _ ?_)).cons y
  split_ifs
  · exact .refl _
  · have hhooks : y.hooks.flatMap YamlStep.withNested = y.hooks.flatMap fun h => h :: h.nested :=
      congrArg y.hooks.flatMap (funext withNested_eq)
    rw [hhooks]
    simpa using (List.map_append_flatMap_perm y.hooks id YamlStep.nested).symm

/-- **The steps that occur in a workflow** are compiled or dropped with its main steps. -/
theorem allSteps_perm (ys : List YamlStep) :
    (allSteps ys).Perm ((mainSteps ys).flatMap fun y => y.compiled ++ y.dropped) := by
  let all (ys : List YamlStep) := ys.flatMap fun y => y.compiled ++ y.dropped
  -- By induction over the blocks; what is inside hooks is counted as dropped.
  refine YamlStep.induction (P := fun y => y.withNested.Perm (all y.withChildren))
    (Q := fun ys => (allSteps ys).Perm (all (mainSteps ys))) ?_ ?_ ?_ ?_ ys
  · intro y hy
    simpa [all, YamlStep.withChildren_eq, hy, mainBlock, blockSteps] using y.withNested_perm
  · intro y children hy ih
    refine y.withNested_perm.trans ?_
    simp only [all, YamlStep.withChildren_eq, hy, mainBlock, blockSteps, List.flatMap_cons]
    exact ih.append_left _
  · exact .nil
  · intro y ys hy ih
    simp only [all, allSteps, mainSteps, List.flatMap_append]
    exact hy.append ih

end Occurring

/-! ## The steps that are compiled -/

section Compiled

variable {F : Features} {linked : Bool} {ys : List YamlStep} {x y : YamlStep} {n : Nat}
  {ids : List Nat} {steps : List WorkflowStep} {fs : List (String × StepFactory)}
  {s s' : WorkflowStep}

/-- A built hook keeps its name. -/
theorem buildHook_mapM_name {hook : Option YamlStep} {b : Option (String × BuiltStep)}
    (h : hook.mapM (buildHook F) = .ok b) :
    b.toList.map Prod.fst = hook.toList.map YamlStep.name := by
  obtain ⟨rfl, rfl⟩ | ⟨y, built, rfl, rfl, -⟩ := buildHook_mapM h <;> rfl

theorem RegularBuild.Of.names {b : RegularBuild} (hb : b.Of F y) (n : Nat) (next : Option Nat) :
    ((b.steps n next).map WorkflowStep.name).Perm (y.compiled.map fun y => some y.name) := by
  have hhooks : (b.hookSteps n next).map WorkflowStep.name = y.hooks.map fun y => some y.name := by
    have hsome (hook : Option YamlStep) : hook.toList.map (fun y => some y.name) =
        (hook.toList.map YamlStep.name).map some := by simp
    simp only [YamlStep.hooks, List.map_append, hsome, ← buildHook_mapM_name hb.failure,
      ← buildHook_mapM_name hb.success, ← buildHook_mapM_name hb.ensure]
    simp [hookSteps, BuiltStep.toStep, Function.comp_def]
  rw [steps, List.map_append, hhooks, YamlStep.compiled, hb.regular]
  refine List.perm_append_comm.trans ?_
  simp [mainStep, BuiltStep.toStep, hb.name]

/-- The names of what is emitted are those of the main steps and of the hooks compiled with
them. -/
theorem Emits.names_perm (h : Emits F linked ys n ids steps fs) :
    (steps.map WorkflowStep.name).Perm
      (((mainSteps ys).flatMap YamlStep.compiled).map fun y => some y.name) := by
  induction h with
  | nil => exact .nil
  | regular hb hys ih =>
    simp only [mainSteps, YamlStep.withChildren_eq, hb.regular, mainBlock, List.map_append,
      List.flatMap_append, List.flatMap_singleton]
    exact (hb.names _ _).append ih
  | block hy heb hcond hchildren hys ihchildren ih =>
    rename_i y _ _ _ _ _ _ _ _ _ _ _
    have hown : y.compiled = [y] := by simp [YamlStep.compiled, hy]
    simp only [mainSteps, YamlStep.withChildren_eq, hy, mainBlock, List.map_append,
      List.flatMap_append, List.flatMap_cons, hown]
    refine List.Perm.append (List.perm_append_comm.trans ?_) ih
    exact ihchildren.append_left _

/-- The names of the steps that are compiled, and of those that are dropped, are distinct. -/
theorem compiled_dropped_nodup (hnames : ((allSteps ys).map YamlStep.name).Nodup) :
    ((((mainSteps ys).flatMap YamlStep.compiled).map YamlStep.name) ++
      ((mainSteps ys).flatMap YamlStep.dropped).map YamlStep.name).Nodup := by
  rw [← List.map_append]
  refine (List.Perm.map _ ?_).nodup_iff.mp hnames
  exact (allSteps_perm ys).trans (List.flatMap_append_perm ..).symm

/-- A compiled step is known by its name. -/
theorem Emits.eq_of_name (h : Emits F linked ys n ids steps fs)
    (hnames : ((allSteps ys).map YamlStep.name).Nodup) (hs : s ∈ steps) (hs' : s' ∈ steps)
    (hname : s.name = s'.name) : s = s' := by
  have hcompiled := (compiled_dropped_nodup hnames).of_append_left
  refine List.inj_on_of_nodup_map (h.names_perm.nodup_iff.mpr ?_) hs hs' hname
  simpa [List.map_map, Function.comp_def] using hcompiled.map fun _ _ => Option.some.inj

theorem Emits.exists_of_name (h : Emits F linked ys n ids steps fs) (hs : s ∈ steps) :
    ∃ y ∈ (mainSteps ys).flatMap YamlStep.compiled, s.name = some y.name := by
  obtain ⟨y, hy, hname⟩ := List.mem_map.mp (h.names_perm.mem_iff.mp (List.mem_map_of_mem hs))
  exact ⟨y, hy, hname.symm⟩

/-- No compiled step has the name of a step that is dropped. -/
theorem Emits.name_ne_of_dropped (h : Emits F linked ys n ids steps fs)
    (hnames : ((allSteps ys).map YamlStep.name).Nodup) (hy : y ∈ mainSteps ys) (hx : x ∈ y.dropped)
    (hs : s ∈ steps) : s.name ≠ some x.name := by
  intro hname
  obtain ⟨z, hz, hname'⟩ := h.exists_of_name hs
  have hdropped : x ∈ (mainSteps ys).flatMap YamlStep.dropped := List.mem_flatMap.mpr ⟨y, hy, hx⟩
  refine (List.nodup_append.mp (compiled_dropped_nodup hnames)).2.2 _ (List.mem_map_of_mem hz) _
    (List.mem_map_of_mem hdropped) ?_
  exact Option.some_inj.mp (hname'.symm.trans hname)

end Compiled

/-- The name of the step with the given id. -/
def WorkflowDefinition.nameAt (d : WorkflowDefinition) (id : Nat) : Option String :=
  (d.findStep id).bind WorkflowStep.name

end Wfe
