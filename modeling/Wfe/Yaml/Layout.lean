import Wfe.Yaml.Compiler

/-!
# The layout of compiled workflows

What `compile_steps` produces, described along the specification: for each regular step its hooks
and then the step itself, for each parallel block the steps of its children and then the
container, with ids in the order they were handed out. The two loops of the compiler are taken
apart: the first one emits the steps of a list unlinked, the second one links them.

## Main definitions

* `RegularBuild`: a regular step with its hooks, built
* `Emits F linked ys n ids steps factories`: the list `ys`, compiled from id `n` on
* `mainSteps`, `Placed`: the steps that are compiled as main steps, and what they are compiled to

## Main results

* `compileList_emits`: the first loop
* `wire_emits`: the second loop
* `Emits.placed`: every main step has its place
* `compile_emits`: a compiled workflow
-/

namespace Wfe

/-- The outcome by which a step leads to the next main step. -/
def nextOutcomes (next : Option Nat) : List StepOutcome :=
  next.toList.map fun id => ⟨id, none, none⟩

/-- A regular step and its hooks, built. -/
structure RegularBuild where
  name : String
  main : BuiltStep
  errorBehavior : Option ErrorBehavior
  when : Option StepCondition
  failure : Option (String × BuiltStep)
  success : Option (String × BuiltStep)
  ensure : Option (String × BuiltStep)

namespace RegularBuild

variable (b : RegularBuild) (n : Nat) (next : Option Nat)

def failureId : Option Nat := b.failure.map fun _ => n + 1

def successId : Option Nat := b.success.map fun _ => n + 1 + b.failure.toList.length

def ensureId : Option Nat :=
  b.ensure.map fun _ => n + 1 + b.failure.toList.length + b.success.toList.length

/-- The number of ids taken. -/
def size : Nat :=
  1 + b.failure.toList.length + b.success.toList.length + b.ensure.toList.length

theorem size_pos : 0 < b.size := by
  unfold size
  omega

/-- The main step: it leads to its hook, or on to the next main step. -/
def mainStep : WorkflowStep :=
  { b.main.toStep n b.name with
    errorBehavior := if b.failure.isSome then some .compensate else b.errorBehavior
    when := b.when
    compensationStepId := b.failureId n
    outcomes :=
      if b.success.isNone ∧ b.ensure.isNone then nextOutcomes next
      else hookOutcomes (b.successId n) (b.ensureId n) }

/-- The steps of the hooks: the one the main step leads to leads on to the next main step. -/
def hookSteps : List WorkflowStep :=
  (b.failure.toList.map fun h => h.2.toStep (n + 1) h.1) ++
  (b.success.toList.map fun h =>
    { h.2.toStep (n + 1 + b.failure.toList.length) h.1 with outcomes := nextOutcomes next }) ++
  b.ensure.toList.map fun h =>
    { h.2.toStep (n + 1 + b.failure.toList.length + b.success.toList.length) h.1 with
      outcomes := if b.success.isSome then [] else nextOutcomes next }

def steps : List WorkflowStep := b.hookSteps n next ++ [b.mainStep n next]

def factories : List (String × StepFactory) :=
  ((b.failure.toList ++ b.success.toList ++ b.ensure.toList).map fun h => (h.2.key, h.2.factory)) ++
    [(b.main.key, b.main.factory)]

end RegularBuild

/-- A hook, built. -/
def buildHook (F : Features) (hook : YamlStep) : Compiled (String × BuiltStep) := do
  let built ← buildStep F hook
  return (hook.name, built)

/-- A hook that was built. -/
theorem buildHook_mapM {F : Features} {hook : Option YamlStep} {b : Option (String × BuiltStep)}
    (h : hook.mapM (buildHook F) = .ok b) :
    (hook = none ∧ b = none) ∨
      ∃ y built, hook = some y ∧ b = some (y.name, built) ∧ buildStep F y = .ok built := by
  cases hook with
  | none =>
    cases h
    exact .inl ⟨rfl, rfl⟩
  | some y =>
    -- The hook is built, and keeps its name.
    rw [Option.mapM_some, ← bind_pure_comp] at h
    obtain ⟨_, hbuild, h⟩ := Compiled.bind_eq_ok.mp h
    cases h
    obtain ⟨built, hbuilt, h⟩ := Compiled.bind_eq_ok.mp hbuild
    cases h
    exact .inr ⟨y, built, rfl, rfl, hbuilt⟩

/-- `b` is the step `y`, built. -/
structure RegularBuild.Of (F : Features) (y : YamlStep) (b : RegularBuild) : Prop where
  regular : y.parallel = none
  name : b.name = y.name
  main : buildStep F y = .ok b.main
  errorBehavior : y.errorBehavior.mapM mapErrorBehavior = .ok b.errorBehavior
  when : y.when.mapM compileCondition = .ok b.when
  failure : y.onFailure.mapM (buildHook F) = .ok b.failure
  success : y.onSuccess.mapM (buildHook F) = .ok b.success
  ensure : y.ensure.mapM (buildHook F) = .ok b.ensure

/-- The container of a parallel block. -/
def containerStep (id : Nat) (name : String) (errorBehavior : Option ErrorBehavior)
    (children : List Nat) (cond : Option StepCondition) (next : Option Nat) : WorkflowStep :=
  { WorkflowStep.new id sequenceKey with
    name := some name
    errorBehavior := errorBehavior
    children := children
    when := cond
    outcomes := nextOutcomes next }

/-- `Emits F linked ys n ids steps factories`: compiled from id `n` on, the list `ys` gives `steps`
and `factories`; its main steps have the ids `ids`, and lead to each other if `linked`. -/
inductive Emits (F : Features) :
    Bool → List YamlStep → Nat → List Nat → List WorkflowStep → List (String × StepFactory) → Prop
  | nil (linked : Bool) (n : Nat) : Emits F linked [] n [] [] []
  | regular {linked : Bool} {y : YamlStep} {ys : List YamlStep} {n : Nat} {b : RegularBuild}
      {ids : List Nat}
      {steps : List WorkflowStep} {fs : List (String × StepFactory)} (hb : b.Of F y)
      (hys : Emits F linked ys (n + b.size) ids steps fs) :
      Emits F linked (y :: ys) n (n :: ids)
        (b.steps n (if linked then ids.head? else none) ++ steps) (b.factories ++ fs)
  | block {linked : Bool} {y : YamlStep} {children ys : List YamlStep} {n : Nat}
      {childIds ids : List Nat}
      {inner steps : List WorkflowStep} {fs fs' : List (String × StepFactory)}
      {errorBehavior : Option ErrorBehavior} {cond : Option StepCondition}
      (hy : y.parallel = some children)
      (heb : y.errorBehavior.mapM mapErrorBehavior = .ok errorBehavior)
      (hcond : y.when.mapM compileCondition = .ok cond)
      (hchildren : Emits F true children (n + 1) childIds inner fs)
      (hys : Emits F linked ys (n + 1 + inner.length) ids steps fs') :
      Emits F linked (y :: ys) n (n :: ids)
        (inner ++ [containerStep n y.name errorBehavior childIds cond
          (if linked then ids.head? else none)] ++ steps) (fs ++ fs')

/-! ## Ids -/

section Ids

@[simp] theorem BuiltStep.toStep_id (b : BuiltStep) (id : Nat) (name : String) :
    (b.toStep id name).id = id := rfl

/-- The hooks take the ids after that of their main step. -/
theorem RegularBuild.ids_hookSteps (b : RegularBuild) (n : Nat) (next : Option Nat) :
    (b.hookSteps n next).map WorkflowStep.id = List.range' (n + 1) (b.size - 1) := by
  rcases b with ⟨_, _, _, _, _ | _, _ | _, _ | _⟩ <;> simp [hookSteps, size, List.range']

theorem RegularBuild.ids_steps (b : RegularBuild) (n : Nat) (next : Option Nat) :
    ((b.steps n next).map WorkflowStep.id).Perm (List.range' n b.size) := by
  have hsize : b.size = b.size - 1 + 1 := by simp [size]; omega
  rw [steps, List.map_append, b.ids_hookSteps, hsize, List.range'_succ]
  exact List.perm_append_comm

@[simp] theorem RegularBuild.length_steps (b : RegularBuild) (n : Nat) (next : Option Nat) :
    (b.steps n next).length = b.size := by
  simpa using (b.ids_steps n next).length_eq

variable {F : Features} {linked : Bool} {ys : List YamlStep} {n : Nat} {ids : List Nat}
  {steps : List WorkflowStep} {fs : List (String × StepFactory)}

/-- Every id is used once. -/
theorem Emits.ids_perm (h : Emits F linked ys n ids steps fs) :
    (steps.map WorkflowStep.id).Perm (List.range' n steps.length) := by
  induction h with
  | nil => exact .nil
  | regular hb hys ih =>
    rename_i b _ steps _
    rw [List.map_append, List.length_append, b.length_steps, ← List.range'_append_1]
    exact (b.ids_steps _ _).append ih
  | block hy heb hcond hchildren hys ihchildren ih =>
    rename_i inner steps _ _ _ _
    rw [List.map_append, List.length_append, ← List.range'_append_1]
    refine List.Perm.append ?_ ?_
    · rw [List.map_append, List.length_append, List.length_singleton, List.range'_succ]
      exact (ihchildren.append_right _).trans List.perm_append_comm
    · simpa [Nat.add_assoc, Nat.add_comm 1] using ih

theorem Emits.nodup (h : Emits F linked ys n ids steps fs) :
    (steps.map WorkflowStep.id).Nodup :=
  h.ids_perm.nodup_iff.mpr List.nodup_range'

/-- The first main step has the first id. -/
theorem Emits.head_ids (h : Emits F linked ys n ids steps fs) (hys : ys ≠ []) :
    ids.head? = some n := by
  cases h with
  | nil => exact absurd rfl hys
  | regular => rfl
  | block => rfl

theorem Emits.mem_ids (h : Emits F linked ys n ids steps fs) {id : Nat} :
    id ∈ steps.map WorkflowStep.id ↔ n ≤ id ∧ id < n + steps.length := by
  rw [h.ids_perm.mem_iff, List.mem_range'_1]

/-- The ids of the main steps are ids of steps. -/
theorem Emits.main_mem (h : Emits F linked ys n ids steps fs) {id : Nat} (hid : id ∈ ids) :
    id ∈ steps.map WorkflowStep.id := by
  induction h with
  | nil => cases hid
  | regular hb hys ih =>
    rw [List.map_append, List.mem_append]
    rcases List.mem_cons.mp hid with rfl | hid
    · exact .inl (by simp [RegularBuild.steps, RegularBuild.mainStep])
    · exact .inr (ih hid)
  | block hy heb hcond hchildren hys ihchildren ih =>
    rw [List.map_append, List.mem_append]
    rcases List.mem_cons.mp hid with rfl | hid
    · exact .inl (by simp [containerStep, WorkflowStep.new])
    · exact .inr (ih hid)

end Ids

/-! ## Regular steps -/

section Compiler

variable {α β : Type} {st st' : CompileState}

theorem Compiler.bind_eq_ok {x : Compiler α} {f : α → Compiler β} {r : β × CompileState} :
    (x >>= f) st = .ok r ↔ ∃ a st', x st = .ok (a, st') ∧ f a st' = .ok r := by
  change (x st >>= fun p => f p.1 p.2) = .ok r ↔ _
  rw [Compiled.bind_eq_ok]
  exact Prod.exists

theorem Compiler.lift_eq_ok {x : Compiled α} {a : α} :
    (liftM x : Compiler α) st = .ok (a, st') ↔ x = .ok a ∧ st' = st := by
  change (x >>= fun a => .ok (a, st)) = .ok (a, st') ↔ _
  rw [Compiled.bind_eq_ok]
  constructor
  · rintro ⟨a, hx, ⟨⟩⟩
    exact ⟨hx, rfl⟩
  · rintro ⟨hx, rfl⟩
    exact ⟨a, hx, rfl⟩

/-- A state with more steps and factories, and ids taken. -/
def CompileState.emit (st : CompileState) (steps : List WorkflowStep)
    (factories : List (String × StepFactory)) (taken : Nat) : CompileState where
  steps := st.steps ++ steps
  factories := st.factories ++ factories
  nextId := st.nextId + taken

theorem compileHook_eq_ok {F : Features} {hook : YamlStep} {id : Nat}
    (h : compileHook F hook st = .ok (id, st')) :
    ∃ built, buildStep F hook = .ok built ∧ id = st.nextId ∧
      st' = st.emit [built.toStep st.nextId hook.name] [(built.key, built.factory)] 1 := by
  obtain ⟨_, _, hid, h⟩ := Compiler.bind_eq_ok.mp h
  cases hid
  obtain ⟨built, _, hlift, h⟩ := Compiler.bind_eq_ok.mp h
  obtain ⟨hbuilt, rfl⟩ := Compiler.lift_eq_ok.mp hlift
  cases h
  exact ⟨built, hbuilt, rfl, rfl⟩

/-- An optional hook. -/
theorem compileHook_mapM {F : Features} {hook : Option YamlStep} {id : Option Nat}
    (h : hook.mapM (compileHook F) st = .ok (id, st')) :
    ∃ b, hook.mapM (buildHook F) = .ok b ∧ id = b.map (fun _ => st.nextId) ∧
      st' = st.emit (b.toList.map fun h => h.2.toStep st.nextId h.1)
        (b.toList.map fun h => (h.2.key, h.2.factory)) b.toList.length := by
  cases hook with
  | none =>
    cases h
    exact ⟨none, rfl, rfl, by simp [CompileState.emit]⟩
  | some hook =>
    rw [Option.mapM_some, ← bind_pure_comp] at h
    obtain ⟨id, _, hhook, h⟩ := Compiler.bind_eq_ok.mp h
    cases h
    obtain ⟨built, hbuilt, rfl, rfl⟩ := compileHook_eq_ok hhook
    exact ⟨some (hook.name, built), by simp [buildHook, hbuilt], rfl, rfl⟩

theorem CompileState.emit_emit (st : CompileState) (s₁ s₂ : List WorkflowStep)
    (f₁ f₂ : List (String × StepFactory)) (n₁ n₂ : Nat) :
    (st.emit s₁ f₁ n₁).emit s₂ f₂ n₂ = st.emit (s₁ ++ s₂) (f₁ ++ f₂) (n₁ + n₂) := by
  simp [emit, Nat.add_assoc]

theorem compileRegular_eq_ok {F : Features} {y : YamlStep} {id : Nat} (hy : y.parallel = none)
    (h : compileRegular F y st = .ok (id, st')) :
    ∃ b : RegularBuild, b.Of F y ∧ id = st.nextId ∧
      st' = st.emit (b.steps st.nextId none) b.factories b.size := by
  -- The actions of the branch for regular steps, in the order of the source.
  obtain ⟨_, _, hid, h⟩ := Compiler.bind_eq_ok.mp h
  cases hid
  obtain ⟨built, _, hlift, h⟩ := Compiler.bind_eq_ok.mp h
  obtain ⟨hbuilt, rfl⟩ := Compiler.lift_eq_ok.mp hlift
  obtain ⟨errorBehavior, _, hlift, h⟩ := Compiler.bind_eq_ok.mp h
  obtain ⟨heb, rfl⟩ := Compiler.lift_eq_ok.mp hlift
  obtain ⟨cond, _, hlift, h⟩ := Compiler.bind_eq_ok.mp h
  obtain ⟨hcond, rfl⟩ := Compiler.lift_eq_ok.mp hlift
  obtain ⟨_, _, hhook, h⟩ := Compiler.bind_eq_ok.mp h
  obtain ⟨failure, hfailure, rfl, rfl⟩ := compileHook_mapM hhook
  obtain ⟨_, _, hhook, h⟩ := Compiler.bind_eq_ok.mp h
  obtain ⟨success, hsuccess, rfl, rfl⟩ := compileHook_mapM hhook
  obtain ⟨_, _, hhook, h⟩ := Compiler.bind_eq_ok.mp h
  obtain ⟨ensure, hensure, rfl, rfl⟩ := compileHook_mapM hhook
  cases h
  refine ⟨⟨y.name, built, errorBehavior, cond, failure, success, ensure⟩,
    ⟨hy, rfl, hbuilt, heb, hcond, hfailure, hsuccess, hensure⟩, rfl, ?_⟩
  -- The eight combinations of hooks.
  rcases failure with _ | _ <;> rcases success with _ | _ <;> rcases ensure with _ | _ <;>
    simp [CompileState.emit, RegularBuild.steps, RegularBuild.hookSteps, RegularBuild.mainStep,
      RegularBuild.factories, RegularBuild.size, RegularBuild.failureId, RegularBuild.successId,
      RegularBuild.ensureId, hookOutcomes, nextOutcomes, BuiltStep.toStep, WorkflowStep.new]

end Compiler

/-! ## The second loop -/

section Wire

variable {id m n : Nat} {f : WorkflowStep → WorkflowStep} {pre l : List WorkflowStep}

theorem modifyStep_append (h : ∀ s ∈ pre, s.id ≠ id) :
    modifyStep id f (pre ++ l) = pre ++ modifyStep id f l := by
  induction pre with
  | nil => rfl
  | cons s pre ih =>
    simp only [List.cons_append, modifyStep]
    rw [if_neg (h s List.mem_cons_self), ih fun s hs => h s (List.mem_cons_of_mem _ hs)]

theorem find?_append_of_ne (h : ∀ s ∈ pre, s.id ≠ id) :
    (pre ++ l).find? (fun s => s.id = id) = l.find? fun s => s.id = id := by
  rw [List.find?_append, List.find?_eq_none.mpr (by simpa using h)]
  rfl

/-- Wiring a regular step to `m` links it, or the hook it leads to. -/
theorem wirePair_regular (b : RegularBuild) (hpre : ∀ s ∈ pre, s.id < n) :
    wirePair n m (pre ++ (b.steps n none ++ l)) = pre ++ (b.steps n (some m) ++ l) := by
  have hpre' {k : Nat} (hk : n ≤ k) : ∀ s ∈ pre, s.id ≠ k := fun s hs => by
    have := hpre s hs
    omega
  have hfind : (pre ++ (b.steps n none ++ l)).find? (fun s => s.id = n) =
      some (b.mainStep n none) := by
    -- The hooks come before the main step, with other ids.
    have hhooks : ∀ s ∈ b.hookSteps n none, s.id ≠ n := by
      intro s hs
      have hid : s.id ∈ List.range' (n + 1) (b.size - 1) :=
        b.ids_hookSteps n none ▸ List.mem_map_of_mem hs
      have := List.mem_range'_1.mp hid
      omega
    rw [find?_append_of_ne (hpre' (Nat.le_refl n)), RegularBuild.steps, List.append_assoc,
      find?_append_of_ne hhooks]
    simp [RegularBuild.mainStep]
  unfold wirePair
  rw [hfind]
  rcases b with ⟨_, _, _, _, _ | _, _ | _, _ | _⟩ <;>
    simp [RegularBuild.steps, RegularBuild.hookSteps, RegularBuild.mainStep, hookOutcomes,
      RegularBuild.successId, RegularBuild.ensureId, nextOutcomes]
  -- The link is added to the hook that the main step leads to.
  all_goals
    rw [modifyStep_append (hpre' (by omega))]
    simp [modifyStep, addNext, BuiltStep.toStep, WorkflowStep.new]

/-- Wiring a container to `m` links it. -/
theorem wirePair_block {name : String} {errorBehavior : Option ErrorBehavior}
    {children : List Nat} {cond : Option StepCondition} (hpre : ∀ s ∈ pre, s.id ≠ n) :
    wirePair n m (pre ++ (containerStep n name errorBehavior children cond none :: l)) =
      pre ++ (containerStep n name errorBehavior children cond (some m) :: l) := by
  unfold wirePair
  rw [find?_append_of_ne hpre]
  simp [containerStep, WorkflowStep.new, nextOutcomes, modifyStep_append hpre, modifyStep, addNext]

variable {F : Features} {ys : List YamlStep} {ids : List Nat} {steps : List WorkflowStep}
  {fs : List (String × StepFactory)}

/-- Wiring from a main step on: it is linked to the next main step, then the rest is wired. -/
theorem wire_part (part : Option Nat → List WorkflowStep)
    (hpair : ∀ m, wirePair n m (pre ++ (part none ++ steps)) = pre ++ (part (some m) ++ steps))
    (hrest : ∀ next, ∃ steps', wire ids (pre ++ part next ++ steps) = pre ++ part next ++ steps' ∧
      steps'.length = steps.length ∧ Emits F true ys m ids steps' fs) :
    ∃ steps', wire (n :: ids) (pre ++ (part none ++ steps)) = pre ++ (part ids.head? ++ steps') ∧
      steps'.length = steps.length ∧ Emits F true ys m ids steps' fs := by
  cases ids with
  | nil =>
    -- The last main step stays as it is.
    obtain ⟨steps', hwire, hlen, hemits⟩ := hrest none
    obtain rfl : steps = steps' := List.append_cancel_left hwire
    exact ⟨steps, rfl, rfl, hemits⟩
  | cons k ids =>
    obtain ⟨steps', hwire, hlen, hemits⟩ := hrest (some k)
    refine ⟨steps', ?_, hlen, hemits⟩
    calc wire (n :: k :: ids) (pre ++ (part none ++ steps))
      _ = wire (k :: ids) (wirePair n k (pre ++ (part none ++ steps))) := rfl
      _ = wire (k :: ids) (pre ++ part (some k) ++ steps) := by
        rw [hpair, List.append_assoc]
      _ = pre ++ (part (some k) ++ steps') := by rw [hwire, List.append_assoc]

/-- The second loop links what the first has emitted, and leaves the steps before it alone. -/
theorem wire_emits (h : Emits F false ys n ids steps fs) (hpre : ∀ s ∈ pre, s.id < n) :
    ∃ steps', wire ids (pre ++ steps) = pre ++ steps' ∧ steps'.length = steps.length ∧
      Emits F true ys n ids steps' fs := by
  -- What is emitted is unlinked at the top only: the blocks inside are linked already.
  generalize hlinked : false = linked at h
  induction h generalizing pre with
  | nil => exact ⟨[], rfl, rfl, .nil _ _⟩
  | regular hb hys ih =>
    subst hlinked
    rename_i y ys n b ids steps fs
    have hids (next : Option Nat) : ∀ s ∈ pre ++ b.steps n next, s.id < n + b.size := by
      intro s hs
      rcases List.mem_append.mp hs with hs | hs
      · have := hpre s hs
        omega
      · have := (b.ids_steps n next).mem_iff.mp (List.mem_map_of_mem hs)
        exact (List.mem_range'_1.mp this).2
    obtain ⟨steps', hwire, hlen, hemits⟩ :=
      wire_part (b.steps n) (fun m => wirePair_regular b hpre) fun next => ih (hids next) rfl
    exact ⟨b.steps n ids.head? ++ steps', hwire, by simp [hlen], .regular hb hemits⟩
  | block hy heb hcond hchildren hys ihchildren ih =>
    subst hlinked
    rename_i y children ys n childIds ids inner steps fs fs' errorBehavior cond
    -- The steps of the block were wired when the block was compiled; they are not touched again.
    have hinner : ∀ s ∈ inner, n + 1 ≤ s.id ∧ s.id < n + 1 + inner.length := fun s hs =>
      hchildren.mem_ids.mp (List.mem_map_of_mem hs)
    have hids (next : Option Nat) : ∀ s ∈ pre ++ (inner ++ [containerStep n y.name errorBehavior
        childIds cond next]), s.id < n + 1 + inner.length := by
      intro s hs
      simp only [List.mem_append, List.mem_singleton] at hs
      rcases hs with hs | hs | rfl
      · have := hpre s hs
        omega
      · exact (hinner s hs).2
      · simp only [containerStep, WorkflowStep.new]
        omega
    have hne : ∀ s ∈ pre ++ inner, s.id ≠ n := by
      intro s hs
      rcases List.mem_append.mp hs with hs | hs
      · have := hpre s hs
        omega
      · have := hinner s hs
        omega
    let container := containerStep n y.name errorBehavior childIds cond
    have hpair (m : Nat) : wirePair n m (pre ++ (inner ++ [container none] ++ steps)) =
        pre ++ (inner ++ [container (some m)] ++ steps) := by
      have hwired : wirePair n m (pre ++ inner ++ (container none :: steps)) =
          pre ++ inner ++ (container (some m) :: steps) := wirePair_block hne
      simpa only [List.append_assoc, List.cons_append, List.nil_append] using hwired
    obtain ⟨steps', hwire, hlen, hemits⟩ :=
      wire_part (fun next => inner ++ [container next]) hpair fun next => ih (hids next) rfl
    exact ⟨inner ++ [container ids.head?] ++ steps', hwire, by simp [hlen],
      .block hy heb hcond hchildren hemits⟩

end Wire

/-! ## The first loop -/

section Emit

variable {F : Features} {st st' : CompileState}

/-- The ids of the steps added so far have been handed out. -/
def CompileState.Below (st : CompileState) : Prop := ∀ s ∈ st.steps, s.id < st.nextId

theorem CompileState.Below.emit {linked : Bool} {ys : List YamlStep} {ids : List Nat}
    {steps : List WorkflowStep} {fs : List (String × StepFactory)} (h : st.Below)
    (hemits : Emits F linked ys st.nextId ids steps fs) :
    (st.emit steps fs steps.length).Below := by
  intro s hs
  rcases List.mem_append.mp hs with hs | hs
  · exact Nat.lt_add_right _ (h s hs)
  · exact (hemits.mem_ids.mp (List.mem_map_of_mem hs)).2

theorem compileStep_regular {y : YamlStep} (hy : y.parallel = none) :
    compileStep F y = compileRegular F y := by
  obtain ⟨_, _, _, _, _, _, _, _, _, _, _⟩ := y
  cases hy
  rfl

theorem compileStep_block {y : YamlStep} {children : List YamlStep}
    (hy : y.parallel = some children) :
    compileStep F y = do
      let id ← freshId
      let errorBehavior ← y.errorBehavior.mapM (m := Compiled) mapErrorBehavior
      let childIds ← compileList F children
      let childIds ← wireSteps childIds
      let cond ← y.when.mapM (m := Compiled) compileCondition
      pushStep (containerStep id y.name errorBehavior childIds cond none)
      return id := by
  obtain ⟨_, _, _, _, _, _, _, _, _, _, _⟩ := y
  cases hy
  rfl

/-- A step is compiled to steps that go before those of any list. -/
def StepEmits (F : Features) (y : YamlStep) : Prop :=
  ∀ (st st' : CompileState) (id : Nat), st.Below → compileStep F y st = .ok (id, st') →
    ∃ steps fs, id = st.nextId ∧ st' = st.emit steps fs steps.length ∧ st'.Below ∧
      ∀ ys ids rest rfs, Emits F false ys (st.nextId + steps.length) ids rest rfs →
        Emits F false (y :: ys) st.nextId (st.nextId :: ids) (steps ++ rest) (fs ++ rfs)

/-- The steps of a list are emitted unlinked. -/
def ListEmits (F : Features) (ys : List YamlStep) : Prop :=
  ∀ (st st' : CompileState) (ids : List Nat), st.Below → compileList F ys st = .ok (ids, st') →
    ∃ steps fs, Emits F false ys st.nextId ids steps fs ∧ st' = st.emit steps fs steps.length

theorem stepEmits_regular {y : YamlStep} (hy : y.parallel = none) : StepEmits F y := by
  intro st st' id hst h
  rw [compileStep_regular hy] at h
  obtain ⟨b, hb, rfl, rfl⟩ := compileRegular_eq_ok hy h
  have hone := Emits.regular hb (.nil false (st.nextId + b.size))
  simp only [List.append_nil] at hone
  refine ⟨_, b.factories, rfl, by rw [b.length_steps], ?_, fun ys ids rest rfs hrest => ?_⟩
  · simpa using hst.emit hone
  · exact .regular hb (by simpa using hrest)

theorem stepEmits_block {y : YamlStep} {children : List YamlStep}
    (hy : y.parallel = some children) (ih : ListEmits F children) : StepEmits F y := by
  intro st st' id hst h
  rw [compileStep_block hy] at h
  obtain ⟨_, _, hid, h⟩ := Compiler.bind_eq_ok.mp h
  cases hid
  obtain ⟨eb, _, hlift, h⟩ := Compiler.bind_eq_ok.mp h
  obtain ⟨heb, rfl⟩ := Compiler.lift_eq_ok.mp hlift
  obtain ⟨childIds, _, hlist, h⟩ := Compiler.bind_eq_ok.mp h
  have hst₁ : CompileState.Below { st with nextId := st.nextId + 1 } :=
    fun s hs => Nat.lt_succ_of_lt (hst s hs)
  obtain ⟨inner, fs, hinner, rfl⟩ := ih _ _ _ hst₁ hlist
  obtain ⟨_, _, hwire, h⟩ := Compiler.bind_eq_ok.mp h
  cases hwire
  obtain ⟨cond, _, hlift, h⟩ := Compiler.bind_eq_ok.mp h
  obtain ⟨hcond, rfl⟩ := Compiler.lift_eq_ok.mp hlift
  cases h
  -- The children are wired at once, before the container is added after them.
  obtain ⟨inner', hwire, hlen, hinner'⟩ := wire_emits hinner hst₁
  let container := containerStep st.nextId y.name eb childIds cond none
  have hcons (ys ids rest rfs) (hrest : Emits F false ys (st.nextId + 1 + inner'.length) ids
      rest rfs) : Emits F false (y :: ys) st.nextId (st.nextId :: ids)
        (inner' ++ [container] ++ rest) (fs ++ rfs) :=
    .block hy heb hcond hinner' hrest
  have hone := hcons [] [] [] [] (.nil _ _)
  simp only [List.append_nil] at hone
  have hstate : CompileState.mk (wire childIds (st.steps ++ inner) ++ [container])
      (st.factories ++ fs) (st.nextId + 1 + inner.length) =
      st.emit (inner' ++ [container]) fs (inner' ++ [container]).length := by
    simp only [CompileState.emit, hwire, List.length_append, List.length_singleton, hlen,
      List.append_assoc]
    congr 1
    omega
  refine ⟨_, fs, rfl, hstate, ?_, fun ys ids rest rfs hrest => hcons ys ids rest rfs ?_⟩
  · exact (congrArg CompileState.Below hstate).mpr (hst.emit hone)
  · simpa [Nat.add_assoc, Nat.add_comm 1] using hrest

theorem listEmits_cons {y : YamlStep} {ys : List YamlStep} (hy : StepEmits F y)
    (hys : ListEmits F ys) : ListEmits F (y :: ys) := by
  intro st st' ids hst h
  simp only [compileList] at h
  obtain ⟨id, st₁, hstep, h⟩ := Compiler.bind_eq_ok.mp h
  obtain ⟨ids, st₂, hlist, h⟩ := Compiler.bind_eq_ok.mp h
  cases h
  -- The step takes its ids first, so the list goes on where it has stopped.
  obtain ⟨steps, fs, rfl, rfl, hst₁, hcons⟩ := hy _ _ _ hst hstep
  obtain ⟨rest, rfs, hrest, rfl⟩ := hys _ _ _ hst₁ hlist
  exact ⟨_, _, hcons _ _ _ _ hrest, by rw [CompileState.emit_emit, List.length_append]⟩

/-- The first loop emits its steps unlinked. -/
theorem compileList_emits (ys : List YamlStep) : ListEmits F ys := by
  refine YamlStep.induction (P := StepEmits F) (fun y => stepEmits_regular)
    (fun y children => stepEmits_block) ?_ (fun y ys => listEmits_cons) ys
  intro st st' ids _ h
  cases h
  exact ⟨[], [], .nil _ _, by simp [CompileState.emit]⟩

end Emit

/-! ## The place of a step -/

mutual

/-- A step, and the steps inside its block. -/
def YamlStep.withChildren : YamlStep → List YamlStep
  | { name, stepType, config, inputs, outputs, parallel, errorBehavior, onSuccess, onFailure,
      ensure, when } =>
    { name, stepType, config, inputs, outputs, parallel, errorBehavior, onSuccess, onFailure,
      ensure, when } :: mainBlock parallel

def mainBlock : Option (List YamlStep) → List YamlStep
  | some children => mainSteps children
  | none => []

/-- The steps that are compiled as main steps: those of the list, and those inside blocks. -/
def mainSteps : List YamlStep → List YamlStep
  | [] => []
  | y :: ys => y.withChildren ++ mainSteps ys

end

theorem YamlStep.withChildren_eq (y : YamlStep) :
    y.withChildren = y :: mainBlock y.parallel := by
  obtain ⟨_, _, _, _, _, _, _, _, _, _, _⟩ := y
  rfl

/-- The steps a main step is compiled to are among `steps`: a regular step with its hooks, or a
container with the steps of its block. -/
inductive Placed (F : Features) (steps : List WorkflowStep) (y : YamlStep) : Prop
  | regular (b : RegularBuild) (n : Nat) (next : Option Nat) (hb : b.Of F y)
      (hsteps : ∀ s ∈ b.steps n next, s ∈ steps)
  | block (children : List YamlStep) (n : Nat) (ids : List Nat) (inner : List WorkflowStep)
      (fs : List (String × StepFactory)) (errorBehavior : Option ErrorBehavior)
      (cond : Option StepCondition) (next : Option Nat) (hy : y.parallel = some children)
      (heb : y.errorBehavior.mapM mapErrorBehavior = .ok errorBehavior)
      (hcond : y.when.mapM compileCondition = .ok cond)
      (hchildren : Emits F true children (n + 1) ids inner fs)
      (hinner : ∀ s ∈ inner, s ∈ steps)
      (hcontainer : containerStep n y.name errorBehavior ids cond next ∈ steps)

section Placed

variable {F : Features} {linked : Bool} {ys : List YamlStep} {y : YamlStep} {n : Nat}
  {ids : List Nat} {steps steps' : List WorkflowStep} {fs : List (String × StepFactory)}

theorem Placed.mono (h : Placed F steps y) (hsub : ∀ s ∈ steps, s ∈ steps') :
    Placed F steps' y := by
  cases h with
  | regular b n next hb hsteps => exact .regular b n next hb fun s hs => hsub s (hsteps s hs)
  | block children n ids inner fs eb cond next hy heb hcond hchildren hinner hcontainer =>
    exact .block children n ids inner fs eb cond next hy heb hcond hchildren
      (fun s hs => hsub s (hinner s hs)) (hsub _ hcontainer)

/-- Every main step has its place in what is emitted. -/
theorem Emits.placed (h : Emits F linked ys n ids steps fs) (hy : y ∈ mainSteps ys) :
    Placed F steps y := by
  induction h with
  | nil => cases hy
  | regular hb hys ih =>
    rename_i linked y' ys n b ids steps fs
    simp only [mainSteps, YamlStep.withChildren_eq, hb.regular, mainBlock, List.cons_append,
      List.nil_append, List.mem_cons] at hy
    rcases hy with rfl | hy
    · exact .regular b n _ hb fun s hs => List.mem_append_left _ hs
    · exact (ih hy).mono fun s hs => List.mem_append_right _ hs
  | block hpar heb hcond hchildren hys ihchildren ih =>
    simp only [mainSteps, YamlStep.withChildren_eq, hpar, mainBlock, List.cons_append,
      List.mem_cons, List.mem_append] at hy
    rcases hy with rfl | hy | hy
    · exact .block _ _ _ _ _ _ _ _ hpar heb hcond hchildren
        (fun s hs => List.mem_append_left _ (List.mem_append_left _ hs))
        (List.mem_append_left _ (List.mem_append_right _ List.mem_cons_self))
    · exact (ihchildren hy).mono fun s hs => List.mem_append_left _ (List.mem_append_left _ hs)
    · exact (ih hy).mono fun s hs => List.mem_append_right _ hs

end Placed

/-- **The layout of a compiled workflow.** -/
theorem compile_emits {F : Features} {spec : WorkflowSpec} {cw : CompiledWorkflow}
    (h : compile F spec = .ok cw) :
    ∃ ids, Emits F true spec.steps 0 ids cw.definition.steps cw.stepFactories := by
  obtain ⟨errorBehavior, -, h⟩ := Compiled.bind_eq_ok.mp h
  obtain ⟨⟨ids, st⟩, hsteps, h⟩ := Compiled.bind_eq_ok.mp h
  cases h
  obtain ⟨_, st', hlist, hwire⟩ := Compiler.bind_eq_ok.mp hsteps
  obtain ⟨steps, fs, hemits, rfl⟩ := compileList_emits _ _ _ _ (by simp [CompileState.Below]) hlist
  cases hwire
  obtain ⟨steps', hwire, -, hemits'⟩ := wire_emits hemits (List.forall_mem_nil _)
  refine ⟨ids, ?_⟩
  simp only [List.nil_append] at hwire
  simpa [CompileState.emit, hwire] using hemits'

end Wfe
