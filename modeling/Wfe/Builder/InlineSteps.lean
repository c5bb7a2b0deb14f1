import Mathlib.Data.List.Nodup
import Mathlib.Data.List.Pairwise
import Mathlib.Logic.Function.Iterate
import Wfe.Builder.Bodies
import Wfe.Host.Registry

/-!
# Inline steps

The closure of an inline step is registered under a key made of the id of the step. Ids start at
zero in every builder, and a registration under a key in use replaces what was there. So an inline
step keeps its closure exactly as long as no builder is registered later that has another closure
for the same id.

## Main definitions

* `WorkflowBuilder.registerInlineSteps`: registers the closures of a builder
* `registerAll`: registers several builders in one registry
* `KeepsClosures`: what the registration is for

## Main results

* `Built.inline`: the closures of a builder belong to its steps
* `inline_steps_keep_closures_iff`: when inline steps keep their closures
-/

namespace Wfe

open Program

/-- The key of an inline step. -/
def inlineStepKey (stepId : Nat) : String := s!"{inlineKey}::{stepId}"

/-- `register_inline_steps`: registers the closures in the order in which the map yields them. -/
def WorkflowBuilder.registerInlineSteps (b : WorkflowBuilder) (order : List (Nat × InlineClosure))
    (registry : StepRegistry StepBody) (id : String) (version : Nat) :
    StepRegistry StepBody × WorkflowDefinition :=
  order.foldl (fun st kf =>
      (st.1.registerFactory (inlineStepKey kf.1) (InlineStep.run kf.2),
        { st.2 with
          steps := st.2.steps.modify kf.1 ({ · with stepType := inlineStepKey kf.1 }) }))
    (registry, b.build id version)

/-- A builder to be registered, with the order in which the map of its closures yields them. -/
structure InlineRegistration where
  builder : WorkflowBuilder
  id : String
  version : Nat
  order : List (Nat × InlineClosure)
  perm : order.Perm builder.inlineClosures

/-- Registers builders one after another: the registry and the definitions. -/
def registerAll (registry : StepRegistry StepBody) (rs : List InlineRegistration) :
    StepRegistry StepBody × List WorkflowDefinition :=
  rs.foldl (fun st r =>
      let result := r.builder.registerInlineSteps r.order st.1 r.id r.version
      (result.1, st.2 ++ [result.2]))
    (registry, [])

/-- Every inline step of every definition resolves to a body that runs its closure. -/
def KeepsClosures (registry : StepRegistry StepBody) (rs : List InlineRegistration) : Prop :=
  ∀ (i : Nat) (r : InlineRegistration), rs[i]? = some r →
    ∃ d, (registerAll registry rs).2[i]? = some d ∧
      ∀ stepId closure, (stepId, closure) ∈ r.builder.inlineClosures →
        ∃ step, d.steps[stepId]? = some step ∧
          (registerAll registry rs).1.resolve step.stepType = some (InlineStep.run closure)

/-! ## The closures of a builder -/

/-- The closures belong to steps of the builder, one each. -/
structure InlineWell (b : WorkflowBuilder) : Prop where
  lt : ∀ kf ∈ b.inlineClosures, kf.1 < b.steps.length
  nodup : (b.inlineClosures.map Prod.fst).Nodup

section Closures

variable {wired : List Nat} {b b' : WorkflowBuilder} {s s' : StepBuilder}

theorem InlineWell.of_eq (h : InlineWell b) (hle : b.steps.length ≤ b'.steps.length)
    (heq : b'.inlineClosures = b.inlineClosures) : InlineWell b' where
  lt kf hkf := Nat.lt_of_lt_of_le (h.lt kf (heq ▸ hkf)) hle
  nodup := heq ▸ h.nodup

theorem Edits.inlineClosures (h : Edits b wired b') : b'.inlineClosures = b.inlineClosures := by
  induction h with
  | nil => rfl
  | addStep _ _ ih | addStepTyped _ _ _ _ ih | wireOutcome _ _ _ _ ih => exact ih

theorem inlineClosures_addBody (b : WorkflowBuilder) (id : Nat)
    (body : WorkflowBuilder → WorkflowBuilder) :
    (b.addBody id body).inlineClosures = (body b).inlineClosures := by
  have hfold (children : List Nat) (b : WorkflowBuilder) :
      (children.foldl (fun b child => b.addChild id child) b).inlineClosures =
        b.inlineClosures := by
    induction children generalizing b with
    | nil => rfl
    | cons child children ih => exact ih _
  exact hfold _ _

theorem Branches.inlineClosures {pb pb' : ParallelBuilder} (h : Branches pb wired pb') :
    pb'.builder.inlineClosures = pb.builder.inlineClosures := by
  induction h with
  | nil => rfl
  | branch _ body hbody ih =>
    exact (inlineClosures_addBody _ _ body).trans (hbody.inlineClosures.trans ih)

theorem Opens.inlineClosures (h : Opens s wired s') :
    s'.builder.inlineClosures = s.builder.inlineClosures := by
  cases h with
  | body c body hbody =>
    cases c <;> exact (inlineClosures_addBody _ _ body).trans hbody.inlineClosures
  | parallel build hbuild =>
    have h := hbuild.inlineClosures
    rw [StepBuilder.inContainer, WorkflowBuilder.modifyStep, List.modify_id] at h
    exact h

/-- A closure is added with a new step. -/
theorem Calls.inline (h : Calls s wired s') (hs : InlineWell s.builder) :
    InlineWell s'.builder := by
  have hle := h.growth.length_le
  cases h with
  | name | id | onError | config | compensateWith | thenStep | waitFor | delay =>
    exact hs.of_eq hle rfl
  | thenFn f =>
    refine ⟨fun kf hkf => ?_, ?_⟩
    · rcases List.mem_append.mp hkf with hkf | hkf
      · exact Nat.lt_of_lt_of_le (hs.lt kf hkf) hle
      · obtain rfl := List.mem_singleton.mp hkf
        simp [StepBuilder.thenFn, WorkflowBuilder.wireOutcome]
    · show ((s.builder.inlineClosures ++ [(s.builder.steps.length, f)]).map Prod.fst).Nodup
      rw [List.map_append, List.nodup_append]
      refine ⟨hs.nodup, List.nodup_singleton _, ?_⟩
      rintro _ hk _ hk' rfl
      obtain ⟨kf, hkf, hkf'⟩ := List.mem_map.mp hk
      obtain rfl := List.mem_singleton.mp hk'
      exact absurd (hs.lt kf hkf) (by rw [hkf']; exact Nat.lt_irrefl _)
  | opens h => exact hs.of_eq hle h.inlineClosures
  | startWith h stepType => exact hs.of_eq hle h.inlineClosures

theorem Chain.inline (h : Chain s wired s') (hs : InlineWell s.builder) :
    InlineWell s'.builder := by
  induction h with
  | nil => exact hs
  | snoc _ hcall ih => exact hcall.inline ih

/-- The closures of a builder belong to its steps. -/
theorem Built.inline (h : Built b) : InlineWell b := by
  have hempty (l : WorkflowBuilder) (hl : l.inlineClosures = []) : InlineWell l :=
    ⟨by simp [hl], by simp [hl]⟩
  cases h with
  | edits behavior h => exact hempty b h.inlineClosures
  | chain behavior stepType hfirst hchain hlast =>
    have hstart := hempty _ (hfirst.inlineClosures)
    have hwell := hchain.inline (hstart.of_eq (by simp [WorkflowBuilder.startWith]) rfl)
    exact hwell.of_eq hlast.growth.length_le hlast.inlineClosures

end Closures

/-! ## Registrations -/

section Registration

variable {registry : StepRegistry StepBody} {rs : List InlineRegistration}
  {r : InlineRegistration} {order : List (Nat × InlineClosure)} {k : Nat}
  {closure : InlineClosure}

theorem inlineStepKey_injective : Function.Injective inlineStepKey := by
  intro m n h
  have hlist := congrArg String.toList h
  simp only [inlineStepKey, String.toList_append] at hlist
  have hrepr : m.repr.toList = n.repr.toList := List.append_cancel_left hlist
  rw [Nat.toList_repr, Nat.toList_repr] at hrepr
  -- The number is read back from its digits.
  have hdigits := congrArg (Nat.ofDigitChars 10 · 0) hrepr
  simpa [Nat.ofDigitChars_toDigits] using hdigits

/-- The factories that a builder registers. -/
def inlineFactories (order : List (Nat × InlineClosure)) : List (String × StepBody) :=
  order.map fun kf => (inlineStepKey kf.1, InlineStep.run kf.2)

/-- The types that the inline steps get. -/
def inlineTypes (order : List (Nat × InlineClosure)) (steps : List WorkflowStep) :
    List WorkflowStep :=
  order.foldl (fun steps kf => steps.modify kf.1 ({ · with stepType := inlineStepKey kf.1 })) steps

theorem registerInlineSteps_eq (b : WorkflowBuilder) (id : String) (version : Nat) :
    b.registerInlineSteps order registry id version =
      ((inlineFactories order).foldl (fun reg kf => reg.registerFactory kf.1 kf.2) registry,
        { b.build id version with steps := inlineTypes order b.steps }) := by
  have hfold (order : List (Nat × InlineClosure)) (registry : StepRegistry StepBody)
      (d : WorkflowDefinition) :
      order.foldl (fun st kf =>
          (st.1.registerFactory (inlineStepKey kf.1) (InlineStep.run kf.2),
            { st.2 with
              steps := st.2.steps.modify kf.1 ({ · with stepType := inlineStepKey kf.1 }) }))
        (registry, d) =
      ((inlineFactories order).foldl (fun reg kf => reg.registerFactory kf.1 kf.2) registry,
        { d with steps := inlineTypes order d.steps }) := by
    induction order generalizing registry d with
    | nil => rfl
    | cons kf order ih => exact ih _ _
  exact hfold order registry _

/-- Several builders register their factories one after another, and their definitions do not
depend on one another. -/
theorem registerAll_eq (registry : StepRegistry StepBody) (rs : List InlineRegistration) :
    registerAll registry rs =
      ((rs.flatMap fun r => inlineFactories r.order).foldl
        (fun reg kf => reg.registerFactory kf.1 kf.2) registry,
        rs.map fun r => { r.builder.build r.id r.version with
          steps := inlineTypes r.order r.builder.steps }) := by
  induction rs using List.reverseRecOn with
  | nil => rfl
  | append_singleton rs r ih =>
    rw [registerAll] at ih ⊢
    rw [List.foldl_append, ih, List.foldl_cons, List.foldl_nil, registerInlineSteps_eq,
      List.flatMap_append, List.foldl_append, List.map_append, List.flatMap_singleton]
    rfl

/-- An inline step gets the key of its closure as its type. -/
theorem getElem?_inlineTypes {steps : List WorkflowStep} (hnodup : (order.map Prod.fst).Nodup)
    (hmem : (k, closure) ∈ order) :
    (inlineTypes order steps)[k]? =
      steps[k]?.map ({ · with stepType := inlineStepKey k }) := by
  induction order generalizing steps with
  | nil => cases hmem
  | cons kf order ih =>
    rw [List.map_cons, List.nodup_cons] at hnodup
    rw [inlineTypes, List.foldl_cons]
    rcases List.mem_cons.mp hmem with rfl | hmem
    · -- The steps that come later are others.
      have hother (order : List (Nat × InlineClosure)) (steps : List WorkflowStep)
          (hnot : k ∉ order.map Prod.fst) : (inlineTypes order steps)[k]? = steps[k]? := by
        induction order generalizing steps with
        | nil => rfl
        | cons kf order ih =>
          rw [List.map_cons, List.mem_cons, not_or] at hnot
          rw [inlineTypes, List.foldl_cons]
          exact (ih _ hnot.2).trans (List.getElem?_modify_ne _ _ (Ne.symm hnot.1))
      refine (hother order _ hnodup.1).trans ?_
      rw [List.getElem?_modify_eq]
      rfl
    · refine (ih hnodup.2 hmem).trans ?_
      have hne : kf.1 ≠ k := fun h => hnodup.1 (h ▸ List.mem_map_of_mem hmem)
      rw [List.getElem?_modify_ne _ _ hne]

/-- What is found under the key of an inline step is the last closure registered for its id. -/
theorem resolve_registerAll (registry : StepRegistry StepBody) (hr : r ∈ rs)
    (hmem : (k, closure) ∈ r.builder.inlineClosures) :
    ∃ r' ∈ rs, ∃ closure', (k, closure') ∈ r'.builder.inlineClosures ∧
      (registerAll registry rs).1.resolve (inlineStepKey k) = some (InlineStep.run closure') := by
  have hfactory : (inlineStepKey k, InlineStep.run closure) ∈
      (rs.flatMap fun r => inlineFactories r.order).reverse :=
    List.mem_reverse.mpr (List.mem_flatMap.mpr ⟨r, hr,
      List.mem_map.mpr ⟨_, r.perm.mem_iff.mpr hmem, rfl⟩⟩)
  rw [registerAll_eq, StepRegistry.resolve_foldl]
  cases hfind : StepRegistry.resolve (rs.flatMap fun r => inlineFactories r.order).reverse
      (inlineStepKey k) with
  | none =>
    have hnone := List.find?_eq_none.mp (Option.map_eq_none_iff.mp hfind) _ hfactory
    simp at hnone
  | some body =>
    obtain ⟨kf, hkf, rfl⟩ := Option.map_eq_some_iff.mp hfind
    have hkey := Table.key_of_get hkf
    obtain ⟨r', hr', hkf'⟩ := List.mem_flatMap.mp (List.mem_reverse.mp (Table.mem_of_get hkf))
    obtain ⟨⟨k', closure'⟩, hmem', rfl⟩ := List.mem_map.mp hkf'
    obtain rfl := inlineStepKey_injective hkey
    exact ⟨r', hr', closure', r'.perm.mem_iff.mp hmem', rfl⟩

/-- A body knows its closure. -/
theorem InlineStep.run_injective : Function.Injective InlineStep.run := by
  intro f g h
  funext u
  have hrun := congrFun h ⟨none, ExecutionPointer.new "" 0, none, WorkflowStep.new 0 "",
    WorkflowInstance.new default "" 0 .null, WorkflowDefinition.new "" 0, false⟩
  have hret : (Program.ret (.ok (f ())) : Program StepInterface (Except WfeError ExecutionResult)) =
      .ret (.ok (g ())) := hrun
  exact Except.ok.inj (Program.ret.inj hret)

end Registration

/-- **When inline steps keep their closures.** Let several builders be registered in one registry,
one after another. Every inline step of every definition resolves to a body that runs its closure
exactly if inline steps of different builders with the same id have the same closure. -/
theorem inline_steps_keep_closures_iff (registry : StepRegistry StepBody)
    (rs : List InlineRegistration) (hbuilt : ∀ r ∈ rs, Built r.builder) :
    KeepsClosures registry rs ↔ rs.Pairwise fun r r' => ∀ stepId closure closure',
      (stepId, closure) ∈ r.builder.inlineClosures →
      (stepId, closure') ∈ r'.builder.inlineClosures → closure = closure' := by
  -- The step is there, and its type is the key of its closure.
  have hstep (r : InlineRegistration) (hr : r ∈ rs) (k : Nat) (closure : InlineClosure)
      (hmem : (k, closure) ∈ r.builder.inlineClosures) : ∃ step,
      (inlineTypes r.order r.builder.steps)[k]? = some step ∧ step.stepType = inlineStepKey k := by
    have hwell := (hbuilt r hr).inline
    have hnodup : (r.order.map Prod.fst).Nodup := (r.perm.map Prod.fst).nodup_iff.mpr hwell.nodup
    rw [getElem?_inlineTypes hnodup (r.perm.mem_iff.mpr hmem),
      List.getElem?_eq_getElem (hwell.lt _ hmem)]
    exact ⟨_, rfl, rfl⟩
  have hkeeps : KeepsClosures registry rs ↔ ∀ r ∈ rs, ∀ k closure,
      (k, closure) ∈ r.builder.inlineClosures →
      (registerAll registry rs).1.resolve (inlineStepKey k) = some (InlineStep.run closure) := by
    constructor
    · intro h r hr k closure hmem
      obtain ⟨i, hi⟩ := List.mem_iff_getElem?.mp hr
      obtain ⟨d, hd, h⟩ := h i r hi
      obtain ⟨step, hs, hresolve⟩ := h k closure hmem
      obtain ⟨step', hs', htype⟩ := hstep r hr k closure hmem
      rw [registerAll_eq, List.getElem?_map, hi, Option.map_some, Option.some_inj] at hd
      subst hd
      obtain rfl := Option.some_inj.mp (hs.symm.trans hs')
      rwa [htype] at hresolve
    · intro h i r hi
      have hr := List.mem_of_getElem? hi
      refine ⟨_, by rw [registerAll_eq, List.getElem?_map, hi, Option.map_some], ?_⟩
      intro k closure hmem
      obtain ⟨step, hs, htype⟩ := hstep r hr k closure hmem
      exact ⟨step, hs, by rw [htype]; exact h r hr k closure hmem⟩
  rw [hkeeps]
  constructor
  · intro h
    refine List.Pairwise.imp_of_mem (R := fun _ _ => True) ?_
      (List.pairwise_of_forall fun _ _ => trivial)
    intro r r' hr hr' _ k closure closure' hmem hmem'
    have hsame := (h r hr k closure hmem).symm.trans (h r' hr' k closure' hmem')
    exact InlineStep.run_injective (Option.some_inj.mp hsame)
  · intro h r hr k closure hmem
    obtain ⟨r', hr', closure', hmem', hresolve⟩ := resolve_registerAll registry hr hmem
    rw [hresolve]
    -- One builder has one closure for each of its steps.
    have hself (r : InlineRegistration) (hr : r ∈ rs) (k : Nat) (closure closure' : InlineClosure)
        (hmem : (k, closure) ∈ r.builder.inlineClosures)
        (hmem' : (k, closure') ∈ r.builder.inlineClosures) : closure = closure' :=
      congrArg Prod.snd (List.inj_on_of_nodup_map (hbuilt r hr).inline.nodup hmem hmem' rfl)
    have hsymm : Std.Symm fun r r' : InlineRegistration => ∀ stepId closure closure',
        (stepId, closure) ∈ r.builder.inlineClosures →
        (stepId, closure') ∈ r'.builder.inlineClosures → closure = closure' :=
      ⟨fun r r' h k closure closure' hmem hmem' => (h k closure' closure hmem' hmem).symm⟩
    rw [List.Pairwise.forall_of_forall hself h hr' hr k closure' closure hmem' hmem]

/-! ## Two builders -/

/-- A builder with an inline step, after `n` other steps besides the first one. -/
def inlineAfter (n : Nat) (f : InlineClosure) : StepBuilder :=
  ((fun s : StepBuilder => s.thenStep "step")^[n]
    (({} : WorkflowBuilder).startWith "start")).thenFn f

theorem inlineAfter_built (n : Nat) (f : InlineClosure) : Built (inlineAfter n f).endWorkflow := by
  have hchain : ∃ wired, Chain (({} : WorkflowBuilder).startWith "start") wired
      ((fun s : StepBuilder => s.thenStep "step")^[n]
        (({} : WorkflowBuilder).startWith "start")) := by
    induction n with
    | zero => exact ⟨[], .nil⟩
    | succ n ih =>
      obtain ⟨wired, ih⟩ := ih
      rw [Function.iterate_succ_apply']
      exact ⟨_, ih.snoc (.thenStep "step")⟩
  obtain ⟨wired, hchain⟩ := hchain
  exact .chain none "start" .nil (hchain.snoc (.thenFn f)) .nil

/-- The registration of such a builder. -/
def inlineRegistration (n : Nat) (f : InlineClosure) : InlineRegistration where
  builder := (inlineAfter n f).endWorkflow
  id := "inline"
  version := n
  order := (inlineAfter n f).endWorkflow.inlineClosures
  perm := .refl _

def proceedClosure : InlineClosure := fun _ => .next

def sleepClosure : InlineClosure := fun _ => .sleep 1 none

/-- Inline steps with different ids keep their closures. -/
theorem inline_steps_keep_closures_apart :
    KeepsClosures [] [inlineRegistration 0 proceedClosure, inlineRegistration 1 sleepClosure] := by
  refine (inline_steps_keep_closures_iff [] _ ?_).mpr ?_
  · intro r hr
    rcases List.mem_pair.mp hr with rfl | rfl
    · exact inlineAfter_built 0 proceedClosure
    · exact inlineAfter_built 1 sleepClosure
  · refine List.pairwise_pair.mpr fun k closure closure' hmem hmem' => ?_
    have hone := congrArg Prod.fst (List.mem_singleton.mp hmem)
    have htwo := congrArg Prod.fst (List.mem_singleton.mp hmem')
    exact absurd (hone.symm.trans htwo) (by decide)

/-- The inline step of the first builder runs the closure of the second one. -/
theorem inline_step_replaced :
    Built (inlineRegistration 0 proceedClosure).builder ∧
    Built (inlineRegistration 0 sleepClosure).builder ∧
    ¬KeepsClosures [] [inlineRegistration 0 proceedClosure, inlineRegistration 0 sleepClosure] := by
  refine ⟨inlineAfter_built 0 proceedClosure, inlineAfter_built 0 sleepClosure, fun h => ?_⟩
  obtain ⟨d, hd, h⟩ := h 0 _ rfl
  obtain ⟨step, hs, hresolve⟩ := h 1 proceedClosure List.mem_cons_self
  obtain rfl := Option.some_inj.mp hd
  obtain rfl := Option.some_inj.mp hs
  have hsame : InlineStep.run sleepClosure = InlineStep.run proceedClosure :=
    Option.some_inj.mp hresolve
  have hresult := congrArg ExecutionResult.proceed (congrFun (InlineStep.run_injective hsame) ())
  exact Bool.noConfusion hresult

end Wfe
