import Mathlib.Data.List.Nodup
import Mathlib.Data.List.Pairwise
import Wfe.Executor.Chain
import Wfe.Executor.Primitives
import Wfe.Executor.Turns

/-!
# Containers

A `SequenceStep` opens a scope of its own, spawns one pointer for each of its children there, and
proceeds when all pointers of the scope are done. If no other step leads to its children, the
pointers of the children are those it has spawned, one for each.

## Main definitions

* `Ran.Smooth`: the body of a round proceeded, or was that of a container
* `Advances`: what such a round does to the pointers
* `WorkflowDefinition.Detached`: nothing but its container leads to a child
* `SpawnedOnce`: a completed container has spawned each of its children once, and no child has been
  created by another

## Main results

* `Round.advances`: a round over a container or a body that proceeds
* `Passes.spawnInv`, `SpawnInv.spawnedOnce`: the containers of a detached definition spawn each
  child once
-/

namespace Wfe

open Program

/-- The body ran, and proceeded unless it is that of a container. -/
def Ran.Smooth (definition : WorkflowDefinition) : Ran → Prop
  | returned stepId result =>
    result.proceed = true ∨ ∃ s ∈ definition.findStep stepId, s.stepType = sequenceKey
  | _ => False

instance (definition : WorkflowDefinition) : DecidablePred (Ran.Smooth definition)
  | .returned stepId result => inferInstanceAs (Decidable (result.proceed = true ∨
      ∃ s ∈ definition.findStep stepId, s.stepType = sequenceKey))
  | .skipped _ | .failed _ _ => isFalse id

/-- What a smooth round over the pointer `x` at `step` does, where `l` are the pointers before it:
`x` becomes `x'`, and `new` are created. -/
inductive Advances (l : List ExecutionPointer) (x : ExecutionPointer) (step : WorkflowStep)
    (x' : ExecutionPointer) (new : List ExecutionPointer) : Prop
  | proceeded (hstatus : x'.status = .complete)
      (hnew : ∀ q ∈ new, q.scope = x.scope ∧ ∃ o ∈ step.outcomes, q.stepId = o.nextStep)
      (hspawned : step.stepType = sequenceKey → step.children ≠ [] → ∃ q ∈ l, q.scope = x.inner)
  | branched (hstatus : x'.status = .running) (hl : ∀ q ∈ l, q.scope ≠ x.inner)
      (hids : new.map ExecutionPointer.stepId = step.children)
      (hnew : ∀ q ∈ new, q.scope = x.inner)
  | waited (hstatus : x'.status = .running) (hnew : new = [])

theorem SequenceStep.yields {host : Option HostContext} {context : StepExecutionContext}
    {result : ExecutionResult} (h : Yields host SequenceStep.run context (.ok result)) :
    (result = .branch [.null] none ∧ context.step.children ≠ [] ∧
      ∀ p ∈ context.workflow.executionPointers, p.scope ≠ context.executionPointer.inner) ∨
    (result = .next ∧ (context.step.children ≠ [] →
      ∃ p ∈ context.workflow.executionPointers, p.scope = context.executionPointer.inner)) ∨
    result = .persist (.object [("children_active", .bool true)]) := by
  obtain ⟨tr, h⟩ := h
  simp only [SequenceStep.run] at h
  split_ifs at h with hbranch hcomplete
  · obtain ⟨-, ⟨⟩⟩ := path_ret.mp h
    exact .inl ⟨rfl, by simpa [ExecutionPointer.inner] using hbranch⟩
  · obtain ⟨-, ⟨⟩⟩ := path_ret.mp h
    refine .inr (.inl ⟨rfl, fun hne => ?_⟩)
    by_contra hnone
    exact hbranch (by simpa [hne, ExecutionPointer.inner] using hnone)
  · obtain ⟨-, ⟨⟩⟩ := path_ret.mp h
    exact .inr (.inr rfl)

section Round

variable {definition : WorkflowDefinition} {resolve : StepResolver} {host : Option HostContext}
  {workflowId : String} {st st' : PassState} {idx : Nat} {ran : List Ran}

theorem childPointers_stepIds (uuid : Nat → String) (value : Json) (children : List Nat)
    (p : ExecutionPointer) :
    (childPointers uuid [value] children p definition).map ExecutionPointer.stepId = children := by
  refine List.ext_getElem? fun i => ?_
  simp [childPointers, Function.comp_def]
  cases children[i]? <;> rfl

/-- Starting a pointer changes no scope. -/
theorem scope_started {w : WorkflowInstance} {p : ExecutionPointer} (env : Ambient)
    (hp : w.executionPointers[idx]? = some p) {scope : List String} :
    (∃ q ∈ (w.setPointer idx (startPointer env p)).executionPointers, q.scope = scope) ↔
      ∃ q ∈ w.executionPointers, q.scope = scope := by
  have hmap := map_set_of_eq (f := ExecutionPointer.scope) (b := startPointer env p) hp rfl
  simp only [← List.mem_map, WorkflowInstance.setPointer, hmap]

/-- A smooth round over a container or a body that proceeds. -/
theorem Round.advances (hseq : resolve sequenceKey = some SequenceStep.run)
    (h : Round definition resolve host workflowId st idx ran st')
    (hran : ∀ r ∈ ran, r.Smooth definition) :
    st' = st ∨ ∃ x step x' new, st.workflow.executionPointers[idx]? = some x ∧
      definition.findStep x.stepId = some step ∧ x.Later x' ∧
      (∀ q ∈ new, Spawned definition x q) ∧
      st'.workflow.executionPointers = st.workflow.executionPointers.set idx x' ++ new ∧
      Advances st.workflow.executionPointers x step x' new := by
  cases h with
  | absent => exact .inl rfl
  | skipped env pointer step h => exact (hran _ List.mem_cons_self).elim
  | failed env env' pointer step body e h hbody => exact (hran _ List.mem_cons_self).elim
  | returned env env' pointer step body result h hbody =>
    obtain ⟨hp, hstep, hresolve, -⟩ := examinePointer_eq_run h
    obtain ⟨hlater, hnew⟩ := processResult_advance env' result (startPointer env pointer)
      definition st.workflow.id
    have hstart := startPointer_later env pointer
    refine .inr ⟨pointer, step, _, _, hp, hstep, hstart.trans hlater,
      fun q hq => (hnew q hq).of_later hstart,
      applyResult_executionPointers .., ?_⟩
    have hproceed (hresult : result.proceed = true) (hspawned : step.stepType = sequenceKey →
        step.children ≠ [] → ∃ q ∈ st.workflow.executionPointers, q.scope = pointer.inner) :
        Advances st.workflow.executionPointers pointer step
          (processResult env' result (startPointer env pointer) definition st.workflow.id).1
          (processResult env' result (startPointer env pointer) definition
            st.workflow.id).2.newPointers := by
      obtain ⟨hcomplete, -, hnew⟩ := processResult_proceed env'
        (startPointer env pointer) st.workflow.id hresult hstep
      refine .proceeded hcomplete (fun q hq => ?_) hspawned
      rw [hnew] at hq
      obtain ⟨id, hid, rfl⟩ := List.mem_map.mp hq
      obtain ⟨o, ho, rfl⟩ := findNextStep_mem (Option.mem_toList.mp hid)
      exact ⟨rfl, o, ho, rfl⟩
    -- Either the step is a container, run by `SequenceStep`, or its body proceeds.
    by_cases htype : step.stepType = sequenceKey
    · obtain rfl : SequenceStep.run = body := by simpa [htype, hseq] using hresolve
      rcases SequenceStep.yields hbody with ⟨rfl, -, hnone⟩ | ⟨rfl, hspawned⟩ | rfl
      · refine .branched rfl (fun q hq hscope => ?_) ?_ fun q hq => (mem_childPointers hq).2.1
        · obtain ⟨q', hq', hscope'⟩ := (scope_started env hp).mpr ⟨q, hq, hscope⟩
          exact hnone q' hq' hscope'
        · simp only [processResult, ExecutionResult.branch, startPointer, hstep]
          exact childPointers_stepIds ..
      · exact hproceed rfl fun _ hne => (scope_started env hp).mp (hspawned hne)
      · exact .waited rfl rfl
    · refine hproceed ?_ fun h => absurd h htype
      rcases hran _ List.mem_cons_self with hresult | ⟨s, hs, hs'⟩
      · exact hresult
      · rw [definition.findStep_id hstep] at hs
        obtain rfl : step = s := Option.some_inj.mp (hstep.symm.trans hs)
        exact absurd hs' htype

end Round

/-! ## Detached definitions -/

namespace WorkflowDefinition

/-- The children of all containers. -/
def allChildren (d : WorkflowDefinition) : List Nat := d.steps.flatMap WorkflowStep.children

/-- Nothing but its own container leads to a child. -/
structure Detached (d : WorkflowDefinition) : Prop where
  nodup : d.allChildren.Nodup
  first : 0 ∉ d.allChildren
  unreached : ∀ s ∈ d.steps, ∀ o ∈ s.outcomes, o.nextStep ∉ d.allChildren
  uncompensated : ∀ s ∈ d.steps, ∀ id ∈ s.compensationStepId, id ∉ d.allChildren
  container : ∀ s ∈ d.steps, s.children ≠ [] → s.stepType = sequenceKey
  irrefl : ∀ s ∈ d.steps, s.id ∉ s.children

/-- A child has one container. -/
theorem Detached.eq_of_mem_children {d : WorkflowDefinition} (hd : d.Detached)
    {c c' : WorkflowStep} (hc : c ∈ d.steps) (hc' : c' ∈ d.steps) {child : Nat}
    (h : child ∈ c.children) (h' : child ∈ c'.children) : c = c' := by
  by_contra hne
  -- The lists of children are disjoint, since no child is listed twice.
  have hdisjoint := (List.nodup_flatMap.mp hd.nodup).2
  have : Std.Symm (Function.onFun List.Disjoint WorkflowStep.children) :=
    ⟨fun _ _ h _ ha hb => h hb ha⟩
  exact hdisjoint.forall hc hc' hne h h'

end WorkflowDefinition

/-- The number of pointers at step `stepId` in the scope `scope`. -/
def spawnCount (l : List ExecutionPointer) (stepId : Nat) (scope : List String) : Nat :=
  l.countP fun q => q.stepId = stepId ∧ q.scope = scope

/-- The invariant of smooth runs of a detached definition: scopes are made of the ids of pointers,
the pointers of children are created by their containers, and a container has spawned either
nothing yet or each of its children once. -/
structure SpawnInv (d : WorkflowDefinition) (l : List ExecutionPointer) : Prop where
  scopes : ∀ q ∈ l, ∀ i ∈ q.scope, i ∈ l.map ExecutionPointer.id
  created : ∀ q ∈ l, q.stepId ∈ d.allChildren → ∃ x ∈ l, ∃ c, d.findStep x.stepId = some c ∧
    q.stepId ∈ c.children ∧ q.predecessorId = some x.id
  once : ∀ p ∈ l, ∀ c, d.findStep p.stepId = some c → c.children ≠ [] →
    ((∀ q ∈ l, q.scope ≠ p.inner) ∧ p.status ≠ .complete) ∨
      ∀ child ∈ c.children, spawnCount l child p.inner = 1

section Invariant

variable {d : WorkflowDefinition} {l new : List ExecutionPointer} {p q x x' : ExecutionPointer}
  {step : WorkflowStep} {idx : Nat}

/-- In a detached definition, pointers of children are spawned by their containers. -/
theorem Spawned.mem_children (hd : d.Detached) (h : Spawned d p q)
    (hq : q.stepId ∈ d.allChildren) :
    ∃ c, d.findStep p.stepId = some c ∧ q.stepId ∈ c.children ∧ q.scope = p.inner := by
  cases h with
  | next id hstep ho => exact absurd hq (hd.unreached _ (List.mem_of_find?_eq_some hstep) _ ho)
  | compensation id hstep hc =>
    exact absurd hq (hd.uncompensated _ (List.mem_of_find?_eq_some hstep) _ hc)
  | child hstep hq hscope => exact ⟨_, hstep, hq, hscope⟩

theorem mem_allChildren {c : WorkflowStep} {id child : Nat} (hc : d.findStep id = some c)
    (hchild : child ∈ c.children) : child ∈ d.allChildren :=
  List.mem_flatMap.mpr ⟨c, List.mem_of_find?_eq_some hc, hchild⟩

theorem spawnCount_set_append (hx : l[idx]? = some x) (hlater : x.Later x') (stepId : Nat)
    (scope : List String) :
    spawnCount (l.set idx x' ++ new) stepId scope =
      spawnCount l stepId scope + spawnCount new stepId scope := by
  -- Only the steps and the scopes of the pointers count, and a round changes neither.
  have hmap := map_set_of_eq (f := fun q => decide (q.stepId = stepId ∧ q.scope = scope)) (b := x')
    hx (by rw [hlater.stepId, hlater.scope])
  have hcount (l : List ExecutionPointer) : spawnCount l stepId scope =
      (l.map fun q => decide (q.stepId = stepId ∧ q.scope = scope)).countP id := by
    rw [List.countP_map]
    rfl
  rw [hcount, List.map_append, hmap, List.countP_append, ← hcount, ← hcount]

theorem exists_of_spawnCount {stepId : Nat} {scope : List String}
    (h : spawnCount l stepId scope ≠ 0) : ∃ q ∈ l, q.stepId = stepId ∧ q.scope = scope := by
  simpa [spawnCount, List.countP_eq_zero] using h

theorem spawnCount_eq_zero {scope : List String} (h : ∀ q ∈ l, q.scope ≠ scope) (stepId : Nat) :
    spawnCount l stepId scope = 0 :=
  List.countP_eq_zero.mpr fun q hq hq' => h q hq (of_decide_eq_true hq').2

/-- In a scope of their own, pointers at distinct steps are there once each. -/
theorem spawnCount_eq_one {scope : List String} {stepIds : List Nat} {stepId : Nat}
    (hids : l.map ExecutionPointer.stepId = stepIds) (hscope : ∀ q ∈ l, q.scope = scope)
    (hnodup : stepIds.Nodup) (h : stepId ∈ stepIds) : spawnCount l stepId scope = 1 := by
  rw [← List.count_eq_one_of_mem hnodup h, ← hids, List.count, List.countP_map]
  refine List.countP_congr fun q hq => ?_
  simp [hscope q hq]

namespace SpawnInv

variable (hd : d.Detached) (h : SpawnInv d l) (hx : l[idx]? = some x)
  (hstep : d.findStep x.stepId = some step) (hlater : x.Later x')
  (hnew : ∀ q ∈ new, Spawned d x q)

include h hx hnew in
/-- The scopes of new pointers are made of ids of pointers that were there before. -/
theorem mem_scope_new (hq : q ∈ new) {i : String} (hi : i ∈ q.scope) :
    i ∈ l.map ExecutionPointer.id := by
  have hx := List.mem_of_getElem? hx
  rcases (hnew q hq).scope with hscope | hscope
  · exact h.scopes x hx i (hscope ▸ hi)
  · rw [hscope, ExecutionPointer.inner, List.mem_append, List.mem_singleton] at hi
    rcases hi with hi | rfl
    · exact h.scopes x hx i hi
    · exact List.mem_map_of_mem hx

include hd hx hstep hlater in
/-- A container that has spawned nothing: it waits, or spawns its children in this round. -/
theorem once_of_unspawned (hadvances : Advances l x step x' new)
    (hnodup : (l.map ExecutionPointer.id).Nodup) (hp : p ∈ l) (hq : q = p ∨ p = x ∧ q = x')
    {c : WorkflowStep} (hc : d.findStep p.stepId = some c) (hne : c.children ≠ [])
    (hl : ∀ q ∈ l, q.scope ≠ p.inner) (hstatus : p.status ≠ .complete) :
    ((∀ q' ∈ l.set idx x' ++ new, q'.scope ≠ p.inner) ∧ q.status ≠ .complete) ∨
      ∀ child ∈ c.children, spawnCount (l.set idx x' ++ new) child p.inner = 1 := by
  have hxmem := List.mem_of_getElem? hx
  have hmem := List.mem_of_find?_eq_some hc
  have hstep_eq (hpx : p = x) : c = step := by
    subst hpx
    exact Option.some_inj.mp (hc.symm.trans hstep)
  cases hadvances with
  | proceeded hcomplete hsucc hspawned =>
    refine .inl ⟨scope_ne_of_set_append hx hlater hl fun q hq => (hsucc q hq).1 ▸ hl x hxmem, ?_⟩
    rcases hq with rfl | ⟨rfl, rfl⟩
    · exact hstatus
    · -- A container does not proceed before it has spawned its children.
      obtain rfl := hstep_eq rfl
      obtain ⟨q, hq, hscope⟩ := hspawned (hd.container c hmem hne) hne
      exact absurd hscope (hl q hq)
  | branched hrunning hnone hids hscope =>
    by_cases hpx : p = x
    · obtain rfl := hstep_eq hpx
      subst hpx
      -- The container itself branches: one new pointer for each child.
      refine .inr fun child hchild => ?_
      have hchildren : c.children.Nodup := (List.nodup_flatMap.mp hd.nodup).1 c hmem
      rw [spawnCount_set_append hx hlater, spawnCount_eq_zero hnone,
        spawnCount_eq_one hids hscope hchildren hchild]
    · obtain rfl : q = p := hq.resolve_right fun hq => hpx hq.1
      refine .inl ⟨scope_ne_of_set_append hx hlater hl fun q' hq' heq => ?_, hstatus⟩
      exact hpx (eq_of_inner hnodup hp hxmem (heq.symm.trans (hscope q' hq')))
  | waited hrunning hnil =>
    refine .inl ⟨scope_ne_of_set_append hx hlater hl (by simp [hnil]), ?_⟩
    rcases hq with rfl | ⟨rfl, rfl⟩
    · exact hstatus
    · simp [hrunning]

include hd hx hlater hnew in
/-- A container that has spawned each child once: nothing is added to its scope. -/
theorem once_of_spawned (hadvances : Advances l x step x' new)
    (hnodup : (l.map ExecutionPointer.id).Nodup) (hp : p ∈ l) {c : WorkflowStep}
    (hc : d.findStep p.stepId = some c) {child : Nat} (hchild : child ∈ c.children)
    (hcount : spawnCount l child p.inner = 1) :
    spawnCount (l.set idx x' ++ new) child p.inner = 1 := by
  rw [spawnCount_set_append hx hlater, hcount]
  by_contra hmore
  have hmore : spawnCount new child p.inner ≠ 0 := by omega
  obtain ⟨q, hqnew, rfl, hscope⟩ := exists_of_spawnCount hmore
  -- Only a branch of the container itself creates pointers of its children.
  obtain ⟨-, -, -, hinner⟩ := (hnew q hqnew).mem_children hd (mem_allChildren hc hchild)
  obtain rfl := eq_of_inner hnodup hp (List.mem_of_getElem? hx) (hscope.symm.trans hinner)
  cases hadvances with
  | proceeded _ hsucc _ => exact p.scope_ne_inner ((hsucc q hqnew).1.symm.trans hscope)
  | branched _ hnone _ _ =>
    have hne : spawnCount l q.stepId p.inner ≠ 0 := by simp [hcount]
    obtain ⟨q', hq', -, hscope'⟩ := exists_of_spawnCount hne
    exact hnone q' hq' hscope'
  | waited _ hnil => simp [hnil] at hqnew

include hd h hx hstep hlater hnew in
/-- A smooth round keeps the invariant. -/
theorem advance (hadvances : Advances l x step x' new)
    (hnodup : ((l.set idx x' ++ new).map ExecutionPointer.id).Nodup) :
    SpawnInv d (l.set idx x' ++ new) := by
  rw [map_id_set_append hx hlater] at hnodup
  obtain ⟨hl, -, hdisjoint⟩ := List.nodup_append.mp hnodup
  refine ⟨fun q hq i hi => ?_, fun q hq hchild => ?_, fun p hp c hc hne => ?_⟩
  · rw [map_id_set_append hx hlater]
    refine List.mem_append_left _ ?_
    rcases mem_set_append hx hlater hq with ⟨q₀, hq₀, hlater₀, -⟩ | hq
    · exact h.scopes q₀ hq₀ i (hlater₀.scope ▸ hi)
    · exact h.mem_scope_new hx hnew hq hi
  · rcases mem_set_append hx hlater hq with ⟨q₀, hq₀, hlater₀, -⟩ | hq
    · obtain ⟨y, hy, c, hc, hmem, hpred⟩ := h.created q₀ hq₀ (hlater₀.stepId ▸ hchild)
      obtain ⟨y', hy', hlater'⟩ := exists_later new hx hlater hy
      exact ⟨y', hy', c, by rw [hlater'.stepId, hc], by rwa [hlater₀.stepId],
        by rw [hlater₀.predecessorId, hpred, hlater'.id]⟩
    · -- A new pointer of a child has been created by its container.
      obtain ⟨c, hc, hmem, -⟩ := (hnew q hq).mem_children hd hchild
      obtain ⟨y', hy', hlater'⟩ := exists_later new hx hlater (List.mem_of_getElem? hx)
      exact ⟨y', hy', c, by rw [hlater'.stepId, hc], hmem,
        by rw [(hnew q hq).predecessorId, hlater'.id]⟩
  · rcases mem_set_append hx hlater hp with ⟨p₀, hp₀, hlater₀, hp⟩ | hp
    · rw [hlater₀.inner]
      rw [hlater₀.stepId] at hc
      rcases h.once p₀ hp₀ c hc hne with ⟨hnone, hstatus⟩ | hcount
      · exact once_of_unspawned hd hx hstep hlater hadvances hl hp₀ hp hc hne hnone hstatus
      · exact .inr fun child hchild =>
          once_of_spawned hd hx hlater hnew hadvances hl hp₀ hc hchild (hcount child hchild)
    · -- A new pointer has a new id, which is in no scope.
      refine .inl ⟨fun q hq heq => ?_, by simp [(hnew p hp).status]⟩
      have hid : p.id ∈ q.scope := by simp [heq, ExecutionPointer.inner]
      have hold : p.id ∈ l.map ExecutionPointer.id := by
        rcases mem_set_append hx hlater hq with ⟨q₀, hq₀, hlater₀, -⟩ | hq
        · exact h.scopes q₀ hq₀ _ (hlater₀.scope ▸ hid)
        · exact h.mem_scope_new hx hnew hq hid
      exact hdisjoint _ hold _ (List.mem_map_of_mem hp) rfl

end SpawnInv

end Invariant

/-- A container has spawned its children as it should: when a pointer of it is complete, there is
one pointer for each child in its scope, and no child follows another. -/
structure SpawnedOnce (l : List ExecutionPointer) (c : WorkflowStep) : Prop where
  once : ∀ p ∈ l, p.stepId = c.id → p.status = .complete →
    ∀ child ∈ c.children, spawnCount l child p.inner = 1
  unlinked : ∀ q ∈ l, q.stepId ∈ c.children → ∀ x ∈ l, q.predecessorId = some x.id →
    x.stepId ∉ c.children

theorem SpawnInv.spawnedOnce {d : WorkflowDefinition} {l : List ExecutionPointer}
    (hd : d.Detached) (h : SpawnInv d l) (hids : (l.map ExecutionPointer.id).Nodup)
    {c : WorkflowStep} (hc : d.findStep c.id = some c) : SpawnedOnce l c := by
  refine ⟨fun p hp hpc hcomplete child hchild => ?_, fun q hq hchild x hx hpred hx' => ?_⟩
  · have hne : c.children ≠ [] := List.ne_nil_of_mem hchild
    rcases h.once p hp c (hpc ▸ hc) hne with ⟨-, hstatus⟩ | hcount
    · exact absurd hcomplete hstatus
    · exact hcount child hchild
  · obtain ⟨y, hy, c', hc', hchild', hpred'⟩ := h.created q hq (mem_allChildren hc hchild)
    obtain rfl : y = x := List.inj_on_of_nodup_map hids hy hx
      (Option.some_inj.mp (hpred'.symm.trans hpred))
    have hmem := List.mem_of_find?_eq_some hc
    have hmem' := List.mem_of_find?_eq_some hc'
    -- The pointer that created `q` is at the only container that lists its step.
    obtain rfl : c' = c := hd.eq_of_mem_children hmem' hmem hchild' hchild
    exact hd.irrefl c' hmem' (d.findStep_id hc' ▸ hx')

/-! ## Runs -/

section Runs

variable {d : WorkflowDefinition} {resolve : StepResolver} {host : Option HostContext}
  {workflowId : String} {st st' : PassState} {idx : Nat} {indices : List Nat} {ran : List Ran}
  {w w' : WorkflowInstance}

theorem Round.spawnInv (hd : d.Detached) (hseq : resolve sequenceKey = some SequenceStep.run)
    (h : Round d resolve host workflowId st idx ran st') (hran : ∀ r ∈ ran, r.Smooth d)
    (hids : st'.workflow.pointerIds.Nodup) (hst : SpawnInv d st.workflow.executionPointers) :
    SpawnInv d st'.workflow.executionPointers := by
  rcases h.advances hseq hran with
    rfl | ⟨x, step, x', new, hx, hstep, hlater, hnew, hst', hadvances⟩
  · exact hst
  · rw [WorkflowInstance.pointerIds, hst'] at hids
    rw [hst']
    exact hst.advance hd hx hstep hlater hnew hadvances hids

theorem Loop.spawnInv (hd : d.Detached) (hseq : resolve sequenceKey = some SequenceStep.run)
    (h : Loop d resolve host workflowId st indices ran st') (hran : ∀ r ∈ ran, r.Smooth d)
    (hids : st'.workflow.pointerIds.Nodup) (hst : SpawnInv d st.workflow.executionPointers) :
    SpawnInv d st'.workflow.executionPointers := by
  induction h with
  | nil => exact hst
  | cons hround hloop ih =>
    refine ih (fun r hr => hran r (List.mem_append_right _ hr)) hids ?_
    exact hround.spawnInv hd hseq (fun r hr => hran r (List.mem_append_left _ hr))
      (hids.sublist hloop.pointerIds.sublist) hst

theorem Pass.spawnInv (hd : d.Detached) (hseq : resolve sequenceKey = some SequenceStep.run)
    (h : Pass d resolve host w ran w') (hran : ∀ r ∈ ran, r.Smooth d)
    (hids : w'.pointerIds.Nodup) (hw : SpawnInv d w.executionPointers) :
    SpawnInv d w'.executionPointers := by
  obtain ⟨-, now, t, st, hloop, rfl⟩ := h
  rw [concluded_executionPointers]
  exact hloop.spawnInv hd hseq hran (by simpa [WorkflowInstance.pointerIds] using hids) hw

/-- In every smooth run the invariant holds. -/
theorem Passes.spawnInv {rans : List (List Ran)} (hd : d.Detached)
    (hseq : resolve sequenceKey = some SequenceStep.run)
    (h : Passes d resolve host w rans w') (hran : ∀ ran ∈ rans, ∀ r ∈ ran, r.Smooth d)
    (hids : w'.pointerIds.Nodup) (hw : SpawnInv d w.executionPointers) :
    SpawnInv d w'.executionPointers := by
  induction h with
  | nil => exact hw
  | snoc hpasses hpass ih =>
    have ih := ih (fun ran hr => hran ran (List.mem_append_left _ hr))
      (hids.sublist hpass.pointerIds.sublist)
    exact hpass.spawnInv hd hseq (hran _ (by simp)) hids ih

end Runs

end Wfe
