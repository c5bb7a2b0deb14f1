import Wfe.Host.History

/-!
# The scope tree

Every pointer but the first one is created by another pointer, its predecessor, either in the scope
of the predecessor or in the scope the predecessor has opened for its children. So the scopes form
a tree, and a pointer lists exactly the children it has created.

## Main definitions

* `ScopeTree`: pointers whose scopes form a tree

## Main results

* `ScopeTree.turn`, `Does.scopeTree`: turns and changes keep the tree
* `scope_tree`: the pointers of every instance form a tree
-/

namespace Wfe

open Program Provider

/-- The pointers created by `c` in the scope it has opened, in the order of their creation. -/
def branchIds (l : List ExecutionPointer) (c : ExecutionPointer) : List String :=
  (l.filter fun q => q.scope = c.inner ∧ q.predecessorId = some c.id).map ExecutionPointer.id

/-- The scopes of the pointers form a tree: a scope has been opened by an earlier pointer, a
predecessor is an earlier pointer of the same scope or the one that opened it, and a pointer lists
the children it has created. -/
structure ScopeTree (l : List ExecutionPointer) : Prop where
  owner : ∀ (j : Nat) (p : ExecutionPointer), l[j]? = some p → p.scope ≠ [] →
    ∃ i c, i < j ∧ l[i]? = some c ∧ p.scope = c.inner
  predecessor : ∀ (j : Nat) (p : ExecutionPointer) (id : String), l[j]? = some p →
    p.predecessorId = some id →
    ∃ i c, i < j ∧ l[i]? = some c ∧ c.id = id ∧ (p.scope = c.scope ∨ p.scope = c.inner)
  children : ∀ c ∈ l, c.children = branchIds l c

section ScopeTree

variable {definition : WorkflowDefinition} {l new : List ExecutionPointer} {idx : Nat}
  {c p q x x' : ExecutionPointer} {step : WorkflowStep} {r : Ran}

theorem branchIds_append (l new : List ExecutionPointer) (c : ExecutionPointer) :
    branchIds (l ++ new) c = branchIds l c ++ branchIds new c := by
  simp [branchIds]

/-- Only the ids, the scopes and the predecessors of the pointers count. -/
theorem branchIds_map {f : ExecutionPointer → ExecutionPointer} (hf : ∀ p ∈ l, p.Later (f p)) :
    branchIds (l.map f) c = branchIds l c := by
  induction l with
  | nil => rfl
  | cons p l ih =>
    have hp := hf p List.mem_cons_self
    have ih := ih fun p hp => hf p (List.mem_cons_of_mem _ hp)
    simp only [branchIds, List.map_cons, List.filter_cons, hp.scope, hp.predecessorId] at ih ⊢
    split_ifs
    · rw [List.map_cons, List.map_cons, ih, hp.id]
    · exact ih

theorem branchIds_of_later (h : p.Later q) : branchIds l q = branchIds l p := by
  simp only [branchIds, h.inner, h.id]

theorem branchIds_set (hx : l[idx]? = some x) (hlater : x.Later x') :
    branchIds (l.set idx x') c = branchIds l c := by
  -- The round changes nothing that the list of children depends on.
  induction l generalizing idx with
  | nil => rfl
  | cons p l ih =>
    cases idx with
    | zero =>
      obtain rfl : p = x := by simpa using hx
      simp only [branchIds, List.set_cons_zero, List.filter_cons, hlater.scope,
        hlater.predecessorId]
      split_ifs
      · rw [List.map_cons, List.map_cons, hlater.id]
      · rfl
    | succ idx =>
      have ih := ih (by simpa using hx)
      simp only [branchIds, List.set_cons_succ, List.filter_cons] at ih ⊢
      split_ifs
      · rw [List.map_cons, List.map_cons, ih]
      · exact ih

theorem branchIds_eq_nil (h : ∀ q ∈ l, q.scope = c.inner → q.predecessorId ≠ some c.id) :
    branchIds l c = [] := by
  simp only [branchIds, List.map_eq_nil_iff, List.filter_eq_nil_iff, decide_eq_true_eq]
  exact fun q hq hc => h q hq hc.1 hc.2

theorem branchIds_eq_self (h : ∀ q ∈ l, q.scope = c.inner ∧ q.predecessorId = some c.id) :
    branchIds l c = l.map ExecutionPointer.id := by
  rw [branchIds, List.filter_eq_self.mpr fun q hq => decide_eq_true (h q hq)]

/-- A turn either branches, and lists the pointers it creates, or creates them in its own scope. -/
theorem Effect.branches (h : Effect definition step x r x' new) :
    (x'.children = x.children ∧ ∀ q ∈ new, q.scope = x.scope) ∨
      (x'.children = x.children ++ new.map ExecutionPointer.id ∧
        ∀ q ∈ new, q.scope = x.inner ∧ q.predecessorId = some x.id) := by
  cases h with
  | skipped id _ _ _ hchildren | proceeded id _ _ _ _ _ hchildren =>
    refine .inl ⟨hchildren, fun q hq => ?_⟩
    obtain ⟨_, -, rfl⟩ := List.mem_map.mp hq
    rfl
  | branched uuid result values _ _ _ _ _ _ hchildren =>
    refine .inr ⟨hchildren, fun q hq => ?_⟩
    obtain ⟨-, hscope, hpred, -⟩ := mem_childPointers hq
    exact ⟨hscope, hpred⟩
  | waits _ _ _ _ _ _ _ hchildren | pauses _ _ _ _ _ _ _ _ hchildren
  | retries _ _ _ _ _ hchildren => exact .inl ⟨hchildren, by simp⟩
  | failed id _ _ _ _ hchildren =>
    refine .inl ⟨hchildren, fun q hq => ?_⟩
    split_ifs at hq
    · obtain ⟨_, -, rfl⟩ := List.mem_map.mp hq
      rfl
    · cases hq

namespace ScopeTree

/-- Only the ids, the scopes, the predecessors and the children of the pointers count. -/
theorem map {f : ExecutionPointer → ExecutionPointer} (hf : ∀ p ∈ l, p.Later (f p))
    (hchildren : ∀ p ∈ l, (f p).children = p.children) (h : ScopeTree l) :
    ScopeTree (l.map f) := by
  refine ⟨fun j q hq hscope => ?_, fun j q id hq hpred => ?_, fun c hc => ?_⟩
  · obtain ⟨p, hp, rfl⟩ := by simpa using hq
    have hlater := hf p (List.mem_of_getElem? hp)
    obtain ⟨i, c, hi, hc, hpc⟩ := h.owner j p hp (hlater.scope ▸ hscope)
    refine ⟨i, f c, hi, by simp [hc], ?_⟩
    rw [hlater.scope, hpc, (hf c (List.mem_of_getElem? hc)).inner]
  · obtain ⟨p, hp, rfl⟩ := by simpa using hq
    have hlater := hf p (List.mem_of_getElem? hp)
    obtain ⟨i, c, hi, hc, hid, hpc⟩ := h.predecessor j p id hp (hlater.predecessorId ▸ hpred)
    have hlater' := hf c (List.mem_of_getElem? hc)
    exact ⟨i, f c, hi, by simp [hc], by rw [hlater'.id, hid], by
      rwa [hlater.scope, hlater'.scope, hlater'.inner]⟩
  · obtain ⟨p, hp, rfl⟩ := List.mem_map.mp hc
    rw [hchildren p hp, h.children p hp, branchIds_map hf, branchIds_of_later (hf p hp)]

section Turn

variable (h : ScopeTree l) (hx : l[idx]? = some x) (hlater : x.Later x')
  (hnew : ∀ q ∈ new, Spawned definition x q)

include h hx hlater hnew

theorem turn_owner {j : Nat} (hq : (l.set idx x' ++ new)[j]? = some q) (hscope : q.scope ≠ []) :
    ∃ i c, i < j ∧ (l.set idx x' ++ new)[i]? = some c ∧ q.scope = c.inner := by
  have hidx : idx < l.length := (List.getElem?_eq_some_iff.mp hx).1
  rcases getElem?_set_append hx hlater hq with ⟨p, hp, hlater', -⟩ | ⟨hj, hq⟩
  · obtain ⟨i, c, hi, hc, hpc⟩ := h.owner j p hp (hlater'.scope ▸ hscope)
    obtain ⟨c', hc', hcc'⟩ := getElem?_later new hx hlater hc
    exact ⟨i, c', hi, hc', by rw [hlater'.scope, hpc, hcc'.inner]⟩
  · rcases (hnew q hq).scope with hq' | hq'
    · -- A successor is in the scope of the pointer whose turn it is.
      obtain ⟨i, c, hi, hc, hpc⟩ := h.owner idx x hx (hq' ▸ hscope)
      obtain ⟨c', hc', hcc'⟩ := getElem?_later new hx hlater hc
      exact ⟨i, c', by omega, hc', by rw [hq', hpc, hcc'.inner]⟩
    · obtain ⟨x₁, hx₁, hlater₁⟩ := getElem?_later new hx hlater hx
      exact ⟨idx, x₁, by omega, hx₁, by rw [hq', hlater₁.inner]⟩

theorem turn_predecessor {j : Nat} {id : String} (hq : (l.set idx x' ++ new)[j]? = some q)
    (hid : q.predecessorId = some id) :
    ∃ i c, i < j ∧ (l.set idx x' ++ new)[i]? = some c ∧ c.id = id ∧
      (q.scope = c.scope ∨ q.scope = c.inner) := by
  have hidx : idx < l.length := (List.getElem?_eq_some_iff.mp hx).1
  rcases getElem?_set_append hx hlater hq with ⟨p, hp, hlater', -⟩ | ⟨hj, hq⟩
  · obtain ⟨i, c, hi, hc, hcid, hpc⟩ := h.predecessor j p id hp (hlater'.predecessorId ▸ hid)
    obtain ⟨c', hc', hcc'⟩ := getElem?_later new hx hlater hc
    exact ⟨i, c', hi, hc', by rw [hcc'.id, hcid], by rwa [hlater'.scope, hcc'.scope, hcc'.inner]⟩
  · obtain ⟨x₁, hx₁, hlater₁⟩ := getElem?_later new hx hlater hx
    obtain rfl : x.id = id := Option.some_inj.mp ((hnew q hq).predecessorId.symm.trans hid)
    refine ⟨idx, x₁, by omega, hx₁, hlater₁.id, ?_⟩
    rw [hlater₁.scope, hlater₁.inner]
    exact (hnew q hq).scope

theorem turn_children (heffect : Effect definition step x r x' new)
    (hnodup : ((l.set idx x' ++ new).map ExecutionPointer.id).Nodup)
    (hc : c ∈ l.set idx x' ++ new) : c.children = branchIds (l.set idx x' ++ new) c := by
  -- The new pointers name `x` as their predecessor, so no other pointer gets a child.
  have hnone (hne : c.id ≠ x.id) : branchIds new c = [] := branchIds_eq_nil fun q hq _ hq' => by
    rw [(hnew q hq).predecessorId] at hq'
    exact hne (Option.some_inj.mp hq').symm
  rw [branchIds_append, branchIds_set hx hlater]
  rcases eq_or_mem_of_set_append hx hlater hnodup hc with rfl | ⟨hc, hne⟩ | hc
  · rw [branchIds_of_later hlater, ← h.children x (List.mem_of_getElem? hx)]
    rcases heffect.branches with ⟨hchildren, hscope⟩ | ⟨hchildren, hbranch⟩
    · rw [hchildren, branchIds_eq_nil, List.append_nil]
      -- A successor is not in the scope that the pointer opens.
      intro q hq hq'
      rw [hscope q hq, hlater.inner] at hq'
      exact absurd hq' x.scope_ne_inner
    · rw [hchildren, branchIds_eq_self]
      intro q hq
      rw [hlater.inner, hlater.id]
      exact hbranch q hq
  · rw [hnone hne, List.append_nil]
    exact h.children c hc
  · -- A new pointer has a new id: it is no predecessor yet.
    obtain ⟨-, -, hdisjoint⟩ := List.nodup_append.mp (map_id_set_append hx hlater ▸ hnodup)
    have hold (y : ExecutionPointer) (hy : y ∈ l) : y.id ≠ c.id :=
      hdisjoint _ (List.mem_map_of_mem hy) _ (List.mem_map_of_mem hc)
    rw [hnone (hold x (List.mem_of_getElem? hx)).symm, List.append_nil,
      (heffect.fresh hc).children, branchIds_eq_nil]
    intro q hq _ hq'
    obtain ⟨j, hj⟩ := List.mem_iff_getElem?.mp hq
    obtain ⟨i, y, -, hy, hyid, -⟩ := h.predecessor j q c.id hj hq'
    exact hold y (List.mem_of_getElem? hy) hyid

/-- A turn keeps the tree. -/
theorem turn (heffect : Effect definition step x r x' new)
    (hnodup : ((l.set idx x' ++ new).map ExecutionPointer.id).Nodup) :
    ScopeTree (l.set idx x' ++ new) :=
  ⟨fun _ _ => h.turn_owner hx hlater hnew, fun _ _ _ => h.turn_predecessor hx hlater hnew,
    fun _ => h.turn_children hx hlater hnew heffect hnodup⟩

end Turn

end ScopeTree

section Changes

variable {resolve : StepResolver} {host : Option HostContext} {turns : List Turn}
  {w w' : WorkflowInstance} {change : Change}

theorem Conducts.scopeTree (h : Conducts definition resolve host w turns w')
    (hids : w'.pointerIds.Nodup) (hw : ScopeTree w.executionPointers) :
    ScopeTree w'.executionPointers := by
  obtain ⟨-, now, tm, st, hturns, -, rfl⟩ := h
  simp only [WorkflowInstance.pointerIds, concluded_executionPointers] at hids ⊢
  -- Over the turns of the pass; ids that are distinct at the end were distinct before.
  refine hturns.rule (N := fun _ st => st.workflow.pointerIds.Nodup →
    ScopeTree st.workflow.executionPointers) (fun _ => hw) ?_ hids
  intro done t st st' _ hst hp _ hround hids
  have hpre := hround.pointerIds
  obtain ⟨step, r, p', new, -, -, heffect, hlater, hnew, hst'⟩ := hround.effect hp
  rw [WorkflowInstance.pointerIds, hst'] at hids
  rw [hst']
  refine (hst (hids.sublist ?_)).turn hp hlater hnew heffect hids
  rw [← hst']
  exact hpre.sublist

/-- Every change keeps the tree, as long as the ids are distinct. -/
theorem Does.scopeTree (h : Does definition w change w') (hids : w'.pointerIds.Nodup)
    (hw : ScopeTree w.executionPointers) : ScopeTree w'.executionPointers := by
  rcases h.pass_or_woken with ⟨resolve, host, turns, -, -, h⟩ | ⟨-, f, hf, hw'⟩
  · exact h.scopeTree hids hw
  · rw [hw']
    exact hw.map (fun p _ => (hf p).later) fun p _ => (hf p).children

theorem Started.scopeTree (h : Started definition w) : ScopeTree w.executionPointers := by
  have hfresh := h.fresh
  rcases h.pointers with ⟨-, hnil⟩ | ⟨p, -, hp, -, -, -, hscope, hpred, -⟩
  · rw [hnil]
    exact ⟨by simp, by simp, by simp⟩
  · rw [hp] at hfresh ⊢
    have hget {j : Nat} {q : ExecutionPointer} (hq : [p][j]? = some q) : q = p := by
      simpa using List.mem_of_getElem? hq
    refine ⟨fun j q hq hne => ?_, fun j q id hq hid => ?_, fun c hc => ?_⟩
    · obtain rfl := hget hq
      exact absurd hscope hne
    · obtain rfl := hget hq
      simp [hpred] at hid
    · obtain rfl := List.mem_singleton.mp hc
      rw [(hfresh c hc).children, branchIds_eq_nil]
      simp [hpred]

/-- The pointers of an instance form a tree, as long as the ids drawn are distinct. -/
theorem Reachable.scopeTree (h : Reachable definition w) (hids : w.pointerIds.Nodup) :
    ScopeTree w.executionPointers := by
  refine h.invariant (N := fun w => w.pointerIds.Nodup → ScopeTree w.executionPointers)
    (fun w hw _ => hw.scopeTree) (fun w w' hw hevolves hids => ?_) hids
  obtain ⟨c, hdoes⟩ := evolves_iff_does.mp hevolves
  exact hdoes.scopeTree hids (hw (hids.sublist hdoes.pointerIds.sublist))

end Changes

end ScopeTree

/-- **The scopes of an instance form a tree.** As long as the ids drawn for pointers are distinct,
a scope that is not empty has been opened by an earlier pointer, a predecessor is an earlier
pointer, of the same scope unless it has opened it, and every pointer lists the pointers it has
created in the scope it opened, in the order of their creation. -/
theorem scope_tree (definition : WorkflowDefinition) (w : WorkflowInstance)
    (h : Reachable definition w) (hids : w.pointerIds.Nodup) :
    (∀ (j : Nat) (p : ExecutionPointer), w.executionPointers[j]? = some p → p.scope ≠ [] →
      ∃ i c, i < j ∧ w.executionPointers[i]? = some c ∧ p.scope = c.scope ++ [c.id]) ∧
    (∀ (j : Nat) (p : ExecutionPointer) (id : String), w.executionPointers[j]? = some p →
      p.predecessorId = some id → ∃ i c, i < j ∧ w.executionPointers[i]? = some c ∧ c.id = id ∧
        (p.scope = c.scope ∨ p.scope = c.scope ++ [c.id])) ∧
    ∀ c ∈ w.executionPointers, c.children =
      (w.executionPointers.filter fun q =>
        q.scope = c.scope ++ [c.id] ∧ q.predecessorId = some c.id).map ExecutionPointer.id := by
  have htree := h.scopeTree hids
  exact ⟨htree.owner, htree.predecessor, htree.children⟩

/-- A container with one child. -/
def oneChild : WorkflowDefinition :=
  { WorkflowDefinition.new "container" 1 with
    steps := [{ WorkflowStep.new 0 sequenceKey with children := [1] }, WorkflowStep.new 1 "step"] }

/-- The container lists its child. -/
theorem scope_tree_one_child : ∃ w c q, Reachable oneChild w ∧ w.pointerIds.Nodup ∧
    w.executionPointers = [c, q] ∧ q.scope = c.scope ++ [c.id] ∧ c.children = [q.id] := by
  obtain ⟨changes, w, hlives, hw⟩ := Simulation.history_any (d := oneChild)
    (w := startOf oneChild) (l := [.pass proceeding "a"])
    (f := fun _ w => w.pointerIds.Nodup ∧ ∃ c ∈ w.executionPointers,
      ∃ q ∈ w.executionPointers, w.executionPointers = [c, q] ∧ q.scope = c.scope ++ [c.id] ∧
        q.predecessorId = some c.id ∧ c.predecessorId = none) (by decide)
  obtain ⟨hids, c, hc, q, hq, hpointers, hscope, hpred, hnone⟩ := of_decide_eq_true hw
  have hreachable : Reachable oneChild w := ⟨_, startOf_started _, hlives.evolves⟩
  obtain ⟨-, -, hchildren⟩ := scope_tree oneChild w hreachable hids
  refine ⟨w, c, q, hreachable, hids, hpointers, hscope, ?_⟩
  rw [hchildren c hc, hpointers]
  simp [hscope, hpred, hnone]

end Wfe
