import Mathlib.Data.List.Nodup
import Mathlib.Data.List.Pairwise
import Mathlib.Data.List.Perm.Subperm
import Mathlib.Logic.Relation

/-!
# Walks that meet each node once

A walk follows every edge from its root, depth first, and stops when it comes to a node it has met
before, on whatever way. So it goes through exactly if the part of the graph below its root is a
tree: if there is no cycle, and no node to which two edges lead.

## Main definitions

* `Walk.walk`: the walk from a node, after the nodes met so far
* `Walk.Tree`, `Walk.Clash`: how it ends
* `Walk.Twice`: a node to which two edges lead

## Main results

* `Walk.walk_ends`: the two ways a walk with enough fuel ends
* `Walk.Tree.reaches`, `Walk.Tree.acyclic`, `Walk.Tree.not_twice`: a walk that goes through has met
  what can be reached, and there is neither a cycle nor a node that is led to twice
* `Walk.Clash.cycle_or_twice`: a walk that does not go through has met one or the other
-/

namespace Walk

variable {α : Type}

/-- A walk stops at a node it has met before, or without fuel. -/
inductive Halt (α : Type)
  | met (node : α)
  | exhausted
deriving DecidableEq, Repr

/-- The nodes met after the walk from `node`, in the order they are met. -/
def walk [DecidableEq α] (targets : α → List α) : ℕ → α → List α → Except (Halt α) (List α)
  | 0, _, _ => .error .exhausted
  | fuel + 1, node, met =>
    if node ∈ met then .error (.met node)
    else (targets node).foldlM (fun met node => walk targets fuel node met) (met ++ [node])

section Ends

variable (targets : α → List α)

/-- An edge leads from `a` to `b`. -/
def Leads (a b : α) : Prop := b ∈ targets a

/-- The nodes in `order` are met when the edges to `pending` are followed, each of them once. -/
structure Tree (pending order : List α) : Prop where
  nodup : order.Nodup
  perm : order.Perm (pending ++ order.flatMap targets)
  forward : order.Pairwise fun a b => ¬Relation.TransGen (Leads targets) b a
  acyclic : ∀ a ∈ order, ¬Relation.TransGen (Leads targets) a a
  reached : ∀ a ∈ order, ∃ p ∈ pending, Relation.ReflTransGen (Leads targets) p a

/-- After `met`, the nodes in `order` are met when the edges to `pending` are followed, each of them
once, and then `node` for the second time. -/
structure Clash (met pending order : List α) (node : α) : Prop where
  nodup : order.Nodup
  again : node ∈ met ++ order
  subperm : (order ++ [node]).Subperm (pending ++ order.flatMap targets)
  reached : ∀ a ∈ order, ∃ p ∈ pending, Relation.ReflTransGen (Leads targets) p a

/-- Two edges from what `root` reaches lead to `node`. -/
def Twice [DecidableEq α] (root node : α) : Prop :=
  (∃ a, Relation.ReflTransGen (Leads targets) root a ∧ 2 ≤ (targets a).count node) ∨
    ∃ a b, a ≠ b ∧ Relation.ReflTransGen (Leads targets) root a ∧
      Relation.ReflTransGen (Leads targets) root b ∧ node ∈ targets a ∧ node ∈ targets b

end Ends

variable {targets : α → List α} {pending pending' order order' met : List α} {node root : α}

theorem perm_regroup (l₁ l₂ l₃ l₄ : List α) :
    ((l₁ ++ l₂) ++ (l₃ ++ l₄)).Perm ((l₁ ++ l₃) ++ (l₂ ++ l₄)) := by
  simp only [List.append_assoc]
  exact List.Perm.append_left l₁ (List.perm_append_comm_assoc l₂ l₃ l₄)

namespace Tree

/-- What is met is closed under the edges. -/
theorem closed (h : Tree targets pending order) {a b : α} (ha : a ∈ order)
    (hab : Relation.ReflTransGen (Leads targets) a b) : b ∈ order := by
  induction hab with
  | refl => exact ha
  | tail _ hbc ih =>
    refine h.perm.mem_iff.mpr (List.mem_append_right _ ?_)
    exact List.mem_flatMap.mpr ⟨_, ih, hbc⟩

theorem pending_subset (h : Tree targets pending order) : pending ⊆ order := fun _ ha =>
  h.perm.mem_iff.mpr (List.mem_append_left _ ha)

theorem nil : Tree targets [] [] :=
  ⟨List.nodup_nil, List.Perm.refl _, List.Pairwise.nil, by simp, by simp⟩

/-- Edges followed one after another. -/
theorem append (h : Tree targets pending order) (h' : Tree targets pending' order')
    (hdisjoint : order.Disjoint order') :
    Tree targets (pending ++ pending') (order ++ order') := by
  refine ⟨h.nodup.append h'.nodup hdisjoint, ?_, ?_, fun a ha => ?_, fun a ha => ?_⟩
  · rw [List.flatMap_append]
    exact (h.perm.append h'.perm).trans (perm_regroup ..)
  · refine List.pairwise_append.mpr ⟨h.forward, h'.forward, fun a ha b hb hba => ?_⟩
    exact hdisjoint ha (h'.closed hb hba.to_reflTransGen)
  · exact (List.mem_append.mp ha).elim (h.acyclic a) (h'.acyclic a)
  · rcases List.mem_append.mp ha with ha | ha
    · obtain ⟨p, hp, hpa⟩ := h.reached a ha
      exact ⟨p, List.mem_append_left _ hp, hpa⟩
    · obtain ⟨p, hp, hpa⟩ := h'.reached a ha
      exact ⟨p, List.mem_append_right _ hp, hpa⟩

/-- A node with what its edges lead to. -/
theorem of_targets (h : Tree targets (targets node) order) (hnode : node ∉ order) :
    Tree targets [node] (node :: order) := by
  refine ⟨List.nodup_cons.mpr ⟨hnode, h.nodup⟩, ?_, ?_, fun a ha => ?_, fun a ha => ?_⟩
  · rw [List.flatMap_cons]
    exact h.perm.cons node
  · refine List.pairwise_cons.mpr ⟨fun b hb hba => ?_, h.forward⟩
    exact hnode (h.closed hb hba.to_reflTransGen)
  · rcases List.mem_cons.mp ha with rfl | ha
    · intro hcycle
      obtain ⟨b, hab, hba⟩ := Relation.TransGen.head'_iff.mp hcycle
      exact hnode (h.closed (h.pending_subset hab) hba)
    · exact h.acyclic a ha
  · refine ⟨node, List.mem_cons_self, ?_⟩
    rcases List.mem_cons.mp ha with rfl | ha
    · exact .refl
    · obtain ⟨p, hp, hpa⟩ := h.reached a ha
      exact .head hp hpa

end Tree

namespace Clash

/-- A node that has been met before. -/
theorem here (hnode : node ∈ met) : Clash targets met [node] [] node :=
  ⟨List.nodup_nil, List.mem_append_left _ hnode, List.Subperm.refl _, by simp⟩

/-- What remains to be followed does not matter. -/
theorem append (h : Clash targets met pending order node) (pending' : List α) :
    Clash targets met (pending ++ pending') order node := by
  refine ⟨h.nodup, h.again, h.subperm.trans ?_, fun a ha => ?_⟩
  · rw [List.append_assoc]
    exact ((List.sublist_append_right pending' _).append_left pending).subperm
  · obtain ⟨p, hp, hpa⟩ := h.reached a ha
    exact ⟨p, List.mem_append_left _ hp, hpa⟩

/-- A clash after some edges have been followed. -/
theorem after (h : Tree targets pending order)
    (h' : Clash targets (met ++ order) pending' order' node)
    (hdisjoint : order.Disjoint order') :
    Clash targets met (pending ++ pending') (order ++ order') node := by
  refine ⟨h.nodup.append h'.nodup hdisjoint, ?_, ?_, fun a ha => ?_⟩
  · rw [← List.append_assoc]
    exact h'.again
  · rw [List.flatMap_append, List.append_assoc]
    refine (h.perm.subperm.append h'.subperm).trans (perm_regroup ..).subperm
  · rcases List.mem_append.mp ha with ha | ha
    · obtain ⟨p, hp, hpa⟩ := h.reached a ha
      exact ⟨p, List.mem_append_left _ hp, hpa⟩
    · obtain ⟨p, hp, hpa⟩ := h'.reached a ha
      exact ⟨p, List.mem_append_right _ hp, hpa⟩

/-- A clash below a node. -/
theorem of_targets {a : α} (h : Clash targets (met ++ [a]) (targets a) order node)
    (ha : a ∉ order) : Clash targets met [a] (a :: order) node := by
  refine ⟨List.nodup_cons.mpr ⟨ha, h.nodup⟩, ?_, ?_, fun b hb => ?_⟩
  · have hagain := h.again
    rwa [List.append_assoc] at hagain
  · rw [List.flatMap_cons]
    exact (List.subperm_cons a).mpr h.subperm
  · refine ⟨a, List.mem_cons_self, ?_⟩
    rcases List.mem_cons.mp hb with rfl | hb
    · exact .refl
    · obtain ⟨p, hp, hpb⟩ := h.reached b hb
      exact .head hp hpb

end Clash

/-! ## Walks -/

/-- The two ways to end: all edges to `pending` have been followed, or a node is met again. -/
def Ends (targets : α → List α) (met pending : List α) (result : Except (Halt α) (List α)) : Prop :=
  (∃ order, result = .ok (met ++ order) ∧ Tree targets pending order ∧ met.Disjoint order) ∨
    ∃ order node, result = .error (.met node) ∧ Clash targets met pending order node ∧
      met.Disjoint order

theorem foldlM_ends {visit : List α → α → Except (Halt α) (List α)}
    (hvisit : ∀ order, ∀ a ∈ pending, Ends targets (met ++ order) [a] (visit (met ++ order) a)) :
    Ends targets met pending (pending.foldlM visit met) := by
  induction pending generalizing met with
  | nil => exact .inl ⟨[], by simp [pure, Except.pure], .nil, List.disjoint_nil_right _⟩
  | cons a pending ih =>
    rw [List.foldlM_cons]
    have ha := hvisit [] a List.mem_cons_self
    rw [List.append_nil] at ha
    rcases ha with ⟨order, hok, htree, hmet⟩ | ⟨order, node, herror, hclash, hmet⟩
    · rw [hok]
      have hrest : Ends targets (met ++ order) pending (pending.foldlM visit (met ++ order)) := by
        refine ih fun order' b hb => ?_
        rw [List.append_assoc]
        exact hvisit (order ++ order') b (List.mem_cons_of_mem _ hb)
      rcases hrest with ⟨order', hok', htree', hmet'⟩ | ⟨order', node, herror, hclash, hmet'⟩
      · obtain ⟨hmet'', hdisjoint⟩ := List.disjoint_append_left.mp hmet'
        refine .inl ⟨order ++ order', ?_, htree.append htree' hdisjoint,
          List.disjoint_append_right.mpr ⟨hmet, hmet''⟩⟩
        rw [← List.append_assoc]
        exact hok'
      · obtain ⟨hmet'', hdisjoint⟩ := List.disjoint_append_left.mp hmet'
        exact .inr ⟨order ++ order', node, herror, hclash.after htree hdisjoint,
          List.disjoint_append_right.mpr ⟨hmet, hmet''⟩⟩
    · rw [herror]
      exact .inr ⟨order, node, rfl, hclash.append pending, hmet⟩

variable [DecidableEq α] {nodes : List α} {fuel : ℕ}

/-- The nodes of `nodes` that have not been met. -/
def unmet (nodes met : List α) : ℕ := nodes.countP fun a => a ∉ met

theorem unmet_append_lt (hnodes : node ∈ nodes) (hmet : node ∉ met) :
    unmet nodes (met ++ [node]) < unmet nodes met := by
  have hle (l : List α) : l.countP (fun a => a ∉ met ++ [node]) ≤ l.countP fun a => a ∉ met := by
    refine List.countP_mono_left fun a _ ha => ?_
    simp only [decide_eq_true_eq, List.mem_append, not_or] at ha ⊢
    exact ha.1
  obtain ⟨pre, post, rfl⟩ := List.append_of_mem hnodes
  have hpre := hle pre
  have hpost := hle post
  simp only [unmet, List.countP_append, List.countP_cons]
  rw [if_neg (by simp), if_pos (by simpa using hmet)]
  omega

theorem unmet_append_le (nodes met order : List α) :
    unmet nodes (met ++ order) ≤ unmet nodes met := by
  refine List.countP_mono_left fun a _ ha => ?_
  simp only [decide_eq_true_eq, List.mem_append, not_or] at ha ⊢
  exact ha.1

/-- **How a walk ends**, with fuel for the nodes that have not been met. -/
theorem walk_ends (nodes : List α) (hclosed : ∀ a ∈ nodes, targets a ⊆ nodes) (hnode : node ∈ nodes)
    (hfuel : unmet nodes met < fuel) :
    Ends targets met [node] (walk targets fuel node met) := by
  induction fuel generalizing node met with
  | zero => omega
  | succ fuel ih =>
    unfold walk
    split_ifs with hmet
    · exact .inr ⟨[], node, rfl, .here hmet, List.disjoint_nil_right _⟩
    · have hlt := unmet_append_lt hnode hmet
      have hloop : Ends targets (met ++ [node]) (targets node)
          ((targets node).foldlM (fun met node => walk targets fuel node met) (met ++ [node])) := by
        refine foldlM_ends fun order a ha => ?_
        have hle := unmet_append_le nodes (met ++ [node]) order
        exact ih (hclosed node hnode ha) (by omega)
      rcases hloop with ⟨order, hok, htree, hdisjoint⟩ | ⟨order, again, herror, hclash, hdisjoint⟩
      · obtain ⟨hmet', hnot⟩ := List.disjoint_append_left.mp hdisjoint
        rw [List.singleton_disjoint] at hnot
        refine .inl ⟨node :: order, ?_, htree.of_targets hnot, ?_⟩
        · rw [hok, List.append_assoc]
          rfl
        · exact List.disjoint_cons_right.mpr ⟨hmet, hmet'⟩
      · obtain ⟨hmet', hnot⟩ := List.disjoint_append_left.mp hdisjoint
        rw [List.singleton_disjoint] at hnot
        exact .inr ⟨node :: order, again, herror, hclash.of_targets hnot,
          List.disjoint_cons_right.mpr ⟨hmet, hmet'⟩⟩

/-! ## Trees -/

omit [DecidableEq α] in
/-- A walk that goes through meets exactly what its root reaches. -/
theorem Tree.reaches (h : Tree targets [root] order) (a : α) :
    a ∈ order ↔ Relation.ReflTransGen (Leads targets) root a := by
  constructor
  · intro ha
    obtain ⟨p, hp, hpa⟩ := h.reached a ha
    rwa [List.mem_singleton.mp hp] at hpa
  · exact h.closed (h.pending_subset List.mem_cons_self)

/-- In a tree no node is led to twice. -/
theorem Tree.not_twice (h : Tree targets [root] order) (node : α) : ¬Twice targets root node := by
  have hnodup : (order.flatMap targets).Nodup :=
    (List.nodup_cons.mp (h.perm.nodup_iff.mp h.nodup)).2
  obtain ⟨heach, hpairwise⟩ := List.nodup_flatMap.mp hnodup
  rintro (⟨a, ha, hcount⟩ | ⟨a, b, hne, ha, hb, hat, hbt⟩)
  · have hle := List.nodup_iff_count_le_one.mp (heach a ((h.reaches a).mpr ha)) node
    omega
  · have hsymm : Std.Symm (Function.onFun List.Disjoint targets) :=
      ⟨fun _ _ h => List.disjoint_symm h⟩
    exact hpairwise.forall ((h.reaches a).mpr ha) ((h.reaches b).mpr hb) hne hat hbt

/-- A node that is met again is on a cycle below the root, or is led to twice. -/
theorem Clash.cycle_or_twice (h : Clash targets [] [root] order node) :
    (∃ a, Relation.ReflTransGen (Leads targets) root a ∧ Relation.TransGen (Leads targets) a a) ∨
      ∃ a, Twice targets root a := by
  have hreach {a : α} (ha : a ∈ order) : Relation.ReflTransGen (Leads targets) root a := by
    obtain ⟨p, hp, hpa⟩ := h.reached a ha
    rwa [List.mem_singleton.mp hp] at hpa
  by_contra hnot
  rw [not_or, not_exists, not_exists] at hnot
  obtain ⟨hacyclic, htwice⟩ := hnot
  -- Without a node that is led to twice, all edges that are followed lead to different nodes.
  have hnodup : (order.flatMap targets).Nodup := by
    refine List.nodup_flatMap.mpr ⟨fun a ha => ?_, ?_⟩
    · refine List.nodup_iff_count_le_one.mpr fun b => ?_
      by_contra hcount
      exact htwice b (.inl ⟨a, hreach ha, by omega⟩)
    · refine List.Pairwise.imp_of_mem ?_ h.nodup
      intro a b ha hb hne c hca hcb
      exact htwice c (.inr ⟨a, b, hne, hreach ha, hreach hb, hca, hcb⟩)
  have hroot : root ∉ order.flatMap targets := by
    intro hmem
    obtain ⟨a, ha, hroot⟩ := List.mem_flatMap.mp hmem
    exact hacyclic root ⟨.refl, Relation.TransGen.tail' (hreach ha) hroot⟩
  have hagain : (order ++ [node]).Nodup := by
    obtain ⟨l, hperm, hsub⟩ := h.subperm
    exact hperm.nodup_iff.mp ((List.nodup_cons.mpr ⟨hroot, hnodup⟩).sublist hsub)
  have hnode : node ∈ order := by simpa using h.again
  exact (List.nodup_append.mp hagain).2.2 node hnode node List.mem_cons_self rfl

end Walk
