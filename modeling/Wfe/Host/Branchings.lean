import Wfe.Host.Stories

/-!
# Branchings

A turn that branches creates one pointer for each value and child step, in the scope that its
pointer opens; no other turn creates any there. So the pointers that a pointer has created directly
are those of its branchings, one after another.

## Main definitions

* `Ran.branching`: the values of a branching
* `itemsOf`: the pointers that a pointer has created directly
* `visits`: one pointer for each value and child step

## Main results

* `Turned.itemsOf_new`: what a turn creates
* `Happens.itemsOf`: the turns of other pointers create nothing
* `Story.itemsOf`: the pointers created are those of the branchings
-/

namespace Wfe

open Program Provider

/-- The values over which the body has asked to branch. -/
def Ran.branching : Ran → Option (List Json)
  | .returned _ result => if result.proceed then none else result.branchValues
  | _ => none

/-- The values of a branching, none without one. -/
def Ran.branchedOver (r : Ran) : List Json := r.branching.getD []

/-- The child step and the item of a pointer that `p` has created. -/
def itemIn (p q : ExecutionPointer) : Option (Nat × Option Json) :=
  if q.scope = p.inner ∧ q.predecessorId = some p.id then some (q.stepId, q.contextItem) else none

/-- The child steps and the items of the pointers that `p` has created directly, in the order of
their creation. -/
def itemsOf (l : List ExecutionPointer) (p : ExecutionPointer) : List (Nat × Option Json) :=
  l.filterMap (itemIn p)

/-- One pointer for each item and child step. -/
def visits (children : List Nat) (items : List Json) : List (Nat × Option Json) :=
  items.flatMap fun item => children.map fun child => (child, some item)

section Items

variable {definition : WorkflowDefinition} {resolve : StepResolver} {host : Option HostContext}
  {v : WorkflowInstance} {i : Nat} {step : WorkflowStep} {p p' q x x' : ExecutionPointer} {r : Ran}
  {l new : List ExecutionPointer} {children : List Nat}

theorem length_visits (children : List Nat) (items : List Json) :
    (visits children items).length = items.length * children.length := by
  simp [visits]

theorem visits_append (children : List Nat) (items items' : List Json) :
    visits children (items ++ items') = visits children items ++ visits children items' :=
  List.flatMap_append

theorem itemIn_of_later (h : p.Later p') : itemIn p' = itemIn p := by
  funext q
  rw [itemIn, itemIn, h.inner, h.id]

theorem itemsOf_of_later (h : p.Later p') : itemsOf l p' = itemsOf l p := by
  rw [itemsOf, itemsOf, itemIn_of_later h]

/-- A change that keeps the item keeps its place in the list. -/
theorem itemIn_eq (h : x.Later x') (hitem : x'.contextItem = x.contextItem) :
    itemIn p x' = itemIn p x := by
  rw [itemIn, itemIn, h.scope, h.predecessorId, h.stepId, hitem]

theorem itemsOf_append (l new : List ExecutionPointer) (p : ExecutionPointer) :
    itemsOf (l ++ new) p = itemsOf l p ++ itemsOf new p :=
  List.filterMap_append

theorem itemsOf_eq_nil (h : ∀ q ∈ l, q.scope = p.inner → q.predecessorId ≠ some p.id) :
    itemsOf l p = [] := by
  refine List.filterMap_eq_nil_iff.mpr fun q hq => ?_
  rw [itemIn, if_neg]
  exact fun hc => h q hq hc.1 hc.2

theorem filterMap_eq_of_map {α β : Type} {f : α → Option β} {l l' : List α}
    (h : l'.map f = l.map f) : l'.filterMap f = l.filterMap f := by
  have hid (l : List α) : l.filterMap f = (l.map f).filterMap fun b => b := by
    rw [List.filterMap_map]
    rfl
  rw [hid, hid, h]

theorem itemsOf_set (hx : l[i]? = some x) (h : x.Later x')
    (hitem : x'.contextItem = x.contextItem) : itemsOf (l.set i x') p = itemsOf l p :=
  filterMap_eq_of_map (map_set_of_eq hx (itemIn_eq h hitem))

theorem ExecutionPointer.Woken.contextItem (h : p.Woken q) : q.contextItem = p.contextItem := by
  cases h <;> rfl

theorem itemsOf_woken {f : ExecutionPointer → ExecutionPointer}
    (hf : ∀ p : ExecutionPointer, p.Woken (f p)) : itemsOf (l.map f) p = itemsOf l p := by
  rw [itemsOf, itemsOf, List.filterMap_map]
  congr 1
  funext q
  exact itemIn_eq (hf q).later (hf q).contextItem

/-- What a branch creates. -/
theorem itemsOf_childPointers (uuid : Nat → String) (items : List Json) (children : List Nat)
    (p : ExecutionPointer) :
    itemsOf (childPointers uuid items children p definition) p = visits children items := by
  have hall : ∀ q ∈ childPointers uuid items children p definition,
      itemIn p q = some (q.stepId, q.contextItem) := by
    intro q hq
    obtain ⟨-, hscope, hpred, -⟩ := mem_childPointers hq
    exact if_pos ⟨hscope, hpred⟩
  -- The pairs of an item and a child are numbered in their order.
  have hmap : (childPointers uuid items children p definition).map
      (fun q => (q.stepId, q.contextItem)) =
      (items.flatMap fun item => children.map fun child => (item, child)).map
        fun vc => (vc.2, some vc.1) := by
    refine List.ext_getElem? fun i => ?_
    rw [childPointers, List.getElem?_map, List.getElem?_map, List.getElem?_mapIdx, Option.map_map]
    rfl
  rw [itemsOf, List.filterMap_congr hall, List.filterMap_eq_map', hmap, List.map_flatMap, visits]
  simp only [List.map_map, Function.comp_def]

/-- **What a turn creates.** A branching creates the pointers of its values, and no other turn
creates any in the scope that its pointer opens. -/
theorem Turned.itemsOf_new (h : Turned definition resolve host v i step p r p' new)
    (hstep : definition.findStep p.stepId = some step) :
    Wfe.itemsOf new p = visits step.children r.branchedOver := by
  -- Successors are in the scope of the pointer itself.
  have hnone (hscope : ∀ q ∈ new, q.scope = p.scope) : Wfe.itemsOf new p = [] :=
    itemsOf_eq_nil fun q hq hinner => absurd ((hscope q hq).symm.trans hinner) p.scope_ne_inner
  have hmap {α : Type} (l : List α) (id : String) (next : α → Nat) :
      ∀ q ∈ l.map (fun a => successorPointer id (next a) p definition), q.scope = p.scope := by
    intro q hq
    obtain ⟨_, -, rfl⟩ := List.mem_map.mp hq
    rfl
  generalize hr : r.branchedOver = values
  cases h.effect hstep with
  | skipped id => exact hr ▸ hnone (hmap _ id _)
  | proceeded id result hresult =>
    rw [Ran.branchedOver, Ran.branching, if_pos hresult] at hr
    exact hr ▸ hnone (hmap _ id _)
  | branched uuid result values' hresult hvalues =>
    rw [Ran.branchedOver, Ran.branching, if_neg (by simp [hresult]), hvalues] at hr
    exact hr ▸ itemsOf_childPointers ..
  | waits result hresult hvalues | pauses result hresult hvalues =>
    rw [Ran.branchedOver, Ran.branching, if_neg (by simp [hresult]), hvalues] at hr
    exact hr ▸ rfl
  | retries => exact hr ▸ rfl
  | failed id =>
    refine hr ▸ hnone fun q hq => ?_
    split_ifs at hq
    · exact hmap _ id _ q hq
    · cases hq

/-- The turns of other pointers create none of the items. -/
theorem Happens.itemsOf {g : Given} {l' : List ExecutionPointer} {j : Nat}
    (h : Happens definition l g l') (hids : (l'.map ExecutionPointer.id).Nodup)
    (hp : l[j]? = some p) (hne : g.turn.index ≠ j) : itemsOf l' p = itemsOf l p := by
  have hids' := hids.sublist h.ids.sublist
  cases h with
  | @turn host v step p' new hv hpointer hrun hstep hturned =>
  have hnew : Wfe.itemsOf new p = [] := itemsOf_eq_nil ?_
  · rw [itemsOf_append, itemsOf_set hpointer hturned.later hturned.contextItem, hnew,
      List.append_nil]
  -- What the turn creates has the pointer of the turn as its predecessor.
  intro q hq _ hpred
  rw [(hturned.spawned hstep q hq).predecessorId, Option.some_inj] at hpred
  have hlt := (List.getElem?_eq_some_iff.mp hpointer).1
  refine hne ((List.getElem?_inj (by simpa using hlt) hids').mp ?_)
  rw [List.getElem?_map, List.getElem?_map, hpointer, hp, Option.map_some, Option.map_some, hpred]

/-- **The pointers that a pointer has created directly.** They are those of its branchings, in this
order. -/
theorem Story.itemsOf {gs : List Given} {l₀ : List ExecutionPointer} {x : PointerKey}
    (h : Story definition l₀ gs l) (hstart : ∀ p ∈ l₀, p.Fresh) (hopened : ScopesOpened l₀)
    (hids : (l.map ExecutionPointer.id).Nodup) (hstep : definition.findStep x.stepId = some step)
    (hp : l[x.index]? = some p) (hkey : p.hasKey x = true) :
    Wfe.itemsOf l p =
      (ownTurns x gs).flatMap fun g => visits step.children g.turn.ran.branchedOver := by
  refine h.pointer_rule (D := fun l => (l.map ExecutionPointer.id).Nodup)
    (M := fun gs l p => Wfe.itemsOf l p =
      gs.flatMap fun g => visits step.children g.turn.ran.branchedOver)
    hstart (fun _ _ hprefix hnodup => hnodup.sublist hprefix.sublist) hids ?_ ?_ ?_ ?_ hp hkey
  · -- There is nothing in the scope of a pointer that is fresh.
    intro done l q hstory hnodup hq hfresh
    have hscope := (hstory.scopesOpened hopened).scope_ne_inner hnodup (List.mem_of_getElem? hq)
      hfresh.children
    exact itemsOf_eq_nil fun q' hq' hscope' => absurd hscope' (hscope q' hq')
  · intro done l f p hf hM
    rw [itemsOf_woken hf, itemsOf_of_later (hf p).later, hM]
  · exact fun done l g l' p hnodup hM hpointer hturn hindex =>
      (hturn.itemsOf hnodup hpointer hindex).trans hM
  · intro done g host v step' p' new _ _ hM hpointer hof hstep' hturned
    obtain rfl : step = step' := Option.some_inj.mp (hstep.symm.trans hstep')
    rw [← (of_decide_eq_true (of_decide_eq_true hof).2).2] at hstep
    rw [itemsOf_of_later hturned.later, itemsOf_append,
      itemsOf_set hpointer hturned.later hturned.contextItem, hM, hturned.itemsOf_new hstep,
      List.flatMap_append, List.flatMap_singleton]

end Items

end Wfe
