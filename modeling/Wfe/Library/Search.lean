import Mathlib.Data.List.Basic
import Mathlib.Data.List.Chain
import Mathlib.Data.List.Infix
import Mathlib.Data.List.Nodup
import Mathlib.Logic.Function.Basic
import Mathlib.Logic.Relation

/-!
# Depth-first search for a cycle

A search over coloured nodes: white nodes have not been met, gray ones are on the path from the
root of the search to the node it is at, and black ones have been left. An edge to a gray node
closes a cycle, which is then read off the path; edges to nodes without a colour are not followed.
The order in which nodes and edges come is arbitrary.

## Main definitions

* `Search.visit`, `Search.search`: the search from a node, and from all nodes
* `Search.Edge`: the edges that are followed
* `Search.Cycle`: a list of nodes that is a cycle

## Main results

* `Search.visit_sound`: what the search from one node keeps
* `Search.search_iff`: the search finds a cycle exactly if there is one
-/

namespace Search

inductive Color
  | white
  | gray
  | black
deriving DecidableEq, Repr

/-- How a search stops: with a cycle, closed by an edge from its last node to its first; at a gray
node that is not on the path; or without fuel. -/
inductive Halt (α : Type)
  | cycle (nodes : List α) (back : α)
  | astray (node : α)
  | exhausted
deriving DecidableEq, Repr

/-- The colours of the nodes, and the path the search has come. -/
structure State (α : Type) where
  colors : α → Option Color
  path : List α

variable {α : Type} [DecidableEq α]

namespace State

/-- The search comes to `node`. -/
def enter (s : State α) (node : α) : State α :=
  ⟨Function.update s.colors node (some .gray), s.path ++ [node]⟩

/-- The search leaves `node`, the last of the path. -/
def leave (s : State α) (node : α) : State α :=
  ⟨Function.update s.colors node (some .black), s.path.dropLast⟩

end State

/-- Follows the edge to `neighbor`, by `visit` if it is white. -/
def follow (visit : α → State α → Except (Halt α) (State α)) (s : State α) (neighbor : α) :
    Except (Halt α) (State α) :=
  match s.colors neighbor with
  | some .gray =>
    match s.path.idxOf? neighbor with
    | some start => .error (.cycle (s.path.drop start) neighbor)
    | none => .error (.astray neighbor)
  | some .white => visit neighbor s
  | some .black => .ok s
  | none => .ok s

/-- The search from `node`. -/
def visit (next : α → List α) : ℕ → α → State α → Except (Halt α) (State α)
  | 0, _, _ => .error .exhausted
  | fuel + 1, node, s => do
    let s ← (next node).foldlM (follow (visit next fuel)) (s.enter node)
    return s.leave node

/-- The search from `node`, if it has not been met yet. -/
def visitRoot (next : α → List α) (fuel : ℕ) (colors : α → Option Color) (node : α) :
    Except (Halt α) (α → Option Color) :=
  if colors node = some .white then (visit next fuel node ⟨colors, []⟩).map State.colors
  else .ok colors

/-- The search from all nodes, one after another. -/
def search (next : α → List α) (nodes : List α) : Except (Halt α) (α → Option Color) :=
  nodes.foldlM (visitRoot next nodes.length)
    fun node => if node ∈ nodes then some .white else none

/-! ## Invariants -/

/-- The edges followed by a search of `nodes`. -/
def Edge (next : α → List α) (nodes : List α) (a b : α) : Prop := b ∈ next a ∧ b ∈ nodes

/-- Each node of the list leads to the next one, and the last one to `back`, the first. -/
def Cycle (r : α → α → Prop) (cycle : List α) (back : α) : Prop :=
  cycle.head? = some back ∧ (cycle ++ [back]).IsChain r

/-- The white nodes that are left. -/
def whites (nodes : List α) (s : State α) : ℕ := nodes.countP fun a => s.colors a = some .white

/-- The gray nodes are those on the path, and what black nodes lead to is black, without a way
back. -/
structure Inv (r : α → α → Prop) (nodes : List α) (s : State α) : Prop where
  colored : ∀ a, s.colors a ≠ none ↔ a ∈ nodes
  gray : ∀ a, s.colors a = some .gray ↔ a ∈ s.path
  nodup : s.path.Nodup
  chain : s.path.IsChain r
  black : ∀ a b, s.colors a = some .black → r a b → s.colors b = some .black
  acyclic : ∀ a, s.colors a = some .black → ¬Relation.TransGen r a a

/-- What a search of part of the graph leaves of the colours. -/
structure Later (s s' : State α) : Prop where
  path : s'.path = s.path
  black : ∀ a, s.colors a = some .black → s'.colors a = some .black
  white : ∀ a, s'.colors a = some .white → s.colors a = some .white

section Proofs

variable {next : α → List α} {nodes : List α} {r : α → α → Prop} {s s' s'' : State α} {node : α}

omit [DecidableEq α] in
theorem Later.refl (s : State α) : Later s s := ⟨rfl, fun _ h => h, fun _ h => h⟩

omit [DecidableEq α] in
theorem Later.trans (h : Later s s') (h' : Later s' s'') : Later s s'' :=
  ⟨h'.path.trans h.path, fun a ha => h'.black a (h.black a ha),
    fun a ha => h.white a (h'.white a ha)⟩

omit [DecidableEq α] in
theorem Later.whites_le (h : Later s s') : whites nodes s' ≤ whites nodes s := by
  refine List.countP_mono_left fun a _ ha => ?_
  simpa using h.white a (by simpa using ha)

omit [DecidableEq α] in
/-- A chain from `a` to `b` is a way from `a` to `b`. -/
theorem transGen_of_chain {a b : α} {l : List α} (h : (a :: l ++ [b]).IsChain r) :
    Relation.TransGen r a b := by
  induction l generalizing a with
  | nil => exact .single (by simpa using h)
  | cons c l ih =>
    rw [List.cons_append, List.cons_append, List.isChain_cons_cons] at h
    exact .head h.1 (ih h.2)

omit [DecidableEq α] in
/-- A cycle leads from its first node back to it. -/
theorem Cycle.transGen {cycle : List α} {back : α} (h : Cycle r cycle back) :
    Relation.TransGen r back back := by
  obtain ⟨hhead, hchain⟩ := h
  cases cycle with
  | nil => cases hhead
  | cons a l =>
    cases hhead
    exact transGen_of_chain hchain

namespace Inv

omit [DecidableEq α] in
/-- From a black node only black nodes are reached. -/
theorem black_of_reflTransGen (h : Inv r nodes s) {a b : α} (ha : s.colors a = some .black)
    (hab : Relation.ReflTransGen r a b) : s.colors b = some .black := by
  induction hab with
  | refl => exact ha
  | tail _ hbc ih => exact h.black _ _ ih hbc

/-- Coming to a white node. -/
theorem enter (h : Inv r nodes s) (hwhite : s.colors node = some .white)
    (hchain : (s.path ++ [node]).IsChain r) : Inv r nodes (s.enter node) := by
  have hpath : node ∉ s.path := fun hmem => by
    rw [(h.gray node).mpr hmem] at hwhite
    cases hwhite
  refine ⟨fun a => ?_, fun a => ?_, ?_, hchain, fun a b ha hab => ?_, fun a ha => ?_⟩
  · rw [State.enter, ← h.colored a]
    by_cases ha : a = node
    · subst ha
      simp [hwhite]
    · simp [ha]
  · by_cases ha : a = node
    · subst ha
      simp [State.enter]
    · simp [State.enter, ha, h.gray a]
  · rw [State.enter, List.nodup_append]
    refine ⟨h.nodup, List.nodup_singleton _, ?_⟩
    rintro a ha _ hb rfl
    exact hpath (List.mem_singleton.mp hb ▸ ha)
  all_goals
    have hne : a ≠ node := by
      rintro rfl
      simp [State.enter] at ha
    have ha' : s.colors a = some .black := by simpa [State.enter, hne] using ha
  · have hb := h.black a b ha' hab
    have hne' : b ≠ node := by
      rintro rfl
      rw [hwhite] at hb
      cases hb
    simpa [State.enter, hne'] using hb
  · exact h.acyclic a ha'

/-- Leaving a node all of whose neighbours are black. -/
theorem leave {path : List α} (h : Inv r nodes s) (hpath : s.path = path ++ [node])
    (hnext : ∀ b, r node b → s.colors b = some .black) : Inv r nodes (s.leave node) := by
  have hgray : s.colors node = some .gray := (h.gray node).mpr (by simp [hpath])
  have hnode : node ∉ path := by
    have hnodup := h.nodup
    rw [hpath, List.nodup_append] at hnodup
    exact fun hmem => hnodup.2.2 node hmem node List.mem_cons_self rfl
  have hblack (a : α) : (s.leave node).colors a = some .black ↔
      a = node ∨ s.colors a = some .black := by
    by_cases ha : a = node
    · subst ha
      simp [State.leave]
    · simp [State.leave, ha]
  refine ⟨fun a => ?_, fun a => ?_, ?_, ?_, fun a b ha hab => ?_, fun a ha => ?_⟩
  · rw [← h.colored a]
    by_cases ha : a = node
    · subst ha
      simp [State.leave, hgray]
    · simp [State.leave, ha]
  · by_cases ha : a = node
    · subst ha
      simp [State.leave, hpath, hnode]
    · simp [State.leave, ha, h.gray a, hpath]
  · exact h.nodup.sublist (List.dropLast_sublist _)
  · have hchain := h.chain
    rw [hpath, List.isChain_append] at hchain
    simpa [State.leave, hpath] using hchain.1
  · rcases (hblack a).mp ha with rfl | ha
    · exact (hblack b).mpr (.inr (hnext b hab))
    · exact (hblack b).mpr (.inr (h.black a b ha hab))
  · rcases (hblack a).mp ha with rfl | ha
    · -- The way back would lead through black nodes only, and the node is gray.
      intro hcycle
      obtain ⟨b, hab, hba⟩ := Relation.TransGen.head'_iff.mp hcycle
      rw [h.black_of_reflTransGen (hnext b hab) hba] at hgray
      cases hgray
    · exact h.acyclic a ha

end Inv

/-- A search that goes on to a state from `s`, or that stops at a cycle. -/
def Sound (r : α → α → Prop) (nodes : List α) (s : State α) (done : State α → Prop)
    (result : Except (Halt α) (State α)) : Prop :=
  (∃ s', result = .ok s' ∧ Inv r nodes s' ∧ Later s s' ∧ done s') ∨
    ∃ cycle back, result = .error (.cycle cycle back) ∧ Cycle r cycle back

/-- Following an edge from the last node of the path. -/
theorem follow_sound (visit : α → State α → Except (Halt α) (State α)) {neighbor : α}
    (hinv : Inv (Edge next nodes) nodes s) (hlast : s.path.getLast? = some node)
    (hnext : neighbor ∈ next node)
    (hvisit : ∀ (_ : s.colors neighbor = some .white)
      (_ : (s.path ++ [neighbor]).IsChain (Edge next nodes)),
      Sound (Edge next nodes) nodes s (fun s' => s'.colors neighbor = some .black)
        (visit neighbor s)) :
    Sound (Edge next nodes) nodes s
      (fun s' => neighbor ∈ nodes → s'.colors neighbor = some .black)
      (follow visit s neighbor) := by
  have hchain (hmem : neighbor ∈ nodes) : (s.path ++ [neighbor]).IsChain (Edge next nodes) := by
    rw [List.isChain_append]
    refine ⟨hinv.chain, List.isChain_singleton _, ?_⟩
    intro a ha b hb
    cases hlast.symm.trans ha
    cases hb
    exact ⟨hnext, hmem⟩
  have hmem {c : Color} (hc : s.colors neighbor = some c) : neighbor ∈ nodes :=
    (hinv.colored neighbor).mp (by simp [hc])
  unfold follow
  split
  · next hgray =>
    have hpath : neighbor ∈ s.path := (hinv.gray neighbor).mp hgray
    obtain ⟨start, hstart⟩ := Option.isSome_iff_exists.mp (List.isSome_idxOf?.mpr hpath)
    rw [hstart]
    refine .inr ⟨_, _, rfl, ?_, ?_⟩
    · obtain ⟨hlt, hget, -⟩ := List.idxOf?_eq_some_iff.mp hstart
      rw [List.head?_drop, List.getElem?_eq_getElem hlt, hget]
    · -- The rest of the path, and the edge back.
      have hlt : start ≤ s.path.length := (List.idxOf?_eq_some_iff.mp hstart).1.le
      rw [← List.drop_append_of_le_length hlt]
      exact (hchain (hmem hgray)).drop start
  · next hwhite =>
    rcases hvisit hwhite (hchain (hmem hwhite)) with ⟨s', hs', hinv', hlater, hblack⟩ | hcycle
    · exact .inl ⟨s', hs', hinv', hlater, fun _ => hblack⟩
    · exact .inr hcycle
  · next hblack => exact .inl ⟨s, rfl, hinv, .refl s, fun _ => hblack⟩
  · next hnone => exact .inl ⟨s, rfl, hinv, .refl s, fun h => absurd hnone ((hinv.colored _).mpr h)⟩

/-- Following the edges of a node one after another. -/
theorem foldlM_follow_sound (visit : α → State α → Except (Halt α) (State α)) {l : List α}
    (hinv : Inv (Edge next nodes) nodes s) (hlast : s.path.getLast? = some node)
    (hnext : l ⊆ next node)
    (hvisit : ∀ s' neighbor, Later s s' → Inv (Edge next nodes) nodes s' →
      s'.colors neighbor = some .white → (s'.path ++ [neighbor]).IsChain (Edge next nodes) →
      Sound (Edge next nodes) nodes s' (fun s'' => s''.colors neighbor = some .black)
        (visit neighbor s')) :
    Sound (Edge next nodes) nodes s
      (fun s' => ∀ b ∈ l, b ∈ nodes → s'.colors b = some .black) (l.foldlM (follow visit) s) := by
  induction l generalizing s with
  | nil => exact .inl ⟨s, rfl, hinv, .refl s, by simp⟩
  | cons b l ih =>
    rw [List.foldlM_cons]
    have hb := follow_sound visit hinv hlast (hnext List.mem_cons_self)
      (hvisit s b (.refl s) hinv)
    rcases hb with ⟨s', hs', hinv', hlater, hblack⟩ | ⟨cycle, back, hs', hcycle⟩
    · rw [hs']
      have hrest := ih hinv' (by rw [hlater.path, hlast])
        (fun c hc => hnext (List.mem_cons_of_mem _ hc))
        fun s'' c h => hvisit s'' c (hlater.trans h)
      rcases hrest with ⟨s'', hs'', hinv'', hlater', hblack'⟩ | hcycle
      · refine .inl ⟨s'', hs'', hinv'', hlater.trans hlater', ?_⟩
        intro c hc hmem
        rcases List.mem_cons.mp hc with rfl | hc
        · exact hlater'.black c (hblack hmem)
        · exact hblack' c hc hmem
      · exact .inr hcycle
    · rw [hs']
      exact .inr ⟨cycle, back, rfl, hcycle⟩

/-- Coming to a white node leaves fewer of them. -/
theorem whites_enter_lt (hmem : node ∈ nodes) (hwhite : s.colors node = some .white) :
    whites nodes (s.enter node) < whites nodes s := by
  have hle (l : List α) : l.countP (fun a => (s.enter node).colors a = some .white) ≤
      l.countP fun a => s.colors a = some .white := by
    refine List.countP_mono_left fun a _ ha => ?_
    by_cases hne : a = node
    · subst hne
      simpa using hwhite
    · simpa [State.enter, hne] using ha
  obtain ⟨pre, post, rfl⟩ := List.append_of_mem hmem
  have hpre := hle pre
  have hpost := hle post
  have hgray : (s.enter node).colors node = some .gray := Function.update_self ..
  simp only [whites, List.countP_append, List.countP_cons, hwhite, hgray]
  simp only [decide_true, reduceCtorEq, Option.some.injEq, decide_false, if_true]
  rw [if_neg (by decide)]
  omega

/-- The search of a node, from where it comes to it to where it leaves it. -/
theorem Later.leave (hwhite : s.colors node = some .white) (h : Later (s.enter node) s') :
    Later s (s'.leave node) := by
  refine ⟨?_, fun a ha => ?_, fun a ha => ?_⟩
  · rw [State.leave, h.path, State.enter, List.dropLast_concat]
  · have hne : a ≠ node := by
      rintro rfl
      rw [hwhite] at ha
      cases ha
    have ha' := h.black a (by simpa [State.enter, hne] using ha)
    simpa [State.leave, hne] using ha'
  · have hne : a ≠ node := by
      rintro rfl
      simp [State.leave] at ha
    have ha' := h.white a (by simpa [State.leave, hne] using ha)
    simpa [State.enter, hne] using ha'

/-- The search from a white node, with fuel for all white nodes that are left. -/
theorem visit_sound {fuel : ℕ} (hinv : Inv (Edge next nodes) nodes s)
    (hwhite : s.colors node = some .white) (hchain : (s.path ++ [node]).IsChain (Edge next nodes))
    (hfuel : whites nodes s ≤ fuel) :
    Sound (Edge next nodes) nodes s (fun s' => s'.colors node = some .black)
      (visit next fuel node s) := by
  have hmem : node ∈ nodes := (hinv.colored node).mp (by simp [hwhite])
  have hpos : 0 < whites nodes s := List.countP_pos_iff.mpr ⟨node, hmem, by simpa using hwhite⟩
  induction fuel generalizing node s with
  | zero => omega
  | succ fuel ih =>
    have henter := hinv.enter hwhite hchain
    have hlt := whites_enter_lt hmem hwhite
    have hloop := foldlM_follow_sound (visit next fuel) henter
      (by simp [State.enter]) (List.Subset.refl (next node)) (by
        intro s' neighbor hlater hinv' hwhite' hchain'
        have hle : whites nodes s' ≤ _ := hlater.whites_le
        have hmem' : neighbor ∈ nodes := (hinv'.colored neighbor).mp (by simp [hwhite'])
        exact ih hinv' hwhite' hchain' (by omega) hmem'
          (List.countP_pos_iff.mpr ⟨neighbor, hmem', by simpa using hwhite'⟩))
    unfold visit
    rcases hloop with ⟨s', hs', hinv', hlater, hblack⟩ | ⟨cycle, back, hs', hcycle⟩
    · rw [hs']
      exact .inl ⟨s'.leave node, rfl, hinv'.leave hlater.path fun b hb => hblack b hb.1 hb.2,
        hlater.leave hwhite, by simp [State.leave]⟩
    · rw [hs']
      exact .inr ⟨cycle, back, rfl, hcycle⟩

/-! ## Searches -/

/-- The search from the roots that are left. -/
theorem foldlM_visitRoot_sound {colors : α → Option Color} {l : List α}
    (hinv : Inv (Edge next nodes) nodes ⟨colors, []⟩) (hl : l ⊆ nodes) :
    (∃ colors', l.foldlM (visitRoot next nodes.length) colors = .ok colors' ∧
      Inv (Edge next nodes) nodes ⟨colors', []⟩ ∧ Later ⟨colors, []⟩ ⟨colors', []⟩ ∧
      ∀ a ∈ l, colors' a = some .black) ∨
    ∃ cycle back, l.foldlM (visitRoot next nodes.length) colors = .error (.cycle cycle back) ∧
      Cycle (Edge next nodes) cycle back := by
  induction l generalizing colors with
  | nil => exact .inl ⟨colors, rfl, hinv, .refl _, by simp⟩
  | cons a l ih =>
    have hrest {colors' : α → Option Color} (hinv' : Inv (Edge next nodes) nodes ⟨colors', []⟩) :=
      ih hinv' fun b hb => hl (List.mem_cons_of_mem a hb)
    have hmem : a ∈ nodes := hl List.mem_cons_self
    rw [List.foldlM_cons]
    have hroot : (∃ colors', visitRoot next nodes.length colors a = .ok colors' ∧
        Inv (Edge next nodes) nodes ⟨colors', []⟩ ∧ Later ⟨colors, []⟩ ⟨colors', []⟩ ∧
        colors' a = some .black) ∨
        ∃ cycle back, visitRoot next nodes.length colors a = .error (.cycle cycle back) ∧
          Cycle (Edge next nodes) cycle back := by
      unfold visitRoot
      split_ifs with hwhite
      · have hvisit := visit_sound hinv hwhite (List.isChain_singleton a) List.countP_le_length
        rcases hvisit with ⟨⟨colors', path⟩, hs', hinv', hlater, hblack⟩ |
          ⟨cycle, back, hs', hcycle⟩
        · obtain rfl : path = [] := hlater.path
          rw [hs']
          exact .inl ⟨colors', rfl, hinv', hlater, hblack⟩
        · rw [hs']
          exact .inr ⟨cycle, back, rfl, hcycle⟩
      · -- Between two roots no node is gray.
        refine .inl ⟨colors, rfl, hinv, .refl _, ?_⟩
        have hcolored := (hinv.colored a).mpr hmem
        have hgray : colors a ≠ some .gray := fun h => by simpa using (hinv.gray a).mp h
        cases hc : colors a with
        | none => exact absurd hc hcolored
        | some c => cases c <;> simp_all
    rcases hroot with ⟨colors', hs', hinv', hlater, hblack⟩ | ⟨cycle, back, hs', hcycle⟩
    · rw [hs']
      rcases hrest hinv' with ⟨colors'', hs'', hinv'', hlater', hblack'⟩ | hcycle
      · refine .inl ⟨colors'', hs'', hinv'', hlater.trans hlater', ?_⟩
        intro b hb
        rcases List.mem_cons.mp hb with rfl | hb
        · exact hlater'.black b hblack
        · exact hblack' b hb
      · exact .inr hcycle
    · rw [hs']
      exact .inr ⟨cycle, back, rfl, hcycle⟩

/-- At the start no node has been met. -/
theorem inv_start :
    Inv r nodes ⟨fun node => if node ∈ nodes then some .white else none, []⟩ where
  colored a := by simp
  gray a := by
    dsimp only
    split_ifs <;> simp
  nodup := List.nodup_nil
  chain := List.isChain_nil
  black a b ha := by
    dsimp only at ha
    split_ifs at ha
    cases ha
  acyclic a ha := by
    dsimp only at ha
    split_ifs at ha
    cases ha

variable (next nodes)

/-- **The search finds a cycle exactly if there is one**, and stops for no other reason. -/
theorem search_iff :
    ((∃ colors, search next nodes = .ok colors) ∧
      ∀ a, ¬Relation.TransGen (Edge next nodes) a a) ∨
    ∃ cycle back, search next nodes = .error (.cycle cycle back) ∧
      Cycle (Edge next nodes) cycle back := by
  have hstart : Inv (Edge next nodes) nodes _ := inv_start
  rcases foldlM_visitRoot_sound hstart (List.Subset.refl nodes) with
    ⟨colors, hs, hinv, -, hblack⟩ | hcycle
  · refine .inl ⟨⟨colors, hs⟩, fun a ha => ?_⟩
    -- A node on a cycle is led to, so it is one of the nodes.
    obtain ⟨b, -, hba⟩ := Relation.TransGen.tail'_iff.mp ha
    exact hinv.acyclic a (hblack a hba.2) ha
  · exact .inr hcycle

end Proofs

end Search
