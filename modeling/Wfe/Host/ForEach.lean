import Mathlib.Logic.Function.Iterate
import Wfe.Host.Branchings

/-!
# Loops visit every item

A loop goes in rounds: a sequential one has a round for each item, a parallel one has a single round
for all of them. Its persistence data say how many rounds it has begun. It begins the next one when
every pointer in its scope is done, and proceeds when there are no rounds left. So it visits each
item once and in order, with one pointer for each child step, and ends exactly after the last item.

## Main definitions

* `ForEachStep.rounds`: the rounds of a loop
* `ForEachStep.dataAfter`: what is persisted when a number of rounds have begun
* `Begun`: the invariant of a loop

## Main results

* `ForEachStep.run_of_data`: the body begins a round, waits, or proceeds
* `Begun.turn`: what the turn of a loop does
* `forEach_visits`: loops visit every item once and in order
-/

namespace Wfe

open Program Provider

namespace ForEachStep

variable (self : ForEachStep)

/-- The rounds of a loop, each with its items. -/
def rounds : List (List Json) :=
  if self.runParallel then [self.collection] else self.collection.map fun item => [item]

/-- The persistence data of a loop that has begun `k` rounds. -/
def dataAfter : Nat → Option Json
  | 0 => none
  | k + 1 => some (if self.runParallel then childrenActive else position k)

/-- What a loop that has begun `k` rounds asks for, if its children are done or not. -/
def nextRound (k : Nat) (done : Bool) : ExecutionResult :=
  if k = 0 ∨ done = true then
    match self.rounds[k]? with
    | some items => .branch items (self.dataAfter (k + 1))
    | none => .next
  else { persistenceData := self.dataAfter k }

variable {self} {context : StepExecutionContext} {k : Nat}

theorem flatten_rounds : self.rounds.flatten = self.collection := by
  unfold rounds
  split_ifs
  · simp
  · rw [← List.flatMap_def]
    simp

theorem rounds_ne_nil (hne : self.collection ≠ []) : self.rounds ≠ [] := by
  unfold rounds
  split_ifs <;> simp [hne]

/-- The index is read back from the persistence data. -/
theorem index_position (hk : k < 2 ^ 64) :
    ((some (position k)).bind (·.get "current_index")).bind Json.asU64 = some k := by
  have hindex : ((some (position k)).bind (·.get "current_index")).bind Json.asU64 =
      some (UInt64.ofNat k).toNat := rfl
  rw [hindex, UInt64.toNat_ofNat', Nat.mod_eq_of_lt hk]

theorem flag_dataAfter (hdata : context.persistenceData = self.dataAfter k) :
    context.flag "children_active" = decide (k ≠ 0) := by
  unfold StepExecutionContext.flag
  rw [hdata]
  cases k with
  | zero => rfl
  | succ k =>
    unfold dataAfter
    split_ifs <;> rfl

/-- The body begins a round, waits, or proceeds. -/
theorem run_of_data (hne : self.collection ≠ []) (hlen : self.collection.length < 2 ^ 64)
    (hk : k ≤ self.rounds.length) (hdata : context.persistenceData = self.dataAfter k) :
    self.run context = return self.nextRound k context.childrenDone := by
  have hflag := flag_dataAfter hdata
  unfold run nextRound
  rw [if_neg hne, hflag]
  by_cases hparallel : self.runParallel = true
  · have hrounds : self.rounds = [self.collection] := if_pos hparallel
    rw [if_pos hparallel]
    cases k with
    | zero => simp [hrounds, dataAfter, hparallel]
    | succ k =>
      obtain rfl : k = 0 := by simpa [hrounds] using hk
      cases context.childrenDone <;>
        simp [hrounds, dataAfter, hparallel, ExecutionResult.persist]
  · have hrounds : self.rounds = self.collection.map fun item => [item] := if_neg hparallel
    rw [if_neg hparallel]
    cases k with
    | zero =>
      rw [hdata]
      -- The first item is there.
      obtain ⟨item, items, hitems⟩ := List.exists_cons_of_ne_nil hne
      simp [hrounds, dataAfter, hparallel, hitems]
    | succ k =>
      have hle : k + 1 ≤ self.collection.length := by simpa [hrounds] using hk
      have hindex : ((context.persistenceData.bind (·.get "current_index")).bind
          Json.asU64).getD 0 = k := by
        rw [hdata, dataAfter, if_neg hparallel, index_position (by omega), Option.getD_some]
      rw [hindex]
      cases hdone : context.childrenDone with
      | false => simp [dataAfter, hparallel, ExecutionResult.persist]
      | true =>
        cases hitem : self.collection[k + 1]? <;>
          simp [hrounds, dataAfter, hparallel, hitem]

end ForEachStep

/-! ## The invariant -/

/-- The loop of the pointer `p` has begun `k` rounds. -/
structure Begun (loop : ForEachStep) (children : List Nat) (l : List ExecutionPointer)
    (p : ExecutionPointer) (k : Nat) : Prop where
  le : k ≤ loop.rounds.length
  items : itemsOf l p = visits children (loop.rounds.take k).flatten
  data : p.persistenceData = loop.dataAfter k
  complete : p.status = .complete → k = loop.rounds.length ∧ ScopeDone l p

/-- The turn of a loop that has begun `k` rounds, when the pointers are `l`: it begins a round,
waits, or ends. -/
inductive LoopTurn (loop : ForEachStep) (children : List Nat) (l : List ExecutionPointer)
    (p : ExecutionPointer) (k : Nat) (r : Ran) (l' : List ExecutionPointer)
    (p' : ExecutionPointer) : Prop
  | begins (hran : r.branching.isSome = true) (hk : k < loop.rounds.length)
      (hready : k = 0 ∨ ScopeDone l p) (hbegun : Begun loop children l' p' (k + 1))
      (hstatus : p'.status = .running)
  | waits (hran : r.branching.isSome = false) (hk : 0 < k) (hbusy : ¬ScopeDone l p)
      (hbegun : Begun loop children l' p' k) (hstatus : p'.status = .running)
  | ends (hran : r.branching.isSome = false) (hk : k = loop.rounds.length) (hdone : ScopeDone l p)
      (hbegun : Begun loop children l' p' k) (hstatus : p'.status = .complete)

/-- The rounds that the turns of the pointer `x` have begun. -/
def roundsBegun (x : PointerKey) (gs : List Given) : Nat :=
  (ownTurns x gs).countP (·.turn.ran.branching.isSome)

/-- The body of the step is the loop in all these turns, and the step is never skipped. -/
def IsLoop (loop : ForEachStep) (step : WorkflowStep) (gs : List Given) : Prop :=
  ∀ g ∈ gs, g.turn.ran ≠ .skipped step.id ∧ g.resolve step.stepType = some loop.run

section Invariant

variable {definition : WorkflowDefinition} {resolve : StepResolver} {host : Option HostContext}
  {loop : ForEachStep} {v : WorkflowInstance} {i k : Nat} {step : WorkflowStep}
  {p p' q : ExecutionPointer} {r : Ran} {l l' new : List ExecutionPointer} {children : List Nat}
  {g : Given} {x : PointerKey}

theorem Begun.woken {f : ExecutionPointer → ExecutionPointer} (h : Begun loop children l p k)
    (hf : ∀ p : ExecutionPointer, p.Woken (f p)) : Begun loop children (l.map f) (f p) k where
  le := h.le
  items := by rw [itemsOf_woken hf, itemsOf_of_later (hf p).later, h.items]
  data := (hf p).persistenceData.trans h.data
  complete hstatus := by
    obtain ⟨hk, hdone⟩ := h.complete ((hf p).status.symm.trans hstatus)
    exact ⟨hk, hdone.map hf⟩

/-- The turns of other pointers change nothing. -/
theorem Begun.other (h : Begun loop children l p k) (hids : (l'.map ExecutionPointer.id).Nodup)
    (hp : l[x.index]? = some p) (hturn : Happens definition l g l')
    (hne : g.turn.index ≠ x.index) : Begun loop children l' p k where
  le := h.le
  items := by rw [hturn.itemsOf hids hp hne, h.items]
  data := h.data
  complete hstatus := by
    obtain ⟨hk, hdone⟩ := h.complete hstatus
    exact ⟨hk, hturn.scopeDone (hids.sublist hturn.ids.sublist) hp hne hdone⟩

/-- The successors of a pointer are not in the scope that it opens. -/
theorem ScopeDone.set_append (h : ScopeDone l p) (hlater : p.Later p')
    (hnew : ∀ q ∈ new, q.scope = p.scope) : ScopeDone (l.set i p' ++ new) p' := by
  intro q hq hscope
  rw [hlater.inner] at hscope
  rcases List.mem_append.mp hq with hq | hq
  · rcases List.mem_or_eq_of_mem_set hq with hq | rfl
    · exact h q hq hscope
    · exact absurd (hlater.scope.symm.trans hscope) p.scope_ne_inner
  · exact absurd ((hnew q hq).symm.trans hscope) p.scope_ne_inner

/-- The body of a loop asks for the next round, as the loop stands, and does not fail. -/
theorem Begun.returned (h : Begun loop step.children v.executionPointers p k)
    (hne : loop.collection ≠ []) (hlen : loop.collection.length < 2 ^ 64)
    (hbody : resolve step.stepType = some loop.run)
    (hturned : Turned definition resolve host v i step p r p' new) (hkept : r ≠ .skipped step.id)
    (hi : v.executionPointers[i]? = some p) : ∃ done env env',
      (done = true ↔ ScopeDone v.executionPointers p) ∧
      r = .returned step.id (loop.nextRound k done) ∧
      p' = (processResult env' (loop.nextRound k done) (startPointer env p) definition v.id).1 ∧
      new = (processResult env' (loop.nextRound k done) (startPointer env p) definition
        v.id).2.newPointers := by
  cases hturned with
  | skipped env hwhen => exact absurd rfl hkept
  | failed env env' hbody' hyields =>
    obtain rfl := Option.some_inj.mp (hbody.symm.trans hbody')
    obtain ⟨tr, hpath⟩ := hyields
    rw [ForEachStep.run_of_data hne hlen h.le h.data] at hpath
    obtain ⟨-, ⟨⟩⟩ := path_ret.mp hpath
  | returned env env' hbody' hyields =>
    obtain rfl := Option.some_inj.mp (hbody.symm.trans hbody')
    obtain ⟨tr, hpath⟩ := hyields
    rw [ForEachStep.run_of_data hne hlen h.le h.data] at hpath
    obtain ⟨-, hresult⟩ := path_ret.mp hpath
    obtain rfl := Except.ok.inj hresult
    exact ⟨_, env, env', childrenDone_iff hi, rfl, rfl, rfl⟩

/-- **The turn of a loop.** It begins the next round if all pointers in its scope are done, ends if
there are no rounds left, and waits otherwise. -/
theorem Begun.turn (h : Begun loop step.children v.executionPointers p k)
    (hne : loop.collection ≠ []) (hlen : loop.collection.length < 2 ^ 64)
    (hbody : resolve step.stepType = some loop.run)
    (hturned : Turned definition resolve host v i step p r p' new)
    (hstep : definition.findStep p.stepId = some step) (hkept : r ≠ .skipped step.id)
    (hi : v.executionPointers[i]? = some p) :
    LoopTurn loop step.children v.executionPointers p k r (v.executionPointers.set i p' ++ new)
      p' := by
  have hlater := hturned.later
  have hitems : itemsOf (v.executionPointers.set i p' ++ new) p' =
      visits step.children (loop.rounds.take k).flatten ++ visits step.children r.branchedOver := by
    rw [itemsOf_of_later hlater, itemsOf_append, itemsOf_set hi hlater hturned.contextItem, h.items,
      hturned.itemsOf_new hstep]
  obtain ⟨done, env, env', hdone, rfl, rfl, rfl⟩ := h.returned hne hlen hbody hturned hkept hi
  by_cases hready : k = 0 ∨ ScopeDone v.executionPointers p
  · have hnext : loop.nextRound k done = _ := if_pos (hready.imp_right hdone.mpr)
    cases hround : loop.rounds[k]? with
    | none =>
      rw [hround] at hnext
      rw [hnext] at hlater hitems ⊢
      have hk : k = loop.rounds.length :=
        Nat.le_antisymm h.le (List.getElem?_eq_none_iff.mp hround)
      have hdone' : ScopeDone v.executionPointers p := hready.resolve_left fun hzero =>
        ForEachStep.rounds_ne_nil hne (List.length_eq_zero_iff.mp (hk.symm.trans hzero))
      -- The next step is in the scope of the loop itself.
      have hscope : ∀ q ∈ (processResult env' .next (startPointer env p) definition
          v.id).2.newPointers, q.scope = p.scope := by
        intro q hq
        obtain ⟨_, -, rfl⟩ := List.mem_map.mp hq
        rfl
      refine .ends rfl hk hdone' ⟨h.le, ?_, h.data, fun _ =>
        ⟨hk, hdone'.set_append hlater hscope⟩⟩ rfl
      exact hitems.trans (List.append_nil _)
    | some items =>
      rw [hround] at hnext
      rw [hnext] at hitems ⊢
      have hk : k < loop.rounds.length := (List.getElem?_eq_some_iff.mp hround).1
      refine .begins rfl hk hready ⟨hk, ?_, rfl, nofun⟩ rfl
      have hbranched : Ran.branchedOver (.returned step.id
          (.branch items (loop.dataAfter (k + 1)))) = items := rfl
      rw [hitems, hbranched, ← visits_append, List.take_add_one, hround]
      simp
  · have hnext : loop.nextRound k done = _ := if_neg fun h => hready (h.imp_right hdone.mp)
    rw [hnext] at hitems ⊢
    obtain ⟨hk, hbusy⟩ := not_or.mp hready
    obtain ⟨j, rfl⟩ := Nat.exists_eq_succ_of_ne_zero hk
    refine .waits rfl (Nat.succ_pos j) hbusy ⟨h.le, ?_, rfl, nofun⟩ rfl
    exact hitems.trans (List.append_nil _)

theorem LoopTurn.begun {children : List Nat} {l' : List ExecutionPointer}
    (h : LoopTurn loop children l p k r l' p') :
    Begun loop children l' p' (k + r.branching.isSome.toNat) := by
  cases h with
  | begins hran _ _ hbegun => rwa [hran]
  | waits hran _ _ hbegun | ends hran _ _ hbegun => rwa [hran]

end Invariant

/-! ## Loops in a run -/

section Runs

variable {definition : WorkflowDefinition} {loop : ForEachStep} {w w' w₀ : WorkflowInstance}
  {step : WorkflowStep} {p q : ExecutionPointer} {l l' l₀ : List ExecutionPointer} {g : Given}
  {gs before after : List Given} {changes : List Change} {x : PointerKey} {k : Nat}

/-- A loop has begun as many rounds as its turns say. -/
theorem Story.begun (h : Story definition l₀ gs l) (hstart : ∀ p ∈ l₀, p.Fresh)
    (hopened : ScopesOpened l₀) (hids : (l.map ExecutionPointer.id).Nodup)
    (hne : loop.collection ≠ []) (hlen : loop.collection.length < 2 ^ 64)
    (hstep : definition.findStep x.stepId = some step) (hloop : IsLoop loop step (ownTurns x gs))
    (hp : l[x.index]? = some p) (hkey : p.hasKey x = true) :
    Begun loop step.children l p (roundsBegun x gs) := by
  refine h.pointer_rule (D := fun l => (l.map ExecutionPointer.id).Nodup)
    (M := fun gs l p => IsLoop loop step gs →
      Begun loop step.children l p (gs.countP (·.turn.ran.branching.isSome)))
    hstart (fun _ _ hprefix hnodup => hnodup.sublist hprefix.sublist) hids ?_ ?_ ?_ ?_ hp hkey hloop
  · -- There is nothing in the scope of a pointer that is fresh.
    intro done l q hstory hnodup hq hfresh _
    have hscope := (hstory.scopesOpened hopened).scope_ne_inner hnodup (List.mem_of_getElem? hq)
      hfresh.children
    refine ⟨Nat.zero_le _, ?_, hfresh.persistenceData, by simp [hfresh.status]⟩
    rw [itemsOf_eq_nil fun q' hq' hscope' => absurd hscope' (hscope q' hq')]
    rfl
  · exact fun done l f p hf hM hall => (hM hall).woken hf
  · exact fun done l g l' p hnodup hM hpointer hturn hindex hall =>
      (hM hall).other hnodup hpointer hturn hindex
  · intro done g host v step' p' new _ _ hM hpointer hof hstep' hturned hall
    obtain rfl : step = step' := Option.some_inj.mp (hstep.symm.trans hstep')
    obtain ⟨hkept, hbody⟩ := hall g (by simp)
    have hbegun := hM fun g hg => hall g (List.mem_append_left _ hg)
    rw [← (of_decide_eq_true (of_decide_eq_true hof).2).2] at hstep
    have hlast : [g].countP (·.turn.ran.branching.isSome) = g.turn.ran.branching.isSome.toNat := by
      cases h : g.turn.ran.branching.isSome <;> simp [h]
    rw [List.countP_append, hlast]
    exact (hbegun.turn hne hlen hbody hturned hstep hkept hpointer).begun

theorem Happens.loopTurn (h : Happens definition l g l') (hof : g.turn.isOf x = true)
    (hne : loop.collection ≠ []) (hlen : loop.collection.length < 2 ^ 64)
    (hstep : definition.findStep x.stepId = some step) (hloop : IsLoop loop step [g])
    (hbegun : l[x.index]? = some g.turn.pointer → Begun loop step.children l g.turn.pointer k) :
    ∃ p', l'[x.index]? = some p' ∧
      LoopTurn loop step.children l g.turn.pointer k g.turn.ran l' p' := by
  obtain ⟨hindex, hkey⟩ := of_decide_eq_true hof
  obtain ⟨hkept, hbody⟩ := hloop g List.mem_cons_self
  cases h with
  | @turn host v step' p' new hv hpointer hrun hstep' hturned =>
  subst hv
  rw [(of_decide_eq_true hkey).2] at hstep'
  obtain rfl : step = step' := Option.some_inj.mp (hstep.symm.trans hstep')
  rw [← (of_decide_eq_true hkey).2] at hstep
  rw [hindex] at hpointer hturned ⊢
  exact ⟨p', getElem?_set_append_self hpointer,
    (hbegun hpointer).turn hne hlen hbody hturned hstep hkept hpointer⟩

/-- A scope that is done stays so, until the pointer that has opened it has a turn. -/
theorem Story.scopeDone (h : Story definition l₀ gs l) (hids : (l.map ExecutionPointer.id).Nodup)
    (hp : l₀[x.index]? = some p) (hkey : p.hasKey x = true)
    (hnone : ∀ g ∈ gs, ¬g.turn.isOf x = true) (hdone : ScopeDone l₀ p) :
    ∃ q, l[x.index]? = some q ∧ ScopeDone l q := by
  induction h with
  | nil => exact ⟨p, hp, hdone⟩
  | woken _ hf ih =>
    obtain ⟨q, hq, hdone'⟩ := ih (map_id_woken hf ▸ hids) hnone
    exact ⟨_, by rw [List.getElem?_map, hq, Option.map_some], hdone'.map hf⟩
  | @turn gs l l' g hstory hturn ih =>
    have hids' := hids.sublist hturn.ids.sublist
    obtain ⟨q, hq, hdone'⟩ := ih hids' fun g hg => hnone g (List.mem_append_left _ hg)
    have hne : g.turn.index ≠ x.index := by
      intro hindex
      refine hnone g (by simp) (decide_eq_true ⟨hindex, ?_⟩)
      cases hturn with
      | turn _ hpointer =>
      obtain ⟨q', hq', hlater, -⟩ := hstory.getElem? hp
      obtain rfl := Option.some_inj.mp (hq'.symm.trans (hindex ▸ hpointer))
      exact hlater.hasKey.trans hkey
    refine ⟨q, ?_, hturn.scopeDone hids' hq hne hdone'⟩
    cases hturn with
    | turn => exact getElem?_set_append_ne hq hne

/-- The first turn of a loop whose scope is done begins the next round, or ends the loop. -/
theorem Story.progress (h₀ : Story definition l₀ before l) (h : Story definition l gs l')
    (hstart : ∀ p ∈ l₀, p.Fresh) (hopened : ScopesOpened l₀)
    (hids : (l'.map ExecutionPointer.id).Nodup)
    (hne : loop.collection ≠ []) (hlen : loop.collection.length < 2 ^ 64)
    (hstep : definition.findStep x.stepId = some step)
    (hloop : IsLoop loop step (ownTurns x (before ++ gs)))
    (hp : l[x.index]? = some p) (hkey : p.hasKey x = true) (hdone : ScopeDone l p)
    (hturn : ownTurns x gs ≠ []) :
    0 < roundsBegun x gs ∨ ∃ q, l'[x.index]? = some q ∧ q.status = .complete := by
  obtain ⟨g, rest, hrest⟩ := List.exists_cons_of_ne_nil hturn
  obtain ⟨first, after, rfl, hfirst, hof, -⟩ := List.filter_eq_cons_iff.mp hrest
  obtain ⟨l₁, l₂, hstory, hhappens, hafter⟩ := h.split
  have hids₂ := hids.sublist hafter.ids.sublist
  have hids₁ := hids₂.sublist hhappens.ids.sublist
  -- The scope is still done when the loop has its turn.
  obtain ⟨q, hq, hdone'⟩ := hstory.scopeDone hids₁ hp hkey hfirst hdone
  have hsub : List.Sublist (before ++ first) (before ++ (first ++ g :: after)) :=
    (List.Sublist.refl _).append (List.sublist_append_left _ _)
  obtain ⟨p', hp', hloopTurn⟩ := hhappens.loopTurn (k := roundsBegun x (before ++ first)) hof hne
    hlen hstep (fun g' hg' => hloop g' (by
      obtain rfl := List.mem_singleton.mp hg'
      exact List.mem_filter.mpr ⟨by simp, hof⟩))
    (fun hpointer => (h₀.trans hstory).begun hstart hopened hids₁ hne hlen hstep
      (fun g' hg' => hloop g' ((hsub.filter _).subset hg')) hpointer
      (of_decide_eq_true hof).2)
  cases hloopTurn with
  | begins hran =>
    refine .inl (List.countP_pos_iff.mpr ⟨g, ?_, hran⟩)
    exact List.mem_filter.mpr ⟨by simp, hof⟩
  | waits _ _ hbusy =>
    refine absurd ?_ hbusy
    cases hhappens with
    | turn _ hpointer =>
    rw [(of_decide_eq_true hof).1] at hpointer
    obtain rfl := Option.some_inj.mp (hpointer.symm.trans hq)
    exact hdone'
  | ends _ _ _ _ hstatus =>
    obtain ⟨q', hq', -, hkept⟩ := hafter.getElem? hp'
    obtain rfl := hkept (by rw [hstatus]; rfl)
    exact .inr ⟨_, hq', hstatus⟩

end Runs

/-! ## Endless runs -/

section Endless

variable {definition : WorkflowDefinition} {loop : ForEachStep} {step : WorkflowStep}
  {x : PointerKey} {w : ℕ → WorkflowInstance} {c : ℕ → Change}

/-- The changes from the time `n` on. -/
def changesFrom (c : ℕ → Change) (n j : ℕ) : List Change := (List.range j).map fun i => c (n + i)

theorem lives_changesFrom (hdoes : ∀ n, Does definition (w n) (c n) (w (n + 1))) (n j : ℕ) :
    Lives definition (w n) (changesFrom c n j) (w (n + j)) := by
  induction j with
  | zero => exact .nil
  | succ j ih =>
    rw [changesFrom, List.range_succ, List.map_append]
    exact .snoc ih (hdoes (n + j))

/-- The sequence `s`, with `a` in front. -/
def inFront {α : Type} (a : α) (s : ℕ → α) : ℕ → α
  | 0 => a
  | n + 1 => s n

/-- A finite run, and an endless one from the value that it reaches. -/
theorem Lives.inFront {w₀ w' : WorkflowInstance} {changes : List Change}
    (h : Lives definition w₀ changes w') (hw : w 0 = w')
    (hdoes : ∀ n, Does definition (w n) (c n) (w (n + 1))) :
    ∃ (v : ℕ → WorkflowInstance) (d : ℕ → Change), v 0 = w₀ ∧
      (∀ n, Does definition (v n) (d n) (v (n + 1))) ∧ changesFrom d 0 changes.length = changes ∧
      ∀ j, v (changes.length + j) = w j ∧ d (changes.length + j) = c j := by
  induction h generalizing w c with
  | nil => exact ⟨w, c, hw, hdoes, rfl, fun j => by simp⟩
  | @snoc changes c' w' w'' _ hdoes' ih =>
    obtain ⟨v, d, hzero, hv, hchanges, hafter⟩ := ih (w := Wfe.inFront w' w)
      (c := Wfe.inFront c' c) rfl fun n => by
        cases n with
        | zero =>
          show Does definition w' c' (w 0)
          rw [hw]
          exact hdoes'
        | succ n => exact hdoes n
    refine ⟨v, d, hzero, hv, ?_, fun j => ?_⟩
    · rw [changesFrom] at hchanges
      rw [List.length_append, List.length_singleton, changesFrom, List.range_succ, List.map_append,
        hchanges, List.map_singleton, Nat.zero_add]
      exact congrArg (changes ++ [·]) (hafter 0).2
    · rw [List.length_append, List.length_singleton, Nat.add_assoc, Nat.add_comm 1 j]
      exact hafter (j + 1)

/-- Every run goes on for ever, if only by looking up the services of the instance. -/
theorem Lives.endless {w₀ w' : WorkflowInstance} {changes : List Change}
    (h : Lives definition w₀ changes w') :
    ∃ (v : ℕ → WorkflowInstance) (d : ℕ → Change), v 0 = w₀ ∧
      (∀ n, Does definition (v n) (d n) (v (n + 1))) ∧ changesFrom d 0 changes.length = changes ∧
      v changes.length = w' ∧
      ∀ j, (v (changes.length + j)).executionPointers = w'.executionPointers ∧
        d (changes.length + j) = .inject := by
  have hdoes (n : ℕ) : Does definition ((withEndpoints [])^[n] w') .inject
      ((withEndpoints [])^[n + 1] w') := by
    rw [Function.iterate_succ_apply']
    exact .inject []
  have hpointers (n : ℕ) :
      ((withEndpoints [])^[n] w').executionPointers = w'.executionPointers := by
    induction n with
    | zero => rfl
    | succ n ih => rw [Function.iterate_succ_apply', withEndpoints_executionPointers, ih]
  obtain ⟨v, d, hzero, hv, hchanges, hafter⟩ := h.inFront (c := fun _ => .inject) rfl hdoes
  exact ⟨v, d, hzero, hv, hchanges, (hafter 0).1,
    fun j => ⟨by rw [(hafter j).1, hpointers], (hafter j).2⟩⟩

theorem givenBy_changesFrom_add (c : ℕ → Change) (n j : ℕ) :
    givenBy (changesFrom c 0 (n + j)) =
      givenBy (changesFrom c 0 n) ++ givenBy (changesFrom c n j) := by
  simp only [givenBy, changesFrom, List.range_add, List.map_append, List.map_map,
    List.flatMap_append, Function.comp_def, Nat.zero_add]

theorem roundsBegun_append (x : PointerKey) (gs gs' : List Given) :
    roundsBegun x (gs ++ gs') = roundsBegun x gs + roundsBegun x gs' := by
  rw [roundsBegun, ownTurns, List.filter_append, List.countP_append]
  rfl

theorem isLoop_changesFrom (hloop : ∀ n, IsLoop loop step (ownTurns x (c n).given)) (n j : ℕ) :
    IsLoop loop step (ownTurns x (givenBy (changesFrom c n j))) := by
  intro g hg
  obtain ⟨hg, hof⟩ := List.mem_filter.mp hg
  obtain ⟨_, hc, hg⟩ := List.mem_flatMap.mp hg
  obtain ⟨i, -, rfl⟩ := List.mem_map.mp hc
  exact hloop _ g (List.mem_filter.mpr ⟨hg, hof⟩)

/-- A loop whose scope is done has begun another round after its next turn, or is complete. -/
theorem loop_progress (hstarted : Started definition (w 0))
    (hdoes : ∀ n, Does definition (w n) (c n) (w (n + 1))) (hids : ∀ n, (w n).pointerIds.Nodup)
    (hne : loop.collection ≠ []) (hlen : loop.collection.length < 2 ^ 64)
    (hstep : definition.findStep x.stepId = some step)
    (hloop : ∀ n, IsLoop loop step (ownTurns x (c n).given)) {n j : ℕ} {p : ExecutionPointer}
    (hp : (w n).pointerAt x = some p) (hdone : ScopeDone (w n).executionPointers p)
    (hturn : ownTurns x (c (n + j)).given ≠ []) :
    ∃ q, (w (n + (j + 1))).pointerAt x = some q ∧ (q.status = .complete ∨
      roundsBegun x (givenBy (changesFrom c 0 n)) <
        roundsBegun x (givenBy (changesFrom c 0 (n + (j + 1))))) := by
  obtain ⟨hp, hkey⟩ := pointerAt_eq_some.mp hp
  have h₀ := (lives_changesFrom hdoes 0 n).story
  rw [Nat.zero_add] at h₀
  have h := (lives_changesFrom hdoes n (j + 1)).story
  obtain ⟨q, hq, hlater, -⟩ := h.getElem? hp
  have hturn' : ownTurns x (givenBy (changesFrom c n (j + 1))) ≠ [] := by
    rw [changesFrom, List.range_succ, List.map_append, List.map_singleton, givenBy_snoc,
      ownTurns, List.filter_append]
    exact List.append_ne_nil_of_right_ne_nil _ hturn
  refine ⟨q, pointerAt_eq_some.mpr ⟨hq, hlater.hasKey.trans hkey⟩, ?_⟩
  rw [givenBy_changesFrom_add, roundsBegun_append]
  rcases h₀.progress h hstarted.fresh hstarted.scopesOpened (hids _) hne hlen hstep
    (by rw [← givenBy_changesFrom_add]; exact isLoop_changesFrom hloop 0 _) hp hkey hdone
    hturn' with hpos | ⟨q', hq', hcomplete⟩
  · exact .inr (Nat.lt_add_of_pos_right hpos)
  · obtain rfl := Option.some_inj.mp (hq.symm.trans hq')
    exact .inl hcomplete

/-- A loop whose scope is done again and again, and which has a turn again and again, ends. -/
theorem loop_ends (hstarted : Started definition (w 0))
    (hdoes : ∀ n, Does definition (w n) (c n) (w (n + 1))) (hids : ∀ n, (w n).pointerIds.Nodup)
    (hne : loop.collection ≠ []) (hlen : loop.collection.length < 2 ^ 64)
    (hstep : definition.findStep x.stepId = some step)
    (hloop : ∀ n, IsLoop loop step (ownTurns x (c n).given))
    (hcreated : ∃ n p, (w n).pointerAt x = some p)
    (hdone : ∀ n p, (w n).pointerAt x = some p →
      ∃ m q, n ≤ m ∧ (w m).pointerAt x = some q ∧ ScopeDone (w m).executionPointers q)
    (hturns : ∀ n p, (w n).pointerAt x = some p → p.status ≠ .complete →
      ∃ m, n ≤ m ∧ ownTurns x (c m).given ≠ []) :
    ∃ n p, (w n).pointerAt x = some p ∧ p.status = .complete := by
  by_contra hends
  have hnever (n : ℕ) (p : ExecutionPointer) (hp : (w n).pointerAt x = some p) :
      p.status ≠ .complete := fun hcomplete => hends ⟨n, p, hp, hcomplete⟩
  -- It begins one round after another.
  have hrounds (k : ℕ) : ∃ n p, (w n).pointerAt x = some p ∧
      k ≤ roundsBegun x (givenBy (changesFrom c 0 n)) := by
    induction k with
    | zero =>
      obtain ⟨n, p, hp⟩ := hcreated
      exact ⟨n, p, hp, Nat.zero_le _⟩
    | succ k ih =>
      obtain ⟨n, p, hp, hk⟩ := ih
      obtain ⟨m, q, hnm, hq, hscope⟩ := hdone n p hp
      obtain ⟨i, hmi, hturn⟩ := hturns m q hq (hnever m q hq)
      obtain ⟨d, rfl⟩ := Nat.exists_eq_add_of_le hnm
      obtain ⟨e, rfl⟩ := Nat.exists_eq_add_of_le hmi
      obtain ⟨q', hq', hcomplete | hlt⟩ := loop_progress hstarted hdoes hids hne hlen hstep hloop
        hq hscope hturn
      · exact absurd hcomplete (hnever _ _ hq')
      · refine ⟨_, q', hq', ?_⟩
        rw [givenBy_changesFrom_add, roundsBegun_append] at hlt
        omega
  obtain ⟨n, p, hp, hk⟩ := hrounds (loop.rounds.length + 1)
  obtain ⟨hp, hkey⟩ := pointerAt_eq_some.mp hp
  have h := (lives_changesFrom hdoes 0 n).story
  rw [Nat.zero_add] at h
  have hle := (h.begun hstarted.fresh hstarted.scopesOpened (hids n) hne hlen hstep
    (isLoop_changesFrom hloop 0 n) hp hkey).le
  omega

end Endless

/-- **Loops visit every item once and in order.** Let the body of a step be a loop over a collection
that is not empty, and let the step never be skipped. As long as the ids drawn for pointers are
distinct, the pointers that the loop has created are those of the rounds it has begun, one for each
item and child, and it is complete only if these are all rounds. Each of its turns begins the next
round, which needs all pointers in its scope to be done, or waits, or ends the loop, which needs the
same and that no rounds are left. If its scope is done again and again, and the loop has a turn
again and again, it ends. -/
theorem forEach_visits (definition : WorkflowDefinition) (step : WorkflowStep) (loop : ForEachStep)
    (x : PointerKey) (hstep : definition.findStep x.stepId = some step)
    (hne : loop.collection ≠ []) (hlen : loop.collection.length < 2 ^ 64) :
    (∀ w₀ w changes, Started definition w₀ → Lives definition w₀ changes w → w.pointerIds.Nodup →
      IsLoop loop step (ownTurns x (givenBy changes)) →
      (∀ p, w.pointerAt x = some p →
        Begun loop step.children w.executionPointers p (roundsBegun x (givenBy changes)) ∧
        (p.status = .complete →
          itemsOf w.executionPointers p = visits step.children loop.collection ∧
          (itemsOf w.executionPointers p).length =
            loop.collection.length * step.children.length ∧
          ScopeDone w.executionPointers p)) ∧
      ∀ before g after, givenBy changes = before ++ g :: after → g.turn.isOf x = true →
        ∃ l l' p', Story definition w₀.executionPointers before l ∧ Happens definition l g l' ∧
          Story definition l' after w.executionPointers ∧ l'[x.index]? = some p' ∧
          LoopTurn loop step.children l g.turn.pointer (roundsBegun x before) g.turn.ran l' p') ∧
    ∀ (w : ℕ → WorkflowInstance) (c : ℕ → Change), Started definition (w 0) →
      (∀ n, Does definition (w n) (c n) (w (n + 1))) → (∀ n, (w n).pointerIds.Nodup) →
      (∀ n, IsLoop loop step (ownTurns x (c n).given)) →
      (∃ n p, (w n).pointerAt x = some p) →
      (∀ n p, (w n).pointerAt x = some p →
        ∃ m q, n ≤ m ∧ (w m).pointerAt x = some q ∧ ScopeDone (w m).executionPointers q) →
      (∀ n p, (w n).pointerAt x = some p → p.status ≠ .complete →
        ∃ m, n ≤ m ∧ ownTurns x (c m).given ≠ []) →
      ∃ n p, (w n).pointerAt x = some p ∧ p.status = .complete := by
  refine ⟨fun w₀ w changes hstarted hlives hids hloop => ⟨fun p hp => ?_, ?_⟩,
    fun w c hstarted hdoes hids hloop => loop_ends hstarted hdoes hids hne hlen hstep hloop⟩
  · obtain ⟨hp, hkey⟩ := pointerAt_eq_some.mp hp
    have hbegun := hlives.story.begun hstarted.fresh hstarted.scopesOpened hids hne hlen hstep hloop
      hp hkey
    refine ⟨hbegun, fun hcomplete => ?_⟩
    obtain ⟨hk, hdone⟩ := hbegun.complete hcomplete
    have hitems : itemsOf w.executionPointers p = visits step.children loop.collection := by
      rw [hbegun.items, hk, List.take_length, ForEachStep.flatten_rounds]
    exact ⟨hitems, hitems ▸ length_visits .., hdone⟩
  · intro before g after hgiven hof
    have hstory := hlives.story
    rw [hgiven] at hstory
    obtain ⟨l, l', hbefore, hturn, hafter⟩ := hstory.split
    have hids' := (hids.sublist hafter.ids.sublist).sublist hturn.ids.sublist
    have hmem : g ∈ ownTurns x (givenBy changes) :=
      List.mem_filter.mpr ⟨by rw [hgiven]; simp, hof⟩
    have hsub : List.Sublist (ownTurns x before) (ownTurns x (givenBy changes)) := by
      rw [hgiven]
      exact (List.sublist_append_left _ _).filter _
    obtain ⟨p', hp', hloopTurn⟩ := hturn.loopTurn hof hne hlen hstep
      (fun g' hg' => hloop g' (by rwa [List.mem_singleton.mp hg']))
      (fun hpointer => hbefore.begun hstarted.fresh hstarted.scopesOpened hids' hne hlen hstep
        (fun g' hg' => hloop g' (hsub.subset hg')) hpointer (of_decide_eq_true hof).2)
    exact ⟨l, l', p', hbefore, hturn, hafter, hp', hloopTurn⟩

/-- A loop over two items with one child. -/
def looped : WorkflowDefinition :=
  { WorkflowDefinition.new "looped" 1 with
    steps := [{ WorkflowStep.new 0 "loop" with children := [1] }, WorkflowStep.new 1 "step"] }

def overTwo : ForEachStep := { collection := [.string "a", .string "b"], runParallel := false }

def visiting : StepResolver := fun stepType =>
  if stepType = "loop" then some overTwo.run else some proceedBody

/-- The loop ends after its two items. -/
theorem forEach_visits_two : ∃ (w : ℕ → WorkflowInstance) (c : ℕ → Change) (x : PointerKey)
    (n : ℕ) (p : ExecutionPointer), Started looped (w 0) ∧
    (∀ n, Does looped (w n) (c n) (w (n + 1))) ∧ (w n).pointerAt x = some p ∧
    p.status = .complete ∧
    itemsOf (w n).executionPointers p = [(1, some (.string "a")), (1, some (.string "b"))] := by
  obtain ⟨changes, w', hlives, hresolve, hw'⟩ := Simulation.history_given (d := looped)
    (w := startOf looped) (r := visiting) (l := ["e", "d", "c", "b", "a"])
    (f := fun changes w => w.pointerIds.Nodup ∧ changes.length = 5 ∧
      (∀ g ∈ givenBy changes, g.turn.ran.isReturned = true) ∧
      ∃ p ∈ w.executionPointers, w.pointerAt ⟨0, p.id, 0⟩ = some p ∧ p.status = .complete ∧
      (∀ q ∈ w.executionPointers, q.scope = p.inner → q.status.isDone = true) ∧
      changes[4]?.any fun c => !(ownTurns ⟨0, p.id, 0⟩ c.given).isEmpty)
    (by decide)
  obtain ⟨hids, hlen, hreturned, p, -, hp, hcomplete, hscope, hlast⟩ := of_decide_eq_true hw'
  obtain ⟨w, c, hzero, hdoes, hchanges, -, hafter⟩ := hlives.endless
  rw [hlen] at hchanges hafter
  have hstarted : Started looped (w 0) := hzero ▸ startOf_started _
  have hids' (n : ℕ) : (w n).pointerIds.Nodup := by
    have hstory := (lives_changesFrom hdoes n 5).story
    rw [Nat.add_comm n 5, (hafter n).1] at hstory
    exact hids.sublist hstory.ids.sublist
  have hloop (n : ℕ) : IsLoop overTwo (looped.steps[0]) (ownTurns ⟨0, p.id, 0⟩ (c n).given) := by
    intro g hg
    have hg := List.mem_of_mem_filter hg
    by_cases hn : n < 5
    · have hmem : c n ∈ changes := by
        rw [← hchanges]
        exact List.mem_map.mpr ⟨n, List.mem_range.mpr hn, by rw [Nat.zero_add]⟩
      have hg := List.mem_flatMap.mpr ⟨_, hmem, hg⟩
      exact ⟨fun hskipped => by simpa [hskipped, Ran.isReturned] using hreturned g hg,
        by rw [hresolve g hg]; rfl⟩
    · obtain ⟨j, rfl⟩ := Nat.exists_eq_add_of_le (Nat.le_of_not_lt hn)
      rw [(hafter j).2] at hg
      cases hg
  have hp' (j : ℕ) : (w (5 + j)).pointerAt ⟨0, p.id, 0⟩ = some p := by
    rw [WorkflowInstance.pointerAt, (hafter j).1]
    exact hp
  obtain ⟨hvisits, hends⟩ := forEach_visits looped looped.steps[0] overTwo ⟨0, p.id, 0⟩ rfl
    (List.cons_ne_nil _ _) (by decide)
  have hdone (n : ℕ) : ∃ m q, n ≤ m ∧ (w m).pointerAt ⟨0, p.id, 0⟩ = some q ∧
      ScopeDone (w m).executionPointers q := by
    refine ⟨5 + n, p, by omega, hp' n, ?_⟩
    rw [(hafter n).1]
    exact hscope
  have hturns (n : ℕ) (q : ExecutionPointer) (hq : (w n).pointerAt ⟨0, p.id, 0⟩ = some q)
      (hbusy : q.status ≠ .complete) : ∃ m, n ≤ m ∧ ownTurns ⟨0, p.id, 0⟩ (c m).given ≠ [] := by
    refine ⟨4, ?_, fun hnil => ?_⟩
    · by_contra hn
      obtain ⟨j, rfl⟩ := Nat.exists_eq_add_of_le (Nat.lt_of_not_le hn)
      obtain rfl := Option.some_inj.mp (hq.symm.trans (hp' j))
      exact hbusy hcomplete
    · have hfive : changes[4]? = some (c 4) := by rw [← hchanges]; rfl
      rw [hfive] at hlast
      simp [hnil] at hlast
  obtain ⟨n, q, hq, hstatus⟩ := hends w c hstarted hdoes hids' hloop ⟨5, p, hp' 0⟩
    (fun n _ _ => hdone n) hturns
  have hfrom := lives_changesFrom hdoes 0 n
  rw [Nat.zero_add] at hfrom
  obtain ⟨hbegun, -⟩ := hvisits (w 0) (w n) _ hstarted hfrom (hids' n)
    (isLoop_changesFrom hloop 0 n)
  exact ⟨w, c, _, n, q, hstarted, hdoes, hq, hstatus, ((hbegun q hq).2 hstatus).1⟩

end Wfe
