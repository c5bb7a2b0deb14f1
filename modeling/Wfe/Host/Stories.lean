import Wfe.Executor.OnePointer
import Wfe.Host.ScopeTree

/-!
# The stories of pointers

A run is a sequence of turns, with events delivered in between. A pointer is created fresh; from
then on it is changed by its own turns only, and by the event it waits for. So what is true of a
fresh pointer and is kept by its turns is true of it all along.

## Main definitions

* `Given`, `givenBy`: the turns of a run, with the resolvers of their passes
* `Happens`: a turn, as a relation between pointer lists
* `Story`: the pointers in the course of a run
* `ownTurns`: the turns of one pointer

## Main results

* `Lives.story`: every run is a story
* `Story.split`: stories can be cut at their turns
* `Story.getElem?`: pointers keep their place
* `Story.pointer`: what is kept by the turns of one pointer
* `Story.scopesOpened`: a scope with pointers belongs to a pointer with children
-/

namespace Wfe

open Program Provider

/-- A turn, with the resolver of the pass that gives it. -/
structure Given where
  resolve : StepResolver
  turn : Turn

/-- The turns given by a change. -/
def Change.given : Change → List Given
  | pass resolve turns => turns.map (Given.mk resolve)
  | _ => []

/-- The turns of a run, with the resolvers. -/
def givenBy (changes : List Change) : List Given := changes.flatMap Change.given

@[simp] theorem givenBy_snoc (changes : List Change) (c : Change) :
    givenBy (changes ++ [c]) = givenBy changes ++ c.given := by
  simp [givenBy]

/-- The turn `g` is given when the pointers are `l`. -/
inductive Happens (definition : WorkflowDefinition) (l : List ExecutionPointer) (g : Given) :
    List ExecutionPointer → Prop
  | turn {host : Option HostContext} {v : WorkflowInstance} {step : WorkflowStep}
      {p' : ExecutionPointer} {new : List ExecutionPointer} (hv : v.executionPointers = l)
      (hp : l[g.turn.index]? = some g.turn.pointer)
      (hrun : ∃ now, isPointerRunnable g.turn.pointer now = true)
      (hstep : definition.findStep g.turn.pointer.stepId = some step)
      (hturned : Turned definition g.resolve host v g.turn.index step g.turn.pointer g.turn.ran p'
        new) : Happens definition l g (l.set g.turn.index p' ++ new)

/-- The pointers in the course of a run, and the turns given since they were `l₀`. -/
inductive Story (definition : WorkflowDefinition) (l₀ : List ExecutionPointer) :
    List Given → List ExecutionPointer → Prop
  | nil : Story definition l₀ [] l₀
  | woken {gs : List Given} {l : List ExecutionPointer} {f : ExecutionPointer → ExecutionPointer}
      (h : Story definition l₀ gs l) (hf : ∀ p : ExecutionPointer, p.Woken (f p)) :
      Story definition l₀ gs (l.map f)
  | turn {gs : List Given} {l l' : List ExecutionPointer} {g : Given}
      (h : Story definition l₀ gs l) (hturn : Happens definition l g l') :
      Story definition l₀ (gs ++ [g]) l'

/-- The body has returned a result. -/
def Ran.isReturned : Ran → Bool
  | .returned _ _ => true
  | _ => false

/-- The turns of the pointer with the key `x`. -/
def ownTurns (x : PointerKey) (gs : List Given) : List Given := gs.filter (·.turn.isOf x)

section Stories

variable {definition : WorkflowDefinition} {resolve : StepResolver} {host : Option HostContext}
  {w w' w₀ : WorkflowInstance} {turns : List Turn} {c : Change} {changes : List Change}
  {t : Turn} {x : PointerKey} {p q : ExecutionPointer} {now : DateTime} {st : PassState}
  {g : Given} {gs gs' before after : List Given} {l l' l₀ : List ExecutionPointer}

/-- A pointer comes to its turn as the pass has loaded it, and runnable. -/
theorem Turns.runnable
    (h : Turns definition resolve host w.id { workflow := w } turns st)
    (hsome : turns.map Turn.index <+: runnableIndices w now) :
    (turns.map Turn.index).Nodup ∧ ∀ t ∈ turns, w.executionPointers[t.index]? = some t.pointer ∧
      isPointerRunnable t.pointer now = true := by
  have hnodup : (turns.map Turn.index).Nodup :=
    hsome.sublist.nodup (List.nodup_range.filter _)
  have hmem (t : Turn) (ht : t ∈ turns) : ∃ p, w.executionPointers[t.index]? = some p ∧
      isPointerRunnable p now = true :=
    mem_runnableIndices (hsome.subset (List.mem_map_of_mem ht))
  refine ⟨hnodup, fun t ht => ?_⟩
  have hpointer := h.pointer hnodup (fun t ht => by
    obtain ⟨p, hp, -⟩ := hmem t ht
    exact (List.getElem?_eq_some_iff.mp hp).1) ht
  obtain ⟨p, hp, hrun⟩ := hmem t ht
  obtain rfl : t.pointer = p := Option.some_inj.mp (hpointer.symm.trans hp)
  exact ⟨hp, hrun⟩

/-- Without turns, a pointer gets the event it is waiting for at most. -/
theorem Does.pointerAt (h : Does definition w c w') (hc : c.turns = []) :
    ∃ f : ExecutionPointer → ExecutionPointer, (∀ p : ExecutionPointer, p.Woken (f p)) ∧
      w'.pointerAt x = (w.pointerAt x).map f := by
  have hmap (f : ExecutionPointer → ExecutionPointer)
      (hf : ∀ p : ExecutionPointer, p.Woken (f p))
      (hw' : w'.executionPointers = w.executionPointers.map f) :
      w'.pointerAt x = (w.pointerAt x).map f := by
    have hkey (p : ExecutionPointer) : (f p).hasKey x = p.hasKey x := (hf p).later.hasKey
    rw [WorkflowInstance.pointerAt, WorkflowInstance.pointerAt, hw', List.getElem?_map]
    cases hp : w.executionPointers[x.index]? with
    | none => rfl
    | some p =>
      simp only [Option.map_some, Option.filter_some, hkey]
      split_ifs <;> rfl
  rcases h.pass_or_woken with ⟨resolve, host, turns, rfl, -, hconducts⟩ | ⟨-, f, hf, hw'⟩
  · -- A pass over nothing.
    obtain rfl : turns = [] := hc
    obtain ⟨-, now, tm, st, hturns, -, rfl⟩ := hconducts
    have hst := hturns.eq_of_nil rfl
    subst hst
    exact ⟨id, fun p => .same, hmap id (fun p => .same)
      (by rw [concluded_executionPointers, List.map_id])⟩
  · exact ⟨f, hf, hmap f hf hw'⟩

/-- Every run is a story. -/
theorem Lives.story (h : Lives definition w₀ changes w) :
    Story definition w₀.executionPointers (givenBy changes) w.executionPointers := by
  induction h with
  | nil => exact .nil
  | @snoc changes c w w' _ hdoes ih =>
    rw [givenBy_snoc]
    rcases hdoes.pass_or_woken with ⟨resolve, host, turns, rfl, -, h⟩ | ⟨hc, f, hf, hw'⟩
    · have hrunnable (t : Turn) (ht : t ∈ turns) := (h.pointer ht).2
      obtain ⟨-, now, tm, st, hturns, -, rfl⟩ := h
      rw [concluded_executionPointers]
      -- Over the turns of the pass.
      refine hturns.rule (N := fun ts st => Story definition w₀.executionPointers
        (givenBy changes ++ ts.map (Given.mk resolve)) st.workflow.executionPointers)
        (by simpa using ih) ?_
      intro ts t st st' hts hst hp _ hround
      obtain ⟨step, p', new, hstep, hturned, hst'⟩ := hround.turned hp
      rw [List.map_append, ← List.append_assoc, hst']
      exact .turn hst (.turn rfl hp (hrunnable t (hts.subset (by simp))) hstep hturned)
    · have hgiven : c.given = [] := by
        cases c with
        | pass resolve turns =>
          obtain rfl : turns = [] := hc
          rfl
        | _ => rfl
      rw [hgiven, List.append_nil, hw']
      exact .woken ih hf

/-- The turns of a run are those of its passes. -/
theorem mem_givenBy : g ∈ givenBy changes ↔
    ∃ turns, .pass g.resolve turns ∈ changes ∧ g.turn ∈ turns := by
  constructor
  · intro hg
    obtain ⟨c, hc, hg⟩ := List.mem_flatMap.mp hg
    cases c with
    | pass resolve turns =>
      obtain ⟨t, ht, rfl⟩ := List.mem_map.mp hg
      exact ⟨turns, hc, ht⟩
    | _ => cases hg
  · rintro ⟨turns, hpass, ht⟩
    exact List.mem_flatMap.mpr ⟨_, hpass, List.mem_map_of_mem ht⟩

/-- A computed history whose passes have one resolver. -/
theorem Simulation.history_given {d : WorkflowDefinition} {r : StepResolver} {l : List String}
    {f : List Change → WorkflowInstance → Bool}
    (h : (history d w (l.map (.pass r))).any (Function.uncurry f) = true) :
    ∃ changes w', Lives d w changes w' ∧ (∀ g ∈ givenBy changes, g.resolve = r) ∧
      f changes w' = true := by
  obtain ⟨⟨changes, w'⟩, hhistory, htest⟩ := (Option.any_eq_true _ _).mp h
  refine ⟨changes, w', history_sound hhistory, fun g hg => ?_, htest⟩
  obtain ⟨turns, hpass, -⟩ := mem_givenBy.mp hg
  obtain ⟨seed, hseed⟩ := history_resolve hhistory hpass
  obtain ⟨_, -, heq⟩ := List.mem_map.mp hseed
  exact (Command.pass.inj heq).1.symm

theorem Happens.ids (h : Happens definition l g l') :
    l.map ExecutionPointer.id <+: l'.map ExecutionPointer.id := by
  obtain ⟨-, hp, -, -, hturned⟩ := h
  rw [map_id_set_append hp hturned.later]
  exact List.prefix_append _ _

theorem map_id_woken {f : ExecutionPointer → ExecutionPointer}
    (hf : ∀ p : ExecutionPointer, p.Woken (f p)) :
    (l.map f).map ExecutionPointer.id = l.map ExecutionPointer.id := by
  rw [List.map_map]
  exact List.map_congr_left fun p _ => (hf p).later.id

theorem Story.ids (h : Story definition l₀ gs l) :
    l₀.map ExecutionPointer.id <+: l.map ExecutionPointer.id := by
  induction h with
  | nil => exact List.prefix_rfl
  | woken _ hf ih => rwa [map_id_woken hf]
  | turn _ hturn ih => exact ih.trans hturn.ids

theorem Story.trans (h : Story definition l₀ gs l) (h' : Story definition l gs' l') :
    Story definition l₀ (gs ++ gs') l' := by
  induction h' with
  | nil => simpa using h
  | woken _ hf ih => exact .woken ih hf
  | turn _ hturn ih =>
    rw [← List.append_assoc]
    exact .turn ih hturn

/-- A story can be cut at each of its turns. -/
theorem Story.split (h : Story definition l₀ (before ++ g :: after) l) :
    ∃ l₁ l₂, Story definition l₀ before l₁ ∧ Happens definition l₁ g l₂ ∧
      Story definition l₂ after l := by
  generalize hgs : before ++ g :: after = gs at h
  induction h generalizing after with
  | nil => simp at hgs
  | woken _ hf ih =>
    obtain ⟨l₁, l₂, hbefore, hturn, hafter⟩ := ih hgs
    exact ⟨l₁, l₂, hbefore, hturn, .woken hafter hf⟩
  | @turn gs l l' g' hstory hturn ih =>
    rcases List.eq_nil_or_concat after with rfl | ⟨after, g'', rfl⟩
    · obtain ⟨rfl, hg⟩ := List.append_inj' hgs rfl
      obtain rfl := List.singleton_inj.mp hg
      exact ⟨l, l', hstory, hturn, .nil⟩
    · rw [List.concat_eq_append] at hgs ⊢
      rw [← List.cons_append, ← List.append_assoc] at hgs
      obtain ⟨rfl, hg⟩ := List.append_inj' hgs rfl
      obtain rfl := List.singleton_inj.mp hg
      obtain ⟨l₁, l₂, hbefore, hturn', hafter⟩ := ih rfl
      exact ⟨l₁, l₂, hbefore, hturn', .turn hafter hturn⟩

/-- Pointers keep their place, and a pointer that is done is kept. -/
theorem Story.getElem? (h : Story definition l₀ gs l) {i : Nat} (hp : l₀[i]? = some p) :
    ∃ q, l[i]? = some q ∧ p.Later q ∧ (p.status.isDone = true → q = p) := by
  induction h with
  | nil => exact ⟨p, hp, .refl p, fun _ => rfl⟩
  | @woken gs l f _ hf ih =>
    obtain ⟨q, hq, hlater, hkept⟩ := ih
    refine ⟨f q, by rw [List.getElem?_map, hq, Option.map_some], hlater.trans (hf q).later, ?_⟩
    intro hdone
    obtain rfl := hkept hdone
    exact (hf q).eq_of_isDone hdone
  | @turn gs l l' g _ hturn ih =>
    obtain ⟨q, hq, hlater, hkept⟩ := ih
    cases hturn with
    | @turn host v step p' new hv hpointer hrun hstep hturned =>
    by_cases hindex : g.turn.index = i
    · subst hindex
      obtain rfl := Option.some_inj.mp (hpointer.symm.trans hq)
      refine ⟨p', getElem?_set_append_self hpointer, hlater.trans hturned.later, fun hdone => ?_⟩
      -- A pointer that is done gets no turn.
      obtain ⟨now, hrun⟩ := hrun
      have hundone := (isPointerRunnable_active hrun).2
      rw [hkept hdone, hdone] at hundone
      cases hundone
    · exact ⟨q, getElem?_set_append_ne hq hindex, hlater, hkept⟩

/-- What a story says of one pointer among the others: it holds of the pointer when it is created,
and is kept by its turns, by those of the others and by the delivery of events. `D` may ask that the
ids are distinct: they are so all along if they are so at the end. -/
theorem Story.pointer_rule {D : List ExecutionPointer → Prop}
    {M : List Given → List ExecutionPointer → ExecutionPointer → Prop}
    (h : Story definition l₀ gs l) (hstart : ∀ p ∈ l₀, p.Fresh)
    (hD : ∀ l l', l.map ExecutionPointer.id <+: l'.map ExecutionPointer.id → D l' → D l)
    (hl : D l)
    (hfresh : ∀ done l q, Story definition l₀ done l → D l → l[x.index]? = some q → q.Fresh →
      M [] l q)
    (hwoken : ∀ done l f p, (∀ p : ExecutionPointer, p.Woken (f p)) → M done l p →
      M done (l.map f) (f p))
    (hother : ∀ done l g l' p, D l' → M done l p → l[x.index]? = some p →
      Happens definition l g l' → g.turn.index ≠ x.index → M done l' p)
    (hown : ∀ done g host v step p' new, Story definition l₀ done v.executionPointers →
      D (v.executionPointers.set x.index p' ++ new) →
      M (ownTurns x done) v.executionPointers g.turn.pointer →
      v.executionPointers[x.index]? = some g.turn.pointer → g.turn.isOf x = true →
      definition.findStep x.stepId = some step →
      Turned definition g.resolve host v x.index step g.turn.pointer g.turn.ran p' new →
      M (ownTurns x done ++ [g]) (v.executionPointers.set x.index p' ++ new) p')
    (hp : l[x.index]? = some p) (hkey : p.hasKey x = true) : M (ownTurns x gs) l p := by
  suffices hstory : (∀ q, l[x.index]? = some q → q.hasKey x = true → M (ownTurns x gs) l q) ∧
      (l[x.index]? = none → ownTurns x gs = []) from hstory.1 p hp hkey
  clear hp hkey
  induction h with
  | nil =>
    exact ⟨fun q hq _ => hfresh [] _ q .nil hl hq (hstart q (List.mem_of_getElem? hq)),
      fun _ => rfl⟩
  | @woken gs l f hstory hf ih =>
    obtain ⟨ih, hnone⟩ := ih (hD _ _ (map_id_woken hf ▸ List.prefix_rfl) hl)
    refine ⟨fun q hq hkey => ?_, fun hq => hnone (by simpa using hq)⟩
    rw [List.getElem?_map] at hq
    obtain ⟨p, hp, rfl⟩ := Option.map_eq_some_iff.mp hq
    exact hwoken _ _ _ _ hf (ih p hp ((hf p).later.hasKey.symm.trans hkey))
  | @turn done l l' g hstory hhappens ih =>
    obtain ⟨ih, hnone⟩ := ih (hD _ _ hhappens.ids hl)
    have hother' (hne : g.turn.index ≠ x.index) :
        ownTurns x (done ++ [g]) = ownTurns x done := by
      simp [ownTurns, Turn.isOf, hne]
    have hnext := hhappens
    cases hhappens with
    | @turn host v step p' new hv hpointer hrun hstep hturned =>
    subst hv
    refine ⟨fun q hq hkey => ?_, fun hq => ?_⟩
    · by_cases hindex : g.turn.index = x.index
      · rw [hindex] at hpointer hturned hq hl ⊢
        obtain rfl : p' = q :=
          Option.some_inj.mp ((getElem?_set_append_self hpointer).symm.trans hq)
        have hkey' : g.turn.pointer.hasKey x = true := hturned.later.hasKey.symm.trans hkey
        have hof : g.turn.isOf x = true := decide_eq_true ⟨hindex, hkey'⟩
        have hown' : ownTurns x (done ++ [g]) = ownTurns x done ++ [g] := by
          simp [ownTurns, hof]
        rw [hown']
        rw [(of_decide_eq_true hkey').2] at hstep
        exact hown done g host v step p' new hstory hl (ih _ hpointer hkey') hpointer hof hstep
          hturned
      · rw [hother' hindex]
        by_cases hlt : x.index < v.executionPointers.length
        · -- The pointer was there, and it is not its turn.
          have hp := List.getElem?_eq_getElem hlt
          obtain rfl := Option.some_inj.mp ((getElem?_set_append_ne hp hindex).symm.trans hq)
          exact hother _ _ _ _ _ hl (ih _ hp hkey) hp hnext hindex
        · rw [hnone (List.getElem?_eq_none (Nat.le_of_not_lt hlt))]
          have hnew := hq
          rw [List.getElem?_append_right (by simpa using Nat.le_of_not_lt hlt)] at hnew
          exact hfresh _ _ q (.turn hstory hnext) hl hq
            ((hturned.effect hstep).fresh (List.mem_of_getElem? hnew))
    · -- A turn shortens no list.
      have hlt := (List.getElem?_eq_some_iff.mp hpointer).1
      rw [List.getElem?_eq_none_iff, List.length_append, List.length_set] at hq
      rw [hother' (by omega)]
      exact hnone (List.getElem?_eq_none (by omega))

/-- What the turns of a story say of one pointer. -/
theorem Story.pointer {D : List ExecutionPointer → Prop} {M : List Given → ExecutionPointer → Prop}
    (h : Story definition l₀ gs l) (hstart : ∀ p ∈ l₀, p.Fresh)
    (hD : ∀ l l', l.map ExecutionPointer.id <+: l'.map ExecutionPointer.id → D l' → D l)
    (hl : D l) (hfresh : ∀ q, q.Fresh → M [] q)
    (hwoken : ∀ done p q, M done p → p.Woken q → M done q)
    (hturn : ∀ done g host v step p' new, Story definition l₀ done v.executionPointers →
      D v.executionPointers → M (ownTurns x done) g.turn.pointer →
      v.executionPointers[x.index]? = some g.turn.pointer → g.turn.isOf x = true →
      definition.findStep x.stepId = some step →
      Turned definition g.resolve host v x.index step g.turn.pointer g.turn.ran p' new →
      M (ownTurns x done ++ [g]) p')
    (hp : l[x.index]? = some p) (hkey : p.hasKey x = true) : M (ownTurns x gs) p := by
  refine h.pointer_rule (M := fun gs _ p => M gs p) hstart hD hl (fun _ _ q _ _ _ hq => hfresh q hq)
    (fun done _ _ p hf hM => hwoken done p _ hM (hf p)) (fun _ _ _ _ _ _ hM _ _ _ => hM) ?_ hp hkey
  intro done g host v step p' new hstory hl' hM hpointer hof hstep hturned
  refine hturn done g host v step p' new hstory (hD _ _ ?_ hl') hM hpointer hof hstep hturned
  rw [map_id_set_append hpointer hturned.later]
  exact List.prefix_append _ _

/-! ## Scopes without pointers -/

/-- A scope with pointers in it has been opened by a pointer that lists children. -/
def ScopesOpened (l : List ExecutionPointer) : Prop :=
  ∀ q ∈ l, q.scope ≠ [] → ∃ c ∈ l, q.scope = c.inner ∧ c.children ≠ []

theorem Happens.scopesOpened (h : Happens definition l g l') (hl : ScopesOpened l) :
    ScopesOpened l' := by
  cases h with
  | @turn host v step p' new hv hp hrun hstep hturned =>
  have heffect := hturned.effect hstep
  have hlater := hturned.later
  have hp' : p' ∈ l.set g.turn.index p' ++ new :=
    List.mem_append_left _ (List.mem_set (List.getElem?_eq_some_iff.mp hp).1 _)
  -- The pointer that has opened a scope stays, and lists no fewer children than before.
  have hold (q : ExecutionPointer) (hq : q ∈ l) (hne : q.scope ≠ []) :
      ∃ c ∈ l.set g.turn.index p' ++ new, q.scope = c.inner ∧ c.children ≠ [] := by
    obtain ⟨c, hc, hinner, hchildren⟩ := hl q hq hne
    obtain ⟨i, hi⟩ := List.mem_iff_getElem?.mp hc
    by_cases hindex : g.turn.index = i
    · subst hindex
      obtain rfl := Option.some_inj.mp (hi.symm.trans hp)
      refine ⟨p', hp', hinner.trans hlater.inner.symm, ?_⟩
      rcases heffect.branches with ⟨hsame, -⟩ | ⟨hmore, -⟩
      · rwa [hsame]
      · simp [hmore, hchildren]
    · refine ⟨c, List.mem_append_left _ (List.mem_of_getElem? (i := i) ?_), hinner, hchildren⟩
      rw [List.getElem?_set_ne hindex, hi]
  intro q hq hne
  rcases mem_set_append hp hlater hq with ⟨q₀, hq₀, hlater₀, -⟩ | hq
  · rw [hlater₀.scope] at hne ⊢
    exact hold q₀ hq₀ hne
  · rcases heffect.branches with ⟨-, hscope⟩ | ⟨hchildren, hscope⟩
    · -- A successor is in the scope of the pointer whose turn it is.
      rw [hscope q hq] at hne ⊢
      exact hold _ (List.mem_of_getElem? hp) hne
    · refine ⟨p', hp', (hscope q hq).1.trans hlater.inner.symm, ?_⟩
      rw [hchildren]
      simp [List.ne_nil_of_mem hq]

theorem Story.scopesOpened (h : Story definition l₀ gs l) (hl₀ : ScopesOpened l₀) :
    ScopesOpened l := by
  induction h with
  | nil => exact hl₀
  | woken _ hf ih =>
    intro q hq hne
    obtain ⟨p, hp, rfl⟩ := List.mem_map.mp hq
    rw [(hf p).later.scope] at hne ⊢
    obtain ⟨c, hc, hinner, hchildren⟩ := ih p hp hne
    exact ⟨_, List.mem_map_of_mem hc, by rw [hinner, (hf c).later.inner],
      by rwa [(hf c).children]⟩
  | turn _ hturn ih => exact hturn.scopesOpened ih

theorem Started.scopesOpened (h : Started definition w₀) : ScopesOpened w₀.executionPointers := by
  intro q hq hne
  rcases h.pointers with ⟨-, hnil⟩ | ⟨p, -, hp, -, -, -, hscope, -⟩
  · rw [hnil] at hq
    cases hq
  · rw [hp] at hq
    obtain rfl := List.mem_singleton.mp hq
    exact absurd hscope hne

/-- A pointer that lists no children has no pointers in its scope. -/
theorem ScopesOpened.scope_ne_inner (h : ScopesOpened l)
    (hids : (l.map ExecutionPointer.id).Nodup) (hp : p ∈ l) (hchildren : p.children = []) :
    ∀ q ∈ l, q.scope ≠ p.inner := by
  intro q hq hscope
  obtain ⟨c, hc, hinner, hc'⟩ := h q hq (by simp [hscope, ExecutionPointer.inner])
  obtain rfl := eq_of_inner hids hp hc (hscope.symm.trans hinner)
  exact hc' hchildren

/-! ## Scopes whose pointers are done -/

/-- The pointers in the scope that `p` opens are done. -/
def ScopeDone (l : List ExecutionPointer) (p : ExecutionPointer) : Prop :=
  ∀ q ∈ l, q.scope = p.inner → q.status.isDone = true

/-- What a container looks at in its turn. -/
theorem childrenDone_iff {host : Option HostContext} {v : WorkflowInstance} {i : Nat}
    {step : WorkflowStep} {env : Ambient} (hi : v.executionPointers[i]? = some p) :
    (stepContext definition host step (startPointer env p)
      (v.setPointer i (startPointer env p))).childrenDone = true ↔
      ScopeDone v.executionPointers p := by
  have hdone : (stepContext definition host step (startPointer env p)
      (v.setPointer i (startPointer env p))).childrenDone = true ↔
      ScopeDone (v.executionPointers.set i (startPointer env p)) p := by
    show (List.all _ _) = true ↔ _
    simp only [List.all_eq_true, List.mem_filter, decide_eq_true_eq, and_imp]
    exact Iff.rfl
  rw [hdone]
  -- The container itself is not in the scope it opens.
  constructor
  · intro h q hq hscope
    obtain ⟨j, hj⟩ := List.mem_iff_getElem?.mp hq
    have hne : i ≠ j := by
      rintro rfl
      obtain rfl := Option.some_inj.mp (hi.symm.trans hj)
      exact p.scope_ne_inner hscope
    exact h q (List.mem_of_getElem? (by rw [List.getElem?_set_ne hne, hj])) hscope
  · intro h q hq hscope
    rcases List.mem_or_eq_of_mem_set hq with hq | rfl
    · exact h q hq hscope
    · exact absurd hscope p.scope_ne_inner

/-- A scope that is done stays so, until the pointer that has opened it has a turn. -/
theorem Happens.scopeDone (h : Happens definition l g l') (hids : (l.map ExecutionPointer.id).Nodup)
    (hp : l[x.index]? = some p) (hne : g.turn.index ≠ x.index) (hdone : ScopeDone l p) :
    ScopeDone l' p := by
  cases h with
  | @turn host v step p' new hv hpointer hrun hstep hturned =>
  have hmem := List.mem_of_getElem? hpointer
  obtain ⟨now, hrun⟩ := hrun
  -- A pointer that is done gets no turn.
  have hscope : g.turn.pointer.scope ≠ p.inner := fun hscope => by
    have hundone := (isPointerRunnable_active hrun).2
    rw [hdone _ hmem hscope] at hundone
    cases hundone
  have hinner : g.turn.pointer.inner ≠ p.inner := fun hinner => by
    obtain rfl := eq_of_inner hids hmem (List.mem_of_getElem? hp) hinner
    have hlt := (List.getElem?_eq_some_iff.mp hpointer).1
    refine hne ((List.getElem?_inj (by simpa using hlt) hids).mp ?_)
    rw [List.getElem?_map, List.getElem?_map, hpointer, hp]
  intro q hq hq'
  rcases List.mem_append.mp hq with hq | hq
  · rcases List.mem_or_eq_of_mem_set hq with hq | rfl
    · exact hdone q hq hq'
    · exact absurd (hturned.later.scope.symm.trans hq') hscope
  · rcases (hturned.spawned hstep q hq).scope with hspawned | hspawned
    · exact absurd (hspawned.symm.trans hq') hscope
    · exact absurd (hspawned.symm.trans hq') hinner

theorem ScopeDone.map {f : ExecutionPointer → ExecutionPointer} (h : ScopeDone l p)
    (hf : ∀ p : ExecutionPointer, p.Woken (f p)) : ScopeDone (l.map f) (f p) := by
  intro q' hq' hscope
  obtain ⟨q, hq, rfl⟩ := List.mem_map.mp hq'
  rw [(hf q).later.scope, (hf p).later.inner] at hscope
  rw [(hf q).status]
  exact h q hq hscope

end Stories

end Wfe
