import Wfe.Executor.Simulation
import Wfe.Host.Evolution

/-!
# Histories of instances

The life of an instance, with what was done to it: passes with their turns, and the operations of
the hosts. Whatever is done, the list of pointers only grows, and a pointer that is done is not
touched again.

## Main definitions

* `Change`, `Does`: a change of an instance, and its kinds
* `Lives`, `turnsOf`: a sequence of changes, and its turns
* `Simulation.history`: histories that can be computed
* `ExecutionPointer.Consistent`: the statuses in which a pointer is inactive

## Main results

* `evolves_iff_does`, `reachable_iff_lives`: histories and the values they reach
* `Does.getElem?`: pointers that are done are kept
* `pointers_append_only`: the pointer list is append-only, and pointers that are done are frozen
-/

namespace Wfe

open Program Provider

/-- What is done to an instance. -/
inductive Change
  | pass (resolve : StepResolver) (turns : List Turn)
  | deliver
  | inject
  | suspend
  | resume
  | terminate

/-- The turns given by a change. -/
def Change.turns : Change → List Turn
  | pass _ turns => turns
  | _ => []

/-- The turns of a run. -/
def turnsOf (changes : List Change) : List Turn := changes.flatMap Change.turns

@[simp] theorem turnsOf_snoc (changes : List Change) (c : Change) :
    turnsOf (changes ++ [c]) = turnsOf changes ++ c.turns := by
  simp [turnsOf]

/-- One change of an instance, with what was done. -/
inductive Does (definition : WorkflowDefinition) (w : WorkflowInstance) :
    Change → WorkflowInstance → Prop
  | pass {resolve : StepResolver} {host : Option HostContext} {turns : List Turn}
      {w' : WorkflowInstance} (hhost : HostContext.Starts host w.id)
      (h : Conducts definition resolve host w turns w') : Does definition w (.pass resolve turns) w'
  | deliver (event : Event) (sub : EventSubscription) :
      Does definition w .deliver (deliverEvent event sub w)
  | inject (endpoints : List ServiceEndpoint) :
      Does definition w .inject (withEndpoints endpoints w)
  | suspend (h : w.status = .runnable) : Does definition w .suspend { w with status := .suspended }
  | resume (h : w.status = .suspended) : Does definition w .resume { w with status := .runnable }
  | terminate (t : DateTime) (h : ¬(w.status = .complete ∨ w.status = .terminated)) :
      Does definition w .terminate { w with status := .terminated, completeTime := some t }

/-- What happens to a pointer outside of passes: nothing, or it gets the event it is waiting for. -/
inductive ExecutionPointer.Woken (p : ExecutionPointer) : ExecutionPointer → Prop
  | same : Woken p p
  | event (data : Json) (h : p.status = .waitingForEvent) :
      Woken p { p with eventData := some data, eventPublished := true, active := true }

/-- Changes made one after another, from `w` on. -/
inductive Lives (definition : WorkflowDefinition) (w : WorkflowInstance) :
    List Change → WorkflowInstance → Prop
  | nil : Lives definition w [] w
  | snoc {changes : List Change} {c : Change} {w' w'' : WorkflowInstance}
      (h : Lives definition w changes w') (hdoes : Does definition w' c w'') :
      Lives definition w (changes ++ [c]) w''

section Histories

variable {definition : WorkflowDefinition} {w w' w₀ : WorkflowInstance} {changes : List Change}
  {c : Change}

theorem ExecutionPointer.Woken.later {p q : ExecutionPointer} (h : p.Woken q) : p.Later q := by
  cases h <;> exact ⟨rfl, rfl, rfl, rfl⟩

theorem ExecutionPointer.Woken.status {p q : ExecutionPointer} (h : p.Woken q) :
    q.status = p.status := by
  cases h <;> rfl

theorem ExecutionPointer.Woken.startTime {p q : ExecutionPointer} (h : p.Woken q) :
    q.startTime = p.startTime := by
  cases h <;> rfl

theorem ExecutionPointer.Woken.persistenceData {p q : ExecutionPointer} (h : p.Woken q) :
    q.persistenceData = p.persistenceData := by
  cases h <;> rfl

theorem ExecutionPointer.Woken.children {p q : ExecutionPointer} (h : p.Woken q) :
    q.children = p.children := by
  cases h <;> rfl

/-- Pointers that are done wait for nothing. -/
theorem ExecutionPointer.Woken.eq_of_isDone {p q : ExecutionPointer} (h : p.Woken q)
    (hdone : p.status.isDone = true) : q = p := by
  cases h with
  | same => rfl
  | event data hwaits => simp [hwaits, PointerStatus.isDone] at hdone

/-- A change is a pass, or leaves all pointers to what may happen to them outside of passes. -/
theorem Does.pass_or_woken (h : Does definition w c w') :
    (∃ resolve host turns, c = .pass resolve turns ∧ HostContext.Starts host w.id ∧
      Conducts definition resolve host w turns w') ∨
    (c.turns = [] ∧ ∃ f : ExecutionPointer → ExecutionPointer,
      (∀ p : ExecutionPointer, p.Woken (f p)) ∧
      w'.executionPointers = w.executionPointers.map f) := by
  cases h with
  | pass hhost h => exact .inl ⟨_, _, _, rfl, hhost, h⟩
  | deliver event sub =>
    refine .inr ⟨rfl, _, fun p => ?_, rfl⟩
    split_ifs with hsub
    · exact .event event.eventData hsub.2
    · exact .same
  | inject endpoints =>
    exact .inr ⟨rfl, id, fun p => .same, by rw [withEndpoints_executionPointers, List.map_id]⟩
  | suspend | resume | terminate =>
    exact .inr ⟨rfl, id, fun p => .same, (List.map_id _).symm⟩

theorem evolves_iff_does : Evolves definition w w' ↔ ∃ c, Does definition w c w' := by
  constructor
  · rintro (⟨hhost, hpass⟩ | ⟨event, sub⟩ | ⟨endpoints⟩ | ⟨h⟩ | ⟨h⟩ | ⟨t, h⟩)
    · obtain ⟨turns, hconducts, -⟩ := pass_iff_conducts.mp hpass
      exact ⟨_, .pass hhost hconducts⟩
    · exact ⟨_, .deliver event sub⟩
    · exact ⟨_, .inject endpoints⟩
    · exact ⟨_, .suspend h⟩
    · exact ⟨_, .resume h⟩
    · exact ⟨_, .terminate t h⟩
  · rintro ⟨_, ⟨hhost, hconducts⟩ | ⟨event, sub⟩ | ⟨endpoints⟩ | ⟨h⟩ | ⟨h⟩ | ⟨t, h⟩⟩
    · exact .pass hhost (pass_iff_conducts.mpr ⟨_, hconducts, rfl⟩)
    · exact .deliver event sub
    · exact .inject endpoints
    · exact .suspend h
    · exact .resume h
    · exact .terminate t h

theorem Lives.evolves (h : Lives definition w changes w') :
    Relation.ReflTransGen (Evolves definition) w w' := by
  induction h with
  | nil => exact .refl
  | snoc _ hdoes ih => exact ih.tail (evolves_iff_does.mpr ⟨_, hdoes⟩)

theorem exists_lives (h : Relation.ReflTransGen (Evolves definition) w w') :
    ∃ changes, Lives definition w changes w' := by
  induction h with
  | refl => exact ⟨[], .nil⟩
  | tail _ hevolves ih =>
    obtain ⟨changes, hlives⟩ := ih
    obtain ⟨c, hdoes⟩ := evolves_iff_does.mp hevolves
    exact ⟨_, .snoc hlives hdoes⟩

theorem reachable_iff_lives :
    Reachable definition w ↔
      ∃ w₀ changes, Started definition w₀ ∧ Lives definition w₀ changes w := by
  constructor
  · rintro ⟨w₀, hw₀, hrun⟩
    obtain ⟨changes, hlives⟩ := exists_lives hrun
    exact ⟨w₀, changes, hw₀, hlives⟩
  · rintro ⟨w₀, changes, hw₀, hlives⟩
    exact ⟨w₀, hw₀, hlives.evolves⟩

/-- What holds at the start and is kept by every change that is allowed holds all along. -/
theorem Lives.rule {N : List Change → WorkflowInstance → Prop}
    (h : Lives definition w changes w') (hw : N [] w)
    (hstep : ∀ done c w w', done ++ [c] <+: changes → N done w → Does definition w c w' →
      N (done ++ [c]) w') : N changes w' := by
  induction h with
  | nil => exact hw
  | snoc _ hdoes ih =>
    refine hstep _ _ _ _ List.prefix_rfl (ih fun done c w w' hdone => ?_) hdoes
    exact hstep done c w w' (hdone.trans (List.prefix_append _ _))

end Histories

/-! ## Computed histories -/

namespace Simulation

/-- The changes that can be computed. -/
inductive Command
  | pass (resolve : StepResolver) (seed : String)
  | deliver (event : Event) (sub : EventSubscription)
  | suspend
  | resume
  | terminate

variable (definition : WorkflowDefinition)

def perform (w : WorkflowInstance) : Command → Option (Change × WorkflowInstance)
  | .pass resolve seed =>
    (conduct definition resolve none seed w).map fun (turns, w) => (.pass resolve turns, w)
  | .deliver event sub => some (.deliver, deliverEvent event sub w)
  | .suspend =>
    if w.status = .runnable then some (.suspend, { w with status := .suspended }) else none
  | .resume =>
    if w.status = .suspended then some (.resume, { w with status := .runnable }) else none
  | .terminate =>
    if w.status = .complete ∨ w.status = .terminated then none
    else some (.terminate, { w with status := .terminated, completeTime := some 0 })

/-- One change for each command, the last command first. -/
def history (w : WorkflowInstance) : List Command → Option (List Change × WorkflowInstance)
  | [] => some ([], w)
  | command :: commands => do
    let (changes, w) ← history w commands
    let (c, w) ← perform definition w command
    return (changes ++ [c], w)

variable {definition} {w w' : WorkflowInstance}

theorem perform_sound {command : Command} {c : Change}
    (h : perform definition w command = some (c, w')) : Does definition w c w' := by
  cases command with
  | pass resolve seed =>
    obtain ⟨⟨turns, w''⟩, hconduct, h⟩ := Option.map_eq_some_iff.mp h
    cases h
    exact .pass (by rintro _ ⟨⟩) (conduct_sound hconduct)
  | deliver event sub =>
    cases h
    exact .deliver event sub
  | suspend =>
    obtain ⟨hr, h⟩ := Option.ite_none_right_eq_some.mp h
    cases h
    exact .suspend hr
  | resume =>
    obtain ⟨hr, h⟩ := Option.ite_none_right_eq_some.mp h
    cases h
    exact .resume hr
  | terminate =>
    obtain ⟨hr, h⟩ := Option.ite_none_left_eq_some.mp h
    cases h
    exact .terminate 0 hr

theorem history_sound {commands : List Command} {changes : List Change}
    (h : history definition w commands = some (changes, w')) : Lives definition w changes w' := by
  induction commands generalizing changes w' with
  | nil =>
    cases h
    exact .nil
  | cons command commands ih =>
    obtain ⟨⟨changes, w₁⟩, hhistory, h⟩ := Option.bind_eq_some_iff.mp h
    obtain ⟨⟨c, w₂⟩, hperform, h⟩ := Option.bind_eq_some_iff.mp h
    cases h
    exact .snoc (ih hhistory) (perform_sound hperform)

/-- The passes of a history are the ones asked for. -/
theorem history_resolve {commands : List Command} {changes : List Change}
    (h : history definition w commands = some (changes, w')) {resolve : StepResolver}
    {turns : List Turn} (hpass : .pass resolve turns ∈ changes) :
    ∃ seed, .pass resolve seed ∈ commands := by
  induction commands generalizing changes w' with
  | nil =>
    cases h
    cases hpass
  | cons command commands ih =>
    obtain ⟨⟨changes, w₁⟩, hhistory, h⟩ := Option.bind_eq_some_iff.mp h
    obtain ⟨⟨c, w₂⟩, hperform, h⟩ := Option.bind_eq_some_iff.mp h
    cases h
    rcases List.mem_append.mp hpass with hpass | hpass
    · obtain ⟨seed, hseed⟩ := ih hhistory hpass
      exact ⟨seed, List.mem_cons_of_mem _ hseed⟩
    · obtain rfl := List.mem_singleton.mp hpass
      cases command with
      | pass resolve' seed =>
        obtain ⟨_, _, hchange⟩ := Option.map_eq_some_iff.mp hperform
        cases hchange
        exact ⟨seed, List.mem_cons_self⟩
      | deliver => cases hperform
      | suspend | resume =>
        cases (Option.ite_none_right_eq_some.mp hperform).2
      | terminate => cases (Option.ite_none_left_eq_some.mp hperform).2

/-- A history whose end can be tested. -/
theorem history_any {d : WorkflowDefinition} {l : List Command}
    {f : List Change → WorkflowInstance → Bool}
    (h : (history d w l).any (Function.uncurry f) = true) :
    ∃ changes w', Lives d w changes w' ∧ f changes w' = true := by
  obtain ⟨⟨changes, w'⟩, hhistory, htest⟩ := (Option.any_eq_true _ _).mp h
  exact ⟨changes, w', history_sound hhistory, htest⟩

end Simulation

/-! ## The pointer list -/

section Pointers

variable {definition : WorkflowDefinition} {resolve : StepResolver} {host : Option HostContext}
  {turns : List Turn} {w w' : WorkflowInstance} {c : Change} {p p' : ExecutionPointer}

/-- A pointer is inactive when it is done, and otherwise only while it waits for an event. -/
def ExecutionPointer.Consistent (p : ExecutionPointer) : Prop :=
  (p.status.isDone = true → p.active = false) ∧
    (p.active = false → p.status.isDone = true ∨ p.status = .waitingForEvent)

theorem Effect.consistent {step : WorkflowStep} {r : Ran} {new : List ExecutionPointer}
    (h : Effect definition step p r p' new) (hactive : p.active = true) : p'.Consistent := by
  cases h with
  | skipped _ hstatus hinactive | proceeded _ _ _ hstatus hinactive
  | waits _ _ _ _ hstatus hinactive | failed _ _ hstatus hinactive =>
    simp [ExecutionPointer.Consistent, hstatus, hinactive, PointerStatus.isDone]
  | branched _ _ _ _ _ hstatus hkeeps =>
    simp [ExecutionPointer.Consistent, hstatus, hkeeps, hactive, PointerStatus.isDone]
  | pauses _ _ _ _ hstatus hkeeps =>
    obtain hstatus | hstatus := hstatus <;>
      simp [ExecutionPointer.Consistent, hstatus, hkeeps hactive, PointerStatus.isDone]
  | retries _ _ hstatus hkeeps =>
    simp [ExecutionPointer.Consistent, hstatus, hkeeps, PointerStatus.isDone]

theorem ExecutionPointer.Woken.consistent (h : p.Woken p') (hp : p.Consistent) :
    p'.Consistent := by
  cases h with
  | same => exact hp
  | event data hwaits => simp [ExecutionPointer.Consistent, hwaits, PointerStatus.isDone]

theorem ExecutionPointer.Fresh.consistent (h : p.Fresh) : p.Consistent := by
  simp [ExecutionPointer.Consistent, h.status, h.active, PointerStatus.isDone]

/-- What holds of the pointers before a pass, is kept by the turn of a runnable pointer, and holds
of new pointers, holds after it. -/
theorem Conducts.forall_pointers {N : ExecutionPointer → Prop}
    (h : Conducts definition resolve host w turns w')
    (hturn : ∀ p step r p' new, N p → p.active = true → p.status.isDone = false → p.Later p' →
      Effect definition step p r p' new → N p')
    (hfresh : ∀ p, p.Fresh → N p) (hw : ∀ p ∈ w.executionPointers, N p) :
    ∀ p ∈ w'.executionPointers, N p := by
  -- A turn is that of a pointer that was runnable, hence active and not done.
  have hrunnable (t : Turn) (ht : t ∈ turns) := (h.pointer ht).2
  obtain ⟨-, now, tm, st, hturns, -, rfl⟩ := h
  rw [concluded_executionPointers]
  refine hturns.rule (N := fun _ st => ∀ p ∈ st.workflow.executionPointers, N p) hw ?_
  intro done t st st' hdone hst hp _ hround
  obtain ⟨now, hrun⟩ := hrunnable t (hdone.subset (by simp))
  obtain ⟨hactive, hdone'⟩ := isPointerRunnable_active hrun
  obtain ⟨step, r, p', new, -, -, heffect, hlater, -, hst'⟩ := hround.effect hp
  rw [hst']
  intro q hq
  rcases List.mem_append.mp hq with hq | hq
  · rcases List.mem_or_eq_of_mem_set hq with hq | rfl
    · exact hst q hq
    · exact hturn _ _ _ _ _ (hst _ (List.mem_of_getElem? hp)) hactive hdone' hlater heffect
  · exact hfresh q (heffect.fresh hq)

theorem Does.consistent (h : Does definition w c w')
    (hw : ∀ p ∈ w.executionPointers, p.Consistent) : ∀ p ∈ w'.executionPointers, p.Consistent := by
  rcases h.pass_or_woken with ⟨resolve, host, turns, -, -, h⟩ | ⟨-, f, hf, hw'⟩
  · exact h.forall_pointers (fun _ _ _ _ _ _ hactive _ _ heffect => heffect.consistent hactive)
      (fun _ h => h.consistent) hw
  · intro q hq
    obtain ⟨p, hp, rfl⟩ := List.mem_map.mp (hw' ▸ hq)
    exact (hf p).consistent (hw p hp)

/-- A pass gives no turn to a pointer that is done. -/
theorem Conducts.getElem? (h : Conducts definition resolve host w turns w') {i : Nat}
    (hp : w.executionPointers[i]? = some p) (hdone : p.status.isDone = true) :
    w'.executionPointers[i]? = some p := by
  have hother : ∀ t ∈ turns, t.index ≠ i := by
    rintro t ht rfl
    obtain ⟨ht, now, hrun⟩ := h.pointer ht
    obtain rfl : p = t.pointer := Option.some_inj.mp (hp.symm.trans ht)
    rw [(isPointerRunnable_active hrun).2] at hdone
    cases hdone
  obtain ⟨-, now, tm, st, hturns, -, rfl⟩ := h
  rw [concluded_executionPointers]
  exact hturns.getElem? hother hp

/-- Pointers that are done are kept as they are. -/
theorem Does.getElem? (h : Does definition w c w') {i : Nat}
    (hp : w.executionPointers[i]? = some p) (hdone : p.status.isDone = true) :
    w'.executionPointers[i]? = some p := by
  rcases h.pass_or_woken with ⟨resolve, host, turns, -, -, h⟩ | ⟨-, f, hf, hw'⟩
  · exact h.getElem? hp hdone
  · rw [hw', List.getElem?_map, hp, Option.map_some, (hf p).eq_of_isDone hdone]

theorem Does.pointerIds (h : Does definition w c w') : w.pointerIds <+: w'.pointerIds := by
  rcases h.pass_or_woken with ⟨resolve, host, turns, -, -, h⟩ | ⟨-, f, hf, hw'⟩
  · exact (pass_iff_conducts.mpr ⟨_, h, rfl⟩).pointerIds
  · have hids : w'.pointerIds = w.pointerIds := by
      rw [WorkflowInstance.pointerIds, hw', List.map_map]
      exact List.map_congr_left fun p _ => (hf p).later.id
    exact hids.symm ▸ List.prefix_rfl

theorem Started.fresh (h : Started definition w) : ∀ p ∈ w.executionPointers, p.Fresh := by
  cases h <;> simp only [WorkflowHost.newInstance, WorkflowHost.newChild] <;> split_ifs <;>
    simp <;> exact ⟨rfl, rfl, rfl, rfl, rfl⟩

theorem Reachable.consistent (h : Reachable definition w) :
    ∀ p ∈ w.executionPointers, p.Consistent := by
  refine h.invariant (N := fun w => ∀ p ∈ w.executionPointers, p.Consistent)
    (fun w hw p hp => (hw.fresh p hp).consistent) fun w w' hw hevolves => ?_
  obtain ⟨c, hdoes⟩ := evolves_iff_does.mp hevolves
  exact hdoes.consistent hw

end Pointers

/-- **The pointer list is append-only, and pointers that are done are frozen.** In every sequence
of operations on an instance, the ids of the pointers only grow at the end, a pointer in a terminal
status is inactive and stays as it is, and a pointer is otherwise inactive only while it waits for
an event. -/
theorem pointers_append_only (definition : WorkflowDefinition) (w w' : WorkflowInstance)
    (h : Reachable definition w) (h' : Relation.ReflTransGen (Evolves definition) w w') :
    w.pointerIds <+: w'.pointerIds ∧
    (∀ p ∈ w.executionPointers, (p.status.isDone = true → p.active = false) ∧
      (p.active = false → p.status.isDone = true ∨ p.status = .waitingForEvent)) ∧
    ∀ (i : Nat) (p : ExecutionPointer), w.executionPointers[i]? = some p →
      p.status.isDone = true → w'.executionPointers[i]? = some p := by
  refine ⟨?_, h.consistent, fun i p hp hdone => ?_⟩
  · induction h' with
    | refl => exact List.prefix_rfl
    | tail _ hevolves ih =>
      obtain ⟨c, hdoes⟩ := evolves_iff_does.mp hevolves
      exact ih.trans hdoes.pointerIds
  · induction h' with
    | refl => exact hp
    | tail _ hevolves ih =>
      obtain ⟨c, hdoes⟩ := evolves_iff_does.mp hevolves
      exact hdoes.getElem? ih hdone

/-- The first of two steps stays as it is when the second one runs. -/
theorem pointers_append_only_two_steps : ∃ w w' p, Reachable twoSteps w ∧
    Relation.ReflTransGen (Evolves twoSteps) w w' ∧ w.pointerIds <+: w'.pointerIds ∧
    p.status.isDone = true ∧ w.executionPointers[0]? = some p ∧
    w'.executionPointers[0]? = some p ∧ w'.status = .complete := by
  obtain ⟨changes, w, hlives, hw⟩ := Simulation.history_any (d := twoSteps)
    (w := startOf twoSteps) (l := [.pass (fun _ => some proceedBody) "a"])
    (f := fun _ w => w.executionPointers[0]?.any (fun p => p.status.isDone) ∧
      (Simulation.history twoSteps w [.pass (fun _ => some proceedBody) "b"]).any
        (Function.uncurry fun _ w' => w'.status = .complete)) (by decide)
  obtain ⟨hp, hrun⟩ := of_decide_eq_true hw
  obtain ⟨changes', w', hlives', hw'⟩ := Simulation.history_any hrun
  obtain ⟨p, hp, hdone⟩ := (Option.any_eq_true _ _).mp hp
  have hreachable : Reachable twoSteps w := ⟨_, startOf_started _, hlives.evolves⟩
  obtain ⟨hids, -, hkept⟩ := pointers_append_only twoSteps w w' hreachable hlives'.evolves
  exact ⟨w, w', p, hreachable, hlives'.evolves, hids, hdone, hp, hkept 0 p hp hdone,
    of_decide_eq_true hw'⟩

end Wfe
