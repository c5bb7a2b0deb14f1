import Wfe.Executor.Chain
import Wfe.Executor.Turns

/-!
# Computing passes

For bodies that make no calls, a pass can be computed: the clock stands still, and the UUIDs are
built from a seed, a new one for each pass, and from the index of the pointer.

## Main definitions

* `Simulation.round`, `Simulation.pass`, `Simulation.passes`: computed rounds, passes and runs
* `Simulation.conduct`: a computed pass with its turns

## Main results

* `Simulation.passes_sound`, `Simulation.conduct_sound`: what is computed is a run
-/

namespace Wfe.Simulation

open Program

variable (definition : WorkflowDefinition) (resolve : StepResolver) (host : Option HostContext)

/-- The outside world in the round over index `idx` of the pass with seed `seed`. -/
def env (seed : String) (idx : Nat) : Ambient where
  now := 0
  uuid k := seed ++ String.ofList (List.replicate idx 'i' ++ List.replicate k 'k')

/-- One round of the pointer loop; `none` when it is aborted or the body makes a call. -/
def round (seed : String) (st : PassState) (idx : Nat) : Option (List Ran × PassState) :=
  match examinePointer definition resolve st.workflow idx with
  | .absent => some ([], st)
  | .abort _ => none
  | .skip pointer step =>
    some ([.skipped step.id],
      { st with workflow := skipPointer (env seed idx) definition step pointer idx st.workflow })
  | .run pointer step body =>
    let pointer := startPointer (env seed idx) pointer
    let st := { st with workflow := st.workflow.setPointer idx pointer }
    match (body (stepContext definition host step pointer st.workflow)).run with
    | .ret (.ok result) =>
      some ([.returned step.id result],
        applyResult (env seed idx) definition idx pointer result st)
    | .ret (.error e) =>
      some ([.failed step.id e],
        applyError (env seed idx) definition st.workflow.id idx pointer e st)
    | .call _ _ => none

def loop (seed : String) : PassState → List Nat → Option (List Ran × PassState)
  | st, [] => some ([], st)
  | st, idx :: indices => do
    let (ran, st) ← round definition resolve host seed st idx
    let (rans, st) ← loop seed st indices
    return (ran ++ rans, st)

def pass (seed : String) (w : WorkflowInstance) : Option (List Ran × WorkflowInstance) :=
  if w.status = .runnable then do
    let (ran, st) ← loop definition resolve host seed { workflow := w } (runnableIndices w 0)
    return (ran, concluded 0 st.workflow)
  else none

/-- One pass for each seed, the last seed first. -/
def passes (w : WorkflowInstance) : List String → Option (List (List Ran) × WorkflowInstance)
  | [] => some ([], w)
  | seed :: seeds => do
    let (rans, w) ← passes w seeds
    let (ran, w) ← pass definition resolve host seed w
    return (rans ++ [ran], w)

/-- The turns of a pass. -/
def turns (seed : String) : PassState → List Nat → Option (List Turn × PassState)
  | st, [] => some ([], st)
  | st, idx :: indices => do
    let pointer ← st.workflow.executionPointers[idx]?
    let (ran, st') ← round definition resolve host seed st idx
    let r ← ran.head?
    let (rest, st'') ← turns seed st' indices
    return (⟨idx, pointer, st.workflow.data, r⟩ :: rest, st'')

/-- A pass with its turns. -/
def conduct (seed : String) (w : WorkflowInstance) : Option (List Turn × WorkflowInstance) :=
  if w.status = .runnable then do
    let (ts, st) ← turns definition resolve host seed { workflow := w } (runnableIndices w 0)
    return (ts, concluded 0 st.workflow)
  else none

section Sound

variable {definition resolve host} {seed : String} {st st' : PassState} {idx : Nat}
  {ran : List Ran} {w w' : WorkflowInstance}

theorem yields_of_ret {body : StepBody} {context : StepExecutionContext}
    {r : Except WfeError ExecutionResult} (h : (body context).run = .ret r) :
    Yields host body context r := by
  refine ⟨[], ?_⟩
  rw [StepM.runOn, h]
  exact .ret r

theorem round_sound (h : round definition resolve host seed st idx = some (ran, st')) :
    Round definition resolve host st.workflow.id st idx ran st' := by
  unfold round at h
  split at h
  · next hx =>
    cases h
    exact .absent hx
  · cases h
  · next hx =>
    cases h
    exact .skipped _ _ _ hx
  · next hx =>
    dsimp only at h
    split at h
    · next hret =>
      cases h
      exact .returned _ _ _ _ _ _ hx (yields_of_ret hret)
    · next hret =>
      cases h
      exact .failed _ _ _ _ _ _ hx (yields_of_ret hret)
    · cases h

theorem loop_sound {indices : List Nat} {workflowId : String} (hid : st.workflow.id = workflowId)
    (h : loop definition resolve host seed st indices = some (ran, st')) :
    Loop definition resolve host workflowId st indices ran st' := by
  induction indices generalizing st ran with
  | nil =>
    cases h
    exact .nil _
  | cons idx indices ih =>
    obtain ⟨⟨ran₁, st₁⟩, hround, h⟩ := Option.bind_eq_some_iff.mp h
    obtain ⟨⟨rans, st₂⟩, hloop, h⟩ := Option.bind_eq_some_iff.mp h
    cases h
    have hround := round_sound hround
    rw [hid] at hround
    exact .cons hround (ih (hround.continues.1.trans hid) hloop)

theorem pass_sound (h : pass definition resolve host seed w = some (ran, w')) :
    Pass definition resolve host w ran w' := by
  unfold pass at h
  split_ifs at h with hr
  obtain ⟨⟨ran, st⟩, hloop, h⟩ := Option.bind_eq_some_iff.mp h
  cases h
  exact ⟨hr, 0, 0, st, loop_sound rfl hloop, rfl⟩

/-- What is computed is a run. -/
theorem passes_sound {seeds : List String} {rans : List (List Ran)}
    (h : passes definition resolve host w seeds = some (rans, w')) :
    Passes definition resolve host w rans w' := by
  induction seeds generalizing rans w' with
  | nil =>
    cases h
    exact .nil
  | cons seed seeds ih =>
    obtain ⟨⟨rans, w₁⟩, hpasses, h⟩ := Option.bind_eq_some_iff.mp h
    obtain ⟨⟨ran, w₂⟩, hpass, h⟩ := Option.bind_eq_some_iff.mp h
    cases h
    exact .snoc (ih hpasses) (pass_sound hpass)

theorem turns_sound {indices : List Nat} {workflowId : String} {ts : List Turn}
    (hid : st.workflow.id = workflowId)
    (h : turns definition resolve host seed st indices = some (ts, st')) :
    Turns definition resolve host workflowId st ts st' ∧ ts.map Turn.index = indices := by
  induction indices generalizing st ts with
  | nil =>
    cases h
    exact ⟨.nil, rfl⟩
  | cons idx indices ih =>
    obtain ⟨pointer, hpointer, h⟩ := Option.bind_eq_some_iff.mp h
    obtain ⟨⟨ran, st₁⟩, hround, h⟩ := Option.bind_eq_some_iff.mp h
    obtain ⟨r, hr, h⟩ := Option.bind_eq_some_iff.mp h
    obtain ⟨⟨rest, st₂⟩, hrest, h⟩ := Option.bind_eq_some_iff.mp h
    cases h
    have hround := round_sound hround
    rw [hid] at hround
    obtain ⟨hrest, hindices⟩ := ih (hround.continues.1.trans hid) hrest
    obtain ⟨-, r', -, -, rfl, -⟩ := hround.effect hpointer
    obtain rfl : r' = r := by simpa using hr
    have hone : Turns definition resolve host workflowId st [⟨idx, pointer, _, r'⟩] st₁ :=
      .snoc (t := ⟨idx, pointer, _, r'⟩) .nil hpointer rfl hround
    exact ⟨hone.trans hrest, by simp [hindices]⟩

theorem conduct_sound {ts : List Turn}
    (h : conduct definition resolve host seed w = some (ts, w')) :
    Conducts definition resolve host w ts w' := by
  unfold conduct at h
  split_ifs at h with hr
  obtain ⟨⟨ts, st⟩, hturns, h⟩ := Option.bind_eq_some_iff.mp h
  cases h
  obtain ⟨hturns, hindices⟩ := turns_sound rfl hturns
  exact ⟨hr, 0, 0, st, hturns, hindices, rfl⟩

/-- A run whose end can be tested. -/
theorem passes_any {seeds : List String} {f : List (List Ran) → WorkflowInstance → Bool}
    (h : (passes definition resolve host w seeds).any (Function.uncurry f) = true) :
    ∃ rans w', Passes definition resolve host w rans w' ∧ f rans w' = true := by
  obtain ⟨⟨rans, w'⟩, hpasses, htest⟩ := (Option.any_eq_true _ _).mp h
  exact ⟨rans, w', passes_sound hpasses, htest⟩

end Sound

end Wfe.Simulation
