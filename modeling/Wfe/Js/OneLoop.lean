import Wfe.Js.StepAnswers

/-!
# One executor loop

`WorkflowHost.registerStep` starts the executor loop once. One loop hands out no request before the
last one is answered, so nothing is ever in flight under the number of another request: every step
gets its own answer, the answers come in the order of the requests, and every step that has begun
gets one, if every call of a step function ends and with something that can be reported.

## Main definitions

* `Bridge.Single`: there is no loop yet, or one that has not ended
* `Bridge.line`: the requests answered, being served and in the channel
* `Bridge.work`: what is left to do until all callers are answered

## Main results

* `Bridge.loops_cases`: what a step does to the loops
* `Bridge.Orderly.step`: what a step keeps
* `answered_in_order`: the answers are one's own, and in order
* `all_answered`: from every state all callers are answered, unless the loop fails
-/

namespace Wfe.Js

variable {F : Type}

/-- The event starts an executor loop. -/
def Event.startsLoop : Event F → Bool
  | startExecutorLoop => true
  | _ => false

/-- The loop can report what comes of a call. -/
def Event.reports : Event F → Bool
  | settle _ outcome => outcome.response.isSome
  | _ => true

/-- The caller whose request enters the channel. -/
def Event.sender? : Event F → Option Nat
  | send c => some c
  | _ => none

/-- What the bridge and the step functions do by themselves. -/
def Event.internal : Event F → Bool
  | send _ | poll _ | recv _ | dispatch _ | settle _ _ => true
  | registerStep _ | registerStepFunction _ _ | startExecutorLoop | run _ _ => false

def Caller.isSending (c : Caller F) : Bool :=
  match c.state with
  | .sending => true
  | _ => false

/-- How far a loop is from its next poll. -/
def ExecutorLoop.distance : ExecutorLoop F → Nat
  | received _ => 4
  | calling _ _ => 3
  | ready => 1
  | polling | failed _ | stopped => 0

namespace Bridge

variable {toRfc3339 : DateTime → String} {capacity : Nat} {σ σ' : Bridge F} {l : Nat}
  {a b : ExecutorLoop F} {e : Event F} {es : List (Event F)} {answer : Answer F}

/-- There is no loop yet, or one that has not ended between requests, and has the receiver exactly
while it polls. -/
def Single (σ : Bridge F) : Prop :=
  (σ.loops = [] ∧ σ.receiver = true) ∨
    ∃ a, σ.loops = [a] ∧ a ≠ .stopped ∧ (σ.receiver = true ↔ a ≠ .polling)

theorem Single.loop (hσ : σ.Single) (hl : σ.loops[l]? = some a) :
    l = 0 ∧ σ.loops = [a] ∧ (σ.receiver = true ↔ a ≠ .polling) := by
  rcases hσ with ⟨hnil, -⟩ | ⟨a', hone, -, hrec⟩
  · rw [hnil] at hl
    cases hl
  · rw [hone] at hl
    rw [List.getElem?_singleton] at hl
    split_ifs at hl with hzero
    obtain rfl := Option.some_inj.1 hl
    exact ⟨hzero, hone, hrec⟩

theorem Single.set (hσ : σ.Single) (hl : σ.loops[l]? = some a)
    (hloops : σ'.loops = σ.loops.set l b) (hb : b ≠ .stopped)
    (hrec : σ'.receiver = true ↔ b ≠ .polling) : σ'.Single := by
  obtain ⟨rfl, hone, -⟩ := hσ.loop hl
  refine .inr ⟨b, ?_, hb, hrec⟩
  rw [hloops, hone]
  rfl

theorem Single.congr (hσ : σ.Single) (hloops : σ'.loops = σ.loops)
    (hrec : σ'.receiver = σ.receiver) : σ'.Single := by
  rw [Single, hloops, hrec]
  exact hσ

/-- The requests in the order of their sending: answered, being served, and in the channel. -/
def line (σ : Bridge F) : List Nat :=
  (σ.answers.map (·.request) ++ σ.serving ++ σ.channel).map (·.caller)

theorem serving_of_single (h : σ.loops = [a]) : σ.serving = a.request?.toList := by
  rw [serving, h]
  cases hr : a.request? <;> simp [hr]

theorem Single.serving_set (hσ : σ.Single) (hl : σ.loops[l]? = some a) (b : ExecutorLoop F) :
    (σ.loops.set l b).filterMap ExecutorLoop.request? = b.request?.toList := by
  obtain ⟨rfl, hone, -⟩ := hσ.loop hl
  rw [hone]
  exact serving_of_single (σ := { σ with loops := [b] }) rfl

/-- With one loop that polls, nothing is in flight. -/
theorem Matched.apart (hσ : σ.Matched) (hsingle : σ.Single)
    (h : Bridge.step toRfc3339 capacity σ e = some σ') : σ.Apart e := by
  cases e with
  | recv l =>
    intro r hr
    simp only [Bridge.step, Bridge.recv] at h
    split at h
    · next request rest hl hchannel =>
      obtain ⟨-, hone, -⟩ := hsingle.loop hl
      cases hin : σ.inflight r.requestId with
      | none => rfl
      | some c =>
        obtain ⟨r', hr', -⟩ := hσ.served _ _ hin
        rw [serving_of_single hone] at hr'
        cases hr'
    · cases h
  | _ => trivial

theorem Single.answerFrom (hσ : σ.Single) (hmatched : σ.Matched) (hl : σ.loops[l]? = some a)
    (hr : a.request? = some answer.request) : (σ.answerFrom l answer).Single := by
  rw [hmatched.answerFrom_eq hl hr]
  obtain ⟨-, -, hrec⟩ := hσ.loop hl
  refine hσ.set hl rfl (by simp) (hrec.trans ?_)
  refine ⟨fun _ => by simp, ?_⟩
  rintro - rfl
  cases hr

/-- The only loop stays the only one, and does not end between requests. -/
theorem Single.step (hσ : σ.Single) (hmatched : σ.Matched)
    (hstart : e.startsLoop = true → σ.loops = [])
    (h : Bridge.step toRfc3339 capacity σ e = some σ') : σ'.Single := by
  cases e with
  | registerStep stepType =>
    rw [← Option.some_inj.1 h]
    exact hσ.congr rfl rfl
  | registerStepFunction stepType fn =>
    rw [← Option.some_inj.1 h]
    exact hσ.congr rfl rfl
  | startExecutorLoop =>
    rw [← Option.some_inj.1 h]
    have hnil := hstart rfl
    rcases hσ with ⟨-, hrec⟩ | ⟨a, hone, -⟩
    · refine .inr ⟨.ready, ?_, by simp, ?_⟩
      · change σ.loops ++ [.ready] = _
        rw [hnil, List.nil_append]
      · exact ⟨fun _ => by simp, fun _ => hrec⟩
    · rw [hnil] at hone
      cases hone
  | run registration ctx =>
    simp only [Bridge.step, Bridge.beginRun] at h
    split at h
    · cases h
    · split_ifs at h
      rw [← Option.some_inj.1 h]
      exact hσ.congr rfl rfl
  | send c =>
    simp only [Bridge.step, Bridge.send] at h
    split at h
    · split_ifs at h
      rw [← Option.some_inj.1 h]
      exact hσ.congr rfl rfl
    · cases h
  | poll l =>
    simp only [Bridge.step, Bridge.poll] at h
    split at h
    · next hl =>
      obtain ⟨-, -, hrec⟩ := hσ.loop hl
      -- The loop that is about to poll finds the receiver in its place.
      rw [if_pos (hrec.2 (by simp))] at h
      rw [← Option.some_inj.1 h]
      exact hσ.set hl rfl (by simp) ⟨by simp, fun hne => absurd rfl hne⟩
    · cases h
  | recv l =>
    simp only [Bridge.step, Bridge.recv] at h
    split at h
    · next request rest hl hchannel =>
      rw [← Option.some_inj.1 h]
      exact hσ.set hl rfl (by simp) ⟨fun _ => by simp, fun _ => rfl⟩
    · cases h
  | dispatch l =>
    simp only [Bridge.step, Bridge.dispatch] at h
    split at h
    · next request hl =>
      split at h
      · rw [← Option.some_inj.1 h]
        obtain ⟨-, -, hrec⟩ := hσ.loop hl
        exact hσ.set hl rfl (by simp) ⟨fun _ => by simp, fun _ => hrec.2 (by simp)⟩
      · rw [← Option.some_inj.1 h]
        exact hσ.answerFrom hmatched hl rfl
    · cases h
  | settle l outcome =>
    simp only [Bridge.step, Bridge.settle] at h
    split at h
    · next request fn hl =>
      split at h
      · rw [← Option.some_inj.1 h]
        exact hσ.answerFrom hmatched hl rfl
      · rw [← Option.some_inj.1 h]
        obtain ⟨-, -, hrec⟩ := hσ.loop hl
        exact hσ.set hl rfl (by simp) ⟨fun _ => by simp, fun _ => hrec.2 (by simp)⟩
    · cases h

theorem Single.line_answerFrom (hσ : σ.Single) (hmatched : σ.Matched)
    (hl : σ.loops[l]? = some a) (hr : a.request? = some answer.request) :
    (σ.answerFrom l answer).line = σ.line := by
  obtain ⟨-, hone, -⟩ := hσ.loop hl
  rw [hmatched.answerFrom_eq hl hr]
  simp only [line, serving, hσ.serving_set hl]
  rw [← serving, serving_of_single hone, hr]
  simp [ExecutorLoop.request?]

/-- One loop keeps the line: only a request that is sent joins it, at its end. -/
theorem Single.line_step (hσ : σ.Single) (hmatched : σ.Matched)
    (h : Bridge.step toRfc3339 capacity σ e = some σ') : σ'.line = σ.line ++ e.sender?.toList := by
  cases e with
  | registerStep stepType =>
    rw [← Option.some_inj.1 h]
    exact (List.append_nil _).symm
  | registerStepFunction stepType fn =>
    rw [← Option.some_inj.1 h]
    exact (List.append_nil _).symm
  | startExecutorLoop =>
    rw [← Option.some_inj.1 h]
    simp [line, serving, List.filterMap_cons, ExecutorLoop.request?, Event.sender?]
  | run registration ctx =>
    simp only [Bridge.step, Bridge.beginRun] at h
    split at h
    · cases h
    · split_ifs at h
      rw [← Option.some_inj.1 h]
      exact (List.append_nil _).symm
  | send c =>
    simp only [Bridge.step, Bridge.send] at h
    split at h
    · next request hc =>
      split_ifs at h
      rw [← Option.some_inj.1 h]
      have hid : request.caller = c := hmatched.ids c _ hc
      simp only [line, serving, ← List.append_assoc, List.map_append, Event.sender?]
      simp [hid]
    · cases h
  | poll l =>
    simp only [Bridge.step, Bridge.poll] at h
    split at h
    · next hl =>
      obtain ⟨-, hone, -⟩ := hσ.loop hl
      rw [← Option.some_inj.1 h]
      split_ifs
      all_goals
        simp only [line, serving, hσ.serving_set hl]
        rw [← serving, serving_of_single hone]
        exact (List.append_nil _).symm
    · cases h
  | recv l =>
    simp only [Bridge.step, Bridge.recv] at h
    split at h
    · next request rest hl hchannel =>
      obtain ⟨-, hone, -⟩ := hσ.loop hl
      rw [← Option.some_inj.1 h]
      simp only [line, serving, hσ.serving_set hl]
      rw [← serving, serving_of_single hone, hchannel]
      simp [ExecutorLoop.request?, Event.sender?]
    · cases h
  | dispatch l =>
    simp only [Bridge.step, Bridge.dispatch] at h
    split at h
    · next request hl =>
      obtain ⟨-, hone, -⟩ := hσ.loop hl
      split at h
      · rw [← Option.some_inj.1 h]
        simp only [line, serving, hσ.serving_set hl]
        rw [← serving, serving_of_single hone]
        exact (List.append_nil _).symm
      · rw [← Option.some_inj.1 h, hσ.line_answerFrom hmatched hl rfl]
        exact (List.append_nil _).symm
    · cases h
  | settle l outcome =>
    simp only [Bridge.step, Bridge.settle] at h
    split at h
    · next request fn hl =>
      split at h
      · rw [← Option.some_inj.1 h, hσ.line_answerFrom hmatched hl rfl]
        exact (List.append_nil _).symm
      · obtain ⟨-, hone, -⟩ := hσ.loop hl
        rw [← Option.some_inj.1 h]
        simp only [line, serving, hσ.serving_set hl]
        rw [← serving, serving_of_single hone]
        exact (List.append_nil _).symm
    · cases h

/-- A loop that answers goes on or is stopped. -/
theorem loops_answerFrom (σ : Bridge F) (l : Nat) (answer : Answer F) :
    ∃ b, (∀ r, b ≠ .failed r) ∧ (σ.answerFrom l answer).loops = σ.loops.set l b := by
  unfold Bridge.answerFrom
  split
  · next σ'' h =>
    obtain ⟨c, -, rfl⟩ := Option.map_eq_some_iff.1 h
    exact ⟨.ready, by simp, rfl⟩
  · exact ⟨.stopped, by simp, rfl⟩

/-- What a step does to the loops: nothing, or it starts one, or one that has not ended without an
answer goes on. It ends so only where it cannot report what came of a call. -/
theorem loops_cases (h : Bridge.step toRfc3339 capacity σ e = some σ') :
    (e.startsLoop = false ∧ σ'.loops = σ.loops) ∨
    (e.startsLoop = true ∧ σ'.loops = σ.loops ++ [.ready]) ∨
    (e.startsLoop = false ∧ ∃ l a b, σ.loops[l]? = some a ∧ (∀ r, a ≠ .failed r) ∧
      σ'.loops = σ.loops.set l b ∧ (e.reports = true → ∀ r, b ≠ .failed r)) := by
  cases e with
  | registerStep stepType =>
    rw [← Option.some_inj.1 h]
    exact .inl ⟨rfl, rfl⟩
  | registerStepFunction stepType fn =>
    rw [← Option.some_inj.1 h]
    exact .inl ⟨rfl, rfl⟩
  | startExecutorLoop =>
    rw [← Option.some_inj.1 h]
    exact .inr (.inl ⟨rfl, rfl⟩)
  | run registration ctx =>
    simp only [Bridge.step, Bridge.beginRun] at h
    split at h
    · cases h
    · split_ifs at h
      rw [← Option.some_inj.1 h]
      exact .inl ⟨rfl, rfl⟩
  | send c =>
    simp only [Bridge.step, Bridge.send] at h
    split at h
    · split_ifs at h
      rw [← Option.some_inj.1 h]
      exact .inl ⟨rfl, rfl⟩
    · cases h
  | poll l =>
    simp only [Bridge.step, Bridge.poll] at h
    split at h
    · next hl =>
      rw [← Option.some_inj.1 h]
      split_ifs
      · exact .inr (.inr ⟨rfl, l, .ready, .polling, hl, by simp, rfl, by simp⟩)
      · exact .inr (.inr ⟨rfl, l, .ready, .stopped, hl, by simp, rfl, by simp⟩)
    · cases h
  | recv l =>
    simp only [Bridge.step, Bridge.recv] at h
    split at h
    · next hl _ =>
      rw [← Option.some_inj.1 h]
      exact .inr (.inr ⟨rfl, l, .polling, _, hl, by simp, rfl, by simp⟩)
    · cases h
  | dispatch l =>
    simp only [Bridge.step, Bridge.dispatch] at h
    split at h
    · next request hl =>
      split at h
      · rw [← Option.some_inj.1 h]
        exact .inr (.inr ⟨rfl, l, .received request, _, hl, by simp, rfl, by simp⟩)
      · rw [← Option.some_inj.1 h]
        obtain ⟨b, hb, hloops⟩ := loops_answerFrom σ l _
        exact .inr (.inr ⟨rfl, l, .received request, b, hl, by simp, hloops, fun _ => hb⟩)
    · cases h
  | settle l outcome =>
    simp only [Bridge.step, Bridge.settle] at h
    split at h
    · next request fn hl =>
      split at h
      · rw [← Option.some_inj.1 h]
        obtain ⟨b, hb, hloops⟩ := loops_answerFrom σ l _
        exact .inr (.inr ⟨rfl, l, .calling request fn, b, hl, by simp, hloops, fun _ => hb⟩)
      · next hnone =>
        rw [← Option.some_inj.1 h]
        refine .inr (.inr ⟨rfl, l, .calling request fn, _, hl, by simp, rfl, fun he => ?_⟩)
        rw [Event.reports, hnone] at he
        cases he
    · cases h

/-- Loops come from starting them, and do not go away. -/
theorem length_loops_step (h : Bridge.step toRfc3339 capacity σ e = some σ') :
    σ'.loops.length = σ.loops.length + ([e].filter Event.startsLoop).length := by
  rcases loops_cases h with ⟨he, hloops⟩ | ⟨he, hloops⟩ | ⟨he, l, a, b, -, -, hloops, -⟩
  · simp [hloops, he]
  · simp [hloops, he]
  · simp [hloops, he]

/-- What holds after the events `es` with at most one loop. -/
structure Orderly (es : List (Event F)) (σ : Bridge F) : Prop where
  matched : σ.Matched
  single : σ.Single
  line : σ.line = es.filterMap Event.sender?

theorem orderly_start (inherited : String → Option F) : Orderly [] (start inherited) :=
  ⟨matched_start inherited, .inl ⟨rfl, rfl⟩, rfl⟩

theorem Orderly.step (hσ : Orderly es σ) (hstart : e.startsLoop = true → σ.loops = [])
    (h : Bridge.step toRfc3339 capacity σ e = some σ') : Orderly (es ++ [e]) σ' := by
  have hapart := hσ.matched.apart hσ.single h
  refine ⟨hσ.matched.step hapart h, hσ.single.step hσ.matched hstart h, ?_⟩
  rw [hσ.single.line_step hσ.matched h, hσ.line, List.filterMap_append]
  cases hs : e.sender? <;> simp [hs]

end Bridge

section OneLoop

variable {toRfc3339 : DateTime → String} {capacity : Nat} {inherited : String → Option F}
  {es : List (Event F)} {σ : Bridge F}

theorem length_loops
    (h : Steps.run (Bridge.step toRfc3339 capacity) (.start inherited) es = some σ) :
    σ.loops.length = (es.filter Event.startsLoop).length := by
  refine Steps.run_induction
    (P := fun es σ => σ.loops.length = (es.filter Event.startsLoop).length) rfl ?_ h
  rintro es e σ σ' - ih hstep
  rw [Bridge.length_loops_step hstep, ih, List.filter_append, List.length_append]

theorem orderly_of_run
    (h : Steps.run (Bridge.step toRfc3339 capacity) (.start inherited) es = some σ)
    (hone : (es.filter Event.startsLoop).length ≤ 1) :
    Steps.Always (Bridge.step toRfc3339 capacity) (.start inherited) Bridge.Apart es ∧
      σ.Orderly es := by
  refine Steps.run_induction (P := fun es σ => (es.filter Event.startsLoop).length ≤ 1 →
    Steps.Always _ _ Bridge.Apart es ∧ Bridge.Orderly es σ) ?_ ?_ h hone
  · exact fun _ => ⟨Steps.always_nil, Bridge.orderly_start inherited⟩
  · intro es e σ σ' hrun ih hstep hone
    have hle : (es.filter Event.startsLoop).length ≤ 1 := by
      rw [List.filter_append, List.length_append] at hone
      omega
    obtain ⟨hall, horderly⟩ := ih hle
    refine ⟨(Steps.always_concat hrun).2 ⟨hall, horderly.matched.apart horderly.single hstep⟩,
      horderly.step ?_ hstep⟩
    intro he
    rw [List.filter_append, List.length_append, ← length_loops hrun] at hone
    simp only [he, List.filter_cons_of_pos, List.filter_nil, List.length_singleton] at hone
    exact List.length_eq_zero_iff.1 (by omega)

theorem owned_of_run
    (h : Steps.run (Bridge.step toRfc3339 capacity) (.start inherited) es = some σ)
    (hone : (es.filter Event.startsLoop).length ≤ 1) : σ.Owned inherited es := by
  rcases (matched_or_lost h).2 with ⟨-, -, howned⟩ | ⟨hnot, -⟩
  · exact howned
  · exact absurd (orderly_of_run h hone).1 hnot

/-- **One loop answers in order.** If the executor loop is started at most once, every caller gets
its own answer, at most one request is being served, and the requests answered, then the one being
served, then those in the channel are all that were sent, in the order they were sent in. -/
theorem answered_in_order
    (h : Steps.run (Bridge.step toRfc3339 capacity) (.start inherited) es = some σ)
    (hone : (es.filter Event.startsLoop).length ≤ 1) :
    (∀ c ∈ σ.callers, c.AnsweredOwn inherited es) ∧ σ.serving.length ≤ 1 ∧
      (σ.answers.map (·.request) ++ σ.serving ++ σ.channel).map (·.caller) =
        es.filterMap Event.sender? := by
  obtain ⟨-, horderly⟩ := orderly_of_run h hone
  refine ⟨owned_of_run h hone, ?_, horderly.line⟩
  · rcases horderly.single with ⟨hnil, -⟩ | ⟨a, hone, -⟩
    · simp [Bridge.serving, hnil]
    · rw [Bridge.serving_of_single hone]
      cases a.request? <;> simp

/-- One loop answers the two requests one after the other. -/
def oneLoop : List (Event Nat) := twoRequests ++ [
  .startExecutorLoop, .poll 0, .recv 0, .dispatch 0, .settle 0 (.resolved .null), .poll 0,
  .recv 0, .dispatch 0, .settle 0 (.thrown "no score"), .poll 0]

theorem isSome_oneLoop : (Steps.run (Bridge.step (fun _ => "") 256) (.start fun _ => none)
    oneLoop).isSome = true := rfl

theorem answered_in_order_oneLoop : ∃ σ : Bridge Nat,
    Steps.run (Bridge.step (fun _ => "") 256) (.start fun _ => none) oneLoop = some σ ∧
      (∀ c ∈ σ.callers, c.AnsweredOwn (fun _ => none) oneLoop) ∧ σ.serving.length ≤ 1 ∧
        (σ.answers.map (·.request) ++ σ.serving ++ σ.channel).map (·.caller) = [1, 0] := by
  obtain ⟨σ, h⟩ := Option.isSome_iff_exists.1 isSome_oneLoop
  exact ⟨σ, h, answered_in_order h (Nat.le_refl 1)⟩

end OneLoop

/-! ## Everybody is answered -/

namespace Bridge

variable {toRfc3339 : DateTime → String} {capacity : Nat} {σ σ' : Bridge F} {l : Nat}
  {a b : ExecutorLoop F} {e : Event F} {es : List (Event F)} {answer : Answer F}

/-- How far loops are from their next polls. -/
def distance (loops : List (ExecutorLoop F)) : Nat := loops.foldr (fun a n => a.distance + n) 0

/-- What is left to do until everybody is answered. -/
def work (σ : Bridge F) : Nat :=
  6 * σ.callers.countP Caller.isSending + 5 * σ.channel.length + distance σ.loops

theorem Single.distance_set (hσ : σ.Single) (hl : σ.loops[l]? = some a) (b : ExecutorLoop F) :
    distance (σ.loops.set l b) = b.distance ∧ distance σ.loops = a.distance := by
  obtain ⟨rfl, hone, -⟩ := hσ.loop hl
  rw [hone]
  exact ⟨rfl, rfl⟩

theorem work_answerFrom (hσ : σ.Single) (hmatched : σ.Matched) (hl : σ.loops[l]? = some a)
    (hr : a.request? = some answer.request) (hdistance : 3 ≤ a.distance) :
    (σ.answerFrom l answer).work < σ.work := by
  obtain ⟨hset, hsum⟩ := hσ.distance_set hl .ready
  have hwait := hmatched.waiting _ (List.mem_append_right _ (mem_serving hl hr))
  obtain ⟨hlt, hget⟩ := List.getElem?_eq_some_iff.1 hwait
  have hready : (ExecutorLoop.ready : ExecutorLoop F).distance = 1 := rfl
  rw [hmatched.answerFrom_eq hl hr]
  simp only [work, hset, hsum, List.countP_set hlt, hget, Caller.isSending]
  simp
  omega

/-- Every step brings the bridge closer to having answered everybody. -/
theorem work_step (hσ : σ.Single) (hmatched : σ.Matched) (he : e.internal = true)
    (h : Bridge.step toRfc3339 capacity σ e = some σ') : σ'.work < σ.work := by
  cases e with
  | registerStep stepType => cases he
  | registerStepFunction stepType fn => cases he
  | startExecutorLoop => cases he
  | run registration ctx => cases he
  | send c =>
    simp only [Bridge.step, Bridge.send] at h
    split at h
    · next request hc =>
      split_ifs at h
      rw [← Option.some_inj.1 h]
      obtain ⟨hlt, hget⟩ := List.getElem?_eq_some_iff.1 hc
      have hpos : 0 < σ.callers.countP Caller.isSending :=
        List.countP_pos_iff.2 ⟨_, List.mem_of_getElem? hc, rfl⟩
      simp only [work, List.countP_set hlt, hget, Caller.isSending, List.length_append]
      simp
      omega
    · cases h
  | poll l =>
    simp only [Bridge.step, Bridge.poll] at h
    split at h
    · next hl =>
      rw [← Option.some_inj.1 h]
      split_ifs
      · obtain ⟨hset, hsum⟩ := hσ.distance_set hl .polling
        simp only [work, hset, hsum, ExecutorLoop.distance]
        omega
      · obtain ⟨hset, hsum⟩ := hσ.distance_set hl .stopped
        simp only [work, hset, hsum, ExecutorLoop.distance]
        omega
    · cases h
  | recv l =>
    have hapart := hmatched.apart hσ h
    simp only [Bridge.step, Bridge.recv] at h
    split at h
    · next request rest hl hchannel =>
      have hfree : σ.inflight request.requestId = none := by
        refine hapart request ?_
        rw [hchannel]
        rfl
      rw [hfree] at h
      rw [← Option.some_inj.1 h]
      obtain ⟨hset, hsum⟩ := hσ.distance_set hl (.received request)
      simp only [work, hset, hsum, hchannel, List.length_cons, ExecutorLoop.distance]
      omega
    · cases h
  | dispatch l =>
    simp only [Bridge.step, Bridge.dispatch] at h
    split at h
    · next request hl =>
      split at h
      · next fn _ =>
        rw [← Option.some_inj.1 h]
        obtain ⟨hset, hsum⟩ := hσ.distance_set hl (.calling request fn)
        simp only [work, hset, hsum, ExecutorLoop.distance]
        omega
      · rw [← Option.some_inj.1 h]
        exact work_answerFrom hσ hmatched hl rfl (Nat.le_succ 3)
    · cases h
  | settle l outcome =>
    simp only [Bridge.step, Bridge.settle] at h
    split at h
    · next request fn hl =>
      split at h
      · rw [← Option.some_inj.1 h]
        exact work_answerFrom hσ hmatched hl rfl (Nat.le_refl 3)
      · rw [← Option.some_inj.1 h]
        obtain ⟨hset, hsum⟩ := hσ.distance_set hl (.failed request)
        simp only [work, hset, hsum, ExecutorLoop.distance]
        omega
    · cases h

/-- No loop has ended without an answer to its request. -/
def Answering (σ : Bridge F) : Prop := ∀ r, .failed r ∉ σ.loops

/-- A loop ends without an answer only where it cannot report what came of a call. -/
theorem Answering.step (hσ : σ.Answering) (he : e.reports = true)
    (h : Bridge.step toRfc3339 capacity σ e = some σ') : σ'.Answering := by
  intro r hr
  rcases loops_cases h with ⟨-, hloops⟩ | ⟨-, hloops⟩ | ⟨-, l, a, b, -, -, hloops, hb⟩
  · rw [hloops] at hr
    exact hσ r hr
  · rw [hloops] at hr
    rcases List.mem_append.1 hr with hr | hr
    · exact hσ r hr
    · cases List.mem_singleton.1 hr
  · rw [hloops] at hr
    rcases List.mem_or_eq_of_mem_set hr with hr | hr
    · exact hσ r hr
    · exact hb he r hr.symm

/-- A loop that has ended without an answer does nothing more. -/
theorem failed_step {r : StepRequest} (hfailed : σ.loops = [.failed r])
    (hstart : e.startsLoop = true → σ.loops = [])
    (h : Bridge.step toRfc3339 capacity σ e = some σ') : σ'.loops = [.failed r] := by
  rcases loops_cases h with ⟨-, hloops⟩ | ⟨he, -⟩ | ⟨-, l, a, b, hl, ha, -⟩
  · exact hloops.trans hfailed
  · rw [hstart he] at hfailed
    cases hfailed
  · rw [hfailed] at hl
    exact absurd (List.mem_singleton.1 (List.mem_of_getElem? hl)) (ha r)

/-- The only loop ends where it cannot report what came of a call. -/
theorem Single.failed (hσ : σ.Single) (he : e.reports = false)
    (h : Bridge.step toRfc3339 capacity σ e = some σ') : ∃ r, σ'.loops = [.failed r] := by
  cases e with
  | settle l outcome =>
    simp only [Bridge.step, Bridge.settle] at h
    split at h
    · next request fn hl =>
      obtain ⟨rfl, hone, -⟩ := hσ.loop hl
      split at h
      · next hsome =>
        rw [Event.reports, hsome] at he
        cases he
      · rw [← Option.some_inj.1 h]
        refine ⟨request, ?_⟩
        rw [hone]
        rfl
    · cases h
  | _ => cases he

/-- If nothing more can happen by itself, the loop is in its poll and everything has been sent. -/
theorem Single.idle (hσ : σ.Single) (hanswering : σ.Answering) (hloop : σ.loops ≠ [])
    (hcap : 0 < capacity)
    (hstuck : ∀ e : Event F, e.internal = true → Bridge.step toRfc3339 capacity σ e = none) :
    σ.loops = [.polling] ∧ σ.channel = [] ∧ ∀ c ∈ σ.callers, c.state ≠ .sending := by
  rcases hσ with ⟨hnil, -⟩ | ⟨a, hone, hne, -⟩
  · exact absurd hnil hloop
  · have hl : σ.loops[0]? = some a := by rw [hone]; rfl
    -- Everything a loop can be doing but polling goes on.
    have hpolling : a = .polling := by
      cases a with
      | ready => simpa [Bridge.step, Bridge.poll, hl] using hstuck (.poll 0) rfl
      | polling => rfl
      | received request =>
        have h := hstuck (.dispatch 0) rfl
        simp only [Bridge.step, Bridge.dispatch, hl] at h
        cases hfn : σ.stepFunctions request.stepType <;> simp [hfn] at h
      | calling request fn =>
        simpa [Bridge.step, Bridge.settle, Outcome.response, hl] using
          hstuck (.settle 0 (.resolved .null)) rfl
      | failed request => exact absurd (List.mem_of_getElem? hl) (hanswering request)
      | stopped => exact absurd rfl hne
    subst hpolling
    have hchannel : σ.channel = [] := by
      cases hc : σ.channel with
      | nil => rfl
      | cons request rest => simpa [Bridge.step, Bridge.recv, hl, hc] using hstuck (.recv 0) rfl
    refine ⟨hone, hchannel, ?_⟩
    intro c hc hsending
    obtain ⟨i, hi⟩ := List.mem_iff_getElem?.1 hc
    obtain ⟨request, state⟩ := c
    obtain rfl : state = .sending := hsending
    simpa [Bridge.step, Bridge.send, hi, hchannel, hcap] using hstuck (.send i) rfl

end Bridge

section OneLoop

variable {toRfc3339 : DateTime → String} {capacity : Nat} {inherited : String → Option F}
  {es : List (Event F)} {σ : Bridge F}

theorem filter_startsLoop_of_internal {fs : List (Event F)}
    (hfs : ∀ e ∈ fs, e.internal = true) : fs.filter Event.startsLoop = [] := by
  rw [List.filter_eq_nil_iff]
  intro e he
  have := hfs e he
  cases e <;> simp [Event.startsLoop, Event.internal] at this ⊢

theorem answering_of_run
    (h : Steps.run (Bridge.step toRfc3339 capacity) (.start inherited) es = some σ)
    (hreports : ∀ e ∈ es, e.reports = true) : σ.Answering := by
  refine Steps.run_induction
    (P := fun es σ => (∀ e ∈ es, e.reports = true) → Bridge.Answering σ) ?_ ?_ h hreports
  · intro _ r hr
    cases hr
  · intro es e σ σ' _ ih hstep hreports
    obtain ⟨hes, he⟩ := List.forall_mem_append.1 hreports
    exact (ih hes).step (he e (List.mem_singleton_self e)) hstep

/-- After a call that could not be reported the loop has ended without an answer. -/
theorem failed_of_run
    (h : Steps.run (Bridge.step toRfc3339 capacity) (.start inherited) es = some σ)
    (hone : (es.filter Event.startsLoop).length ≤ 1) (hnot : ¬∀ e ∈ es, e.reports = true) :
    ∃ r, σ.loops = [.failed r] := by
  refine Steps.run_induction (P := fun es σ => (es.filter Event.startsLoop).length ≤ 1 →
    (¬∀ e ∈ es, e.reports = true) → ∃ r, σ.loops = [.failed r]) ?_ ?_ h hone hnot
  · exact fun _ hnot => absurd (by simp) hnot
  · intro es e σ σ' hrun ih hstep hone hnot
    rw [List.filter_append, List.length_append] at hone
    by_cases hes : ∀ e ∈ es, e.reports = true
    · obtain ⟨-, horderly⟩ := orderly_of_run hrun (by omega)
      refine horderly.single.failed ?_ hstep
      by_contra he
      rw [Bool.not_eq_false] at he
      exact hnot (List.forall_mem_append.2 ⟨hes, List.forall_mem_singleton.2 he⟩)
    · obtain ⟨r, hfailed⟩ := ih (by omega) hes
      refine ⟨r, Bridge.failed_step hfailed (fun he => ?_) hstep⟩
      -- Another loop would be the second one.
      have hlength := length_loops hrun
      simp only [he, List.filter_cons_of_pos, List.filter_nil, List.length_singleton] at hone
      rw [hfailed, List.length_singleton] at hlength
      omega

/-- A loop gets on with its work: steps that happen by themselves use it up. -/
theorem work_run
    (h : Steps.run (Bridge.step toRfc3339 capacity) (.start inherited) es = some σ)
    (hone : (es.filter Event.startsLoop).length ≤ 1) {fs : List (Event F)} {σ' : Bridge F}
    (hfs : ∀ e ∈ fs, e.internal = true)
    (hrun : Steps.run (Bridge.step toRfc3339 capacity) σ fs = some σ') :
    fs.length + σ'.work ≤ σ.work := by
  induction fs using List.reverseRecOn generalizing σ' with
  | nil =>
    rw [Steps.run_nil, Option.some_inj] at hrun
    simp only [hrun, List.length_nil, Nat.zero_add, Nat.le_refl]
  | append_singleton fs e ih =>
    obtain ⟨σ₁, hfirst, hlast⟩ := Steps.exists_of_run_concat hrun
    have hfs' : ∀ e ∈ fs, e.internal = true := fun e he => hfs e (List.mem_append_left _ he)
    -- The loop is still the only one after the steps before the last.
    have hreach : Steps.run (Bridge.step toRfc3339 capacity) (.start inherited) (es ++ fs) =
        some σ₁ := (Steps.run_append_of_eq h).trans hfirst
    have hcount : ((es ++ fs).filter Event.startsLoop).length ≤ 1 := by
      rwa [List.filter_append, filter_startsLoop_of_internal hfs', List.append_nil]
    obtain ⟨-, horderly⟩ := orderly_of_run hreach hcount
    have hle := ih hfs' hfirst
    have hlt := Bridge.work_step horderly.single horderly.matched (hfs e (by simp)) hlast
    rw [List.length_append, List.length_singleton]
    omega

/-- **Everybody is answered.** If the executor loop is started once and the channel has room for a
request, then from every state that can be reached only so many steps can happen before the next
call of a step, whatever their order; and when none can, every caller has the answer to its own
request, exactly if no step function has thrown something without a message, which ends the
loop. -/
theorem all_answered
    (h : Steps.run (Bridge.step toRfc3339 capacity) (.start inherited) es = some σ)
    (hone : (es.filter Event.startsLoop).length = 1) (hcap : 0 < capacity) :
    (∀ fs σ', (∀ e ∈ fs, e.internal = true) →
        Steps.run (Bridge.step toRfc3339 capacity) σ fs = some σ' →
        fs.length + σ'.work ≤ σ.work) ∧
      ((∀ e : Event F, e.internal = true → Bridge.step toRfc3339 capacity σ e = none) →
        ((∀ c ∈ σ.callers, ∃ answer, c.state = .answered answer ∧ answer.request = c.request) ↔
          ∀ e ∈ es, e.reports = true)) := by
  refine ⟨fun fs σ' hfs hrun => work_run h (Nat.le_of_eq hone) hfs hrun, ?_⟩
  intro hstuck
  obtain ⟨-, horderly⟩ := orderly_of_run h (Nat.le_of_eq hone)
  refine ⟨fun hanswered => ?_, fun hreports c hc => ?_⟩
  · by_contra hnot
    -- The caller of the request that was not answered still waits.
    obtain ⟨r, hfailed⟩ := failed_of_run h (Nat.le_of_eq hone) hnot
    have hserved : r ∈ σ.serving := by
      rw [Bridge.serving_of_single hfailed]
      exact List.mem_singleton_self r
    have hwaits := horderly.matched.waiting r (List.mem_append_right _ hserved)
    obtain ⟨answer, hstate, -⟩ := hanswered _ (List.mem_of_getElem? hwaits)
    cases hstate
  · have hloop : σ.loops ≠ [] := by
      intro hnil
      have hlength := length_loops h
      rw [hnil, hone] at hlength
      cases hlength
    obtain ⟨hpolling, hchannel, hsent⟩ := horderly.single.idle (answering_of_run h hreports) hloop
      hcap hstuck
    have hown := owned_of_run h (Nat.le_of_eq hone) c hc
    cases hstate : c.state with
    | sending => exact absurd hstate (hsent c hc)
    | waiting =>
      have hmem := horderly.matched.listed c hc hstate
      rw [hchannel, Bridge.serving_of_single hpolling] at hmem
      cases hmem
    | answered answer =>
      rw [Caller.AnsweredOwn, hstate] at hown
      exact ⟨answer, rfl, hown.1⟩
    | dropped =>
      rw [Caller.AnsweredOwn, hstate] at hown
      exact hown.elim

/-- A run in which both callers are answered, and nothing is left to do. -/
theorem all_answered_oneLoop : ∃ σ : Bridge Nat,
    Steps.run (Bridge.step (fun _ => "") 256) (.start fun _ => none) oneLoop = some σ ∧
      (∀ fs σ', (∀ e ∈ fs, e.internal = true) →
          Steps.run (Bridge.step (fun _ => "") 256) σ fs = some σ' →
          fs.length + σ'.work ≤ σ.work) ∧
        ((∀ e : Event Nat, e.internal = true → Bridge.step (fun _ => "") 256 σ e = none) →
          ∀ c ∈ σ.callers, ∃ answer, c.state = .answered answer ∧
            answer.request = c.request) := by
  obtain ⟨σ, h⟩ := Option.isSome_iff_exists.1 isSome_oneLoop
  obtain ⟨hbounded, hanswered⟩ := all_answered h rfl (by decide)
  exact ⟨σ, h, hbounded, fun hstuck => (hanswered hstuck).2 (by decide)⟩

end OneLoop

end Wfe.Js
