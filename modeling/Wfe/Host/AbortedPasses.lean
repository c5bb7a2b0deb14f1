import Wfe.Executor.BodyResults
import Wfe.Host.History

/-!
# Aborted passes

A missing step, an unregistered step type or a condition that cannot be evaluated ends a pass at
once. The pass writes the instance only at its end, so what the bodies did that ran before is lost.
Nothing is lost exactly when these bodies asked for nothing new; no body has run at all exactly when
the first pointer that is not skipped is the one that aborts the pass.

## Main definitions

* `RunsBody`: a body that is run to its end along the calls of a pass
* `FirstAborts`: the pass is aborted before any body is run

## Main results

* `Loop.skips_iff`: when a loop that is left by an error has run no body
* `RunsBody.pointer`: a body is run at its pointer as the instance holds it
* `execute_aborted`: what an aborted pass loses
-/

namespace Wfe

open Program Provider

/-- The pointer is skipped. -/
def PointerCheck.skips : PointerCheck → Bool
  | .skip _ _ => true
  | _ => false

/-- The pass is aborted. -/
def PointerCheck.aborts : PointerCheck → Bool
  | .abort _ => true
  | _ => false

/-- The first check that is not a skip. -/
def firstCheck (definition : WorkflowDefinition) (resolve : StepResolver) (w : WorkflowInstance)
    (indices : List Nat) : Option PointerCheck :=
  (indices.map (examinePointer definition resolve w)).find? fun check => !check.skips

/-- Of the pointers that are runnable, the first one that is not skipped aborts the pass. -/
def FirstAborts (definition : WorkflowDefinition) (resolve : StepResolver) (w : WorkflowInstance)
    (now : DateTime) : Prop :=
  (firstCheck definition resolve w (runnableIndices w now)).any PointerCheck.aborts = true

instance (definition : WorkflowDefinition) (resolve : StepResolver) (w : WorkflowInstance)
    (now : DateTime) : Decidable (FirstAborts definition resolve w now) :=
  inferInstanceAs (Decidable (_ = true))

/-- A body has run. -/
def Ran.isBody : Ran → Bool
  | .skipped _ => false
  | _ => true

/-- The call made right before a body is run. -/
def Call.startsBody : Call → Bool
  | .publishLifecycle ⟨_, _, _, .stepStarted _ _⟩ => true
  | _ => false

section Runs

variable (definition : WorkflowDefinition) (resolve : StepResolver) (host : Option HostContext)

/-- From the state `st` of the pointer loop, the calls `tr` start with those that run `b`: the body
is announced, makes its own calls, and its end is announced. -/
def RunsAt (st : PassState) (tr : List (Exchange Provider)) (b : BodyRun) : Prop :=
  ∃ step body own ended rest,
    examinePointer definition resolve st.workflow b.index = .run b.pointer step body ∧
    Path (StepM.runOn host (body (stepContext definition host step (startPointer b.before b.pointer)
      (st.started b.before b.index b.pointer).workflow))) own b.outcome ∧
    tr = ⟨.ambient, b.before⟩ ::
      ⟨.publishLifecycle (lifecycleOf (st.started b.before b.index b.pointer).workflow
        (.stepStarted step.id step.name)), ()⟩ ::
      (own ++ ⟨.publishLifecycle ended, ()⟩ :: ⟨.ambient, b.after⟩ :: rest)

/-- Along the calls `tr` of the pointer loop over `indices`, the body `b` is run to its end, when
the pointers before it have had their turns. -/
def LoopRuns (workflowId : String) (st : PassState) (indices : List Nat)
    (tr : List (Exchange Provider)) (b : BodyRun) : Prop :=
  ∃ done later before st' after, indices = done ++ b.index :: later ∧ tr = before ++ after ∧
    Path (done.foldlM (runPointer workflowId definition resolve host) st).run before (.ok st') ∧
    RunsAt definition resolve host st' after b

/-- Along the calls `tr` of a pass over `w`, the body `b` is run to its end. The pass takes the
lock, loads `w` and reads the clock before its pointer loop. -/
def RunsBody (w : WorkflowInstance) (tr : List (Exchange Provider)) (b : BodyRun) : Prop :=
  ∃ acquired loaded env calls, tr = acquired :: loaded :: ⟨.ambient, env⟩ :: calls ∧
    LoopRuns definition resolve host w.id { workflow := w } (runnableIndices w env.now) calls b

end Runs

section Rounds

variable {definition : WorkflowDefinition} {resolve : StepResolver} {host : Option HostContext}
  {workflowId : String} {st st' : PassState} {idx : Nat} {indices done rest : List Nat}
  {ran : List Ran} {w w' : WorkflowInstance} {e : WfeError}

theorem examinePointer_congr (hpointer : w'.executionPointers[idx]? = w.executionPointers[idx]?)
    (hdata : w'.data = w.data) :
    examinePointer definition resolve w' idx = examinePointer definition resolve w idx := by
  unfold examinePointer
  rw [hpointer, hdata]

/-- Skipping a pointer does not change what is found at the others. -/
theorem examinePointer_skipPointer (env : Ambient) (step : WorkflowStep)
    (pointer : ExecutionPointer) {i : Nat} (hne : i ≠ idx)
    (hlt : idx < w.executionPointers.length) :
    examinePointer definition resolve (skipPointer env definition step pointer i w) idx =
      examinePointer definition resolve w idx := by
  refine examinePointer_congr ?_ rfl
  simp only [skipPointer, WorkflowInstance.pushPointers, WorkflowInstance.setPointer]
  rw [List.getElem?_append_left (by simpa using hlt), List.getElem?_set_ne hne]

theorem length_skipPointer (env : Ambient) (step : WorkflowStep) (pointer : ExecutionPointer)
    (i : Nat) : w.executionPointers.length ≤
      (skipPointer env definition step pointer i w).executionPointers.length := by
  simp [skipPointer, WorkflowInstance.pushPointers, WorkflowInstance.setPointer]

theorem firstCheck_congr (h : ∀ i ∈ indices,
    examinePointer definition resolve w' i = examinePointer definition resolve w i) :
    firstCheck definition resolve w' indices = firstCheck definition resolve w indices := by
  rw [firstCheck, List.map_congr_left h, firstCheck]

theorem firstCheck_cons_of_skips
    (h : (examinePointer definition resolve w idx).skips = true) :
    firstCheck definition resolve w (idx :: indices) = firstCheck definition resolve w indices := by
  simp [firstCheck, h]

theorem firstCheck_cons_of_not_skips
    (h : (examinePointer definition resolve w idx).skips = false) :
    firstCheck definition resolve w (idx :: indices) =
      some (examinePointer definition resolve w idx) := by
  simp [firstCheck, h]

/-- A round in which a body has run found it to be run. -/
theorem Round.run_of_isBody (h : Round definition resolve host workflowId st idx ran st')
    (hbody : ∃ x ∈ ran, x.isBody = true) : ∃ pointer step body,
      examinePointer definition resolve st.workflow idx = .run pointer step body := by
  cases h with
  | absent => simp at hbody
  | skipped => simp [Ran.isBody] at hbody
  | returned env env' pointer step body result h => exact ⟨pointer, step, body, h⟩
  | failed env env' pointer step body e h => exact ⟨pointer, step, body, h⟩

/-- A loop that is left by an error has run no body exactly if the first pointer that is not skipped
aborts it. -/
theorem Loop.skips_iff (h : Loop definition resolve host workflowId st done ran st')
    (habort : examinePointer definition resolve st'.workflow idx = .abort e)
    (hnodup : (done ++ idx :: rest).Nodup)
    (hlt : ∀ i ∈ done ++ idx :: rest, i < st.workflow.executionPointers.length) :
    (∀ r ∈ ran, r.isBody = false) ↔
      (firstCheck definition resolve st.workflow (done ++ idx :: rest)).any
        PointerCheck.aborts = true := by
  induction h with
  | nil st =>
    rw [List.nil_append, firstCheck_cons_of_not_skips (by rw [habort]; rfl), habort]
    simp [PointerCheck.aborts]
  | cons hround hloop ih =>
    rename_i st st₁ st₂ i done ran rans
    rw [List.cons_append, List.nodup_cons] at hnodup
    obtain ⟨hi, hnodup⟩ := hnodup
    have hlt' : ∀ j ∈ done ++ idx :: rest, j < st.workflow.executionPointers.length :=
      fun j hj => hlt j (List.mem_cons_of_mem _ hj)
    rw [List.cons_append]
    -- Skipping a pointer changes nothing the later checks depend on; a body ends the search.
    cases hround with
    | absent h =>
      have hget := List.getElem?_eq_getElem (hlt i List.mem_cons_self)
      simp [examinePointer_eq_absent h] at hget
    | skipped env pointer step h =>
      have hsame : ∀ j ∈ done ++ idx :: rest,
          examinePointer definition resolve
            (skipPointer env definition step pointer i st.workflow) j =
            examinePointer definition resolve st.workflow j := fun j hj =>
        examinePointer_skipPointer env step pointer (fun heq => hi (heq ▸ hj)) (hlt' j hj)
      have ih := ih habort hnodup fun j hj =>
        Nat.lt_of_lt_of_le (hlt' j hj) (length_skipPointer env step pointer i)
      rw [firstCheck_cons_of_skips (by rw [h]; rfl), ← firstCheck_congr hsame, ← ih]
      simp [Ran.isBody]
    | returned env env' pointer step body result h | failed env env' pointer step body e h =>
      rw [firstCheck_cons_of_not_skips (by rw [h]; rfl), h]
      simp [Ran.isBody, PointerCheck.aborts]

end Rounds

/-! ## The calls of an aborted pass -/

section Paths

variable {definition : WorkflowDefinition} {resolve : StepResolver} {host : Option HostContext}
  {workflowId : String} {st : PassState} {idx : Nat} {indices : List Nat} {w : WorkflowInstance}
  {e : WfeError} {tr : List (Exchange Provider)}

/-- What the loop may do writes no instance. -/
theorem persists_of_loop {phase : LoopPhase}
    (h : (loopMonitor workflowId).Admits phase tr) : ∀ y ∈ tr, y.1.persists = none := by
  induction tr generalizing phase with
  | nil => simp
  | cons y tr ih =>
    obtain ⟨hy, htr⟩ := h
    rintro z hz
    rcases List.mem_cons.mp hz with rfl | hz
    · -- Neither a quiet call nor the start of a child workflow writes an instance that exists.
      cases phase with
      | running =>
        rcases hy with hc | ⟨v, -, hc⟩ | ⟨e, hc⟩
        · exact persists_of_quiet hc
        · rw [hc]
          rfl
        · rw [hc]
          rfl
      | starting child =>
        rw [show z.1 = .request (.queueWork child .workflow) from hy]
        rfl
      | aborted => cases hy
    · exact ih htr z hz

theorem persists_of_body (hhost : HostContext.Starts host workflowId) {body : StepBody}
    {context : StepExecutionContext} {r : Except WfeError ExecutionResult}
    (h : Path (StepM.runOn host (body context)) tr r) : ∀ y ∈ tr, y.1.persists = none := by
  have hmeets : Meets (loopMonitor workflowId) (fun phase _ => phase = .running)
      (StepM.runOn host (body context)) .running := by
    refine meets_translate rfl ?_
    rintro c _ rfl
    exact stepCall_loop hhost c
  exact persists_of_loop (hmeets.path h (loopMonitor_allows _ _)).1

/-- The paths of a round: it announces the bodies it runs, and writes nothing. -/
theorem runPointer_path (hhost : HostContext.Starts host workflowId)
    {r : Except WfeError PassState}
    (h : Path (runPointer workflowId definition resolve host st idx).run tr r) :
    (∀ y ∈ tr, y.1.persists = none) ∧
    ((∃ ran st', r = .ok st' ∧ Round definition resolve host workflowId st idx ran st' ∧
        ((∃ y ∈ tr, y.1.startsBody = true) ↔ ∃ x ∈ ran, x.isBody = true)) ∨
      ∃ e, r = .error e ∧ examinePointer definition resolve st.workflow idx = .abort e ∧
        ∀ y ∈ tr, y.1.startsBody = false) := by
  unfold runPointer at h
  split at h
  · next hcheck =>
    obtain ⟨rfl, rfl⟩ := path_ret.mp h
    exact ⟨by simp, .inl ⟨[], st, rfl, .absent hcheck, by simp⟩⟩
  · next e hcheck =>
    -- The three early returns: nothing but the diagnostic is left behind.
    obtain ⟨_, tr, rfl, hthrow⟩ := path_tell_bind.mp h
    obtain ⟨rfl, rfl⟩ := path_ret.mp hthrow
    exact ⟨by simp, .inr ⟨e, rfl, hcheck, by simp [Call.startsBody]⟩⟩
  · next pointer step hcheck =>
    obtain ⟨env, tr, rfl, hret⟩ := path_tell_bind.mp h
    obtain ⟨rfl, rfl⟩ := path_ret.mp hret
    exact ⟨by simp, .inl ⟨_, _, rfl, .skipped env pointer step hcheck,
      by simp [Call.startsBody, Ran.isBody]⟩⟩
  · next pointer step body hcheck =>
    obtain ⟨env, tr, rfl, hpublish⟩ := path_tell_bind.mp h
    obtain ⟨_, tr, rfl, hrun⟩ := path_tell_bind.mp hpublish
    obtain ⟨tr₁, stepResult, tr₂, rfl, hbody, hrest⟩ := path_liftE_bind.mp hrun
    -- A body is announced before it runs, and it cannot write instances itself.
    have hpersists := persists_of_body hhost hbody
    cases stepResult with
    | ok result =>
      obtain ⟨_, tr, rfl, hclock⟩ := path_tell_bind.mp hrest
      obtain ⟨env', tr, rfl, hret⟩ := path_tell_bind.mp hclock
      obtain ⟨rfl, rfl⟩ := path_ret.mp hret
      have hround : Round definition resolve host workflowId _ _ _ _ :=
        .returned env env' pointer step body result hcheck ⟨tr₁, hbody⟩
      refine ⟨?_, .inl ⟨_, _, rfl, hround, by simp [Call.startsBody, lifecycleOf, Ran.isBody]⟩⟩
      simp only [List.forall_mem_cons, List.forall_mem_append]
      exact ⟨rfl, rfl, hpersists, rfl, rfl, by simp⟩
    | error e =>
      obtain ⟨_, tr, rfl, hclock⟩ := path_tell_bind.mp hrest
      obtain ⟨env', tr, rfl, hstatus⟩ := path_tell_bind.mp hclock
      have hround : Round definition resolve host workflowId _ _ _ _ :=
        .failed env env' pointer step body e hcheck ⟨tr₁, hbody⟩
      split_ifs at hstatus
      · obtain ⟨_, tr, rfl, hret⟩ := path_tell_bind.mp hstatus
        obtain ⟨rfl, rfl⟩ := path_ret.mp hret
        refine ⟨?_, .inl ⟨_, _, rfl, hround, by simp [Call.startsBody, lifecycleOf, Ran.isBody]⟩⟩
        simp only [List.forall_mem_cons, List.forall_mem_append]
        exact ⟨rfl, rfl, hpersists, rfl, rfl, rfl, by simp⟩
      · obtain ⟨rfl, rfl⟩ := path_ret.mp hstatus
        refine ⟨?_, .inl ⟨_, _, rfl, hround, by simp [Call.startsBody, lifecycleOf, Ran.isBody]⟩⟩
        simp only [List.forall_mem_cons, List.forall_mem_append]
        exact ⟨rfl, rfl, hpersists, rfl, rfl, by simp⟩

/-- The paths of the pointer loop that end with an error. -/
theorem pointerLoop_path (hhost : HostContext.Starts host workflowId)
    (h : Path (indices.foldlM (runPointer workflowId definition resolve host) st).run tr
      (.error e)) :
    (∀ y ∈ tr, y.1.persists = none) ∧ ∃ done idx rest ran st', indices = done ++ idx :: rest ∧
      Loop definition resolve host workflowId st done ran st' ∧
      examinePointer definition resolve st'.workflow idx = .abort e ∧
      ((∃ y ∈ tr, y.1.startsBody = true) ↔ ∃ x ∈ ran, x.isBody = true) := by
  induction indices generalizing st tr with
  | nil => cases (path_ret.mp h).2
  | cons i indices ih =>
    rw [List.foldlM_cons] at h
    rcases path_bindE_iff.mp h with ⟨tr₁, st₁, tr₂, rfl, h₁, h₂⟩ | ⟨e', h₁, heq⟩
    · obtain ⟨hpersists, ⟨ran, st', heq, hround, hstarts⟩ | ⟨e', heq, -⟩⟩ :=
        runPointer_path hhost h₁
      · cases heq
        -- A round that ends well, followed by the round that aborts.
        obtain ⟨hpersists', done, idx, rest, rans, st', rfl, hloop, habort, hstarts'⟩ := ih h₂
        refine ⟨fun y hy => (List.mem_append.mp hy).elim (hpersists y) (hpersists' y),
          i :: done, idx, rest, ran ++ rans, st', rfl, .cons hround hloop, habort, ?_⟩
        simp only [List.mem_append, or_and_right, exists_or, hstarts, hstarts']
      · cases heq
    · cases heq
      obtain ⟨hpersists, ⟨ran, st', heq, -⟩ | ⟨e', heq, habort, hstarts⟩⟩ :=
        runPointer_path hhost h₁
      · cases heq
      · cases heq
        refine ⟨hpersists, [], i, indices, [], st, rfl, .nil st, habort, ?_⟩
        refine ⟨fun ⟨y, hy, hstart⟩ => ?_, fun ⟨x, hx, _⟩ => absurd hx List.not_mem_nil⟩
        rw [hstarts y hy] at hstart
        cases hstart

/-! ## The bodies that are run -/

/-- A round over a pointer whose body is to be run runs it to its end. -/
theorem runsAt_of_run (h : Path (runPointer workflowId definition resolve host st idx).run tr r)
    {pointer : ExecutionPointer} {step : WorkflowStep} {body : StepBody}
    (hcheck : examinePointer definition resolve st.workflow idx = .run pointer step body) :
    ∃ b, b.index = idx ∧ RunsAt definition resolve host st tr b := by
  unfold runPointer at h
  rw [hcheck] at h
  obtain ⟨env, tr, rfl, hpublish⟩ := path_tell_bind.mp h
  obtain ⟨_, tr, rfl, hrun⟩ := path_tell_bind.mp hpublish
  obtain ⟨own, outcome, tr, rfl, hbody, hrest⟩ := path_liftE_bind.mp hrun
  cases outcome with
  | ok result =>
    obtain ⟨_, tr, rfl, hclock⟩ := path_tell_bind.mp hrest
    obtain ⟨env', tr, rfl, -⟩ := path_tell_bind.mp hclock
    exact ⟨⟨idx, pointer, env, env', .ok result⟩, rfl, step, body, own, _, tr, hcheck, hbody, rfl⟩
  | error e =>
    obtain ⟨_, tr, rfl, hclock⟩ := path_tell_bind.mp hrest
    obtain ⟨env', tr, rfl, -⟩ := path_tell_bind.mp hclock
    exact ⟨⟨idx, pointer, env, env', .error e⟩, rfl, step, body, own, _, tr, hcheck, hbody, rfl⟩

theorem RunsAt.append {b : BodyRun} (h : RunsAt definition resolve host st tr b)
    (tr' : List (Exchange Provider)) : RunsAt definition resolve host st (tr ++ tr') b := by
  obtain ⟨step, body, own, ended, rest, hcheck, hbody, rfl⟩ := h
  exact ⟨step, body, own, ended, rest ++ tr', hcheck, hbody, by simp⟩

/-- The loop runs the body of its first pointer. -/
theorem runsAt_of_loop {r : Except WfeError PassState}
    (h : Path ((idx :: indices).foldlM (runPointer workflowId definition resolve host) st).run tr r)
    {pointer : ExecutionPointer} {step : WorkflowStep} {body : StepBody}
    (hcheck : examinePointer definition resolve st.workflow idx = .run pointer step body) :
    ∃ b, b.index = idx ∧ RunsAt definition resolve host st tr b := by
  rw [List.foldlM_cons] at h
  rcases path_bindE_iff.mp h with ⟨tr₁, st', tr₂, rfl, hround, -⟩ | ⟨e', hround, -⟩
  · obtain ⟨b, hb, hruns⟩ := runsAt_of_run hround hcheck
    exact ⟨b, hb, hruns.append tr₂⟩
  · exact runsAt_of_run hround hcheck

theorem LoopRuns.append {b : BodyRun}
    (h : LoopRuns definition resolve host workflowId st indices tr b)
    (tr' : List (Exchange Provider)) :
    LoopRuns definition resolve host workflowId st indices (tr ++ tr') b := by
  obtain ⟨done, later, before, st', after, hindices, rfl, hpath, hruns⟩ := h
  exact ⟨done, later, before, st', after ++ tr', hindices, List.append_assoc .., hpath,
    hruns.append tr'⟩

theorem LoopRuns.cons {st' : PassState} {tr' : List (Exchange Provider)} {b : BodyRun}
    (hround : Path (runPointer workflowId definition resolve host st idx).run tr' (.ok st'))
    (h : LoopRuns definition resolve host workflowId st' indices tr b) :
    LoopRuns definition resolve host workflowId st (idx :: indices) (tr' ++ tr) b := by
  obtain ⟨done, later, before, st₂, after, rfl, rfl, hpath, hruns⟩ := h
  refine ⟨idx :: done, later, tr' ++ before, st₂, after, rfl, (List.append_assoc ..).symm, ?_,
    hruns⟩
  rw [List.foldlM_cons]
  exact path_bindE hround hpath

/-- A body that is announced in the loop is run to its end. -/
theorem loopRuns_of_started (hhost : HostContext.Starts host workflowId)
    {r : Except WfeError PassState}
    (h : Path (indices.foldlM (runPointer workflowId definition resolve host) st).run tr r)
    (hstarts : ∃ y ∈ tr, y.1.startsBody = true) :
    ∃ b, LoopRuns definition resolve host workflowId st indices tr b := by
  induction indices generalizing st tr with
  | nil =>
    obtain ⟨y, hy, -⟩ := hstarts
    rw [(path_ret.mp h).1] at hy
    cases hy
  | cons i indices ih =>
    rw [List.foldlM_cons] at h
    rcases path_bindE_iff.mp h with ⟨tr₁, st₁, tr₂, rfl, h₁, h₂⟩ | ⟨e, h₁, -⟩
    · by_cases hfirst : ∃ y ∈ tr₁, y.1.startsBody = true
      · obtain ⟨-, ⟨ran, st', heq, hround, hbody⟩ | ⟨e, heq, -⟩⟩ := runPointer_path hhost h₁
        · obtain ⟨pointer, step, body, hcheck⟩ := hround.run_of_isBody (hbody.mp hfirst)
          obtain ⟨b, rfl, hruns⟩ := runsAt_of_run h₁ hcheck
          exact ⟨b, [], indices, [], st, _, rfl, rfl, .ret _, hruns.append tr₂⟩
        · cases heq
      · -- The body belongs to a later round.
        obtain ⟨y, hy, hstart⟩ := hstarts
        rcases List.mem_append.mp hy with hy | hy
        · exact absurd ⟨y, hy, hstart⟩ hfirst
        · obtain ⟨b, hruns⟩ := ih h₂ ⟨y, hy, hstart⟩
          exact ⟨b, hruns.cons h₁⟩
    · obtain ⟨y, hy, hstart⟩ := hstarts
      obtain ⟨-, ⟨ran, st', heq, -⟩ | ⟨e', -, -, hquiet⟩⟩ := runPointer_path hhost h₁
      · cases heq
      · rw [hquiet y hy] at hstart
        cases hstart

theorem LoopRuns.started {b : BodyRun}
    (h : LoopRuns definition resolve host workflowId st indices tr b) :
    ∃ y ∈ tr, y.1.startsBody = true := by
  obtain ⟨done, later, before, st', after, -, rfl, -, step, body, own, ended, rest, -, -, rfl⟩ := h
  exact ⟨_, List.mem_append_right _ (List.mem_cons_of_mem _ List.mem_cons_self), rfl⟩

/-- The paths of the pointer loop that end well are loops. -/
theorem loop_of_path (hhost : HostContext.Starts host workflowId) {st' : PassState}
    (h : Path (indices.foldlM (runPointer workflowId definition resolve host) st).run tr
      (.ok st')) : ∃ ran, Loop definition resolve host workflowId st indices ran st' := by
  induction indices generalizing st tr with
  | nil =>
    obtain ⟨-, ⟨⟩⟩ := path_ret.mp h
    exact ⟨[], .nil _⟩
  | cons i indices ih =>
    rw [List.foldlM_cons] at h
    rcases path_bindE_iff.mp h with ⟨tr₁, st₁, tr₂, rfl, h₁, h₂⟩ | ⟨e, -, heq⟩
    · obtain ⟨-, ⟨ran, st₂, heq, hround, -⟩ | ⟨e, heq, -⟩⟩ := runPointer_path hhost h₁
      · cases heq
        obtain ⟨rans, hloop⟩ := ih h₂
        exact ⟨_, .cons hround hloop⟩
      · cases heq
    · cases heq

/-- The loop leaves the pointers alone that it is not over. -/
theorem getElem?_of_loop (hhost : HostContext.Starts host workflowId) {st' : PassState}
    (h : Path (indices.foldlM (runPointer workflowId definition resolve host) st).run tr (.ok st'))
    (hlt : ∀ i ∈ indices, i < st.workflow.executionPointers.length) (hidx : idx ∉ indices)
    {p : ExecutionPointer} (hp : st.workflow.executionPointers[idx]? = some p) :
    st'.workflow.executionPointers[idx]? = some p := by
  obtain ⟨ran, hloop⟩ := loop_of_path hhost h
  obtain ⟨turns, hturns, rfl, -⟩ := hloop.exists_turns hlt
  exact hturns.getElem? (fun t ht heq => hidx (heq ▸ List.mem_map_of_mem ht)) hp

/-- A loop over one pointer fails only if that pointer aborts it. -/
theorem abort_of_loop (hhost : HostContext.Starts host workflowId)
    (h : Path ([idx].foldlM (runPointer workflowId definition resolve host) st).run tr
      (.error e)) : examinePointer definition resolve st.workflow idx = .abort e := by
  obtain ⟨-, done, i, rest, ran, st', hindices, hloop, habort, -⟩ := pointerLoop_path hhost h
  cases done with
  | nil =>
    cases hindices
    cases hloop
    exact habort
  | cons j done => simp at hindices

/-- A body is run at its pointer as the instance holds it, which is runnable. -/
theorem RunsBody.pointer (hhost : HostContext.Starts host w.id) {b : BodyRun}
    (h : RunsBody definition resolve host w tr b) :
    w.executionPointers[b.index]? = some b.pointer ∧
      ∃ now, isPointerRunnable b.pointer now = true := by
  obtain ⟨_, _, env, calls, -, done, later, before, st, after, hindices, -, hpath, step, body, -, -,
    -, hcheck, -⟩ := h
  have hmem (i : Nat) (hi : i ∈ done ++ b.index :: later) := mem_runnableIndices (hindices ▸ hi)
  obtain ⟨p, hp, hrunnable⟩ := hmem b.index (by simp)
  -- The pointers before it are others.
  have hnodup : (done ++ b.index :: later).Nodup := hindices ▸ List.nodup_range.filter _
  have hother : b.index ∉ done := fun hdone =>
    (List.nodup_append.mp hnodup).2.2 _ hdone _ List.mem_cons_self rfl
  have hsame := getElem?_of_loop hhost hpath (fun i hi => by
    obtain ⟨p, hp, -⟩ := hmem i (List.mem_append_left _ hi)
    exact (List.getElem?_eq_some_iff.mp hp).1) hother hp
  obtain rfl : b.pointer = p :=
    Option.some_inj.mp ((examinePointer_eq_run hcheck).1.symm.trans hsame)
  exact ⟨hp, env.now, hrunnable⟩

/-! ## Aborted passes -/

/-- Once its pointers have had their turns, a pass fails with the error of a provider only. -/
theorem raised_of_finishPass (h : Path (finishPass workflowId st).run tr (.error e))
    (hloads : ∀ y ∈ tr, y.1.loads w y.2) : ∃ y ∈ tr, y.1.raised y.2 = some e :=
  fails_of_meetsE (P := fun _ => True) (R := fun e => ∃ y ∈ tr, y.1.raised y.2 = some e) h hloads
    (fun y hy _ he => ⟨y, hy, he⟩) (serial_finishPass workflowId st (fun _ => trivial) fun _ h => h)

/-- A pass that ends with an error no provider has raised ends in its pointer loop. -/
theorem executeInner_path (h : Path (executeInner w.id definition resolve host).run tr (.error e))
    (hloads : ∀ y ∈ tr, y.1.loads w y.2) (hraised : ∀ y ∈ tr, y.1.raised y.2 ≠ some e) :
    ∃ env calls,
      tr = ⟨.request (.getWorkflowInstance w.id), .ok w⟩ :: ⟨.ambient, env⟩ :: calls ∧
      Path ((runnableIndices w env.now).foldlM (runPointer w.id definition resolve host)
        { workflow := w }).run calls (.error e) := by
  rcases path_bindE_iff.mp h with ⟨tr₁, v, tr₂, rfl, hload, hpass⟩ | ⟨e', hload, heq⟩
  · obtain rfl := path_ask.mp hload
    obtain rfl : v = w := hloads _ List.mem_cons_self
    split_ifs at hpass with hr
    · obtain ⟨env, tr, rfl, hloop⟩ := path_tell_bind.mp hpass
      rcases path_bindE_iff.mp hloop with ⟨tr₁, st, tr₂, rfl, hloop, hfinish⟩ | ⟨e', hloop, heq⟩
      · -- After the loop only providers fail.
        obtain ⟨y, hy, he⟩ := raised_of_finishPass hfinish fun y hy => hloads y (by simp [hy])
        exact absurd he (hraised y (by simp [hy]))
      · cases heq
        exact ⟨env, tr, rfl, hloop⟩
    · cases (path_ret.mp hpass).2
  · cases heq
    obtain rfl := path_ask.mp hload
    exact absurd rfl (hraised _ List.mem_cons_self)

/-- Releasing the lock does not change the result. -/
theorem release_path {result r : Except WfeError Unit}
    (h : Path (do
      if let .error _ ← attempt (releaseLock workflowId) then trace (.releaseFailed workflowId)
      ExceptT.mk (pure result) : Fallible Unit).run tr r) :
    r = result ∧ ∀ y ∈ tr, y.1.persists = none ∧ y.1.startsBody = false ∧
      ∀ id queue, y.1 ≠ .request (.queueWork id queue) := by
  rcases path_bindE_iff.mp h with ⟨tr₁, released, tr₂, rfl, hrelease, hrest⟩ | ⟨e', hrelease, -⟩
  · obtain ⟨_, heq, hrelease⟩ := path_attempt.mp hrelease
    cases heq
    obtain rfl := path_ask.mp hrelease
    cases released with
    | ok _ =>
      obtain ⟨rfl, rfl⟩ := path_ret.mp hrest
      exact ⟨rfl, by simp [Call.startsBody]⟩
    | error e =>
      obtain ⟨_, tr, rfl, hret⟩ := path_tell_bind.mp hrest
      obtain ⟨rfl, rfl⟩ := path_ret.mp hret
      exact ⟨rfl, by simp [Call.startsBody]⟩
  · obtain ⟨_, heq, -⟩ := path_attempt.mp hrelease
    cases heq

end Paths

section Aborted

variable {definition : WorkflowDefinition} {resolve : StepResolver} {host : Option HostContext}
  {w : WorkflowInstance} {tr : List (Exchange Provider)} {e : WfeError}

/-- `execute` fails with an error that no provider has raised in its pointer loop only; what
follows is the release of the lock. -/
theorem execute_path (hpath : Path (execute w.id definition resolve host).run tr (.error e))
    (hloads : ∀ y ∈ tr, y.1.loads w y.2) (hraised : ∀ y ∈ tr, y.1.raised y.2 ≠ some e) :
    ∃ env calls after,
      tr = ⟨.request (.acquireLock .execute w.id), .ok true⟩ ::
        ⟨.request (.getWorkflowInstance w.id), .ok w⟩ :: ⟨.ambient, env⟩ :: (calls ++ after) ∧
      Path ((runnableIndices w env.now).foldlM (runPointer w.id definition resolve host)
        { workflow := w }).run calls (.error e) ∧
      ∀ y ∈ after, y.1.persists = none ∧ y.1.startsBody = false := by
  rcases path_bindE_iff.mp hpath with ⟨tr₁, acquired, tr₂, rfl, hlock, hpass⟩ | ⟨e', hlock, heq⟩
  · obtain rfl := path_ask.mp hlock
    split_ifs at hpass with hacquired
    · obtain rfl : acquired = true := hacquired
      rcases path_bindE_iff.mp hpass with
        ⟨tr₁, result, tr₂, rfl, hinner, hrelease⟩ | ⟨e', hinner, -⟩
      · obtain ⟨_, heq, hinner⟩ := path_attempt.mp hinner
        cases heq
        -- The lock is released, and the error of the pass returned.
        obtain ⟨rfl, hcalls⟩ := release_path hrelease
        obtain ⟨env, calls, rfl, hloop⟩ := executeInner_path hinner
          (fun y hy => hloads y (by simp [hy])) fun y hy => hraised y (by simp [hy])
        exact ⟨env, calls, tr₂, by simp, hloop, fun y hy => ⟨(hcalls y hy).1, (hcalls y hy).2.1⟩⟩
      · obtain ⟨_, heq, -⟩ := path_attempt.mp hinner
        cases heq
    · obtain ⟨_, heq, -⟩ := path_liftE_iff.mp hpass
      cases heq
  · cases heq
    obtain rfl := path_ask.mp hlock
    exact absurd rfl (hraised _ List.mem_cons_self)

/-- An aborted pass writes nothing. -/
theorem execute_persists (hhost : HostContext.Starts host w.id)
    (hpath : Path (execute w.id definition resolve host).run tr (.error e))
    (hloads : ∀ y ∈ tr, y.1.loads w y.2) (hraised : ∀ y ∈ tr, y.1.raised y.2 ≠ some e) :
    ∀ y ∈ tr, y.1.persists = none := by
  obtain ⟨env, calls, after, rfl, hloop, hafter⟩ := execute_path hpath hloads hraised
  obtain ⟨hpersists, -⟩ := pointerLoop_path hhost hloop
  simp only [List.forall_mem_cons, List.forall_mem_append]
  exact ⟨rfl, rfl, rfl, hpersists, fun y hy => (hafter y hy).1⟩

/-- An aborted pass has run no body exactly if the first pointer that is not skipped aborts it. -/
theorem execute_runsBody (hhost : HostContext.Starts host w.id)
    (hpath : Path (execute w.id definition resolve host).run tr (.error e))
    (hloads : ∀ y ∈ tr, y.1.loads w y.2) (hraised : ∀ y ∈ tr, y.1.raised y.2 ≠ some e) :
    ∃ env, tr[2]? = some ⟨.ambient, env⟩ ∧
      ((∀ b, ¬RunsBody definition resolve host w tr b) ↔
        FirstAborts definition resolve w env.now) := by
  obtain ⟨env, calls, after, rfl, hloop, hafter⟩ := execute_path hpath hloads hraised
  refine ⟨env, rfl, ?_⟩
  obtain ⟨-, done, idx, rest, ran, st', hindices, hrounds, habort, hstarts⟩ :=
    pointerLoop_path hhost hloop
  have hnodup : (done ++ idx :: rest).Nodup := hindices ▸ List.nodup_range.filter _
  -- What has run in the loop decides whether the first pointer in turn aborts it.
  have hskips := hrounds.skips_iff habort hnodup fun i hi => by
    obtain ⟨p, hp, -⟩ := mem_runnableIndices (hindices ▸ hi)
    exact (List.getElem?_eq_some_iff.mp hp).1
  rw [FirstAborts, hindices, ← hskips]
  have hnone : (∀ x ∈ ran, x.isBody = false) ↔ ¬∃ y ∈ calls, y.1.startsBody = true := by
    rw [hstarts]
    simp only [not_exists, not_and, Bool.not_eq_true]
  rw [hnone, ← not_exists]
  refine not_congr ⟨?_, fun hstarts => ?_⟩
  · rintro ⟨b, _, _, _, _, heq, hruns⟩
    cases heq
    obtain ⟨y, hy, hstart⟩ := hruns.started
    rcases List.mem_append.mp hy with hy | hy
    · exact ⟨y, hy, hstart⟩
    · rw [(hafter y hy).2] at hstart
      cases hstart
  · obtain ⟨b, hruns⟩ := loopRuns_of_started hhost hloop hstarts
    exact ⟨b, _, _, env, _, rfl, hruns.append after⟩

end Aborted

/-- **An aborted pass loses what it has done.** If `execute` fails with an error that no provider
has raised, it has written nothing. Of the bodies it has run, none has a result that is missing
exactly if all of them have run before and ask for nothing new; and it has run none exactly if the
first runnable pointer that is not skipped is at a step that is missing, of a type that is not
registered, or with a condition that cannot be evaluated. -/
theorem execute_aborted (definition : WorkflowDefinition) (resolve : StepResolver)
    (host : Option HostContext) (w : WorkflowInstance) (hhost : HostContext.Starts host w.id)
    (tr : List (Exchange Provider)) (e : WfeError)
    (hpath : Path (execute w.id definition resolve host).run tr (.error e))
    (hloads : ∀ y ∈ tr, y.1.loads w y.2) (hraised : ∀ y ∈ tr, y.1.raised y.2 ≠ some e) :
    (∀ y ∈ tr, y.1.persists = none) ∧
    ((∀ b, RunsBody definition resolve host w tr b → b.KeptIn definition w []) ↔
      ∀ b, RunsBody definition resolve host w tr b → ∃ result, b.Repeats definition w result) ∧
    ∃ env, tr[2]? = some ⟨.ambient, env⟩ ∧
      ((∀ b, ¬RunsBody definition resolve host w tr b) ↔
        FirstAborts definition resolve w env.now) := by
  refine ⟨execute_persists hhost hpath hloads hraised, ?_,
    execute_runsBody hhost hpath hloads hraised⟩
  refine forall₂_congr fun b hruns => ?_
  obtain ⟨hpointer, now, hrunnable⟩ := hruns.pointer hhost
  exact BodyRun.keptIn_iff_repeats hpointer hrunnable

/-! ## A pass that is aborted -/

/-- The replies of providers that grant every request, with `w` in the store. -/
def granting (w : WorkflowInstance) : (c : Call) → c.Reply
  | .ambient => default
  | .external _ => .null
  | .trace _ | .publishLifecycle _ => ()
  | .request q => .ok <| match q with
    | .acquireLock _ _ => true
    | .dequeueWork _ => none
    | .createNewWorkflow _ | .createEvent _ => ""
    | .getWorkflowInstance _ | .getWorkflowInstanceByName _ => w
    | .nextDefinitionSequence _ => 0
    | .getEvent _ => ⟨"", "", "", .null, 0, false⟩
    | .getSubscriptions _ _ _ => []
    | .provision _ _ => []
    | .releaseLock _ | .queueWork _ _ | .persistWorkflow _ _
    | .persistWorkflowWithSubscriptions _ _ | .persistErrors _ | .markEventProcessed _
    | .terminateSubscription _ | .teardown _ => ()

theorem granting_loads (w : WorkflowInstance) (c : Call) : c.loads w (granting w c) := by
  cases c with
  | request q => cases q <;> trivial
  | _ => trivial

theorem granting_raised (w : WorkflowInstance) (c : Call) : c.raised (granting w c) = none := by
  cases c <;> rfl

/-- The pass of `execute` over `w`, with these replies. -/
def grantedPass (definition : WorkflowDefinition) (resolve : StepResolver) (w : WorkflowInstance) :
    List (Exchange Provider) × Except WfeError Unit :=
  (execute w.id definition resolve none).run.answeredBy (granting w)

/-- This pass fails. -/
def grantedPassFails (definition : WorkflowDefinition) (resolve : StepResolver)
    (w : WorkflowInstance) : Bool := (grantedPass definition resolve w).2 matches .error _

theorem grantedPass_path (definition : WorkflowDefinition) (resolve : StepResolver)
    (w : WorkflowInstance) (h : grantedPassFails definition resolve w = true) :
    ∃ e, Path (execute w.id definition resolve none).run (grantedPass definition resolve w).1
        (.error e) ∧ (∀ y ∈ (grantedPass definition resolve w).1, y.1.loads w y.2) ∧
      ∀ y ∈ (grantedPass definition resolve w).1, y.1.raised y.2 = none := by
  have hpath := path_answeredBy (granting w) (execute w.id definition resolve none).run
  cases hr : (grantedPass definition resolve w).2 with
  | ok v => simp [grantedPassFails, hr] at h
  | error e =>
    rw [grantedPass] at hr
    rw [hr] at hpath
    refine ⟨e, hpath, fun y hy => ?_, fun y hy => ?_⟩
    · rw [mem_answeredBy hy]
      exact granting_loads w y.1
    · rw [mem_answeredBy hy]
      exact granting_raised w y.1

/-- Two steps side by side, the second one of a type that is not registered. -/
def halfRegistered : WorkflowDefinition :=
  { WorkflowDefinition.new "half" 1 with
    steps := [
      { WorkflowStep.new 0 sequenceKey with children := [1, 2] },
      WorkflowStep.new 1 "step",
      WorkflowStep.new 2 "missing"] }

def halfBodies : StepResolver := fun stepType =>
  if stepType = "missing" then none else proceeding stepType

/-- The granted pass reads the default clock. -/
theorem grantedPass_clock {definition : WorkflowDefinition} {resolve : StepResolver}
    {w : WorkflowInstance} {env : Ambient}
    (h : (grantedPass definition resolve w).1[2]? = some ⟨.ambient, env⟩) : env = default :=
  mem_answeredBy (List.mem_of_getElem? h)

/-- What a step without effects returns. -/
theorem runOn_pure {result : ExecutionResult} {tr : List (Exchange Provider)}
    {r : Except WfeError ExecutionResult}
    (h : Path (StepM.runOn none (pure result)) tr r) : r = .ok result :=
  (path_ret.mp h).2

/-- The first step is run and proceeds, then the pass is aborted at the second one: nothing is
written, and the step is still pending in the instance. -/
theorem body_lost : ∃ w tr e b, Reachable halfRegistered w ∧
    Path (execute w.id halfRegistered halfBodies none).run tr (.error e) ∧
    (∀ y ∈ tr, y.1.loads w y.2) ∧ (∀ y ∈ tr, y.1.raised y.2 = none) ∧
    (∀ y ∈ tr, y.1.persists = none) ∧ RunsBody halfRegistered halfBodies none w tr b ∧
    b.outcome = .ok .next ∧ ¬b.KeptIn halfRegistered w [] := by
  obtain ⟨changes, w, hlives, hw⟩ := Simulation.history_any (d := halfRegistered)
    (w := startOf halfRegistered) (l := [.pass halfBodies "a"])
    (f := fun _ w => grantedPassFails halfRegistered halfBodies w = true ∧
      runnableIndices w (default : Ambient).now = [0, 1, 2] ∧
      (examinePointer halfRegistered halfBodies w 0).aborts = false ∧
      ∃ p ∈ w.executionPointers, w.executionPointers[1]? = some p ∧ p.stepId = 1 ∧
        p.status = .pending)
    (by decide)
  obtain ⟨hr, hindices, hfirst, p, -, hp, hstep, hpending⟩ := of_decide_eq_true hw
  obtain ⟨e, hpath, hloads, hraised⟩ := grantedPass_path _ _ w hr
  have hraised' : ∀ y ∈ (grantedPass halfRegistered halfBodies w).1, y.1.raised y.2 ≠ some e :=
    fun y hy => by simp [hraised y hy]
  have hhost : HostContext.Starts none w.id := by rintro _ ⟨⟩
  have hpersists := execute_persists hhost hpath hloads hraised'
  obtain ⟨env, calls, after, htr, hloop, -⟩ := execute_path hpath hloads hraised'
  obtain rfl : env = default := grantedPass_clock (by rw [htr]; rfl)
  rw [hindices, show [0, 1, 2] = [0] ++ [1, 2] from rfl, List.foldlM_append] at hloop
  rcases path_bindE_iff.mp hloop with ⟨tr₁, st, tr₂, rfl, hcontainer, hrest⟩ | ⟨e', hcontainer, -⟩
  · -- The container has had its turn, and the pointer of the first step is as before.
    have hsame := getElem?_of_loop hhost hcontainer (fun i hi => by
      rw [List.mem_singleton.mp hi]
      exact Nat.lt_of_succ_lt (List.getElem?_eq_some_iff.mp hp).1) (by simp) hp
    have hcheck : examinePointer halfRegistered halfBodies st.workflow 1 =
        .run p (WorkflowStep.new 1 "step") proceedBody := by
      unfold examinePointer
      rw [hsame]
      dsimp only
      rw [hstep]
      rfl
    obtain ⟨b, hb, hruns⟩ := runsAt_of_loop hrest hcheck
    have hbody := hruns
    obtain ⟨step, body, own, ended, rest, hcheck', hown, -⟩ := hbody
    rw [hb, hcheck] at hcheck'
    cases hcheck'
    have houtcome : b.outcome = .ok .next := runOn_pure hown
    refine ⟨w, _, e, b, ⟨_, startOf_started _, hlives.evolves⟩, hpath, hloads, hraised, hpersists,
      ⟨_, _, default, _, htr, ?_⟩, houtcome, fun hkept => ?_⟩
    · rw [hindices, List.append_assoc]
      exact ⟨[0], [2], tr₁, st, tr₂ ++ after, by rw [hb]; rfl, rfl, hcontainer, hruns.append after⟩
    · have hpointer := hkept.pointer
      rw [hb, hp, BodyRun.result, houtcome] at hpointer
      have hcomplete := congrArg ExecutionPointer.status (Option.some_inj.mp hpointer)
      rw [hpending] at hcomplete
      cases hcomplete
  · -- The container does not abort the pass.
    rw [abort_of_loop hhost hcontainer] at hfirst
    cases hfirst

/-- A step that always asks to be run again, with the same data. -/
def pausingBody : StepBody := fun _ => pure (.persist .null)

/-- One host has all steps, and the other one lacks the second. -/
def pausing (lacks : Bool) : StepResolver := fun stepType =>
  if lacks ∧ stepType = "missing" then none else some pausingBody

/-- The steps are run again and ask for nothing new before the pass is aborted, so nothing is
lost. -/
theorem execute_aborted_repeats : ∃ w tr e, Reachable halfRegistered w ∧
    Path (execute w.id halfRegistered (pausing true) none).run tr (.error e) ∧
    (∀ y ∈ tr, y.1.persists = none) ∧
    (∃ b, RunsBody halfRegistered (pausing true) none w tr b) ∧
    ∀ b, RunsBody halfRegistered (pausing true) none w tr b → b.KeptIn halfRegistered w [] := by
  obtain ⟨changes, w, hlives, hw⟩ := Simulation.history_any (d := halfRegistered)
    (w := startOf halfRegistered) (l := [.pass (pausing false) "b", .pass proceeding "a"])
    (f := fun _ w => grantedPassFails halfRegistered (pausing true) w = true ∧
      ¬FirstAborts halfRegistered (pausing true) w (default : Ambient).now ∧
      ∀ p ∈ w.executionPointers, p.startTime.isSome ∧ p.status = .running ∧
        p.persistenceData = some .null)
    (by decide)
  obtain ⟨hr, hfirst, hrunning⟩ := of_decide_eq_true hw
  obtain ⟨e, hpath, hloads, hraised⟩ := grantedPass_path _ _ w hr
  have hhost : HostContext.Starts none w.id := by rintro _ ⟨⟩
  obtain ⟨hpersists, hkept, env, henv, hnone⟩ := execute_aborted halfRegistered (pausing true) none
    w hhost _ e hpath hloads fun y hy => by simp [hraised y hy]
  refine ⟨w, _, e, ⟨_, startOf_started _, hlives.evolves⟩, hpath, hpersists, ?_,
    hkept.mpr fun b hruns => ?_⟩
  · obtain rfl := grantedPass_clock henv
    exact not_forall_not.mp fun hall => hfirst (hnone.mp hall)
  · have hpointer := (hruns.pointer hhost).1
    obtain ⟨hstart, hstatus, hdata⟩ := hrunning _ (List.mem_of_getElem? hpointer)
    obtain ⟨_, _, _, _, -, _, _, _, st, _, -, -, -, step, body, own, _, _, hcheck, hown, -⟩ := hruns
    have hbody : body = pausingBody := by
      have hresolve := (examinePointer_eq_run hcheck).2.2.1
      unfold pausing at hresolve
      split_ifs at hresolve
      exact (Option.some_inj.mp hresolve).symm
    rw [hbody] at hown
    exact ⟨.persist .null, runOn_pure hown, hstart, rfl, rfl,
      .stay rfl rfl rfl rfl hstatus fun _ => hdata⟩

end Wfe
