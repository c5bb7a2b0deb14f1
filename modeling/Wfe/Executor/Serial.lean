import Wfe.Executor.PassCalls

/-!
# The passes of `execute`

The exchanges of `execute` tell which passes it makes: when every load of the instance returns
`w`, what `execute` writes is the end of a pass over `w`, and it writes the end of every such
pass. If it fails, a provider failed, or the pointer loop was left by an error.

## Main definitions

* `Writes x w w'`: the program `x` writes `w'` when it loads `w`
* `serial`: the monitor of a program that works on one instance

## Main results

* `execute_writes`: `execute` writes exactly the ends of passes
* `execute_fails`: the errors of `execute`
-/

namespace Wfe

open Program Provider

/-- The instance a call writes back. -/
@[simp] def Call.persists : Call → Option WorkflowInstance
  | .request (.persistWorkflow _ w) | .request (.persistWorkflowWithSubscriptions w _) => some w
  | _ => none

/-- A reply to expect while `w` is what the store holds. -/
def Call.loads (w : WorkflowInstance) : (c : Call) → c.Reply → Prop
  | .request (.getWorkflowInstance _), .ok w' => w' = w
  | .request (.getWorkflowInstanceByName _), .ok w' => w' = w
  | _, _ => True

/-- The error a request fails with. -/
def Call.raised : (c : Call) → c.Reply → Option WfeError
  | .request _, .error e => some e
  | _, _ => none

/-- `Writes x w w'`: loading `w`, the program `x` can write `w'`. -/
def Writes {α : Type} (x : Fallible α) (w w' : WorkflowInstance) : Prop :=
  ∃ tr r, Path x.run tr r ∧ (∀ y ∈ tr, y.1.loads w y.2) ∧
    ∃ y ∈ tr, y.1.persists = some w' ∧ y.1.raised y.2 = none

/-- The monitor of a program that loads `w`: everything it writes satisfies `P`, while requests
fail with errors in `R`. -/
def serial (w : WorkflowInstance) (P : WorkflowInstance → Prop) (R : WfeError → Prop) :
    Monitor Provider Unit where
  allow _ c r := c.loads w r ∧ ∀ e, c.raised r = some e → R e
  accept _ c := ∀ w', c.persists = some w' → P w'
  next _ _ _ := ()

section Serial

variable {α : Type} {w w' : WorkflowInstance} {P : WorkflowInstance → Prop} {R : WfeError → Prop}
  {E : WfeError → Prop}

/-- What a program writes satisfies what its monitor demands. -/
theorem Writes.of_meetsE {x : Fallible α} (hw : Writes x w w')
    (h : MeetsE (serial w P fun _ => True) (fun _ _ => True) (fun _ _ => True) x ()) : P w' := by
  obtain ⟨tr, r, hpath, hloads, y, hy, hy'⟩ := hw
  have hallows : (serial w P fun _ => True).Allows () tr :=
    Monitor.allows_unit.mpr fun y hy => ⟨hloads y hy, fun _ _ => trivial⟩
  exact Monitor.admits_unit.mp (Meets.path h hpath hallows).1 y hy w' hy'.1

/-- A program fails as its monitor says, as long as the providers do. -/
theorem fails_of_meetsE {x : Fallible α} {tr : List (Exchange Provider)} {e : WfeError}
    (hpath : Path x.run tr (.error e)) (hloads : ∀ y ∈ tr, y.1.loads w y.2)
    (hR : ∀ y ∈ tr, ∀ e, y.1.raised y.2 = some e → R e)
    (h : MeetsE (serial w P R) (fun _ _ => True) (fun _ e => E e) x ()) : E e := by
  have hallows : (serial w P R).Allows () tr :=
    Monitor.allows_unit.mpr fun y hy => ⟨hloads y hy, hR y hy⟩
  exact (Meets.path h hpath hallows).2

theorem serial_tell {c : Call} (hc : ∀ w', c.persists = some w' → P w') :
    MeetsE (serial w P R) (fun _ _ => True) (fun _ e => E e) (tell c) () :=
  ⟨hc, fun _ _ => trivial⟩

theorem serial_ask {q : Request} (hq : ∀ w', (Call.request q).persists = some w' → P w')
    (hE : ∀ e, R e → E e) :
    MeetsE (serial w P R) (fun _ _ => True) (fun _ e => E e) (ask q) () := by
  refine ⟨hq, fun r hr => ?_⟩
  cases r with
  | ok v => trivial
  | error e => exact hE e (hr.2 e rfl)

theorem serial_load {id : String} (hE : ∀ e, R e → E e) :
    MeetsE (serial w P R) (fun _ v => v = w) (fun _ e => E e) (getWorkflowInstance id) () := by
  refine ⟨by simp [serial], fun r hr => ?_⟩
  cases r with
  | ok v => exact hr.1
  | error e => exact hE e (hr.2 e rfl)

theorem persists_of_quiet {c : Call} (h : c.quiet) : c.persists = none := by
  cases c with
  | request q => cases q <;> first | rfl | cases h
  | _ => rfl

theorem serial_keeps {c : Call} (h : c.quiet) : (serial w P R).Keeps (fun _ => True) c :=
  fun _ _ => ⟨fun w' h' => absurd (h'.symm.trans (persists_of_quiet h)) (by simp),
    fun _ _ => trivial⟩

end Serial

/-! ## What `execute` writes -/

section Execute

variable {definition : WorkflowDefinition} {resolve : StepResolver} {host : Option HostContext}
  {w : WorkflowInstance} {P : WorkflowInstance → Prop} {R E : WfeError → Prop}

theorem serial_checkCompletion (workflowId : String) (v : WorkflowInstance) :
    MeetsE (serial w P R)
      (fun _ v' => ∃ t, { v' with nextExecution := nextExecutionOf v' } = concluded t v)
      (fun _ e => E e) (checkCompletion workflowId v) () := by
  unfold checkCompletion
  split_ifs with hdone
  · have hconcluded (t : DateTime) : ∃ t', ({ { v with status := .complete, completeTime := some t }
        with nextExecution :=
          nextExecutionOf { v with status := .complete, completeTime := some t } }
        : WorkflowInstance) = concluded t' v := ⟨t, by rw [concluded, if_pos hdone]⟩
    simp [-bind_pure_comp, completeWorkflow, serial, hconcluded]
  · exact ⟨0, by simp [concluded, hdone]⟩

theorem serial_finishPass (workflowId : String) (st : PassState)
    (hP : ∀ t, P (concluded t st.workflow)) (hE : ∀ e, R e → E e) :
    MeetsE (serial w P R) (fun _ _ => True) (fun _ e => E e) (finishPass workflowId st) () := by
  refine (serial_checkCompletion workflowId st.workflow).bind ?_
  rintro _ v ⟨t, hv⟩
  dsimp only
  rw [hv]
  have hpersist : MeetsE (serial w P R) (fun _ _ => True) (fun _ e => E e)
      (persistPass (concluded t st.workflow) st.allSubscriptions) () := by
    unfold persistPass
    split_ifs <;>
    · exact serial_ask (by simpa using hP t) hE
  refine hpersist.bind fun _ _ _ => ?_
  have herrors : MeetsE (serial w P R) (fun _ _ => True) (fun _ e => E e)
      (reportErrors st.executionErrors) () := by
    unfold reportErrors
    split_ifs
    · trivial
    · exact serial_ask (by simp) hE
  refine herrors.bind fun _ _ _ => ?_
  unfold requeue
  split_ifs
  · exact serial_ask (by simp) hE
  · trivial

theorem serial_executeInner (hhost : HostContext.Starts host w.id) :
    MeetsE (serial w (fun w' => ∃ ran, Pass definition resolve host w ran w') R) (fun _ _ => True)
      (fun _ e => R e ∨ ∃ now,
        Aborts definition resolve host w.id { workflow := w } (runnableIndices w now) e)
      (executeInner w.id definition resolve host) () := by
  refine (serial_load fun _ => .inl).bind ?_
  rintro _ v rfl
  split_ifs with hr
  · refine (serial_tell (by simp)).bind ?_
    rintro _ env -
    refine meetsE_bind.mpr ((meetsE_pointerLoop (N := fun _ => True) (A := fun _ => True) hhost
      trivial (fun _ => serial_keeps) ?_ ?_ _ _).mono ?_ ?_)
    · rintro _ v - -
      simp [serial]
    · rintro _ e -
      exact ⟨by simp [serial], fun _ _ => trivial⟩
    · rintro _ st ⟨-, ran, hloop⟩
      exact serial_finishPass v.id st (fun t => ⟨ran, hr, env.now, t, st, hloop, rfl⟩)
        fun _ => .inl
    · rintro _ e ⟨-, habort⟩
      exact .inr ⟨env.now, habort⟩
  · trivial

/-- However the lock is released, what comes next is what counts. -/
theorem serial_release {α : Type} {k : Except WfeError Unit → Fallible α}
    (hk : ∀ r, MeetsE (serial w P R) (fun _ _ => True) (fun _ e => E e) (k r) ()) :
    MeetsE (serial w P R) (fun _ _ => True) (fun _ e => E e)
      (attempt (releaseLock w.id) >>= k) () := by
  have hunlock : MeetsE (serial w P R) (fun _ _ => True) (fun _ _ => True) (releaseLock w.id) () :=
    serial_ask (by simp) fun _ _ => trivial
  exact meetsE_attempt_bind hunlock (fun _ _ _ => hk _) fun _ _ _ => hk _

/-- What `execute` does with the instance it loads, whatever the providers reply else. -/
theorem serial_execute (hhost : HostContext.Starts host w.id) :
    MeetsE (serial w (fun w' => ∃ ran, Pass definition resolve host w ran w') R) (fun _ _ => True)
      (fun _ e => R e ∨ ∃ now,
        Aborts definition resolve host w.id { workflow := w } (runnableIndices w now) e)
      (execute w.id definition resolve host) () := by
  unfold execute
  refine (serial_ask (by simp) fun _ => .inl).bind ?_
  rintro _ acquired -
  split_ifs
  -- A failing release is only reported: the result of the pass is returned either way.
  · refine meetsE_attempt_bind (serial_executeInner hhost) ?_ ?_
    · rintro _ _ -
      refine serial_release fun r => ?_
      cases r with
      | ok => trivial
      | error => exact (serial_tell (by simp)).bind fun _ _ _ => trivial
    · intro _ e he
      refine serial_release fun r => ?_
      cases r with
      | ok => exact he
      | error => exact (serial_tell (by simp)).bind fun _ _ _ => he
  · exact serial_tell (by simp)

/-- If `execute` fails, a provider failed or the pointer loop was left by an error. -/
theorem execute_fails (hhost : HostContext.Starts host w.id) {tr : List (Exchange Provider)}
    {e : WfeError} (hpath : Path (execute w.id definition resolve host).run tr (.error e))
    (hloads : ∀ y ∈ tr, y.1.loads w y.2) :
    (∃ y ∈ tr, y.1.raised y.2 = some e) ∨ ∃ now,
      Aborts definition resolve host w.id { workflow := w } (runnableIndices w now) e :=
  fails_of_meetsE (R := fun e => ∃ y ∈ tr, y.1.raised y.2 = some e) hpath hloads
    (fun y hy _ he => ⟨y, hy, he⟩) (serial_execute hhost)

/-! ### Every pass can be executed -/

/-- `Returns x w a`: loading `w`, the program `x` can return `a`. -/
def Returns {α : Type} (x : Fallible α) (w : WorkflowInstance) (a : α) : Prop :=
  ∃ tr, Path x.run tr (.ok a) ∧ ∀ y ∈ tr, y.1.loads w y.2

namespace Returns

variable {α β : Type} {w : WorkflowInstance} {x : Fallible α} {f : α → Fallible β} {a : α} {b : β}

theorem pure (a : α) : Returns (Pure.pure a) w a := ⟨[], .ret _, by simp⟩

theorem bind (hx : Returns x w a) (hf : Returns (f a) w b) : Returns (x >>= f) w b := by
  obtain ⟨tr, hpath, hloads⟩ := hx
  obtain ⟨tr', hpath', hloads'⟩ := hf
  exact ⟨tr ++ tr', path_bindE hpath hpath',
    fun y hy => (List.mem_append.mp hy).elim (hloads y) (hloads' y)⟩

theorem tell (c : Call) (r : c.Reply) (h : c.loads w r) : Returns (Provider.tell c) w r :=
  ⟨[⟨c, r⟩], .call _ _ _ _ _ (.ret _), by simpa using h⟩

theorem ask (q : Request) (v : q.Value) (h : (Call.request q).loads w (.ok v)) :
    Returns (Provider.ask q) w v :=
  ⟨[⟨.request q, .ok v⟩], .call _ _ _ _ _ (.ret _), by simpa using h⟩

theorem attempt (hx : Returns x w a) : Returns (Provider.attempt x) w (.ok a) := by
  obtain ⟨tr, hpath, hloads⟩ := hx
  exact ⟨tr, path_liftE hpath, hloads⟩

theorem writes {w' : WorkflowInstance} (hx : Returns x w a) (hf : Writes (f a) w w') :
    Writes (x >>= f) w w' := by
  obtain ⟨tr, hpath, hloads⟩ := hx
  obtain ⟨tr', r, hpath', hloads', y, hy, hw'⟩ := hf
  exact ⟨tr ++ tr', r, path_bindE hpath hpath',
    fun y hy => (List.mem_append.mp hy).elim (hloads y) (hloads' y),
    y, List.mem_append_right _ hy, hw'⟩

end Returns

/-- A request that writes `w'`, and a continuation that can return. -/
theorem Writes.ask {α : Type} {w w' : WorkflowInstance} {q : Request} {v : q.Value}
    {f : q.Value → Fallible α} {a : α} (hq : (Call.request q).persists = some w')
    (hloads : (Call.request q).loads w (.ok v)) (hf : Returns (f v) w a) :
    Writes (Provider.ask q >>= f) w w' := by
  obtain ⟨tr, hpath, htr⟩ := hf
  refine ⟨⟨.request q, .ok v⟩ :: tr, .ok a, .call _ _ _ _ _ hpath, ?_, _, List.mem_cons_self, hq,
    rfl⟩
  exact fun y hy => (List.mem_cons.mp hy).elim (fun h => h ▸ hloads) (htr y)

theorem Writes.attempt {α β : Type} {w w' : WorkflowInstance} {x : Fallible α}
    {f : Except WfeError α → Fallible β} (hx : Writes x w w')
    (hf : ∀ r, ∃ tr r', Path (f r).run tr r' ∧ ∀ y ∈ tr, y.1.loads w y.2) :
    Writes (Provider.attempt x >>= f) w w' := by
  obtain ⟨tr, r, hpath, hloads, y, hy, hw'⟩ := hx
  obtain ⟨tr', r', hpath', hloads'⟩ := hf r
  exact ⟨tr ++ tr', r', path_bindE (path_liftE hpath) hpath',
    fun y hy => (List.mem_append.mp hy).elim (hloads y) (hloads' y),
    y, List.mem_append_left _ hy, hw'⟩

theorem loopMonitor_allows {workflowId : String} (phase : LoopPhase)
    (tr : List (Exchange Provider)) : (loopMonitor workflowId).Allows phase tr := by
  induction tr generalizing phase with
  | nil => trivial
  | cons y tr ih => exact ⟨trivial, ih _⟩

theorem loads_of_loop {phase : LoopPhase} {workflowId : String} {tr : List (Exchange Provider)}
    (h : (loopMonitor workflowId).Admits phase tr) : ∀ y ∈ tr, y.1.loads w y.2 := by
  induction tr generalizing phase with
  | nil => simp
  | cons y tr ih =>
    obtain ⟨hy, htr⟩ := h
    rintro z hz
    rcases List.mem_cons.mp hz with rfl | hz
    · obtain ⟨c, r⟩ := z
      cases phase with
      | running =>
        rcases hy with hc | ⟨v, -, rfl⟩ | ⟨e, rfl⟩
        · cases c with
          | request q => cases q <;> trivial
          | _ => trivial
        · trivial
        · trivial
      | starting child =>
        obtain rfl : c = .request (.queueWork child .workflow) := hy
        trivial
      | aborted => cases hy
    · exact ih htr z hz

/-- A body that can end with `r` does so without loading anything. -/
theorem Yields.returns (hhost : HostContext.Starts host w.id) {body : StepBody}
    {context : StepExecutionContext} {r : Except WfeError ExecutionResult}
    (h : Yields host body context r) :
    Returns (ExceptT.lift (StepM.runOn host (body context))) w r := by
  obtain ⟨tr, htr⟩ := h
  have hmeets : Meets (loopMonitor w.id) (fun phase _ => phase = .running)
      (StepM.runOn host (body context)) .running := by
    refine meets_translate rfl ?_
    rintro c _ rfl
    exact stepCall_loop hhost c
  exact ⟨tr, path_liftE htr, loads_of_loop (hmeets.path htr (loopMonitor_allows _ _)).1⟩

theorem Round.returns (hhost : HostContext.Starts host w.id) {st st' : PassState} {idx : Nat}
    {ran : List Ran} (h : Round definition resolve host w.id st idx ran st') :
    Returns (runPointer w.id definition resolve host st idx) w st' := by
  unfold runPointer
  cases h with
  | absent h =>
    rw [h]
    exact .pure st
  | skipped env pointer step h =>
    rw [h]
    exact (Returns.tell .ambient env trivial).bind (.pure _)
  | returned env env' pointer step body result h hbody =>
    rw [h]
    exact (Returns.tell .ambient env trivial).bind
      ((Returns.tell (.publishLifecycle _) () trivial).bind ((hbody.returns hhost).bind
        ((Returns.tell (.publishLifecycle _) () trivial).bind
          ((Returns.tell .ambient env' trivial).bind (.pure _)))))
  | failed env env' pointer step body e h hbody =>
    rw [h]
    refine (Returns.tell .ambient env trivial).bind
      ((Returns.tell (.publishLifecycle _) () trivial).bind ((hbody.returns hhost).bind
        ((Returns.tell (.publishLifecycle _) () trivial).bind
          ((Returns.tell .ambient env' trivial).bind ?_))))
    dsimp only
    split_ifs
    · exact (Returns.tell (.publishLifecycle _) () trivial).bind (.pure _)
    · exact .pure _

theorem Loop.returns (hhost : HostContext.Starts host w.id) {st st' : PassState}
    {indices : List Nat} {ran : List Ran}
    (h : Loop definition resolve host w.id st indices ran st') :
    Returns (indices.foldlM (runPointer w.id definition resolve host) st) w st' := by
  induction h with
  | nil st => exact .pure st
  | cons hround _ ih =>
    rw [List.foldlM_cons]
    exact (hround.returns hhost).bind ih

theorem checkCompletion_returns (t : DateTime) (v : WorkflowInstance) :
    ∃ v', Returns (checkCompletion w.id v) w v' ∧
      { v' with nextExecution := nextExecutionOf v' } = concluded t v := by
  unfold checkCompletion
  split_ifs with hdone
  · refine ⟨_, (Returns.tell .ambient ⟨t, fun _ => ""⟩ trivial).bind
      ((Returns.tell (.publishLifecycle _) () trivial).bind
        ((Returns.tell .ambient default trivial).bind
          ((Returns.ask (.createEvent _) "" trivial).attempt.bind
            ((Returns.ask (.queueWork _ _) () trivial).attempt.bind (.pure _))))), ?_⟩
    rw [concluded, if_pos hdone]
  · exact ⟨v, .pure v, by rw [concluded, if_neg hdone]⟩

theorem finishPass_writes (t : DateTime) (st : PassState) :
    Writes (finishPass w.id st) w (concluded t st.workflow) := by
  obtain ⟨v, hv, hconcluded⟩ := checkCompletion_returns (w := w) t st.workflow
  refine hv.writes ?_
  dsimp only
  rw [hconcluded]
  have hrest : Returns (do
      reportErrors st.executionErrors
      requeue w.id (concluded t st.workflow)) w () := by
    refine Returns.bind (a := ()) ?_ ?_
    · unfold reportErrors
      split_ifs
      · exact .pure ()
      · exact .ask (.persistErrors _) () trivial
    · unfold requeue
      split_ifs
      · exact .ask (.queueWork _ _) () trivial
      · exact .pure ()
  unfold persistPass
  split_ifs
  · exact .ask (q := .persistWorkflow .execute _) (v := ()) rfl trivial hrest
  · exact .ask (q := .persistWorkflowWithSubscriptions _ _) (v := ()) rfl trivial hrest

/-- Loading `w`, `execute` writes exactly the ends of the passes over `w`. -/
theorem execute_writes (hhost : HostContext.Starts host w.id) (w' : WorkflowInstance) :
    Writes (execute w.id definition resolve host) w w' ↔
      ∃ ran, Pass definition resolve host w ran w' := by
  refine ⟨fun h => h.of_meetsE ((serial_execute hhost).mono (fun _ _ h => h) fun _ _ _ => trivial),
    ?_⟩
  rintro ⟨ran, hr, now, t, st, hloop, rfl⟩
  refine (Returns.ask (.acquireLock .execute w.id) true trivial).writes ?_
  refine .attempt ?_ fun r => ?_
  · refine (Returns.ask (.getWorkflowInstance w.id) w rfl).writes ?_
    rw [if_pos hr]
    refine (Returns.tell .ambient ⟨now, fun _ => ""⟩ trivial).writes ?_
    exact (hloop.returns hhost).writes (finishPass_writes t st)
  · exact ⟨[⟨.request (.releaseLock w.id), .ok ()⟩], r, .call _ _ _ _ _ (.ret _),
      by simp [Call.loads]⟩

end Execute

end Wfe
