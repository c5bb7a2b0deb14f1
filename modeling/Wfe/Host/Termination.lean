import Wfe.Host.WorkflowHost

/-!
# Termination is final

`terminate_workflow` reads an instance, marks it terminated and writes it back, without taking
its lock; so do `suspend_workflow`, `resume_workflow` and `inject_service_endpoints`, and a pass
or the delivery of an event writes back, under the lock, a copy it has loaded before. Nothing
compares versions, so a copy loaded before the termination overwrites it.

An operation that loads the instance after the termination never does: what it then writes is
terminated as well. Termination is therefore final when no other operation is about to write an
older copy at the moment `terminate_workflow` writes.

## Main definitions

* `final`, `RespectsTermination`: programs that write an instance they find terminated only as
  terminated
* `Exclusive`: the steps under which termination is final

## Main results

* `operation_final`: every operation respects terminations it finds
* `terminated_final`: a workflow that was terminated stays so along exclusive steps
* `termination_overwritten`: a pass in progress overwrites the termination
-/

namespace Wfe

open Program Provider

namespace Final

/-- The replies to expect: loads return the instance asked for, and once `id` is over, they
return it as terminated and no new instance gets its id. -/
@[simp] def allow (id : String) (past : Prop) : (c : Call) → c.Reply → Prop
  | .request (.getWorkflowInstance id'), .ok w =>
    w.id = id' ∧ (past → w.id = id → w.status = .terminated)
  | .request (.getWorkflowInstanceByName _), .ok w => past → w.id = id → w.status = .terminated
  | .request (.createNewWorkflow _), .ok id' => past → id' ≠ id
  | _, _ => True

/-- Once `id` is over, it is written only as terminated. -/
@[simp] def accept (id : String) (past : Prop) : Call → Prop
  | .request (.persistWorkflow .terminate w) => w.status = .terminated
  | .request (.persistWorkflow _ w) | .request (.persistWorkflowWithSubscriptions w _) =>
    past → w.id = id → w.status = .terminated
  | _ => True

/-- `terminate_workflow` makes an end of `id`. -/
@[simp] def next (id : String) (past : Prop) : (c : Call) → c.Reply → Prop
  | .request (.persistWorkflow .terminate w), .ok _ => w.id = id ∨ past
  | _, _ => past

end Final

/-- Watches what is done to `id` once it is terminated. -/
def final (id : String) : Monitor Provider Prop where
  allow := Final.allow id
  accept := Final.accept id
  next := Final.next id

/-- As long as it finds `id` terminated, the program writes it only as terminated. -/
def RespectsTermination (id : String) (p : Action Outcome) : Prop :=
  p.Meets (final id) (fun _ _ => True) True

section Operations

variable {id : String} {past : Prop}

@[simp] theorem final_allow (c : Call) (r : c.Reply) :
    (final id).allow past c r = Final.allow id past c r := rfl

@[simp] theorem final_accept (c : Call) : (final id).accept past c = Final.accept id past c := rfl

@[simp] theorem final_next (c : Call) (r : c.Reply) :
    (final id).next past c r = Final.next id past c r := rfl

theorem final_quiet {c : Call} (h : c.quiet) :
    (final id).accept past c ∧ ∀ r, (final id).next past c r = past := by
  cases c with
  | request q => cases q <;> first | exact ⟨trivial, fun r => by cases r <;> rfl⟩ | cases h
  | trace d => cases h
  | _ => exact ⟨trivial, fun _ => rfl⟩

theorem child_final {N : Prop → Prop} (w : WorkflowInstance) (h : N past) :
    MeetsE (final id) (fun past _ => N past) (fun past _ => N past)
      (createNewWorkflow w >>= fun id => queueWork id .workflow) past := by
  simpa using ⟨fun _ _ => h, h⟩

theorem executeInner_final (workflowId : String) (definition : WorkflowDefinition)
    (h : WorkflowHost) :
    MeetsE (final id) (fun _ _ => True) (fun _ _ => True)
      (executeInner workflowId definition h.stepRegistry.resolve (some h.hostContext)) past := by
  refine meetsE_executeInner (N := fun past => past → workflowId ≠ id)
    (C := fun w past => w.id = workflowId ∧ (past → workflowId ≠ id)) (S := fun _ _ => True)
    (D := fun _ => True) (F := fun _ => True)
    (h.hostContext_starts workflowId) ?_ ?_ ?_ ?_ ?_ ?_ ?_ ?_ ?_
  · simp
    grind
  · intro c hc past hpast
    exact ⟨(final_quiet hc).1, fun r _ => by rwa [(final_quiet hc).2]⟩
  · intro past w hpast _
    exact child_final (N := fun past => past → workflowId ≠ id) w hpast
  · simp
  · intro past w hpast hid
    simpa [-bind_pure_comp, completeWorkflow, hid] using hpast
  · intro past w hpast hid _
    exact ⟨hid, hpast⟩
  · rintro past w subs ⟨rfl, hpast⟩
    unfold persistPass
    split_ifs <;> simpa using fun h hid => absurd hid (hpast h)
  · simp
  · intro past w _
    unfold requeue
    split_ifs <;> simp

theorem execute_final (workflowId : String) (definition : WorkflowDefinition) (h : WorkflowHost) :
    MeetsE (final id) (fun _ _ => True) (fun _ _ => True)
      (execute workflowId definition h.stepRegistry.resolve (some h.hostContext)) past := by
  simpa [execute] using executeInner_final workflowId definition h

theorem consumeWorkflow_final (h : WorkflowHost) :
    MeetsE (final id) (fun _ _ => True) (fun _ _ => True) (consumeWorkflow h) past := by
  refine meetsE_consumeWorkflow (N := fun _ => True) ?_ ?_ ?_ trivial
  · intro c hc past _
    refine ⟨?_, fun _ _ => trivial⟩
    cases c with
    | request q => cases q <;> trivial
    | _ => trivial
  · intro workflowId endpoints past _
    simp [injectServiceEndpoints]
  · intro workflowId definition past _
    exact execute_final workflowId definition h

theorem deliverAll_final (eventId : String) (event : Event) (subs : List EventSubscription) :
    MeetsE (final id) (fun _ _ => True) (fun _ _ => True) (deliverAll eventId event subs)
      past := by
  induction subs with
  | nil => simp [deliverAll]
  | cons sub subs ih => simp [-bind_pure_comp, deliverAll, deliver, ih]

theorem consumeEvent_final :
    MeetsE (final id) (fun _ _ => True) (fun _ _ => True) consumeEvent past := by
  simp [consumeEvent]
  rintro (_ | eventId)
  · simp
  · simp [processEvent]
    intro event subs
    refine (deliverAll_final eventId event subs).mono (fun past marked _ => ?_) fun _ _ h => h
    cases marked <;> simp

/-- An instance found once it is over is terminated. -/
theorem getWorkflow_final (idOrName : String) :
    MeetsE (final id) (fun past w => past → w.id = id → w.status = .terminated)
      (fun _ _ => True) (getWorkflow idOrName) past := by
  simp [getWorkflow]
  intro e
  cases e <;> simp

/-- Whether or not `id` is over, every operation respects it. -/
theorem operation_final (op : Operation) :
    op.program.Meets (final id) (fun _ _ => True) past := by
  cases op with
  | consumeWorkflow h => exact meets_operation (N := fun _ => True) (consumeWorkflow_final h)
  | consumeEvent => exact meets_operation (N := fun _ => True) consumeEvent_final
  | startWorkflow h definitionId version data nameOverride =>
    refine meets_operation (N := fun _ => True) (WorkflowHost.meetsE_startWorkflowWithName ?_ ?_ h
      definitionId version data nameOverride trivial)
    · exact fun c hc past _ => ⟨(final_quiet hc).1, fun _ _ => trivial⟩
    · exact fun past w _ _ => child_final (N := fun _ => True) w trivial
  | publishEvent eventName eventKey data =>
    refine meets_operation (N := fun _ => True) ?_
    simp [-bind_pure_comp, publishEvent]
  | suspendWorkflow idOrName =>
    refine meets_operation (N := fun _ => True) ((getWorkflow_final idOrName).bind ?_)
    intro past w hw
    split_ifs with hs
    · simp
    · simp [-bind_pure_comp]
      grind
  | resumeWorkflow idOrName =>
    refine meets_operation (N := fun _ => True) ((getWorkflow_final idOrName).bind ?_)
    intro past w hw
    split_ifs with hs
    · simp
    · simp [-bind_pure_comp]
      grind
  | terminateWorkflow idOrName =>
    refine meets_operation (N := fun _ => True) ((getWorkflow_final idOrName).bind ?_)
    intro past w hw
    split_ifs with hs
    · simp
    · simp [-bind_pure_comp]

end Operations

/-! ## Runs -/

/-- When `terminate_workflow` writes an instance, no other operation in flight is about to write
an older copy of it. -/
def Exclusive (P : Pool hosts) (t : ℕ) : Exchange Provider → Prop
  | ⟨.request (.persistWorkflow .terminate w), _⟩ =>
    ∀ u, u ≠ t → RespectsTermination w.id (P.threads u).rest
  | _ => True

/-- The exchange by which `terminate_workflow` writes `w`. -/
def terminationOf (w : WorkflowInstance) : Exchange Provider :=
  ⟨.request (.persistWorkflow .terminate w), .ok ()⟩

/-- `terminate_workflow` has written the instance `id`. -/
def WasTerminated (id : String) (P : Pool hosts) : Prop :=
  ∃ t w, (t, terminationOf w) ∈ P.trace ∧ w.id = id

section Runs

variable {id : String} {P P' : Pool hosts}

/-- Every thread respects the end of `id`, if it has come; and then the instance is
terminated. -/
structure Ended (id : String) (P : Pool hosts) : Prop where
  respected : ∀ u, (P.threads u).rest.Meets (final id) (fun _ _ => True) (WasTerminated id P)
  ended : WasTerminated id P → ∃ w, P.shared.workflow id = some w ∧ w.status = .terminated

theorem ended_start : Ended id (Pool.start hosts Shared.empty) where
  respected _ := trivial
  ended := by
    rintro ⟨t, w, hmem, -⟩
    cases hmem

theorem Ended.spawn (h : Ended id P) (t : ℕ) (op : Operation) : Ended id (P.spawn t op) where
  respected := Pool.forall_spawn
    (φ := fun th => th.rest.Meets (final id) (fun _ _ => True) (WasTerminated id P)) h.respected
    (operation_final op)
  ended := h.ended

/-- The end of `id` comes with the exchange by which `terminate_workflow` writes it. -/
theorem Final.next_iff {past : Prop} {c : Call} {r : c.Reply} :
    Final.next id past c r ↔
      (∃ w, (⟨c, r⟩ : Exchange Provider) = terminationOf w ∧ w.id = id) ∨ past := by
  unfold Final.next
  split
  · next w _ =>
    refine or_congr_left ⟨fun h => ⟨w, rfl, h⟩, ?_⟩
    rintro ⟨w', hw', hid⟩
    cases hw'
    exact hid
  · next h =>
    refine (or_iff_right ?_).symm
    rintro ⟨w, hw, -⟩
    cases hw
    exact h w () rfl HEq.rfl

theorem wasTerminated_proceed (t : ℕ) (c : Call) (r : c.Reply) (p : Action Outcome) (s : Shared) :
    WasTerminated id (P.proceed t ⟨c, r⟩ p s) ↔ Final.next id (WasTerminated id P) c r := by
  simp only [Final.next_iff, WasTerminated, Pool.proceed_trace, List.mem_append,
    List.mem_singleton, Prod.mk.injEq]
  constructor
  · rintro ⟨u, w, hw | ⟨-, hw⟩, hid⟩
    · exact .inr ⟨u, w, hw, hid⟩
    · exact .inl ⟨w, hw.symm, hid⟩
  · rintro (⟨w, hw, hid⟩ | ⟨u, w, hw, hid⟩)
    · exact ⟨t, w, .inr ⟨rfl, hw.symm⟩, hid⟩
    · exact ⟨u, w, .inl hw, hid⟩

/-- The store gives the replies to expect, before and after the end of `id`. -/
theorem Final.allow_of_reply {σ : Shared} {o : Oracle} {past : Prop} {c : Call} {r : c.Reply}
    (hr : σ.reply o c = some r)
    (hpast : past → ∃ w, σ.workflow id = some w ∧ w.status = .terminated) :
    Final.allow id past c r := by
  have hloaded {w : WorkflowInstance} (hw : Shared.loaded c r = some w) (ho : past)
      (hid : w.id = id) : w.status = .terminated := by
    obtain ⟨w', hw', hs⟩ := hpast ho
    have hw := Shared.workflow_of_loaded hr hw
    rw [hid, hw'] at hw
    cases hw
    exact hs
  cases c with
  | request q =>
    cases r with
    | error e => cases q <;> trivial
    | ok v =>
      have hans := Shared.answered_of_reply_ok hr
      cases q with
      | getWorkflowInstance id' =>
        exact ⟨Shared.workflow_id (Shared.answered_getWorkflowInstance hans), hloaded rfl⟩
      | getWorkflowInstanceByName name => exact hloaded rfl
      | createNewWorkflow w =>
        -- A new id is not that of a stored instance.
        rintro ho rfl
        obtain ⟨w', hw', -⟩ := hpast ho
        simp only [Shared.answered] at hans
        split_ifs at hans with hnew
        cases hans
        rw [hnew] at hw'
        cases hw'
      | _ => trivial
  | _ => trivial

/-- What an admitted call writes once `id` is over. -/
theorem Final.written_terminated {c : Call} {r : c.Reply} {w : WorkflowInstance}
    (haccept : Final.accept id True c) (hallow : Final.allow id True c r)
    (hw : Shared.written c r = some w) (hid : w.id = id) : w.status = .terminated := by
  unfold Shared.written at hw
  split at hw
  · cases hw
    exact absurd hid (hallow trivial)
  · next origin w' _ =>
    cases hw
    cases origin <;> first | exact haccept | exact haccept trivial hid
  · cases hw
    exact haccept trivial hid
  · cases hw

theorem Ended.proceed (h : Ended id P) {t : ℕ} {c : Call} {k : c.Reply → Action Outcome}
    {o : Oracle} {r : c.Reply} (hk : (P.threads t).rest = .call c k)
    (hr : P.shared.reply o c = some r) (hc : Exclusive P t ⟨c, r⟩) :
    Ended id (P.proceed t ⟨c, r⟩ (k r) (Shared.effect t P.shared c r)) := by
  have hallow : Final.allow id (WasTerminated id P) c r := Final.allow_of_reply hr h.ended
  have ht := h.respected t
  rw [hk] at ht
  constructor
  · intro u
    rw [wasTerminated_proceed]
    by_cases hu : u = t
    · subst hu
      rw [Pool.proceed_threads_self]
      exact ht.2 r hallow
    · rw [Pool.proceed_threads_of_ne _ _ _ _ hu, Final.next_iff]
      by_cases hx : ∃ w, (⟨c, r⟩ : Exchange Provider) = terminationOf w ∧ w.id = id
      · -- The end has come: exclusive, so the other threads respect it.
        rw [eq_true (Or.inl hx)]
        obtain ⟨w, hw, rfl⟩ := hx
        cases hw
        exact hc u hu
      · rw [or_iff_right hx]
        exact h.respected u
  · rw [wasTerminated_proceed, Final.next_iff, Pool.proceed_shared, Shared.workflow_effect]
    rintro (⟨w, hw, rfl⟩ | hpast)
    · cases hw
      exact ⟨w, if_pos rfl, ht.1⟩
    · -- The instance was terminated before, and what is written is terminated again.
      rw [eq_true hpast] at ht hallow
      cases hw : Shared.written c r with
      | none => exact h.ended hpast
      | some w =>
        dsimp only
        split_ifs with hid
        · exact ⟨w, rfl, Final.written_terminated ht.1 hallow hw hid⟩
        · exact h.ended hpast

theorem ended_of_run (h : Pool.Run Exclusive (Pool.start hosts Shared.empty) P) : Ended id P := by
  refine h.invariant (N := Ended id) ?_ ended_start
  intro P P' hP hstep
  cases hstep with
  | spawn t op a ha => exact hP.spawn t op
  | call t c k o r s hk hs hc =>
    obtain ⟨hr, rfl⟩ := Shared.answer_eq_some.mp hs
    exact hP.proceed hk hr hc

/-! ## What the caller is told -/

/-- An outcome of `Ok(true)` has a termination in the record of its operation. -/
def Vouched (tr : List (Exchange Provider)) (a : Outcome) : Prop :=
  a = .terminated (.ok true) → ∃ w, terminationOf w ∈ tr

theorem terminateWorkflow_vouched (idOrName : String) (tr : List (Exchange Provider)) :
    MeetsE (Monitor.record Provider) (fun tr b => b = true → ∃ w, terminationOf w ∈ tr)
      (fun _ _ => True) (terminateWorkflow idOrName) tr := by
  refine MeetsE.bind (Q := fun _ _ => True) (E := fun _ _ => True) ?_ ?_
  · exact meetsE_run.mpr (meets_of_neutral trivial fun _ _ _ => ⟨trivial, fun _ _ => trivial⟩)
  · intro tr w _
    split_ifs
    · simp
    · simp [-bind_pure_comp, Monitor.record, terminationOf]

theorem operation_vouched (op : Operation) :
    op.program.Meets (Monitor.record Provider) Vouched [] := by
  have hother {α : Type} {x : Fallible α} {f : Except WfeError α → Outcome}
      (hf : ∀ r, f r ≠ .terminated (.ok true)) :
      (x.run >>= fun r => pure (f r)).Meets (Monitor.record Provider) Vouched [] := by
    refine meets_bind.mpr ((meets_of_neutral (N := fun _ => True) trivial ?_).mono ?_)
    · exact fun _ _ _ => ⟨trivial, fun _ _ => trivial⟩
    · exact fun _ r _ hr => absurd hr (hf r)
  cases op with
  | terminateWorkflow idOrName =>
    refine meets_bind.mpr (Meets.mono (terminateWorkflow_vouched idOrName []) ?_)
    rintro tr (_ | b) h ha
    · cases ha
    · cases ha
      exact h rfl
  | _ => exact hother (by simp)

theorem vouched_of_run {C : Pool hosts → ℕ → Exchange Provider → Prop}
    (h : Pool.Run C (Pool.start hosts Shared.empty) P) :
    Pool.Conforms (Monitor.record Provider) [] Vouched P := by
  refine h.invariant ?_ (Pool.conforms_start _ (by simp [Vouched]))
  intro P P' hP hstep
  cases hstep with
  | spawn t op a ha => exact hP.spawn (operation_vouched op)
  | call t c k o r s hk hs hc => exact hP.proceed hk trivial s

end Runs

/-- **Termination is final.** When `terminate_workflow` has returned `Ok(true)` for an instance it
has written, the instance is terminated in every state reached from there by exclusive steps. -/
theorem terminated_final {P P' : Pool hosts} {t : ℕ}
    (h : Pool.Run Exclusive (Pool.start hosts Shared.empty) P)
    (hret : (P.threads t).rest = .ret (.terminated (.ok true)))
    (h' : Pool.Run Exclusive P P') :
    ∃ w, terminationOf w ∈ (P.threads t).history ∧
      ∃ w', P'.shared.workflow w.id = some w' ∧ w'.status = .terminated := by
  have hvouched := vouched_of_run h t
  rw [hret, Pool.ghost, Monitor.after_record, List.nil_append] at hvouched
  obtain ⟨w, hw⟩ := hvouched rfl
  refine ⟨w, hw, ?_⟩
  have hended : Ended w.id P' := ended_of_run (h.trans h')
  exact hended.ended ⟨t, w, h'.trace_subset (h.mem_trace hw), rfl⟩

/-- The operation has returned `Ok(true)` from `terminate_workflow`. -/
def toldTerminated : Action Outcome → Bool
  | .ret (.terminated (.ok b)) => b
  | _ => false

theorem toldTerminated_iff {p : Action Outcome} :
    toldTerminated p = true ↔ p = .ret (.terminated (.ok true)) := by
  constructor
  · intro h
    unfold toldTerminated at h
    split at h
    · rw [h]
    · cases h
  · rintro rfl
    rfl

/-- No thread below `n` other than `t` is in the middle of an operation. -/
def alone (n : ℕ) (P : Pool hosts) (t : ℕ) : Bool :=
  (List.range n).all fun u => u = t || (P.threads u).rest.finished

theorem exclusive_of_alone {n : ℕ} {P : Pool hosts} {t : ℕ} (x : Exchange Provider)
    (hP : Pool.IdleFrom n P) (h : alone n P t = true) : Exclusive P t x := by
  have hidle (u : ℕ) (hu : u ≠ t) : ∃ a, (P.threads u).rest = .ret a := by
    refine Program.exists_ret_of_finished ?_
    by_cases hn : u < n
    · simpa [hu] using List.all_eq_true.mp h u (List.mem_range.mpr hn)
    · exact hP u (by omega)
  unfold Exclusive
  split
  · -- A thread at rest makes no further write.
    intro u hu
    obtain ⟨a, ha⟩ := hidle u hu
    rw [ha]
    trivial
  · trivial

/-- A workflow terminated while nothing else runs stays terminated when it is dequeued. -/
theorem terminated_final_alone : ∃ P P' : Pool hosts,
    Pool.Run Exclusive (Pool.start hosts Shared.empty) P ∧ Pool.Run Exclusive P P' ∧
    ∃ w, terminationOf w ∈ (P.threads 1).history ∧
      ∃ w', P'.shared.workflow w.id = some w' ∧ w'.status = .terminated := by
  have hfacts : (Pool.schedule (fun P t _ => alone 3 P t) (startMoves ++
      .spawn 1 (.terminateWorkflow "w") :: List.replicate 4 (tick 1 "u"))
      (Pool.start hosts Shared.empty)).map (fun P => (toldTerminated (P.threads 1).rest,
        (Pool.schedule (fun P t _ => alone 3 P t) (.spawn 2 (.consumeWorkflow twoStepHost) ::
          List.replicate 3 (tick 2 "u")) P).isSome)) = some (true, true) := rfl
  obtain ⟨P, hP, hvalues⟩ := Option.map_eq_some_iff.mp hfacts
  obtain ⟨htold, hP'⟩ := Prod.mk.inj hvalues
  obtain ⟨P', hP'⟩ := Option.isSome_iff_exists.mp hP'
  have hidle := (Pool.idleFrom_start (S := hosts) (n := 3) _).schedule (by rfl) hP
  have hrun {P P' : Pool hosts} {ms : List (Pool.Move hosts)} (hP : Pool.IdleFrom 3 P)
      (hn : (ms.all fun m => m.thread < 3) = true)
      (h : Pool.schedule (fun P t _ => alone 3 P t) ms P = some P') :
      Pool.Run Exclusive P P' :=
    Pool.run_of_schedule (Ω := fun _ => true)
      (fun P o t c r s hP _ _ hg => exclusive_of_alone ⟨c, r⟩ hP hg) hP hn
      (List.all_eq_true.mpr fun m _ => by cases m <;> rfl) h
  have h := hrun (Pool.idleFrom_start _) (by rfl) hP
  have h' := hrun hidle (by rfl) hP'
  exact ⟨P, P', h, h', terminated_final h (toldTerminated_iff.mp htold) h'⟩

/-- A pass in progress overwrites the termination: it writes back the copy it has loaded. -/
theorem termination_overwritten : ¬∀ (P P' : Pool hosts) (t : ℕ) (w : WorkflowInstance),
    Pool.Run Reliable (Pool.start hosts Shared.empty) P →
    (P.threads t).rest = .ret (.terminated (.ok true)) →
    terminationOf w ∈ (P.threads t).history → Pool.Run Reliable P P' →
      ∃ w', P'.shared.workflow w.id = some w' ∧ w'.status = .terminated := by
  intro hclaim
  -- The pass has loaded the instance before it is terminated, and writes its copy after that.
  have hfacts : (Pool.schedule (fun _ _ _ => true) (startMoves ++ passMoves ++
      .spawn 2 (.terminateWorkflow "w") :: List.replicate 4 (tick 2 "u"))
      (Pool.start hosts Shared.empty)).map (fun P => (toldTerminated (P.threads 2).rest,
        (P.threads 2).history.filterMap fun x => (Shared.written x.1 x.2).map (·.id),
        (Pool.schedule (fun _ _ _ => true) [tick 1 "u"] P).map fun P' =>
          (P'.shared.workflow "w").map (·.status))) =
      some (true, ["w"], some (some .runnable)) := rfl
  obtain ⟨P, hP, hvalues⟩ := Option.map_eq_some_iff.mp hfacts
  simp only [Prod.mk.injEq] at hvalues
  obtain ⟨htold, hwritten, hP'⟩ := hvalues
  obtain ⟨P', hP', hstatus⟩ := Option.map_eq_some_iff.mp hP'
  have hidle := (Pool.idleFrom_start (S := hosts) (n := 3) _).schedule (by rfl) hP
  have hrun := reliable_of_schedule 3 (Pool.idleFrom_start _) (by rfl) (by rfl) hP
  have hrun' := reliable_of_schedule 3 hidle (by rfl) (by rfl) hP'
  have htold := toldTerminated_iff.mp htold
  have hvouched := vouched_of_run hrun 2
  rw [htold, Pool.ghost, Monitor.after_record, List.nil_append] at hvouched
  obtain ⟨w, hw⟩ := hvouched rfl
  have hid : w.id = "w" := by
    have hmem : w.id ∈ ["w"] := hwritten ▸ List.mem_filterMap.mpr ⟨terminationOf w, hw, rfl⟩
    simpa using hmem
  obtain ⟨w', hw', hterminated⟩ := hclaim P P' 2 w hrun htold hw hrun'
  rw [hid] at hw'
  rw [hw', Option.map_some, hterminated] at hstatus
  cases hstatus

end Wfe
