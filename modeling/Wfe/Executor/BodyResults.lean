import Wfe.Executor.Turns

/-!
# What a body leaves behind

The result of a body that has run is the change of its pointer, the pointers and subscriptions it
creates and the data it hands out. A body that runs again and asks for nothing that its pointer
does not say already has no result that could be lost; any other body has.

## Main definitions

* `BodyRun`, `BodyRun.result`: a body that has been run to its end, and what comes of it
* `BodyRun.KeptIn`: nothing of the result is missing from an instance
* `BodyRun.Repeats`: the body asks for nothing new

## Main results

* `BodyRun.keptIn_iff_repeats`: an instance that holds the pointer as it was found has the whole
  result exactly if the body asks for nothing new
-/

namespace Wfe

open Program Provider

/-- A body that has been run to its end: the index of its pointer and the pointer as it was found,
the clock and the UUIDs before and after, and how the body has ended. -/
structure BodyRun where
  index : Nat
  pointer : ExecutionPointer
  before : Ambient
  after : Ambient
  outcome : Except WfeError ExecutionResult

namespace BodyRun

/-- The pointer as it leaves the run, and what the run adds. -/
def result (definition : WorkflowDefinition) (workflowId : String) (b : BodyRun) :
    ExecutionPointer × ProcessResult :=
  match b.outcome with
  | .ok result =>
    processResult b.after result (startPointer b.before b.pointer) definition workflowId
  | .error _ =>
    let (pointer, handled) := handleError b.after (startPointer b.before b.pointer) definition
    (pointer, { newPointers := handled.newPointers })

/-- Nothing of the result is missing from the instance `w`, persisted with the subscriptions
`subs`. -/
structure KeptIn (definition : WorkflowDefinition) (w : WorkflowInstance)
    (subs : List EventSubscription) (b : BodyRun) : Prop where
  pointer : w.executionPointers[b.index]? = some (b.result definition w.id).1
  newPointers : (b.result definition w.id).2.newPointers ⊆ w.executionPointers
  subscriptions : (b.result definition w.id).2.subscriptions ⊆ subs
  outputData : mergeOutput w (b.result definition w.id).2.outputData = w

end BodyRun

/-- What `result` asks for at time `now`, the pointer `p` at a step with the children `children`
says already. -/
inductive AsksNothingNew (children : List Nat) (p : ExecutionPointer) (now : DateTime)
    (result : ExecutionResult) : Prop
  | branch (values : List Json) (hvalues : result.branchValues = some values)
      (hnone : values = [] ∨ children = []) (hstatus : p.status = .running)
      (hdata : p.persistenceData = result.persistenceData)
  | sleep (duration : Duration) (hvalues : result.branchValues = none)
      (hevent : result.eventName = none) (hsleep : result.sleepFor = some duration)
      (hstatus : p.status = .sleeping) (huntil : p.sleepUntil = some (now.plusMillis duration))
      (hdata : p.persistenceData = result.persistenceData)
  | poll (config : PollEndpointConfig) (hvalues : result.branchValues = none)
      (hevent : result.eventName = none) (hsleep : result.sleepFor = none)
      (hpoll : result.pollEndpoint = some config) (hstatus : p.status = .sleeping)
      (huntil : p.sleepUntil = some (now.plusMillis config.interval))
      (hdata : p.persistenceData = result.persistenceData)
  | stay (hvalues : result.branchValues = none) (hevent : result.eventName = none)
      (hsleep : result.sleepFor = none) (hpoll : result.pollEndpoint = none)
      (hstatus : p.status = .running)
      (hdata : result.persistenceData.isSome → p.persistenceData = result.persistenceData)

/-- The body has run before and asks for nothing new: it returns, without proceeding, hands out no
data that `w` has not, and what it asks for its pointer says already. -/
structure BodyRun.Repeats (definition : WorkflowDefinition) (w : WorkflowInstance) (b : BodyRun)
    (result : ExecutionResult) : Prop where
  outcome : b.outcome = .ok result
  started : b.pointer.startTime.isSome
  proceed : result.proceed = false
  outputData : mergeOutput w result.outputData = w
  asks : AsksNothingNew (((definition.findStep b.pointer.stepId).map WorkflowStep.children).getD [])
    b.pointer b.after.now result

section

variable {definition : WorkflowDefinition} {workflowId : String} {w : WorkflowInstance}
  {p : ExecutionPointer} {env env' : Ambient} {result : ExecutionResult} {b : BodyRun}

theorem childPointers_eq_nil {uuid : Nat → String} {values : List Json} {children : List Nat} :
    childPointers uuid values children p definition = [] ↔ values = [] ∨ children = [] := by
  rw [childPointers, List.mapIdx_eq_nil_iff, List.flatMap_eq_nil_iff]
  simp only [List.map_eq_nil_iff]
  refine ⟨fun h => ?_, ?_⟩
  · cases values with
    | nil => exact .inl rfl
    | cons value values => exact .inr (h value List.mem_cons_self)
  · rintro (rfl | hnone) value hvalue
    · cases hvalue
    · exact hnone

/-- Starting a pointer once more changes nothing. -/
theorem startPointer_of_started (hstart : p.startTime.isSome) :
    startPointer env p = { p with status := .running } := by
  obtain ⟨t, ht⟩ := Option.isSome_iff_exists.mp hstart
  rw [startPointer, ht]
  rfl

theorem processResult_startTime :
    (processResult env' result p definition workflowId).1.startTime = p.startTime := by
  unfold processResult
  repeat' split
  all_goals rfl

/-- A pointer that a run leaves as it was has been started before. -/
theorem started_of_processResult
    (h : (processResult env' result (startPointer env p) definition workflowId).1 = p) :
    p.startTime.isSome := by
  rw [← h, processResult_startTime]
  cases hstart : p.startTime <;> simp [startPointer, hstart]

/-- A failure always shows at the pointer. -/
theorem handleError_ne (hstatus : p.status ≠ .failed) :
    (handleError env' (startPointer env p) definition).1 ≠ p := by
  intro heq
  unfold handleError at heq
  split at heq
  · split at heq
    · exact hstatus (congrArg ExecutionPointer.status heq).symm
    · -- The failure has been counted.
      exact Nat.succ_ne_self _ (congrArg ExecutionPointer.retryCount heq)
  all_goals exact hstatus (congrArg ExecutionPointer.status heq).symm

/-- A result that leaves its pointer as it was found. -/
theorem asksNothingNew_of_processResult (hactive : p.active = true)
    (h : (processResult env' result (startPointer env p) definition workflowId).1 = p) :
    result.proceed = false ∧ AsksNothingNew
      (((definition.findStep p.stepId).map WorkflowStep.children).getD []) p env'.now result := by
  unfold processResult at h
  split at h
  · -- The pointer of a step that has proceeded is no longer active.
    exact absurd ((congrArg ExecutionPointer.active h).trans hactive) (by simp)
  · next hproceed =>
    rw [Bool.not_eq_true] at hproceed
    split at h
    · next values hvalues =>
      have hchildren := congrArg ExecutionPointer.children h
      have hnew := List.append_right_eq_self.mp hchildren
      rw [List.map_eq_nil_iff, childPointers_eq_nil] at hnew
      exact ⟨hproceed, .branch values hvalues hnew
        (congrArg ExecutionPointer.status h).symm
        (congrArg ExecutionPointer.persistenceData h).symm⟩
    · next hvalues =>
      have hvalues : result.branchValues = none := Option.eq_none_iff_forall_ne_some.mpr hvalues
      split at h
      · -- Nor is one that waits.
        exact absurd ((congrArg ExecutionPointer.active h).trans hactive) (by simp)
      · next hevent =>
        have hevent : result.eventName = none := by simpa using hevent
        split at h
        · next duration hsleep =>
          exact ⟨hproceed, .sleep duration hvalues hevent hsleep
            (congrArg ExecutionPointer.status h).symm (congrArg ExecutionPointer.sleepUntil h).symm
            (congrArg ExecutionPointer.persistenceData h).symm⟩
        · next hsleep =>
          have hsleep : result.sleepFor = none := Option.eq_none_iff_forall_ne_some.mpr hsleep
          split at h
          · next config hpoll =>
            exact ⟨hproceed, .poll config hvalues hevent hsleep hpoll
              (congrArg ExecutionPointer.status h).symm
              (congrArg ExecutionPointer.sleepUntil h).symm
              (congrArg ExecutionPointer.persistenceData h).symm⟩
          · next hpoll =>
            have hpoll : result.pollEndpoint = none := Option.eq_none_iff_forall_ne_some.mpr hpoll
            split at h
            · exact ⟨hproceed, .stay hvalues hevent hsleep hpoll
                (congrArg ExecutionPointer.status h).symm
                fun _ => (congrArg ExecutionPointer.persistenceData h).symm⟩
            · next hpersist =>
              exact ⟨hproceed, .stay hvalues hevent hsleep hpoll
                (congrArg ExecutionPointer.status h).symm fun hsome => absurd hsome hpersist⟩

/-- A result that asks for nothing new leaves its pointer as it was found, and adds nothing but
output data. -/
theorem AsksNothingNew.processResult (hactive : p.active = true) (hstart : p.startTime.isSome)
    (hproceed : result.proceed = false)
    (h : AsksNothingNew (((definition.findStep p.stepId).map WorkflowStep.children).getD []) p
      env'.now result) :
    processResult env' result (startPointer env p) definition workflowId =
      (p, { outputData := result.outputData }) := by
  rw [startPointer_of_started hstart]
  cases h with
  | branch values hvalues hnone hstatus hdata =>
    have hnew : childPointers env'.uuid values
        (((definition.findStep p.stepId).map WorkflowStep.children).getD [])
        { p with status := .running } definition = [] := childPointers_eq_nil.mpr hnone
    simp only [Wfe.processResult, hproceed, hvalues, hnew, List.map_nil, List.append_nil]
    simp [← hdata, ← hstatus]
  | sleep duration hvalues hevent hsleep hstatus huntil hdata =>
    have hsame : { p with
        status := .sleeping
        active := true
        sleepUntil := some (env'.now.plusMillis duration)
        persistenceData := result.persistenceData } = p := by
      rw [← hactive, ← hstatus, ← huntil, ← hdata]
    simpa [Wfe.processResult, hproceed, hvalues, hevent, hsleep] using hsame
  | poll config hvalues hevent hsleep hpoll hstatus huntil hdata =>
    have hsame : { p with
        status := .sleeping
        active := true
        sleepUntil := some (env'.now.plusMillis config.interval)
        persistenceData := result.persistenceData } = p := by
      rw [← hactive, ← hstatus, ← huntil, ← hdata]
    simpa [Wfe.processResult, hproceed, hvalues, hevent, hsleep, hpoll] using hsame
  | stay hvalues hevent hsleep hpoll hstatus hdata =>
    by_cases hsome : result.persistenceData.isSome
    · have hsame : { p with
          status := .running, active := true, persistenceData := result.persistenceData } = p := by
        rw [← hactive, ← hstatus, ← hdata hsome]
      simpa [Wfe.processResult, hproceed, hvalues, hevent, hsleep, hpoll, hsome] using hsame
    · simp [Wfe.processResult, hproceed, hvalues, hevent, hsleep, hpoll, hsome, ← hstatus]

/-- **A body loses nothing exactly if it asks for nothing new.** An instance that holds the pointer
as it was found has the whole result of such a body, and of no other. -/
theorem BodyRun.keptIn_iff_repeats (hpointer : w.executionPointers[b.index]? = some b.pointer)
    {now : DateTime} (hrunnable : isPointerRunnable b.pointer now = true) :
    b.KeptIn definition w [] ↔ ∃ result, b.Repeats definition w result := by
  obtain ⟨hactive, hdone⟩ := isPointerRunnable_active hrunnable
  constructor
  · rintro ⟨hkept, -, -, houtput⟩
    have hsame := Option.some_inj.mp (hpointer.symm.trans hkept)
    cases houtcome : b.outcome with
    | ok result =>
      simp only [BodyRun.result, houtcome] at hsame houtput
      have hstart := started_of_processResult hsame.symm
      obtain ⟨hproceed, hasks⟩ := asksNothingNew_of_processResult hactive hsame.symm
      rw [hasks.processResult hactive hstart hproceed] at houtput
      exact ⟨result, houtcome, hstart, hproceed, houtput, hasks⟩
    | error e =>
      simp only [BodyRun.result, houtcome] at hsame
      refine absurd hsame.symm (handleError_ne fun hfailed => ?_)
      rw [hfailed] at hdone
      cases hdone
  · rintro ⟨result, houtcome, hstart, hproceed, houtput, hasks⟩
    have hresult : b.result definition w.id = (b.pointer, { outputData := result.outputData }) := by
      simp only [BodyRun.result, houtcome]
      exact hasks.processResult hactive hstart hproceed
    exact ⟨by rw [hresult, hpointer], by simp [hresult], by simp [hresult], by rwa [hresult]⟩

end

end Wfe
