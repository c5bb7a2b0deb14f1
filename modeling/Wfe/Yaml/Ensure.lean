import Wfe.Host.Completion
import Wfe.Host.Origins
import Wfe.Yaml.Kept
import Wfe.Yaml.Sequential

/-!
# Cleanup steps

An `ensure` hook is to run whatever becomes of its step. The compiler makes it the outcome of the
step, and only if there is no `on_success` hook; the executor follows an outcome when the step
completes, but not when it fails and is compensated. So the hook runs after a step that completes
and has no `on_success` hook.

## Main results

* `ensure_outcomes`: where a step with an `ensure` hook leads to
* `ensure_runs`: when cleanup steps run
* `cleanup_lost`: a cleanup step that does not
-/

namespace Wfe

section Ensure

variable {F : Features} {spec : WorkflowSpec} {cw : CompiledWorkflow} {y hook : YamlStep}
  {d : WorkflowDefinition}

/-- A step with a single outcome that has no value leads there whatever its body returns. -/
theorem findNextStep_singleton {s : WorkflowStep} {id : Nat} {label : Option String}
    (h : s.outcomes = [⟨id, label, none⟩]) (outcomeValue : Option Json) :
    findNextStep s outcomeValue = some id := by
  cases outcomeValue <;> simp [findNextStep, h]

/-- The step of a regular main step with an `ensure` hook and no `on_success` hook leads to the step
of the hook only. -/
theorem ensure_outcomes (hvalid : validate spec = .ok ()) (h : compile F spec = .ok cw)
    (hy : y ∈ mainSteps spec.steps) (hregular : y.parallel = none) (hsuccess : y.onSuccess = none)
    (hensure : y.ensure = some hook) {id : Nat} {step : WorkflowStep}
    (hstep : cw.definition.findStep id = some step)
    (hname : cw.definition.nameAt id = some y.name) :
    ∃ k, step.outcomes = [⟨k, some "ensure", none⟩] ∧
      cw.definition.nameAt k = some hook.name := by
  obtain ⟨ids, hemits⟩ := compile_emits h
  have hnames := validate_names hvalid
  rw [WorkflowDefinition.nameAt, hstep, Option.bind_some] at hname
  cases hemits.placed hy with
  | block children n ids inner fs eb cond next hpar => cases hregular.symm.trans hpar
  | regular b n next hb hsteps =>
    have hmain : b.mainStep n next ∈ cw.definition.steps := hsteps _ (by simp [RegularBuild.steps])
    -- The names are distinct, so the step named is the main step of the build.
    obtain rfl : step = b.mainStep n next :=
      hemits.eq_of_name hnames (List.mem_of_find?_eq_some hstep) hmain
        (hname.trans (congrArg some hb.name).symm)
    obtain ⟨s, hs, ⟨hname', -⟩, hid⟩ := hb.ensure_hook hensure n next
    obtain ⟨e, he, -⟩ := Option.map_eq_some_iff.mp hid
    -- Without an `on_success` hook, the only outcome is the one to the `ensure` hook.
    have hnone : b.success = none := by
      rcases buildHook_mapM hb.success with ⟨-, hnone⟩ | ⟨_, _, hsome, -⟩
      · exact hnone
      · cases hsuccess.symm.trans hsome
    refine ⟨s.id, ?_, ?_⟩
    · simp [RegularBuild.mainStep, RegularBuild.successId, hnone, he, hid, hookOutcomes]
    · have hfind : cw.definition.findStep s.id = some s :=
        Table.get_of_mem hemits.nodup (hsteps s (List.mem_append_left _ hs))
      rw [WorkflowDefinition.nameAt, hfind]
      exact hname'

/-- A pointer that has become complete in a turn has proceeded, and one that has failed there and is
compensated has failed to compensate. -/
theorem Effect.proceeds {t : Turn} {p : ExecutionPointer} {step : WorkflowStep}
    {new : List ExecutionPointer} (h : Effect d step t.pointer t.ran p new)
    (hlater : t.pointer.Later p)
    (hended : p.status = .complete ∨ (p.status = .failed ∧ errorBehaviorOf p d = .compensate))
    (hnofail : t.failsToCompensate d = false) :
    ∃ result, t.ran = .returned step.id result ∧ result.proceed = true := by
  generalize hran : t.ran = ran at h
  cases h with
  | proceeded id result hresult => exact ⟨result, rfl, hresult⟩
  | failed id e hstatus =>
    -- A failure under `Compensate` is excluded, and any other one does not end the pointer so.
    rcases hended with hended | ⟨-, hbehavior⟩
    · cases hstatus.symm.trans hended
    · have hbehavior' : errorBehaviorOf t.pointer d = .compensate := by
        rwa [errorBehaviorOf, hlater.stepId] at hbehavior
      simp [Turn.failsToCompensate, hran, hbehavior'] at hnofail
  | skipped _ hstatus | branched _ _ _ _ _ hstatus | waits _ _ _ _ hstatus
  | retries _ _ hstatus =>
    simp [hstatus] at hended
  | pauses _ _ _ _ hstatus =>
    obtain hstatus | hstatus := hstatus <;> simp [hstatus] at hended

end Ensure

/-- **When cleanup steps run.** Let a step that is neither a block nor a hook have an `ensure` hook
and no `on_success` hook, and suppose that no pointer at it fails under the behaviour to compensate.
Then for every pointer at it that becomes complete, or fails under the behaviour to compensate, the
run comes to a state with a pointer at the `ensure` step that it has caused, before the workflow is
complete. -/
theorem ensure_runs (F : Features) (spec : WorkflowSpec) (cw : CompiledWorkflow)
    (hvalid : validate spec = .ok ()) (h : compile F spec = .ok cw) (y hook : YamlStep)
    (hy : y ∈ mainSteps spec.steps) (hregular : y.parallel = none) (hsuccess : y.onSuccess = none)
    (hensure : y.ensure = some hook) (w₀ w : WorkflowInstance) (changes : List Change)
    (hstarted : Started cw.definition w₀) (hlives : Lives cw.definition w₀ changes w)
    (hfails : ∀ t ∈ turnsOf changes, cw.definition.nameAt t.pointer.stepId = some y.name →
      t.failsToCompensate cw.definition = false)
    (p : ExecutionPointer) (hp : p ∈ w.executionPointers)
    (hname : cw.definition.nameAt p.stepId = some y.name)
    (hended : p.status = .complete ∨
      (p.status = .failed ∧ errorBehaviorOf p cw.definition = .compensate)) :
    ∃ done rest w₁, changes = done ++ rest ∧ Lives cw.definition w₀ done w₁ ∧
      Lives cw.definition w₁ rest w ∧ w₁.status ≠ .complete ∧
      ∃ q ∈ w₁.executionPointers, cw.definition.nameAt q.stepId = some hook.name ∧
        q.predecessorId = some p.id := by
  have hdone : p.status.isDone = true := by
    obtain hended | ⟨hended, -⟩ := hended <;> simp [hended, PointerStatus.isDone]
  induction hlives with
  | nil =>
    have hpending := (hstarted.fresh p hp).status
    simp [hpending, PointerStatus.isDone] at hdone
  | snoc hlives hdoes ih =>
    rename_i changes c w₁ w
    rcases hdoes.ended hp hdone with hp | ⟨t, ht, step, new, hstep, hlater, heffect⟩
    · -- The pointer has ended before.
      have hbefore : ∀ t ∈ turnsOf changes, cw.definition.nameAt t.pointer.stepId = some y.name →
          t.failsToCompensate cw.definition = false := fun t ht => hfails t (by simp [ht])
      obtain ⟨done, rest, w₂, rfl, hdone, hrest, hcaused⟩ := ih hbefore hp
      exact ⟨done, rest ++ [c], w₂, by simp, hdone, hrest.snoc hdoes, hcaused⟩
    · -- It ends in a turn of this change.
      have hname' : cw.definition.nameAt t.pointer.stepId = some y.name := by
        rwa [← hlater.stepId]
      obtain ⟨k, houtcomes, hk⟩ :=
        ensure_outcomes hvalid h hy hregular hsuccess hensure hstep hname'
      obtain ⟨result, hran, hproceed⟩ :=
        heffect.proceeds hlater hended (hfails t (by simp [ht]) hname')
      have hsuccessor : t.successor cw.definition = some k := by
        simp [Turn.successor, hstep, hran, hproceed, findNextStep_singleton houtcomes]
      cases hdoes with
      | pass hhost hpass =>
        obtain ⟨q, hq, hfollows, hpending⟩ := hpass.born.1 t ht k hsuccessor
        refine ⟨_, [], w, by simp, hlives.snoc (.pass hhost hpass), .nil, fun hcomplete => ?_, q,
          hq, by rw [hfollows.stepId]; exact hk, by rw [hfollows.predecessorId, hlater.id]⟩
        obtain ⟨hall, -⟩ := hpass.status_eq_complete.mp hcomplete
        have hq' := List.all_eq_true.mp (Bool.and_eq_true_iff.mp hall).2 q hq
        simp [hpending, PointerStatus.isDone] at hq'
      | _ => cases ht

/-- The `ensure` hook of a step that completes has its pointer before the workflow is complete. -/
theorem ensure_runs_test : ∃ cw, validate pipelineSpec = .ok () ∧
    compile {} pipelineSpec = .ok cw ∧ ∃ changes w p,
      Lives cw.definition (startOf cw.definition) changes w ∧ p ∈ w.executionPointers ∧
      cw.definition.nameAt p.stepId = some "test" ∧ p.status = .complete ∧
      ∃ done w₁, Lives cw.definition (startOf cw.definition) done w₁ ∧ w₁.status ≠ .complete ∧
        ∃ q ∈ w₁.executionPointers, cw.definition.nameAt q.stepId = some "clean" ∧
          q.predecessorId = some p.id := by
  obtain ⟨cw, hcw, hruns⟩ := compile_any {} pipelineSpec (fun cw =>
    (Simulation.history cw.definition (startOf cw.definition)
      (["e", "d", "c", "b", "a"].map (.pass proceeding))).any (Function.uncurry fun changes w =>
        (∀ t ∈ turnsOf changes, t.failsToCompensate cw.definition = false) ∧
        ∃ p ∈ w.executionPointers, cw.definition.nameAt p.stepId = some "test" ∧
          p.status = .complete)) (by decide +kernel)
  -- The third step of the pipeline has no hook but `ensure`.
  have hvalid : validate pipelineSpec = .ok () := by decide +kernel
  obtain ⟨changes, w, hlives, hw⟩ := Simulation.history_any hruns
  obtain ⟨hnofail, p, hp, hname, hcomplete⟩ := of_decide_eq_true hw
  obtain ⟨done, rest, w₁, -, hdone, -, hcaused⟩ := ensure_runs {} pipelineSpec cw hvalid hcw
    { shellStep "test" "make test" with ensure := some (shellStep "clean" "make clean") }
    (shellStep "clean" "make clean")
    (by simp [pipelineSpec, shellStep, mainSteps, YamlStep.withChildren, mainBlock]) rfl rfl rfl
    _ w changes (startOf_started _) hlives (fun t ht _ => hnofail t ht) p hp hname (.inl hcomplete)
  exact ⟨cw, hvalid, hcw, changes, w, p, hlives, hp, hname, hcomplete, done, w₁, hdone, hcaused⟩

/-- A workflow ends without its cleanup step: after a step that completes and has an `on_success`
hook, and after a step that fails and has an `on_failure` hook. -/
theorem cleanup_lost :
    (∃ cw, validate pipelineSpec = .ok () ∧ compile {} pipelineSpec = .ok cw ∧ ∃ changes w p,
      Lives cw.definition (startOf cw.definition) changes w ∧ w.status = .complete ∧
      p ∈ w.executionPointers ∧ cw.definition.nameAt p.stepId = some "build" ∧
      p.status = .complete ∧
      ∀ q ∈ w.executionPointers, cw.definition.nameAt q.stepId ≠ some "unlock") ∧
    ∃ cw, validate releaseSpec = .ok () ∧ compile {} releaseSpec = .ok cw ∧ ∃ changes w p,
      Lives cw.definition (startOf cw.definition) changes w ∧ w.status = .complete ∧
      p ∈ w.executionPointers ∧ cw.definition.nameAt p.stepId = some "build" ∧
      p.status = .failed ∧ errorBehaviorOf p cw.definition = .compensate ∧
      ∀ q ∈ w.executionPointers, cw.definition.nameAt q.stepId ≠ some "clean" := by
  constructor
  · -- Both hooks, and a body that proceeds.
    obtain ⟨cw, hcw, hruns⟩ := compile_any {} pipelineSpec (fun cw =>
      (Simulation.history cw.definition (startOf cw.definition)
        (["e", "d", "c", "b", "a"].map (.pass proceeding))).any (Function.uncurry fun _ w =>
          w.status = .complete ∧ (∃ p ∈ w.executionPointers,
            cw.definition.nameAt p.stepId = some "build" ∧ p.status = .complete) ∧
          ∀ q ∈ w.executionPointers, cw.definition.nameAt q.stepId ≠ some "unlock"))
      (by decide +kernel)
    obtain ⟨changes, w, hlives, hw⟩ := Simulation.history_any hruns
    obtain ⟨hstatus, ⟨p, hp, hname, hcomplete⟩, hnone⟩ := of_decide_eq_true hw
    exact ⟨cw, by decide +kernel, hcw, changes, w, p, hlives, hstatus, hp, hname, hcomplete, hnone⟩
  · -- An `on_failure` hook, and a body that fails.
    obtain ⟨cw, hcw, hruns⟩ := compile_any {} releaseSpec (fun cw =>
      (Simulation.history cw.definition (startOf cw.definition)
        [.pass proceeding "b", .pass (fun _ => some failingBody) "a"]).any
        (Function.uncurry fun _ w =>
          w.status = .complete ∧ (∃ p ∈ w.executionPointers,
            cw.definition.nameAt p.stepId = some "build" ∧ p.status = .failed ∧
              errorBehaviorOf p cw.definition = .compensate) ∧
          ∀ q ∈ w.executionPointers, cw.definition.nameAt q.stepId ≠ some "clean"))
      (by decide +kernel)
    obtain ⟨changes, w, hlives, hw⟩ := Simulation.history_any hruns
    obtain ⟨hstatus, ⟨p, hp, hname, hfailed, hbehavior⟩, hnone⟩ := of_decide_eq_true hw
    exact ⟨cw, by decide +kernel, hcw, changes, w, p, hlives, hstatus, hp, hname, hfailed,
      hbehavior, hnone⟩

end Wfe
