import Wfe.Builder.Bodies
import Wfe.Host.Branchings
import Wfe.Host.Origins

/-!
# Runs of bodies

All steps added in the body of a container are children of it. If no outcome is wired to them, each
branching of the container creates one pointer for each of them and value, and nothing else does.
But a step that is wired to another one in the body is still a child: it is started with the
container, and once more when the other one is complete.

## Main definitions

* `RunsBodyOnce`: what the body of a container is for

## Main results

* `body_runs_once`: the steps of a body run once if no outcome is wired to them
* `body_runs_twice`: a step wired to another one runs twice
-/

namespace Wfe

open Program Provider

/-- The pointers at the step `child` in the scope that `p` opens. -/
def pointersInside (l : List ExecutionPointer) (p : ExecutionPointer) (child : Nat) :
    List ExecutionPointer :=
  l.filter fun q => q.stepId = child ∧ q.scope = p.inner

/-- The body of a container runs once: in the scope of each pointer of the container there is one
pointer for each step of the body and each value over which the container has branched, there are no
others, and a step wired to another one gets its turns after this one is complete. -/
structure RunsBodyOnce (d : WorkflowDefinition) (container : Nat) (body : List Nat)
    (changes : List Change) (w : WorkflowInstance) : Prop where
  once : ∀ x p, x.stepId = container → w.pointerAt x = some p → ∀ child ∈ body,
    (pointersInside w.executionPointers p child).map ExecutionPointer.contextItem =
      ((ownTurns x (givenBy changes)).flatMap (·.turn.ran.branchedOver)).map some
  inside : ∀ q ∈ w.executionPointers, q.stepId ∈ body →
    ∃ x p, x.stepId = container ∧ w.pointerAt x = some p ∧ q.scope = p.inner
  ordered : ∀ s ∈ d.steps, s.id ∈ body → ∀ o ∈ s.outcomes, o.nextStep ∈ body →
    ∀ before g after, givenBy changes = before ++ g :: after →
      g.turn.pointer.stepId = o.nextStep → ∃ u ∈ before, u.turn.pointer.stepId = s.id ∧
        u.turn.pointer.scope = g.turn.pointer.scope ∧ u.turn.proceeds = true

section Counting

variable {l : List ExecutionPointer} {p : ExecutionPointer} {children : List Nat} {child : Nat}

/-- The pointers at a step that `p` has created, with their items. -/
theorem map_pointersInside (h : ∀ q ∈ l, q.stepId = child → q.scope = p.inner →
      q.predecessorId = some p.id) :
    (pointersInside l p child).map ExecutionPointer.contextItem =
      ((itemsOf l p).filter (·.1 = child)).map Prod.snd := by
  induction l with
  | nil => rfl
  | cons q l ih =>
    have ih := ih fun q' hq' => h q' (List.mem_cons_of_mem _ hq')
    have hq := h q List.mem_cons_self
    rw [pointersInside, itemsOf] at ih ⊢
    rw [List.filter_cons, List.filterMap_cons, itemIn]
    by_cases hscope : q.scope = p.inner
    · by_cases hstep : q.stepId = child
      · simpa [hscope, hstep, hq hstep hscope] using ih
      · by_cases hpred : q.predecessorId = some p.id
        · simpa [hscope, hstep, hpred] using ih
        · simpa [hscope, hstep, hpred] using ih
    · simpa [hscope] using ih

/-- One pointer for each value is at a step that is listed once. -/
theorem filter_visits (hnodup : children.Nodup) (hmem : child ∈ children) (values : List Json) :
    ((visits children values).filter (·.1 = child)).map Prod.snd = values.map some := by
  have hone (value : Json) : ((children.map fun c => (c, some value)).filter (·.1 = child)).map
      Prod.snd = [some value] := by
    rw [List.filter_map, List.map_map]
    -- The step is listed once among the children.
    have hfilter : children.filter ((fun vc : Nat × Option Json => decide (vc.1 = child)) ∘
        fun c => (c, some value)) = [child] := by
      have hcount := List.filter_eq child (l := children)
      rw [List.count_eq_one_of_mem hnodup hmem] at hcount
      simpa [Function.comp_def, eq_comm] using hcount
    rw [hfilter]
    rfl
  rw [visits, List.filter_flatMap, List.map_flatMap, List.map_eq_flatMap]
  exact List.flatMap_congr fun value _ => hone value

end Counting

section Runs

variable {opened : StepBuilder} {wired : List Nat} {b : WorkflowBuilder} {id : String}
  {version k : Nat} {w₀ w : WorkflowInstance} {changes : List Change} {q : ExecutionPointer}
  {t : Turn} {d : WorkflowDefinition} {step : WorkflowStep}

/-- A turn leads onward, by an outcome or by compensation. -/
theorem Turn.successor_links (h : t.successor d = some k) :
    ∃ s, d.findStep t.pointer.stepId = some s ∧ k ∈ s.links := by
  obtain ⟨s, hs, ⟨o, ho, rfl⟩ | ⟨hcomp, -⟩⟩ := Turn.successor_cases h
  · exact ⟨s, hs, List.mem_append_left _ (List.mem_map_of_mem ho)⟩
  · exact ⟨s, hs, List.mem_append_right _ (Option.mem_toList.mpr hcomp)⟩

/-- Pointers at the steps of a body are created by the container, if no outcome is wired to these
steps. -/
theorem Contains.created (h : Contains opened wired b)
    (hunwired : ∀ k ∈ wired, k ∉ opened.bodySteps)
    (hstarted : Started (b.build id version) w₀)
    (hlives : Lives (b.build id version) w₀ changes w) (hq : q ∈ w.executionPointers)
    (hbody : q.stepId ∈ opened.bodySteps) :
    ∃ p ∈ w.executionPointers, p.stepId = opened.stepId ∧ q.scope = p.inner ∧
      q.predecessorId = some p.id := by
  have hnot : q.stepId ∉ wired := fun hwired => hunwired _ hwired hbody
  rcases hlives.origin hq with ⟨p, hp, hlater⟩ | ⟨t, ht, hborn⟩
  · -- The first pointer is at the first step, which is in no body.
    rcases hstarted.pointers with ⟨-, hnil⟩ | ⟨p', -, hp', hzero, -⟩
    · simp [hnil] at hp
    · obtain rfl : p = p' := by simpa [hp'] using hp
      rw [hlater.stepId, hzero, mem_bodySteps] at hbody
      omega
  · obtain ⟨p, hp, hlater⟩ := hlives.exists_later ht
    cases hborn with
    | successor k hsuccessor hfollows =>
      obtain ⟨s, hs, hk⟩ := Turn.successor_links hsuccessor
      rw [h.built.findStep] at hs
      rw [hfollows.stepId] at hbody hnot
      exact absurd hk (h.apart hs hbody hnot).1
    | child s hs hchild hpred hscope =>
      rw [h.built.findStep] at hs
      have hcontainer := (h.apart hs hbody hnot).2 hchild
      exact ⟨p, hp, hlater.stepId.trans hcontainer, hscope.trans hlater.inner.symm,
        by rw [hpred, hlater.id]⟩

end Runs

/-- **When bodies run once.** Let a container be opened by calls of the builder's methods. If no
outcome is wired by hand to a step added in its body, then in every run with distinct ids each
branching of the container creates one pointer for each step of the body and value, and no other
pointer is ever created at these steps. -/
theorem body_runs_once (opened : StepBuilder) (wired : List Nat) (b : WorkflowBuilder)
    (hcontains : Contains opened wired b) (hunwired : ∀ k ∈ wired, k ∉ opened.bodySteps)
    (id : String) (version : Nat) (w₀ w : WorkflowInstance) (changes : List Change)
    (hstarted : Started (b.build id version) w₀)
    (hlives : Lives (b.build id version) w₀ changes w) (hids : w.pointerIds.Nodup) :
    RunsBodyOnce (b.build id version) opened.stepId opened.bodySteps changes w := by
  obtain ⟨container, hcontainer, hchildren⟩ := hcontains.container
  refine ⟨fun x p hx hp child hchild => ?_, fun q hq hbody => ?_, fun s hs _ o ho hnext => ?_⟩
  · obtain ⟨hi, hkey⟩ := pointerAt_eq_some.mp hp
    have hmem := List.mem_of_getElem? hi
    have hstep : (b.build id version).findStep x.stepId = some container := by
      rw [hcontains.built.findStep, hx, hcontainer]
    have hnodup : opened.bodySteps.Nodup := List.nodup_range'
    rw [map_pointersInside, hlives.story.itemsOf hstarted.fresh hstarted.scopesOpened hids hstep hi
      hkey, hchildren, List.filter_flatMap, List.map_flatMap, List.map_flatMap]
    · exact List.flatMap_congr fun g _ => filter_visits hnodup hchild _
    · -- A pointer in the scope has been created by the pointer that opens it.
      intro q hq hqstep hscope
      obtain ⟨p', hp', -, hinner, hpred⟩ := hcontains.created hunwired hstarted hlives hq
        (hqstep ▸ hchild)
      rw [hpred, eq_of_inner hids hmem hp' (hscope.symm.trans hinner)]
  · obtain ⟨p, hp, hpstep, hscope, -⟩ := hcontains.created hunwired hstarted hlives hq hbody
    obtain ⟨i, hi⟩ := List.mem_iff_getElem?.mp hp
    exact ⟨⟨i, p.id, p.stepId⟩, p, hpstep, pointerAt_eq_some.mpr
      ⟨hi, decide_eq_true ⟨rfl, rfl⟩⟩, hscope⟩
  · obtain ⟨i, hi⟩ := List.mem_iff_getElem?.mp hs
    have honward : o.nextStep ∈ s.links := List.mem_append_left _ (List.mem_map_of_mem ho)
    exact absurd honward (hcontains.apart hi hnext fun hwired => hunwired _ hwired hnext).1

/-! ## Two steps in a saga -/

/-- Two steps, of which the second one may be wired to the first one. -/
def linkedSteps (linked : Bool) (b : WorkflowBuilder) : WorkflowBuilder :=
  let b := (b.addStep "first").addStep "second"
  if linked then b.wireOutcome 2 3 none else b

def openedSaga (linked : Bool) : StepBuilder :=
  (({} : WorkflowBuilder).startWith "start").saga (linkedSteps linked)

def sagaBodies : StepResolver := fun stepType =>
  if stepType = StepBuilder.sagaKey then some SagaContainerStep.run else some proceedBody

theorem openedSaga_contains (linked : Bool) :
    Contains (openedSaga linked) (if linked then [3] else []) (openedSaga linked).builder := by
  have hedits (b : WorkflowBuilder) :
      Edits b (if linked then [3] else []) (linkedSteps linked b) := by
    have hadd := (Edits.nil.addStep "first").addStep "second" (b := b)
    cases linked with
    | false => exact hadd
    | true => exact hadd.wireOutcome 2 3 none
  have h : Contains (openedSaga linked) ([] ++ [] ++ (if linked then [3] else []) ++ [] ++ [])
      (openedSaga linked).builder :=
    .intro none "start" .nil .nil (.body .saga (linkedSteps linked) (hedits _)) .nil .nil
  simpa only [List.nil_append, List.append_nil] using h

/-- Two steps that are not wired run once. -/
theorem body_runs_once_unwired : ∃ changes w,
    Lives ((openedSaga false).builder.build "saga" 1)
      (startOf ((openedSaga false).builder.build "saga" 1)) changes w ∧ w.status = .complete ∧
    RunsBodyOnce ((openedSaga false).builder.build "saga" 1) 1 [2, 3] changes w := by
  obtain ⟨changes, w, hlives, hw⟩ := Simulation.history_any
    (d := (openedSaga false).builder.build "saga" 1)
    (w := startOf ((openedSaga false).builder.build "saga" 1))
    (l := ["d", "c", "b", "a"].map (.pass sagaBodies))
    (f := fun _ w => w.status = .complete ∧ w.pointerIds.Nodup) (by decide)
  obtain ⟨hcomplete, hids⟩ := of_decide_eq_true hw
  exact ⟨changes, w, hlives, hcomplete, body_runs_once (openedSaga false) _ _
    (openedSaga_contains false) (by simp) "saga" 1 _ w changes (startOf_started _) hlives hids⟩

/-- The step that is wired to the other one runs twice, the first time before that one. -/
theorem body_runs_twice : ∃ opened wired b changes w, Contains opened wired b ∧
    Lives (b.build "saga" 1) (startOf (b.build "saga" 1)) changes w ∧ w.pointerIds.Nodup ∧
    (∀ t ∈ turnsOf changes, t.ran.isReturned = true) ∧ w.status = .complete ∧
    ¬RunsBodyOnce (b.build "saga" 1) opened.stepId opened.bodySteps changes w := by
  obtain ⟨changes, w, hlives, hw⟩ := Simulation.history_any
    (d := (openedSaga true).builder.build "saga" 1)
    (w := startOf ((openedSaga true).builder.build "saga" 1))
    (l := ["e", "d", "c", "b", "a"].map (.pass sagaBodies))
    (f := fun changes w => w.pointerIds.Nodup ∧
      (∀ t ∈ turnsOf changes, t.ran.isReturned = true) ∧ w.status = .complete ∧
      ∃ p ∈ w.executionPointers, w.pointerAt ⟨1, p.id, 1⟩ = some p ∧
        (pointersInside w.executionPointers p 3).length = 2 ∧
        ((ownTurns ⟨1, p.id, 1⟩ (givenBy changes)).flatMap
          (·.turn.ran.branchedOver)).length = 1) (by decide)
  obtain ⟨hids, hreturned, hcomplete, p, -, hp, htwo, hone⟩ := of_decide_eq_true hw
  refine ⟨openedSaga true, _, _, changes, w, openedSaga_contains true, hlives, hids, hreturned,
    hcomplete, fun h => ?_⟩
  -- The saga has branched over one value, but there are two pointers at the step.
  have honce := congrArg List.length (h.once ⟨1, p.id, 1⟩ p rfl hp 3 (by decide))
  simp only [List.length_map] at honce
  omega

end Wfe
