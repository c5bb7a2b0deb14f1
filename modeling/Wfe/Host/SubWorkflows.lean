import Wfe.Host.NextExecution
import Wfe.Host.Stories

/-!
# What a sub-workflow exports

A sub-workflow step runs twice: at first it starts its child, and once the child is complete it
takes the output from the data of the completion event. Each run has a body of its own. A factory
gives every body the same fields; a body built by `Default` reads the configuration of its step
instead, but only when it starts the child, and so has forgotten the keys to export when it returns.

## Main definitions

* `SubWorkflowSource`: where the configuration comes from
* `Restricts`: some data restricted to the keys asked for

## Main results

* `SubWorkflowStep.output_restricts`: the output is restricted to the keys the body has
* `sub_workflow_exports_iff`: when the output is restricted to the keys that were configured
-/

namespace Wfe

open Program Provider

/-! ## Restricted data -/

/-- `out` is the object `d` restricted to `keys`, or all of it if there are none. -/
def Restricts (keys : List String) (d out : Json) : Prop :=
  ∃ m : Object, out = .object m ∧
    ∀ key, m.get key = if keys = [] ∨ key ∈ keys then d.get key else none

/-- What an object has under a key once some keys of `d` have been inserted. -/
theorem Object.get_foldl_insert {f : Object → String → Object} {d : Json}
    (hf : ∀ m key, f m key = (d.get key).elim m (Object.insert key · m)) (keys : List String)
    (m : Object) (key : String) :
    (keys.foldl f m).get key = if key ∈ keys then d.get key <|> m.get key else m.get key := by
  induction keys generalizing m with
  | nil => simp
  | cons k keys ih =>
    rw [List.foldl_cons, ih, hf]
    cases hk : d.get k with
    | none =>
      by_cases heq : key = k
      · subst heq
        simp [hk]
      · simp [heq]
    | some val =>
      rw [Option.elim_some, Object.get_insert]
      by_cases heq : key = k
      · subst heq
        simp [hk]
      · simp [heq, Ne.symm heq]

/-- The output of a body is the child's data, restricted to the keys of the body. -/
theorem SubWorkflowStep.output_restricts (self : SubWorkflowStep) (eventData : Json) :
    Restricts self.outputKeys ((eventData.get "data").getD .null) (self.output eventData) := by
  unfold SubWorkflowStep.output
  dsimp only
  generalize (eventData.get "data").getD .null = d
  split_ifs with hkeys
  · refine ⟨_, rfl, fun key => ?_⟩
    rw [if_pos (.inl hkeys), Json.get]
    cases d.asObject <;> rfl
  · refine ⟨_, rfl, fun key => ?_⟩
    rw [Object.get_foldl_insert (d := d) fun m key => by cases d.get key <;> rfl]
    by_cases hkey : key ∈ self.outputKeys
    · simp [hkey, Object.get]
    · simp [hkey, hkeys, Object.get]

/-- All of `d` is `d` restricted to `keys` if these are all of its keys. -/
theorem restricts_iff {d out : Json} (h : Restricts [] d out) (keys : List String) :
    Restricts keys d out ↔ keys = [] ∨ ∀ key, (d.get key).isSome = true → key ∈ keys := by
  obtain ⟨m, rfl, hall⟩ := h
  replace hall (key : String) : m.get key = d.get key := by simpa using hall key
  constructor
  · rintro ⟨m', heq, hkeys⟩
    obtain rfl := Json.object.inj heq
    by_cases hnil : keys = []
    · exact .inl hnil
    · refine .inr fun key hkey => ?_
      by_contra hout
      -- The key is in the output, although it was not asked for.
      have hnone := hkeys key
      rw [if_neg (not_or.mpr ⟨hnil, hout⟩), hall] at hnone
      rw [hnone] at hkey
      cases hkey
  · intro hcovers
    refine ⟨m, rfl, fun key => ?_⟩
    rw [hall]
    split_ifs with hkey
    · rfl
    · obtain ⟨hnil, hout⟩ := not_or.mp hkey
      exact Option.not_isSome_iff_eq_none.mp fun hsome => hout (hcovers.resolve_left hnil key hsome)

/-! ## The second run -/

/-- Where the configuration of a sub-workflow step is: in the fields of the bodies that its factory
builds, or in the step, whose bodies are then built by `Default`. -/
inductive SubWorkflowSource
  | fields (body : SubWorkflowStep)
  | stepConfig

namespace SubWorkflowSource

/-- The body of each pass. -/
def body : SubWorkflowSource → SubWorkflowStep
  | fields body => body
  | stepConfig => {}

/-- The keys that the configuration asks for, as the first run reads it. -/
def outputKeys (source : SubWorkflowSource) (step : WorkflowStep) : List String :=
  match source with
  | fields body => body.outputKeys
  | stepConfig => (({} : SubWorkflowStep).hydrate step.stepConfig).outputKeys

/-- The output schema, if there is one, accepts the output taken from this event. -/
def Accepts (source : SubWorkflowSource) (eventData : Json) : Prop :=
  ∀ schema ∈ source.body.outputSchema,
    schema.validateOutputs (source.body.output eventData) = .ok ()

/-- A configuration in the step asks for no keys, or for all that the child's data has. -/
def Covers (source : SubWorkflowSource) (step : WorkflowStep) (d : Json) : Prop :=
  match source with
  | fields _ => True
  | stepConfig =>
    source.outputKeys step = [] ∨ ∀ key, (d.get key).isSome = true → key ∈ source.outputKeys step

end SubWorkflowSource

section Turns

variable {definition : WorkflowDefinition} {resolve : StepResolver} {host : Option HostContext}
  {w : WorkflowInstance} {i : Nat} {step : WorkflowStep} {p p' : ExecutionPointer} {r : Ran}
  {new : List ExecutionPointer} {eventData : Json} {self : SubWorkflowStep}

/-- A body that has got its event exports the output, or fails on its output schema. -/
theorem SubWorkflowStep.finish_path {tr : List (Exchange Provider)}
    {r : Except WfeError ExecutionResult}
    (h : Path (StepM.runOn host (self.finish eventData)) tr r) :
    r = .ok { ExecutionResult.next with outputData := some (self.output eventData) } ∨
      (∃ e, r = .error e) ∧ ¬∀ schema ∈ self.outputSchema,
        schema.validateOutputs (self.output eventData) = .ok () := by
  unfold SubWorkflowStep.finish at h
  cases hschema : self.outputSchema with
  | none =>
    simp only [hschema] at h
    obtain ⟨-, rfl⟩ := path_ret.mp h
    exact .inl rfl
  | some schema =>
    simp only [hschema] at h
    cases hvalid : schema.validateOutputs (self.output eventData) with
    | ok _ =>
      simp only [hvalid, SubWorkflowStep.requireValid] at h
      obtain ⟨-, rfl⟩ := path_ret.mp h
      exact .inl rfl
    | error errors =>
      simp only [hvalid, SubWorkflowStep.requireValid] at h
      obtain ⟨-, rfl⟩ := path_ret.mp h
      refine .inr ⟨⟨_, rfl⟩, fun hall => ?_⟩
      simpa [hvalid] using hall schema rfl

/-- The turn of a sub-workflow step whose child is complete. -/
theorem Turned.exports (h : Turned definition resolve host w i step p r p' new)
    (hbody : resolve step.stepType = some self.run) (he : p.eventData = some eventData) :
    (∀ result, r = .returned step.id result →
      result.outputData = some (self.output eventData)) ∧
    (step.when = none → (∀ schema ∈ self.outputSchema,
      schema.validateOutputs (self.output eventData) = .ok ()) →
      ∃ result, r = .returned step.id result) := by
  have hrun (env : Ambient) (r : Except WfeError ExecutionResult)
      (hyields : Yields host self.run (stepContext definition host step (startPointer env p)
        (w.setPointer i (startPointer env p))) r) :
      ∃ tr, Path (StepM.runOn host (self.finish eventData)) tr r := by
    obtain ⟨tr, hpath⟩ := hyields
    refine ⟨tr, ?_⟩
    have hevent : (stepContext definition host step (startPointer env p)
      (w.setPointer i (startPointer env p))).executionPointer.eventData = some eventData := he
    rwa [SubWorkflowStep.run, hevent] at hpath
  cases h with
  | skipped env hwhen =>
    exact ⟨by rintro result ⟨⟩, fun hnone => by simp [hnone] at hwhen⟩
  | returned env env' hbody' hyields =>
    obtain rfl := Option.some_inj.mp (hbody.symm.trans hbody')
    obtain ⟨tr, hpath⟩ := hrun env _ hyields
    refine ⟨?_, fun _ _ => ⟨_, rfl⟩⟩
    rintro result ⟨⟩
    rcases SubWorkflowStep.finish_path hpath with heq | ⟨⟨e, heq⟩, -⟩
    · obtain rfl := Except.ok.inj heq
      rfl
    · cases heq
  | failed env env' hbody' hyields =>
    obtain rfl := Option.some_inj.mp (hbody.symm.trans hbody')
    obtain ⟨tr, hpath⟩ := hrun env _ hyields
    refine ⟨by rintro result ⟨⟩, fun _ haccepts => ?_⟩
    rcases SubWorkflowStep.finish_path hpath with heq | ⟨-, hrejects⟩
    · cases heq
    · exact absurd haccepts hrejects

end Turns

/-! ## Exports -/

/-- The output is what the configuration asks for of the child's data. -/
def Exports (source : SubWorkflowSource) (step : WorkflowStep) (eventData : Json)
    (result : ExecutionResult) : Prop :=
  ∃ out, result.outputData = some out ∧
    Restricts (source.outputKeys step) ((eventData.get "data").getD .null) out

theorem SubWorkflowSource.exports_iff (source : SubWorkflowSource) (step : WorkflowStep)
    {eventData : Json} {result : ExecutionResult}
    (h : result.outputData = some (source.body.output eventData)) :
    Exports source step eventData result ↔
      source.Covers step ((eventData.get "data").getD .null) := by
  have hbody := source.body.output_restricts eventData
  have hout : Exports source step eventData result ↔ Restricts (source.outputKeys step)
      ((eventData.get "data").getD .null) (source.body.output eventData) := by
    simp [Exports, h]
  rw [hout]
  cases source with
  | fields body => exact iff_of_true hbody trivial
  | stepConfig => exact restricts_iff hbody _

section Runs

variable {definition : WorkflowDefinition} {step : WorkflowStep} {source : SubWorkflowSource}
  {x : PointerKey} {w w₀ : WorkflowInstance} {changes : List Change} {g : Given} {eventData : Json}

/-- The turns of a run, for the pointers of one step. -/
theorem Lives.turned (h : Lives definition w₀ changes w)
    (hstep : definition.findStep x.stepId = some step) (hg : g ∈ ownTurns x (givenBy changes)) :
    ∃ host v p' new,
      Turned definition g.resolve host v g.turn.index step g.turn.pointer g.turn.ran p' new := by
  obtain ⟨hg, hof⟩ := List.mem_filter.mp hg
  obtain ⟨before, after, hgs⟩ := List.append_of_mem hg
  obtain ⟨l₁, l₂, -, hturn, -⟩ := Story.split (hgs ▸ h.story)
  obtain ⟨-, -, -, hstep', hturned⟩ := hturn
  have hkey := (of_decide_eq_true (of_decide_eq_true hof).2).2
  rw [hkey, hstep] at hstep'
  obtain rfl := Option.some_inj.mp hstep'
  exact ⟨_, _, _, _, hturned⟩

/-- **Exports of sub-workflows.** In every run of every definition, whenever a sub-workflow step
runs after the completion of its child, it returns unless it is skipped or its output schema rejects
the output; and the output is the child's data restricted to the keys configured, or all of it if
none are, exactly if the configuration is in the fields of the body, or asks for no keys, or for all
keys that the child's data has. -/
theorem sub_workflow_exports_iff (definition : WorkflowDefinition) (step : WorkflowStep)
    (source : SubWorkflowSource) (x : PointerKey)
    (hstep : definition.findStep x.stepId = some step) (w₀ w : WorkflowInstance)
    (changes : List Change) (hlives : Lives definition w₀ changes w) (g : Given)
    (hg : g ∈ ownTurns x (givenBy changes))
    (hbody : g.resolve step.stepType = some source.body.run) (eventData : Json)
    (hevent : g.turn.pointer.eventData = some eventData) :
    (step.when = none → source.Accepts eventData →
      ∃ result, g.turn.ran = .returned step.id result) ∧
    ∀ result, g.turn.ran = .returned step.id result →
      (Exports source step eventData result ↔
        source.Covers step ((eventData.get "data").getD .null)) := by
  obtain ⟨host, v, p', new, hturned⟩ := hlives.turned hstep hg
  obtain ⟨houtput, hreturns⟩ := hturned.exports hbody hevent
  exact ⟨hreturns, fun result hran => source.exports_iff step (houtput result hran)⟩

end Runs

/-! ## A parent and its child -/

/-- A step that asks for the result of its child. -/
def subStep : WorkflowStep :=
  { WorkflowStep.new 0 "wfe_core::primitives::sub_workflow::SubWorkflowStep" with
    stepConfig := some (.object [("inputs", .object []),
      ("output_keys", .array [.string "result"]), ("version", .number (.posInt 1)),
      ("workflow_id", .string "child")]) }

def parent : WorkflowDefinition :=
  { WorkflowDefinition.new "parent" 1 with steps := [subStep] }

/-- What the child has left, as its completion event tells. -/
def completion : Json :=
  .object [("data", .object [("extra", .bool true), ("result", .bool true)]),
    ("status", .string "Complete")]

/-- The initial pointer of the parent. -/
def parentPointer : ExecutionPointer := ExecutionPointer.new "" 0

/-- The parent after the first run. -/
def parentWaiting : PassState :=
  applyResult default parent 0 (startPointer default parentPointer)
    (.waitForEvent "wfe.workflow.completed" "child-1" (default : Ambient).now)
    (({ workflow := startOf parent } : PassState).started default 0 parentPointer)

/-- The parent once its child is complete. -/
def parentWoken : WorkflowInstance :=
  deliverEvent (Event.new default "wfe.workflow.completed" "child-1" completion)
    (EventSubscription.new "" "" 0 "" "wfe.workflow.completed" "child-1" 0)
    (concluded 0 parentWaiting.workflow)

/-- A host that starts one child. -/
def childHost : HostContext := ⟨fun _ _ _ _ => pure "child-1"⟩

/-- The first run of a sub-workflow step. -/
theorem SubWorkflowStep.begin_yields (self : SubWorkflowStep) (hschema : self.inputSchema = none)
    (context : StepExecutionContext) (hcontext : context.hostContext = true) :
    ∃ tr, Path (StepM.runOn (some childHost) (self.begin context)) tr
      (.ok (.waitForEvent "wfe.workflow.completed" "child-1" (default : Ambient).now)) := by
  refine ⟨[⟨.ambient, default⟩], ?_⟩
  unfold SubWorkflowStep.begin
  simp only [hschema, hcontext]
  exact path_call.mpr ⟨(default : Ambient), [], rfl, path_ret.mpr ⟨rfl, rfl⟩⟩

/-- The parent starts its child, and runs again once the child is complete. -/
theorem parent_runs (source : SubWorkflowSource) (hschema : source.body.inputSchema = none) :
    ∃ changes w g, Lives parent (startOf parent) changes w ∧
      (∀ g ∈ givenBy changes, g.resolve = fun _ => some source.body.run) ∧
      g ∈ ownTurns ⟨0, "", 0⟩ (givenBy changes) ∧ g.turn.pointer.eventData = some completion := by
  have hchild : HostContext.Starts (some childHost) (startOf parent).id := by
    rintro _ ⟨⟩ definitionId version data parentRoot
    rfl
  have hinputs : (source.body.hydrate subStep.stepConfig).inputSchema = none := by
    rw [← hschema]
    unfold SubWorkflowStep.hydrate
    split
    · split_ifs <;> rfl
    · rfl
  -- The first run starts the child, and the pointer waits.
  have hexamine : examinePointer parent (fun _ => some source.body.run) (startOf parent) 0 =
      .run parentPointer subStep source.body.run := rfl
  have hfirst : Loops parent (fun _ => some source.body.run) (some childHost) (startOf parent) 0
      [⟨0, parentPointer, (startOf parent).data, _⟩] parentWaiting :=
    loops_of_round rfl (by decide) rfl (.returned default default _ _ _ _ hexamine
      (SubWorkflowStep.begin_yields _ hinputs _ rfl))
  -- The event wakes it up.
  obtain ⟨p, hp, hstepId, hid, hevent⟩ : ∃ p, parentWoken.executionPointers[0]? = some p ∧
      p.stepId = 0 ∧ p.id = "" ∧ p.eventData = some completion := by
    refine ⟨_, rfl, ?_⟩
    decide
  have hstep : parent.findStep p.stepId = some subStep := by
    rw [hstepId]
    rfl
  obtain ⟨r, st, hsecond⟩ : ∃ r st, Loops parent (fun _ => some source.body.run) none parentWoken 0
      [⟨0, p, parentWoken.data, r⟩] st :=
    exists_loops none (by decide) (by decide) hp hstep rfl rfl
  have hlives := ((Lives.nil.snoc (hfirst.does hchild 0)).snoc (.deliver _ _)).snoc
    (hsecond.does (by rintro _ ⟨⟩) 0)
  refine ⟨_, _, ⟨fun _ => some source.body.run, ⟨0, p, parentWoken.data, r⟩⟩, hlives, ?_, ?_,
    hevent⟩
  · simp [givenBy, Change.given]
  · refine List.mem_filter.mpr ⟨by simp [givenBy, Change.given], ?_⟩
    simp [Turn.isOf, ExecutionPointer.hasKey, hid, hstepId]

/-- With the keys in the fields, the output is the result of the child. -/
theorem sub_workflow_exports_fields : ∃ source changes w g result,
    source.body.outputKeys = ["result"] ∧ Lives parent (startOf parent) changes w ∧
    (∀ g ∈ givenBy changes, g.resolve subStep.stepType = some source.body.run) ∧
    g ∈ givenBy changes ∧ g.turn.pointer.eventData = some completion ∧
    g.turn.ran = .returned subStep.id result ∧ Exports source subStep completion result := by
  let source : SubWorkflowSource := .fields { workflowId := "child", outputKeys := ["result"] }
  obtain ⟨changes, w, g, hlives, hresolve, hg, hevent⟩ := parent_runs source rfl
  have hbody (g : Given) (hg : g ∈ givenBy changes) :
      g.resolve subStep.stepType = some source.body.run := by rw [hresolve g hg]
  obtain ⟨hreturns, hexports⟩ := sub_workflow_exports_iff parent subStep source ⟨0, "", 0⟩ rfl _ w
    changes hlives g hg (hbody g (List.mem_of_mem_filter hg)) completion hevent
  obtain ⟨result, hran⟩ := hreturns rfl (by rintro schema ⟨⟩)
  exact ⟨source, changes, w, g, result, rfl, hlives, hbody, List.mem_of_mem_filter hg, hevent, hran,
    (hexports result hran).mpr trivial⟩

/-- With the keys in the configuration of the step, the output is all of the child's data. -/
theorem sub_workflow_exports_all : ∃ changes w g result,
    SubWorkflowSource.stepConfig.outputKeys subStep = ["result"] ∧
    Lives parent (startOf parent) changes w ∧
    (∀ g ∈ givenBy changes, g.resolve subStep.stepType = some (SubWorkflowStep.run {})) ∧
    g ∈ givenBy changes ∧ g.turn.pointer.eventData = some completion ∧
    g.turn.ran = .returned subStep.id result ∧
    ¬Exports .stepConfig subStep completion result := by
  obtain ⟨changes, w, g, hlives, hresolve, hg, hevent⟩ := parent_runs .stepConfig rfl
  have hbody (g : Given) (hg : g ∈ givenBy changes) :
      g.resolve subStep.stepType = some (SubWorkflowStep.run {}) := by
    rw [hresolve g hg]
    rfl
  have hstep : parent.findStep (PointerKey.mk 0 "" 0).stepId = some subStep := rfl
  obtain ⟨host, v, p', new, hturned⟩ := hlives.turned hstep hg
  obtain ⟨houtput, hreturns⟩ := hturned.exports (hbody g (List.mem_of_mem_filter hg)) hevent
  obtain ⟨result, hran⟩ := hreturns rfl (by rintro schema ⟨⟩)
  have hkeys : SubWorkflowSource.stepConfig.outputKeys subStep = ["result"] := by decide
  refine ⟨changes, w, g, result, hkeys, hlives, hbody, List.mem_of_mem_filter hg, hevent, hran, ?_⟩
  rw [SubWorkflowSource.exports_iff .stepConfig subStep (houtput result hran)]
  rintro (hnil | hcovers)
  · rw [hkeys] at hnil
    cases hnil
  · have hextra := hcovers "extra" (by decide)
    rw [hkeys] at hextra
    simp at hextra

end Wfe
