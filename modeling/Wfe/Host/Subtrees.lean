import Mathlib.Data.List.Induction
import Wfe.Host.Conditions
import Wfe.Host.Stories

/-!
# Containers finish after their subtrees

A container proceeds when the pointers of the scope it has opened are done. That is a check of its
direct children only, but a nested container is done after its own children, and so on down. The
one way out is a condition that becomes false: a container that has started is then skipped,
whatever its children do.

## Main definitions

* `Container`, `Container.Runs`: the kinds of containers, and their bodies
* `Subtrees`: the invariant of the pointers

## Main results

* `Container.yields`: what the body of a container can return
* `Subtrees.turn`: a turn keeps the invariant
* `container_after_subtree`: containers finish after their subtrees, unless they are skipped when
  they have started
* `container_before_child`: one that is skipped finishes before its child
-/

namespace Wfe

open Program Provider

/-! ## The bodies of containers -/

/-- The kinds of containers. The collection of a loop is fixed; the conditions are computed anew
each time the body is built. -/
inductive Container
  | sequence
  | ifStep
  | whileStep
  | forEach (loop : ForEachStep)
  | saga

/-- The bodies of a container. -/
inductive Container.Runs : Container → StepBody → Prop
  | sequence : Runs .sequence SequenceStep.run
  | ifStep (condition : Bool) : Runs .ifStep (IfStep.run condition)
  | whileStep (condition : Bool) : Runs .whileStep (WhileStep.run condition)
  | forEach (loop : ForEachStep) : Runs (.forEach loop) loop.run
  | saga : Runs .saga SagaContainerStep.run

/-- A loop over nothing. -/
def Container.Idle : Container → Prop
  | forEach loop => loop.collection = []
  | _ => False

/-- The flag `children_active` of persistence data. -/
def activeIn (data : Option Json) : Bool :=
  ((data.bind (·.get "children_active")).bind Json.asBool).getD false

/-- What the body of a container returns: it proceeds when its children are done or it has none,
it branches, or it goes on waiting. -/
inductive Container.Returns (k : Container) (context : StepExecutionContext) :
    ExecutionResult → Prop
  | next (h : context.childrenDone = true ∨ (k ≠ .sequence ∧ context.persistenceData = none)) :
      Returns k context .next
  | branch (values : List Json) (data : Option Json) (hidle : ¬k.Idle)
      (hdata : k = .sequence ∧ data = none ∨ activeIn data = true) :
      Returns k context (.branch values data)
  | persist (data : Json) (hidle : ¬k.Idle) (hdata : activeIn (some data) = true) :
      Returns k context (.persist data)

section Bodies

variable {k : Container} {body : StepBody} {host : Option HostContext}
  {context : StepExecutionContext} {r : Except WfeError ExecutionResult}

theorem activeIn_position (index : Nat) : activeIn (some (ForEachStep.position index)) = true := rfl

theorem Container.Returns.of_path {result : ExecutionResult} (hresult : k.Returns context result)
    (h : Path (StepM.runOn host (pure result)) tr r) :
    ∃ result, r = .ok result ∧ k.Returns context result := by
  obtain ⟨-, rfl⟩ := path_ret.mp h
  exact ⟨result, rfl, hresult⟩

/-- The body of a container does not fail. -/
theorem Container.yields (hk : k.Runs body) (h : Yields host body context r)
    (hdata : context.persistenceData = none ∨ activeIn context.persistenceData = true)
    (hidle : k.Idle → context.persistenceData = none) :
    ∃ result, r = .ok result ∧ k.Returns context result := by
  obtain ⟨tr, h⟩ := h
  have hflag : context.flag "children_active" = activeIn context.persistenceData := rfl
  -- Without the flag nothing has been persisted, so nothing has been spawned.
  have hnone (h : ¬context.flag "children_active" = true) : context.persistenceData = none :=
    hdata.resolve_right (hflag ▸ h)
  cases hk with
  | sequence =>
    simp only [SequenceStep.run] at h
    split_ifs at h with hbranch hdone
    · exact Returns.of_path (.branch _ _ id (.inl ⟨rfl, rfl⟩)) h
    · exact Returns.of_path (.next (.inl hdone)) h
    · exact Returns.of_path (.persist _ id rfl) h
  | ifStep condition =>
    -- `If` branches at most once, and proceeds at once if its condition is false.
    simp only [IfStep.run] at h
    split_ifs at h with hactive hdone
    · exact Returns.of_path (.next (.inl hdone)) h
    · exact Returns.of_path (.persist _ id rfl) h
    · exact Returns.of_path (.branch _ _ id (.inr rfl)) h
    · exact Returns.of_path (.next (.inr ⟨by simp, hnone hactive⟩)) h
  | whileStep condition =>
    -- `While` branches again when a round of children is done and its condition still holds.
    simp only [WhileStep.run] at h
    split_ifs at h with hactive hdone
    · exact Returns.of_path (.branch _ _ id (.inr rfl)) h
    · exact Returns.of_path (.next (.inl hdone)) h
    · exact Returns.of_path (.persist _ id rfl) h
    · exact Returns.of_path (.branch _ _ id (.inr rfl)) h
    · exact Returns.of_path (.next (.inr ⟨by simp, hnone hactive⟩)) h
  | forEach loop =>
    -- `ForEach` spawns all rounds at once, or one after the other.
    simp only [ForEachStep.run] at h
    split_ifs at h with hempty hparallel hactive hdone hactive hdone
    · exact Returns.of_path (.next (.inr ⟨by simp, hidle hempty⟩)) h
    · exact Returns.of_path (.next (.inl hdone)) h
    · exact Returns.of_path (.persist _ hempty rfl) h
    · exact Returns.of_path (.branch _ _ hempty (.inr rfl)) h
    · split at h
      · exact Returns.of_path (.next (.inl hdone)) h
      · exact Returns.of_path (.branch _ _ hempty (.inr (activeIn_position _))) h
    · exact Returns.of_path (.persist _ hempty (activeIn_position _)) h
    · -- The first item is there, since nothing has been persisted yet.
      rw [hnone hactive] at h
      split at h
      · exact Returns.of_path (.branch _ _ hempty (.inr (activeIn_position _))) h
      · next hrange => simp [hempty] at hrange
  | saga =>
    -- The saga waits for its children, and for a second round if it has to compensate.
    simp only [SagaContainerStep.run] at h
    split_ifs at h with hcompensating hdone hactive hcompensate hdone
    · exact Returns.of_path (.next (.inl hdone)) h
    · exact Returns.of_path (.persist _ id rfl) h
    · exact Returns.of_path (.branch _ _ id (.inr rfl)) h
    · exact Returns.of_path (.next (.inl hdone)) h
    · exact Returns.of_path (.persist _ id rfl) h
    · exact Returns.of_path (.branch _ _ id (.inr rfl)) h

end Bodies

/-! ## The invariant -/

/-- The step has children. -/
def WorkflowDefinition.Contains (d : WorkflowDefinition) (stepId : Nat) : Prop :=
  ∃ s, d.findStep stepId = some s ∧ s.children ≠ []

/-- The kind of container at a step. -/
def WorkflowDefinition.kindAt (d : WorkflowDefinition) (kind : String → Option Container)
    (stepId : Nat) : Option Container :=
  (d.findStep stepId).bind fun s => kind s.stepType

/-- What the persistence data of a container says about the pointers. -/
structure Persisted (k : Container) (l : List ExecutionPointer) (c : ExecutionPointer) : Prop where
  data : c.persistenceData = none ∨ activeIn c.persistenceData = true
  unspawned : k ≠ .sequence → c.persistenceData = none → ∀ q ∈ l, q.scope ≠ c.inner
  idle : k.Idle → c.persistenceData = none

/-- The invariant: scopes are opened by containers, containers end by proceeding or by being
skipped, pointers that have not started have no children, and what is in the scope of a pointer
that has ended is done, at any depth. -/
structure Subtrees (d : WorkflowDefinition) (kind : String → Option Container)
    (l : List ExecutionPointer) : Prop where
  owner : ∀ q ∈ l, q.scope ≠ [] → ∃ c ∈ l, q.scope = c.inner ∧ d.Contains c.stepId
  ended : ∀ c ∈ l, d.Contains c.stepId → c.status.isDone = true →
    c.status = .complete ∨ c.status = .skipped
  unstarted : ∀ c ∈ l, c.startTime = none → ∀ q ∈ l, q.scope ≠ c.inner
  persisted : ∀ c ∈ l, ∀ k ∈ d.kindAt kind c.stepId, Persisted k l c
  closed : ∀ c ∈ l, c.status = .complete ∨ c.status = .skipped →
    ∀ q ∈ l, c.inner <+: q.scope → q.status.isDone = true

/-- What the turn of `x` at a step of a definition with containers does. -/
structure Orderly (d : WorkflowDefinition) (kind : String → Option Container)
    (l : List ExecutionPointer) (x x' : ExecutionPointer) (new : List ExecutionPointer) : Prop where
  later : x.Later x'
  undone : x.status.isDone = false
  fresh : ∀ q ∈ new, q.Fresh
  scopes : ∀ q ∈ new, q.scope = x.scope ∨
    (q.scope = x.inner ∧ d.Contains x.stepId ∧ x'.startTime.isSome = true)
  ended : d.Contains x.stepId → x'.status.isDone = true →
    x'.status = .complete ∨ x'.status = .skipped
  closes : x'.status = .complete ∨ x'.status = .skipped →
    (∀ q ∈ new, q.scope = x.scope) ∧ ∀ q ∈ l, q.scope = x.inner → q.status.isDone = true
  unstarted : x'.startTime = none → x.startTime = none
  persists : ∀ k ∈ d.kindAt kind x.stepId,
    (x'.persistenceData = none ∨ activeIn x'.persistenceData = true) ∧
    (k ≠ .sequence → x'.persistenceData = none →
      x.persistenceData = none ∧ ∀ q ∈ new, q.scope = x.scope) ∧
    (k.Idle → x'.persistenceData = none)

section Invariant

variable {d : WorkflowDefinition} {kind : String → Option Container} {l new : List ExecutionPointer}
  {p q c x x' : ExecutionPointer} {idx : Nat}

/-- Above a pointer deep in a scope there is a container in that scope. -/
theorem Subtrees.ancestor (h : Subtrees d kind l) (scope rest : List String) (i : String)
    (hq : q ∈ l) (hscope : q.scope = scope ++ i :: rest) :
    ∃ c ∈ l, c.scope = scope ∧ c.id = i ∧ d.Contains c.stepId := by
  -- From the inside out: the owner of the scope of `q` is one level further up.
  induction rest using List.reverseRecOn generalizing q with
  | nil =>
    obtain ⟨c, hc, hinner, hcontains⟩ := h.owner q hq (by simp [hscope])
    obtain ⟨hs, hi⟩ := List.append_inj' (hscope.symm.trans hinner) rfl
    exact ⟨c, hc, hs.symm, by simpa using hi.symm, hcontains⟩
  | append_singleton rest j ih =>
    obtain ⟨c, hc, hinner, -⟩ := h.owner q hq (by simp [hscope])
    have hsplit : scope ++ i :: rest ++ [j] = c.scope ++ [c.id] := by
      rw [← ExecutionPointer.inner, ← hinner, hscope]
      simp
    exact ih hc (List.append_inj' hsplit rfl).1.symm

/-- If the direct children of a scope are done, so is all below. -/
theorem Subtrees.below (h : Subtrees d kind l) {scope : List String}
    (hdirect : ∀ q ∈ l, q.scope = scope → q.status.isDone = true) (hq : q ∈ l)
    (hpre : scope <+: q.scope) : q.status.isDone = true := by
  obtain ⟨rest, hrest⟩ := hpre
  cases rest with
  | nil => exact hdirect q hq (by rw [← hrest, List.append_nil])
  | cons i rest =>
    -- Deeper down, the container on the way is a direct child, so it has ended and is closed.
    obtain ⟨c, hc, hscope, rfl, hcontains⟩ := h.ancestor scope rest i hq hrest.symm
    refine h.closed c hc (h.ended c hc hcontains (hdirect c hc hscope)) q hq ⟨rest, ?_⟩
    rw [ExecutionPointer.inner, hscope, ← hrest]
    simp

theorem ExecutionPointer.not_inner_prefix (p : ExecutionPointer) : ¬p.inner <+: p.scope :=
  fun h => absurd h.length_le (by simp [ExecutionPointer.inner])

/-- A scope that holds no pointer of `x` and is not opened by `x` gets no pointers. -/
theorem Orderly.new_scope_ne (h : Orderly d kind l x x' new) {scope : List String}
    (hscope : x.scope ≠ scope) (hinner : x.inner ≠ scope) : ∀ q ∈ new, q.scope ≠ scope := by
  intro q hq
  rcases h.scopes q hq with hq | ⟨hq, -⟩
  · exact hq ▸ hscope
  · exact hq ▸ hinner

/-- Only the pointer whose turn it is opens its scope. -/
theorem Orderly.inner_ne_inner (h : Orderly d kind l x x' new) (hx : l[idx]? = some x)
    (hnodup : ((l.set idx x' ++ new).map ExecutionPointer.id).Nodup) (hc : c ∈ l)
    (hne : c.id ≠ x.id) : x.inner ≠ c.inner := by
  intro heq
  rw [map_id_set_append hx h.later] at hnodup
  exact hne (congrArg _ (eq_of_inner hnodup.of_append_left (List.mem_of_getElem? hx) hc heq)).symm

/-- A scope that another pointer would open, and that was empty, stays empty. -/
theorem Orderly.scope_ne_of_ne (h : Orderly d kind l x x' new) (hx : l[idx]? = some x)
    (hnodup : ((l.set idx x' ++ new).map ExecutionPointer.id).Nodup) (hc : c ∈ l)
    (hne : c.id ≠ x.id) (hnone : ∀ q ∈ l, q.scope ≠ c.inner) :
    ∀ q ∈ l.set idx x' ++ new, q.scope ≠ c.inner :=
  scope_ne_of_set_append hx h.later hnone (h.new_scope_ne (hnone x (List.mem_of_getElem? hx))
    (h.inner_ne_inner hx hnodup hc hne))

namespace Subtrees

variable (h : Subtrees d kind l) (hx : l[idx]? = some x) (horderly : Orderly d kind l x x' new)
  (hnodup : ((l.set idx x' ++ new).map ExecutionPointer.id).Nodup)

include h hx horderly

/-- The pointer whose turn it is cannot be in a scope that has been closed. -/
theorem not_prefix_of_ended (hc : c ∈ l) (hstatus : c.status = .complete ∨ c.status = .skipped) :
    ¬c.inner <+: x.scope := by
  intro hpre
  have hdone := h.closed c hc hstatus x (List.mem_of_getElem? hx) hpre
  rw [horderly.undone] at hdone
  cases hdone

/-- After a turn, every scope has been opened by a container that was there before. -/
theorem turn_owner (hq : q ∈ l.set idx x' ++ new) (hne : q.scope ≠ []) :
    ∃ c ∈ l, q.scope = c.inner ∧ d.Contains c.stepId := by
  have hxmem := List.mem_of_getElem? hx
  rcases mem_set_append hx horderly.later hq with ⟨q₀, hq₀, hlater₀, -⟩ | hq
  · rw [hlater₀.scope] at hne ⊢
    exact h.owner q₀ hq₀ hne
  · rcases horderly.scopes q hq with hscope | ⟨hscope, hcontains, -⟩
    · rw [hscope] at hne ⊢
      exact h.owner x hxmem hne
    · exact ⟨x, hxmem, hscope, hcontains⟩

include hnodup

/-- A new pointer has a new id, which is in no scope. -/
theorem scope_ne_of_new (hc : c ∈ new) : ∀ q ∈ l.set idx x' ++ new, q.scope ≠ c.inner := by
  intro q hq heq
  obtain ⟨y, hy, hinner, -⟩ := h.turn_owner hx horderly hq (by simp [heq, ExecutionPointer.inner])
  have hid : y.id = c.id := by simpa using (List.append_inj' (hinner.symm.trans heq) rfl).2
  rw [map_id_set_append hx horderly.later] at hnodup
  exact (List.nodup_append.mp hnodup).2.2 _ (List.mem_map_of_mem hy) _ (List.mem_map_of_mem hc) hid

theorem turn_ended (hc : c ∈ l.set idx x' ++ new) (hcontains : d.Contains c.stepId)
    (hdone : c.status.isDone = true) : c.status = .complete ∨ c.status = .skipped := by
  rcases eq_or_mem_of_set_append hx horderly.later hnodup hc with rfl | ⟨hc, -⟩ | hc
  · exact horderly.ended (horderly.later.stepId ▸ hcontains) hdone
  · exact h.ended c hc hcontains hdone
  · rw [(horderly.fresh c hc).status] at hdone
    cases hdone

theorem turn_unstarted (hc : c ∈ l.set idx x' ++ new) (hstart : c.startTime = none) :
    ∀ q ∈ l.set idx x' ++ new, q.scope ≠ c.inner := by
  have hxmem := List.mem_of_getElem? hx
  rcases eq_or_mem_of_set_append hx horderly.later hnodup hc with rfl | ⟨hc, hne⟩ | hc
  · rw [horderly.later.inner]
    -- A turn that leaves the pointer unstarted opens no scope.
    refine scope_ne_of_set_append hx horderly.later
      (h.unstarted x hxmem (horderly.unstarted hstart)) fun q hq => ?_
    rcases horderly.scopes q hq with hq | ⟨-, -, hstarted⟩
    · exact hq ▸ x.scope_ne_inner
    · simp [hstart] at hstarted
  · exact horderly.scope_ne_of_ne hx hnodup hc hne (h.unstarted c hc hstart)
  · exact h.scope_ne_of_new hx horderly hnodup hc

theorem turn_persisted (hc : c ∈ l.set idx x' ++ new) {k : Container}
    (hk : k ∈ d.kindAt kind c.stepId) : Persisted k (l.set idx x' ++ new) c := by
  have hxmem := List.mem_of_getElem? hx
  rcases eq_or_mem_of_set_append hx horderly.later hnodup hc with rfl | ⟨hc, hne⟩ | hc
  · rw [horderly.later.stepId] at hk
    obtain ⟨hdata, hunspawned, hidle⟩ := horderly.persists k hk
    refine ⟨hdata, fun hsequence hnone => ?_, hidle⟩
    obtain ⟨hnone, hnew⟩ := hunspawned hsequence hnone
    rw [horderly.later.inner]
    exact scope_ne_of_set_append hx horderly.later
      ((h.persisted x hxmem k hk).unspawned hsequence hnone)
      fun q hq => hnew q hq ▸ x.scope_ne_inner
  · obtain ⟨hdata, hunspawned, hidle⟩ := h.persisted c hc k hk
    exact ⟨hdata, fun hsequence hnone =>
      horderly.scope_ne_of_ne hx hnodup hc hne (hunspawned hsequence hnone), hidle⟩
  · have hnone := (horderly.fresh c hc).persistenceData
    exact ⟨.inl hnone, fun _ _ => h.scope_ne_of_new hx horderly hnodup hc, fun _ => hnone⟩

theorem turn_closed (hc : c ∈ l.set idx x' ++ new)
    (hstatus : c.status = .complete ∨ c.status = .skipped) (hq : q ∈ l.set idx x' ++ new)
    (hpre : c.inner <+: q.scope) : q.status.isDone = true := by
  rcases eq_or_mem_of_set_append hx horderly.later hnodup hc with rfl | ⟨hc, hne⟩ | hc
  · -- The pointer has ended in this turn, with all its direct children done.
    rw [horderly.later.inner] at hpre
    obtain ⟨hnew, hdirect⟩ := horderly.closes hstatus
    rcases mem_set_append hx horderly.later hq with ⟨q₀, hq₀, hlater₀, hcases⟩ | hq
    · rw [hlater₀.scope] at hpre
      rcases hcases with rfl | ⟨rfl, -⟩
      · exact h.below hdirect hq₀ hpre
      · exact absurd hpre q₀.not_inner_prefix
    · exact absurd (hnew q hq ▸ hpre) x.not_inner_prefix
  · -- The pointer had ended before: the turn is outside its scope, and so is what it creates.
    have hundone := h.not_prefix_of_ended hx horderly hc hstatus
    rcases mem_set_append hx horderly.later hq with ⟨q₀, hq₀, hlater₀, hcases⟩ | hq
    · rw [hlater₀.scope] at hpre
      rcases hcases with rfl | ⟨rfl, -⟩
      · exact h.closed c hc hstatus q hq₀ hpre
      · exact absurd hpre hundone
    · rcases horderly.scopes q hq with hscope | ⟨hscope, -⟩
      · exact absurd (hscope ▸ hpre) hundone
      · rw [hscope] at hpre
        rcases List.prefix_concat_iff.mp hpre with heq | hpre
        · exact absurd heq.symm (horderly.inner_ne_inner hx hnodup hc hne)
        · exact absurd hpre hundone
  · rw [(horderly.fresh c hc).status] at hstatus
    rcases hstatus with hstatus | hstatus <;> cases hstatus

/-- A turn keeps the invariant. -/
theorem turn : Subtrees d kind (l.set idx x' ++ new) := by
  refine ⟨?_, ?_, ?_, ?_, ?_⟩
  · intro q hq hne
    obtain ⟨c, hc, hinner, hcontains⟩ := h.turn_owner hx horderly hq hne
    obtain ⟨c', hc', hlater⟩ := exists_later new hx horderly.later hc
    exact ⟨c', hc', by rw [hinner, hlater.inner], hlater.stepId ▸ hcontains⟩
  · exact fun c => h.turn_ended hx horderly hnodup
  · exact fun c => h.turn_unstarted hx horderly hnodup
  · exact fun c hc k => h.turn_persisted hx horderly hnodup hc
  · exact fun c hc hstatus q => h.turn_closed hx horderly hnodup hc hstatus

end Subtrees

end Invariant

/-! ## Turns of containers -/

section Turns

variable {d : WorkflowDefinition} {kind : String → Option Container} {resolve : StepResolver}
  {host : Option HostContext} {workflowId : String} {st st' : PassState} {t : Turn}
  {l new : List ExecutionPointer} {x x' : ExecutionPointer} {step : WorkflowStep} {r : Ran}
  {idx : Nat}

/-- A pointer at a step without children has opened no scope. -/
theorem Subtrees.scope_ne_inner (h : Subtrees d kind l)
    (hids : (l.map ExecutionPointer.id).Nodup) (hx : x ∈ l) (hcontains : ¬d.Contains x.stepId) :
    ∀ q ∈ l, q.scope ≠ x.inner := by
  intro q hq hscope
  obtain ⟨c, hc, hinner, hc'⟩ := h.owner q hq (by simp [hscope, ExecutionPointer.inner])
  obtain rfl := eq_of_inner hids hx hc (hscope.symm.trans hinner)
  exact hcontains hc'

/-- The turn of a pointer that is not at a container. -/
theorem Effect.orderly_of_none (heffect : Effect d step x r x' new) (hlater : x.Later x')
    (hstep : d.findStep x.stepId = some step) (hchildren : step.children = [])
    (hkind : d.kindAt kind x.stepId = none) (hundone : x.status.isDone = false)
    (hl : ∀ q ∈ l, q.scope ≠ x.inner) : Orderly d kind l x x' new := by
  have hleaf : ¬d.Contains x.stepId := by
    rintro ⟨s, hs, hne⟩
    obtain rfl : step = s := Option.some_inj.mp (hstep.symm.trans hs)
    exact hne hchildren
  -- Without children, whatever a turn creates is a successor, in the same scope.
  have hnew : ∀ q ∈ new, q.scope = x.scope := by
    cases heffect with
    | skipped id | proceeded id =>
      intro q hq
      obtain ⟨_, -, rfl⟩ := List.mem_map.mp hq
      rfl
    | branched uuid result values =>
      intro q hq
      obtain ⟨hmem, -⟩ := mem_childPointers hq
      rw [hchildren] at hmem
      cases hmem
    | waits | pauses | retries => simp
    | failed id =>
      intro q hq
      split_ifs at hq
      · obtain ⟨_, -, rfl⟩ := List.mem_map.mp hq
        rfl
      · cases hq
  refine ⟨hlater, hundone, fun q hq => heffect.fresh hq, fun q hq => .inl (hnew q hq),
    fun h => absurd h hleaf, fun _ => ⟨hnew, fun q hq h => absurd h (hl q hq)⟩, fun hstart => ?_,
    fun k hk => ?_⟩
  · cases heffect <;> simp_all
  · rw [hkind] at hk
    cases hk

/-- A turn in which a container ends. -/
theorem Orderly.of_ended (hlater : x.Later x') (hundone : x.status.isDone = false)
    (hfresh : ∀ q ∈ new, q.Fresh) (hnew : ∀ q ∈ new, q.scope = x.scope)
    (hstatus : x'.status = .complete ∨ x'.status = .skipped)
    (hstart : x'.startTime = none → x.startTime = none)
    (hpersist : x'.persistenceData = x.persistenceData)
    (hpersisted : ∀ k ∈ d.kindAt kind x.stepId, Persisted k l x)
    (hl : ∀ q ∈ l, q.scope = x.inner → q.status.isDone = true) : Orderly d kind l x x' new :=
  ⟨hlater, hundone, hfresh, fun q hq => .inl (hnew q hq), fun _ _ => hstatus,
    fun _ => ⟨hnew, hl⟩, hstart, fun k hk => by
      rw [hpersist]
      exact ⟨(hpersisted k hk).data, fun _ hnone => ⟨hnone, hnew⟩, (hpersisted k hk).idle⟩⟩

/-- A turn in which a container goes on. -/
theorem Orderly.of_running (hlater : x.Later x') (hundone : x.status.isDone = false)
    (hfresh : ∀ q ∈ new, q.Fresh)
    (hnew : ∀ q ∈ new, q.scope = x.inner ∧ d.Contains x.stepId) (hstatus : x'.status.isDone = false)
    (hstart : x'.startTime.isSome = true) {k : Container} (hk : d.kindAt kind x.stepId = some k)
    (hidle : ¬k.Idle) (hdata : (k = .sequence ∧ x'.persistenceData = none) ∨
      activeIn x'.persistenceData = true) : Orderly d kind l x x' new := by
  have hended : ¬(x'.status = .complete ∨ x'.status = .skipped) := by
    rintro (h | h) <;> simp [h, PointerStatus.isDone] at hstatus
  refine ⟨hlater, hundone, hfresh, fun q hq => .inr ⟨(hnew q hq).1, (hnew q hq).2, hstart⟩,
    fun _ h => by simp [hstatus] at h, fun h => absurd h hended, fun h => by simp [h] at hstart,
    fun k' hk' => ?_⟩
  obtain rfl : k = k' := Option.some_inj.mp (hk.symm.trans hk')
  refine ⟨hdata.imp And.right id, fun hsequence hnone => ?_, fun h => absurd h hidle⟩
  rcases hdata with ⟨h, -⟩ | h
  · exact absurd h hsequence
  · simp [hnone, activeIn] at h

/-- The turn of a container whose body has returned. -/
theorem Effect.orderly_of_returns {result : ExecutionResult} {context : StepExecutionContext}
    {k : Container} (heffect : Effect d step x (.returned step.id result) x' new)
    (hlater : x.Later x') (hstep : d.findStep x.stepId = some step)
    (hk : d.kindAt kind x.stepId = some k) (hundone : x.status.isDone = false)
    (hpersisted : Persisted k l x) (hreturns : k.Returns context result)
    (hdata : context.persistenceData = x.persistenceData)
    (hdone : context.childrenDone = true →
      ∀ q ∈ l, q.scope = x.inner → q.status.isDone = true) : Orderly d kind l x x' new := by
  have hfresh (q : ExecutionPointer) (hq : q ∈ new) := heffect.fresh hq
  cases hreturns with
  | next h =>
    cases heffect with
    | proceeded id _ _ hstatus _ hstart _ hpersist =>
      refine .of_ended hlater hundone hfresh (fun q hq => ?_) (.inl hstatus)
        (fun h => by simp [h] at hstart) hpersist (fun k' hk' => ?_) fun q hq hscope => ?_
      · obtain ⟨_, -, rfl⟩ := List.mem_map.mp hq
        rfl
      · obtain rfl : k = k' := Option.some_inj.mp (hk.symm.trans hk')
        exact hpersisted
      · -- The container proceeds with its children done, or without having spawned any.
        rcases h with h | ⟨hsequence, hnone⟩
        · exact hdone h q hq hscope
        · exact absurd hscope (hpersisted.unspawned hsequence (hdata ▸ hnone) q hq)
    | branched _ _ _ hresult | waits _ hresult | pauses _ hresult => cases hresult
  | branch values data hidle hactive =>
    cases heffect with
    | branched uuid _ _ _ hvalues hstatus _ hstart hpersist =>
      refine .of_running hlater hundone hfresh (fun q hq => ?_)
        (by rw [hstatus]; rfl) hstart hk hidle (hpersist ▸ hactive)
      obtain ⟨hmem, hscope, -⟩ := mem_childPointers hq
      exact ⟨hscope, step, hstep, List.ne_nil_of_mem hmem⟩
    | proceeded _ _ hresult | waits _ _ hresult | pauses _ _ hresult => cases hresult
  | persist data hidle hactive =>
    cases heffect with
    | pauses _ _ _ _ hstatus _ hstart hpersist =>
      refine .of_running hlater hundone hfresh (by simp) ?_ hstart hk hidle (.inr ?_)
      · obtain hstatus | hstatus := hstatus <;> rw [hstatus] <;> rfl
      · rw [hpersist rfl]
        exact hactive
    | proceeded _ _ hresult | branched _ _ _ _ hresult | waits _ _ _ hresult => cases hresult

/-- A turn is orderly, if no condition stops a container that has started. -/
theorem Round.orderly (hround : Round d resolve host workflowId st t.index [t.ran] st')
    (hpointer : st.workflow.executionPointers[t.index]? = some t.pointer)
    (hdata : st.workflow.data = t.data)
    (hkind : ∀ s ∈ d.steps, s.children ≠ [] → (kind s.stepType).isSome = true)
    (hruns : ∀ stepType, ∀ k ∈ kind stepType, ∀ body ∈ resolve stepType, k.Runs body)
    (hsteady : d.Contains t.pointer.stepId → t.Steady d)
    (hundone : t.pointer.status.isDone = false)
    (hst : Subtrees d kind st.workflow.executionPointers) (hids : st.workflow.pointerIds.Nodup) :
    ∃ p' new, Orderly d kind st.workflow.executionPointers t.pointer p' new ∧
      st'.workflow.executionPointers = st.workflow.executionPointers.set t.index p' ++ new := by
  have hmem := List.mem_of_getElem? hpointer
  obtain ⟨step, r, p', new, hr, hstep, heffect, hlater, -, hst'⟩ := hround.effect hpointer
  rw [hr] at hround
  have hcause := hround.cause hpointer hstep
  have hkindAt : d.kindAt kind t.pointer.stepId = kind step.stepType := by
    rw [WorkflowDefinition.kindAt, hstep, Option.bind_some]
  refine ⟨p', new, ?_, hst'⟩
  cases hk : kind step.stepType with
  | none =>
    -- A step of no container type has no children.
    have hchildren : step.children = [] := by
      by_contra hne
      simpa [hk] using hkind step (List.mem_of_find?_eq_some hstep) hne
    refine heffect.orderly_of_none hlater hstep hchildren (hkindAt.trans hk) hundone
      (hst.scope_ne_inner hids hmem ?_)
    rintro ⟨s, hs, hne⟩
    obtain rfl : step = s := Option.some_inj.mp (hstep.symm.trans hs)
    exact hne hchildren
  | some k =>
    have hpersisted : Persisted k st.workflow.executionPointers t.pointer :=
      hst.persisted _ hmem k (hkindAt.trans hk)
    have hyields {env : Ambient} {body : StepBody} {r : Except WfeError ExecutionResult}
        (hbody : resolve step.stepType = some body)
        (h : Yields host body (stepContext d host step (startPointer env t.pointer)
          (st.started env t.index t.pointer).workflow) r) :=
      Container.yields (hruns _ k hk body hbody) h hpersisted.data hpersisted.idle
    have hfresh (q : ExecutionPointer) (hq : q ∈ new) := heffect.fresh hq
    cases r with
    | skipped =>
      cases heffect with
      | skipped id hstatus _ hstart _ hpersist =>
        -- Either it has not started, or it has no children.
        have hnone : ∀ q ∈ st.workflow.executionPointers, q.scope ≠ t.pointer.inner := by
          cases hs : t.pointer.startTime with
          | none => exact hst.unstarted _ hmem hs
          | some time =>
            refine hst.scope_ne_inner hids hmem fun hcontains => ?_
            exact (hsteady hcontains).ne_skipped (by simp [hs]) hdata hstep hcause
        refine .of_ended hlater hundone hfresh
          (fun q hq => ?_) (.inr hstatus) (fun h => hstart ▸ h) hpersist (fun k' hk' => ?_)
          fun q hq h => absurd h (hnone q hq)
        · obtain ⟨_, -, rfl⟩ := List.mem_map.mp hq
          rfl
        · obtain rfl : k = k' := Option.some_inj.mp ((hkindAt.trans hk).symm.trans hk')
          exact hpersisted
    | returned stepId result =>
      obtain ⟨body, env, hbody, h⟩ := hcause
      obtain ⟨result', hresult, hreturns⟩ := hyields hbody h
      cases hresult
      obtain rfl : stepId = step.id := by cases heffect <;> rfl
      exact heffect.orderly_of_returns hlater hstep (hkindAt.trans hk) hundone hpersisted hreturns
        rfl (childrenDone_iff hpointer).mp
    | failed stepId e =>
      obtain ⟨body, env, hbody, h⟩ := hcause
      -- The bodies of containers do not fail.
      obtain ⟨result, hresult, -⟩ := hyields hbody h
      cases hresult

end Turns

/-! ## Histories -/

section Histories

variable {d : WorkflowDefinition} {kind : String → Option Container} {resolve : StepResolver}
  {host : Option HostContext} {turns : List Turn} {w w' : WorkflowInstance} {change : Change}

/-- The step types of a definition that are containers are resolved to containers of their kind,
and no condition stops a container that has started. -/
def Change.Contained (d : WorkflowDefinition) (kind : String → Option Container) : Change → Prop
  | .pass resolve turns =>
    (∀ stepType, ∀ k ∈ kind stepType, ∀ body ∈ resolve stepType, k.Runs body) ∧
      ∀ t ∈ turns, d.Contains t.pointer.stepId → t.Steady d
  | _ => True

theorem Conducts.subtrees (h : Conducts d resolve host w turns w')
    (hkind : ∀ s ∈ d.steps, s.children ≠ [] → (kind s.stepType).isSome = true)
    (hcontained : (Change.pass resolve turns).Contained d kind) (hids : w'.pointerIds.Nodup)
    (hw : Subtrees d kind w.executionPointers) : Subtrees d kind w'.executionPointers := by
  obtain ⟨hruns, hsteady⟩ := hcontained
  have hrunnable (t : Turn) (ht : t ∈ turns) := (h.pointer ht).2
  obtain ⟨-, now, tm, st, hturns, -, rfl⟩ := h
  simp only [WorkflowInstance.pointerIds, concluded_executionPointers] at hids ⊢
  -- Over the turns of the pass, as long as the ids are distinct.
  refine hturns.rule (N := fun _ st => st.workflow.pointerIds.Nodup →
    Subtrees d kind st.workflow.executionPointers) (fun _ => hw) ?_ hids
  intro done t st st' hdone hst hpointer hdata hround hids
  have ht : t ∈ turns := hdone.subset (by simp)
  obtain ⟨now, hrun⟩ := hrunnable t ht
  have hids₀ : st.workflow.pointerIds.Nodup := hids.sublist hround.pointerIds.sublist
  obtain ⟨p', new, horderly, hst'⟩ := hround.orderly hpointer hdata hkind hruns (hsteady t ht)
    (isPointerRunnable_active hrun).2 (hst hids₀) hids₀
  rw [WorkflowInstance.pointerIds, hst'] at hids
  rw [hst']
  exact (hst hids₀).turn hpointer horderly hids

/-- A change of the pointers that keeps what the invariant is about. -/
theorem Subtrees.map {l : List ExecutionPointer} {f : ExecutionPointer → ExecutionPointer}
    (h : Subtrees d kind l) (hlater : ∀ p : ExecutionPointer, p.Later (f p))
    (hstatus : ∀ p, (f p).status = p.status) (hstart : ∀ p, (f p).startTime = p.startTime)
    (hpersist : ∀ p, (f p).persistenceData = p.persistenceData) : Subtrees d kind (l.map f) := by
  have hscopes {c : ExecutionPointer} (hl : ∀ q ∈ l, q.scope ≠ c.inner) :
      ∀ q ∈ l.map f, q.scope ≠ (f c).inner := by
    intro q hq
    obtain ⟨p, hp, rfl⟩ := List.mem_map.mp hq
    rw [(hlater p).scope, (hlater c).inner]
    exact hl p hp
  refine ⟨fun q hq hne => ?_, fun c hc hcontains hdone => ?_, fun c hc hnone => ?_,
    fun c hc k hk => ?_, fun c hc hended q hq hpre => ?_⟩
  · obtain ⟨p, hp, rfl⟩ := List.mem_map.mp hq
    rw [(hlater p).scope] at hne ⊢
    obtain ⟨c, hc, hinner, hcontains⟩ := h.owner p hp hne
    exact ⟨f c, List.mem_map_of_mem hc, by rw [hinner, (hlater c).inner],
      (hlater c).stepId ▸ hcontains⟩
  · obtain ⟨p, hp, rfl⟩ := List.mem_map.mp hc
    rw [hstatus p] at hdone ⊢
    exact h.ended p hp ((hlater p).stepId ▸ hcontains) hdone
  · obtain ⟨p, hp, rfl⟩ := List.mem_map.mp hc
    exact hscopes (h.unstarted p hp (hstart p ▸ hnone))
  · obtain ⟨p, hp, rfl⟩ := List.mem_map.mp hc
    rw [(hlater p).stepId] at hk
    obtain ⟨hdata, hunspawned, hidle⟩ := h.persisted p hp k hk
    rw [← hpersist p] at hdata hunspawned hidle
    exact ⟨hdata, fun hsequence hnone => hscopes (hunspawned hsequence hnone), hidle⟩
  · obtain ⟨p, hp, rfl⟩ := List.mem_map.mp hc
    obtain ⟨q, hq', rfl⟩ := List.mem_map.mp hq
    rw [hstatus p] at hended
    rw [(hlater p).inner, (hlater q).scope] at hpre
    rw [hstatus q]
    exact h.closed p hp hended q hq' hpre

theorem Does.subtrees (h : Does d w change w')
    (hkind : ∀ s ∈ d.steps, s.children ≠ [] → (kind s.stepType).isSome = true)
    (hcontained : change.Contained d kind) (hids : w'.pointerIds.Nodup)
    (hw : Subtrees d kind w.executionPointers) : Subtrees d kind w'.executionPointers := by
  rcases h.pass_or_woken with ⟨resolve, host, turns, rfl, -, h⟩ | ⟨-, f, hf, hw'⟩
  · exact h.subtrees hkind hcontained hids hw
  · rw [hw']
    exact hw.map (fun p => (hf p).later) (fun p => (hf p).status) (fun p => (hf p).startTime)
      fun p => (hf p).persistenceData

theorem Started.subtrees (h : Started d w) : Subtrees d kind w.executionPointers := by
  have hfresh := h.fresh
  have hscope : ∀ q ∈ w.executionPointers, q.scope = [] := by
    rcases h.pointers with ⟨-, hnil⟩ | ⟨p, -, hp, -, -, -, hscope, -⟩
    · simp [hnil]
    · simpa [hp] using hscope
  have hne (c q : ExecutionPointer) (hq : q ∈ w.executionPointers) : q.scope ≠ c.inner := by
    simp [hscope q hq, ExecutionPointer.inner]
  refine ⟨fun q hq h => absurd (hscope q hq) h, fun c hc _ hdone => ?_, fun c _ _ => hne c,
    fun c hc k _ => ?_, fun c hc hstatus => ?_⟩
  · simp [(hfresh c hc).status, PointerStatus.isDone] at hdone
  · have hnone := (hfresh c hc).persistenceData
    exact ⟨.inl hnone, fun _ _ => hne c, fun _ => hnone⟩
  · simp [(hfresh c hc).status] at hstatus

end Histories

/-- **Containers finish after their subtrees.** In a definition whose containers are the ones of
the engine, as long as no condition is false when a container that has started comes to its turn,
the pointers below a container that is complete or skipped are all done. -/
theorem container_after_subtree (d : WorkflowDefinition) (kind : String → Option Container)
    (hkind : ∀ s ∈ d.steps, s.children ≠ [] → (kind s.stepType).isSome = true)
    (w₀ w : WorkflowInstance) (changes : List Change) (hstarted : Started d w₀)
    (hlives : Lives d w₀ changes w) (hcontained : ∀ c ∈ changes, c.Contained d kind)
    (hids : w.pointerIds.Nodup) (c q : ExecutionPointer) (hc : c ∈ w.executionPointers)
    (hstatus : c.status = .complete ∨ c.status = .skipped) (hq : q ∈ w.executionPointers)
    (hbelow : c.scope ++ [c.id] <+: q.scope) : q.status.isDone = true := by
  refine (hlives.rule (N := fun _ w => w.pointerIds.Nodup → Subtrees d kind w.executionPointers)
    (fun _ => hstarted.subtrees) (fun done change w w' hdone hw hdoes hids => ?_) hids).closed c hc
    hstatus q hq hbelow
  exact hdoes.subtrees hkind (hcontained change (hdone.subset (by simp))) hids
    (hw (hids.sublist hdoes.pointerIds.sublist))

/-- The containers of the engine that are used. -/
def sequences : String → Option Container := fun stepType =>
  if stepType = sequenceKey then some .sequence else none

theorem sequences_runs : ∀ stepType, ∀ k ∈ sequences stepType, ∀ body ∈ proceeding stepType,
    k.Runs body := by
  intro stepType k hk body hbody
  unfold sequences at hk
  split_ifs at hk with h
  · cases hk
    simp only [proceeding, h, if_true] at hbody
    cases hbody
    exact .sequence
  · cases hk

/-- The child of a container that is complete is done. -/
theorem container_after_subtree_one_child : ∃ w c q, Reachable oneChild w ∧
    c ∈ w.executionPointers ∧ c.status = .complete ∧ q ∈ w.executionPointers ∧
    c.scope ++ [c.id] <+: q.scope ∧ q.status.isDone = true := by
  have hrun : (Simulation.history oneChild (startOf oneChild)
      [.pass proceeding "c", .pass proceeding "b", .pass proceeding "a"]).any
      (Function.uncurry fun changes w =>
        w.pointerIds.Nodup ∧ (∀ change ∈ changes, ∀ t ∈ change.turns, t.Steady oneChild) ∧
        ∃ c ∈ w.executionPointers, ∃ q ∈ w.executionPointers, c.status = .complete ∧
          c.scope ++ [c.id] <+: q.scope) = true := by decide
  obtain ⟨⟨changes, w⟩, hhistory, hw⟩ := (Option.any_eq_true _ _).mp hrun
  obtain ⟨hids, hsteady, c, hc, q, hq, hstatus, hbelow⟩ := of_decide_eq_true hw
  have hlives := Simulation.history_sound hhistory
  have hcontained : ∀ change ∈ changes, change.Contained oneChild sequences := by
    rintro (⟨resolve, turns⟩ | _) hchange
    · obtain ⟨seed, hseed⟩ := Simulation.history_resolve hhistory hchange
      obtain rfl : resolve = proceeding := by aesop
      exact ⟨sequences_runs, fun t ht _ => hsteady _ hchange t ht⟩
    all_goals trivial
  exact ⟨w, c, q, ⟨_, startOf_started _, hlives.evolves⟩, hc, hstatus, hq, hbelow,
    container_after_subtree oneChild sequences (by decide) _ w changes (startOf_started _) hlives
      hcontained hids c q hc (.inl hstatus) hq hbelow⟩

/-- The container is skipped while its first child is running. -/
theorem container_before_child : ∃ w c q, Reachable stoppable w ∧ w.pointerIds.Nodup ∧
    c ∈ w.executionPointers ∧ c.status = .skipped ∧ q ∈ w.executionPointers ∧
    c.scope ++ [c.id] <+: q.scope ∧ q.status = .running := by
  obtain ⟨changes, w, hlives, hw⟩ := Simulation.history_any (d := stoppable)
    (w := startOf stoppable (.object [("stop", .bool false)]))
    (l := [.pass stoppableBodies "c", .pass stoppableBodies "b", .pass stoppableBodies "a"])
    (f := fun _ w => w.pointerIds.Nodup ∧ ∃ c ∈ w.executionPointers,
      ∃ q ∈ w.executionPointers, c.status = .skipped ∧ c.scope ++ [c.id] <+: q.scope ∧
        q.status = .running) (by decide)
  obtain ⟨hids, c, hc, q, hq, hskipped, hbelow, hrunning⟩ := of_decide_eq_true hw
  exact ⟨w, c, q, ⟨_, startOf_started _ _, hlives.evolves⟩, hids, hc, hskipped, hq, hbelow,
    hrunning⟩

end Wfe
