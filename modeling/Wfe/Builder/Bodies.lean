import Wfe.Builder.WorkflowBuilder

/-!
# Bodies of containers

The body of a container is a closure that adds steps to the builder and may wire outcomes. All the
steps that it adds become children of the container. The other methods lead to new steps only, so
nothing leads to the steps of a body but their container, and what has been wired by hand.

## Main definitions

* `Edits`: what a closure over the builder does
* `Opens`, `Calls`, `Chain`, `Built`: calls of the builder's methods
* `Contains`: a builder with a container in it
* `Growth`, `Filled`: what calls do to the list of steps
* `StepBuilder.bodySteps`: the steps of a body

## Main results

* `Calls.growth`: calls lead to new steps
* `Opens.filled`: the call that opens a container
* `Built.findStep`: steps are found at their ids
* `Contains.container`, `Contains.apart`: what leads to the steps of a body
-/

namespace Wfe

/-! ## Calls of the builder -/

/-- What a closure does to the builder that it is given: it adds steps, and wires outcomes to the
steps listed. -/
inductive Edits (b : WorkflowBuilder) : List Nat → WorkflowBuilder → Prop
  | nil : Edits b [] b
  | addStep {wired : List Nat} {b' : WorkflowBuilder} (h : Edits b wired b') (stepType : String) :
      Edits b wired (b'.addStep stepType)
  | addStepTyped {wired : List Nat} {b' : WorkflowBuilder} (h : Edits b wired b')
      (stepType name : String) (config : Option Json) :
      Edits b wired (b'.addStepTyped stepType name config)
  | wireOutcome {wired : List Nat} {b' : WorkflowBuilder} (h : Edits b wired b')
      (fromStep toStep : Nat) (value : Option Json) :
      Edits b (wired ++ [toStep]) (b'.wireOutcome fromStep toStep value)

/-- What a closure does that adds branches to a container. -/
inductive Branches (pb : ParallelBuilder) : List Nat → ParallelBuilder → Prop
  | nil : Branches pb [] pb
  | branch {wired wired' : List Nat} {pb' : ParallelBuilder} (h : Branches pb wired pb')
      (body : WorkflowBuilder → WorkflowBuilder)
      (hbody : Edits pb'.builder wired' (body pb'.builder)) :
      Branches pb (wired ++ wired') (pb'.branch body)

/-- A step that is to contain others, wired to the current step. -/
def StepBuilder.inContainer (s : StepBuilder) (stepType : String)
    (mark : WorkflowStep → WorkflowStep) : WorkflowBuilder :=
  ((s.builder.addStep stepType).modifyStep s.builder.steps.length mark).wireOutcome s.stepId
    s.builder.steps.length none

/-- The methods that open a container with one body. -/
inductive BodyMethod
  | ifDo
  | whileDo
  | forEach
  | saga

namespace BodyMethod

def stepType : BodyMethod → String
  | ifDo => "wfe_core::primitives::if_step::IfStep"
  | whileDo => "wfe_core::primitives::while_step::WhileStep"
  | forEach => "wfe_core::primitives::foreach_step::ForEachStep"
  | saga => StepBuilder.sagaKey

def mark : BodyMethod → WorkflowStep → WorkflowStep
  | saga => ({ · with saga := true })
  | _ => fun s => s

/-- The method that opens the container. -/
def build (s : StepBuilder) (body : WorkflowBuilder → WorkflowBuilder) : BodyMethod → StepBuilder
  | ifDo => s.ifDo body
  | whileDo => s.whileDo body
  | forEach => s.forEach body
  | saga => s.saga body

end BodyMethod

/-- A call that opens a container: outcomes are wired to the steps listed while its body is
built. -/
inductive Opens (s : StepBuilder) : List Nat → StepBuilder → Prop
  | body {wired : List Nat} (c : BodyMethod) (body : WorkflowBuilder → WorkflowBuilder)
      (hbody : Edits (s.inContainer c.stepType c.mark) wired
        (body (s.inContainer c.stepType c.mark))) : Opens s wired (c.build s body)
  | parallel {wired : List Nat} (build : ParallelBuilder → ParallelBuilder)
      (hbuild : Branches ⟨s.inContainer sequenceKey id, s.builder.steps.length⟩ wired
        (build ⟨s.inContainer sequenceKey id, s.builder.steps.length⟩)) :
      Opens s wired (s.parallel build)

/-- A call of a method of `StepBuilder`, or a new start after the end of the workflow. -/
inductive Calls (s : StepBuilder) : List Nat → StepBuilder → Prop
  | name (name : String) : Calls s [] (s.name name)
  | id (externalId : String) : Calls s [] (s.id externalId)
  | onError (behavior : ErrorBehavior) : Calls s [] (s.onError behavior)
  | config (config : Json) : Calls s [] (s.config config)
  | compensateWith (stepType : String) : Calls s [] (s.compensateWith stepType)
  | thenStep (stepType : String) : Calls s [] (s.thenStep stepType)
  | thenFn (f : InlineClosure) : Calls s [] (s.thenFn f)
  | waitFor (eventName eventKey : String) : Calls s [] (s.waitFor eventName eventKey)
  | delay (duration : Duration) : Calls s [] (s.delay duration)
  | opens {wired : List Nat} {s' : StepBuilder} (h : Opens s wired s') : Calls s wired s'
  | startWith {wired : List Nat} {b : WorkflowBuilder} (h : Edits s.endWorkflow wired b)
      (stepType : String) : Calls s wired (b.startWith stepType)

/-- A chain of calls. -/
inductive Chain (s : StepBuilder) : List Nat → StepBuilder → Prop
  | nil : Chain s [] s
  | snoc {wired wired' : List Nat} {s' s'' : StepBuilder} (h : Chain s wired s')
      (hcall : Calls s' wired' s'') : Chain s (wired ++ wired') s''

/-- A builder made by calls of its methods. -/
inductive Built (b : WorkflowBuilder) : Prop
  | edits {wired : List Nat} (behavior : Option ErrorBehavior)
      (h : Edits { defaultErrorBehavior := behavior } wired b)
  | chain {wired wired₁ wired₂ : List Nat} {b₀ : WorkflowBuilder} {s : StepBuilder}
      (behavior : Option ErrorBehavior) (stepType : String)
      (hfirst : Edits { defaultErrorBehavior := behavior } wired b₀)
      (hchain : Chain (b₀.startWith stepType) wired₁ s) (hlast : Edits s.endWorkflow wired₂ b)

/-- A builder with a container in it: the call that opens the container leads to `opened`, and
outcomes have been wired by hand to the steps listed. -/
inductive Contains (opened : StepBuilder) : List Nat → WorkflowBuilder → Prop
  | intro {wired₀ wired₁ wired₂ wired₃ wired₄ : List Nat} {b₀ b : WorkflowBuilder}
      {s s' : StepBuilder} (behavior : Option ErrorBehavior) (stepType : String)
      (hfirst : Edits { defaultErrorBehavior := behavior } wired₀ b₀)
      (hbefore : Chain (b₀.startWith stepType) wired₁ s) (hopens : Opens s wired₂ opened)
      (hafter : Chain opened wired₃ s') (hlast : Edits s'.endWorkflow wired₄ b) :
      Contains opened (wired₀ ++ wired₁ ++ wired₂ ++ wired₃ ++ wired₄) b

/-! ## What calls do to the steps -/

section Modify

variable {b : WorkflowBuilder} {i j : Nat} {s : WorkflowStep} {f : WorkflowStep → WorkflowStep}

theorem getElem?_modifyStep_cases (h : (b.modifyStep j f).steps[i]? = some s) :
    b.steps[i]? = some s ∨ i = j ∧ ∃ s₀, b.steps[i]? = some s₀ ∧ s = f s₀ := by
  rw [WorkflowBuilder.modifyStep, List.getElem?_modify] at h
  obtain ⟨s₀, hs₀, rfl⟩ := Option.map_eq_some_iff.mp h
  by_cases hij : j = i
  · exact .inr ⟨hij.symm, s₀, hs₀, by rw [if_pos hij]⟩
  · exact .inl (by rw [hs₀, if_neg hij])

@[simp] theorem length_modifyStep : (b.modifyStep j f).steps.length = b.steps.length :=
  List.length_modify ..

theorem getElem?_addStep_cases {stepType : String} (h : (b.addStep stepType).steps[i]? = some s) :
    b.steps[i]? = some s ∨
      i = b.steps.length ∧ s = WorkflowStep.new b.steps.length stepType := by
  rw [WorkflowBuilder.addStep, List.getElem?_append] at h
  split_ifs at h with hi
  · exact .inl h
  · obtain ⟨hlt, rfl⟩ := List.getElem?_eq_some_iff.mp h
    have hi' : i = b.steps.length := by
      rw [List.length_singleton] at hlt
      omega
    exact .inr ⟨hi', by simp⟩

@[simp] theorem length_addStep (stepType : String) :
    (b.addStep stepType).steps.length = b.steps.length + 1 :=
  List.length_append

end Modify

/-- What calls of the builder's methods do to the steps `l`: steps are added, and outcomes are wired
by hand to the steps `wired`, and otherwise to new steps with ids less than `n` only. No step that
was there gets another child. -/
structure Growth (wired : List Nat) (n : Nat) (l l' : List WorkflowStep) : Prop where
  length_le : l.length ≤ l'.length
  id : ∀ (i : Nat) (s : WorkflowStep), l'[i]? = some s →
    l[i]?.map WorkflowStep.id = some s.id ∨ l.length ≤ i ∧ s.id = i
  onward : ∀ (i : Nat) (s : WorkflowStep), l'[i]? = some s → ∀ k ∈ s.links, k ∈ wired ∨
    (l.length ≤ k ∧ k < n) ∨ ∃ s₀ : WorkflowStep, l[i]? = some s₀ ∧ k ∈ s₀.links
  children : ∀ (i : Nat) (s : WorkflowStep), l'[i]? = some s →
    (∃ s₀ : WorkflowStep, l[i]? = some s₀ ∧ s.children = s₀.children) ∨
      l.length ≤ i ∧ ∀ k ∈ s.children, l.length ≤ k ∧ k < n

namespace Growth

variable {wired wired' : List Nat} {l l' l'' : List WorkflowStep} {b : WorkflowBuilder}
  {i k n m : Nat} {f : WorkflowStep → WorkflowStep}

theorem refl (n : Nat) (l : List WorkflowStep) : Growth [] n l l where
  length_le := Nat.le_refl _
  id i s hs := .inl (by rw [hs, Option.map_some])
  onward i s hs k hk := .inr (.inr ⟨s, hs, hk⟩)
  children i s hs := .inl ⟨s, hs, rfl⟩

theorem mono (h : Growth wired n l l') (hsub : wired ⊆ wired') (hn : n ≤ m) :
    Growth wired' m l l' where
  length_le := h.length_le
  id := h.id
  onward i s hs k hk := (h.onward i s hs k hk).imp (fun hk => hsub hk)
    (Or.imp_left fun hk => ⟨hk.1, Nat.lt_of_lt_of_le hk.2 hn⟩)
  children i s hs := (h.children i s hs).imp_right fun ⟨hi, hc⟩ =>
    ⟨hi, fun k hk => ⟨(hc k hk).1, Nat.lt_of_lt_of_le (hc k hk).2 hn⟩⟩

theorem trans (h : Growth wired n l l') (h' : Growth wired' n l' l'') :
    Growth (wired ++ wired') n l l'' where
  length_le := Nat.le_trans h.length_le h'.length_le
  id i s hs := by
    rcases h'.id i s hs with hid | ⟨hi, hid⟩
    · obtain ⟨s', hs', hss'⟩ := Option.map_eq_some_iff.mp hid
      rw [← hss']
      exact h.id i s' hs'
    · exact .inr ⟨Nat.le_trans h.length_le hi, hid⟩
  onward i s hs k hk := by
    rcases h'.onward i s hs k hk with hk | ⟨hlt, hlt'⟩ | ⟨s', hs', hk⟩
    · exact .inl (List.mem_append_right _ hk)
    · exact .inr (.inl ⟨Nat.le_trans h.length_le hlt, hlt'⟩)
    · exact (h.onward i s' hs' k hk).imp_left (List.mem_append_left _)
  children i s hs := by
    rcases h'.children i s hs with ⟨s', hs', hc⟩ | ⟨hi, hc⟩
    · rw [hc]
      exact h.children i s' hs'
    · exact .inr ⟨Nat.le_trans h.length_le hi, fun k hk =>
        ⟨Nat.le_trans h.length_le (hc k hk).1, (hc k hk).2⟩⟩

theorem addStep (h : Growth wired n l b.steps) (stepType : String) :
    Growth wired n l (b.addStep stepType).steps := by
  have hadd : Growth [] n b.steps (b.addStep stepType).steps := by
    refine ⟨by simp, fun i s hs => ?_, fun i s hs k hk => ?_, fun i s hs => ?_⟩ <;>
    obtain hs | ⟨rfl, rfl⟩ := getElem?_addStep_cases hs
    · exact .inl (by rw [hs, Option.map_some])
    · exact .inr ⟨Nat.le_refl _, rfl⟩
    · exact .inr (.inr ⟨s, hs, hk⟩)
    · cases hk
    · exact .inl ⟨s, hs, rfl⟩
    · exact .inr ⟨Nat.le_refl _, nofun⟩
  simpa using h.trans hadd

/-- A step is changed: it may lead to a step that is new, or to one of those wired by hand. -/
theorem modifyStep (h : Growth wired n l b.steps) (hid : ∀ s, (f s).id = s.id)
    (honward : ∀ s, ∀ k ∈ (f s).links, k ∈ s.links ∨ k ∈ wired ∨ l.length ≤ k ∧ k < n)
    (hchildren : ∀ s, (f s).children = s.children) :
    Growth wired n l (b.modifyStep i f).steps := by
  refine ⟨by simpa using h.length_le, fun j s hs => ?_, fun j s hs k hk => ?_, fun j s hs => ?_⟩ <;>
  obtain hs | ⟨rfl, s₀, hs₀, rfl⟩ := getElem?_modifyStep_cases hs
  · exact h.id j s hs
  · rw [hid]
    exact h.id j s₀ hs₀
  · exact h.onward j s hs k hk
  · rcases honward s₀ k hk with hk | hk | hk
    · exact h.onward j s₀ hs₀ k hk
    · exact .inl hk
    · exact .inr (.inl hk)
  · exact h.children j s hs
  · rw [hchildren]
    exact h.children j s₀ hs₀

theorem wireOutcome (h : Growth wired n l b.steps) (fromStep : Nat) (value : Option Json)
    (hk : k ∈ wired ∨ l.length ≤ k ∧ k < n) :
    Growth wired n l (b.wireOutcome fromStep k value).steps := by
  refine h.modifyStep (fun _ => rfl) (fun s j hj => ?_) fun _ => rfl
  simp only [WorkflowStep.links, List.map_append, List.map_cons, List.map_nil, List.append_assoc,
    List.mem_append, List.mem_singleton] at hj ⊢
  rcases hj with hj | rfl | hj
  · exact .inl (.inl hj)
  · exact .inr hk
  · exact .inl (.inr hj)

end Growth

section Calls

variable {wired wired' : List Nat} {b b' : WorkflowBuilder} {s s' : StepBuilder} {c n : Nat}
  {l₀ : List WorkflowStep} {body : WorkflowBuilder → WorkflowBuilder}

/-- A closure leads to no steps but those that it wires. -/
theorem Edits.growth (h : Edits b wired b') : Growth wired 0 b.steps b'.steps := by
  induction h with
  | nil => exact .refl 0 _
  | addStep _ stepType ih => exact ih.addStep stepType
  | addStepTyped _ stepType name config ih =>
    exact (ih.addStep stepType).modifyStep (fun _ => rfl) (fun _ _ hk => .inl hk) fun _ => rfl
  | wireOutcome _ fromStep toStep value ih =>
    refine (ih.mono (List.subset_append_left _ _) (Nat.le_refl 0)).wireOutcome fromStep value ?_
    exact .inl (List.mem_append_right _ List.mem_cons_self)

/-- A container is added to the steps `l₀`, with its body: the steps of the body are its children,
and nothing but what has been wired by hand leads to them otherwise. -/
structure Filled (wired : List Nat) (l₀ l : List WorkflowStep) : Prop where
  length : l₀.length < l.length
  id : ∀ (i : Nat) (s : WorkflowStep), l[i]? = some s →
    l₀[i]?.map WorkflowStep.id = some s.id ∨ l₀.length ≤ i ∧ s.id = i
  onward : ∀ (i : Nat) (s : WorkflowStep), l[i]? = some s → ∀ k ∈ s.links, k ∈ wired ∨
    k = l₀.length ∨ ∃ s₀ : WorkflowStep, l₀[i]? = some s₀ ∧ k ∈ s₀.links
  others : ∀ (i : Nat) (s : WorkflowStep), l[i]? = some s → i ≠ l₀.length →
    (∃ s₀ : WorkflowStep, l₀[i]? = some s₀ ∧ s.children = s₀.children) ∨
      l₀.length ≤ i ∧ s.children = []
  own : ∀ s : WorkflowStep, l[l₀.length]? = some s →
    s.children = List.range' (l₀.length + 1) (l.length - (l₀.length + 1))

theorem Filled.growth {l : List WorkflowStep} (h : Filled wired l₀ l) :
    Growth wired l.length l₀ l where
  length_le := Nat.le_of_lt h.length
  id := h.id
  onward i s hs k hk := by
    rcases h.onward i s hs k hk with hk | rfl | hk
    · exact .inl hk
    · exact .inr (.inl ⟨Nat.le_refl _, h.length⟩)
    · exact .inr (.inr hk)
  children i s hs := by
    by_cases hi : i = l₀.length
    · subst hi
      refine .inr ⟨Nat.le_refl _, fun k hk => ?_⟩
      rw [h.own s hs, List.mem_range'_1] at hk
      omega
    · exact (h.others i s hs hi).imp_right fun ⟨hi, hc⟩ => ⟨hi, by simp [hc]⟩

/-- A step is added that is to be the container. -/
theorem Filled.first {l : List WorkflowStep} (h : Growth [l₀.length] 0 l₀ l)
    (hlength : l.length = l₀.length + 1) : Filled [] l₀ l where
  length := by omega
  id := h.id
  onward i s hs k hk := by
    rcases h.onward i s hs k hk with hk | ⟨-, hk⟩ | hk
    · exact .inr (.inl (List.mem_singleton.mp hk))
    · cases hk
    · exact .inr (.inr hk)
  -- With the bound 0 there is nothing new to contain.
  others i s hs _ := (h.children i s hs).imp_right fun ⟨hi, hc⟩ =>
    ⟨hi, List.eq_nil_iff_forall_not_mem.mpr fun k hk => Nat.not_lt_zero k (hc k hk).2⟩
  own s hs := by
    rcases h.children _ s hs with ⟨s₀, hs₀, -⟩ | ⟨-, hc⟩
    · simp at hs₀
    · rw [hlength, Nat.sub_self]
      exact List.eq_nil_iff_forall_not_mem.mpr fun k hk => Nat.not_lt_zero k (hc k hk).2

/-- The container of a body is changed in its children only, and the other steps are not changed. -/
theorem getElem?_addBody_cases {i : Nat} {s : WorkflowStep}
    (hs : (b.addBody c body).steps[i]? = some s) :
    ∃ s', (body b).steps[i]? = some s' ∧ s.id = s'.id ∧ s.links = s'.links ∧
      (i ≠ c → s.children = s'.children) := by
  by_cases hi : i = c
  · subst hi
    rw [b.getElem?_addBody i body] at hs
    obtain ⟨s', hs', rfl⟩ := Option.map_eq_some_iff.mp hs
    exact ⟨s', hs', rfl, rfl, fun h => absurd rfl h⟩
  · exact ⟨s, (b.steps_addBody c body).2 i hi ▸ hs, rfl, rfl, fun _ => rfl⟩

/-- A body is built. -/
theorem Filled.addBody (h : Filled wired l₀ b.steps) (hbody : Edits b wired' (body b)) :
    Filled (wired ++ wired') l₀ (b.addBody l₀.length body).steps := by
  obtain ⟨hlength, -⟩ := b.steps_addBody l₀.length body
  have hown := b.getElem?_addBody l₀.length body
  have hedits := hbody.growth
  have hlt := h.length
  have hle := hedits.length_le
  refine ⟨by omega, fun i s hs => ?_, fun i s hs k hk => ?_, fun i s hs hi => ?_, fun s hs => ?_⟩
  · obtain ⟨s', hs', hid, -⟩ := getElem?_addBody_cases hs
    rw [hid]
    rcases hedits.id i s' hs' with hid' | ⟨hi, hid'⟩
    · obtain ⟨s₁, hs₁, hid₁⟩ := Option.map_eq_some_iff.mp hid'
      exact hid₁ ▸ h.id i s₁ hs₁
    · exact .inr ⟨by omega, hid'⟩
  · obtain ⟨s', hs', -, honward, -⟩ := getElem?_addBody_cases hs
    rw [honward] at hk
    rcases hedits.onward i s' hs' k hk with hk | ⟨-, hk⟩ | ⟨s₁, hs₁, hk⟩
    · exact .inl (List.mem_append_right _ hk)
    · cases hk
    · exact (h.onward i s₁ hs₁ k hk).imp_left (List.mem_append_left _)
  · obtain ⟨s', hs', -, -, hc⟩ := getElem?_addBody_cases hs
    rw [hc hi]
    rcases hedits.children i s' hs' with ⟨s₁, hs₁, hc'⟩ | ⟨hi', hc'⟩
    · exact hc' ▸ h.others i s₁ hs₁ hi
    · exact .inr ⟨by omega, List.eq_nil_iff_forall_not_mem.mpr fun k hk =>
        Nat.not_lt_zero k (hc' k hk).2⟩
  · rw [hown] at hs
    obtain ⟨s', hs', rfl⟩ := Option.map_eq_some_iff.mp hs
    rcases hedits.children _ s' hs' with ⟨s₁, hs₁, hc⟩ | ⟨hi, -⟩
    · -- The steps of this body come after those of the bodies before.
      rw [hlength]
      show s'.children ++ _ = _
      rw [hc, h.own s₁ hs₁]
      have hstart : b.steps.length = l₀.length + 1 + (b.steps.length - (l₀.length + 1)) := by omega
      have hsum : (body b).steps.length - (l₀.length + 1) =
          b.steps.length - (l₀.length + 1) + ((body b).steps.length - b.steps.length) := by omega
      rw [hsum, ← List.range'_append_1, ← hstart]
    · omega

/-- A step is added and wired that is to contain others. -/
theorem filled_inContainer (s : StepBuilder) (stepType : String)
    (mark : WorkflowStep → WorkflowStep) (hid : ∀ s, (mark s).id = s.id)
    (honward : ∀ s, (mark s).links = s.links) (hchildren : ∀ s, (mark s).children = s.children) :
    Filled [] s.builder.steps (s.inContainer stepType mark).steps := by
  refine .first ?_ (by simp [StepBuilder.inContainer, WorkflowBuilder.wireOutcome])
  refine ((((Growth.refl 0 _).addStep stepType).modifyStep hid
    (fun s k hk => .inl (honward s ▸ hk)) hchildren).mono (List.nil_subset _)
    (Nat.le_refl 0)).wireOutcome _ _ (.inl List.mem_cons_self)

theorem Branches.filled {pb pb' : ParallelBuilder} (h : Branches pb wired pb')
    (hpb : Filled [] l₀ pb.builder.steps) (hid : pb.containerId = l₀.length) :
    pb'.containerId = l₀.length ∧ Filled wired l₀ pb'.builder.steps := by
  induction h with
  | nil => exact ⟨hid, hpb⟩
  | branch _ body hbody ih =>
    obtain ⟨hid', hfilled⟩ := ih
    refine ⟨hid', ?_⟩
    rw [ParallelBuilder.branch, hid']
    exact hfilled.addBody hbody

/-- The call that opens a container. -/
theorem Opens.filled (h : Opens s wired s') :
    s'.stepId = s.builder.steps.length ∧ Filled wired s.builder.steps s'.builder.steps := by
  cases h with
  | body c body hbody =>
    have hfirst : Filled [] s.builder.steps (s.inContainer c.stepType c.mark).steps := by
      cases c <;> exact filled_inContainer s _ _ (fun _ => rfl) (fun _ => rfl) fun _ => rfl
    have hbuild : (c.build s body).stepId = s.builder.steps.length ∧
        (c.build s body).builder.steps =
          ((s.inContainer c.stepType c.mark).addBody s.builder.steps.length body).steps := by
      cases c <;> exact ⟨rfl, rfl⟩
    exact ⟨hbuild.1, hbuild.2 ▸ hfirst.addBody hbody⟩
  | parallel build hbuild =>
    have hmark : s.inContainer sequenceKey id =
        (s.builder.addStep sequenceKey).wireOutcome s.stepId s.builder.steps.length none := by
      rw [StepBuilder.inContainer, WorkflowBuilder.modifyStep, List.modify_id]
    have hfirst := filled_inContainer s sequenceKey id (fun _ => rfl) (fun _ => rfl)
      fun _ => rfl
    obtain ⟨-, hfilled⟩ := hbuild.filled hfirst rfl
    refine ⟨rfl, ?_⟩
    rw [hmark] at hfilled
    exact hfilled

/-- Every call leads to new steps only, but for what is wired by hand. -/
theorem Calls.growth (h : Calls s wired s') :
    Growth wired s'.builder.steps.length s.builder.steps s'.builder.steps := by
  have hrefl (n : Nat) : Growth [] n s.builder.steps s.builder.steps := .refl n _
  -- A new step that is wired to the current one.
  have hnext (stepType : String) : Growth [] (s.builder.steps.length + 1) s.builder.steps
      ((s.builder.addStep stepType).wireOutcome s.stepId s.builder.steps.length none).steps :=
    ((hrefl _).addStep stepType).wireOutcome _ _
      (.inr ⟨Nat.le_refl _, Nat.lt_succ_self _⟩)
  cases h with
  | name | id | onError | config =>
    exact (hrefl _).modifyStep (fun _ => rfl) (fun _ _ hk => .inl hk) fun _ => rfl
  | compensateWith stepType =>
    refine ((hrefl _).addStep stepType).modifyStep (fun _ => rfl) (fun step k hk => ?_) fun _ => rfl
    rcases List.mem_append.mp hk with hk | hk
    · exact .inl (List.mem_append_left _ hk)
    · -- The compensation step is the one just added.
      obtain rfl : s.builder.steps.length = k := Option.some_inj.mp (Option.mem_toList.mp hk)
      exact .inr (.inr ⟨Nat.le_refl _, by simp [StepBuilder.compensateWith]⟩)
  | thenStep stepType =>
    simpa [StepBuilder.thenStep, WorkflowBuilder.wireOutcome] using hnext stepType
  | thenFn f => simpa [StepBuilder.thenFn, WorkflowBuilder.wireOutcome] using hnext inlineKey
  | waitFor eventName eventKey =>
    have hlength : (s.waitFor eventName eventKey).builder.steps.length =
        s.builder.steps.length + 1 := by simp [StepBuilder.waitFor, WorkflowBuilder.wireOutcome]
    rw [hlength]
    exact (hnext _).modifyStep (fun _ => rfl) (fun _ _ hk => .inl hk) fun _ => rfl
  | delay duration =>
    have hlength : (s.delay duration).builder.steps.length = s.builder.steps.length + 1 := by
      simp [StepBuilder.delay, WorkflowBuilder.wireOutcome]
    rw [hlength]
    exact (hnext _).modifyStep (fun _ => rfl) (fun _ _ hk => .inl hk) fun _ => rfl
  | opens h => exact h.filled.2.growth
  | startWith h stepType =>
    exact (h.growth.mono (List.Subset.refl _) (Nat.zero_le _)).addStep stepType

theorem Chain.growth (h : Chain s wired s') :
    Growth wired s'.builder.steps.length s.builder.steps s'.builder.steps := by
  induction h with
  | nil => exact .refl _ _
  | snoc _ hcall ih =>
    have hcall := hcall.growth
    exact (ih.mono (List.Subset.refl _) hcall.length_le).trans hcall

theorem Chain.trans {s'' : StepBuilder} (h : Chain s wired s') (h' : Chain s' wired' s'') :
    Chain s (wired ++ wired') s'' := by
  induction h' with
  | nil => rwa [List.append_nil]
  | snoc _ hcall ih => exact List.append_assoc .. ▸ ih.snoc hcall

/-- The steps of a chain of calls on a builder that has been edited. -/
theorem Edits.growth_chain {stepType : String} (h : Edits b wired b')
    (hchain : Chain (b'.startWith stepType) wired' s) :
    Growth (wired ++ wired') s.builder.steps.length b.steps s.builder.steps :=
  ((h.growth.mono (List.Subset.refl _) (Nat.zero_le _)).addStep stepType).trans hchain.growth

end Calls

/-! ## Built steps -/

section Built

variable {b : WorkflowBuilder} {workflowId : String} {version i k : Nat} {s : WorkflowStep}
  {opened : StepBuilder} {wired : List Nat}

theorem Built.growth (h : Built b) : ∃ wired n, Growth wired n [] b.steps := by
  cases h with
  | edits behavior hedits => exact ⟨_, _, hedits.growth⟩
  | chain behavior stepType hfirst hchain hlast =>
    exact ⟨_, _, (hfirst.growth_chain hchain).trans
      (hlast.growth.mono (List.Subset.refl _) (Nat.zero_le _))⟩

/-- The steps of a builder stand at the indices that are their ids. -/
theorem Built.id (h : Built b) (hs : b.steps[i]? = some s) : s.id = i := by
  obtain ⟨wired, n, hgrowth⟩ := h.growth
  rcases hgrowth.id i s hs with hnil | ⟨-, hid⟩
  · simp at hnil
  · exact hid

/-- Steps are found at their ids. -/
theorem Built.findStep (h : Built b) :
    (b.build workflowId version).findStep k = b.steps[k]? := by
  cases hfind : (b.build workflowId version).findStep k with
  | some s =>
    obtain ⟨i, hi⟩ := List.mem_iff_getElem?.mp (List.mem_of_find?_eq_some hfind)
    have hk := (b.build workflowId version).findStep_id hfind
    rw [← hk, h.id hi]
    exact hi.symm
  | none =>
    cases hk : b.steps[k]? with
    | none => rfl
    | some s =>
      have hnot := List.find?_eq_none.mp hfind s (List.mem_of_getElem? hk)
      simp [h.id hk] at hnot

/-- A builder with a container in it is built by calls. -/
theorem Contains.built (h : Contains opened wired b) : Built b := by
  cases h with
  | intro behavior stepType hfirst hbefore hopens hafter hlast =>
    exact .chain behavior stepType hfirst ((hbefore.snoc (.opens hopens)).trans hafter) hlast

end Built

/-! ## The steps of a body -/

/-- The steps that have been added in the body of the container just opened. -/
def StepBuilder.bodySteps (opened : StepBuilder) : List Nat :=
  List.range' (opened.stepId + 1) (opened.builder.steps.length - (opened.stepId + 1))

section Contains

variable {opened : StepBuilder} {wired : List Nat} {b : WorkflowBuilder}

theorem mem_bodySteps {k : Nat} :
    k ∈ opened.bodySteps ↔ opened.stepId < k ∧ k < opened.builder.steps.length := by
  rw [StepBuilder.bodySteps, List.mem_range'_1]
  omega

/-- There are steps before the container, to which the container is added, and steps after it. -/
theorem Contains.stages (h : Contains opened wired b) : ∃ wired₁ wired₂ wired₃ n l,
    wired = wired₁ ++ wired₂ ++ wired₃ ∧ opened.stepId = l.length ∧ Growth wired₁ l.length [] l ∧
      Filled wired₂ l opened.builder.steps ∧ Growth wired₃ n opened.builder.steps b.steps := by
  cases h with
  | @intro wired₀ wired₁ wired₂ wired₃ wired₄ b₀ b s s' behavior stepType hfirst hbefore hopens
      hafter hlast =>
    obtain ⟨hid, hfilled⟩ := hopens.filled
    exact ⟨_, _, _, _, _, List.append_assoc .., hid, hfirst.growth_chain hbefore, hfilled,
      hafter.growth.trans (hlast.growth.mono (List.Subset.refl _) (Nat.zero_le _))⟩

/-- The steps of a body are the children of their container. -/
theorem Contains.container (h : Contains opened wired b) :
    ∃ s, b.steps[opened.stepId]? = some s ∧ s.children = opened.bodySteps := by
  obtain ⟨wired₁, wired₂, wired₃, n, l, rfl, hid, -, hfilled, hafter⟩ := h.stages
  have hlt := hfilled.length
  have hle := hafter.length_le
  have hlt' : l.length < b.steps.length := by omega
  rw [hid]
  refine ⟨_, List.getElem?_eq_getElem hlt', ?_⟩
  rcases hafter.children _ _ (List.getElem?_eq_getElem hlt') with ⟨s, hs, hc⟩ | ⟨hi, -⟩
  · rw [hc, hfilled.own s hs, StepBuilder.bodySteps, hid]
  · omega

/-- **What leads to the steps of a body.** Nothing but their container, and what has been wired by
hand. -/
theorem Contains.apart (h : Contains opened wired b) {i k : Nat} {s : WorkflowStep}
    (hs : b.steps[i]? = some s) (hk : k ∈ opened.bodySteps) (hwired : k ∉ wired) :
    k ∉ s.links ∧ (k ∈ s.children → i = opened.stepId) := by
  obtain ⟨wired₁, wired₂, wired₃, n, l, rfl, hid, hbefore, hfilled, hafter⟩ := h.stages
  obtain ⟨hk, hk'⟩ := mem_bodySteps.mp hk
  simp only [List.mem_append, not_or] at hwired
  obtain ⟨⟨hwired₁, hwired₂⟩, hwired₃⟩ := hwired
  rw [hid] at hk ⊢
  constructor
  · intro hon
    rcases hafter.onward i s hs k hon with hon | ⟨hon, -⟩ | ⟨s₁, hs₁, hon⟩
    · exact hwired₃ hon
    · omega
    · rcases hfilled.onward i s₁ hs₁ k hon with hon | hon | ⟨s₂, hs₂, hon⟩
      · exact hwired₂ hon
      · omega
      · -- A step before the container leads to steps before it.
        rcases hbefore.onward i s₂ hs₂ k hon with hon | ⟨-, hon⟩ | ⟨s₃, hs₃, -⟩
        · exact hwired₁ hon
        · omega
        · simp at hs₃
  · intro hchild
    by_contra hi
    rcases hafter.children i s hs with ⟨s₁, hs₁, hc⟩ | ⟨-, hc⟩
    · rw [hc] at hchild
      rcases hfilled.others i s₁ hs₁ hi with ⟨s₂, hs₂, hc'⟩ | ⟨-, hc'⟩
      · rw [hc'] at hchild
        rcases hbefore.children i s₂ hs₂ with ⟨s₃, hs₃, -⟩ | ⟨-, hc''⟩
        · simp at hs₃
        · have hlt := (hc'' k hchild).2
          omega
      · simp [hc'] at hchild
    · have hle := (hc k hchild).1
      omega

end Contains

end Wfe
