import Mathlib.Data.List.Perm.Basic
import Wfe.Js.StepBridge

/-!
# Every step gets its own answer

An answer finds its caller by the number of the request, and numbers repeat between step types. So
every caller gets what came of the call on its own context exactly if no request is handed out
while another with its number is in flight.

## Main definitions

* `Caller.AnsweredOwn`: the caller waits, or has the answer to its own request
* `Bridge.Apart`: a request is handed out only if its number is not in flight
* `Bridge.Matched`: where the senders of the requests under way are

## Main results

* `Bridge.Matched.step`: what a step keeps
* `answered_own_iff`: in which runs every caller gets its own answer
-/

namespace Wfe.Js

variable {F : Type}

/-- The answer is that of a function registered for the step type of its request, or says that there
is none. -/
def Answer.AsRegistered (inherited : String → Option F) (es : List (Event F)) (a : Answer F) :
    Prop :=
  match a.function with
  | none => a.outcome = noStepFunction a.request.stepType
  | some fn =>
    inherited a.request.stepType = some fn ∨
      .registerStepFunction a.request.stepType (some fn) ∈ es

/-- The caller waits, or it has the answer to its own request. -/
def Caller.AnsweredOwn (inherited : String → Option F) (es : List (Event F)) (c : Caller F) :
    Prop :=
  match c.state with
  | .sending | .waiting => True
  | .answered a => a.request = c.request ∧ a.AsRegistered inherited es
  | .dropped => False

theorem Answer.AsRegistered.concat {inherited : String → Option F} {es : List (Event F)}
    {e : Event F} {a : Answer F} (h : a.AsRegistered inherited es) :
    a.AsRegistered inherited (es ++ [e]) := by
  unfold Answer.AsRegistered at h ⊢
  cases hf : a.function with
  | none =>
    rw [hf] at h
    exact h
  | some fn =>
    rw [hf] at h
    exact h.imp_right (List.mem_append_left _)

theorem Caller.AnsweredOwn.concat {inherited : String → Option F} {es : List (Event F)}
    {e : Event F} {c : Caller F} (h : c.AnsweredOwn inherited es) :
    c.AnsweredOwn inherited (es ++ [e]) := by
  obtain ⟨request, state⟩ := c
  cases state with
  | sending => exact h
  | waiting => exact h
  | answered a => exact ⟨h.1, h.2.concat⟩
  | dropped => exact h

/-- The request a loop has not answered. -/
def ExecutorLoop.request? : ExecutorLoop F → Option StepRequest
  | received request | calling request _ | failed request => some request
  | ready | polling | stopped => none

namespace Bridge

/-- The requests handed out and not answered. -/
def serving (σ : Bridge F) : List StepRequest := σ.loops.filterMap ExecutorLoop.request?

/-- A request is handed out only if none with its number is in flight. -/
def Apart (σ : Bridge F) : Event F → Prop
  | .recv _ => ∀ r ∈ σ.channel.head?, σ.inflight r.requestId = none
  | _ => True

/-- Where the senders are: each waiting caller's is with its request in the channel, or in flight
while a loop has not answered the request. -/
structure Matched (σ : Bridge F) : Prop where
  ids : ∀ i (c : Caller F), σ.callers[i]? = some c → c.request.caller = i
  distinct : ((σ.channel ++ σ.serving).map (·.caller)).Nodup
  waiting : ∀ r ∈ σ.channel ++ σ.serving, σ.callers[r.caller]? = some ⟨r, .waiting⟩
  listed : ∀ c ∈ σ.callers, c.state = .waiting → c.request ∈ σ.channel ++ σ.serving
  inflight : ∀ r ∈ σ.serving, σ.inflight r.requestId = some r.caller
  served : ∀ id c, σ.inflight id = some c →
    ∃ r ∈ σ.serving, r.requestId = id ∧ r.caller = c

variable {toRfc3339 : DateTime → String} {capacity : Nat} {σ σ' : Bridge F} {l : Nat}
  {a b : ExecutorLoop F} {r : StepRequest}

/-! ## What the steps do to the requests under way -/

/-- Changing one entry of a list trades what it contributed for what the new entry does. -/
theorem filterMap_set_perm {α β : Type} {f : α → Option β} {xs : List α} {i : Nat} {x : α}
    (h : xs[i]? = some x) (y : α) :
    ((xs.set i y).filterMap f ++ (f x).toList).Perm (xs.filterMap f ++ (f y).toList) := by
  obtain ⟨hi, rfl⟩ := List.getElem?_eq_some_iff.1 h
  obtain ⟨pre, post, hxs, -, hset⟩ := @List.exists_of_set _ i y _ hi
  rw [hset]
  conv_rhs => rw [hxs]
  have hcons (z : α) : (z :: post).filterMap f = (f z).toList ++ post.filterMap f := by
    cases hz : f z <;> simp [hz]
  simp only [List.filterMap_append, hcons, List.append_assoc]
  refine List.Perm.append_left _ ?_
  rw [← List.append_assoc]
  exact List.perm_append_comm.trans (List.perm_append_comm.append_left _)

theorem serving_set_perm (h : σ.loops[l]? = some a) :
    ((σ.loops.set l b).filterMap ExecutorLoop.request? ++ a.request?.toList).Perm
      (σ.serving ++ b.request?.toList) :=
  filterMap_set_perm h b

theorem mem_serving (h : σ.loops[l]? = some a) (hr : a.request? = some r) : r ∈ σ.serving :=
  List.mem_filterMap.2 ⟨a, List.mem_of_getElem? h, hr⟩

/-- Only the requests under way matter, not which loops hold them. -/
theorem Matched.congr (hσ : σ.Matched) (hcallers : σ'.callers = σ.callers)
    (hinflight : σ'.inflight = σ.inflight) (hchannel : σ'.channel = σ.channel)
    (hserving : σ'.serving.Perm σ.serving) : σ'.Matched := by
  have hall : (σ'.channel ++ σ'.serving).Perm (σ.channel ++ σ.serving) := by
    rw [hchannel]
    exact hserving.append_left _
  constructor
  · rw [hcallers]
    exact hσ.ids
  · exact (hall.map _).nodup_iff.2 hσ.distinct
  · rw [hcallers]
    exact fun r hr => hσ.waiting r (hall.mem_iff.1 hr)
  · rw [hcallers]
    exact fun c hc hwait => hall.mem_iff.2 (hσ.listed c hc hwait)
  · rw [hinflight]
    exact fun r hr => hσ.inflight r (hserving.mem_iff.1 hr)
  · rw [hinflight]
    intro id c hid
    obtain ⟨r, hr, hrid⟩ := hσ.served id c hid
    exact ⟨r, hserving.mem_iff.2 hr, hrid⟩

/-- A loop that goes on with the same request, or without one as before. -/
theorem Matched.setLoop (hσ : σ.Matched) (h : σ.loops[l]? = some a) (b : ExecutorLoop F)
    (hab : a.request? = b.request?) (receiver : Bool) :
    Matched { σ with receiver := receiver, loops := σ.loops.set l b } := by
  refine hσ.congr rfl rfl rfl ?_
  have hperm := serving_set_perm (b := b) h
  rw [hab] at hperm
  exact (List.perm_append_right_iff _).1 hperm

theorem matched_start (inherited : String → Option F) : Matched (start inherited) := by
  constructor <;> simp [start, serving]

/-- A call begins: its sender is with the caller. -/
theorem Matched.beginRun {registration : Nat} {ctx : StepExecutionContext} (hσ : σ.Matched)
    (h : σ.beginRun toRfc3339 registration ctx = some σ') : σ'.Matched := by
  unfold Bridge.beginRun at h
  split at h
  · cases h
  · split_ifs at h
    rw [Option.some_inj] at h
    subst h
    constructor
    · intro i c hc
      rcases Nat.lt_trichotomy i σ.callers.length with hi | rfl | hi
      · rw [List.getElem?_append_left hi] at hc
        exact hσ.ids i c hc
      · rw [List.getElem?_concat_length, Option.some_inj] at hc
        rw [← hc]
      · rw [List.getElem?_eq_none (by rw [List.length_append]; exact hi)] at hc
        cases hc
    · exact hσ.distinct
    · intro r hr
      have hold := hσ.waiting r hr
      obtain ⟨hlt, -⟩ := List.getElem?_eq_some_iff.1 hold
      rw [List.getElem?_append_left hlt]
      exact hold
    · intro c hc hwait
      rcases List.mem_append.1 hc with hc | hc
      · exact hσ.listed c hc hwait
      · rw [List.mem_singleton.1 hc] at hwait
        cases hwait
    · exact hσ.inflight
    · exact hσ.served

/-- A request enters the channel, its sender with it. -/
theorem Matched.send {c : Nat} (hσ : σ.Matched) (h : σ.send capacity c = some σ') :
    σ'.Matched := by
  unfold Bridge.send at h
  split at h
  · next request hc =>
    split_ifs at h
    rw [Option.some_inj] at h
    subst h
    have hid := hσ.ids c _ hc
    obtain ⟨hlt, -⟩ := List.getElem?_eq_some_iff.1 hc
    -- The caller was sending, so its request was not under way.
    have hne (r : StepRequest) (hr : r ∈ σ.channel ++ σ.serving) : r.caller ≠ c := by
      intro heq
      have hw := hσ.waiting r hr
      rw [heq, hc] at hw
      cases hw
    have hperm : (σ.channel ++ [request] ++ σ.serving).Perm
        (request :: (σ.channel ++ σ.serving)) := by
      rw [List.append_assoc]
      exact List.perm_middle
    constructor
    · intro i d hd
      rw [List.getElem?_set] at hd
      split_ifs at hd with hci
      · rw [Option.some_inj] at hd
        rw [← hd, ← hci]
        exact hid
      · exact hσ.ids i d hd
    · refine (hperm.map _).nodup_iff.2 ?_
      rw [List.map_cons, List.nodup_cons]
      refine ⟨?_, hσ.distinct⟩
      intro hmem
      obtain ⟨r, hr, heq⟩ := List.mem_map.1 hmem
      exact hne r hr (heq.trans hid)
    · intro r hr
      rcases List.mem_cons.1 (hperm.mem_iff.1 hr) with rfl | hr
      · rw [hid, List.getElem?_set_self hlt]
      · rw [List.getElem?_set_ne (hne r hr).symm]
        exact hσ.waiting r hr
    · intro d hd hwait
      refine hperm.mem_iff.2 ?_
      rcases List.mem_or_eq_of_mem_set hd with hd | rfl
      · exact List.mem_cons_of_mem _ (hσ.listed d hd hwait)
      · exact List.mem_cons_self
    · exact hσ.inflight
    · exact hσ.served
  · cases h

/-- A request is handed out whose number is not in flight: its sender moves to where the loop will
find it. -/
theorem Matched.recv (hσ : σ.Matched) (hapart : σ.Apart (.recv l))
    (h : σ.recv l = some σ') : σ'.Matched := by
  unfold Bridge.recv at h
  split at h
  · next request rest hl hchannel =>
    have hfree : σ.inflight request.requestId = none := by
      refine hapart request ?_
      rw [hchannel]
      rfl
    rw [hfree, Option.some_inj] at h
    subst h
    have hserving : ((σ.loops.set l (.received request)).filterMap ExecutorLoop.request?).Perm
        (request :: σ.serving) := by
      have hperm := serving_set_perm (b := .received request) hl
      simp only [ExecutorLoop.request?, Option.toList_none, Option.toList_some,
        List.append_nil] at hperm
      exact hperm.trans (List.perm_append_singleton _ _)
    have hall : (rest ++ (σ.loops.set l (.received request)).filterMap
        ExecutorLoop.request?).Perm (σ.channel ++ σ.serving) := by
      rw [hchannel]
      exact (hserving.append_left _).trans List.perm_middle
    have hmem : request ∈ σ.channel ++ σ.serving := by simp [hchannel]
    -- Another request with this number would be in flight.
    have hne (r : StepRequest) (hr : r ∈ σ.serving) : r.requestId ≠ request.requestId := by
      intro heq
      have hin := hσ.inflight r hr
      rw [heq, hfree] at hin
      cases hin
    constructor
    · exact hσ.ids
    · exact (hall.map _).nodup_iff.2 hσ.distinct
    · exact fun r hr => hσ.waiting r (hall.mem_iff.1 hr)
    · exact fun c hc hwait => hall.mem_iff.2 (hσ.listed c hc hwait)
    · intro r hr
      rcases List.mem_cons.1 (hserving.mem_iff.1 hr) with rfl | hr
      · exact Function.update_self ..
      · exact (Function.update_of_ne (hne r hr) ..).trans (hσ.inflight r hr)
    · intro id c hid
      change Function.update σ.inflight request.requestId (some request.caller) id = some c at hid
      by_cases heq : id = request.requestId
      · subst heq
        rw [Function.update_self, Option.some_inj] at hid
        exact ⟨request, hserving.mem_iff.2 List.mem_cons_self, rfl, hid⟩
      · rw [Function.update_of_ne heq] at hid
        obtain ⟨r, hr, hrid⟩ := hσ.served id c hid
        exact ⟨r, hserving.mem_iff.2 (List.mem_cons_of_mem _ hr), hrid⟩
  · cases h

variable {answer : Answer F}

/-- The answer reaches the caller of its request. -/
theorem Matched.answerFrom_eq (hσ : σ.Matched) (hl : σ.loops[l]? = some a)
    (hr : a.request? = some answer.request) :
    σ.answerFrom l answer = { σ with
      inflight := Function.update σ.inflight answer.request.requestId none
      callers := σ.callers.set answer.request.caller ⟨answer.request, .answered answer⟩
      loops := σ.loops.set l .ready
      answers := σ.answers ++ [answer] } := by
  have hmem := mem_serving hl hr
  have hwait := hσ.waiting _ (List.mem_append_right _ hmem)
  unfold Bridge.answerFrom respond
  rw [hσ.inflight _ hmem]
  simp only [Option.map_some]
  rw [List.modify_eq_set_getElem?, hwait]
  rfl

/-- An answer takes its request off those under way. -/
theorem Matched.answerFrom (hσ : σ.Matched) (hl : σ.loops[l]? = some a)
    (hr : a.request? = some answer.request) : (σ.answerFrom l answer).Matched := by
  rw [hσ.answerFrom_eq hl hr]
  have hmem := mem_serving hl hr
  have hin := hσ.inflight _ hmem
  have hserving : σ.serving.Perm
      (answer.request :: (σ.loops.set l .ready).filterMap ExecutorLoop.request?) := by
    have hperm := serving_set_perm (b := .ready) hl
    rw [hr] at hperm
    simp only [ExecutorLoop.request?, Option.toList_none, Option.toList_some,
      List.append_nil] at hperm
    exact hperm.symm.trans (List.perm_append_singleton _ _)
  have hall : (σ.channel ++ σ.serving).Perm
      (answer.request ::
        (σ.channel ++ (σ.loops.set l .ready).filterMap ExecutorLoop.request?)) :=
    (hserving.append_left _).trans List.perm_middle
  have hdistinct := (hall.map _).nodup_iff.1 hσ.distinct
  rw [List.map_cons, List.nodup_cons] at hdistinct
  obtain ⟨hnew, hdistinct⟩ := hdistinct
  have hcaller (r : StepRequest)
      (hr : r ∈ σ.channel ++ (σ.loops.set l .ready).filterMap ExecutorLoop.request?) :
      r.caller ≠ answer.request.caller := by
    intro heq
    exact hnew (List.mem_map.2 ⟨r, hr, heq⟩)
  obtain ⟨hlt, -⟩ :=
    List.getElem?_eq_some_iff.1 (hσ.waiting _ (List.mem_append_right _ hmem))
  constructor
  · intro i d hd
    rw [List.getElem?_set] at hd
    split_ifs at hd with hci
    · rw [Option.some_inj] at hd
      rw [← hd, ← hci]
    · exact hσ.ids i d hd
  · exact hdistinct
  · intro r hr
    rw [List.getElem?_set_ne (hcaller r hr).symm]
    exact hσ.waiting r (hall.mem_iff.2 (List.mem_cons_of_mem _ hr))
  · intro d hd hwait
    have hold : d ∈ σ.callers := by
      rcases List.mem_or_eq_of_mem_set hd with hd | rfl
      · exact hd
      · cases hwait
    rcases List.mem_cons.1 (hall.mem_iff.1 (hσ.listed d hold hwait)) with heq | hd'
    -- The caller that was answered does not wait.
    · obtain ⟨i, hi⟩ := List.mem_iff_getElem?.1 hd
      rw [List.getElem?_set] at hi
      split_ifs at hi with hci
      · rw [Option.some_inj] at hi
        rw [← hi] at hwait
        cases hwait
      · have hid := hσ.ids i d hi
        rw [heq] at hid
        exact absurd hid hci
    · exact hd'
  · intro r hr
    have hr' := hserving.mem_iff.2 (List.mem_cons_of_mem _ hr)
    refine (Function.update_of_ne ?_ ..).trans (hσ.inflight r hr')
    -- Another request with this number would have this caller.
    intro heq
    have hother := hσ.inflight r hr'
    rw [heq, hin, Option.some_inj] at hother
    exact hcaller r (List.mem_append_right _ hr) hother.symm
  · intro id c hid
    change Function.update σ.inflight answer.request.requestId none id = some c at hid
    by_cases heq : id = answer.request.requestId
    · subst heq
      rw [Function.update_self] at hid
      cases hid
    · rw [Function.update_of_ne heq] at hid
      obtain ⟨r, hr, hrid, hrc⟩ := hσ.served id c hid
      rcases List.mem_cons.1 (hserving.mem_iff.1 hr) with rfl | hr
      · exact absurd hrid.symm heq
      · exact ⟨r, hr, hrid, hrc⟩

theorem Matched.poll (hσ : σ.Matched) (h : σ.poll l = some σ') : σ'.Matched := by
  unfold Bridge.poll at h
  split at h
  · next hl =>
    rw [Option.some_inj] at h
    subst h
    split_ifs
    · exact hσ.setLoop hl .polling rfl false
    · exact hσ.setLoop hl .stopped rfl σ.receiver
  · cases h

theorem Matched.dispatch (hσ : σ.Matched) (h : σ.dispatch l = some σ') : σ'.Matched := by
  unfold Bridge.dispatch at h
  split at h
  · next request hl =>
    split at h
    · next fn _ =>
      rw [Option.some_inj] at h
      subst h
      exact hσ.setLoop hl (.calling request fn) rfl σ.receiver
    · rw [Option.some_inj] at h
      subst h
      exact hσ.answerFrom hl rfl
  · cases h

theorem Matched.settle {outcome : Outcome} (hσ : σ.Matched) (h : σ.settle l outcome = some σ') :
    σ'.Matched := by
  unfold Bridge.settle at h
  split at h
  · next request fn hl =>
    split at h
    · rw [Option.some_inj] at h
      subst h
      exact hσ.answerFrom hl rfl
    · -- The loop has ended, and keeps its request.
      rw [Option.some_inj] at h
      subst h
      exact hσ.setLoop hl (.failed request) rfl σ.receiver
  · cases h

variable {e : Event F}

/-- Requests apart stay matched. -/
theorem Matched.step (hσ : σ.Matched) (hapart : σ.Apart e)
    (h : step toRfc3339 capacity σ e = some σ') : σ'.Matched := by
  cases e with
  | registerStep stepType =>
    rw [← Option.some_inj.1 h]
    exact hσ.congr rfl rfl rfl (.refl _)
  | registerStepFunction stepType fn =>
    rw [← Option.some_inj.1 h]
    exact hσ.congr rfl rfl rfl (.refl _)
  | startExecutorLoop =>
    rw [← Option.some_inj.1 h]
    refine hσ.congr rfl rfl rfl ?_
    simp [serving, List.filterMap_cons, ExecutorLoop.request?]
  | run registration ctx => exact hσ.beginRun h
  | send c => exact hσ.send h
  | poll l => exact hσ.poll h
  | recv l => exact hσ.recv hapart h
  | dispatch l => exact hσ.dispatch h
  | settle l outcome => exact hσ.settle h

/-! ## Whose function is called -/

variable {inherited : String → Option F} {es : List (Event F)}

/-- The step functions, and those that are being called, were registered for their step types. -/
structure Registered (inherited : String → Option F) (es : List (Event F)) (σ : Bridge F) :
    Prop where
  functions : ∀ t fn, σ.stepFunctions t = some fn →
    inherited t = some fn ∨ .registerStepFunction t (some fn) ∈ es
  calls : ∀ request fn, .calling request fn ∈ σ.loops →
    inherited request.stepType = some fn ∨
      .registerStepFunction request.stepType (some fn) ∈ es

theorem registered_start : Registered inherited [] (start inherited) := by
  constructor
  · exact fun t fn h => .inl h
  · exact fun request fn h => absurd h List.not_mem_nil

/-- Loops that do not begin a call. -/
theorem Registered.frame (hσ : Registered inherited es σ)
    (hfunctions : σ'.stepFunctions = σ.stepFunctions)
    (hloops : ∀ request fn, .calling request fn ∈ σ'.loops → .calling request fn ∈ σ.loops) :
    Registered inherited (es ++ [e]) σ' := by
  constructor
  · intro t fn h
    rw [hfunctions] at h
    exact (hσ.functions t fn h).imp_right (List.mem_append_left _)
  · intro request fn h
    exact (hσ.calls request fn (hloops request fn h)).imp_right (List.mem_append_left _)

theorem Registered.setLoop (hσ : Registered inherited es σ)
    (hfunctions : σ'.stepFunctions = σ.stepFunctions) (hloops : σ'.loops = σ.loops.set l b)
    (hb : ∀ request fn, b ≠ .calling request fn) : Registered inherited (es ++ [e]) σ' := by
  refine hσ.frame hfunctions ?_
  intro request fn h
  rw [hloops] at h
  rcases List.mem_or_eq_of_mem_set h with h | h
  · exact h
  · exact absurd h.symm (hb request fn)

theorem Registered.answerFrom (hσ : Registered inherited es σ) :
    Registered inherited (es ++ [e]) (σ.answerFrom l answer) := by
  unfold Bridge.answerFrom
  split
  · next σ'' h =>
    obtain ⟨c, -, rfl⟩ := Option.map_eq_some_iff.1 h
    exact hσ.setLoop rfl rfl (by simp)
  · exact hσ.setLoop rfl rfl (by simp)

theorem Registered.step (hσ : Registered inherited es σ)
    (h : step toRfc3339 capacity σ e = some σ') : Registered inherited (es ++ [e]) σ' := by
  cases e with
  | registerStep stepType =>
    rw [← Option.some_inj.1 h]
    exact hσ.frame rfl fun _ _ => id
  | registerStepFunction stepType fn =>
    rw [← Option.some_inj.1 h]
    constructor
    · intro t fn' ht
      change Function.update σ.stepFunctions stepType fn t = some fn' at ht
      by_cases heq : t = stepType
      · subst heq
        rw [Function.update_self] at ht
        subst ht
        exact .inr (by simp)
      · rw [Function.update_of_ne heq] at ht
        exact (hσ.functions t fn' ht).imp_right (List.mem_append_left _)
    · intro request fn' hcall
      exact (hσ.calls request fn' hcall).imp_right (List.mem_append_left _)
  | startExecutorLoop =>
    rw [← Option.some_inj.1 h]
    refine hσ.frame rfl ?_
    intro request fn hcall
    rcases List.mem_append.1 hcall with hcall | hcall
    · exact hcall
    · cases List.mem_singleton.1 hcall
  | run registration ctx =>
    simp only [Bridge.step, beginRun] at h
    split at h
    · cases h
    · split_ifs at h
      rw [← Option.some_inj.1 h]
      exact hσ.frame rfl fun _ _ => id
  | send c =>
    simp only [Bridge.step, Bridge.send] at h
    split at h
    · split_ifs at h
      rw [← Option.some_inj.1 h]
      exact hσ.frame rfl fun _ _ => id
    · cases h
  | poll l =>
    simp only [Bridge.step, Bridge.poll] at h
    split at h
    · rw [← Option.some_inj.1 h]
      split_ifs
      · exact hσ.setLoop rfl rfl (by simp)
      · exact hσ.setLoop rfl rfl (by simp)
    · cases h
  | recv l =>
    simp only [Bridge.step, Bridge.recv] at h
    split at h
    · rw [← Option.some_inj.1 h]
      exact hσ.setLoop rfl rfl (by simp)
    · cases h
  | dispatch l =>
    simp only [Bridge.step, Bridge.dispatch] at h
    split at h
    · next request hl =>
      split at h
      · next fn hfn =>
        rw [← Option.some_inj.1 h]
        constructor
        · intro t fn' ht
          exact (hσ.functions t fn' ht).imp_right (List.mem_append_left _)
        · intro request' fn' hcall
          -- The call that begins is of the function registered now.
          rcases List.mem_or_eq_of_mem_set hcall with hcall | heq
          · exact (hσ.calls request' fn' hcall).imp_right (List.mem_append_left _)
          · obtain ⟨rfl, rfl⟩ := ExecutorLoop.calling.inj heq
            exact (hσ.functions _ _ hfn).imp_right (List.mem_append_left _)
      · rw [← Option.some_inj.1 h]
        exact hσ.answerFrom
    · cases h
  | settle l outcome =>
    simp only [Bridge.step, Bridge.settle] at h
    split at h
    · split at h
      · rw [← Option.some_inj.1 h]
        exact hσ.answerFrom
      · rw [← Option.some_inj.1 h]
        exact hσ.setLoop rfl rfl (by simp)
    · cases h

/-! ## Whose answer arrives -/

/-- The callers' answers stay their own. -/
def Owned (inherited : String → Option F) (es : List (Event F)) (σ : Bridge F) : Prop :=
  ∀ c ∈ σ.callers, c.AnsweredOwn inherited es

theorem Owned.concat (hσ : Owned inherited es σ) (hcallers : σ'.callers = σ.callers) :
    Owned inherited (es ++ [e]) σ' := by
  intro c hc
  rw [hcallers] at hc
  exact (hσ c hc).concat

theorem Owned.set {i : Nat} {d : Caller F} (hσ : Owned inherited es σ)
    (hcallers : σ'.callers = σ.callers.set i d) (hd : d.AnsweredOwn inherited (es ++ [e])) :
    Owned inherited (es ++ [e]) σ' := by
  intro c hc
  rw [hcallers] at hc
  rcases List.mem_or_eq_of_mem_set hc with hc | rfl
  · exact (hσ c hc).concat
  · exact hd

theorem Owned.answerFrom (hσ : Owned inherited es σ) (hmatched : σ.Matched)
    (hl : σ.loops[l]? = some a) (hr : a.request? = some answer.request)
    (hanswer : answer.AsRegistered inherited es) :
    Owned inherited (es ++ [e]) (σ.answerFrom l answer) := by
  rw [hmatched.answerFrom_eq hl hr]
  exact hσ.set rfl ⟨rfl, hanswer.concat⟩

/-- While requests are apart, what arrives is one's own. -/
theorem Owned.step (hσ : Owned inherited es σ) (hmatched : σ.Matched)
    (hreg : Registered inherited es σ) (hapart : σ.Apart e)
    (h : Bridge.step toRfc3339 capacity σ e = some σ') : Owned inherited (es ++ [e]) σ' := by
  cases e with
  | registerStep stepType =>
    rw [← Option.some_inj.1 h]
    exact hσ.concat rfl
  | registerStepFunction stepType fn =>
    rw [← Option.some_inj.1 h]
    exact hσ.concat rfl
  | startExecutorLoop =>
    rw [← Option.some_inj.1 h]
    exact hσ.concat rfl
  | run registration ctx =>
    simp only [Bridge.step, Bridge.beginRun] at h
    split at h
    · cases h
    · split_ifs at h
      rw [← Option.some_inj.1 h]
      intro c hc
      rcases List.mem_append.1 hc with hc | hc
      · exact (hσ c hc).concat
      · rw [List.mem_singleton.1 hc]
        trivial
  | send c =>
    simp only [Bridge.step, Bridge.send] at h
    split at h
    · split_ifs at h
      rw [← Option.some_inj.1 h]
      exact hσ.set rfl trivial
    · cases h
  | poll l =>
    simp only [Bridge.step, Bridge.poll] at h
    split at h
    · rw [← Option.some_inj.1 h]
      split_ifs
      · exact hσ.concat rfl
      · exact hσ.concat rfl
    · cases h
  | recv l =>
    simp only [Bridge.step, Bridge.recv] at h
    split at h
    · next request rest hl hchannel =>
      have hfree : σ.inflight request.requestId = none := by
        refine hapart request ?_
        rw [hchannel]
        rfl
      rw [hfree] at h
      rw [← Option.some_inj.1 h]
      exact hσ.concat rfl
    · cases h
  | dispatch l =>
    simp only [Bridge.step, Bridge.dispatch] at h
    split at h
    · next request hl =>
      split at h
      · rw [← Option.some_inj.1 h]
        exact hσ.concat rfl
      · rw [← Option.some_inj.1 h]
        exact hσ.answerFrom hmatched hl rfl rfl
    · cases h
  | settle l outcome =>
    simp only [Bridge.step, Bridge.settle] at h
    split at h
    · next request fn hl =>
      split at h
      · rw [← Option.some_inj.1 h]
        exact hσ.answerFrom hmatched hl rfl (hreg.calls request fn (List.mem_of_getElem? hl))
      · rw [← Option.some_inj.1 h]
        exact hσ.concat rfl
    · cases h

/-! ## Senders that are dropped -/

/-- Some caller has lost its sender. -/
def Lost (σ : Bridge F) : Prop :=
  ∃ (i : Nat) (c : Caller F), σ.callers[i]? = some c ∧ c.state = .dropped

theorem Lost.modify (hσ : σ.Lost) {i : Nat} {f : Caller F → Caller F}
    (hcallers : σ'.callers = σ.callers.modify i f)
    (hf : ∀ c, c.state = .dropped → (f c).state = .dropped) : σ'.Lost := by
  obtain ⟨j, c, hc, hstate⟩ := hσ
  by_cases hij : i = j
  · refine ⟨j, f c, ?_, hf c hstate⟩
    rw [hcallers, List.getElem?_modify, hc, hij]
    simp
  · refine ⟨j, c, ?_, hstate⟩
    rw [hcallers, List.getElem?_modify, hc]
    simp [hij]

theorem Lost.congr (hσ : σ.Lost) (hcallers : σ'.callers = σ.callers) : σ'.Lost := by
  rw [Lost, hcallers]
  exact hσ

theorem deliver_dropped (c : Caller F) (h : c.state = .dropped) :
    (c.deliver answer).state = .dropped := by
  simp [Caller.deliver, h]

theorem drop_dropped (c : Caller F) (h : c.state = .dropped) : c.drop.state = .dropped := by
  simp [Caller.drop, h]

theorem Lost.answerFrom (hσ : σ.Lost) : (σ.answerFrom l answer).Lost := by
  unfold Bridge.answerFrom
  split
  · next σ'' h =>
    obtain ⟨c, -, rfl⟩ := Option.map_eq_some_iff.1 h
    exact hσ.modify rfl deliver_dropped
  · exact hσ.congr rfl

/-- A sender that was dropped stays so. -/
theorem Lost.step (hσ : σ.Lost) (h : Bridge.step toRfc3339 capacity σ e = some σ') : σ'.Lost := by
  cases e with
  | registerStep stepType =>
    rw [← Option.some_inj.1 h]
    exact hσ.congr rfl
  | registerStepFunction stepType fn =>
    rw [← Option.some_inj.1 h]
    exact hσ.congr rfl
  | startExecutorLoop =>
    rw [← Option.some_inj.1 h]
    exact hσ.congr rfl
  | run registration ctx =>
    simp only [Bridge.step, Bridge.beginRun] at h
    split at h
    · cases h
    · split_ifs at h
      rw [← Option.some_inj.1 h]
      obtain ⟨i, c, hc, hstate⟩ := hσ
      refine ⟨i, c, ?_, hstate⟩
      obtain ⟨hlt, -⟩ := List.getElem?_eq_some_iff.1 hc
      exact (List.getElem?_append_left hlt).trans hc
  | send c =>
    simp only [Bridge.step, Bridge.send] at h
    split at h
    · next request hc =>
      split_ifs at h
      rw [← Option.some_inj.1 h]
      obtain ⟨i, d, hd, hstate⟩ := hσ
      refine ⟨i, d, ?_, hstate⟩
      -- The caller that sends has not lost its sender.
      have hne : c ≠ i := by
        rintro rfl
        rw [hc, Option.some_inj] at hd
        subst hd
        cases hstate
      exact (List.getElem?_set_ne hne).trans hd
    · cases h
  | poll l =>
    simp only [Bridge.step, Bridge.poll] at h
    split at h
    · rw [← Option.some_inj.1 h]
      split_ifs
      · exact hσ.congr rfl
      · exact hσ.congr rfl
    · cases h
  | recv l =>
    simp only [Bridge.step, Bridge.recv] at h
    split at h
    · next request rest hl hchannel =>
      rw [← Option.some_inj.1 h]
      cases hin : σ.inflight request.requestId with
      | none => exact hσ.congr rfl
      | some c => exact hσ.modify rfl drop_dropped
    · cases h
  | dispatch l =>
    simp only [Bridge.step, Bridge.dispatch] at h
    split at h
    · split at h
      · rw [← Option.some_inj.1 h]
        exact hσ.congr rfl
      · rw [← Option.some_inj.1 h]
        exact hσ.answerFrom
    · cases h
  | settle l outcome =>
    simp only [Bridge.step, Bridge.settle] at h
    split at h
    · split at h
      · rw [← Option.some_inj.1 h]
        exact hσ.answerFrom
      · rw [← Option.some_inj.1 h]
        exact hσ.congr rfl
    · cases h

/-- A request handed out while another with its number is in flight takes that one's sender. -/
theorem Matched.lost (hσ : σ.Matched) (hapart : ¬σ.Apart e)
    (h : Bridge.step toRfc3339 capacity σ e = some σ') : σ'.Lost := by
  cases e with
  | recv l =>
    simp only [Bridge.step, Bridge.recv] at h
    split at h
    · next request rest hl hchannel =>
      rw [← Option.some_inj.1 h]
      cases hin : σ.inflight request.requestId with
      | none =>
        refine absurd ?_ hapart
        intro r hr
        rw [hchannel] at hr
        obtain rfl := Option.some_inj.1 hr
        exact hin
      | some c =>
        obtain ⟨r, hr, -, rfl⟩ := hσ.served _ _ hin
        have hwait := hσ.waiting r (List.mem_append_right _ hr)
        refine ⟨r.caller, ⟨r, .dropped⟩, ?_, rfl⟩
        simp only [List.getElem?_modify, hwait]
        simp [Caller.drop]
    · cases h
  | _ => exact absurd trivial hapart

end Bridge

/-! ## Main results -/

section Main

variable {toRfc3339 : DateTime → String} {capacity : Nat} {inherited : String → Option F}
  {es : List (Event F)} {σ : Bridge F}

/-- As long as requests are apart the senders are where they belong; from then on one is lost. -/
theorem matched_or_lost
    (h : Steps.run (Bridge.step toRfc3339 capacity) (.start inherited) es = some σ) :
    σ.Registered inherited es ∧
      ((Steps.Always (Bridge.step toRfc3339 capacity) (.start inherited) Bridge.Apart es ∧
          σ.Matched ∧ σ.Owned inherited es) ∨
        (¬Steps.Always (Bridge.step toRfc3339 capacity) (.start inherited) Bridge.Apart es ∧
          σ.Lost)) := by
  refine Steps.run_induction (P := fun es σ => Bridge.Registered inherited es σ ∧
    ((Steps.Always _ _ Bridge.Apart es ∧ Bridge.Matched σ ∧ Bridge.Owned inherited es σ) ∨
      (¬Steps.Always _ _ Bridge.Apart es ∧ Bridge.Lost σ))) ?_ ?_ h
  · exact ⟨Bridge.registered_start,
      .inl ⟨Steps.always_nil, Bridge.matched_start inherited, nofun⟩⟩
  · rintro es e σ σ' hrun ⟨hreg, hcase⟩ hstep
    refine ⟨hreg.step hstep, ?_⟩
    rw [Steps.always_concat hrun]
    rcases hcase with ⟨hall, hmatched, howned⟩ | ⟨hnot, hlost⟩
    · by_cases hapart : σ.Apart e
      · exact .inl ⟨⟨hall, hapart⟩, hmatched.step hapart hstep,
          howned.step hmatched hreg hapart hstep⟩
      · exact .inr ⟨fun h => hapart h.2, hmatched.lost hapart hstep⟩
    · exact .inr ⟨fun h => hnot h.1, hlost.step hstep⟩

/-- **Every caller gets its own answer exactly if requests are apart.** In any interleaving of any
number of calls with any number of executor loops, no caller gets what came of another call or loses
its answer if and only if no request was handed out while another with its number was in flight. -/
theorem answered_own_iff
    (h : Steps.run (Bridge.step toRfc3339 capacity) (.start inherited) es = some σ) :
    (∀ c ∈ σ.callers, c.AnsweredOwn inherited es) ↔
      Steps.Always (Bridge.step toRfc3339 capacity) (.start inherited) Bridge.Apart es := by
  rcases (matched_or_lost h).2 with ⟨hall, -, howned⟩ | ⟨hnot, i, c, hc, hstate⟩
  · exact ⟨fun _ => hall, fun _ => howned⟩
  · refine ⟨fun hown => ?_, fun hall => absurd hall hnot⟩
    have hown := hown c (List.mem_of_getElem? hc)
    rw [Caller.AnsweredOwn, hstate] at hown
    exact hown.elim

/-- The context of the only step, of this type, of a workflow. -/
def contextOf (stepType : String) : StepExecutionContext where
  item := none
  executionPointer := .new "pointer" 0
  persistenceData := none
  step := .new 0 stepType
  workflow := .new ⟨0, fun _ => "workflow"⟩ "definition" 1 .null
  definition := .new "definition" 1
  hostContext := false

/-- A request for each of two step types. -/
def twoRequests : List (Event Nat) := [
  .registerStep "greet", .registerStep "score", .registerStepFunction "greet" (some 0),
  .registerStepFunction "score" (some 1), .run 0 (contextOf "greet"), .run 1 (contextOf "score"),
  .send 1, .send 0]

/-- Two loops hand the two requests out one after the other, both with the number 0. -/
def twoLoops : List (Event Nat) :=
  twoRequests ++ [.startExecutorLoop, .startExecutorLoop, .poll 0, .recv 0, .poll 1, .recv 1]

theorem answered_own_iff_twoLoops : ∃ σ : Bridge Nat,
    Steps.run (Bridge.step (fun _ => "") 256) (.start fun _ => none) twoLoops = some σ ∧
      ((∀ c ∈ σ.callers, c.AnsweredOwn (fun _ => none) twoLoops) ↔
        Steps.Always (Bridge.step (fun _ => "") 256) (.start fun _ => none) Bridge.Apart
          twoLoops) := by
  have hrun : (Steps.run (Bridge.step (fun _ => "") 256) (.start fun _ => none)
      twoLoops).isSome = true := rfl
  obtain ⟨σ, h⟩ := Option.isSome_iff_exists.1 hrun
  exact ⟨σ, h, answered_own_iff h⟩

end Main

end Wfe.Js
