import Wfe.Library.Program
import Mathlib.Logic.Relation

/-!
# Pools of programs over one shared state

A machine answers the calls of programs from a shared state, with an oracle settling what the
outside world decides. A pool runs any number of operations of the machine on numbered threads:
an idle thread may take up an operation at any time, and a thread in the middle of one makes its
next call, atomically. A thread keeps the exchanges of its current operation, so that the state
of a monitor is a function of the pool, and the pool keeps the whole trace.

## Main definitions

* `Machine I`: operations, shared state and the answers to calls
* `Pool`, `Pool.Step`: pools and their atomic steps
* `Pool.Run C`: runs whose steps all meet the condition `C`
* `Pool.Conforms M g₀ Q`: every thread meets the monitor `M` from where its history put it

## Main results

* `Pool.Run.invariant`: an invariant of each step is an invariant of each run
* `Pool.Conforms.spawn`, `Pool.Conforms.proceed`: conformance is kept by steps
* `Pool.Conforms.accept`, `Pool.Conforms.returned`: what a conforming thread calls and returns
* `Pool.schedule`, `Pool.run_of_schedule`: what a schedule computes is a run
-/

/-- A machine over the interface `I`: the programs of its operations, and its answers to calls
from a shared state. A call has no answer under an oracle whose choices are impossible. -/
structure Machine (I : Interface) where
  Op : Type
  Outcome : Type
  idle : Outcome
  State : Type
  Oracle : Type
  program : Op → Program I Outcome
  answer : Oracle → ℕ → State → (c : I.Call) → Option (I.Reply c × State)

/-- A thread: the rest of its current operation, and the exchanges made in it so far. -/
structure Machine.Thread {I : Interface} (S : Machine I) where
  rest : Program I S.Outcome
  history : List (Exchange I)

/-- The threads of a machine with its shared state and the trace of all exchanges. -/
structure Pool {I : Interface} (S : Machine I) where
  shared : S.State
  threads : ℕ → S.Thread
  trace : List (ℕ × Exchange I)

namespace Pool

variable {I : Interface} {S : Machine I} {G : Type}

/-- No operation has been taken up. -/
def start (S : Machine I) (s : S.State) : Pool S := ⟨s, fun _ => ⟨.ret S.idle, []⟩, []⟩

/-- Thread `t` takes up `op`. -/
def spawn (P : Pool S) (t : ℕ) (op : S.Op) : Pool S :=
  { P with threads := Function.update P.threads t ⟨S.program op, []⟩ }

/-- Thread `t` makes the exchange `x`, goes on with `p` and leaves the shared state `s`. -/
def proceed (P : Pool S) (t : ℕ) (x : Exchange I) (p : Program I S.Outcome) (s : S.State) :
    Pool S where
  shared := s
  threads := Function.update P.threads t ⟨p, (P.threads t).history ++ [x]⟩
  trace := P.trace ++ [(t, x)]

/-- The atomic steps that meet the condition `C` on the pool before the step and on the exchange
made. -/
inductive Step (C : Pool S → ℕ → Exchange I → Prop) : Pool S → Pool S → Prop
  | spawn (P : Pool S) (t : ℕ) (op : S.Op) (a : S.Outcome) :
      (P.threads t).rest = .ret a → Step C P (P.spawn t op)
  | call (P : Pool S) (t : ℕ) (c : I.Call) (k : I.Reply c → Program I S.Outcome) (o : S.Oracle)
      (r : I.Reply c) (s : S.State) : (P.threads t).rest = .call c k →
      S.answer o t P.shared c = some (r, s) → C P t ⟨c, r⟩ →
      Step C P (P.proceed t ⟨c, r⟩ (k r) s)

/-- Runs whose steps all meet the condition `C`. -/
abbrev Run (C : Pool S → ℕ → Exchange I → Prop) : Pool S → Pool S → Prop :=
  Relation.ReflTransGen (Step C)

variable {C : Pool S → ℕ → Exchange I → Prop} {P P' : Pool S}

/-- What every step keeps, every run keeps. -/
theorem Run.invariant {N : Pool S → Prop} (hstep : ∀ P P', N P → Step C P P' → N P')
    (h : Run C P P') (hP : N P) : N P' := by
  induction h with
  | refl => exact hP
  | tail _ hs ih => exact hstep _ _ ih hs

/-! ## Threads after a step -/

@[simp] theorem spawn_shared (t : ℕ) (op : S.Op) : (P.spawn t op).shared = P.shared := rfl

@[simp] theorem spawn_trace (t : ℕ) (op : S.Op) : (P.spawn t op).trace = P.trace := rfl

@[simp] theorem spawn_threads_self (t : ℕ) (op : S.Op) :
    (P.spawn t op).threads t = ⟨S.program op, []⟩ := Function.update_self ..

theorem spawn_threads_of_ne {t u : ℕ} (op : S.Op) (h : u ≠ t) :
    (P.spawn t op).threads u = P.threads u := Function.update_of_ne h ..

section Proceed

variable (t : ℕ) (x : Exchange I) (p : Program I S.Outcome) (s : S.State)

@[simp] theorem proceed_shared : (P.proceed t x p s).shared = s := rfl

@[simp] theorem proceed_trace : (P.proceed t x p s).trace = P.trace ++ [(t, x)] := rfl

@[simp] theorem proceed_threads_self :
    (P.proceed t x p s).threads t = ⟨p, (P.threads t).history ++ [x]⟩ := Function.update_self ..

theorem proceed_threads_of_ne {u : ℕ} (h : u ≠ t) :
    (P.proceed t x p s).threads u = P.threads u := Function.update_of_ne h ..

end Proceed

theorem forall_spawn {φ : S.Thread → Prop} {t : ℕ} {op : S.Op} (h : ∀ u, φ (P.threads u))
    (hop : φ ⟨S.program op, []⟩) (u : ℕ) : φ ((P.spawn t op).threads u) := by
  by_cases hu : u = t
  · subst hu
    rwa [spawn_threads_self]
  · rw [spawn_threads_of_ne op hu]
    exact h u

theorem forall_proceed {φ : S.Thread → Prop} {t : ℕ} {x : Exchange I} {p : Program I S.Outcome}
    {s : S.State} (h : ∀ u, φ (P.threads u)) (ht : φ ⟨p, (P.threads t).history ++ [x]⟩) (u : ℕ) :
    φ ((P.proceed t x p s).threads u) := by
  by_cases hu : u = t
  · subst hu
    rwa [proceed_threads_self]
  · rw [proceed_threads_of_ne t x p s hu]
    exact h u

/-! ## Traces -/

theorem Step.trace_subset (h : Step C P P') : P.trace ⊆ P'.trace := by
  cases h with
  | spawn => exact List.Subset.refl _
  | call => exact List.subset_append_left ..

theorem Run.trace_subset (h : Run C P P') : P.trace ⊆ P'.trace :=
  h.invariant (N := fun P' => P.trace ⊆ P'.trace)
    (fun _ _ hP hs => List.Subset.trans hP hs.trace_subset) (List.Subset.refl _)

/-- The history of a thread is part of the trace. -/
theorem Run.mem_trace {s : S.State} (h : Run C (start S s) P) {t : ℕ} {x : Exchange I}
    (hx : x ∈ (P.threads t).history) : (t, x) ∈ P.trace := by
  refine h.invariant (N := fun P => ∀ t, ∀ x ∈ (P.threads t).history, (t, x) ∈ P.trace) ?_ ?_ t x
    hx
  · intro P P' hP hstep u x hx
    cases hstep with
    | spawn t op a ha =>
      by_cases hu : u = t
      · subst hu
        simp at hx
      · rw [spawn_threads_of_ne op hu] at hx
        exact hP u x hx
    | call t c k o r s hk hs hc =>
      rw [proceed_trace, List.mem_append]
      by_cases hu : u = t
      · subst hu
        rw [proceed_threads_self, List.mem_append] at hx
        rcases hx with hx | hx
        · exact .inl (hP u x hx)
        · exact .inr (by simpa using hx)
      · rw [proceed_threads_of_ne _ _ _ _ hu] at hx
        exact .inl (hP u x hx)
  · simp [start]

/-! ## Conformance to a monitor -/

/-- The state of the monitor `M` after the exchanges of thread `t`. -/
def ghost (P : Pool S) (M : Monitor I G) (g₀ : G) (t : ℕ) : G := M.after g₀ (P.threads t).history

/-- Every thread meets the monitor from the state its history put it in. -/
def Conforms (M : Monitor I G) (g₀ : G) (Q : G → S.Outcome → Prop) (P : Pool S) : Prop :=
  ∀ t, (P.threads t).rest.Meets M Q (P.ghost M g₀ t)

variable {M : Monitor I G} {g₀ : G} {Q : G → S.Outcome → Prop}

@[simp] theorem ghost_start (s : S.State) (t : ℕ) : (start S s).ghost M g₀ t = g₀ := rfl

@[simp] theorem ghost_spawn_self (t : ℕ) (op : S.Op) : (P.spawn t op).ghost M g₀ t = g₀ := by
  simp [ghost, Monitor.after]

theorem ghost_spawn_of_ne {t u : ℕ} (op : S.Op) (h : u ≠ t) :
    (P.spawn t op).ghost M g₀ u = P.ghost M g₀ u := by
  simp only [ghost, spawn_threads_of_ne op h]

@[simp] theorem ghost_proceed_self (t : ℕ) (x : Exchange I) (p : Program I S.Outcome)
    (s : S.State) :
    (P.proceed t x p s).ghost M g₀ t = M.next (P.ghost M g₀ t) x.1 x.2 := by
  simp [ghost, Monitor.after_append, Monitor.after]

theorem ghost_proceed_of_ne {t u : ℕ} (x : Exchange I) (p : Program I S.Outcome) (s : S.State)
    (h : u ≠ t) : (P.proceed t x p s).ghost M g₀ u = P.ghost M g₀ u := by
  simp only [ghost, proceed_threads_of_ne _ _ _ _ h]

theorem conforms_start (s : S.State) (h : Q g₀ S.idle) : Conforms M g₀ Q (start S s) := fun _ => h

theorem Conforms.spawn (h : Conforms M g₀ Q P) {t : ℕ} {op : S.Op}
    (hop : (S.program op).Meets M Q g₀) : Conforms M g₀ Q (P.spawn t op) := by
  intro u
  by_cases hu : u = t
  · subst hu
    simpa using hop
  · rw [ghost_spawn_of_ne op hu, spawn_threads_of_ne op hu]
    exact h u

/-- A conforming thread has returned as it should. -/
theorem Conforms.returned (h : Conforms M g₀ Q P) {t : ℕ} {a : S.Outcome}
    (ha : (P.threads t).rest = .ret a) : Q (P.ghost M g₀ t) a := by
  have ht := h t
  rwa [ha] at ht

/-- The call a conforming thread is at is admitted. -/
theorem Conforms.accept (h : Conforms M g₀ Q P) {t : ℕ} {c : I.Call}
    {k : I.Reply c → Program I S.Outcome} (hk : (P.threads t).rest = .call c k) :
    M.accept (P.ghost M g₀ t) c := by
  have ht := h t
  rw [hk] at ht
  exact ht.1

theorem Conforms.proceed (h : Conforms M g₀ Q P) {t : ℕ} {c : I.Call}
    {k : I.Reply c → Program I S.Outcome} (hk : (P.threads t).rest = .call c k)
    {r : I.Reply c} (hr : M.allow (P.ghost M g₀ t) c r) (s : S.State) :
    Conforms M g₀ Q (P.proceed t ⟨c, r⟩ (k r) s) := by
  intro u
  by_cases hu : u = t
  · subst hu
    have ht := h u
    rw [hk] at ht
    rw [ghost_proceed_self, proceed_threads_self]
    exact ht.2 r hr
  · rw [ghost_proceed_of_ne _ _ _ hu, proceed_threads_of_ne _ _ _ _ hu]
    exact h u

/-! ## Schedules -/

/-- One decision of a scheduler. -/
inductive Move (S : Machine I)
  | spawn (t : ℕ) (op : S.Op)
  | call (t : ℕ) (o : S.Oracle)

/-- The thread a move is made on. -/
def Move.thread : Move S → ℕ
  | spawn t _ | call t _ => t

/-- The choices of the outside world in a move are among `Ω`. -/
def Move.within (Ω : S.Oracle → Bool) : Move S → Bool
  | spawn _ _ => true
  | call _ o => Ω o

/-- The pool after one move, if the move is possible and passes `guard`. -/
def move (guard : Pool S → ℕ → Exchange I → Bool) (P : Pool S) : Move S → Option (Pool S)
  | .spawn t op =>
    match (P.threads t).rest with
    | .ret _ => some (P.spawn t op)
    | .call _ _ => none
  | .call t o =>
    match (P.threads t).rest with
    | .ret _ => none
    | .call c k => (S.answer o t P.shared c).bind fun rs =>
        if guard P t ⟨c, rs.1⟩ then some (P.proceed t ⟨c, rs.1⟩ (k rs.1) rs.2) else none

/-- The pool after a schedule. -/
def schedule (guard : Pool S → ℕ → Exchange I → Bool) : List (Move S) → Pool S → Option (Pool S)
  | [], P => some P
  | m :: ms, P => (P.move guard m).bind (schedule guard ms)

section Scheduled

variable {guard : Pool S → ℕ → Exchange I → Bool} {n : ℕ}

/-- What a move does. -/
theorem move_eq_some {m : Move S} (h : P.move guard m = some P') :
    (∃ t op a, m = .spawn t op ∧ (P.threads t).rest = .ret a ∧ P' = P.spawn t op) ∨
    (∃ t o c k r s, m = .call t o ∧ (P.threads t).rest = .call c k ∧
      S.answer o t P.shared c = some (r, s) ∧ guard P t ⟨c, r⟩ = true ∧
      P' = P.proceed t ⟨c, r⟩ (k r) s) := by
  cases m with
  | spawn t op =>
    simp only [move] at h
    split at h
    · next a ha =>
      cases h
      exact .inl ⟨t, op, a, rfl, ha, rfl⟩
    · cases h
  | call t o =>
    simp only [move] at h
    split at h
    · cases h
    · next c k hk =>
      obtain ⟨⟨r, s⟩, hrs, h⟩ := Option.bind_eq_some_iff.mp h
      split_ifs at h with hg
      cases h
      exact .inr ⟨t, o, c, k, r, s, rfl, hk, hrs, hg, rfl⟩

theorem threads_of_move {m : Move S} (h : P.move guard m = some P') {t : ℕ} (ht : t ≠ m.thread) :
    P'.threads t = P.threads t := by
  rcases move_eq_some h with ⟨u, op, a, rfl, -, rfl⟩ | ⟨u, o, c, k, r, s, rfl, -, -, -, rfl⟩
  · exact spawn_threads_of_ne op ht
  · exact proceed_threads_of_ne _ _ _ _ ht

/-- The threads from `n` on have nothing to do. -/
def IdleFrom (n : ℕ) (P : Pool S) : Prop := ∀ u, n ≤ u → (P.threads u).rest.finished = true

theorem idleFrom_start (s : S.State) : IdleFrom n (start S s) := fun _ _ => rfl

theorem IdleFrom.move {m : Move S} (hP : IdleFrom n P) (hm : m.thread < n)
    (h : P.move guard m = some P') : IdleFrom n P' := fun u hu => by
  rw [threads_of_move h (by omega)]
  exact hP u hu

/-- A schedule on threads below `n` leaves the others idle. -/
theorem IdleFrom.schedule {ms : List (Move S)} (hP : IdleFrom n P)
    (hms : (ms.all fun m => m.thread < n) = true) (h : schedule guard ms P = some P') :
    IdleFrom n P' := by
  induction ms generalizing P with
  | nil =>
    cases h
    exact hP
  | cons m ms ih =>
    obtain ⟨P₁, hm, hrest⟩ := Option.bind_eq_some_iff.mp h
    rw [List.all_cons, Bool.and_eq_true] at hms
    exact ih (hP.move (by simpa using hms.1) hm) hms.2 hrest

/-- If the threads below `n` have finished as well, all have. -/
theorem IdleFrom.finished (hP : IdleFrom n P)
    (hf : ((List.range n).all fun t => (P.threads t).rest.finished) = true) (t : ℕ) :
    (P.threads t).rest.finished = true := by
  by_cases ht : t < n
  · exact List.all_eq_true.mp hf t (List.mem_range.mpr ht)
  · exact hP t (by omega)

/-- What a schedule computes is reached by a run that meets `C`, if the choices of the outside
world, the guard and what all moves keep see to it. -/
theorem run_of_schedule_keeping {Ω : S.Oracle → Bool} {N : Pool S → Prop}
    (hN : ∀ P P' m, N P → m.thread < n → P.move guard m = some P' → N P')
    (hC : ∀ P o t c r s, N P → Ω o = true → S.answer o t P.shared c = some (r, s) →
      guard P t ⟨c, r⟩ = true → C P t ⟨c, r⟩)
    {ms : List (Move S)} (hP : N P) (hn : (ms.all fun m => m.thread < n) = true)
    (hms : ms.all (Move.within Ω) = true) (h : schedule guard ms P = some P') : Run C P P' := by
  induction ms generalizing P with
  | nil =>
    cases h
    exact .refl
  | cons m ms ih =>
    obtain ⟨P₁, hm, hrest⟩ := Option.bind_eq_some_iff.mp h
    rw [List.all_cons, Bool.and_eq_true] at hn hms
    have hP₁ : N P₁ := hN P P₁ m hP (by simpa using hn.1) hm
    refine .head ?_ (ih hP₁ hn.2 hms.2 hrest)
    rcases move_eq_some hm with ⟨t, op, a, rfl, ha, rfl⟩ | ⟨t, o, c, k, r, s, rfl, hk, hrs, hg, rfl⟩
    · exact .spawn P t op a ha
    · exact .call P t c k o r s hk hrs (hC P o t c r s hP hms.1 hrs hg)

/-- What a schedule computes is reached by a run that meets `C`, if the choices of the outside
world and the guard see to it. -/
theorem run_of_schedule {Ω : S.Oracle → Bool}
    (hC : ∀ P o t c r s, IdleFrom n P → Ω o = true → S.answer o t P.shared c = some (r, s) →
      guard P t ⟨c, r⟩ = true → C P t ⟨c, r⟩)
    {ms : List (Move S)} (hP : IdleFrom n P) (hn : (ms.all fun m => m.thread < n) = true)
    (hms : ms.all (Move.within Ω) = true) (h : schedule guard ms P = some P') : Run C P P' :=
  run_of_schedule_keeping (fun _ _ _ hP hm h => hP.move hm h) hC hP hn hms h

/-- The threads from `n` on have never had anything to do. -/
def UnusedFrom (n : ℕ) (P : Pool S) : Prop := ∀ u, n ≤ u → P.threads u = ⟨.ret S.idle, []⟩

theorem UnusedFrom.ghost_eq {M : Monitor I G} {g₀ : G} (hP : UnusedFrom n P) {u : ℕ} (hu : n ≤ u) :
    P.ghost M g₀ u = g₀ := by
  rw [ghost, hP u hu]
  rfl

/-- What a schedule on threads below `n` computes is reached by a run that meets `C`, if the guard
sees to it while the other threads are unused. -/
theorem run_of_schedule_unused (hC : ∀ P t x, UnusedFrom n P → guard P t x = true → C P t x)
    {ms : List (Move S)} (hP : UnusedFrom n P) (hn : (ms.all fun m => m.thread < n) = true)
    (h : schedule guard ms P = some P') : Run C P P' := by
  refine run_of_schedule_keeping (Ω := fun _ => true) (N := UnusedFrom n) ?_
    (fun P _ t c r _ hP _ _ hg => hC P t ⟨c, r⟩ hP hg) hP hn
    (List.all_eq_true.mpr fun m _ => by cases m <;> rfl) h
  intro P P' m hP hm hmove u hu
  rw [threads_of_move hmove (by omega)]
  exact hP u hu

/-- What a schedule computes with a decidable condition for its guard is reached by a run that
meets the condition. -/
theorem run_of_schedule_decide [∀ P t x, Decidable (C P t x)] {ms : List (Move S)}
    (hP : UnusedFrom n P) (hn : (ms.all fun m => m.thread < n) = true)
    (h : schedule (fun P t x => decide (C P t x)) ms P = some P') : Run C P P' :=
  run_of_schedule_unused (fun _ _ _ _ hg => of_decide_eq_true hg) hP hn h

end Scheduled

end Pool
