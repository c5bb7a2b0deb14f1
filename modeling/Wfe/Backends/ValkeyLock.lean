import Wfe.Library.Pool
import Wfe.Models.Definition
import Mathlib.Data.List.Induction

/-!
# Locks in Valkey

`ValkeyLockProvider`: the lock of a resource is a key that is set if it is absent, with the id of
the provider instance for its value, and that expires. A release deletes the key if its value is the
id of the instance. The callers of one instance, such as the consumers of one host, share its id, so
that the value does not tell their acquisitions apart.

## Main definitions

* `acquireLock`, `releaseLock`: the provider
* `hold`: what a caller does, from its `acquire_lock` to its `release_lock`
* `locks`: the machine of all callers of all instances, on which keys expire at any time
* `FreesOwn`: a release that deletes a key deletes that of its own acquisition
* `Unshared`: no caller acquires a lock that another caller of its instance has still to release

## Main results

* `freesOwn_of_unshared`: in runs whose acquisitions are unshared, releases free only their own
* `release_frees_later`: after an expiry, a release frees the lock of another caller
-/

namespace Wfe.ValkeyLock

/-! ## The provider -/

/-- The commands on the key of a resource: `SET NX EX`, the script of a release, and the expiry of
the key by the server. -/
inductive Command
  | setNx (self resource : String)
  | release (self resource : String)
  | expire (resource : String)
deriving DecidableEq, Repr

@[reducible] def Command.Reply : Command → Type
  | setNx _ _ => Except String (Option String)
  | release _ _ => Except String ℤ
  | expire _ => Unit

abbrev Valkey : Interface := ⟨Command, Command.Reply⟩

abbrev perform (c : Command) : Program Valkey c.Reply := Program.perform (I := Valkey) c

def acquireLock (self resource : String) : Program Valkey (Except WfeError Bool) := do
  match ← perform (.setNx self resource) with
  | .ok result => return .ok result.isSome
  | .error e => return .error (.persistence e)

def releaseLock (self resource : String) : Program Valkey (Except WfeError Unit) := do
  match ← perform (.release self resource) with
  | .ok _ => return .ok ()
  | .error e => return .error (.persistence e)

/-- A caller that has acquired the lock releases it at some time. -/
def hold (self resource : String) : Program Valkey (Except WfeError Bool) := do
  match ← acquireLock self resource with
  | .ok true =>
    match ← releaseLock self resource with
    | .ok _ => return .ok true
    | .error e => return .error e
  | r => return r

/-! ## The machine -/

/-- `lock_key`. -/
def lockKey (scope resource : String) : String := s!"{scope}:lock:{resource}"

theorem lockKey_injective (scope : String) : Function.Injective (lockKey scope) :=
  fun _ _ h => (String.append_right_inj _).mp h

/-- The keys with their values. -/
abbrev Keys := String → Option String

/-- Callers hold locks; there may be releases that go with no acquisition, and expiries. -/
inductive LockOp
  | hold (self resource : String)
  | release (self resource : String)
  | expire (resource : String)
deriving DecidableEq, Repr

inductive LockOutcome
  | idle
  | held (r : Except WfeError Bool)
  | released (r : Except WfeError Unit)
  | expired

def LockOp.program : LockOp → Program Valkey LockOutcome
  | hold self resource => ValkeyLock.hold self resource >>= fun r => pure (.held r)
  | release self resource => releaseLock self resource >>= fun r => pure (.released r)
  | expire resource => perform (.expire resource) >>= fun _ => pure .expired

namespace Keys

variable (scope : String) (failure : Option String) (s : Keys)

/-- The value of the key of a resource. -/
def value (resource : String) : Option String := s (lockKey scope resource)

def write (resource : String) (v : Option String) : Keys :=
  Function.update s (lockKey scope resource) v

/-- The answer to a command; one that fails has no effect. -/
def answer : (c : Command) → c.Reply × Keys
  | .setNx self resource =>
    match failure, s.value scope resource with
    | some e, _ => (.error e, s)
    | none, some _ => (.ok none, s)
    | none, none => (.ok (some "OK"), s.write scope resource (some self))
  | .release self resource =>
    match failure with
    | some e => (.error e, s)
    | none =>
      if s.value scope resource = some self then (.ok 1, s.write scope resource none)
      else (.ok 0, s)
  | .expire resource => ((), s.write scope resource none)

variable {scope} in
@[simp] theorem value_write (resource : String) (v : Option String) (r : String) :
    (s.write scope resource v).value scope r = if r = resource then v else s.value scope r := by
  simp [value, write, Function.update_apply, (lockKey_injective scope).eq_iff]

end Keys

/-- Any number of callers of any number of instances, with the keys of one configuration. -/
abbrev locks (scope : String) : Machine Valkey where
  Op := LockOp
  Outcome := LockOutcome
  idle := .idle
  State := Keys
  Oracle := Option String
  program := LockOp.program
  answer := fun o _ s c => some (s.answer scope o c)

/-- No key is set. -/
def Keys.empty : Keys := fun _ => none

/-! ## What is claimed -/

/-- The exchange of an `acquire_lock` that returns true. -/
def acquired (self resource : String) : Exchange Valkey := ⟨.setNx self resource, .ok (some "OK")⟩

/-- The exchange of a `release_lock` that has deleted the key. -/
def freed (self resource : String) : Exchange Valkey := ⟨.release self resource, .ok 1⟩

/-- When a caller has acquired a lock, and its next call, the release, has deleted the key, then
nobody has acquired the lock in between: the key that is deleted is that of the caller. -/
def FreesOwn {scope : String} (P : Pool (locks scope)) : Prop :=
  ∀ before between after t self resource,
    P.trace = before ++ (t, acquired self resource) :: between ++
      (t, freed self resource) :: after →
    (∀ x ∈ between, x.1 ≠ t) → ∀ u other, (u, acquired other resource) ∉ between

/-- What a caller is doing. -/
inductive Phase
  | idle
  | holding (self resource : String)
deriving DecidableEq, Repr

/-- A lock is released after it has been acquired; releases without an acquisition go unnoticed. -/
def lockMonitor : Monitor Valkey Phase where
  allow _ _ _ := True
  accept phase c :=
    match c with
    | .setNx _ _ | .expire _ => phase = .idle
    | .release self resource => phase = .idle ∨ phase = .holding self resource
  next phase c r :=
    match c, r with
    | .setNx self resource, .ok (some _) => .holding self resource
    | .setNx _ _, .ok none | .setNx _ _, .error _ => .idle
    | .release _ _, _ => .idle
    | .expire _, _ => phase

/-- What the caller on thread `t` is doing. -/
abbrev phase {scope : String} (P : Pool (locks scope)) (t : ℕ) : Phase :=
  P.ghost lockMonitor .idle t

/-- A lock is not acquired on an instance of which another caller has acquired it before, so that
its key has expired since, and has still to release it. -/
def Unshared {scope : String} (P : Pool (locks scope)) (_ : ℕ) : Exchange Valkey → Prop
  | ⟨.setNx self resource, .ok (some _)⟩ => ∀ u, phase P u ≠ .holding self resource
  | _ => True

/-! ## Programs -/

section Programs

open Program

/-- Every operation makes its calls in order. -/
theorem LockOp.meets (op : LockOp) :
    op.program.Meets lockMonitor (fun phase _ => phase = .idle) .idle := by
  cases op with
  | hold self resource =>
    refine ⟨rfl, fun r _ => ?_⟩
    rcases r with e | _ | ok
    · rfl
    · rfl
    · refine ⟨.inr rfl, fun r _ => ?_⟩
      rcases r with e | n <;> rfl
  | release self resource =>
    refine ⟨.inl rfl, fun r _ => ?_⟩
    rcases r with e | n <;> rfl
  | expire resource => exact ⟨rfl, fun _ _ => rfl⟩

end Programs

/-! ## Acquisitions -/

section Acquisitions

variable {scope : String} {P : Pool (locks scope)} {t : ℕ} {self resource : String}

/-- The exchanges of others since the last one of thread `t`, the latest first. -/
def since (trace : List (ℕ × Exchange Valkey)) (t : ℕ) : List (ℕ × Exchange Valkey) :=
  trace.reverse.takeWhile fun x => x.1 ≠ t

theorem since_concat (trace : List (ℕ × Exchange Valkey)) (x : ℕ × Exchange Valkey) :
    since (trace ++ [x]) t = if x.1 = t then [] else x :: since trace t := by
  by_cases h : x.1 = t <;> simp [since, h]

/-- The last exchange of thread `t`. -/
def last (trace : List (ℕ × Exchange Valkey)) (t : ℕ) : Option (Exchange Valkey) :=
  (trace.reverse.find? fun x => x.1 = t).map Prod.snd

theorem last_concat (trace : List (ℕ × Exchange Valkey)) (x : ℕ × Exchange Valkey) :
    last (trace ++ [x]) t = if x.1 = t then some x.2 else last trace t := by
  by_cases h : x.1 = t <;> simp [last, h]

theorem last_append {before between : List (ℕ × Exchange Valkey)} {x : Exchange Valkey}
    (h : ∀ y ∈ between, y.1 ≠ t) : last (before ++ (t, x) :: between) t = some x := by
  induction between using List.reverseRecOn with
  | nil => simp [last_concat]
  | append_singleton between y ih =>
    have hy : y.1 ≠ t := h y (by simp)
    have hrest := ih fun z hz => h z (by simp [hz])
    rw [← List.cons_append, ← List.append_assoc, last_concat, if_neg hy, hrest]

theorem since_append {before between : List (ℕ × Exchange Valkey)} {x : Exchange Valkey}
    (h : ∀ y ∈ between, y.1 ≠ t) : since (before ++ (t, x) :: between) t = between.reverse := by
  induction between using List.reverseRecOn with
  | nil => simp [since_concat]
  | append_singleton between y ih =>
    have hy : y.1 ≠ t := h y (by simp)
    have hrest := ih fun z hz => h z (by simp [hz])
    rw [← List.cons_append, ← List.append_assoc, since_concat, if_neg hy, hrest,
      List.reverse_append]
    rfl

/-- Nobody has acquired the lock since the last call on thread `t`. -/
def Latest (P : Pool (locks scope)) (resource : String) (t : ℕ) : Prop :=
  ∀ u other, (u, acquired other resource) ∉ since P.trace t

/-- A caller that has acquired a lock holds it until its next call; and if the key has the value of
its instance, it is the one that has acquired it last. -/
structure Sound (P : Pool (locks scope)) : Prop where
  conforms : Pool.Conforms lockMonitor .idle (fun phase _ => phase = .idle) P
  holding : ∀ t self resource, last P.trace t = some (acquired self resource) →
    phase P t = .holding self resource
  latest : ∀ t self resource, phase P t = .holding self resource →
    P.shared.value scope resource = some self → Latest P resource t
  freesOwn : FreesOwn P

theorem sound_start : Sound (Pool.start (locks scope) .empty) where
  conforms := Pool.conforms_start _ rfl
  holding _ _ _ h := absurd h (by simp [Pool.start, last])
  latest _ _ _ h := absurd h (by simp)
  freesOwn := by
    intro before between after t self resource h
    simp [Pool.start] at h

theorem Sound.spawn {op : LockOp} {a : LockOutcome} (h : Sound P)
    (ha : (P.threads t).rest = .ret a) : Sound (P.spawn t op) where
  conforms := h.conforms.spawn op.meets
  holding u self resource hlast := by
    have hu := h.holding u self resource hlast
    by_cases hut : u = t
    · -- A caller that holds a lock has not returned.
      subst hut
      have hidle : phase P u = .idle := h.conforms.returned ha
      rw [hidle] at hu
      cases hu
    · rwa [phase, Pool.ghost_spawn_of_ne (S := locks scope) op hut]
  latest u self resource hu hvalue := by
    by_cases hut : u = t
    · subst hut
      simp [phase] at hu
    · rw [phase, Pool.ghost_spawn_of_ne (S := locks scope) op hut] at hu
      exact h.latest u self resource hu hvalue
  freesOwn := h.freesOwn

section Call

variable {c : Command} {r : c.Reply} {p : Program Valkey LockOutcome} {o : Option String}
  {s : Keys}

/-- A value that is there after a command was there before, or has been set by it. -/
theorem Keys.value_of_answer {s s' : Keys} (hs : s.answer scope o c = (r, s'))
    (hvalue : s'.value scope resource = some self) :
    s.value scope resource = some self ∧ (∀ i, (⟨c, r⟩ : Exchange Valkey) ≠ acquired i resource) ∨
      (⟨c, r⟩ : Exchange Valkey) = acquired self resource := by
  cases c with
  | setNx i r' =>
    simp only [answer] at hs
    split at hs
    · cases hs
      exact .inl ⟨hvalue, by simp [acquired]⟩
    · cases hs
      exact .inl ⟨hvalue, by simp [acquired]⟩
    · cases hs
      by_cases hr : resource = r'
      · subst hr
        obtain rfl : i = self := by simpa using hvalue
        exact .inr rfl
      · refine .inl ⟨by simpa [hr] using hvalue, ?_⟩
        rintro j hj
        cases hj
        exact hr rfl
  | release i r' =>
    refine .inl ⟨?_, by simp [acquired]⟩
    simp only [answer] at hs
    split at hs
    · cases hs
      exact hvalue
    · split at hs <;> cases hs
      · by_cases hr : resource = r' <;> simp_all
      · exact hvalue
  | expire r' =>
    cases hs
    refine .inl ⟨?_, by simp [acquired]⟩
    by_cases hr : resource = r' <;> simp_all

theorem Keys.value_of_freed {s s' : Keys}
    (hs : s.answer scope o (.release self resource) = (.ok 1, s')) :
    s.value scope resource = some self := by
  simp only [answer] at hs
  split at hs
  · cases hs
  · split at hs
    · assumption
    · cases hs

theorem Sound.holding_proceed (h : Sound P) (u : ℕ) (i r' : String)
    (hlast : last (P.proceed t ⟨c, r⟩ p s).trace u = some (acquired i r')) :
    phase (P.proceed t ⟨c, r⟩ p s) u = .holding i r' := by
  rw [Pool.proceed_trace, last_concat] at hlast
  by_cases hu : t = u
  · subst hu
    rw [if_pos rfl] at hlast
    cases hlast
    rw [phase, Pool.ghost_proceed_self]
    rfl
  · rw [if_neg hu] at hlast
    rw [phase, Pool.ghost_proceed_of_ne _ _ _ (Ne.symm hu)]
    exact h.holding u i r' hlast

theorem Sound.latest_proceed (h : Sound P) (hs : P.shared.answer scope o c = (r, s))
    (hunshared : Unshared P t ⟨c, r⟩) (u : ℕ) (i r' : String)
    (hu : phase (P.proceed t ⟨c, r⟩ p s) u = .holding i r') (hvalue : s.value scope r' = some i) :
    Latest (P.proceed t ⟨c, r⟩ p s) r' u := by
  intro v other hmem
  rw [Pool.proceed_trace, since_concat] at hmem
  by_cases hut : t = u
  · simp [hut] at hmem
  · rw [if_neg hut] at hmem
    rw [phase, Pool.ghost_proceed_of_ne _ _ _ (Ne.symm hut)] at hu
    rcases Keys.value_of_answer hs hvalue with ⟨hbefore, hnot⟩ | hset
    · rcases List.mem_cons.mp hmem with hx | hmem
      · exact hnot other (Prod.mk.inj hx).2.symm
      · exact h.latest u i r' hu hbefore v other hmem
    · -- The key has been set by a caller of an instance of which `u` has still to release it.
      rw [hset] at hunshared
      exact hunshared u hu

theorem Sound.freesOwn_proceed (h : Sound P) (hs : P.shared.answer scope o c = (r, s)) :
    FreesOwn (P.proceed t ⟨c, r⟩ p s) := by
  intro before between after u i r' htrace hbetween
  rw [Pool.proceed_trace] at htrace
  induction after using List.reverseRecOn with
  | append_singleton after y _ =>
    -- The release was part of the trace before.
    rw [← List.cons_append, ← List.append_assoc] at htrace
    exact h.freesOwn before between after u i r' (List.append_inj' htrace rfl).1 hbetween
  | nil =>
    obtain ⟨hbefore, hx⟩ := List.append_inj' htrace rfl
    cases hx
    have hholding := h.holding t i r' (by rw [hbefore]; exact last_append hbetween)
    have hlatest := h.latest t i r' hholding (Keys.value_of_freed hs)
    intro v other hmem
    refine hlatest v other ?_
    rw [hbefore, since_append hbetween]
    exact List.mem_reverse.mpr hmem

end Call

theorem Sound.step {P' : Pool (locks scope)} (h : Sound P) (hstep : Pool.Step Unshared P P') :
    Sound P' := by
  cases hstep with
  | spawn t op a ha => exact h.spawn ha
  | call t c k o r s hk hs hunshared =>
    have hanswer : P.shared.answer scope o c = (r, s) := Option.some.inj hs
    exact ⟨h.conforms.proceed hk trivial s, h.holding_proceed, h.latest_proceed hanswer hunshared,
      h.freesOwn_proceed hanswer⟩

/-- **A release frees only its own acquisition** in every run in which no caller acquires a lock
that another caller of its instance has still to release. -/
theorem freesOwn_of_unshared (h : Pool.Run Unshared (Pool.start (locks scope) .empty) P) :
    FreesOwn P :=
  Sound.freesOwn (h.invariant (fun _ _ hP hstep => hP.step hstep) sound_start)

end Acquisitions

/-! ## Runs -/

section Runs

variable {scope : String} {P : Pool (locks scope)} {t n : ℕ}

/-- The caller acquires no lock that a thread below `n` has still to release. -/
def unsharedBelow (n : ℕ) (P : Pool (locks scope)) (_ : ℕ) : Exchange Valkey → Bool
  | ⟨.setNx self resource, _⟩ =>
    (List.range n).all fun u => phase P u ≠ .holding self resource
  | _ => true

theorem unshared_of_below {x : Exchange Valkey} (hP : Pool.UnusedFrom n P)
    (hx : unsharedBelow n P t x = true) : Unshared P t x := by
  obtain ⟨c, r⟩ := x
  cases c with
  | setNx self resource =>
    rcases r with e | _ | ok
    · trivial
    · trivial
    · intro u
      by_cases hu : u < n
      · simpa using List.all_eq_true.mp hx u (List.mem_range.mpr hu)
      · rw [phase, hP.ghost_eq (by omega)]
        simp
  | release self resource => trivial
  | expire resource => trivial

end Runs

/-- A caller of one instance acquires a lock, its key expires, and a caller of another instance
acquires it; then both release it. -/
def expiry (other : String) : List (Pool.Move (locks "wfe")) :=
  [.spawn 0 (.hold "a" "r"), .call 0 none, .spawn 1 (.expire "r"), .call 1 none,
    .spawn 1 (.hold other "r"), .call 1 none, .call 0 none, .call 1 none]

theorem freesOwn_expiry : ∃ P : Pool (locks "wfe"),
    Pool.Run Unshared (Pool.start (locks "wfe") .empty) P ∧ (1, freed "b" "r") ∈ P.trace ∧
      FreesOwn P := by
  have hfacts : (Pool.schedule (unsharedBelow 2) (expiry "b")
      (Pool.start (locks "wfe") .empty)).map (fun P => P.trace.getLast?) =
      some (some (1, freed "b" "r")) := by rfl
  obtain ⟨P, hP, hlast⟩ := Option.map_eq_some_iff.mp hfacts
  have hrun : Pool.Run Unshared (Pool.start (locks "wfe") .empty) P :=
    Pool.run_of_schedule_unused (fun _ _ _ hP hx => unshared_of_below hP hx) (fun _ _ => rfl)
      (by rfl) hP
  exact ⟨P, hrun, List.mem_of_getLast? hlast, freesOwn_of_unshared hrun⟩

/-- After an expiry, a release deletes the key of another caller of the same instance. -/
theorem release_frees_later : ¬∀ P : Pool (locks "wfe"),
    Pool.Run (fun _ _ _ => True) (Pool.start (locks "wfe") .empty) P → FreesOwn P := by
  intro hsafe
  have hfacts : (Pool.schedule (fun _ _ _ => true) (expiry "a")
      (Pool.start (locks "wfe") .empty)).map (fun P => P.trace) =
      some ([] ++ (0, acquired "a" "r") :: [(1, ⟨.expire "r", ()⟩), (1, acquired "a" "r")] ++
        (0, freed "a" "r") :: [(1, ⟨.release "a" "r", .ok 0⟩)]) := by rfl
  obtain ⟨P, hP, htrace⟩ := Option.map_eq_some_iff.mp hfacts
  have hrun : Pool.Run (fun _ _ _ => True) (Pool.start (locks "wfe") .empty) P :=
    Pool.run_of_schedule_unused (n := 2) (fun _ _ _ _ _ => trivial) (fun _ _ => rfl) (by rfl) hP
  exact hsafe P hrun _ _ _ 0 "a" "r" htrace (by simp) 1 "a" (by simp)

end Wfe.ValkeyLock
