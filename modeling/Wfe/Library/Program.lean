import Mathlib.Logic.Function.Basic
import Mathlib.Data.List.Basic

/-!
# Programs over an interface of atomic calls

A program is a tree of calls: it returns a value, or makes one call of its interface and
continues with the reply. Everything between two calls is pure. Two readings of a program are
given: the paths it can take against arbitrary replies, and the obligations a monitor puts on
its calls. A monitor watches the calls of one program, keeps a state of its own, and says which
replies are to be expected and which calls are admitted.

## Main definitions

* `Interface`, `Program I α`: calls with their replies, and the programs making them
* `Program.Path p tr a`: `p` makes the exchanges `tr` and returns `a`
* `Program.translate`: a program run by another interface
* `Monitor I G`, `Program.Meets M Q p g`: the rest `p` of a program makes only calls the monitor
  admits and returns in `Q`

## Main results

* `Program.path_bind`, `Program.path_bindE_iff`: the paths of a composite
* `Program.meets_bind`, `Program.meetsE_bind`: the rules of the monitor logic
* `Program.MeetsE.bind`: one program after the other
* `Program.Meets.simulate`: from one monitor to another that watches less
* `Program.Meets.path`: what a program that meets a monitor does along each of its paths
-/

/-- The calls a program can make, each with the type of its replies. -/
structure Interface where
  Call : Type
  Reply : Call → Type

/-- A program over `I`: a value, or a call and what follows each of its replies. -/
inductive Program (I : Interface) (α : Type) : Type
  | ret (a : α) : Program I α
  | call (c : I.Call) (k : I.Reply c → Program I α) : Program I α

/-- One call with the reply it got. -/
abbrev Exchange (I : Interface) : Type := Σ c : I.Call, I.Reply c

namespace Program

variable {I J : Interface} {α β γ ε G : Type}

/-- Sequencing: the second program is grafted at the values the first returns. -/
protected def bind : Program I α → (α → Program I β) → Program I β
  | ret a, f => f a
  | call c k, f => call c fun r => (k r).bind f

instance : Monad (Program I) where
  pure := ret
  bind := Program.bind

/-- A single call. -/
@[simp] def perform (c : I.Call) : Program I (I.Reply c) := call c ret

@[simp] theorem pure_eq_ret (a : α) : (pure a : Program I α) = ret a := rfl

@[simp] theorem ret_bind (a : α) (f : α → Program I β) : (ret a >>= f) = f a := rfl

@[simp] theorem call_bind (c : I.Call) (k : I.Reply c → Program I α) (f : α → Program I β) :
    (call c k >>= f) = call c fun r => k r >>= f := rfl

@[simp] theorem perform_bind (c : I.Call) (f : I.Reply c → Program I β) :
    (perform c >>= f) = call c f := rfl

theorem bind_ret (p : Program I α) : (p >>= ret) = p := by
  induction p with
  | ret a => rfl
  | call c k ih => exact congrArg (call c) (funext ih)

theorem bind_assoc (p : Program I α) (f : α → Program I β) (g : β → Program I γ) :
    (p >>= f >>= g) = p >>= fun a => f a >>= g := by
  induction p with
  | ret a => rfl
  | call c k ih => exact congrArg (call c) (funext ih)

instance : LawfulMonad (Program I) :=
  LawfulMonad.mk' _ bind_ret (fun _ _ => rfl) bind_assoc

/-- The program makes no further call. -/
def finished : Program I α → Bool
  | ret _ => true
  | call _ _ => false

theorem exists_ret_of_finished {p : Program I α} (h : p.finished = true) : ∃ a, p = ret a := by
  cases p with
  | ret a => exact ⟨a, rfl⟩
  | call c k => cases h

/-- Runs a program over `I` by programs over `J`, one for each call. -/
def translate (h : (c : I.Call) → Program J (I.Reply c)) : Program I α → Program J α
  | ret a => ret a
  | call c k => h c >>= fun r => (k r).translate h

/-! ## Paths -/

/-- `Path p tr a`: answered as in `tr`, the program `p` makes exactly the calls of `tr`, in this
order, and returns `a`. -/
inductive Path : Program I α → List (Exchange I) → α → Prop
  | ret (a : α) : Path (.ret a) [] a
  | call (c : I.Call) (k : I.Reply c → Program I α) (r : I.Reply c) (tr : List (Exchange I))
      (a : α) : Path (k r) tr a → Path (.call c k) (⟨c, r⟩ :: tr) a

@[simp] theorem path_ret {a b : α} {tr : List (Exchange I)} :
    Path (.ret a) tr b ↔ tr = [] ∧ b = a := by
  constructor
  · rintro ⟨⟩
    exact ⟨rfl, rfl⟩
  · rintro ⟨rfl, rfl⟩
    exact .ret _

@[simp] theorem path_call {c : I.Call} {k : I.Reply c → Program I α} {tr : List (Exchange I)}
    {a : α} : Path (.call c k) tr a ↔ ∃ r tr', tr = ⟨c, r⟩ :: tr' ∧ Path (k r) tr' a := by
  constructor
  · rintro ⟨⟩
    exact ⟨_, _, rfl, ‹_›⟩
  · rintro ⟨r, tr', rfl, h⟩
    exact .call _ _ _ _ _ h

theorem path_bind {p : Program I α} {f : α → Program I β} {tr : List (Exchange I)} {b : β} :
    Path (p >>= f) tr b ↔ ∃ tr₁ a tr₂, tr = tr₁ ++ tr₂ ∧ Path p tr₁ a ∧ Path (f a) tr₂ b := by
  induction p generalizing tr with
  | ret a =>
    constructor
    · intro h
      exact ⟨[], a, tr, rfl, .ret a, h⟩
    · rintro ⟨tr₁, a', tr₂, rfl, h₁, h₂⟩
      obtain ⟨rfl, rfl⟩ := path_ret.mp h₁
      exact h₂
  | call c k ih =>
    constructor
    · intro h
      obtain ⟨r, tr', rfl, h'⟩ := path_call.mp h
      obtain ⟨tr₁, a, tr₂, rfl, h₁, h₂⟩ := (ih r).mp h'
      exact ⟨⟨c, r⟩ :: tr₁, a, tr₂, rfl, .call _ _ _ _ _ h₁, h₂⟩
    · rintro ⟨tr₁, a, tr₂, rfl, h₁, h₂⟩
      obtain ⟨r, tr', rfl, h'⟩ := path_call.mp h₁
      exact path_call.mpr ⟨r, tr' ++ tr₂, rfl, (ih r).mpr ⟨tr', a, tr₂, rfl, h', h₂⟩⟩

/-- The path a program takes along a choice of replies, and what it returns. -/
def answeredBy (answer : (c : I.Call) → I.Reply c) : Program I α → List (Exchange I) × α
  | ret a => ([], a)
  | call c k =>
    let (tr, a) := (k (answer c)).answeredBy answer
    (⟨c, answer c⟩ :: tr, a)

theorem path_answeredBy (answer : (c : I.Call) → I.Reply c) (p : Program I α) :
    Path p (p.answeredBy answer).1 (p.answeredBy answer).2 := by
  induction p with
  | ret a => exact .ret a
  | call c k ih => exact .call c k (answer c) _ _ (ih (answer c))

theorem mem_answeredBy {answer : (c : I.Call) → I.Reply c} {p : Program I α} {x : Exchange I}
    (hx : x ∈ (p.answeredBy answer).1) : x.2 = answer x.1 := by
  induction p with
  | ret a => cases hx
  | call c k ih =>
    rcases List.mem_cons.mp hx with rfl | hx
    · rfl
    · exact ih (answer c) hx

end Program

/-! ## Monitors -/

/-- A monitor of the calls of one program: `allow g c r` says that `r` is a reply to expect to
`c`, `accept g c` that the program may make the call, and `next` is the monitor's own step. -/
structure Monitor (I : Interface) (G : Type) where
  allow : G → (c : I.Call) → I.Reply c → Prop
  accept : G → I.Call → Prop
  next : G → (c : I.Call) → I.Reply c → G

namespace Monitor

variable {I : Interface} {G : Type} (M : Monitor I G)

/-- The state of the monitor after the exchanges `tr`. -/
def after : G → List (Exchange I) → G
  | g, [] => g
  | g, x :: tr => after (M.next g x.1 x.2) tr

theorem after_append (g : G) (tr tr' : List (Exchange I)) :
    M.after g (tr ++ tr') = M.after (M.after g tr) tr' := by
  induction tr generalizing g with
  | nil => rfl
  | cons x tr ih => exact ih _

/-- Every reply along `tr` is one to expect. -/
def Allows : G → List (Exchange I) → Prop
  | _, [] => True
  | g, x :: tr => M.allow g x.1 x.2 ∧ Allows (M.next g x.1 x.2) tr

/-- Every call along `tr` is admitted. -/
def Admits : G → List (Exchange I) → Prop
  | _, [] => True
  | g, x :: tr => M.accept g x.1 ∧ Admits (M.next g x.1 x.2) tr

/-- Replies to expect in every state are to be expected along a trace. -/
theorem allows_of_forall {M : Monitor I G} {tr : List (Exchange I)}
    (h : ∀ x ∈ tr, ∀ g, M.allow g x.1 x.2) (g : G) : M.Allows g tr := by
  induction tr generalizing g with
  | nil => trivial
  | cons x tr ih =>
    exact ⟨h x List.mem_cons_self g, ih (fun y hy => h y (List.mem_cons_of_mem x hy)) _⟩

theorem allows_unit {M : Monitor I Unit} {tr : List (Exchange I)} :
    M.Allows () tr ↔ ∀ x ∈ tr, M.allow () x.1 x.2 := by
  induction tr with
  | nil => simp [Allows]
  | cons x tr ih => simp [Allows, ih]

theorem admits_unit {M : Monitor I Unit} {tr : List (Exchange I)} :
    M.Admits () tr ↔ ∀ x ∈ tr, M.accept () x.1 := by
  induction tr with
  | nil => simp [Admits]
  | cons x tr ih => simp [Admits, ih]

/-- The monitor that records the exchanges. -/
def record (I : Interface) : Monitor I (List (Exchange I)) where
  allow _ _ _ := True
  accept _ _ := True
  next tr c r := tr ++ [⟨c, r⟩]

theorem after_record (tr tr' : List (Exchange I)) : (record I).after tr tr' = tr ++ tr' := by
  induction tr' generalizing tr with
  | nil => simp [after]
  | cons x tr' ih =>
    rw [after, ih]
    simp [record]

/-- The monitor that admits the calls of `L`. -/
def only (L : I.Call → Prop) : Monitor I Unit where
  allow _ _ _ := True
  accept _ c := L c
  next _ _ _ := ()

/-- In the states `N`, the call `c` is admitted and its replies lead to `N` again. -/
def Keeps (N : G → Prop) (c : I.Call) : Prop :=
  ∀ g, N g → M.accept g c ∧ ∀ r, M.allow g c r → N (M.next g c r)

end Monitor

namespace Program

variable {I : Interface} {α β γ ε G : Type} {M : Monitor I G}

/-- `Meets M Q p g`: with the monitor in state `g`, the program `p` makes only admitted calls,
whatever expected replies it gets, and returns a value in `Q`. -/
def Meets (M : Monitor I G) (Q : G → α → Prop) : Program I α → G → Prop
  | ret a, g => Q g a
  | call c k, g => M.accept g c ∧ ∀ r, M.allow g c r → Meets M Q (k r) (M.next g c r)

@[simp] theorem meets_ret {Q : G → α → Prop} {a : α} {g : G} :
    Meets M Q (ret a) g ↔ Q g a := Iff.rfl

@[simp] theorem meets_call {Q : G → α → Prop} {c : I.Call} {k : I.Reply c → Program I α} {g : G} :
    Meets M Q (call c k) g ↔
      M.accept g c ∧ ∀ r, M.allow g c r → Meets M Q (k r) (M.next g c r) := Iff.rfl

theorem meets_bind {Q : G → β → Prop} {p : Program I α} {f : α → Program I β} {g : G} :
    Meets M Q (p >>= f) g ↔ Meets M (fun g a => Meets M Q (f a) g) p g := by
  induction p generalizing g with
  | ret a => rfl
  | call c k ih => exact and_congr_right fun _ => forall₂_congr fun r _ => ih r

theorem Meets.mono {Q Q' : G → α → Prop} {p : Program I α} {g : G} (h : Meets M Q p g)
    (hQ : ∀ g a, Q g a → Q' g a) : Meets M Q' p g := by
  induction p generalizing g with
  | ret a => exact hQ g a h
  | call c k ih => exact ⟨h.1, fun r hr => ih r (h.2 r hr)⟩

/-- A program whose calls are all admitted in the states `N`, and keep the monitor in `N`,
returns in `N`. -/
theorem meets_of_neutral {N : G → Prop} {p : Program I α} {g : G} (hg : N g)
    (h : ∀ g c, N g → M.accept g c ∧ ∀ r, M.allow g c r → N (M.next g c r)) :
    Meets M (fun g _ => N g) p g := by
  induction p generalizing g with
  | ret a => exact hg
  | call c k ih => exact ⟨(h g c hg).1, fun r hr => ih r ((h g c hg).2 r hr)⟩

/-- Along each of its paths with expected replies, a program that meets the monitor makes
admitted calls only and returns a value in `Q`. -/
theorem Meets.path {Q : G → α → Prop} {p : Program I α} {g : G} {tr : List (Exchange I)} {a : α}
    (h : Meets M Q p g) (hp : Path p tr a) (ha : M.Allows g tr) :
    M.Admits g tr ∧ Q (M.after g tr) a := by
  induction hp generalizing g with
  | ret a => exact ⟨trivial, h⟩
  | call c k r tr a _ ih =>
    obtain ⟨haccept, hq⟩ := ih (h.2 r ha.1) ha.2
    exact ⟨⟨h.1, haccept⟩, hq⟩

/-- The value a program returns is one it returns along a path. -/
theorem Meets.returned {Q : G → α → Prop} {p : Program I α} {g : G} (h : Meets M Q p g) :
    Meets M (fun g a => Q g a ∧ ∃ tr, Path p tr a) p g := by
  induction p generalizing g with
  | ret a => exact ⟨h, [], .ret a⟩
  | call c k ih =>
    refine ⟨h.1, fun r hr => (ih r (h.2 r hr)).mono ?_⟩
    rintro g a ⟨hq, tr, hp⟩
    exact ⟨hq, _, .call c k r tr a hp⟩

/-- A translated program keeps what the programs of its calls keep. -/
theorem meets_translate {J : Interface} {N : G → Prop} {h : (c : J.Call) → Program I (J.Reply c)}
    {p : Program J α} {g : G} (hg : N g)
    (hc : ∀ c g, N g → Meets M (fun g _ => N g) (h c) g) :
    Meets M (fun g _ => N g) (p.translate h) g := by
  induction p generalizing g with
  | ret a => exact hg
  | call c k ih =>
    rw [translate, meets_bind]
    exact (hc c g hg).mono fun g r hg => ih r hg

/-- A program that meets a monitor meets every monitor that watches less: one that admits the
calls the first admits and expects no other replies. -/
theorem Meets.simulate {H : Type} {K : Monitor I H} {R : G → H → Prop} {Q : G → α → Prop}
    {p : Program I α} {g : G} {g' : H} (h : Meets M Q p g) (hR : R g g')
    (hstep : ∀ g g' c, R g g' → M.accept g c → K.accept g' c ∧
      ∀ r, K.allow g' c r → M.allow g c r ∧ R (M.next g c r) (K.next g' c r)) :
    Meets K (fun g' a => ∃ g, R g g' ∧ Q g a) p g' := by
  induction p generalizing g g' with
  | ret a => exact ⟨g, hR, h⟩
  | call c k ih =>
    obtain ⟨haccept, hallow⟩ := hstep g g' c hR h.1
    refine ⟨haccept, fun r hr => ?_⟩
    obtain ⟨hr', hR'⟩ := hallow r hr
    exact ih r (h.2 r hr') hR'

/-- A program that makes only calls of `L` keeps what all these calls keep. -/
theorem Meets.keeps {L : I.Call → Prop} {N : G → Prop} {Q : Unit → α → Prop} {p : Program I α}
    {g : G} (h : Meets (Monitor.only L) Q p ()) (hL : ∀ c, L c → M.Keeps N c) (hg : N g) :
    Meets M (fun g _ => N g) p g := by
  refine (h.simulate (R := fun _ g => N g) hg ?_).mono fun g _ hg => hg.choose_spec.1
  exact fun _ g c hg hc => ⟨(hL c hc g hg).1, fun r hr => ⟨trivial, (hL c hc g hg).2 r hr⟩⟩

/-- A translated program that makes only calls of `L` keeps what the programs of these keep. -/
theorem Meets.translate {J : Interface} {L : J.Call → Prop} {N : G → Prop} {Q : Unit → α → Prop}
    {h : (c : J.Call) → Program I (J.Reply c)} {p : Program J α} {g : G}
    (hp : Meets (Monitor.only L) Q p ()) (hg : N g)
    (hL : ∀ c, L c → ∀ g, N g → Meets M (fun g _ => N g) (h c) g) :
    Meets M (fun g _ => N g) (p.translate h) g := by
  induction p generalizing g with
  | ret a => exact hg
  | call c k ih =>
    rw [Program.translate, meets_bind]
    exact (hL c hp.1 g hg).mono fun g r hg => ih r (hp.2 r trivial) hg

/-! ## Programs that may fail -/

section Fallible

/-- `MeetsE M Q E x g`: as `Meets`, for a program that may fail: it returns in `Q` or fails
in `E`. -/
def MeetsE (M : Monitor I G) (Q : G → α → Prop) (E : G → ε → Prop)
    (x : ExceptT ε (Program I) α) (g : G) : Prop :=
  Meets M (fun g r => match r with
    | .ok a => Q g a
    | .error e => E g e) x.run g

variable {Q : G → α → Prop} {E : G → ε → Prop} {g : G}

@[simp] theorem meetsE_pure {a : α} :
    MeetsE M Q E (pure a : ExceptT ε (Program I) α) g ↔ Q g a := Iff.rfl

@[simp] theorem meetsE_throw {e : ε} :
    MeetsE M Q E (throw e : ExceptT ε (Program I) α) g ↔ E g e := Iff.rfl

@[simp] theorem meetsE_lift {p : Program I α} :
    MeetsE M Q E (ExceptT.lift p : ExceptT ε (Program I) α) g ↔ Meets M Q p g := by
  unfold MeetsE
  rw [ExceptT.run_lift, ← bind_pure_comp, meets_bind]
  exact Iff.rfl

theorem path_bindE {x : ExceptT ε (Program I) α} {f : α → ExceptT ε (Program I) β}
    {tr tr' : List (Exchange I)} {a : α} {r : Except ε β} (hx : Path x.run tr (.ok a))
    (hf : Path (f a).run tr' r) : Path (x >>= f).run (tr ++ tr') r := by
  rw [ExceptT.run_bind]
  exact path_bind.mpr ⟨tr, .ok a, tr', rfl, hx, hf⟩

theorem path_bindE_iff {x : ExceptT ε (Program I) α} {f : α → ExceptT ε (Program I) β}
    {tr : List (Exchange I)} {r : Except ε β} : Path (x >>= f).run tr r ↔
      (∃ tr₁ a tr₂, tr = tr₁ ++ tr₂ ∧ Path x.run tr₁ (.ok a) ∧ Path (f a).run tr₂ r) ∨
      ∃ e, Path x.run tr (.error e) ∧ r = .error e := by
  constructor
  · intro h
    rw [ExceptT.run_bind] at h
    obtain ⟨tr₁, a, tr₂, rfl, hx, hf⟩ := path_bind.mp h
    cases a with
    | ok a => exact .inl ⟨tr₁, a, tr₂, rfl, hx, hf⟩
    | error e =>
      obtain ⟨rfl, rfl⟩ := path_ret.mp hf
      exact .inr ⟨e, by rwa [List.append_nil], rfl⟩
  · rintro (⟨tr₁, a, tr₂, rfl, hx, hf⟩ | ⟨e, hx, rfl⟩)
    · exact path_bindE hx hf
    · rw [ExceptT.run_bind]
      exact path_bind.mpr ⟨tr, .error e, [], (List.append_nil tr).symm, hx, .ret _⟩

theorem path_liftE {p : Program I α} {tr : List (Exchange I)} {a : α} (hp : Path p tr a) :
    Path (ExceptT.lift p : ExceptT ε (Program I) α).run tr (.ok a) := by
  rw [ExceptT.run_lift, ← bind_pure_comp]
  exact path_bind.mpr ⟨tr, a, [], (List.append_nil tr).symm, hp, .ret _⟩

theorem path_liftE_iff {p : Program I α} {tr : List (Exchange I)} {r : Except ε α} :
    Path (ExceptT.lift p : ExceptT ε (Program I) α).run tr r ↔ ∃ a, r = .ok a ∧ Path p tr a := by
  constructor
  · intro h
    rw [ExceptT.run_lift, ← bind_pure_comp] at h
    obtain ⟨tr₁, a, tr₂, rfl, hp, ha⟩ := path_bind.mp h
    obtain ⟨rfl, rfl⟩ := path_ret.mp ha
    exact ⟨a, rfl, by rwa [List.append_nil]⟩
  · rintro ⟨a, rfl, hp⟩
    exact path_liftE hp

theorem path_liftE_bind {p : Program I α} {f : α → ExceptT ε (Program I) β}
    {tr : List (Exchange I)} {r : Except ε β} :
    Path ((ExceptT.lift p : ExceptT ε (Program I) α) >>= f).run tr r ↔
      ∃ tr₁ a tr₂, tr = tr₁ ++ tr₂ ∧ Path p tr₁ a ∧ Path (f a).run tr₂ r := by
  rw [path_bindE_iff]
  constructor
  · rintro (⟨tr₁, a, tr₂, rfl, hp, hf⟩ | ⟨e, hp, -⟩)
    · obtain ⟨_, heq, hp⟩ := path_liftE_iff.mp hp
      cases heq
      exact ⟨tr₁, a, tr₂, rfl, hp, hf⟩
    · obtain ⟨_, heq, -⟩ := path_liftE_iff.mp hp
      cases heq
  · rintro ⟨tr₁, a, tr₂, rfl, hp, hf⟩
    exact .inl ⟨tr₁, a, tr₂, rfl, path_liftE hp, hf⟩

/-- What holds of the monitor however the program ends. -/
theorem meetsE_run {N : G → Prop} {x : ExceptT ε (Program I) α} :
    MeetsE M (fun g _ => N g) (fun g _ => N g) x g ↔ Meets M (fun g _ => N g) x.run g := by
  constructor <;>
  · intro h
    refine Meets.mono h fun g r hr => ?_
    cases r <;> exact hr

@[simp] theorem meetsE_mk_ok {a : α} :
    MeetsE M Q E (ExceptT.mk (ret (.ok a)) : ExceptT ε (Program I) α) g ↔ Q g a := Iff.rfl

@[simp] theorem meetsE_mk_error {e : ε} :
    MeetsE M Q E (ExceptT.mk (ret (.error e)) : ExceptT ε (Program I) α) g ↔ E g e := Iff.rfl

@[simp] theorem meetsE_bind {Q : G → β → Prop} {x : ExceptT ε (Program I) α}
    {f : α → ExceptT ε (Program I) β} :
    MeetsE M Q E (x >>= f) g ↔ MeetsE M (fun g a => MeetsE M Q E (f a) g) E x g := by
  unfold MeetsE
  rw [ExceptT.run_bind, meets_bind]
  constructor <;>
  · intro h
    refine h.mono fun g r hr => ?_
    cases r <;> exact hr

@[simp] theorem meetsE_map {Q : G → β → Prop} {f : α → β} {x : ExceptT ε (Program I) α} :
    MeetsE M Q E (f <$> x) g ↔ MeetsE M (fun g a => Q g (f a)) E x g := by
  rw [← bind_pure_comp, meetsE_bind]
  rfl

theorem MeetsE.mono {Q' : G → α → Prop} {E' : G → ε → Prop} {x : ExceptT ε (Program I) α}
    (h : MeetsE M Q E x g) (hQ : ∀ g a, Q g a → Q' g a) (hE : ∀ g e, E g e → E' g e) :
    MeetsE M Q' E' x g := by
  refine Meets.mono h fun g r hr => ?_
  cases r with
  | ok a => exact hQ g a hr
  | error e => exact hE g e hr

/-- One program after the other: what the first establishes, the second may rely on. -/
theorem MeetsE.bind {R : G → β → Prop} {x : ExceptT ε (Program I) α}
    {f : α → ExceptT ε (Program I) β} (h : MeetsE M Q E x g)
    (hf : ∀ g a, Q g a → MeetsE M R E (f a) g) : MeetsE M R E (x >>= f) g :=
  meetsE_bind.mpr (h.mono hf fun _ _ h => h)

theorem MeetsE.simulate {H : Type} {K : Monitor I H} {R : G → H → Prop}
    {x : ExceptT ε (Program I) α} {g' : H} (h : MeetsE M Q E x g) (hR : R g g')
    (hstep : ∀ g g' c, R g g' → M.accept g c → K.accept g' c ∧
      ∀ r, K.allow g' c r → M.allow g c r ∧ R (M.next g c r) (K.next g' c r)) :
    MeetsE K (fun g' a => ∃ g, R g g' ∧ Q g a) (fun g' e => ∃ g, R g g' ∧ E g e) x g' := by
  refine (Meets.simulate h hR hstep).mono fun g' r hr => ?_
  cases r <;> exact hr

end Fallible

end Program
