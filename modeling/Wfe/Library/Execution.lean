import Wfe.Library.Program

/-!
# Running one program

A program is run on its own against a state that answers its calls; a call may have no answer, and
then the program gets no further. There is no other thread here: for that, see the pools.

## Main definitions

* `Program.exec`: what a program returns, and the state it leaves

## Main results

* `Program.exec_bind`, `Program.exec_bindE`: one program after the other
-/

namespace Program

variable {I : Interface} {α β ε σ : Type}

/-- Runs a program from a state. -/
def exec (answer : σ → (c : I.Call) → Option (I.Reply c × σ)) : Program I α → σ → Option (α × σ)
  | ret a, s => some (a, s)
  | call c k, s => (answer s c).bind fun rs => (k rs.1).exec answer rs.2

variable {answer : σ → (c : I.Call) → Option (I.Reply c × σ)}

@[simp] theorem exec_ret (a : α) (s : σ) : exec answer (ret a) s = some (a, s) := rfl

theorem exec_call {c : I.Call} {k : I.Reply c → Program I α} {s s' : σ} {r : I.Reply c}
    (h : answer s c = some (r, s')) : exec answer (call c k) s = exec answer (k r) s' := by
  rw [exec, h]
  rfl

theorem exec_bind (p : Program I α) (f : α → Program I β) (s : σ) :
    exec answer (p >>= f) s = (exec answer p s).bind fun as => exec answer (f as.1) as.2 := by
  induction p generalizing s with
  | ret a => rfl
  | call c k ih =>
    rw [call_bind, exec, exec]
    cases answer s c with
    | none => rfl
    | some rs => exact ih rs.1 rs.2

/-- Runs a program that may fail. -/
def execE (answer : σ → (c : I.Call) → Option (I.Reply c × σ)) (x : ExceptT ε (Program I) α)
    (s : σ) : Option (Except ε α × σ) := exec answer x.run s

@[simp] theorem execE_pure (a : α) (s : σ) :
    execE answer (pure a : ExceptT ε (Program I) α) s = some (.ok a, s) := rfl

@[simp] theorem execE_throw (e : ε) (s : σ) :
    execE answer (throw e : ExceptT ε (Program I) α) s = some (.error e, s) := rfl

/-- After a program that succeeds comes the next. -/
theorem execE_bind_ok {x : ExceptT ε (Program I) α} {f : α → ExceptT ε (Program I) β} {s s' : σ}
    {a : α} (h : execE answer x s = some (.ok a, s')) :
    execE answer (x >>= f) s = execE answer (f a) s' := by
  have hbind : (x >>= f).run = x.run >>= fun r => ExceptT.bindCont f r := rfl
  unfold execE at h ⊢
  rw [hbind, exec_bind, h]
  rfl

/-- A failure is passed on. -/
theorem execE_bind_error {x : ExceptT ε (Program I) α} {f : α → ExceptT ε (Program I) β} {s s' : σ}
    {e : ε} (h : execE answer x s = some (.error e, s')) :
    execE answer (x >>= f) s = some (.error e, s') := by
  have hbind : (x >>= f).run = x.run >>= fun r => ExceptT.bindCont f r := rfl
  unfold execE at h ⊢
  rw [hbind, exec_bind, h]
  rfl

end Program
