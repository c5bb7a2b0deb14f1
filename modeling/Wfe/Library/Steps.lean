import Mathlib.Data.List.Induction

/-!
# Runs of a system that may refuse an event

A system is given by what an event does to its state, with `none` where the event cannot happen.

## Main definitions

* `Steps.run step s es`: the state after the events `es`, if they can happen in this order
* `Steps.Always step s C es`: every event of the run happens in a state where `C` allows it

## Main results

* `Steps.run_induction`: what the start has and each step keeps, with the events so far in view
* `Steps.always_concat`: the last event of a run and those before it
-/

namespace Steps

variable {σ E : Type} {step : σ → E → Option σ} {s s' : σ} {e : E} {es fs : List E}

/-- The state after these events, if they can happen in this order. -/
def run (step : σ → E → Option σ) (s : σ) (es : List E) : Option σ := es.foldlM step s

@[simp]
theorem run_nil : run step s [] = some s := rfl

theorem run_append : run step s (es ++ fs) = (run step s es).bind fun m => run step m fs := by
  simp [run, List.foldlM_append]

theorem run_cons : run step s (e :: es) = (step s e).bind fun m => run step m es := rfl

theorem run_concat : run step s (es ++ [e]) = (run step s es).bind fun m => step m e := by
  simp [run, List.foldlM_append]

theorem run_append_of_eq {m : σ} (h : run step s es = some m) :
    run step s (es ++ fs) = run step m fs := by
  rw [run_append, h, Option.bind_some]

theorem exists_of_run_concat (h : run step s (es ++ [e]) = some s') :
    ∃ m, run step s es = some m ∧ step m e = some s' := by
  rw [run_concat] at h
  exact Option.bind_eq_some_iff.1 h

/-- What holds at the start and is kept by each step, the events so far in view, holds after every
run. -/
theorem run_induction {P : List E → σ → Prop} (hstart : P [] s)
    (hstep : ∀ es e m m', run step s es = some m → P es m → step m e = some m' →
      P (es ++ [e]) m') (h : run step s es = some s') : P es s' := by
  induction es using List.reverseRecOn generalizing s' with
  | nil =>
    rw [run_nil, Option.some_inj] at h
    exact h ▸ hstart
  | append_singleton es e ih =>
    obtain ⟨m, hm, hlast⟩ := exists_of_run_concat h
    exact hstep es e m s' hm (ih hm) hlast

/-- Every event of the run happens in a state where `C` allows it. -/
def Always (step : σ → E → Option σ) (s : σ) (C : σ → E → Prop) (es : List E) : Prop :=
  ∀ pre e post m, es = pre ++ e :: post → run step s pre = some m → C m e

variable {C : σ → E → Prop}

theorem always_nil : Always step s C [] := by
  intro pre e post m h
  simp at h

theorem always_concat (h : run step s es = some s') :
    Always step s C (es ++ [e]) ↔ Always step s C es ∧ C s' e := by
  constructor
  · intro hall
    refine ⟨?_, hall es e [] s' rfl h⟩
    rintro pre a post m rfl hm
    exact hall pre a (post ++ [e]) m (by simp) hm
  · rintro ⟨hall, hlast⟩ pre a post m heq hm
    -- The event is the last one, or one of those before it.
    rcases List.eq_nil_or_concat post with rfl | ⟨post, b, rfl⟩
    · obtain ⟨rfl, hae⟩ := List.append_inj' heq rfl
      obtain rfl : e = a := List.head_eq_of_cons_eq hae
      rw [h, Option.some_inj] at hm
      exact hm ▸ hlast
    · have heq' : es ++ [e] = (pre ++ a :: post) ++ [b] := by simpa using heq
      exact hall pre a post m (List.append_inj' heq' rfl).1 hm

end Steps
