import Wfe.Library.Program

/-!
# Programs served by programs

The calls of a program may themselves be programs over another interface, which share a state
that only they read and write: a client in front of a service that keeps books. What is known of
the client alone, against a monitor of its calls, carries over to the two together if the monitor
describes how each call is served.

## Main definitions

* `Program.serve`: a program whose calls are served from a state
* `Program.Expands`: what becomes of the exchanges of a program when its calls are programs

## Main results

* `Program.Meets.serve`: a program that meets a monitor, its calls served as the monitor expects
* `Program.path_translate`: the paths of a translated program
-/

namespace Program

variable {I J : Interface} {α σ G H : Type}

/-- Runs a program over `I` whose calls are served by programs over `J`, from a state. -/
def serve (server : σ → (c : I.Call) → Program J (I.Reply c × σ)) :
    Program I α → σ → Program J (α × σ)
  | ret a, s => ret (a, s)
  | call c k, s => server s c >>= fun rs => (k rs.1).serve server rs.2

/-- **Served programs.** If every call the first monitor admits is served, under the second
monitor, with a reply the first expects, then a program that meets the first meets the second
when it is served. -/
theorem Meets.serve {M : Monitor I G} {K : Monitor J H} {R : G → σ → H → Prop}
    {server : σ → (c : I.Call) → Program J (I.Reply c × σ)} {Q : G → α → Prop} {p : Program I α}
    {g : G} {s : σ} {k : H} (h : Meets M Q p g) (hR : R g s k)
    (hserver : ∀ g s k c, R g s k → M.accept g c →
      Meets K (fun k rs => M.allow g c rs.1 ∧ R (M.next g c rs.1) rs.2 k) (server s c) k) :
    Meets K (fun k as => ∃ g, R g as.2 k ∧ Q g as.1) (p.serve server s) k := by
  induction p generalizing g s k with
  | ret a => exact ⟨g, hR, h⟩
  | call c q ih =>
    rw [Program.serve, meets_bind]
    refine (hserver g s k c hR h.1).mono ?_
    rintro k ⟨r, s'⟩ ⟨hr, hR'⟩
    exact ih r (h.2 r hr) hR'

/-! ## Translated programs -/

/-- `Expands h tr tr'`: each call of `tr` is made by its program, and `tr'` is what these
programs do one after another. -/
inductive Expands (h : (c : I.Call) → Program J (I.Reply c)) :
    List (Exchange I) → List (Exchange J) → Prop
  | nil : Expands h [] []
  | cons {c : I.Call} {r : I.Reply c} {tr : List (Exchange I)} {t tr' : List (Exchange J)} :
      Path (h c) t r → Expands h tr tr' → Expands h (⟨c, r⟩ :: tr) (t ++ tr')

/-- **The paths of a translated program** are those of the program with every call expanded. -/
theorem path_translate {h : (c : I.Call) → Program J (I.Reply c)} {p : Program I α}
    {tr' : List (Exchange J)} {a : α} :
    Path (p.translate h) tr' a ↔ ∃ tr, Path p tr a ∧ Expands h tr tr' := by
  constructor
  · intro hp
    induction p generalizing tr' with
    | ret b =>
      obtain ⟨rfl, rfl⟩ := path_ret.mp hp
      exact ⟨[], .ret _, .nil⟩
    | call c k ih =>
      obtain ⟨t, r, rest, rfl, ht, hrest⟩ := path_bind.mp hp
      obtain ⟨tr, htr, hexpands⟩ := ih r hrest
      exact ⟨⟨c, r⟩ :: tr, .call c k r tr a htr, .cons ht hexpands⟩
  · rintro ⟨tr, hp, hexpands⟩
    induction hp generalizing tr' with
    | ret b =>
      cases hexpands
      exact .ret b
    | call c k r tr b _ ih =>
      cases hexpands with
      | cons ht hrest => exact path_bind.mpr ⟨_, r, _, rfl, ht, ih hrest⟩

end Program
