import Mathlib.Data.List.Basic
import Mathlib.Logic.Function.Basic

/-!
# Transactions

A server whose sessions write in transactions. A statement sees what has been committed when it is
executed, and what its own transaction has written so far; a write that conflicts with one that
another session has pending has to wait until that one is committed or gone. A transaction that is
committed is appended to the log with all its writes; one that is not leaves nothing.

## Main definitions

* `Transactions.Server`: the log, the pending writes and what the transactions are up to
* `Server.own`, `Server.seen`: the writes of a session, and those that it sees
* `Server.waits`: a write has to wait for another session
* `Server.Separate`: pending writes of different sessions do not conflict
* `latest`: what the last transaction of a log tells

## Main results

* `Server.Separate.write`, `Server.Separate.discard`: sessions stay separate
* `latest_concat`: what a transaction more tells
-/

namespace Transactions

/-- What a session's transaction is up to. -/
inductive Status
  | closed
  | opened
  | aborted
deriving DecidableEq

/-- The committed transactions, the writes that are not committed yet, each with its session, and
the transactions of all sessions. -/
structure Server (W : Type) where
  log : List (List W)
  pending : List (ℕ × W)
  status : ℕ → Status

namespace Server

variable {W : Type}

/-- Nothing has been written. -/
def empty : Server W := ⟨[], [], fun _ => .closed⟩

variable (s : Server W) (t : ℕ)

/-- What session `t` has written and not committed. -/
def own : List W := (s.pending.filter fun x => x.1 = t).map Prod.snd

/-- What a statement of session `t` sees. -/
def seen : List W := s.log.flatten ++ s.own t

/-- A write of session `t` conflicts with a pending one of another session. -/
def waits (conflict : W → W → Bool) (w : W) : Bool :=
  s.pending.any fun x => x.1 ≠ t && conflict w x.2

def setStatus (status : Status) : Server W :=
  { s with status := Function.update s.status t status }

def write (w : W) : Server W := { s with pending := s.pending ++ [(t, w)] }

/-- The writes of session `t` are gone. -/
def discard (status : Status) : Server W :=
  { s.setStatus t status with pending := s.pending.filter fun x => x.1 ≠ t }

/-- All that session `t` has written is appended to the log. -/
def commit : Server W := { s.discard t .closed with log := s.log ++ [s.own t] }

section Sessions

variable {s : Server W} {t u : ℕ} {w : W} {status : Status}

theorem mem_own : w ∈ s.own t ↔ (t, w) ∈ s.pending := by
  simp [own]

@[simp] theorem own_setStatus : (s.setStatus t status).own u = s.own u := rfl

@[simp] theorem own_write_self : (s.write t w).own t = s.own t ++ [w] := by
  simp [own, write]

theorem own_write_of_ne (h : u ≠ t) : (s.write t w).own u = s.own u := by
  simp [own, write, h.symm]

@[simp] theorem own_discard_self : (s.discard t status).own t = [] := by
  simp [own, discard]

theorem own_discard_of_ne (h : u ≠ t) : (s.discard t status).own u = s.own u := by
  unfold own discard
  dsimp only
  rw [List.filter_filter]
  congr 1
  apply List.filter_congr
  intro x _
  by_cases hx : x.1 = u
  · simp [hx, h]
  · simp [hx]

@[simp] theorem own_commit : (s.commit t).own u = (s.discard t .closed).own u := rfl

@[simp] theorem log_commit : (s.commit t).log = s.log ++ [s.own t] := rfl

@[simp] theorem log_write : (s.write t w).log = s.log := rfl

@[simp] theorem log_discard : (s.discard t status).log = s.log := rfl

@[simp] theorem log_setStatus : (s.setStatus t status).log = s.log := rfl

end Sessions

/-! ## Conflicts -/

/-- Pending writes of different sessions do not conflict. -/
def Separate (conflict : W → W → Bool) : Prop :=
  ∀ x ∈ s.pending, ∀ y ∈ s.pending, x.1 ≠ y.1 → conflict x.2 y.2 = false

namespace Separate

variable {s} {t} {u : ℕ} {conflict : W → W → Bool} {w w' : W} {status : Status}

theorem empty : (Server.empty : Server W).Separate conflict := by
  intro x hx
  cases hx

theorem own (h : s.Separate conflict) (htu : t ≠ u) (hw : w ∈ s.own t) (hw' : w' ∈ s.own u) :
    conflict w w' = false :=
  h _ (mem_own.mp hw) _ (mem_own.mp hw') htu

theorem setStatus (h : s.Separate conflict) : (s.setStatus t status).Separate conflict := h

/-- A write that need not wait conflicts with nothing. -/
theorem write (hsymm : ∀ w w', conflict w w' = conflict w' w) (h : s.Separate conflict)
    (hw : s.waits t conflict w = false) : (s.write t w).Separate conflict := by
  have hfree : ∀ y ∈ s.pending, y.1 ≠ t → conflict w y.2 = false := by
    intro y hy hne
    have hnot := List.any_eq_false.mp hw y hy
    simpa [hne] using hnot
  intro x hx y hy hne
  rcases List.mem_append.mp hx with hx | hx
  · rcases List.mem_append.mp hy with hy | hy
    · exact h x hx y hy hne
    · obtain rfl := List.mem_singleton.mp hy
      rw [hsymm]
      exact hfree x hx hne
  · obtain rfl := List.mem_singleton.mp hx
    rcases List.mem_append.mp hy with hy | hy
    · exact hfree y hy hne.symm
    · obtain rfl := List.mem_singleton.mp hy
      exact absurd rfl hne

theorem discard (h : s.Separate conflict) : (s.discard t status).Separate conflict := by
  intro x hx y hy
  exact h x (List.mem_of_mem_filter hx) y (List.mem_of_mem_filter hy)

theorem commit (h : s.Separate conflict) : (s.commit t).Separate conflict := by
  have hdiscard : (s.discard t .closed).Separate conflict := h.discard
  exact hdiscard

end Separate

end Server

/-! ## The last transaction -/

section Latest

variable {W β : Type} (f : List W → Option β)

/-- What the last transaction tells of those that tell something. -/
def latest (log : List (List W)) : Option β := log.reverse.findSome? f

variable {f} {log log' : List (List W)}

@[simp] theorem latest_nil : latest f [] = none := rfl

theorem latest_concat (ws : List W) : latest f (log ++ [ws]) = (f ws).or (latest f log) := by
  unfold latest
  rw [List.reverse_append, List.reverse_singleton, List.singleton_append, List.findSome?_cons]
  cases f ws <;> rfl

/-- What has been told once, something is told of for ever. -/
theorem isSome_latest_of_prefix (h : log <+: log') (hlog : (latest f log).isSome = true) :
    (latest f log').isSome = true := by
  obtain ⟨rest, rfl⟩ := h
  unfold latest
  rw [List.reverse_append, List.findSome?_append]
  obtain ⟨b, hb⟩ := Option.isSome_iff_exists.mp hlog
  cases hrest : rest.reverse.findSome? f with
  | none => exact Option.isSome_iff_exists.mpr ⟨b, hb⟩
  | some b' => rfl

theorem exists_mem_of_latest {b : β} (h : latest f log = some b) : ∃ ws ∈ log, f ws = some b := by
  obtain ⟨ws, hws, hb⟩ := List.exists_of_findSome?_eq_some h
  exact ⟨ws, List.mem_reverse.mp hws, hb⟩

end Latest

end Transactions
