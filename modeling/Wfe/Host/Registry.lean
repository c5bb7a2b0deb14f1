import Mathlib.Data.List.Induction
import Wfe.Library.Table
import Wfe.Models.Definition

/-!
# Registries

A host keeps the workflow definitions it knows by id and version, and the step factories it can
build bodies from by their type key. Registering under a key in use replaces what was there.

## Main definitions

* `WorkflowRegistry`: definitions by `(id, version)`
* `StepRegistry`: factories by step type
-/

namespace Wfe

/-- `InMemoryWorkflowRegistry`. -/
abbrev WorkflowRegistry := List WorkflowDefinition

namespace WorkflowRegistry

/-- The key of a definition. -/
def key (d : WorkflowDefinition) : String × Nat := (d.id, d.version)

def register (reg : WorkflowRegistry) (d : WorkflowDefinition) : WorkflowRegistry :=
  Table.put key d reg

/-- `get_definition` of a given version. -/
def getDefinition (reg : WorkflowRegistry) (id : String) (version : Nat) :
    Option WorkflowDefinition :=
  Table.get key reg (id, version)

end WorkflowRegistry

/-- `StepRegistry`, for factories of type `F`. -/
abbrev StepRegistry (F : Type) := List (String × F)

namespace StepRegistry

variable {F : Type}

def registerFactory (reg : StepRegistry F) (key : String) (factory : F) : StepRegistry F :=
  Table.put Prod.fst (key, factory) reg

def resolve (reg : StepRegistry F) (stepType : String) : Option F :=
  (Table.get Prod.fst reg stepType).map Prod.snd

/-- The factory registered last under a key is the one found there. -/
theorem resolve_registerFactory (reg : StepRegistry F) (key : String) (factory : F)
    (stepType : String) :
    (reg.registerFactory key factory).resolve stepType =
      if key = stepType then some factory else reg.resolve stepType := by
  simp only [resolve, registerFactory, Table.get_put]
  split <;> rfl

/-- Of several factories registered one after another under a key, the last one is found. -/
theorem resolve_foldl (fs : List (String × F)) (reg : StepRegistry F) (stepType : String) :
    (fs.foldl (fun reg kf => reg.registerFactory kf.1 kf.2) reg).resolve stepType =
      (resolve fs.reverse stepType).or (reg.resolve stepType) := by
  induction fs using List.reverseRecOn with
  | nil => rfl
  | append_singleton fs kf ih =>
    rw [List.foldl_append, List.foldl_cons, List.foldl_nil, resolve_registerFactory, ih,
      List.reverse_append]
    by_cases h : kf.1 = stepType
    · simp [resolve, Table.get, h]
    · simp [resolve, Table.get, h]

end StepRegistry

end Wfe
