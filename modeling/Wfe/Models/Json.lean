import Mathlib.Algebra.Group.Nat.Defs
import Mathlib.Data.List.Basic

/-!
# JSON values

`serde_json::Value` as the engine uses it: workflow data, step configurations, outcome values
and event data are all JSON. Objects are `BTreeMap`s, kept here as association lists in key
order. Equality of values in the source is `PartialEq`, which differs from structural equality
only at the two floating zeros.

## Main definitions

* `Json`, `Number`: values and numbers
* `Object.get`, `Object.insert`, `Object.extend`: the operations of `serde_json::Map`
* `Json.same`: `PartialEq` of `serde_json::Value`
-/

namespace Wfe

/-- `serde_json::Number`: an unsigned or a negative integer, or a finite double, kept as its
IEEE 754 bit pattern. -/
inductive Number
  | posInt (n : UInt64)
  | negInt (n : Int64)
  | float (bits : UInt64)
deriving DecidableEq, Repr

/-- `serde_json::Value`. -/
inductive Json
  | null
  | bool (b : Bool)
  | number (n : Number)
  | string (s : String)
  | array (xs : List Json)
  | object (m : List (String × Json))
deriving Repr, Inhabited

/-- `serde_json::Map<String, Value>`, in key order. -/
abbrev Object := List (String × Json)

namespace Json

mutual

/-- Structural equality is decidable. -/
def decEq : (a b : Json) → Decidable (a = b)
  | null, null => isTrue rfl
  | bool a, bool b => decidable_of_iff (a = b) (by simp)
  | number a, number b => decidable_of_iff (a = b) (by simp)
  | string a, string b => decidable_of_iff (a = b) (by simp)
  | array xs, array ys =>
    match decEqList xs ys with
    | isTrue h => isTrue (congrArg array h)
    | isFalse h => isFalse fun e => h (array.inj e)
  | object m, object m' =>
    match decEqObject m m' with
    | isTrue h => isTrue (congrArg object h)
    | isFalse h => isFalse fun e => h (object.inj e)
  | null, bool _ | null, number _ | null, string _ | null, array _ | null, object _
  | bool _, null | bool _, number _ | bool _, string _ | bool _, array _ | bool _, object _
  | number _, null | number _, bool _ | number _, string _ | number _, array _
  | number _, object _ | string _, null | string _, bool _ | string _, number _
  | string _, array _ | string _, object _ | array _, null | array _, bool _
  | array _, number _ | array _, string _ | array _, object _ | object _, null
  | object _, bool _ | object _, number _ | object _, string _ | object _, array _ =>
    isFalse (by simp)

def decEqList : (xs ys : List Json) → Decidable (xs = ys)
  | [], [] => isTrue rfl
  | [], _ :: _ | _ :: _, [] => isFalse (by simp)
  | x :: xs, y :: ys =>
    match decEq x y, decEqList xs ys with
    | isTrue h, isTrue h' => isTrue (by rw [h, h'])
    | isFalse h, _ => isFalse fun e => h (List.cons.inj e).1
    | _, isFalse h => isFalse fun e => h (List.cons.inj e).2

def decEqObject : (m m' : List (String × Json)) → Decidable (m = m')
  | [], [] => isTrue rfl
  | [], _ :: _ | _ :: _, [] => isFalse (by simp)
  | (k, x) :: m, (k', y) :: m' =>
    match decidable_of_iff (k = k') Iff.rfl, decEq x y, decEqObject m m' with
    | isTrue h, isTrue h', isTrue h'' => isTrue (by rw [h, h', h''])
    | isFalse h, _, _ => isFalse fun e => h (Prod.mk.inj (List.cons.inj e).1).1
    | _, isFalse h, _ => isFalse fun e => h (Prod.mk.inj (List.cons.inj e).1).2
    | _, _, isFalse h => isFalse fun e => h (List.cons.inj e).2

end

instance : DecidableEq Json := decEq

end Json

/-! ## Objects -/

namespace Object

/-- `Map::get`. -/
def get (m : Object) (key : String) : Option Json :=
  (m.find? fun kv => kv.1 = key).map Prod.snd

/-- `Map::insert`: replaces the value of a present key, else inserts in key order. -/
def insert (key : String) (value : Json) : Object → Object
  | [] => [(key, value)]
  | (k, v) :: m =>
    if key = k then (key, value) :: m
    else if key < k then (key, value) :: (k, v) :: m
    else (k, v) :: insert key value m

/-- `Map::extend`: inserts the entries of `m'` one after another. -/
def extend (m m' : Object) : Object :=
  m'.foldl (fun acc kv => acc.insert kv.1 kv.2) m

theorem get_cons (key k : String) (v : Json) (m : Object) :
    Object.get ((k, v) :: m) key = if k = key then some v else m.get key := by
  by_cases h : k = key <;> simp [Object.get, h]

theorem get_insert (m : Object) (k : String) (v : Json) (key : String) :
    (m.insert k v).get key = if k = key then some v else m.get key := by
  induction m with
  | nil => exact get_cons key k v []
  | cons kv m ih =>
    obtain ⟨k', v'⟩ := kv
    rw [Object.insert]
    by_cases heq : k = k'
    · rw [if_pos heq, get_cons, get_cons, heq]
      split_ifs <;> rfl
    · rw [if_neg heq]
      by_cases hlt : k < k'
      · rw [if_pos hlt, get_cons]
      · rw [if_neg hlt, get_cons, get_cons, ih]
        split_ifs with hkey hkey' <;> first | rfl | exact absurd (hkey'.trans hkey.symm) heq

end Object

namespace Json

/-- `Value::as_object`. -/
def asObject : Json → Option Object
  | object m => some m
  | _ => none

/-- `Value::as_bool`. -/
def asBool : Json → Option Bool
  | bool b => some b
  | _ => none

/-- `Value::as_array`. -/
def asArray : Json → Option (List Json)
  | array xs => some xs
  | _ => none

/-- `Value::as_str`. -/
def asStr : Json → Option String
  | string s => some s
  | _ => none

/-- `Value::as_u64`. -/
def asU64 : Json → Option Nat
  | number (.posInt n) => some n.toNat
  | _ => none

/-- `Value::get` with a string index. -/
def get (v : Json) (key : String) : Option Json := v.asObject.bind (·.get key)

def isNull : Json → Bool
  | null => true
  | _ => false

/-- `Value::as_f64`. -/
def asF64 : Json → Option Float
  | number (.posInt n) => some n.toFloat
  | number (.negInt n) => some n.toFloat
  | number (.float bits) => some (Float.ofBits bits)
  | _ => none

mutual

/-- `PartialEq` of `serde_json::Value`: floats are compared as doubles, so the two zeros are
the same. -/
def same : Json → Json → Bool
  | null, null => true
  | bool a, bool b => a == b
  | number (.float a), number (.float b) => a == b || (a <<< 1 == 0 && b <<< 1 == 0)
  | number a, number b => a = b
  | string a, string b => a = b
  | array xs, array ys => sameList xs ys
  | object m, object m' => sameObject m m'
  | _, _ => false

def sameList : List Json → List Json → Bool
  | [], [] => true
  | x :: xs, y :: ys => same x y && sameList xs ys
  | _, _ => false

def sameObject : List (String × Json) → List (String × Json) → Bool
  | [], [] => true
  | (k, x) :: m, (k', y) :: m' => k = k' && same x y && sameObject m m'
  | _, _ => false

end

end Json

end Wfe
