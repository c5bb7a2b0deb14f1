import Wfe.Executor.Condition
import Wfe.Models.OutputLines
import Wfe.Models.Schema

/-!
# Data over gRPC

Workflow data travel as a protobuf `Struct`, whose only numbers are doubles. What comes back of JSON
data is the same up to the representation of its numbers: each is floating, of the same value.

## Main definitions

* `ProstValue`: `prost_types::Value`
* `jsonToStruct`, `structToJson`: the conversions
* `Json.mapNumbers`, `Json.numbers`: the numbers of a value
* `SchemaType.NoInteger`: a type that does not ask for integers

## Main results

* `struct_round_trip`: data over gRPC come back with floating numbers of the same values
* `Json.same_mapNumbers_iff`: when these are the same data
* `validateValue_mapNumbers`: which checks do not see the change
-/

namespace Wfe

/-! ## Protobuf values -/

/-- `prost_types::Value`. The fields of a struct are a `BTreeMap`, in key order. -/
inductive ProstValue
  | unset
  | nullValue (n : Int32)
  | numberValue (bits : UInt64)
  | stringValue (s : String)
  | boolValue (b : Bool)
  | structValue (fields : List (String × ProstValue))
  | listValue (values : List ProstValue)
deriving Repr

/-- `prost_types::Struct`, in key order. -/
abbrev ProstStruct := List (String × ProstValue)

/-- `Number::as_f64`. -/
def Number.toF64 : Number → UInt64
  | posInt n => Binary64.ofInt n.toNat
  | negInt n => Binary64.ofInt n.toInt
  | float bits => bits

mutual

def jsonToProstValue : Json → ProstValue
  | .null => .nullValue 0
  | .bool b => .boolValue b
  | .number n => .numberValue n.toF64
  | .string s => .stringValue s
  | .array xs => .listValue (arrayToProstValues xs)
  | .object m => .structValue (objectToFields m)

/-- `.map(json_to_prost_value)` over an array. -/
def arrayToProstValues : List Json → List ProstValue
  | [] => []
  | x :: xs => jsonToProstValue x :: arrayToProstValues xs

/-- `.map(|(k, v)| (k.clone(), json_to_prost_value(v)))` over an object. -/
def objectToFields : List (String × Json) → ProstStruct
  | [] => []
  | (k, v) :: m => (k, jsonToProstValue v) :: objectToFields m

end

/-- What is not an object is an empty struct. -/
def jsonToStruct (v : Json) : ProstStruct :=
  match v.asObject with
  | some obj => objectToFields obj
  | none => []

mutual

def prostValueToJson : ProstValue → Json
  | .nullValue _ => .null
  | .numberValue bits => jsonOfF64 bits
  | .stringValue s => .string s
  | .boolValue b => .bool b
  | .structValue fields => .object (fieldsToObject fields)
  | .listValue values => .array (prostValuesToArray values)
  | .unset => .null

/-- `.map(prost_value_to_json)` over a list. -/
def prostValuesToArray : List ProstValue → List Json
  | [] => []
  | v :: vs => prostValueToJson v :: prostValuesToArray vs

/-- `.map(|(k, v)| (k, prost_value_to_json(v)))` over the fields of a struct. -/
def fieldsToObject : ProstStruct → Object
  | [] => []
  | (k, v) :: fields => (k, prostValueToJson v) :: fieldsToObject fields

end

def structToJson (s : ProstStruct) : Json := .object (fieldsToObject s)

/-! ## The numbers of a value -/

namespace Json

mutual

/-- The numbers in a value, at any depth. -/
def numbers : Json → List Number
  | number n => [n]
  | array xs => numbersOfArray xs
  | object m => numbersOfObject m
  | null | bool _ | string _ => []

def numbersOfArray : List Json → List Number
  | [] => []
  | x :: xs => numbers x ++ numbersOfArray xs

def numbersOfObject : List (String × Json) → List Number
  | [] => []
  | (_, v) :: m => numbers v ++ numbersOfObject m

end

mutual

/-- A value with its numbers changed, and nothing else. -/
def mapNumbers (f : Number → Number) : Json → Json
  | number n => number (f n)
  | array xs => array (mapNumbersOfArray f xs)
  | object m => object (mapNumbersOfObject f m)
  | null => null
  | bool b => bool b
  | string s => string s

def mapNumbersOfArray (f : Number → Number) : List Json → List Json
  | [] => []
  | x :: xs => mapNumbers f x :: mapNumbersOfArray f xs

def mapNumbersOfObject (f : Number → Number) : List (String × Json) → List (String × Json)
  | [] => []
  | (k, v) :: m => (k, mapNumbers f v) :: mapNumbersOfObject f m

end

end Json

namespace Number

/-- The number is held as a double. -/
def isFloat : Number → Bool
  | float _ => true
  | posInt _ | negInt _ => false

/-- The number is not an infinity or a NaN, as serde_json has it of every number. -/
def isFinite : Number → Bool
  | float bits => Binary64.isFinite bits
  | posInt _ | negInt _ => true

/-- The integer that the number is, if it is one. -/
def integer : Number → Option Int
  | posInt n => some n.toNat
  | negInt n => some n.toInt
  | float bits =>
    if Binary64.isFinite bits ∧ Binary64.scaled bits % 2 ^ 1074 = 0 then
      some (Binary64.scaled bits / 2 ^ 1074)
    else none

/-- An integer of absolute value at most `2 ^ 53`. -/
def Small (n : Number) : Prop := ∃ k : Int, n.integer = some k ∧ k.natAbs ≤ 2 ^ 53

/-- The number as gRPC carries it. -/
def asFloat (n : Number) : Number := .float n.toF64

theorem Small.isFinite {n : Number} (h : n.Small) : n.asFloat.isFinite := by
  obtain ⟨k, hk, hle⟩ := h
  cases n with
  | posInt n =>
    obtain rfl : (n.toNat : Int) = k := Option.some.inj hk
    exact (Binary64.scaled_ofInt hle).1
  | negInt n =>
    obtain rfl : n.toInt = k := Option.some.inj hk
    exact (Binary64.scaled_ofInt hle).1
  | float bits =>
    simp only [integer] at hk
    exact (Option.ite_none_right_eq_some.1 hk).1.1

theorem integer_asFloat_ofInt {k : Int} (hle : k.natAbs ≤ 2 ^ 53) :
    (float (Binary64.ofInt k)).integer = some k := by
  obtain ⟨hfin, hval⟩ := Binary64.scaled_ofInt hle
  have hpos : (2 : Int) ^ 1074 ≠ 0 := pow_ne_zero _ two_ne_zero
  rw [integer, if_pos ⟨hfin, by rw [hval, Int.mul_emod_left]⟩, hval, Int.mul_ediv_cancel _ hpos]

/-- Small integers have the same value as doubles. -/
theorem Small.integer_asFloat {n : Number} (h : n.Small) : n.asFloat.integer = n.integer := by
  obtain ⟨k, hk, hle⟩ := h
  cases n with
  | posInt n =>
    obtain rfl : (n.toNat : Int) = k := Option.some.inj hk
    exact integer_asFloat_ofInt hle
  | negInt n =>
    obtain rfl : n.toInt = k := Option.some.inj hk
    exact integer_asFloat_ofInt hle
  | float bits => rfl

end Number

/-! ## The round trip -/

mutual

theorem prostValueToJson_jsonToProstValue : ∀ v : Json, (∀ n ∈ v.numbers, n.asFloat.isFinite) →
    prostValueToJson (jsonToProstValue v) = v.mapNumbers Number.asFloat
  | .null, _ | .bool _, _ | .string _, _ => rfl
  | .number n, h => if_pos (h n (List.mem_singleton.2 rfl))
  | .array xs, h => congrArg Json.array (prostValuesToArray_arrayToProstValues xs h)
  | .object m, h => congrArg Json.object (fieldsToObject_objectToFields m h)

theorem prostValuesToArray_arrayToProstValues : ∀ xs : List Json,
    (∀ n ∈ Json.numbersOfArray xs, n.asFloat.isFinite) →
    prostValuesToArray (arrayToProstValues xs) = Json.mapNumbersOfArray Number.asFloat xs
  | [], _ => rfl
  | x :: xs, h => congrArg₂ List.cons
      (prostValueToJson_jsonToProstValue x fun n hn => h n (List.mem_append_left _ hn))
      (prostValuesToArray_arrayToProstValues xs fun n hn => h n (List.mem_append_right _ hn))

theorem fieldsToObject_objectToFields : ∀ m : Object,
    (∀ n ∈ Json.numbersOfObject m, n.asFloat.isFinite) →
    fieldsToObject (objectToFields m) = Json.mapNumbersOfObject Number.asFloat m
  | [], _ => rfl
  | (k, v) :: m, h => congrArg₂ List.cons
      (congrArg (k, ·)
        (prostValueToJson_jsonToProstValue v fun n hn => h n (List.mem_append_left _ hn)))
      (fieldsToObject_objectToFields m fun n hn => h n (List.mem_append_right _ hn))

end

theorem structToJson_jsonToStruct_object {m : Object}
    (h : ∀ n ∈ (Json.object m).numbers, n.asFloat.isFinite) :
    structToJson (jsonToStruct (.object m)) = (Json.object m).mapNumbers Number.asFloat :=
  congrArg Json.object (fieldsToObject_objectToFields m h)

/-! ## What the change of representation does -/

namespace Json

theorem same_number_asFloat (n : Number) :
    same (number n.asFloat) (number n) = true ↔ n.isFloat = true := by
  cases n <;> simp [same, Number.asFloat, Number.toF64, Number.isFloat]

mutual

/-- The change shows in the equality of values at every number that was held as an integer. -/
theorem same_mapNumbers_iff : ∀ v : Json,
    same (v.mapNumbers Number.asFloat) v = true ↔ ∀ n ∈ v.numbers, n.isFloat = true
  | .null | .bool _ | .string _ => by simp [mapNumbers, same, numbers]
  | .number n => by simp [mapNumbers, numbers, same_number_asFloat]
  | .array xs => by simpa only [mapNumbers, same, numbers] using sameList_mapNumbers_iff xs
  | .object m => by simpa only [mapNumbers, same, numbers] using sameObject_mapNumbers_iff m

theorem sameList_mapNumbers_iff : ∀ xs : List Json,
    sameList (mapNumbersOfArray Number.asFloat xs) xs = true ↔
      ∀ n ∈ numbersOfArray xs, n.isFloat = true
  | [] => by simp [mapNumbersOfArray, sameList, numbersOfArray]
  | x :: xs => by
    rw [mapNumbersOfArray, sameList, Bool.and_eq_true, same_mapNumbers_iff x,
      sameList_mapNumbers_iff xs, numbersOfArray, List.forall_mem_append]

theorem sameObject_mapNumbers_iff : ∀ m : Object,
    sameObject (mapNumbersOfObject Number.asFloat m) m = true ↔
      ∀ n ∈ numbersOfObject m, n.isFloat = true
  | [] => by simp [mapNumbersOfObject, sameObject, numbersOfObject]
  | (k, v) :: m => by
    rw [mapNumbersOfObject, sameObject, decide_eq_true rfl, Bool.true_and, Bool.and_eq_true,
      same_mapNumbers_iff v, sameObject_mapNumbers_iff m, numbersOfObject, List.forall_mem_append]

end

mutual

theorem mapNumbers_eq_self {f : Number → Number} : ∀ v : Json, (∀ n ∈ v.numbers, f n = n) →
    v.mapNumbers f = v
  | .null, _ | .bool _, _ | .string _, _ => rfl
  | .number n, h => congrArg number (h n (List.mem_singleton.2 rfl))
  | .array xs, h => congrArg array (mapNumbersOfArray_eq_self xs h)
  | .object m, h => congrArg object (mapNumbersOfObject_eq_self m h)

theorem mapNumbersOfArray_eq_self {f : Number → Number} : ∀ xs : List Json,
    (∀ n ∈ numbersOfArray xs, f n = n) → mapNumbersOfArray f xs = xs
  | [], _ => rfl
  | x :: xs, h => congrArg₂ List.cons
      (mapNumbers_eq_self x fun n hn => h n (List.mem_append_left _ hn))
      (mapNumbersOfArray_eq_self xs fun n hn => h n (List.mem_append_right _ hn))

theorem mapNumbersOfObject_eq_self {f : Number → Number} : ∀ m : Object,
    (∀ n ∈ numbersOfObject m, f n = n) → mapNumbersOfObject f m = m
  | [], _ => rfl
  | (k, v) :: m, h => congrArg₂ List.cons
      (congrArg (k, ·) (mapNumbers_eq_self v fun n hn => h n (List.mem_append_left _ hn)))
      (mapNumbersOfObject_eq_self m fun n hn => h n (List.mem_append_right _ hn))

end

theorem mapNumbersOfArray_eq_map (f : Number → Number) (xs : List Json) :
    mapNumbersOfArray f xs = xs.map (mapNumbers f) := by
  induction xs with
  | nil => rfl
  | cons x xs ih => rw [mapNumbersOfArray, ih, List.map_cons]

theorem mapNumbersOfObject_eq_map (f : Number → Number) (m : Object) :
    mapNumbersOfObject f m = m.map fun kv => (kv.1, mapNumbers f kv.2) := by
  induction m with
  | nil => rfl
  | cons kv m ih => rw [mapNumbersOfObject, ih, List.map_cons]

theorem isNull_mapNumbers (f : Number → Number) (v : Json) :
    (v.mapNumbers f).isNull = v.isNull := by
  cases v <;> rfl

end Json

/-- A type that asks for an integer nowhere. -/
def SchemaType.noInteger : SchemaType → Bool
  | .integer => false
  | .optional inner | .list inner | .map inner => inner.noInteger
  | .string | .number | .bool | .any => true

/-- The checks of the other types do not see how a number is held. -/
theorem validateValue_mapNumbers (f : Number → Number) {t : SchemaType} (ht : t.noInteger = true)
    (v : Json) : validateValue (v.mapNumbers f) t = validateValue v t := by
  induction t generalizing v with
  | string | number | bool | any => cases v <;> rfl
  | integer => cases ht
  | optional inner ih =>
    rw [validateValue, validateValue, Json.isNull_mapNumbers, ih ht]
  | list inner ih =>
    cases v with
    | array xs =>
      simp only [Json.mapNumbers, Json.mapNumbersOfArray_eq_map, validateValue, List.zipIdx_map,
        List.forM_eq_forM, List.forM_map, Prod.map, id, ih ht]
    | _ => rfl
  | map inner ih =>
    cases v with
    | object m =>
      simp only [Json.mapNumbers, Json.mapNumbersOfObject_eq_map, validateValue,
        List.forM_eq_forM, List.forM_map, ih ht]
    | _ => rfl

/-- **Data over gRPC are the same up to the representation of numbers.** An object whose numbers are
small integers comes back with each as a double of the same value. It is equal to what was sent
exactly if all its numbers were doubles, and passes the same checks of every type without
integers. -/
theorem struct_round_trip (m : Object) (h : ∀ n ∈ (Json.object m).numbers, n.Small) :
    structToJson (jsonToStruct (.object m)) = (Json.object m).mapNumbers Number.asFloat ∧
      (∀ n ∈ (Json.object m).numbers, n.asFloat.integer = n.integer) ∧
      ((structToJson (jsonToStruct (.object m))).same (.object m) = true ↔
        ∀ n ∈ (Json.object m).numbers, n.isFloat = true) ∧
      ((∀ n ∈ (Json.object m).numbers, n.isFloat = true) →
        structToJson (jsonToStruct (.object m)) = .object m) ∧
      ∀ t : SchemaType, t.noInteger = true →
        validateValue (structToJson (jsonToStruct (.object m))) t =
          validateValue (.object m) t := by
  rw [structToJson_jsonToStruct_object fun n hn => (h n hn).isFinite]
  refine ⟨rfl, fun n hn => (h n hn).integer_asFloat, Json.same_mapNumbers_iff _, ?_,
    fun t ht => validateValue_mapNumbers _ ht _⟩
  intro hfloat
  refine Json.mapNumbers_eq_self _ fun n hn => ?_
  cases n with
  | float bits => rfl
  | posInt n => cases hfloat _ hn
  | negInt n => cases hfloat _ hn

theorem struct_round_trip_nested :
    structToJson (jsonToStruct (.object [("a", .array [.number (.negInt (-3)), .null])])) =
      .object [("a", .array [.number (.float 0xC008000000000000), .null])] := by
  refine (struct_round_trip _ ?_).1.trans (by decide)
  rintro n hn
  obtain rfl : n = .negInt (-3) := by simpa [Json.numbers, Json.numbersOfObject,
    Json.numbersOfArray] using hn
  exact ⟨-3, by decide, by decide⟩

/-- A count of 42 comes back as 42.0: it is no integer to a schema, and not equal to 42. -/
theorem struct_round_trip_count :
    (∀ n ∈ (Json.object [("count", .number (.posInt 42))]).numbers, n.Small) ∧
      (structToJson (jsonToStruct (.object [("count", .number (.posInt 42))]))).same
        (.object [("count", .number (.posInt 42))]) = false ∧
      validateValue (.object [("count", .number (.posInt 42))]) (.map .integer) = .ok () ∧
      validateValue (structToJson (jsonToStruct (.object [("count", .number (.posInt 42))])))
        (.map .integer) = .error "map key \"count\": expected integer, got number" ∧
      Condition.evaluateInner
        (.comparison ⟨"count", .equals, some (.number (.posInt 42))⟩)
        (.object [("count", .number (.posInt 42))]) = .ok true ∧
      Condition.evaluateInner
        (.comparison ⟨"count", .equals, some (.number (.posInt 42))⟩)
        (structToJson (jsonToStruct (.object [("count", .number (.posInt 42))]))) = .ok false := by
  refine ⟨?_, by decide, rfl, ?_, ?_, ?_⟩
  · rintro n hn
    obtain rfl : n = .posInt 42 := by simpa [Json.numbers, Json.numbersOfObject] using hn
    exact ⟨42, by decide, by decide⟩
  all_goals decide

end Wfe
