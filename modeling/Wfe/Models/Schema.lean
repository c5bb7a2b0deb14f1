import Wfe.Models.Json
import Wfe.Models.Text

/-!
# Workflow schemas

The types a workflow may declare for its inputs and outputs, and the check of JSON data against
them. The fields of a schema are a hash map, kept here as an association list in the order the
map is iterated.

## Main definitions

* `SchemaType`, `WorkflowSchema`: types and schemas
* `validateValue`, `WorkflowSchema.validateFields`: the checks
-/

namespace Wfe

inductive SchemaType
  | string
  | number
  | integer
  | bool
  | optional (inner : SchemaType)
  | list (inner : SchemaType)
  | map (inner : SchemaType)
  | any
deriving DecidableEq, Repr

structure WorkflowSchema where
  inputs : List (String × SchemaType)
  outputs : List (String × SchemaType)
deriving DecidableEq, Repr

/-- `value_type_name`. -/
def Json.typeName : Json → String
  | null => "null"
  | bool _ => "bool"
  | number _ => "number"
  | string _ => "string"
  | array _ => "array"
  | object _ => "object"

/-- `Err(format!("expected {}, got {}", ..))`. -/
def expectedType (expected : String) (value : Json) : Except String Unit :=
  .error s!"expected {expected}, got {value.typeName}"

/-- `validate_value`: the value has the expected type. -/
def validateValue (value : Json) : SchemaType → Except String Unit
  | .string =>
    match value with
    | .string _ => .ok ()
    | _ => expectedType "string" value
  | .number =>
    match value with
    | .number _ => .ok ()
    | _ => expectedType "number" value
  | .integer =>
    match value with
    | .number (.posInt _) | .number (.negInt _) => .ok ()
    | _ => expectedType "integer" value
  | .bool =>
    match value with
    | .bool _ => .ok ()
    | _ => expectedType "bool" value
  | .optional inner => if value.isNull then .ok () else validateValue value inner
  | .list inner =>
    match value with
    | .array xs =>
      (xs.zipIdx).forM fun (item, i) =>
        (validateValue item inner).mapError fun e => s!"list element [{i}]: {e}"
    | _ => expectedType "list" value
  | .map inner =>
    match value with
    | .object m =>
      m.forM fun (key, val) =>
        (validateValue val inner).mapError fun e => s!"map key \"{key}\": {e}"
    | _ => expectedType "map" value
  | .any => .ok ()

namespace WorkflowSchema

/-- The error of one field, if any; a missing field is accepted where the type is optional. -/
def fieldError (obj : Object) (name : String) (schemaType : SchemaType) : Option String :=
  match obj.get name with
  | some value =>
    match validateValue value schemaType with
    | .ok _ => none
    | .error e => some s!"field \"{name}\": {e}"
  | none =>
    match schemaType with
    | .optional _ => none
    | _ => some s!"missing required field: \"{name}\""

/-- `validate_fields`: all errors of the fields, in order. -/
def validateFields (fields : List (String × SchemaType)) (data : Json) :
    Except (List String) Unit :=
  match data.asObject with
  | none => .error ["expected an object"]
  | some obj =>
    match fields.filterMap fun (name, schemaType) => fieldError obj name schemaType with
    | [] => .ok ()
    | errors => .error errors

def validateInputs (schema : WorkflowSchema) (data : Json) : Except (List String) Unit :=
  validateFields schema.inputs data

def validateOutputs (schema : WorkflowSchema) (data : Json) : Except (List String) Unit :=
  validateFields schema.outputs data

end WorkflowSchema

end Wfe
