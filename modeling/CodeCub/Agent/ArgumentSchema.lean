import CodeCub.Agent.Parser

/-!
# The arguments of a tool against its declaration

A tool declares its arguments in one of two ways: as texts such as `int=20`, or as a JSON
schema under `parameters`, of which `validate_json_tool_arguments` of `codecub/tools.py`
checks a part.
-/

namespace CodeCub
namespace Agent

open Python

abbrev JsonFields := List (Text × Json)

/-- What a schema needs of the interpreter: `==`, `str` and whether a number is not zero. -/
structure Interpreter where
  eq : Json → Json → Bool
  str : Json → Text
  nonzero : String → Bool

inductive RaisedError where
  | valueError
  | typeError
  deriving DecidableEq, Repr

/-- The declarations of a tool; `schema` has the texts of the declared types. -/
structure ToolSpec where
  schema : List (Text × Text) := []
  parameters : Option Json := none

namespace Json

/-- An integer literal has neither a fraction nor an exponent. -/
def isInt : Json → Bool
  | .number text => text.toList.all fun c => c.isDigit || c == '-'
  | _ => false

def isNumber : Json → Bool
  | .number _ => true
  | _ => false

def isStr : Json → Bool
  | .str _ => true
  | _ => false

def isBool : Json → Bool
  | .bool _ => true
  | _ => false

def isNull : Json → Bool
  | .null => true
  | _ => false

end Json

/-! ## Declared texts -/

/-- The type of a declaration, and every value fails another one. -/
def flatTypeOk (typeName : Text) (value : Json) : Bool :=
  if typeName = "str".toList then value.isStr
  else if typeName = "int".toList then value.isInt
  else if typeName = "float".toList then value.isNumber
  else if typeName = "bool".toList then value.isBool
  else false

/-- Every argument is declared and of its type. -/
def flatOk (schema : List (Text × Text)) (args : JsonFields) : Bool :=
  args.all fun arg =>
    match schema.lookup arg.1 with
    | none => false
    | some declared => flatTypeOk (declared.takeWhile (· ≠ '=')) arg.2

/-! ## JSON schemas -/

/-- A type that the subset does not know accepts every value. -/
def schemaTypeOk (typeName : Option Json) (value : Json) : Bool :=
  match typeName with
  | some (.str name) =>
      if name = "string".toList then value.isStr
      else if name = "integer".toList then value.isInt
      else if name = "number".toList then value.isNumber
      else if name = "boolean".toList then value.isBool
      else if name = "null".toList then value.isNull
      else true
  | _ => true

def hasType (schema : JsonFields) (name : String) : Bool :=
  match schema.lookup "type".toList with
  | some (.str declared) => declared = name.toList
  | _ => false

/-- What is left to be checked of a value. -/
inductive Parts where
  | none
  | fields (properties : JsonFields)
  | items (schema : Json)

namespace Interpreter

variable (py : Interpreter)

def truthy : Json → Bool
  | .null => false
  | .bool value => value
  | .number text => py.nonzero text
  | .str value => value ≠ []
  | .arr items => !items.isEmpty
  | .obj fields => !fields.isEmpty

/-- `value in container`. -/
def isIn (value container : Json) : Except RaisedError Bool :=
  match container, value with
  | .arr items, value => .ok (items.any (py.eq value))
  | .str text, .str part => .ok (find part text).isSome
  | .obj fields, .str key => .ok (fields.lookup key).isSome
  | .obj _, .arr _ => .error .typeError
  | .obj _, .obj _ => .error .typeError
  | .obj _, _ => .ok false
  | _, _ => .error .typeError

/-- `[str(name) for name in value or ()]`. -/
def requiredNames (value : Option Json) : Except RaisedError (List Text) :=
  match value with
  | none => .ok []
  | some value =>
      if py.truthy value then
        match value with
        | .arr items => .ok (items.map py.str)
        | .str text => .ok (text.map fun c => [c])
        | .obj fields => .ok (fields.map Prod.fst)
        | _ => .error .typeError
      else .ok []

def properties (value : Option Json) : Except RaisedError JsonFields :=
  match value with
  | none => .ok []
  | some value =>
      if py.truthy value then
        match value with
        | .obj fields => .ok fields
        | _ => .error .valueError
      else .ok []

/-- `_validate_json_value` but for the parts of the value. -/
def checkHead (schema value : Json) : Except RaisedError Parts :=
  match schema with
  | .obj schema => do
      if let some allowed := schema.lookup "enum".toList then
        unless ← py.isIn value allowed do throw .valueError
      if hasType schema "object" then
        match value with
        | .obj fields => do
            let properties ← py.properties (schema.lookup "properties".toList)
            let required ← py.requiredNames (schema.lookup "required".toList)
            unless required.all (fun name => (fields.lookup name).isSome) do throw .valueError
            match schema.lookup "additionalProperties".toList with
            | some (.bool false) =>
                unless fields.all (fun field => (properties.lookup field.1).isSome) do
                  throw .valueError
            | _ => pure ()
            return .fields properties
        | _ => throw .valueError
      else if hasType schema "array" then
        match value with
        | .arr _ =>
            match schema.lookup "items".toList with
            | some (.obj item) => return .items (.obj item)
            | _ => return .none
        | _ => throw .valueError
      else if schemaTypeOk (schema.lookup "type".toList) value then return .none
      else throw .valueError
  | _ => return .none

mutual

/-- `_validate_json_value`. -/
def validateJsonValue (schema : Json) (value : Json) : Except RaisedError Unit := do
  match ← py.checkHead schema value with
  | .none => pure ()
  | .fields properties =>
      match value with
      | .obj fields => validateFields properties fields
      | _ => pure ()
  | .items item =>
      match value with
      | .arr items => validateItems item items
      | _ => pure ()

def validateItems (schema : Json) (items : List Json) : Except RaisedError Unit := do
  match items with
  | [] => pure ()
  | item :: rest =>
      validateJsonValue schema item
      validateItems schema rest

def validateFields (properties : JsonFields) (fields : JsonFields) : Except RaisedError Unit := do
  match fields with
  | [] => pure ()
  | (name, item) :: rest =>
      match properties.lookup name with
      | some schema => validateJsonValue schema item
      | none => pure ()
      validateFields properties rest

end

/-- `validate_json_tool_arguments`. -/
def validateJsonToolArguments (tool : ToolSpec) (args : JsonFields) : Except RaisedError Unit :=
  match tool.parameters with
  | some (.obj schema) => py.validateJsonValue (.obj schema) (.obj args)
  | _ => pure ()

/-- The schema is there and accepts the arguments, or there is none. -/
def schemaOk (tool : ToolSpec) (args : JsonFields) : Bool :=
  (py.validateJsonToolArguments tool args).isOk

end Interpreter

end Agent
end CodeCub
