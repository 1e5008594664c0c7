/-
The forms of the generated actions.

An action asks for the properties of its request body that the server does not fill in itself.  A nested object
or array is one field that takes JSON, unless the object is a reference to an entity, which is picked.

* `FieldModel` — a field of a form;
* `fieldKind`, `formFor` — the form of an operation.
-/
import Nutsh.Generator.Schema
import Nutsh.Lib.JsonText

set_option relaxedAutoImplicit false
set_option autoImplicit false

namespace Nutsh.Generator

inductive FieldKind where
  | text
  | bool
  | integer
  | enum (values : List String)
  /-- The kind an entity is picked from, and while a document is read the name of its schema. -/
  | reference (kind : Option String)
  | json (text : String)
  deriving DecidableEq

structure FieldModel where
  name : String
  label : String
  ty : FieldKind
  required : Bool
  value : Option String := none
  hidden : Bool := false
  deriving DecidableEq

/-- The names a resolved schema requires. -/
def requiredOf (resolved : Json) : List String :=
  (((resolved.get "required").bind Json.asArray).getD []).filterMap Json.asStr

/-- What an object is begun with: the properties it requires, each null. -/
def seed (schemas schema : Json) : String :=
  let required := requiredOf (resolve schemas schema)
  if required.isEmpty then "\x7b\x7d"
  else "\x7b" ++ ", ".intercalate (required.map fun k => String.ofList (Json.quoted k) ++ ": null") ++ "\x7d"

/-- A property the server fills in, by its own flag or by that of what it refers to. -/
def isReadOnly (schemas prop : Json) : Bool :=
  let flag := fun v : Json => (v.get "readOnly").bind Json.asBool == some true
  flag prop || flag (resolve schemas prop)

/-- The words of a property as a sentence. -/
def labelFor (prop : String) : String :=
  match (headerFor prop).toList with
  | [] => ""
  | first :: rest => String.ofList (first :: rest.map Char.toLower)

/-- What a field of a property takes. -/
def fieldKind (schemas prop : Json) : FieldKind :=
  let short := ((prop.get "$ref").bind Json.asStr).map afterSlash
  let resolved := resolve schemas prop
  match schemaType resolved with
  | "boolean" => .bool
  | "integer" => .integer
  | "number" => .integer
  | "string" =>
      match (resolved.get "enum").bind Json.asArray with
      | some vs => .enum (vs.filterMap Json.asStr)
      | none => .text
  | "array" =>
      let items := (resolved.get "items").getD .null
      if schemaType (resolve schemas items) = "object" then .json ("[" ++ seed schemas items ++ "]")
      else .json "[]"
  | "object" =>
      if (propertiesOf schemas resolved).any fun p => p.1 == "extId" || p.1 == "uuid" then .reference short
      else .json (seed schemas prop)
  | _ => .text

/-- The form of an operation, by the schema of its request body. -/
def formFor (schemas op : Json) : List FieldModel :=
  match ["requestBody", "content", "application/json", "schema"].foldlM Json.get op with
  | none => []
  | some schema =>
      let required := requiredOf (resolve schemas schema)
      ((propertiesOf schemas schema).filter fun p =>
        !Text.startsWith "$" p.1 && !isReadOnly schemas p.2).map fun (name, prop) =>
          { name, label := labelFor name, ty := fieldKind schemas prop, required := required.contains name }

end Nutsh.Generator
