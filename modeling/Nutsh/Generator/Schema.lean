/-
The schemas of a spec document.

A schema may be a reference to another of the document, and the properties it declares are those of its
`allOf` before its own.  A polymorphic schema has arms beside, which the walks of the generator try in turn.

* `resolve` — what a reference stands for;
* `properties` — the properties of a schema, the first declaration of a name kept;
* `arms` — a schema and the arms of its `oneOf` and its `anyOf`;
* `headerFor` — the words of a name.
-/
import Nutsh.Lib.Json
import Nutsh.Lib.Text

set_option relaxedAutoImplicit false
set_option autoImplicit false

namespace Nutsh.Generator

/-- What stands after the last slash. -/
def afterSlash (s : String) : String := ((Text.splitChar '/' s).getLast?).getD ""

/-- What stands after the last dot. -/
def afterDot (s : String) : String := ((Text.splitChar '.' s).getLast?).getD ""

/-- The schema a reference names, the schema itself when it is no reference or names nothing. -/
def resolve (schemas schema : Json) : Json :=
  match (schema.get "$ref").bind Json.asStr with
  | some r => (schemas.get (afterSlash r)).getD schema
  | none => schema

/-- The type of a resolved schema; one that declares properties is an object. -/
def schemaType (resolved : Json) : String :=
  ((resolved.get "type").bind Json.asStr).getD
    (if (resolved.get "properties").isSome || (resolved.get "allOf").isSome then "object" else "")

/-- The properties with one more, unless there is one of its name. -/
def declare (out : List (String × Json)) (property : String × Json) : List (String × Json) :=
  if out.any fun p => p.1 == property.1 then out else out ++ [property]

/-- The properties of a schema after those found before, down to so many levels of `allOf`. -/
def properties (schemas : Json) : (levels : ℕ) → Json → List (String × Json) → List (String × Json)
  | 0, _, out => out
  | levels + 1, schema, out =>
      let schema := resolve schemas schema
      let all := ((schema.get "allOf").bind Json.asArray).getD []
      let own := ((schema.get "properties").bind Json.asObject).getD []
      own.foldl declare (all.foldl (fun out s => properties schemas levels s out) out)

/-- The properties of a schema, five levels of `allOf` followed. -/
def propertiesOf (schemas schema : Json) : List (String × Json) := properties schemas 5 schema []

/-- Every property of the schema of a name. -/
def schemaProperties (schemas : Json) (name : String) : List (String × Json) :=
  match schemas.get name with
  | none => []
  | some schema => propertiesOf schemas schema

/-- The arms a schema has under a key, resolved. -/
def armsUnder (schemas : Json) (key : String) (resolved : Json) : List Json :=
  (((resolved.get key).bind Json.asArray).getD []).map (resolve schemas)

/-- A schema and, when it is polymorphic, every arm of it. -/
def arms (schemas schema : Json) : List Json :=
  let resolved := resolve schemas schema
  resolved :: (armsUnder schemas "oneOf" resolved ++ armsUnder schemas "anyOf" resolved)

/-! ### Words of a name -/

/-- The characters of a name in upper case, after the one before them, with a blank before each word: at an
upper-case letter behind a lower-case one or a digit, and at the last letter of an acronym, unless what follows
it is only the `s` of a plural. -/
def headerFrom : (prev : Option Char) → List Char → List Char
  | _, [] => []
  | prev, c :: cs =>
      let prevLower := prev.any fun p => p.isLower || p.isDigit
      let pluralS := cs.head? == some 's' && cs.tail.head?.all fun n => !n.isLower
      let acronymEnd := prev.any Char.isUpper && cs.head?.any Char.isLower && !pluralS
      (if c.isUpper && (prevLower || acronymEnd) then [' '] else []) ++ c.toUpper :: headerFrom (some c) cs

/-- The heading of a property: `powerState` is `POWER STATE`. -/
def headerFor (prop : String) : String := String.ofList (headerFrom none prop.toList)

/-- Acronyms and plurals are words, and a name in one word is one. -/
example : ["extId", "minimumAHVVersion", "numVMs", "ntpServers", "PowerState"].map headerFor =
    ["EXT ID", "MINIMUM AHV VERSION", "NUM VMS", "NTP SERVERS", "POWER STATE"] := by decide

end Nutsh.Generator
