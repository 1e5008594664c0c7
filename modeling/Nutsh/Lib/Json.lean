/-
JSON values.

A value is a tree of objects, arrays and scalars.  An object is the list of its members in the order
they were written; a number is an integer or the bits of a double, which nothing here looks into.

Main definitions:

* `Json` — a value;
* `Json.get`, `Json.asStr`, `Json.asBool`, `Json.asArray`, `Json.asObject` — the readers.
-/
import Mathlib.Data.Int.Notation
import Mathlib.Data.List.Basic

set_option relaxedAutoImplicit false
set_option autoImplicit false

/-- A number of a JSON document: an integer, or the bits of a double. -/
inductive JsonNumber where
  | int (value : ℤ)
  | float (bits : UInt64)
  deriving DecidableEq

/-- A JSON value. -/
inductive Json where
  | null
  | bool (value : Bool)
  | num (value : JsonNumber)
  | str (value : String)
  | arr (items : List Json)
  | obj (members : List (String × Json))

namespace Json

instance : Inhabited Json := ⟨null⟩

/-- The member of an object under a key, `none` on anything that is not an object. -/
def get (v : Json) (key : String) : Option Json :=
  match v with
  | obj members => members.lookup key
  | _ => none

/-- The text of a string. -/
def asStr : Json → Option String
  | str s => some s
  | _ => none

/-- The truth value of a boolean. -/
def asBool : Json → Option Bool
  | bool b => some b
  | _ => none

/-- The items of an array. -/
def asArray : Json → Option (List Json)
  | arr items => some items
  | _ => none

/-- The members of an object. -/
def asObject : Json → Option (List (String × Json))
  | obj members => some members
  | _ => none

@[simp] theorem get_obj (members : List (String × Json)) (key : String) :
    (obj members).get key = members.lookup key := rfl

@[simp] theorem asStr_str (s : String) : (str s).asStr = some s := rfl

@[simp] theorem asBool_bool (b : Bool) : (bool b).asBool = some b := rfl

end Json
