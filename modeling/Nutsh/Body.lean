/-
The fields of a form: read out of a document, written into a request body.

A field name is a path of keys, each with one index at most.  An update starts from what the fields
are on the document; the body of a request is built from what was entered, field after field.  The
JSON texts, and the spelling of a date, are those of libraries and are taken as parameters.

* `validFieldName`, `readAt`, `writeAt` — the grammar of the names, and a value at a name;
* `currentValues` — what the fields are on a document;
* `buildBody` — the body built from what was entered;
* `get?_currentValues` — the value of a field is that at its name.
-/
import Nutsh.Entity
import Nutsh.Lib.IndexMap

set_option relaxedAutoImplicit false
set_option autoImplicit false

namespace Nutsh

/-- What the libraries do: a JSON text parsed and printed, and a date in seconds spelled. -/
structure Codec where
  parse : String → Except String Json
  print : Json → String
  rfc3339 : ℕ → String

/-- The number a text of ASCII digits spells. -/
def natOf (cs : List Char) : Option ℕ :=
  if cs.isEmpty || !cs.all Char.isDigit then none
  else some (cs.foldl (fun n c => 10 * n + (c.toNat - 48)) 0)

/-- An unsigned number of 64 bits, a plus sign before it or not. -/
def parseU64 (s : String) : Option ℕ :=
  let digits := match s.toList with
    | '+' :: cs => cs
    | cs => cs
  (natOf digits).filter fun n => n < 2 ^ 64

/-- A signed number of 64 bits. -/
def parseI64 (s : String) : Option ℤ :=
  match s.toList with
  | '-' :: cs => ((natOf cs).filter fun n => n ≤ 2 ^ 63).map fun n => -(n : ℤ)
  | '+' :: cs => ((natOf cs).filter fun n => n < 2 ^ 63).map fun n => (n : ℤ)
  | cs => ((natOf cs).filter fun n => n < 2 ^ 63).map fun n => (n : ℤ)

/-! ### Names of fields -/

/-- One past the largest index a field name may address. -/
def maxFieldIndex : ℕ := 16

/-- Whether one segment of a name is a key with an index or none. -/
def validSegment (segment : String) : Bool :=
  let validKey (key : String) := key != "" && key.toList.all fun c => c.isAlphanum || c == '_'
  match Text.splitOnce "[" segment with
  | none => validKey segment
  | some (key, rest) =>
      match Text.stripSuffix "]" rest with
      | none => false
      | some digits =>
          validKey key && (parseU64 digits).any fun n => n < maxFieldIndex && digits == toString n

def validFieldName (name : String) : Bool :=
  name != "" && (Text.splitChar '.' name).all validSegment

/-- A segment as its key and its index. -/
def segmentOf (segment : String) : String × Option ℕ :=
  match Text.splitOnce "[" segment with
  | none => (segment, none)
  | some (key, rest) =>
      (key, parseU64 (String.ofList (rest.toList.reverse.dropWhile (· == ']')).reverse))

/-- The value one segment leads to. -/
def readSegment (v : Json) (segment : String) : Option Json := do
  let (key, index) := segmentOf segment
  let v ← (← v.asObject).lookup key
  match index with
  | none => some v
  | some n => (← v.asArray)[n]?

/-- The value at a name. -/
def readAt (document : Json) (name : String) : Option Json :=
  if validFieldName name then (Text.splitChar '.' name).foldlM readSegment document else none

/-- An array of at least `n + 1` items, its `n`-th written. -/
def setItem (items : List Json) (n : ℕ) (v : Json) : List Json :=
  (items ++ List.replicate (n + 1 - items.length) Json.null).set n v

/-- A value written at the segments of a name, below the segments already walked. -/
def writeSegments (name : String) (value : Json) :
    List String → List String → Json → Except String Json
  | _, [], current => .ok current
  | walked, segment :: rest, current =>
      let (key, index) := segmentOf segment
      match current.asObject with
      | none =>
          let walked := ".".intercalate walked
          .error s!"{name}: {walked} is not an object"
      | some members =>
          match index with
          | none =>
              if rest.isEmpty then .ok (.obj (IndexMap.put key value members))
              else do
                let child := (members.lookup key).getD (.obj [])
                let child ← writeSegments name value (walked ++ [segment]) rest child
                .ok (.obj (IndexMap.put key child members))
          | some n =>
              match ((members.lookup key).getD (.arr [])).asArray with
              | none => .error s!"{name}: {key} is not an array"
              | some items =>
                  if rest.isEmpty then
                    .ok (.obj (IndexMap.put key (.arr (setItem items n value)) members))
                  else do
                    let child := (items[n]?.filter fun v => v.asObject.isSome).getD (.obj [])
                    let child ← writeSegments name value (walked ++ [segment]) rest child
                    .ok (.obj (IndexMap.put key (.arr (setItem items n child)) members))

/-- The body with a value written at a name, objects and arrays made on the way. -/
def writeAt (body : Json) (name : String) (value : Json) : Except String Json :=
  if validFieldName name then writeSegments name value [] (Text.splitChar '.' name) body
  else .error s!"field name {repr name} is not a write path"

/-! ### What the fields are -/

/-- A value as the text its field is edited as; null is no value. -/
def asText (codec : Codec) : Json → Option String
  | .null => none
  | .str s => some s
  | v => some (codec.print v)

/-- The text of one field on a document. -/
def fieldText (codec : Codec) (document : Json) (name : String) : Option String :=
  (readAt document name).bind (asText codec)

/-- What the fields are on an entity, by name. -/
def currentValues (codec : Codec) (fields : List Field) (entity : Entity) :
    IndexMap String String :=
  IndexMap.ofList (fields.filterMap fun f =>
    (fieldText codec entity.raw f.name).map fun text => (f.name, text))

/-- What a list of named texts, each the one of its name, holds under a name. -/
theorem lookup_filterMap_names {names : List String} {text : String → Option String}
    (name : String) :
    (names.filterMap fun n => (text n).map fun t => (n, t)).lookup name =
      if name ∈ names then text name else none := by
  induction names with
  | nil => rfl
  | cons n names ih =>
      rw [List.filterMap_cons]
      by_cases hn : name = n
      · subst hn
        cases ht : text name with
        | none =>
            simp only [Option.map_none, ih, List.mem_cons, true_or, if_true, ht]
            exact ite_self none
        | some t => simp
      · cases ht : text n with
        | none => simp [ih, hn]
        | some t => simp [ih, hn, List.lookup_cons, beq_eq_false_iff_ne.2 hn]

/-- The value of a field of the form is the text at its name. -/
theorem get?_currentValues (codec : Codec) (fields : List Field) (entity : Entity)
    (name : String) :
    (currentValues codec fields entity).get? name =
      if name ∈ fields.map Field.name then fieldText codec entity.raw name else none := by
  have hmap : (fields.filterMap fun f =>
      (fieldText codec entity.raw f.name).map fun text => (f.name, text)).reverse =
      ((fields.map Field.name).reverse.filterMap fun n =>
        (fieldText codec entity.raw n).map fun t => (n, t)) := by
    rw [← List.map_reverse, List.filterMap_map, ← List.filterMap_reverse]
    rfl
  rw [currentValues, IndexMap.get?_ofList, hmap, lookup_filterMap_names]
  simp

/-! ### The body of a request -/

/-- What a field is called. -/
def labelOf (f : Field) : String := if f.label = "" then f.name else f.label

/-- `$ext_id` and `$now+<n>d` expanded; anything else starting with `$` is refused. -/
def expand (codec : Codec) (value : String) (entity : Entity) (now : ℕ) : Except String String :=
  if value.toList.head? ≠ some '$' then .ok value
  else if value = "$ext_id" then .ok entity.extId
  else
    let days := do
      let rest ← if "$now+".toList.isPrefixOf value.toList then
          some (String.ofList (value.toList.drop 5)) else none
      parseU64 (← Text.stripSuffix "d" rest)
    match days with
    | none => .error s!"unknown substitution {value}"
    | some days =>
        if days * 86400 < 2 ^ 64 ∧ now + days * 86400 < 2 ^ 63 then
          .ok (codec.rfc3339 (now + days * 86400))
        else .error s!"substitution {value} is out of range"

/-- Whether the path of a reference addresses the id inside it. -/
def isIdPath (name : String) : Bool :=
  let last := (Text.splitChar '.' name).getLast?
  last == some "extId" || last == some "uuid"

/-- The text of a field as the value its type writes. -/
def typed (codec : Codec) (f : Field) (raw : String) : Except String Json :=
  match f.ty with
  | .bool => .ok (.bool (raw == "true" || raw == "yes"))
  | .integer =>
      match parseI64 raw with
      | some n => .ok (.num (.int n))
      | none => .error s!"{labelOf f} must be a whole number"
  | .json _ =>
      match codec.parse raw with
      | .ok v => .ok v
      | .error e => .error s!"{labelOf f}: {e}"
  | .reference _ =>
      if isIdPath f.name then .ok (.str raw)
      else
        match codec.parse raw with
        | .ok (.obj members) => .ok (.obj members)
        | _ => .ok (.obj [("extId", .str raw)])
  | _ => .ok (.str raw)

/-- The text a field is sent as: what was entered, else its expanded value; none at all leaves the
field out. -/
def rawOf (codec : Codec) (entered : IndexMap String String) (entity : Entity) (now : ℕ)
    (f : Field) : Except String (Option String) :=
  match (entered.get? f.name).filter (· != "") with
  | some v => .ok (some v)
  | none =>
      match f.value with
      | some v => (expand codec v entity now).map some
      | none => if f.required then .error s!"{labelOf f} is required" else .ok none

/-- The fields, and what the form collected, as a request body. -/
def buildBody (codec : Codec) (fields : List Field) (entered : IndexMap String String)
    (entity : Entity) (now : ℕ) : Except String Json :=
  fields.foldlM (fun body f => do
    match ← rawOf codec entered entity now f with
    | none => .ok body
    | some raw => writeAt body f.name (← typed codec f raw)) (.obj [])

/-- Of the entity a body takes nothing but its id. -/
theorem buildBody_congr (codec : Codec) (fields : List Field) (entered : IndexMap String String)
    {e e' : Entity} (h : e.extId = e'.extId) (now : ℕ) :
    buildBody codec fields entered e now = buildBody codec fields entered e' now := by
  have hraw : rawOf codec entered e now = rawOf codec entered e' now := by
    funext f
    simp only [rawOf, expand, h]
  simp only [buildBody, hraw]

end Nutsh
