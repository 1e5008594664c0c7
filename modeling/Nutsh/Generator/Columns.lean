/-
The columns of a kind nobody curated.

The properties of its schema are columns in groups: names, enumerations, times, references, scalars and the lengths
of arrays.  Of the properties that refer to one entity one is kept.  A heading is the words of the name, shortened
where the cell says the rest, unless the shorter one is taken.

* `columnFor` — the column of a property, and its group;
* `derivedColumns` — the columns of a schema, with the words of their names;
* `shortenHeaders` — the headings that are shortened;
* `fallbackColumns` — what is drawn when no column is curated.
-/
import Nutsh.Cache.Scrub
import Nutsh.Entity
import Nutsh.Generator.Schema
import Nutsh.Lib.Passes

set_option relaxedAutoImplicit false
set_option autoImplicit false

namespace Nutsh.Generator

open Passes (modifyFirst)

structure ColumnModel where
  header : String
  path : String
  kind : ColumnKind
  deriving DecidableEq

/-- The column as the catalog has it. -/
def ColumnModel.column (c : ColumnModel) : Column := { header := c.header, path := c.path, kind := c.kind }

/-- Properties that are no columns. -/
def SKIP_PROPS : List String := ["extId", "links", "tenantId", "description", "projectExtId"]

def MAX_FALLBACK_COLUMNS : ℕ := 20

/-! ### What a property is -/

/-- A property that identifies an entity has one pattern in every document. -/
def isUuidPattern (prop : Json) : Bool :=
  ((prop.get "pattern").bind Json.asStr).any fun p =>
    Text.contains "[a-fA-F0-9]\x7b8\x7d-" p && Text.contains "[a-fA-F0-9]\x7b12\x7d" p

/-- Whether a property is never shown: it is only written, or a text whose name is that of a credential. -/
def isSecretProperty (name : String) (prop : Json) (ty : String) : Bool :=
  (prop.get "writeOnly").bind Json.asBool == some true || (ty == "string" && Cache.isSecretName name)

def isTimeName (name : String) : Bool :=
  ["Time", "Timestamp", "Date"].any fun tail => Text.endsWith tail (afterDot name)

def isDurationName (name : String) : Bool := Text.endsWith "Seconds" name || Text.endsWith "Secs" name

/-- Whether the last word of a name is `IP`. -/
def isIpName (name : String) : Bool := (Text.splitChar ' ' (headerFor name)).getLast? == some "IP"

def isPercentName (name : String) : Bool := Text.contains "percent" (Text.lower (afterDot name))

/-- A name in microseconds that has a word for an instant and none for a length. -/
def isMicrosName (name : String) : Bool :=
  let last := Text.lower (afterDot name)
  Text.endsWith "usecs" last && (["time", "timestamp", "boot"].any fun w => Text.contains w last) &&
    !(["running", "elapsed", "total", "duration"].any fun w => Text.contains w last)

/-- Whether the last segment of a path ends in a word for a status. -/
def isStatusName (path : String) : Bool :=
  ["state", "status", "severity", "health"].any fun s => Text.endsWith s (Text.lower (afterDot path))

/-! ### Columns in groups -/

/-- The groups of the columns. -/
inductive ColumnGroup where
  | name
  | enum
  | time
  | reference
  | scalar
  | count
  deriving DecidableEq

/-- The column of a text. -/
def textColumn (header name : String) (prop : Json) : ColumnGroup × ColumnModel :=
  if nameKeys.contains name then (.name, { header, path := name, kind := .text })
  else if (prop.get "enum").isSome then (.enum, { header, path := name, kind := .enum })
  else if (prop.get "format").bind Json.asStr == some "date-time" then
    (.time, { header, path := name, kind := .timestamp })
  else if isUuidPattern prop then (.reference, { header, path := name, kind := .reference })
  else if isIpName name then (.scalar, { header, path := name, kind := .ip })
  -- a time the document forgot to mark
  else if isTimeName name then (.time, { header, path := name, kind := .timestamp })
  else (.scalar, { header, path := name, kind := .text })

/-- The kind of a number, by its name. -/
def numberKind (name : String) : ColumnKind :=
  if Text.endsWith "Bytes" name then .bytes
  else if isMicrosName name then .micros
  else if isPercentName name then .percent
  else if isDurationName name then .duration
  else .text

/-- The column of a property, and the group it is in. -/
def columnFor (schemas : Json) (name : String) (prop : Json) : Option (ColumnGroup × ColumnModel) :=
  if Text.startsWith "$" name || SKIP_PROPS.contains name then none
  else
    let prop := resolve schemas prop
    let ty := schemaType prop
    if isSecretProperty name prop ty then none
    else
      let header := headerFor name
      if ty = "string" then some (textColumn header name prop)
      else if ty = "integer" ∨ ty = "number" then
        some (.scalar, { header, path := name, kind := numberKind name })
      else if ty = "boolean" then some (.scalar, { header, path := name, kind := .bool })
      else if ty = "array" then some (.count, { header, path := name, kind := .count })
      else if ty = "object" then
        -- an object that refers to an entity has the id of it
        let sub := propertiesOf schemas prop
        (["extId", "uuid"].find? fun key => sub.any fun p => p.1 == key).map fun key =>
          (.reference, { header, path := name ++ "." ++ key, kind := .reference })
      else none

/-- What a path refers to: its name without the words for an id. -/
def referenceKey (path : String) : String :=
  let base := ((Text.stripSuffix ".extId" path).or (Text.stripSuffix ".uuid" path)).getD path
  let last := afterDot base
  Text.lower (((Text.stripSuffix "Reference" last).or
    ((Text.stripSuffix "ExtId" last).or (Text.stripSuffix "Uuid" last))).getD last)

/-- The references with one more, unless one to the same entity is among them; the id in an object comes before
the text beside it. -/
def keepReference (kept : List ColumnModel) (c : ColumnModel) : List ColumnModel :=
  let same := fun k : ColumnModel => referenceKey k.path == referenceKey c.path
  if kept.any same then
    modifyFirst same (fun k => if !Text.contains "." k.path && Text.contains "." c.path then c else k) kept
  else kept ++ [c]

def dedupReferences (refs : List ColumnModel) : List ColumnModel := refs.foldl keepReference []

/-- The columns of a schema, each with the words of its name for a heading. -/
def derivedColumns (schemas : Json) (schema : String) : List ColumnModel :=
  let found := (schemaProperties schemas schema).filterMap fun (name, prop) => columnFor schemas name prop
  let group := fun g => (found.filter fun c => c.1 == g).map Prod.snd
  group .name ++ group .enum ++ group .time ++ dedupReferences (group .reference) ++ group .scalar ++ group .count

/-! ### Headings -/

/-- A heading without what the cell does not need said: a reference shows a name, and a flag a mark. -/
def shortHeader (c : ColumnModel) : Option String :=
  match c.kind with
  | .reference => (Text.stripSuffix " EXT ID" c.header).or (Text.stripSuffix " UUID" c.header)
  | .bool =>
      let h := ((Text.stripPrefix "IS " c.header).or (Text.stripPrefix "SHOULD " c.header)).getD c.header
      let h := (Text.stripSuffix " ENABLED" h).getD h
      if h = c.header then none else some h
  | _ => none

/-- The columns after those before them, which have their headings, with shorter ones where these are not empty
and not taken. -/
def shortenHeaders : (before : List String) → List ColumnModel → List ColumnModel
  | _, [] => []
  | before, c :: cols =>
      let taken := before ++ c.header :: cols.map ColumnModel.header
      let header := ((shortHeader c).filter fun h => h ≠ "" && !taken.contains h).getD c.header
      { c with header } :: shortenHeaders (before ++ [header]) cols

/-- The first enumeration with the name of a status colours the row. -/
def promoteStatus (cols : List ColumnModel) : List ColumnModel :=
  modifyFirst (fun c => c.kind == .enum && isStatusName c.path) (fun c => { c with kind := .status }) cols

/-- The columns of the schema of a name. -/
def fallbackColumns (schemas : Json) (schema : String) : List ColumnModel :=
  (promoteStatus (shortenHeaders [] (derivedColumns schemas schema))).take MAX_FALLBACK_COLUMNS

end Nutsh.Generator
