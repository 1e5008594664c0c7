/-
The detail of an entity nobody curated.

The columns of the kind are turned on their side, and then everything else the document holds is grouped: a
walk down the document collects its scalars, each by a dotted path, and the fields are drawn by reading the
paths back.  A section whose every field is blank is dropped.

Main definitions:

* `Leaf`, `leaves` — the scalars of a value, by their paths;
* `infer` — how a value is drawn;
* `labelOf`, `labelLeaves` — what stands beside a value;
* `Line`, `Block`, `planned` — the fields of the sections, before any is drawn;
* `fallback` — the sections that are drawn.

A `Leaf` and a `Line` also say where in the document they were found, which nothing drawn depends on.
-/
import Mathlib.Data.List.Sort
import Nutsh.Cell

set_option relaxedAutoImplicit false
set_option autoImplicit false

namespace Nutsh.Detail

/-! ### Keys and paths -/

/-- The characters of a reversed path, without the `[]` it ended in. -/
def dropFan : List Char → List Char
  | ']' :: '[' :: rest => dropFan rest
  | path => path

/-- A path without the `[]` at its end, however often it stands there. -/
def trimFan (path : String) : String := String.ofList (dropFan path.toList.reverse).reverse

/-- The last segment of a path. -/
def lastSegment (path : String) : String := ((Text.splitChar '.' path).getLast?).getD path

def OBJECT_TYPE : String := "$objectType"

/-- The keys that are dropped at every level. -/
def NOISE : List String := [OBJECT_TYPE, "$reserved", "links", "tenantId"]

def isNoise (key : String) : Bool := NOISE.contains (lastSegment key)

/-! ### The walk -/

/-- How deep a section follows its object. -/
def DEEP : ℕ := 6

/-- An object with this many leaves at most is inlined. -/
def INLINE_MAX : ℕ := 2

/-- The elements of an array that are shown. -/
def ELEMENTS : ℕ := 3

/-- The scalars of an element that are shown. -/
def ELEMENT_SCALARS : ℕ := 4

/-- How deep an element is followed. -/
def ELEMENT_DEPTH : ℕ := 1

/-- A value to draw: the path it is read back by, and a sample of it. -/
structure Leaf where
  path : String
  sample : Json
  /-- The keys it was found under. -/
  keys : List String

def isContainer : Json → Bool
  | .obj _ => true
  | .arr _ => true
  | _ => false

def isObject : Json → Bool
  | .obj _ => true
  | _ => false

/-- The path of a key below a path, none standing for the value itself. -/
def below (front key : String) : String := if front = "" then key else front ++ "." ++ key

/-- The leaves of one level; `deeper` follows an object. -/
def level (deeper : String → Json → List Leaf) (front : String) (members : List (String × Json)) : List Leaf :=
  members.flatMap fun m =>
    if isNoise m.1 then []
    else
      let path := below front m.1
      match m.2 with
      | .obj _ => (deeper path m.2).map fun leaf => { leaf with keys := m.1 :: leaf.keys }
      | .null => []
      | .arr items =>
          match items with
          | [] => []
          | first :: _ =>
              if items.all fun v => !isContainer v then
                [{ path := path ++ "[]", sample := first, keys := [m.1] }]
              else []
      | scalar => [{ path, sample := scalar, keys := [m.1] }]

/-- The scalar leaves of a value, in wire order, down `budget` further levels of objects.  An array of scalars is
one leaf, an array of anything else none. -/
def leaves : ℕ → String → Json → List Leaf
  | 0, front, v => level (fun _ _ => []) front (v.asObject.getD [])
  | budget + 1, front, v => level (leaves budget) front (v.asObject.getD [])

/-! ### How a value is drawn -/

/-- An enumeration word: capitals, digits and `_`, with a letter. -/
def isScreaming (s : String) : Bool :=
  s.toList.any Char.isUpper && s.toList.all fun c => c.isUpper || c.isDigit || c == '_'

/-- The kind of column a value is drawn as, by the value and its key. -/
def infer (f : Formats) (key : String) (v : Json) : ColumnKind :=
  let last := lastSegment (trimFan key)
  let percent := Text.endsWith "Percentage" last || Text.endsWith "Percent" last
  match v with
  | .bool _ => .bool
  | .num n =>
      if (Cell.asU64 (.num n)).isSome || (Cell.asI64 (.num n)).isSome then
        if Text.endsWith "Bytes" last then .bytes
        else if Text.endsWith "Secs" last || Text.endsWith "Seconds" last then .duration
        else if Text.endsWith "Usecs" last then .micros
        else if percent then .percent
        else .text
      else if percent then .percent
      else .text
  | .str s =>
      if (f.rfc3339 s).isSome then .timestamp
      else if Cell.isUuid s then .reference
      else if isScreaming s then .enum
      else .text
  | _ => .text

/-! ### Labels -/

/-- `POWER_STATE` of `powerState`; `before` is the character before. -/
def screamingFrom (before : Option Char) : List Char → List Char
  | [] => []
  | c :: rest =>
      let prevLower := before.any fun p => p.isLower || p.isDigit
      let pluralS := rest.head? == some 's' && rest.tail.head?.all fun n => !n.isLower
      let acronymEnd := before.any Char.isUpper && rest.head?.any Char.isLower && !pluralS
      if c.isUpper && (prevLower || acronymEnd) then '_' :: c.toUpper :: screamingFrom (some c) rest
      else c.toUpper :: screamingFrom (some c) rest

def screaming (prop : String) : String := String.ofList (screamingFrom none prop.toList)

section
/- The capital of a character, which may be more than one. -/
variable (upper : Char → String)

/-- A word of a label, the first one with a capital; an acronym keeps its casing. -/
def labelWord (token : String) (i : ℕ) : String :=
  match Cell.ACRONYMS.find? fun a => eqIgnoreCase a.1 token with
  | some a => a.2
  | none =>
      match i, (Text.lower token).toList with
      | 0, first :: rest => upper first ++ String.ofList rest
      | _, lower => String.ofList lower

def sentenceCase (word : String) : String :=
  " ".intercalate
    (((Text.splitChar '_' word).filter (· != "")).zipIdx.map fun token => labelWord upper token.1 token.2)

/-- A key as a label. -/
def labelOf (segment : String) : String := sentenceCase upper (screaming (trimFan segment))

/-- The header of a column as a label. -/
def headerLabel (header : String) : String :=
  sentenceCase upper (String.ofList (header.toList.map fun c => if c = ' ' then '_' else c))

/-- One segment as a word, and what is behind it as the wire writes it. -/
def labelFrom (segments : List String) (head : ℕ) : String :=
  let name := labelOf upper (segments.getD head "")
  if head + 1 = segments.length then name
  else name ++ " · " ++ trimFan (".".intercalate (segments.drop (head + 1)))

/-- The labels of some paths, each from a segment of its own on; one that is not alone is grown to its left,
as long as any is. -/
def grow : ℕ → List (List String × ℕ) → List String
  | 0, heads => heads.map fun h => labelFrom upper h.1 h.2
  | fuel + 1, heads =>
      let labels := heads.map fun h => labelFrom upper h.1 h.2
      let next := heads.map fun h =>
        if 0 < h.2 && 1 < labels.count (labelFrom upper h.1 h.2) then (h.1, h.2 - 1) else h
      if next == heads then labels else grow fuel next

/-- The labels of the leaves of one section: the last segment of each, grown until no two are equal. -/
def labelLeaves (paths : List String) : List String :=
  let heads := (paths.map (Text.splitChar '.')).map fun segments => (segments, segments.length - 1)
  -- every turn but the last takes one segment from what is left
  grow upper (heads.map Prod.snd).sum heads

/-- The label of a leaf that is inlined. -/
def inlineLabel (key leaf : String) : String :=
  labelFrom upper (Text.splitChar '.' (key ++ "." ++ leaf)) 0

/-! ### The plan -/

/-- A field to draw: the value at a path, drawn as a kind of column. -/
structure Line where
  label : String
  path : String
  kind : ColumnKind
  /-- The keys the walk found it under. -/
  keys : List String := []

/-- What a section holds: fields, or the elements of an array. -/
inductive Block where
  | lines (found : List Line)
  | elements (items : List Json)

variable (f : Formats)

def columnsOf (kind : Kind) : List Column := if kind.columns.isEmpty then kind.fallbackColumns else kind.columns

/-- The columns of the kind, with the id before them. -/
def summary (kind : Kind) : List Line :=
  { label := "UUID", path := kind.extIdKey, kind := .text } ::
    (columnsOf kind).map fun c => { label := headerLabel upper c.header, path := c.path, kind := c.kind }

/-- The paths the columns of the kind show. -/
def shownBy (kind : Kind) : List String := kind.extIdKey :: (columnsOf kind).map Column.path

/-- A key of the document that the columns do not show whole. -/
def mine (kind : Kind) (key : String) : Bool :=
  !isNoise key && !(shownBy kind).any fun p => trimFan p == key

/-- A leaf below a key that a column shows. -/
def already (kind : Kind) (key leaf : String) : Bool := (shownBy kind).any fun p => p == key ++ "." ++ leaf

/-- The leaves below a key that no column shows. -/
def kept (kind : Kind) (key : String) (v : Json) : List Leaf :=
  (leaves DEEP "" v).filter fun leaf => !already kind key leaf.path

/-- An object with a section of its own. -/
def ownSection (v : Json) : Bool := INLINE_MAX < (leaves DEEP "" v).length

def leafLine (key label : String) (leaf : Leaf) : Line :=
  let path := key ++ "." ++ leaf.path
  { label, path, kind := infer f path leaf.sample, keys := key :: leaf.keys }

/-- What a member of the document adds to the details. -/
def inlined (kind : Kind) (m : String × Json) : List Line :=
  match m.2 with
  | .obj _ =>
      if ownSection m.2 then []
      else (kept kind m.1 m.2).map fun leaf => leafLine f m.1 (inlineLabel upper m.1 leaf.path) leaf
  | .null => []
  | .arr items =>
      match items with
      | [] => []
      | first :: _ =>
          if items.all fun v => !isContainer v then
            [{ label := labelOf upper m.1, path := m.1 ++ "[]", kind := infer f (m.1 ++ "[]") first
               keys := [m.1] }]
          else []
  | scalar => [{ label := labelOf upper m.1, path := m.1, kind := infer f m.1 scalar, keys := [m.1] }]

/-- The section a member of the document has of its own. -/
def sections (kind : Kind) (m : String × Json) : List (String × Block) :=
  match m.2 with
  | .obj _ =>
      if ownSection m.2 then
        [(labelOf upper m.1, .lines
          (List.zipWith (leafLine f m.1) (labelLeaves upper ((kept kind m.1 m.2).map Leaf.path))
            (kept kind m.1 m.2)))]
      else []
  | .arr items =>
      if items.any isObject then [(s!"{labelOf upper m.1} ({items.length})", .elements items)] else []
  | _ => []

/-- What the walk down a document finds. -/
def walked (kind : Kind) (raw : Json) : List (String × Block) :=
  match raw with
  | .obj top =>
      let members := top.filter fun m => mine kind m.1
      ("Details", .lines (members.flatMap (inlined upper f kind))) :: members.flatMap (sections upper f kind)
  | _ => []

/-- The sections of an entity, whatever they draw. -/
def planned (kind : Kind) (raw : Json) : List (String × Block) :=
  ("Summary", .lines (summary upper kind)) :: walked upper f kind raw

/-! ### The fields -/

/-- One titled group of labelled values. -/
structure Section where
  title : String
  fields : List (String × Rendered)

variable (names : IndexMap String String) (now : ℤ)

/-- A field: the value is read back by its path. -/
def field (raw : Json) (line : Line) : String × Rendered :=
  (line.label, Cell.render f names now line.path line.kind raw)

/-- `name` and `extId` go before anything else. -/
def elementRank (leaf : Leaf) : ℕ :=
  if lastSegment leaf.path = "name" then 0 else if lastSegment leaf.path = "extId" then 1 else 2

/-- The value of an element's line. -/
def elementValue (element : Json) : Rendered :=
  let sub := (leaves ELEMENT_DEPTH "" element).insertionSort fun a b => elementRank a ≤ elementRank b
  let texts := ((sub.take ELEMENT_SCALARS).map fun leaf =>
    (Cell.render f names now leaf.path (infer f leaf.path leaf.sample) element).text).filter (· != "-")
  let extra := sub.length - texts.length
  let text := "  ".intercalate texts ++
    if 0 < texts.length && 0 < extra then s!"  … and {extra} more" else ""
  if text = "" then .empty else { text, dim := false }

/-- The variant an element says it is. -/
def elementTag (element : Json) : String :=
  (((element.get OBJECT_TYPE).bind Json.asStr).map fun t => labelOf upper (lastSegment t)).getD ""

/-- The lines of the elements of an array, each with its tag where that is news. -/
def elementsFrom (previous : String) : List Json → List (String × Rendered)
  | [] => []
  | element :: rest =>
      let tag := elementTag upper element
      (if tag = previous then "" else tag, elementValue f names now element) :: elementsFrom tag rest

def Block.fields (raw : Json) (block : Block) : List (String × Rendered) :=
  match block with
  | .lines found => found.map (field f names now raw)
  | .elements items => elementsFrom upper f names now "" (items.take ELEMENTS)

/-- The cell of a missing value, or of nothing but blank ones. -/
def isBlank (r : Rendered) : Bool := r.dim && r.text == "-"

/-- The sections of an entity that no curator wrote the detail of. -/
def fallback (kind : Kind) (raw : Json) : List Section :=
  ((planned upper f kind raw).map fun s => { title := s.1, fields := Block.fields upper f names now raw s.2 }).filter
    fun s => s.fields.any fun field => !isBlank field.2

end

end Nutsh.Detail
