/-
What a search finds.

A term is looked for in the name of a row, in its id and in its addresses.  A term of digits and dots is
read octet by octet, any other one as a piece of text, whatever its case.  A search of the store looks at
the tables of the session, takes each row once and groups what it finds by kind, in the order of the menu.

Main definitions:

* `Query`, `Dotted` — a term, and the octets it names;
* `Query.why` — in which field of a row the term is found;
* `addresses` — where a kind keeps its addresses;
* `Query.across` — what a search of the store finds.
-/
import Mathlib.Data.Prod.Lex
import Mathlib.Data.String.Basic
import Nutsh.Store

set_option relaxedAutoImplicit false
set_option autoImplicit false

namespace Nutsh

/-! ### Terms -/

/-- The octets of a term: those it names whole, and the one it ends on. -/
structure Dotted where
  whole : List String
  /-- The octet still being typed, none when the term ends on a dot. -/
  trailing : Option String
  deriving DecidableEq, Repr

namespace Dotted

/-- The octets of a term of digits and dots, with one of each at least and no empty octet in the middle. -/
def parse (term : String) : Option Dotted :=
  if !term.toList.contains '.' || !term.toList.any Char.isDigit then none
  else if !term.toList.all fun c => c.isDigit || c == '.' then none
  else
    let parts := Text.splitChar '.' term
    let trailing := parts.getLast?.filter fun p => p != ""
    if parts.dropLast.any (· == "") then none else some { whole := parts.dropLast, trailing }

/-- Whether the octets line up with octets of an address, the last one as far as it goes. -/
def isIn (d : Dotted) (address : String) : Bool :=
  let candidate := Text.splitChar '.' address
  let wanted := d.whole.length + if d.trailing.isSome then 1 else 0
  if wanted = 0 || candidate.length < wanted then false
  else
    (List.range (candidate.length - wanted + 1)).any fun start =>
      (d.whole.zipIdx.all fun o => candidate[start + o.2]? == some o.1) &&
        d.trailing.all fun p => (candidate[start + d.whole.length]?).any (Text.startsWith p)

end Dotted

/-- A term, parsed once and looked for in many rows. -/
structure Query where
  text : String := ""
  /-- The term in lower case. -/
  needle : String := ""
  dotted : Option Dotted := none
  deriving DecidableEq, Repr

/-- The field of a row a term is found in. -/
inductive Match where
  | name
  | extId
  | address (label value : String)
  deriving DecidableEq, Repr

namespace Match

/-- An address with the field it came from in front of it. -/
def labelled (label value : String) : String := s!"{label} {value}"

end Match

/-- Every path a kind keeps an address at, under the name of the field. -/
def addresses (kind : Kind) : List (String × String) :=
  ((kind.columns ++ kind.fallbackColumns).filter fun c => c.kind == .ip).map (fun c => (c.header, c.path)) ++
    ((kind.detail.flatMap DetailSection.fields).filter fun f => f.kind == .ip).map fun f => (f.label, f.path)

namespace Query

section
variable (lower : String → String)

def new (term : String) : Query := { text := term, needle := lower term, dotted := Dotted.parse term }

/-- Whether a text has the needle in it, whatever its case. -/
def containsCi (needle haystack : String) : Bool := Text.contains needle (lower haystack)

variable (q : Query)

def isEmpty : Bool := q.needle == ""

/-- An address; octets are found octet by octet and only that way. -/
def matchesAddress (value : String) : Bool :=
  match q.dotted with
  | some dotted => dotted.isIn value
  | none => containsCi lower q.needle value

/-- The addresses of a row, under the names of their fields. -/
def addressesOf (e : Entity) : List (String × String) :=
  (addresses e.kind).flatMap fun a => ((Path.get e.raw a.2).filterMap Json.asStr).map fun value => (a.1, value)

/-- The field the term is found in, none for a row it does not name. -/
def why (e : Entity) : Option Match :=
  if q.isEmpty then some .name
  else if containsCi lower q.needle e.name then some .name
  else if containsCi lower q.needle e.extId then some .extId
  else if ((e.raw.get "$context").bind Json.asStr).any (containsCi lower q.needle) then some .name
  else ((addressesOf e).find? fun a => q.matchesAddress lower a.2).map fun a => .address a.1 a.2

/-- Whether the term names a row. -/
def «matches» (e : Entity) : Bool := (q.why lower e).isSome

end

end Query

/-! ### Searching the store -/

/-- One row a term found. -/
structure Hit where
  kind : Kind
  extId : String
  name : String
  /-- What is shown beside the name. -/
  detail : String
  deriving DecidableEq, Repr

/-- The hits of one kind. -/
structure Group where
  kind : Kind
  hits : List Hit := []
  deriving DecidableEq, Repr

/-- What a search found, and how far it could see. -/
structure Found where
  groups : List Group := []
  /-- The kinds the store holds a table for. -/
  loaded : ℕ := 0
  /-- The kinds of the catalog it holds nothing for. -/
  notLoaded : ℕ := 0
  deriving DecidableEq, Repr

/-- What an item of the menu opens. -/
inductive NavTarget where
  | kind (id : String)
  | page (id : String)
  | contexts
  | settings
  | missing
  deriving DecidableEq, Repr

/-- The groups of the menu. -/
abbrev Nav := List (List NavTarget)

/-- Where the menu lists a kind, or past its end. -/
def menuPosition (nav : Nav) (kind : Kind) : ℕ :=
  (nav.flatten.findIdx? fun target => target == .kind kind.id).getD (2 ^ 64 - 1)

namespace Query

section
variable (lower : String → String) (q : Query)

/-- A row that was found. -/
def hit (e : Entity) (reason : Match) : Hit :=
  { kind := e.kind, extId := e.extId, name := e.name
    detail := match reason with
      | .address label value => Match.labelled label value
      | .extId => e.extId
      | .name => ((addressesOf e).head?.map fun a => Match.labelled a.1 a.2).getD "" }

/-- A row looked at: found under its kind, unless it is there already. -/
def look (byKind : IndexMap String Group) (e : Entity) : IndexMap String Group :=
  match q.why lower e with
  | none => byKind
  | some reason =>
      let group := (byKind.get? e.kind.id).getD { kind := e.kind }
      if group.hits.any fun h => h.extId == e.extId then byKind.insert e.kind.id group
      else byKind.insert e.kind.id { group with hits := group.hits ++ [hit e reason] }

/-- The place of a group in the results. -/
def place (nav : Nav) (g : Group) : ℕ ×ₗ String := toLex (menuPosition nav g.kind, g.kind.display)

/-- The groups by the id of their kind, and then by their place. -/
def sorted (nav : Nav) (byKind : IndexMap String Group) : List Group :=
  ((byKind.entries.mergeSort fun a b => decide (a.1 ≤ b.1)).map Prod.snd).mergeSort fun a b =>
    decide (place nav a ≤ place nav b)

/-- Every row in the tables of the session that the term names; a table of a joined context is not
searched. -/
def across (catalog : Catalog) (nav : Nav) (s : Store) : Found :=
  let searched := s.tables.values.filter fun x => x.1.context.isNone
  let loaded := (searched.map fun x => x.1.kind.id).dedup.length
  { groups := sorted nav
      (searched.foldl (fun m x => x.2.rows.values.foldl (q.look lower) m) IndexMap.empty)
    loaded
    notLoaded := catalog.length - loaded }

end

end Query

end Nutsh
