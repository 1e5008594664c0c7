/-
The catalog: the kinds a Prism Central lists and the actions they take.

A kind is one listable collection of the API, an action one mutation of a kind, a field one field of
the form an action collects its body with.  The table of the kinds itself is generated and enormous;
whatever looks a kind up by its id takes the list of the kinds as a parameter.

Main definitions:

* `Kind`, `Action`, `Field` — what the generator writes down about the API;
* `Action.namesEntity`, `Action.actsOnARow`, `Action.parentsNeeded` — what an action is about;
* `Kind.actionTarget` — the kind whose actions apply to a row;
* `Path.get`, `Path.first` — dotted paths into the JSON of an entity.
-/
import Mathlib.Algebra.Group.Int.Defs
import Mathlib.Algebra.Order.Ring.Nat
import Mathlib.Data.List.Lex
import Mathlib.Data.Nat.Basic
import Nutsh.Lib.Json
import Nutsh.Lib.Text

set_option relaxedAutoImplicit false
set_option autoImplicit false

namespace Nutsh

/-- The HTTP method of an action. -/
inductive Method where
  | get
  | post
  | put
  | patch
  | delete
  deriving DecidableEq, Repr

/-- What a 2xx answer to an action carries. -/
inductive ActionReturn where
  | task
  | payload
  | none
  deriving DecidableEq, Repr

/-- How much damage an action can do. -/
inductive Danger where
  | none
  | low
  | medium
  | high
  deriving DecidableEq, Repr

/-- What the user has to do before an action runs. -/
inductive ConfirmKind where
  | none
  | yes
  | typeName
  deriving DecidableEq, Repr

namespace ConfirmKind

/-- The place of a confirmation in the order, the stronger one higher. -/
def rank : ConfirmKind → ℕ
  | none => 0
  | yes => 1
  | typeName => 2

theorem rank_injective : Function.Injective rank := by
  intro a b h
  cases a <;> cases b <;> first | rfl | cases h

instance : LinearOrder ConfirmKind := LinearOrder.lift' rank rank_injective

@[simp] theorem none_le (a : ConfirmKind) : none ≤ a := Nat.zero_le _

end ConfirmKind

/-- What a form field writes. -/
inductive FieldType where
  | text
  | enum (words : List String)
  | bool
  | integer
  | reference (kind : Option String)
  | json (skeleton : String)
  deriving DecidableEq, Repr

/-- One field of the request body of an action. -/
structure Field where
  /-- The body path the field writes. -/
  name : String
  label : String := ""
  ty : FieldType := .text
  required : Bool := false
  /-- A seed, or a substitution expanded when the form is submitted. -/
  value : Option String := none
  /-- Filled from `value`, never shown and never edited. -/
  hidden : Bool := false
  deriving DecidableEq, Repr

/-- A mutation on a kind. -/
structure Action where
  name : String
  path : String
  method : Method
  needsEtag : Bool := false
  needsBody : Bool := false
  takesBody : Bool := false
  returns : ActionReturn := .task
  /-- The placeholder names of the path, left to right. -/
  scope : List String := []
  roles : List String := []
  /-- The key that runs the action from a table, empty for none. -/
  key : String := ""
  label : String := ""
  danger : Danger := .none
  confirm : ConfirmKind := .none
  order : ℕ := 0
  hidden : Bool := false
  /-- A constant request body, as JSON text. -/
  body : Option String := none
  form : List Field := []
  deriving DecidableEq, Repr

namespace Action

/-- What a menu row reads: the curated label, or the name when there is none. -/
def title (a : Action) : String :=
  if a.label = "" then a.name else a.label

/-- Whether the path names an entity: its head, before `/$actions/`, ends in a placeholder. -/
def namesEntity (a : Action) : Bool :=
  let head := ((Text.splitOnce "/$actions/" a.path).map Prod.fst).getD a.path
  head.toList.getLast? == some '}'

/-- Whether the action is about one row rather than about the collection. -/
def actsOnARow (a : Action) : Bool :=
  a.namesEntity || a.form.any fun f => f.value == some "$ext_id"

/-- The ids the caller supplies before the id of the entity. -/
def parentsNeeded (a : Action) : ℕ :=
  if a.namesEntity then a.scope.length - 1 else a.scope.length

end Action

/-- How a column is rendered. -/
inductive ColumnKind where
  | text
  | enum
  | status
  | bytes
  | duration
  | timestamp
  | ip
  | percent
  | micros
  | bool
  | count
  | reference
  deriving DecidableEq, Repr

/-- A column of a table: its header and the dotted path into the JSON of an entity. -/
structure Column where
  header : String
  path : String
  kind : ColumnKind := .text
  deriving DecidableEq, Repr

/-- A field of the detail of an entity. -/
structure DetailField where
  label : String
  path : String
  kind : ColumnKind := .text
  deriving DecidableEq, Repr

/-- A titled group of fields. -/
structure DetailSection where
  title : String
  fields : List DetailField := []
  deriving DecidableEq, Repr

/-- What the colour of a row says. -/
inductive Role where
  | ok
  | off
  | pending
  | error
  | warn
  | info
  | ending
  | muted
  | neutral
  deriving DecidableEq, Repr

/-- One listable kind of the API. -/
structure Kind where
  id : String
  «namespace» : String := ""
  display : String := ""
  aliases : List String := []
  pollSecs : ℕ := 30
  listPath : String := ""
  /-- The oldest version of its namespace that has it. -/
  since : String := ""
  /-- Its list is asked for by page, and with a limit. -/
  page : Bool := true
  limit : Bool := true
  /-- Its list requires a query parameter. -/
  required : Bool := false
  /-- Its list takes a `$filter`. -/
  filter : Bool := false
  /-- The properties a filter may be over. -/
  filterFields : List String := []
  /-- The rows one walk of its list fetches at most. -/
  maxRows : Option ℕ := none
  getPath : Option String := none
  /-- The kind whose get path prefixes this one's list path. -/
  parent : Option String := none
  actions : List Action := []
  /-- The kind whose actions this one borrows. -/
  actionKind : Option String := none
  /-- Dotted paths read out of a row for the placeholders a table cannot fill. -/
  actionParents : List String := []
  /-- The `$select` its lists are narrowed with. -/
  select : Option String := none
  /-- The property a one-row probe is ordered by. -/
  probeBy : Option String := none
  /-- The property that identifies an entity. -/
  extIdKey : String := "extId"
  /-- Dotted path to the display name, empty for the usual keys. -/
  namePath : String := ""
  columns : List Column := []
  /-- What is shown when no column is curated. -/
  fallbackColumns : List Column := []
  /-- The curated detail. -/
  detail : List DetailSection := []
  /-- The roles of its own status words, by the normalised word. -/
  statusRoles : List (String × Role) := []
  /-- Whether a curator wrote its entry. -/
  curated : Bool := false
  deriving DecidableEq, Repr

/-- The kinds of the API. -/
abbrev Catalog := List Kind

namespace Catalog

/-- The kind with an id. -/
def kind (catalog : Catalog) (id : String) : Option Kind :=
  catalog.find? fun k => k.id == id

end Catalog

namespace Kind

/-- Whether the kind is listed without a parent. -/
def isTopLevel (k : Kind) : Bool := k.parent.isNone

/-- The ancestors of a kind, the root first; the kinds of the catalog bound their number. -/
def parentChain (catalog : Catalog) (k : Kind) : List Kind :=
  (go catalog.length (k.parent.bind catalog.kind)).reverse
where
  go : ℕ → Option Kind → List Kind
    | 0, _ => []
    | _, none => []
    | fuel + 1, some p => p :: go fuel (p.parent.bind catalog.kind)

/-- How a kind is reached: directly, from a row of the parent of that name, or not at all. -/
inductive Reach where
  | direct
  | fromParent (display : String)
  | needsParameter
  deriving DecidableEq, Repr

/-- Why a kind is not opened directly. -/
def Reach.reason : Reach → Option String
  | direct => none
  | fromParent display => some s!"open from {display}"
  | needsParameter => some "needs a parameter"

/-- The chain of the parents must supply every placeholder of the list path. -/
def reach (catalog : Catalog) (k : Kind) : Reach :=
  let chain := k.parentChain catalog
  if k.required || chain.length != (k.listPath.toList.filter (· == '{')).length then .needsParameter
  else
    match chain.getLast? with
    | none => .direct
    | some parent => .fromParent parent.display

/-- The kinds listed under a row of this one. -/
def children (catalog : Catalog) (k : Kind) : List Kind :=
  catalog.filter fun c => c.parent == some k.id

/-- The action of a name. -/
def action (k : Kind) (name : String) : Option Action :=
  k.actions.find? fun a => a.name == name

/-- The kind whose actions apply to a row of this one. -/
def actionTarget (catalog : Catalog) (k : Kind) : Kind :=
  (k.actionKind.bind catalog.kind).getD k

/-- The role a kind has of its own for a normalised word.  The words are sorted and no word is there twice, so
that the binary search for one finds what a lookup does. -/
def statusRole (k : Kind) (word : String) : Option Role := k.statusRoles.lookup word

end Kind

/-! ### Dotted paths -/

namespace Path

/-- The values one segment of a path leads to from a value: the member of that name, or each of its
items when the segment ends in `[]`. -/
def child (segment : String) (v : Json) : List Json :=
  match Text.stripSuffix "[]" segment with
  | some key => ((v.get key).bind Json.asArray).getD []
  | none => (v.get segment).toList

/-- Every value at a dotted path, the value itself at the empty one. -/
def get (v : Json) (path : String) : List Json :=
  if path = "" then [v]
  else (Text.splitChar '.' path).foldl (fun current segment => current.flatMap (child segment)) [v]

/-- The first value at a dotted path. -/
def first (v : Json) (path : String) : Option Json := (get v path).head?

end Path

end Nutsh
