/-
What the curator adds to the kinds.

The overlay is keyed by the ids of kinds.  A kind first claims actions that no kind has, then copies
actions of its own or of another kind under new names, and last each of its actions is curated: its label,
its key, its form, how much damage it does and whether it needs an ETag.  A pass goes on where something is wrong and
collects it; generation is refused if anything was.

* `Overlay`, `KindOverlay`, `ActionOverlay` — what the curator writes;
* `claimStep`, `claimExtraActions` — the actions that are claimed;
* `copyAction`, `copyStep` — the actions that are copied;
* `curatedField`, `curated`, `curateStep` — the actions curated, and their forms;
* `applyOverlay`, `generate` — all of it, over the kinds of a set of documents.
-/
import Nutsh.Body
import Nutsh.Generator.Parse
import Nutsh.Lib.IndexMap
import Nutsh.Lib.Passes

set_option relaxedAutoImplicit false
set_option autoImplicit false

namespace Nutsh.Generator

open Passes (pass modifyFirst)

structure FieldOverlay where
  name : String
  label : String := ""
  ty : Option String := none
  values : List String := []
  /-- The kind a reference is picked from. -/
  kind : Option String := none
  required : Option Bool := none
  value : Option String := none
  hidden : Bool := false

structure ActionOverlay where
  /-- Another action this one is a copy of: its name, or the id of its kind and its name. -/
  «from» : Option String := none
  key : Option String := none
  label : Option String := none
  danger : Option String := none
  confirm : Option String := none
  order : Option ℕ := none
  hidden : Bool := false
  form : List FieldOverlay := []
  needsEtag : Option Bool := none

structure KindOverlay where
  /-- Paths of actions no kind has. -/
  extraActions : List String := []
  actions : IndexMap String ActionOverlay := .empty

structure Overlay where
  kinds : IndexMap String KindOverlay

/-- The keys the program binds. -/
def RESERVED_KEYS : List String :=
  ["/", "0", "1", "2", "3", "4", "5", "6", "7", "8", "9", ":", "?", "G", "J", "O", "P", "S", "Y", "a",
    "backspace", "c", "ctrl-b", "ctrl-c", "ctrl-d", "ctrl-e", "ctrl-o", "ctrl-r", "ctrl-t", "ctrl-x",
    "down", "end", "enter", "esc", "g", "h", "home", "j", "k", "l", "left", "m", "p", "pagedown",
    "pageup", "q", "r", "right", "s", "shift-tab", "space", "tab", "up", "w", "y"]

/-- The keys the program binds that an action may have. -/
def ACTION_KEYS : List String := ["p", "P", "r", "s", "m", "ctrl-d", "c"]

def DANGERS : List (String × Danger) :=
  [("none", .none), ("low", .low), ("medium", .medium), ("high", .high)]

def CONFIRMS : List (String × ConfirmKind) := [("none", .none), ("yes", .yes), ("type-name", .typeName)]

/-- The types a curated field may have. -/
def FIELD_TYPES : List String := ["string", "bool", "integer", "enum", "reference", "json"]

/-- The widest label of an action. -/
def ACTION_LABEL : ℕ := 33

/-- What is asked before an action when nothing else is curated. -/
def confirmFloor : Danger → ConfirmKind
  | .medium => .yes
  | .high => .typeName
  | _ => .none

def ofId (id : String) (k : KindModel) : Bool := k.id == id

def ofName (name : String) (a : ActionModel) : Bool := a.name == name

/-- What a pass leaves when nothing is wrong. -/
def refuse (kinds : List KindModel) (problems : List String) : Except String (List KindModel) :=
  if problems.isEmpty then .ok kinds else .error ("curated.toml: " ++ "; ".intercalate problems)

/-! ### Claims -/

/-- A kind with actions it claims. -/
def claim (found : List ActionModel) (k : KindModel) : KindModel :=
  let k := clearUnfetchableEtags { k with actions := k.actions ++ found }
  { k with actions := sortByName k.actions }

/-- The actions a kind claims. -/
def claims (unattached : List ActionModel) (o : KindOverlay) : List ActionModel :=
  o.extraActions.filterMap fun path => unattached.find? fun a => a.path == path

def claimStep (unattached : List ActionModel) (kinds : List KindModel) (entry : String × KindOverlay) :
    List KindModel × List String :=
  let (id, o) := entry
  if o.extraActions.isEmpty then (kinds, [])
  else
    match kinds.find? (ofId id) with
    | none => (kinds, [s!"unknown kind id {id}"])
    | some _ =>
        let missing := o.extraActions.filter fun path => !unattached.any fun a => a.path == path
        (modifyFirst (ofId id) (claim (claims unattached o)) kinds,
          missing.map fun path =>
            s!"{id}: extra_actions path {path.quote} is not an unattached action of any spec")

def claimExtraActions (overlay : Overlay) (kinds : List KindModel) (unattached : List ActionModel) :
    Except String (List KindModel) :=
  let (kinds, problems) := pass (claimStep unattached) kinds overlay.kinds.entries
  refuse kinds problems

/-! ### Copies -/

/-- A kind with an action added at the end. -/
def pushAction (a : ActionModel) (k : KindModel) : KindModel := { k with actions := k.actions ++ [a] }

/-- A copy keeps the endpoint of its source; its key and its label are its own. -/
def copyAction (id : String) (kinds : List KindModel) (entry : String × ActionOverlay) :
    List KindModel × List String :=
  let (name, o) := entry
  match o.from with
  | none => (kinds, [])
  | some source =>
      if (kinds.find? (ofId id)).any fun k => k.actions.any (ofName name) then
        (kinds, [s!"{id}: from would duplicate action {name}"])
      else
        let (sourceKind, sourceName) := (Text.splitOnce ":" source).getD (id, source)
        match (kinds.find? (ofId sourceKind)).bind fun k => k.actions.find? (ofName sourceName) with
        | none => (kinds, [s!"{id}: from names no action {source}"])
        | some c =>
            (modifyFirst (ofId id) (pushAction { c with name, key := "", label := "" }) kinds, [])

/-- A kind after its copies. -/
def settle (k : KindModel) : KindModel :=
  let k := clearUnfetchableEtags k
  { k with actions := sortByName k.actions }

def copyStep (kinds : List KindModel) (entry : String × KindOverlay) : List KindModel × List String :=
  let (id, o) := entry
  match kinds.find? (ofId id) with
  | none => (kinds, [])
  | some _ =>
      let (kinds, problems) := pass (copyAction id) kinds o.actions.entries
      (modifyFirst (ofId id) settle kinds, problems)

/-! ### Curation -/

/-- A curated field; what it leaves out it has from the generated field of its name. -/
def curatedField (form : List FieldModel) (f : FieldOverlay) : FieldModel :=
  let derived := form.find? fun d => d.name == f.name
  let ty : FieldKind :=
    match f.ty with
    | some "string" => .text
    | some "bool" => .bool
    | some "integer" => .integer
    | some "enum" => .enum f.values
    | some "reference" => .reference f.kind
    | some "json" => .json "\x7b\x7d"
    | _ => (derived.map FieldModel.ty).getD .text
  { name := f.name
    label := if f.label.isEmpty then (derived.map FieldModel.label).getD "" else f.label
    ty
    required := (f.required.or (derived.map FieldModel.required)).getD false
    value := f.value
    hidden := f.hidden }

/-- A curated form replaces the generated one. -/
def applyForm (fields : List FieldOverlay) (form : List FieldModel) : List FieldModel :=
  if fields.isEmpty then form else fields.map (curatedField form)

/-- An action as it is curated. -/
def curated (o : ActionOverlay) (t : ActionModel) : ActionModel :=
  let danger := (o.danger.bind fun d => DANGERS.lookup d).getD t.danger
  { t with
    label := o.label.getD t.label
    order := o.order.getD t.order
    needsEtag := o.needsEtag.getD t.needsEtag
    hidden := o.hidden
    danger
    confirm := (o.confirm.bind fun c => CONFIRMS.lookup c).getD (confirmFloor danger)
    key := o.key.getD t.key
    form := applyForm o.form t.form }

/-- What is wrong with a curated field; `ids` are the kinds it can refer to. -/
def fieldProblems (ids : List String) (id name : String) (f : FieldOverlay) : List String :=
  (if validFieldName f.name then []
    else [s!"{id}.{name}: field name {f.name.quote} is not seg([n])?(.seg([n])?)*"]) ++
  match f.ty with
  | none => []
  | some ty =>
      let known := ", ".intercalate FIELD_TYPES
      if !FIELD_TYPES.contains ty then
        [s!"{id}.{name}: field {f.name} type {ty.quote} is not one of {known}"]
      else if ty = "enum" && f.values.isEmpty then
        [s!"{id}.{name}: enum field {f.name} lists no values"]
      else if ty = "reference" then
        ((f.kind.filter fun kind => !ids.contains kind).map fun kind =>
          s!"{id}.{name}: reference field {f.name} names no kind {kind}").toList
      else []

/-- What is wrong with how an action is curated. -/
def curationProblems (ids : List String) (id name : String) (o : ActionOverlay) : List String :=
  let label := (o.label.filter fun label => ACTION_LABEL < label.length).map fun label =>
    s!"{id}.{name}: action label {label.quote} is {label.length} characters, at most {ACTION_LABEL}"
  let danger := (o.danger.filter fun d => (DANGERS.lookup d).isNone).map fun d =>
    s!"{id}.{name}: danger {d.quote} is not one of none, low, medium, high"
  let confirm := (o.confirm.filter fun c => (CONFIRMS.lookup c).isNone).map fun c =>
    s!"{id}.{name}: confirm {c.quote} is not one of none, yes, type-name"
  let key := o.key.bind fun key =>
    if RESERVED_KEYS.contains key && !ACTION_KEYS.contains key then
      some s!"{id}.{name}: key {key.quote} is reserved by the table mode"
    else if key = "c" ∧ name ≠ "cancel" then
      some s!"{id}.{name}: key \"c\" is reserved for cancel on every table"
    else none
  label.toList ++ danger.toList ++ confirm.toList ++ key.toList ++ o.form.flatMap (fieldProblems ids id name)

/-- The first action of a kind under a name, curated. -/
def curateIn (name : String) (o : ActionOverlay) (k : KindModel) : KindModel :=
  { k with actions := modifyFirst (ofName name) (curated o) k.actions }

def curateAction (id : String) (kinds : List KindModel) (entry : String × ActionOverlay) :
    List KindModel × List String :=
  let (name, o) := entry
  match (kinds.find? (ofId id)).bind fun k => k.actions.find? (ofName name) with
  | none => (kinds, if o.from.isNone then [s!"{id}: no action {name}"] else [])
  | some _ =>
      (modifyFirst (ofId id) (curateIn name o) kinds, curationProblems (kinds.map KindModel.id) id name o)

/-- The keys that two actions claim, given those seen. -/
def keyProblems (id : String) : (seen : List String) → List ActionModel → List String
  | _, [] => []
  | seen, a :: actions =>
      if a.key = "" then keyProblems id seen actions
      else
        (if seen.contains a.key then [s!"{id}: two actions claim key {a.key.quote}"] else []) ++
          keyProblems id (seen ++ [a.key]) actions

def curateStep (kinds : List KindModel) (entry : String × KindOverlay) :
    List KindModel × List String :=
  let (id, o) := entry
  match kinds.find? (ofId id) with
  | none => (kinds, [])
  | some _ =>
      let (kinds, problems) := pass (curateAction id) kinds o.actions.entries
      (kinds, problems ++ keyProblems id [] (((kinds.find? (ofId id)).map KindModel.actions).getD []))

/-! ### Generation -/

/-- The overlay applied; `others` is what is wrong with the columns, orders, budgets and states it curates. -/
def applyOverlay (others : List String) (overlay : Overlay) (kinds : List KindModel) :
    Except String (List KindModel) :=
  let unknown := (overlay.kinds.keys.filter fun id => (kinds.find? (ofId id)).isNone).map fun id =>
    s!"unknown kind id {id}"
  let (kinds, copying) := pass copyStep kinds overlay.kinds.entries
  let (kinds, curating) := pass curateStep kinds overlay.kinds.entries
  refuse kinds (others ++ unknown ++ copying ++ curating)

/-- The kinds of a set of documents, and the actions none of them has. -/
def parseAll (docs : List Document) : Except String (List KindModel × List ActionModel) := do
  let parsed ← docs.mapM parseNamespaceFull
  return (parsed.flatMap Prod.fst, parsed.flatMap Prod.snd)

/-- The kinds of a set of documents under an overlay. -/
def generate (docs : List Document) (others : List String) (overlay : Overlay) :
    Except String (List KindModel) := do
  let (kinds, unattached) ← parseAll docs
  let kinds ← claimExtraActions overlay kinds unattached
  applyOverlay others overlay (resolveFieldReferences kinds)

end Nutsh.Generator
