/-
From a spec document to kinds and their actions.

Every path of the document that lists a collection is a kind, and the path of one of its entities is where
its entities are read.  A list below an entity has the kind of the entity for a parent.  The actions of a kind
are the mutations on these two paths and the `$actions` below the second.  An action below another path goes to
the one kind whose entities are read at a path with the same last two segments, if there is exactly one.  An
action that wants an ETag which that path cannot fetch has its flag cleared.

* `KindModel`, `ActionModel` — what is generated;
* `listKinds` — the kinds of a document, with their ids and their parents;
* `ownOperations`, `actionsFor` — the mutations on the paths of a kind;
* `clearUnfetchableEtags` — the flags that cannot be honoured, cleared;
* `attachStep`, `attachOrphanActions` — the actions below other paths;
* `parseNamespaceFull` — all of it;
* `resolveFieldReferences` — the kinds that the forms refer to.
-/
import Mathlib.Data.List.Sort
import Mathlib.Data.Prod.Lex
import Mathlib.Data.String.Basic
import Nutsh.Catalog
import Nutsh.Generator.Form
import Nutsh.Prism.Bucket

set_option relaxedAutoImplicit false
set_option autoImplicit false

namespace Nutsh.Generator

open Prism (RateLimit)

structure ActionModel where
  name : String
  path : String
  method : Method
  needsEtag : Bool
  key : String := ""
  label : String := ""
  danger : Danger := .none
  confirm : ConfirmKind := .none
  order : ℕ := 0
  hidden : Bool := false
  form : List FieldModel := []
  rate : RateLimit
  deriving DecidableEq

structure KindModel where
  id : String := ""
  listPath : String
  getPath : Option String
  /-- The schema of an entity, empty when the document names none. -/
  schema : String
  /-- The id of the kind whose entities it is listed below. -/
  parent : Option String := none
  actions : List ActionModel := []
  rate : RateLimit := .default
  deriving DecidableEq

/-- The paths and the schemas of a document, and the version it is of. -/
structure Document where
  version : String
  paths : List (String × Json)
  schemas : Json

/-! ### Reading a document -/

/-- What is found by following keys. -/
def pointer (v : Json) (keys : List String) : Option Json := keys.foldlM Json.get v

def asU64 : Json → Option ℕ
  | .num (.int n) => if 0 ≤ n ∧ n < 2 ^ 64 then some n.toNat else none
  | _ => none

/-- The schema of the answer to a read. -/
def jsonResponse (schemas get : Json) : Option Json := do
  let schema ← pointer get ["responses", "200", "content", "application/json", "schema"]
  match (schema.get "$ref").bind Json.asStr with
  | some r => schemas.get (afterSlash r)
  | none => some schema

/-- The items of a collection, plain or one of several shapes. -/
def dataItems (data : Json) : Option Json :=
  (data.get "items").or
    (((data.get "oneOf").bind Json.asArray).bind fun shapes => shapes.findSome? fun b => b.get "items")

/-- Whether the data of an answer is positively one entity. -/
def describesOneEntity (schemas data : Json) : Bool :=
  let target :=
    (((data.get "$ref").bind Json.asStr).bind fun r => schemas.get (afterSlash r)).getD data
  let array := fun v : Json =>
    (dataItems v).isSome || ((v.get "type").bind Json.asStr == some "array")
  if array data || array target then false
  else
    (data.get "$ref").isSome || ((target.get "type").bind Json.asStr == some "object") ||
      ((data.get "oneOf").bind Json.asArray).any fun shapes => shapes.any fun b => (b.get "$ref").isSome

/-- Whether a read can answer with a collection. -/
def listsACollection (schemas get : Json) : Bool :=
  match jsonResponse schemas get with
  | none => false
  | some response =>
      match pointer response ["properties", "data"] with
      | none => true
      | some data => !describesOneEntity schemas data

def listItemSchema (schemas get : Json) : Option String := do
  let data ← pointer (← jsonResponse schemas get) ["properties", "data"]
  let r ← (← (← dataItems data).get "$ref").asStr
  return afterSlash r

/-- The placeholders of a path. -/
def placeholderCount (path : String) : ℕ := path.toList.count '{'

/-- The characters of a path without what stands in braces. -/
def normalizeList : (inside : Bool) → List Char → List Char
  | _, [] => []
  | _, '{' :: cs => '{' :: normalizeList true cs
  | _, '}' :: cs => '}' :: normalizeList false cs
  | inside, c :: cs => if inside then normalizeList inside cs else c :: normalizeList inside cs

/-- A path without the names of its placeholders. -/
def normalize (path : String) : String := String.ofList (normalizeList false path.toList)

/-- The last two segments of a path. -/
def trailingTwo (path : String) : Option String :=
  match (Text.splitChar '/' (normalize path)).reverse with
  | last :: before :: _ => some (before ++ "/" ++ last)
  | _ => none

def lastSegment (path : String) : String :=
  afterSlash (String.ofList (path.toList.reverse.dropWhile (· == '/')).reverse)

/-- `v4`, `r0`, `a3`, `b1`, or a number. -/
def isVersionSegment (seg : String) : Bool :=
  match seg.toList with
  | [] => false
  | c :: cs =>
      (c :: cs).all Char.isDigit ||
        (['v', 'r', 'a', 'b'].contains c && !cs.isEmpty && cs.all Char.isDigit)

def stripVersionSegments (schema : String) : String :=
  ".".intercalate ((Text.splitChar '.' schema).filter fun seg => !isVersionSegment seg)

def stripVersion (schema version : String) : String :=
  match Text.splitOnce ("." ++ version ++ ".") schema with
  | some (before, after) => before ++ "." ++ after
  | none => stripVersionSegments schema

def pathId (version path : String) : String :=
  ".".intercalate ((Text.splitChar '/' (Text.trimStartMatches "/" path)).filter fun s =>
    s != version && !Text.startsWith "\x7b" s)

/-! ### The kinds of a document -/

/-- The path of one entity of a list: one placeholder more, and it can be read. -/
def getPathOf (paths : List (String × Json)) (path : String) : Option String :=
  (paths.find? fun (p, item) =>
    Text.startsWith (path ++ "/\x7b") p && Text.endsWith "\x7d" p &&
      placeholderCount p == placeholderCount path + 1 && (item.get "get").isSome).map Prod.fst

def collectListKinds (doc : Document) : List KindModel :=
  doc.paths.filterMap fun (path, item) =>
    if Text.endsWith "\x7d" path then none
    else
      match item.get "get" with
      | none => none
      | some get =>
          if listsACollection doc.schemas get then
            some { listPath := path, getPath := getPathOf doc.paths path,
                   schema := (listItemSchema doc.schemas get).getD "" }
          else none

/-- The first of `stem~n`, `stem~n+1`, … that is not taken. -/
def freeId (taken : List String) (stem : String) : (fuel n : ℕ) → String
  | 0, n => s!"{stem}~{n}"
  | fuel + 1, n =>
      if taken.contains s!"{stem}~{n}" then freeId taken stem fuel (n + 1) else s!"{stem}~{n}"

/-- The id of a kind, given the ids that are taken. -/
def idFor (version : String) (taken : List String) (k : KindModel) : String :=
  let base :=
    if k.schema.isEmpty then pathId version k.listPath else stripVersion k.schema version
  let id := if taken.contains base then base ++ "~" ++ lastSegment k.listPath else base
  if taken.contains id then freeId taken id taken.length 2 else id

def giveIds (version : String) : (taken : List String) → List KindModel → List KindModel
  | _, [] => []
  | taken, k :: kinds =>
      let id := idFor version taken k
      { k with id } :: giveIds version (id :: taken) kinds

/-- Kinds nearer the top have their ids first. -/
def idOrder (k : KindModel) : ℕ ×ₗ ℕ ×ₗ String :=
  toLex (placeholderCount k.listPath, toLex (k.listPath.utf8ByteSize, k.listPath))

/-- Of the paths of entities the longest that begins a list path, with its kind; the first of those as long. -/
def longestPrefix (getPaths : List (String × String)) (norm : String) : Option (ℕ × String) :=
  getPaths.foldl (fun best (gp, id) =>
    if Text.startsWith (gp ++ "/") norm && best.all fun b => b.1 < gp.utf8ByteSize then
      some (gp.utf8ByteSize, id)
    else best) none

/-- The parent of a list within a path with placeholders is the kind whose entities' path is its longest
prefix. -/
def assignParents (kinds : List KindModel) : List KindModel :=
  let getPaths := kinds.filterMap fun k => k.getPath.map fun g => (normalize g, k.id)
  kinds.map fun k =>
    if Text.contains "\x7b" k.listPath then
      { k with parent := (longestPrefix getPaths (normalize k.listPath)).map Prod.snd }
    else k

/-- The kinds of a document, with their ids and their parents. -/
def listKinds (doc : Document) : List KindModel :=
  assignParents (giveIds doc.version []
    ((collectListKinds doc).insertionSort fun a b => idOrder a ≤ idOrder b))

/-! ### The actions of a kind -/

def RATE_TIERS : List String := ["xsmall", "small", "large", "xlarge", "default"]

/-- The budget of one tier of an operation. -/
def rateEntry (path : String) (e : Json) : Except String RateLimit := do
  let tier := Text.lower (((e.get "type").bind Json.asStr).getD "default")
  unless RATE_TIERS.contains tier do
    throw s!"{path}: unknown x-rate-limit tier {tier.quote}; known: {RATE_TIERS.map String.quote}"
  let perSecs ←
    match (e.get "timeUnit").bind Json.asStr with
    | some "seconds" => pure 1
    | some "minutes" => pure 60
    | some other => throw s!"{path}: unknown x-rate-limit timeUnit Some({other.quote})"
    | none => throw s!"{path}: unknown x-rate-limit timeUnit None"
  let count :=
    match (e.get "count").bind asU64 with
    | some c => max (min c (2 ^ 32 - 1)) 1
    | none => 1
  return { count, perSecs }

/-- The tightest tier of an operation. -/
def rateOf (item op : Json) (path : String) : Except String RateLimit :=
  match ((op.get "x-rate-limit").or (item.get "x-rate-limit")).bind Json.asArray with
  | none => .ok .default
  | some entries => do
      let best ← entries.foldlM
        (fun best e => do
          let candidate ← rateEntry path e
          return if best.all candidate.tighterThan then some candidate else best)
        (none : Option RateLimit)
      return best.getD .default

/-- One operation of the document as an action. -/
def action (schemas : Json) (name path : String) (method : Method) (item op : Json) :
    Except String ActionModel := do
  let declaresIfMatch := ((op.get "parameters").bind Json.asArray).any fun ps =>
    ps.any fun p => (p.get "name").bind Json.asStr == some "If-Match"
  let entityAction := method = .post && Text.contains "/$actions/" path && Text.contains "\x7b" path
  let needsEtag := [Method.put, .patch, .delete].contains method || entityAction ||
    (declaresIfMatch && method != .post)
  let rate ← rateOf item op path
  return { name, path, method, needsEtag, form := formFor schemas op, rate }

/-- An operation: the name of the action it becomes, its path, its method and what the document says. -/
structure Operation where
  name : String
  path : String
  method : Method
  item : Json
  op : Json

def Operation.action (schemas : Json) (o : Operation) : Except String ActionModel :=
  Generator.action schemas o.name o.path o.method o.item o.op

/-- The mutations on a list path and on the path of an entity, and the actions below the latter. -/
def ownOperations (paths : List (String × Json)) (listPath : String) (getPath : Option String) :
    List Operation :=
  let create := (paths.lookup listPath).bind fun item =>
    (item.get "post").map fun op => { name := "create", path := listPath, method := .post, item, op }
  match getPath with
  | none => create.toList
  | some gp =>
      let mutations := [("update", Method.put, "put"), ("patch", .patch, "patch"),
        ("delete", .delete, "delete")].filterMap fun (name, method, key) =>
          (paths.lookup gp).bind fun item =>
            (item.get key).map fun op => { name, path := gp, method, item, op }
      let pre := normalize gp ++ "/$actions/"
      let below := paths.filterMap fun (p, item) =>
        if Text.startsWith pre (normalize p) then
          let rest := String.ofList ((normalize p).toList.drop pre.length)
          if Text.contains "/" rest then none
          else (item.get "post").map fun op => { name := rest, path := p, method := .post, item, op }
        else none
      create.toList ++ mutations ++ below

def sortByName (actions : List ActionModel) : List ActionModel :=
  actions.insertionSort fun a b => a.name ≤ b.name

def actionsFor (schemas : Json) (paths : List (String × Json)) (listPath : String) (getPath : Option String) :
    Except String (List ActionModel) := do
  let actions ← (ownOperations paths listPath getPath).mapM (Operation.action schemas)
  return sortByName actions

/-- Whether the path an ETag is read at has the placeholders of an action's path. -/
def fetchable (getPath : Option String) (a : ActionModel) : Bool :=
  getPath.map placeholderCount == some (placeholderCount a.path)

/-- A kind without the flags of the ETags that cannot be fetched. -/
def clearUnfetchableEtags (k : KindModel) : KindModel :=
  { k with actions := k.actions.map fun a =>
    { a with needsEtag := a.needsEtag && fetchable k.getPath a } }

/-- The budget of reading a list. -/
def listRate (paths : List (String × Json)) (listPath : String) : Except String RateLimit :=
  match paths.lookup listPath with
  | none => .ok .default
  | some item =>
      match item.get "get" with
      | none => .ok .default
      | some op => rateOf item op listPath

/-- A kind with the actions on its own paths. -/
def withActions (doc : Document) (k : KindModel) : Except String KindModel := do
  let actions ← actionsFor doc.schemas doc.paths k.listPath k.getPath
  let k := clearUnfetchableEtags { k with actions }
  let rate ← listRate doc.paths k.listPath
  return { k with rate }

/-! ### The actions below other paths -/

/-- Whether the entities of a kind are read at a path with these last two segments. -/
def owns (tail : String) (k : KindModel) : Bool := k.getPath.bind trailingTwo == some tail

/-- A kind with one action more. -/
def attach (a : ActionModel) (k : KindModel) : KindModel :=
  let k := clearUnfetchableEtags { k with actions := k.actions ++ [a] }
  { k with actions := sortByName k.actions }

/-- The action a path is, if it is one below a path. -/
def orphanOf (path : String) (item : Json) : Option (String × Operation) :=
  (Text.splitOnce "/$actions/" path).bind fun (pre, name) =>
    if Text.contains "/" name then none
    else (item.get "post").map fun op => (pre, { name, path, method := .post, item, op })

/-- An action below a path goes to the only kind that owns it, or is left. -/
def place (pre : String) (a : ActionModel) (state : List KindModel × List ActionModel) :
    List KindModel × List ActionModel :=
  let (kinds, orphans) := state
  match trailingTwo pre with
  | none => (kinds, orphans ++ [a])
  | some tail =>
      match kinds.filter (owns tail) with
      | [_] => (kinds.map fun k => if owns tail k then attach a k else k, orphans)
      | _ => (kinds, orphans ++ [a])

def attachStep (schemas : Json) (claimed : List String) (state : List KindModel × List ActionModel)
    (path : String × Json) : Except String (List KindModel × List ActionModel) :=
  if claimed.contains path.1 then .ok state
  else
    match orphanOf path.1 path.2 with
    | none => .ok state
    | some (pre, operation) => do
        let a ← operation.action schemas
        return place pre a state

/-- The paths of the actions the kinds have. -/
def claimedPaths (kinds : List KindModel) : List String :=
  kinds.flatMap fun k => k.actions.map ActionModel.path

def attachOrphanActions (schemas : Json) (paths : List (String × Json)) (kinds : List KindModel) :
    Except String (List KindModel × List ActionModel) := do
  let (kinds, orphans) ← paths.foldlM (attachStep schemas (claimedPaths kinds)) (kinds, [])
  return (kinds, orphans.insertionSort fun a b => a.path ≤ b.path)

/-- The kinds of a document with their actions, and the actions no kind has. -/
def parseNamespaceFull (doc : Document) : Except String (List KindModel × List ActionModel) := do
  let kinds ← (listKinds doc).mapM (withActions doc)
  let (kinds, unattached) ← attachOrphanActions doc.schemas doc.paths kinds
  return (kinds.insertionSort fun a b => a.id ≤ b.id, unattached)

/-! ### References between kinds -/

/-- The kind of the entities of a schema, by its short name: none when several schemas have the name.  Of the
kinds of one schema it is the first that is no nested view. -/
def resolveReference (kinds : List KindModel) (short : String) : Option String :=
  let last := afterDot short
  let bare := (Text.stripSuffix "Reference" last).getD last
  match kinds.filter fun k => afterDot k.schema == bare with
  | [] => none
  | first :: hits =>
      if (first :: hits).any fun k => k.schema != first.schema then none
      else ((first :: hits).find? fun k => !Text.contains "~" k.id).map KindModel.id

def resolveField (kinds : List KindModel) (f : FieldModel) : FieldModel :=
  match f.ty with
  | .reference (some short) => { f with ty := .reference (resolveReference kinds short) }
  | _ => f

/-- The kinds with the schemas their forms refer to as the kinds of these. -/
def resolveFieldReferences (kinds : List KindModel) : List KindModel :=
  kinds.map fun k =>
    { k with actions := k.actions.map fun a => { a with form := a.form.map (resolveField kinds) } }

end Nutsh.Generator
