/-
The properties a list is narrowed to.

A list asks for the top-level properties its rows are read for, and for nothing else.  The generator
collects them from the catalog entry of a kind: what identifies and names a row, the columns of the table
and of the panes of the pages, the addresses a term is looked for in, the property the change probe is
ordered by, the paths an action takes its parents from, and whether a task may be cancelled.  A reader of a
row goes through its top level by one key, so a row narrowed to these properties is read alike as long as
the keys of the readers are among them.

* `KindModel`, `KindModel.wanted`, `KindModel.selected` — what the generator knows of a kind, the
  properties its rows are read for, and those a list asks for;
* `apply` — the kinds with what their lists ask for;
* `Json.narrow` — a row with the selected properties only;
* `renderJson`, `Entity.probeStamp`, `Kind.drawn`, `PaneModel.drawn` — what else is read off a row;
* `ReadAlike` — two rows are the same to every reader;
* `Path.get_congr` — a dotted path reads one key of the top level;
* `narrowed` — a narrowed row is read as the whole one.
-/
import Mathlib.Data.List.Dedup
import Mathlib.Data.List.Sort
import Mathlib.Data.List.TakeWhile
import Nutsh.Actions
import Nutsh.Search

set_option relaxedAutoImplicit false
set_option autoImplicit false

/-! ### The top level of a document -/

namespace Json

/-- A document with some of its properties only. -/
def narrow (keys : List String) : Json → Json
  | .obj members => .obj (members.filter fun m => m.1 ∈ keys)
  | v => v

theorem get_narrow (keys : List String) (v : Json) (key : String) :
    (v.narrow keys).get key = if key ∈ keys then v.get key else none := by
  cases v with
  | obj members =>
      rw [narrow, get, get]
      induction members with
      | nil => simp
      | cons m members ih =>
          obtain ⟨name, value⟩ := m
          rw [List.filter_cons]
          by_cases hkey : key = name
          · subst hkey
            by_cases hmem : key ∈ keys
            · simp [hmem]
            · rw [if_neg (by simpa using hmem), ih, if_neg hmem, if_neg hmem]
          · have hbeq : (key == name) = false := by simpa using hkey
            by_cases hmem : name ∈ keys
            · simp [hmem, List.lookup_cons, hbeq, ih]
            · simp [hmem, List.lookup_cons, hbeq, ih]
  | null | bool | num | str | arr => simp [narrow, get]

/-- An object carries the keys of its members. -/
theorem mem_keys_of_get {members : List (String × Json)} {key : String} (h : (obj members).get key ≠ none) :
    key ∈ members.map Prod.fst := by
  by_contra hnot
  refine h (List.lookup_eq_none_iff.2 fun m hm => ?_)
  have hne : key ≠ m.1 := fun heq => hnot (heq ▸ List.mem_map_of_mem hm)
  simpa using hne

end Json

namespace Nutsh

namespace Path

/-- The key of the top level a dotted path goes through. -/
def firstKey (path : String) : String :=
  let segment := (Text.splitChar '.' path).head?.getD ""
  (Text.stripSuffix "[]" segment).getD segment

theorem child_congr {segment : String} {v w : Json}
    (h : v.get ((Text.stripSuffix "[]" segment).getD segment) =
      w.get ((Text.stripSuffix "[]" segment).getD segment)) : child segment v = child segment w := by
  rw [child, child]
  cases hs : Text.stripSuffix "[]" segment with
  | none =>
      rw [hs, Option.getD_none] at h
      simp only [h]
  | some key =>
      rw [hs, Option.getD_some] at h
      simp only [h]

/-- A dotted path reads a document through one key of its top level. -/
theorem get_congr {path : String} {v w : Json} (hne : path ≠ "")
    (h : v.get (firstKey path) = w.get (firstKey path)) : get v path = get w path := by
  rw [get, get, if_neg hne, if_neg hne]
  cases hsplit : Text.splitChar '.' path with
  | nil =>
      have : Text.splitChar '.' path ≠ [] := by simp [Text.splitChar, List.splitOn_ne_nil]
      exact absurd hsplit this
  | cons segment rest =>
      rw [firstKey, hsplit, List.head?_cons, Option.getD_some] at h
      simp only [List.foldl_cons, List.flatMap_singleton, child_congr h]

end Path

/-! ### What the generator knows -/

/-- A kind as the generator models it: its entry in the catalog, and what is not written into it. -/
structure KindModel extends Kind where
  /-- The top-level properties its schema declares. -/
  properties : List String := []
  /-- Its list takes a `$select`, and the entries of what it allows there, none for anything. -/
  selectable : Bool := false
  selectFields : List String := []

/-- A pane of a page: the kind it lists, and its columns, none for the kind's own. -/
structure PaneModel where
  kind : String
  columns : List Column := []

/-- The pages, each by its panes. -/
abbrev PagesFile := List (List PaneModel)

section
variable (white : Char → Bool)

/-- A text without the white space at either end. -/
def trimmed (s : String) : String :=
  String.ofList ((s.toList.dropWhile white).reverse.dropWhile white).reverse

/-- The head of a dotted path: what stands before its first dot or bracket. -/
def root (path : String) : String :=
  trimmed white (String.ofList (path.toList.takeWhile fun c => c != '.' && c != '['))

namespace KindModel

variable (k : KindModel)

/-- The columns of the table: the curated ones replace the derived ones. -/
def shown : List Column := if k.columns.isEmpty then k.fallbackColumns else k.columns

/-- The properties the rows of a kind are read for. -/
def wanted (paneColumns : List Column) : List String :=
  k.extIdKey ::
    ((if k.namePath = "" then [] else [root white k.namePath]) ++
      nameKeys.filter (fun key => k.properties.contains key) ++
      k.shown.map (fun c => root white c.path) ++
      paneColumns.map (fun c => root white c.path) ++
      ((k.columns ++ k.fallbackColumns).filter fun c => c.kind == .ip).map (fun c => root white c.path) ++
      ((k.detail.flatMap DetailSection.fields).filter fun f => f.kind == .ip).map
        (fun f => root white f.path) ++
      (k.probeBy.map (root white)).toList ++
      k.actionParents.map (root white) ++
      if k.actions.any (fun a => a.name == "cancel") && k.properties.contains "isCancelable" then
        ["isCancelable"]
      else [])

/-- The properties an allowlist names: the heads of its entries. -/
def allowed : List String := k.selectFields.map fun f => (Text.splitChar '/' f).head?.getD f

/-- The properties a list asks for, none for all of them: a detail can only be made whole again by a GET,
what is not declared or not allowed cannot be asked for, and there must be something to save. -/
def selected (paneColumns : List Column) : Option (List String) :=
  let want := (k.wanted white paneColumns).dedup.insertionSort (· ≤ ·)
  if k.getPath.isNone || !k.selectable || k.properties.isEmpty then none
  else if want.any fun key => !k.properties.contains key then none
  else if !k.selectFields.isEmpty && want.any fun key => !k.allowed.contains key then none
  else if k.properties.dedup.length ≤ want.length then none
  else some want

def selectFor (paneColumns : List Column) : Option String :=
  (k.selected white paneColumns).map (",".intercalate)

/-- The columns the panes of the pages draw for the kind. -/
def paneColumns (pages : PagesFile) : List Column :=
  (pages.flatten.filter fun pane => pane.kind == k.id).flatMap PaneModel.columns

/-- The entry of the kind with what its list asks for. -/
def entry (pages : PagesFile) : Kind := { k.toKind with select := k.selectFor white (k.paneColumns pages) }

end KindModel

/-- The kinds with what their lists ask for. -/
def apply (kinds : List KindModel) (pages : PagesFile) : List KindModel :=
  kinds.map fun k => { k with select := k.selectFor white (k.paneColumns pages) }

end

/-- The entries that are written for the kinds. -/
theorem toKind_apply (white : Char → Bool) (kinds : List KindModel) (pages : PagesFile) :
    (apply white kinds pages).map KindModel.toKind = kinds.map fun k => k.entry white pages := by
  rw [apply, List.map_map]
  rfl

/-! ### What is read off a row -/

/-- A cell: the text, and whether it is drawn dim. -/
structure Rendered where
  text : String
  dim : Bool
  deriving DecidableEq, Repr

/-- A cell without a value. -/
def Rendered.empty : Rendered := { text := "-", dim := true }

/-- The parts of a cell: the values rendered one by one, the empty ones dropped and each text once. -/
def renderParts (scalar : Json → Rendered) : List Rendered → List Json → List Rendered
  | parts, [] => parts
  | parts, v :: values =>
      let r := scalar v
      if r.text == "" || r.text == "-" || parts.any (fun p => p.text == r.text) then
        renderParts scalar parts values
      else renderParts scalar (parts ++ [r]) values

/-- The cell of the values at a path of a document; `scalar` renders one value. -/
def renderJson (scalar : ColumnKind → Json → Rendered) (path : String) (kind : ColumnKind) (raw : Json) :
    Rendered :=
  let values := Path.get raw path
  if values.isEmpty then .empty
  else if kind = .count then
    let n := match values with
      | [.arr items] => items.length
      | many => many.length
    { text := toString n, dim := false }
  else
    match renderParts (scalar kind) [] values with
    | [] => .empty
    | first :: more =>
        if kind = .bool then { first with text := more.foldl (fun text p => text ++ p.text) first.text }
        else if more.isEmpty then first
        else { first with text := s!"{first.text} +{more.length}" }

/-- The columns a table draws, narrow or wide. -/
def Kind.drawn (kind : Kind) (wide : Bool) : List Column :=
  (if kind.columns.isEmpty then kind.fallbackColumns else kind.columns).take (if wide then 20 else 6)

/-- The columns a pane draws. -/
def PaneModel.drawn (pane : PaneModel) (kind : Kind) : List Column :=
  if pane.columns.isEmpty then kind.drawn false else pane.columns

/-- What the change probe compares of a row. -/
def Entity.probeStamp (e : Entity) : Option String :=
  (e.kind.probeBy.bind e.raw.get).bind Json.asStr

/-- Two rows of a kind are the same to every reader. -/
structure ReadAlike (catalog : Catalog) (pages : PagesFile) (kind : Kind) (e e' : Entity) : Prop where
  extId : e'.extId = e.extId
  name : e'.name = e.name
  cells : ∀ wide, ∀ c ∈ kind.drawn wide, ∀ scalar,
    renderJson scalar c.path c.kind e'.raw = renderJson scalar c.path c.kind e.raw
  panes : ∀ pane ∈ pages.flatten, pane.kind = kind.id → ∀ c ∈ pane.drawn kind, ∀ scalar,
    renderJson scalar c.path c.kind e'.raw = renderJson scalar c.path c.kind e.raw
  search : ∀ (lower : String → String) (q : Query), q.why lower e' = q.why lower e
  stamp : e'.probeStamp = e.probeStamp
  parents : ∀ action tableParents body,
    plan catalog kind e' action tableParents body = plan catalog kind e action tableParents body
  refusal : ∀ policy, ∀ action ∈ (kind.actionTarget catalog).actions, ∀ tableParents count,
    reason catalog policy kind action tableParents (some e') count =
      reason catalog policy kind action tableParents (some e) count

/-! ### Plain names -/

section
variable {white : Char → Bool} {k : KindModel} {paneColumns : List Column} {sel : List String} {raw : Json}
  {path key : String}

/-- A name that a dotted path can spell: it is not empty, has no dot and no bracket, and no white space at
either end. -/
structure Plain (white : Char → Bool) (name : String) : Prop where
  nonempty : name ≠ ""
  plain : ∀ c ∈ name.toList, c ≠ '.' ∧ c ≠ '['
  ends : trimmed white name = name

instance (white : Char → Bool) (name : String) : Decidable (Plain white name) :=
  decidable_of_iff
    (name ≠ "" ∧ (name.toList.all fun c => c != '.' && c != '[') = true ∧ trimmed white name = name)
    ⟨fun ⟨hne, hc, hends⟩ => ⟨hne, by simpa using hc, hends⟩,
      fun h => ⟨h.nonempty, by simpa using h.plain, h.ends⟩⟩

theorem head?_splitOn (l : List Char) : (l.splitOn '.').head? = some (l.takeWhile (· != '.')) := by
  induction l with
  | nil => rfl
  | cons c l ih =>
      rw [List.splitOn] at ih ⊢
      rw [List.splitOnP_cons_eq_if_modifyHead]
      by_cases hc : c = '.'
      · simp [hc]
      · cases hl : List.splitOnP (· == '.') l with
        | nil => simp [hl] at ih
        | cons segment rest =>
            rw [hl, List.head?_cons, Option.some.injEq] at ih
            simp [hc, ih]

theorem takeWhile_head (l : List Char) :
    (l.takeWhile fun c => c != '.' && c != '[') = (l.takeWhile (· != '.')).takeWhile (· != '[') := by
  induction l with
  | nil => rfl
  | cons c l ih =>
      by_cases hdot : c = '.'
      · simp [hdot]
      · by_cases hbracket : c = '['
        · simp [hbracket]
        · simp [hdot, hbracket, ih]

/-- The head of a path that goes through a plain name is that name. -/
theorem root_eq_firstKey (h : Plain white (Path.firstKey path)) : root white path = Path.firstKey path := by
  have hhead : Path.firstKey path =
      (Text.stripSuffix "[]" (String.ofList (path.toList.takeWhile (· != '.')))).getD
        (String.ofList (path.toList.takeWhile (· != '.'))) := by
    rw [Path.firstKey, Text.splitChar, List.head?_map, head?_splitOn]
    rfl
  generalize hseg : path.toList.takeWhile (· != '.') = segment at hhead
  suffices hroot : segment.takeWhile (· != '[') = (Path.firstKey path).toList by
    rw [root, takeWhile_head, hseg, hroot, String.ofList_toList, h.ends]
  have hbare : ∀ c ∈ (Path.firstKey path).toList, (c != '[') = true := by
    intro c hc
    simpa using (h.plain c hc).2
  rw [hhead, Text.stripSuffix] at hbare ⊢
  split at hbare
  · next hsuffix =>
      -- the segment goes into the items of an array
      rw [if_pos hsuffix]
      obtain ⟨name, hname⟩ := List.isSuffixOf_iff_suffix.1 hsuffix
      have hlist : "[]".toList = ['[', ']'] := rfl
      have hseg' : name ++ ['[', ']'] = segment := hname.trans String.toList_ofList
      subst hseg'
      simp only [ String.toList_ofList, Option.getD_some, List.length_append, Nat.add_sub_cancel,
        List.take_left, hlist] at hbare ⊢
      rw [List.takeWhile_append_of_pos hbare]
      simp
  · next hsuffix =>
      rw [if_neg hsuffix, Option.getD_none, String.toList_ofList]
      rw [Option.getD_none, String.toList_ofList] at hbare
      exact List.takeWhile_eq_self_iff.2 hbare

/-- The head of a plain name is the name. -/
theorem root_eq_self {name : String} (h : Plain white name) : root white name = name := by
  have htake : (name.toList.takeWhile fun c => c != '.' && c != '[') = name.toList := by
    refine List.takeWhile_eq_self_iff.2 fun c hc => ?_
    simpa using h.plain c hc
  rw [root, htake, String.ofList_toList, h.ends]

/-! ### A narrowed row -/

theorem findSome?_congr {α β : Type*} {l : List α} {f g : α → Option β} (h : ∀ a ∈ l, f a = g a) :
    l.findSome? f = l.findSome? g := by
  induction l with
  | nil => rfl
  | cons a l ih =>
      rw [List.findSome?_cons, List.findSome?_cons, h a List.mem_cons_self,
        ih fun b hb => h b (List.mem_cons_of_mem a hb)]

theorem mapM_congr {α β : Type*} {l : List α} {f g : α → Option β} (h : ∀ a ∈ l, f a = g a) :
    l.mapM f = l.mapM g := by
  induction l with
  | nil => rfl
  | cons a l ih =>
      rw [List.mapM_cons, List.mapM_cons, h a List.mem_cons_self,
        ih fun b hb => h b (List.mem_cons_of_mem a hb)]

/-- What a list asks for is what the rows are read for, all of it declared and allowed. -/
theorem of_selected (h : k.selected white paneColumns = some sel) :
    (∀ key, key ∈ sel ↔ key ∈ k.wanted white paneColumns) ∧
      ∀ key ∈ sel, key ∈ k.properties ∧ (k.selectFields ≠ [] → key ∈ k.allowed) := by
  rw [KindModel.selected] at h
  split at h
  · cases h
  · split at h
    · cases h
    · next hdeclared =>
        split at h
        · cases h
        · next hallowed =>
            split at h
            · cases h
            · obtain rfl := Option.some.inj h
              refine ⟨fun key => by rw [List.mem_insertionSort, List.mem_dedup], fun key hkey => ⟨?_, ?_⟩⟩
              · by_contra hnot
                exact hdeclared (List.any_eq_true.2 ⟨key, hkey, by simpa using hnot⟩)
              · intro hfields
                by_contra hnot
                refine hallowed (Bool.and_eq_true_iff.2 ⟨by simpa using hfields, ?_⟩)
                exact List.any_eq_true.2 ⟨key, hkey, by simpa using hnot⟩

/-- A row of declared, plainly named properties, narrowed to what its kind is read for. -/
structure Narrowing (white : Char → Bool) (k : KindModel) (paneColumns : List Column) (sel : List String)
    (raw : Json) : Prop where
  selected : k.selected white paneColumns = some sel
  declared : ∀ key, raw.get key ≠ none → key ∈ k.properties
  plain : ∀ key ∈ k.properties, Plain white key ∧ key ≠ "$context"
  own : k.id = taskKindId → k.actionKind = none

namespace Narrowing

variable (h : Narrowing white k paneColumns sel raw)
include h

theorem mem_of_wanted (hkey : key ∈ k.wanted white paneColumns) : key ∈ sel :=
  ((of_selected h.selected).1 key).2 hkey

/-- A key that is selected, or that no row carries, is read alike. -/
theorem get_eq (hkey : key ∈ k.properties → key ∈ sel) : (raw.narrow sel).get key = raw.get key := by
  rw [Json.get_narrow]
  split
  · rfl
  · next hnot =>
      by_contra hne
      exact hnot (hkey (h.declared key fun hnone => hne hnone.symm))

/-- A path whose head is wanted is read alike. -/
theorem path_eq (hpath : root white path ∈ k.wanted white paneColumns) :
    Path.get (raw.narrow sel) path = Path.get raw path := by
  have hsel := h.mem_of_wanted hpath
  have hroot : Plain white (root white path) := (h.plain _ ((of_selected h.selected).2 _ hsel).1).1
  refine Path.get_congr ?_ (h.get_eq fun hdeclared => ?_)
  · -- the head of the empty path is empty
    rintro rfl
    exact hroot.nonempty rfl
  · rw [← root_eq_firstKey (h.plain _ hdeclared).1]
    exact hsel

theorem cell_eq {c : Column} (hc : root white c.path ∈ k.wanted white paneColumns)
    (scalar : ColumnKind → Json → Rendered) :
    renderJson scalar c.path c.kind (raw.narrow sel) = renderJson scalar c.path c.kind raw := by
  rw [renderJson, renderJson, h.path_eq hc]

theorem extIdOf_eq : Entity.extIdOf k.toKind (raw.narrow sel) = Entity.extIdOf k.toKind raw := by
  rw [Entity.extIdOf, Entity.extIdOf, h.get_eq fun _ => h.mem_of_wanted (by simp [KindModel.wanted])]

theorem nameOf_eq : Entity.nameOf k.toKind (raw.narrow sel) = Entity.nameOf k.toKind raw := by
  have hpath : k.namePath ≠ "" →
      Path.first (raw.narrow sel) k.namePath = Path.first raw k.namePath := by
    intro hne
    rw [Path.first, Path.first, h.path_eq (by simp [KindModel.wanted, hne])]
  have hkeys : (nameKeys.findSome? fun key => ((raw.narrow sel).get key).bind Json.asStr) =
      nameKeys.findSome? fun key => (raw.get key).bind Json.asStr := by
    refine findSome?_congr fun key hkey => ?_
    rw [h.get_eq fun hdeclared => h.mem_of_wanted (by simp [KindModel.wanted, hkey, hdeclared])]
  rw [Entity.nameOf, Entity.nameOf, hkeys, h.extIdOf_eq]
  by_cases hne : k.namePath = ""
  · simp only [hne, if_true]
  · simp only [hne, if_false, hpath hne]

variable {pages : PagesFile} {catalog : Catalog} {etag : Option String}

theorem parentAt_eq {p : String} (hp : p ∈ k.actionParents) :
    parentAt (.new (k.entry white pages) (raw.narrow sel) etag) p =
      parentAt (.new (k.entry white pages) raw etag) p := by
  have hwanted : root white p ∈ k.wanted white paneColumns := by
    simp only [KindModel.wanted, List.mem_cons, List.mem_append, List.mem_map]
    exact .inr (.inl (.inr ⟨p, hp, rfl⟩))
  rw [parentAt, parentAt, Path.first, Path.first]
  exact congrArg (fun values : List Json => values.head?.bind Json.asStr) (h.path_eq hwanted)

theorem addressesOf_eq : Query.addressesOf (.new (k.entry white pages) (raw.narrow sel) etag) =
    Query.addressesOf (.new (k.entry white pages) raw etag) := by
  rw [Query.addressesOf, Query.addressesOf]
  refine List.flatMap_congr fun a ha => ?_
  have hwanted : root white a.2 ∈ k.wanted white paneColumns := by
    simp only [KindModel.wanted, List.mem_cons, List.mem_append, List.mem_map]
    -- an address is kept in a column of either set or in a field of the detail
    obtain ha | ha := List.mem_append.1 ha
    · obtain ⟨c, hc, rfl⟩ := List.mem_map.1 ha
      exact .inr (.inl (.inl (.inl (.inl (.inr ⟨c, hc, rfl⟩)))))
    · obtain ⟨f, hf, rfl⟩ := List.mem_map.1 ha
      exact .inr (.inl (.inl (.inl (.inr ⟨f, hf, rfl⟩))))
  exact congrArg (fun values : List Json => (values.filterMap Json.asStr).map fun value => (a.1, value))
    (h.path_eq hwanted)

theorem why_eq (lower : String → String) (q : Query) :
    q.why lower (.new (k.entry white pages) (raw.narrow sel) etag) =
      q.why lower (.new (k.entry white pages) raw etag) := by
  have hname : (Entity.new (k.entry white pages) (raw.narrow sel) etag).name =
      (Entity.new (k.entry white pages) raw etag).name := h.nameOf_eq
  have hextId : (Entity.new (k.entry white pages) (raw.narrow sel) etag).extId =
      (Entity.new (k.entry white pages) raw etag).extId := h.extIdOf_eq
  have hcontext : (Entity.new (k.entry white pages) (raw.narrow sel) etag).raw.get "$context" =
      (Entity.new (k.entry white pages) raw etag).raw.get "$context" :=
    h.get_eq fun hdeclared => absurd rfl (h.plain _ hdeclared).2
  rw [Query.why, Query.why, hname, hextId, hcontext, h.addressesOf_eq]

theorem probeStamp_eq : (Entity.new (k.entry white pages) (raw.narrow sel) etag).probeStamp =
    (Entity.new (k.entry white pages) raw etag).probeStamp := by
  rw [Entity.probeStamp, Entity.probeStamp]
  cases hprobe : k.probeBy with
  | none => simp [Entity.new, KindModel.entry, hprobe]
  | some field =>
      have hget : (raw.narrow sel).get field = raw.get field := by
        refine h.get_eq fun hdeclared => h.mem_of_wanted ?_
        rw [← root_eq_self (h.plain _ hdeclared).1]
        simp [KindModel.wanted, hprobe]
      simp [Entity.new, KindModel.entry, hprobe, hget]

theorem cancelable_eq {action : Action} (hcancel : action.name = "cancel") (haction : action ∈ k.actions) :
    cancelable (some (.new (k.entry white pages) (raw.narrow sel) etag)) =
      cancelable (some (.new (k.entry white pages) raw etag)) := by
  have hget : (raw.narrow sel).get "isCancelable" = raw.get "isCancelable" := by
    refine h.get_eq fun hdeclared => h.mem_of_wanted ?_
    have hany : (k.actions.any fun a => a.name == "cancel") = true :=
      List.any_eq_true.2 ⟨action, haction, by simpa using hcancel⟩
    simp only [KindModel.wanted, hany, List.mem_cons, List.mem_append]
    exact .inr (.inr (by simp [hdeclared]))
  simp only [cancelable, Entity.new, hget]

theorem plan_eq (action : Action) (tableParents : List String) (body : Option Json) :
    plan catalog (k.entry white pages) (.new (k.entry white pages) (raw.narrow sel) etag) action tableParents
        body =
      plan catalog (k.entry white pages) (.new (k.entry white pages) raw etag) action tableParents body := by
  have hname : (Entity.new (k.entry white pages) (raw.narrow sel) etag).name =
      (Entity.new (k.entry white pages) raw etag).name := h.nameOf_eq
  have hextId : (Entity.new (k.entry white pages) (raw.narrow sel) etag).extId =
      (Entity.new (k.entry white pages) raw etag).extId := h.extIdOf_eq
  have hparents : (k.entry white pages).actionParents.mapM
        (parentAt (.new (k.entry white pages) (raw.narrow sel) etag)) =
      (k.entry white pages).actionParents.mapM (parentAt (.new (k.entry white pages) raw etag)) :=
    mapM_congr fun p hp => h.parentAt_eq hp
  rw [plan, plan, hparents, hname, hextId]

theorem reason_eq (policy : Policy) {action : Action}
    (haction : action ∈ ((k.entry white pages).actionTarget catalog).actions) (tableParents : List String)
    (count : ℕ) :
    reason catalog policy (k.entry white pages) action tableParents
        (some (.new (k.entry white pages) (raw.narrow sel) etag)) count =
      reason catalog policy (k.entry white pages) action tableParents
        (some (.new (k.entry white pages) raw etag)) count := by
  have hsupplied : supplied (k.entry white pages) tableParents
        (some (.new (k.entry white pages) (raw.narrow sel) etag)) =
      supplied (k.entry white pages) tableParents (some (.new (k.entry white pages) raw etag)) := by
    rw [supplied, supplied]
    congr 2
    refine List.filter_congr fun p hp => ?_
    rw [Option.any_some, Option.any_some, h.parentAt_eq hp]
  have hcancel : ((k.entry white pages).id == taskKindId && action.name == "cancel" &&
        !cancelable (some (.new (k.entry white pages) (raw.narrow sel) etag))) =
      ((k.entry white pages).id == taskKindId && action.name == "cancel" &&
        !cancelable (some (.new (k.entry white pages) raw etag))) := by
    by_cases htask : k.id = taskKindId
    · by_cases hname : action.name = "cancel"
      · -- the task kind runs its own actions
        have hown : (k.entry white pages).actionKind = none := h.own htask
        rw [Kind.actionTarget, hown] at haction
        rw [h.cancelable_eq hname haction]
      · rw [beq_eq_false_iff_ne.2 hname, Bool.and_false, Bool.false_and, Bool.false_and]
    · have hid : (k.entry white pages).id ≠ taskKindId := htask
      rw [beq_eq_false_iff_ne.2 hid, Bool.false_and, Bool.false_and, Bool.false_and]
  rw [reason, reason, hsupplied, hcancel]

end Narrowing

/-- **A narrowed row is read as the whole one**, and all that a list asks for is declared and allowed: for
every kind whose declared properties have plain names, none of them the key the application stamps on the
rows of several contexts, and a task kind whose actions are its own. -/
theorem narrowed (catalog : Catalog) (pages : PagesFile) (etag : Option String)
    (h : Narrowing white k (k.paneColumns pages) sel raw) :
    ReadAlike catalog pages (k.entry white pages) (.new (k.entry white pages) raw etag)
        (.new (k.entry white pages) (raw.narrow sel) etag) ∧
      ∀ key ∈ sel, key ∈ k.properties ∧ (k.selectFields ≠ [] → key ∈ k.allowed) := by
  have hdrawn : ∀ wide, ∀ c ∈ (k.entry white pages).drawn wide, ∀ scalar,
      renderJson scalar c.path c.kind (raw.narrow sel) = renderJson scalar c.path c.kind raw := by
    intro wide c hc scalar
    have hshown : c ∈ k.shown := List.mem_of_mem_take hc
    refine h.cell_eq ?_ scalar
    simp only [KindModel.wanted, List.mem_cons, List.mem_append, List.mem_map]
    exact .inr (.inl (.inl (.inl (.inl (.inl (.inl (.inr ⟨c, hshown, rfl⟩)))))))
  refine ⟨?_, (of_selected h.selected).2⟩
  constructor
  case extId => exact h.extIdOf_eq
  case name => exact h.nameOf_eq
  case cells => exact hdrawn
  case panes =>
    intro pane hpane hkind c hc scalar
    rw [PaneModel.drawn] at hc
    split at hc
    · exact hdrawn false c hc scalar
    · refine h.cell_eq ?_ scalar
      have hmem : c ∈ k.paneColumns pages :=
        List.mem_flatMap.2 ⟨pane, List.mem_filter.2 ⟨hpane, by simpa [KindModel.entry] using hkind⟩, hc⟩
      simp only [KindModel.wanted, List.mem_cons, List.mem_append, List.mem_map]
      exact .inr (.inl (.inl (.inl (.inl (.inl (.inr ⟨c, hmem, rfl⟩))))))
  case search => exact fun lower q => h.why_eq lower q
  case stamp => exact h.probeStamp_eq
  case parents => exact fun action tableParents body => h.plan_eq action tableParents body
  case refusal =>
    intro policy action haction tableParents count
    exact h.reason_eq policy haction tableParents count

/-- A machine narrowed to its id and its name is read as the whole one. -/
theorem narrowed_machine :
    let k : KindModel := { vmKind with properties := ["extId", "name", "disks"], selectable := true }
    let raw : Json := .obj [("extId", .str "1"), ("name", .str "web"), ("disks", .arr [])]
    ReadAlike [] [] (k.entry Char.isWhitespace []) (.new (k.entry Char.isWhitespace []) raw none)
        (.new (k.entry Char.isWhitespace []) (raw.narrow ["extId", "name"]) none) ∧
      ∀ key ∈ ["extId", "name"], key ∈ k.properties ∧ (k.selectFields ≠ [] → key ∈ k.allowed) := by
  intro k raw
  refine narrowed [] [] none ⟨by decide +kernel, fun key hkey => ?_, by decide +kernel, ?_⟩
  · exact Json.mem_keys_of_get hkey
  · exact fun hid => absurd hid (by decide)

/-- A kind that declares the key of the context, one whose columns go through a name with a bracket, and a
task kind that borrows its cancel action: each loses something its rows are read for. -/
theorem not_narrowed :
    (∃ (k : KindModel) (sel : List String) (raw : Json),
      k.selected Char.isWhitespace (k.paneColumns []) = some sel ∧
        (∀ key, raw.get key ≠ none → key ∈ k.properties) ∧
        ¬ ReadAlike [] [] (k.entry Char.isWhitespace []) (.new (k.entry Char.isWhitespace []) raw none)
          (.new (k.entry Char.isWhitespace []) (raw.narrow sel) none)) ∧
    (∃ (k : KindModel) (sel : List String) (raw : Json),
      k.selected Char.isWhitespace (k.paneColumns []) = some sel ∧
        (∀ key, raw.get key ≠ none → key ∈ k.properties) ∧ "$context" ∉ k.properties ∧
        ¬ ReadAlike [] [] (k.entry Char.isWhitespace []) (.new (k.entry Char.isWhitespace []) raw none)
          (.new (k.entry Char.isWhitespace []) (raw.narrow sel) none)) ∧
    ∃ (k : KindModel) (catalog : Catalog) (sel : List String) (raw : Json),
      k.selected Char.isWhitespace (k.paneColumns []) = some sel ∧
        (∀ key, raw.get key ≠ none → key ∈ k.properties) ∧
        (∀ key ∈ k.properties, Plain Char.isWhitespace key ∧ key ≠ "$context") ∧
        ¬ ReadAlike catalog [] (k.entry Char.isWhitespace []) (.new (k.entry Char.isWhitespace []) raw none)
          (.new (k.entry Char.isWhitespace []) (raw.narrow sel) none) := by
  refine ⟨?_, ?_, ?_⟩
  · let k : KindModel :=
      { vmKind with properties := ["extId", "name", "$context", "disks"], selectable := true }
    let raw : Json := .obj [("extId", .str "1"), ("name", .str "web"), ("$context", .str "west")]
    refine ⟨k, ["extId", "name"], raw, by decide +kernel, fun key hkey => ?_, fun h => ?_⟩
    · exact (by decide +kernel : ∀ key ∈ ["extId", "name", "$context"], key ∈ k.properties) key
        (Json.mem_keys_of_get hkey)
    · exact absurd (h.search Text.lower (Query.new Text.lower "west")) (by decide +kernel)
  · let k : KindModel :=
      { vmKind with
        properties := ["extId", "name", "a", "a[b", "disks"], selectable := true
        columns := [{ header := "B", path := "a[b" }] }
    let raw : Json := .obj [("extId", .str "1"), ("a[b", .str "2")]
    refine ⟨k, ["a", "extId", "name"], raw, by decide +kernel, fun key hkey => ?_, by decide +kernel,
      fun h => ?_⟩
    · exact (by decide +kernel : ∀ key ∈ ["extId", "a[b"], key ∈ k.properties) key
        (Json.mem_keys_of_get hkey)
    · exact absurd (h.cells false { header := "B", path := "a[b" } (by decide +kernel)
        fun _ v => { text := v.asStr.getD "", dim := false }) (by decide +kernel)
  · let cancel : Action :=
      { name := "cancel", path := "/x/v4.0/config/jobs/{extId}/$actions/cancel", method := .post
        scope := ["extId"] }
    let jobs : Kind := { id := "x.config.Job", actions := [cancel] }
    let k : KindModel :=
      { id := taskKindId, getPath := some "/prism/v4.0/config/tasks/{extId}", actionKind := some "x.config.Job"
        properties := ["extId", "name", "isCancelable", "steps"], selectable := true }
    let raw : Json := .obj [("extId", .str "1"), ("isCancelable", .bool true)]
    have hextId : Plain Char.isWhitespace "extId" := by decide +kernel
    have hname : Plain Char.isWhitespace "name" := by decide +kernel
    have hcancelable : Plain Char.isWhitespace "isCancelable" := by decide +kernel
    have hsteps : Plain Char.isWhitespace "steps" := by decide +kernel
    refine ⟨k, [jobs], ["extId", "name"], raw, by decide +kernel, fun key hkey => ?_, ?_, fun h => ?_⟩
    · exact (by decide +kernel : ∀ key ∈ ["extId", "isCancelable"], key ∈ k.properties) key
        (Json.mem_keys_of_get hkey)
    · simp [k, hextId, hname, hcancelable, hsteps]
    · exact absurd (h.refusal { session := {}, guardrails := {}, canI := {} } cancel (by decide +kernel) [] 1)
        (by decide +kernel)

end

end Nutsh
