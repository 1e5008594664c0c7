/-
The lists a mock server answers, and a client that walks them.

A list is narrowed to the rows a filter matches, ordered by one property, cut down to the properties that are
selected, and then answered page by page with the number of all of its rows.  A client that asks for the pages
of one list one after another reads them out of the bodies of the answers, and has, when there is none left,
the rows that were to be listed, each once and in their order.

Main definitions:

* `Shared`, `Shared.rows`, `Shared.getList` — the server, the rows of a list as they are answered, and an answer;
* `Client.query`, `Envelope.listItems`, `Client.listPage` — what a client asks for, and what it reads.

Main results:

* `listPage_eq` — a page is the page of the rows, with their number;
* `listAll_rows` — all pages of a list are all of its rows.
-/
import Nutsh.Mock.Filter
import Nutsh.Prism.Listing
import Nutsh.Lib.Text
import Mathlib.Data.List.Sort

set_option relaxedAutoImplicit false
set_option autoImplicit false

namespace Nutsh.Mock

open Prism (PrismError Page listAll pageLimit)

variable {F : Doubles}

/-! ### The server -/

/-- What a mock server is built with: what it honours, the totals it miscounts, its lists and the catalog. -/
structure Shared where
  filters : Bool := false
  sorts : Bool := false
  narrows : Bool := false
  miscounts : List (String × ℕ) := []
  lists : List (String × List Json) := []
  kinds : List Kind := []

/-- The parameters of a request. -/
abbrev Params := List (String × String)

/-- The value of the first parameter of a name. -/
def Params.raw (query : Params) (key : String) : Option String := (query.find? fun p => p.1 == key).map Prod.snd

/-- A number in decimal, with or without a sign, that fits a word. -/
def parseUsize (s : String) : Option ℕ :=
  let ds := if s.toList.head? = some '+' then s.toList.tail else s.toList
  if ds ≠ [] ∧ ds.all Char.isDigit then
    let n := Nat.ofDigitChars 10 ds 0
    if n < 2 ^ 64 then some n else none
  else none

/-- The page and its length as they are asked for: out of range is refused, not clamped. -/
def paging (query : Params) : Except String (ℕ × ℕ) := do
  let page ←
    match query.raw "$page" with
    | none => pure 0
    | some v =>
        match parseUsize v with
        | some n => pure n
        | none => .error "$page must be a non-negative integer"
  let limit ←
    match query.raw "$limit" with
    | none => pure 50
    | some v =>
        match parseUsize v with
        | some n => if 1 ≤ n ∧ n ≤ 100 then pure n else .error "$limit must be between 1 and 100"
        | none => .error "$limit must be between 1 and 100"
  return (page, limit)

/-- A path of a kind that has the shape of a requested one: a placeholder stands for any one segment. -/
def sameShape (catalogPath apiPath : String) : Bool :=
  let catalog := Text.splitChar '/' catalogPath
  let api := Text.splitChar '/' apiPath
  catalog.length == api.length && (catalog.zip api).all fun p => Text.startsWith "\x7b" p.1 || p.1 == p.2

/-- The key a row of a list is identified by. -/
def idKeyFor (kinds : List Kind) (listPath : String) : String :=
  ((kinds.find? fun k => sameShape k.listPath listPath).map Kind.extIdKey).getD "extId"

/-- A value as it is ordered by: the fraction of a second is padded to nine digits. -/
def sortKey (value : Option Json) : Option String := do
  let text ← (← value).asStr
  match Text.splitOnce "." text with
  | none => return text
  | some (head, rest) =>
      let fraction := rest.toList.takeWhile Char.isDigit
      let tail := rest.toList.dropWhile Char.isDigit
      return head ++ "." ++ String.ofList (fraction.rightpad 9 '0') ++ String.ofList tail

/-- A row before another, by the keys of a property; one that lacks it is behind those that do not. -/
def comesBefore (descending : Bool) : Option String → Option String → Bool
  | none, none => true
  | none, some _ => false
  | some _, none => true
  | some a, some b => if descending then b ≤ a else a ≤ b

/-- The words of a text. -/
def words (s : String) : List String :=
  ((s.toList.splitOnP Char.isWhitespace).filter (· ≠ [])).map String.ofList

/-- The rows in the order that is asked for: one property, either way. -/
def ordered (items : List Json) (query : Params) : List Json :=
  match query.raw "$orderby" with
  | none => items
  | some spec =>
      match words spec with
      | [] => items
      | field :: rest =>
          if 2 ≤ rest.length ∨ ',' ∈ field.toList ∨ '/' ∈ field.toList then items
          else
            let descending := rest.head?.any fun d => Text.lower d == "desc"
            items.insertionSort fun a b => comesBefore descending (sortKey (a.get field)) (sortKey (b.get field))

/-- The properties a `$select` keeps: the first segment of each path, and those that always come. -/
def kept (kinds : List Kind) (apiPath select : String) : List String :=
  let asked := (Text.splitChar ',' select).map fun f => Text.trim ((Text.splitChar '.' (Text.trim f)).headD "")
  asked.filter (· ≠ "") ++ ["$objectType", idKeyFor kinds apiPath]

/-- The rows with the properties that are asked for and no others. -/
def narrowed (kinds : List Kind) (items : List Json) (apiPath : String) (query : Params) : List Json :=
  match query.raw "$select" with
  | none => items
  | some select =>
      items.map fun item =>
        match item with
        | .obj members => .obj (members.filter fun m => (kept kinds apiPath select).contains m.1)
        | item => item

/-- The body of a page: its rows, and the number of all. -/
def listResponse (items : List Json) (page limit : ℕ) (miscount : Option ℕ) : Json :=
  let start := min (min (page * limit) (2 ^ 64 - 1)) items.length
  let stop := min (min (start + limit) (2 ^ 64 - 1)) items.length
  let total := miscount.getD items.length
  .obj [("data", .arr ((items.take stop).drop start)),
    ("metadata", .obj [("totalAvailableResults", .num (.int total)), ("flags", .arr []), ("links", .arr [])])]

/-- Why a list is not answered. -/
inductive Refused where
  | paging (message : String)
  | filter (complaint : Complaint)
  /-- No list is at the path. -/
  | unlisted

namespace Shared

variable (m : Shared) (F)

/-- The filter of a request that the server honours. -/
def filterOf (query : Params) : Except Complaint (Option (Filter F)) :=
  if m.filters then
    match query.raw "$filter" with
    | none => .ok none
    | some spec => (Filter.parse F spec).map some
  else .ok none

variable {F}

/-- The rows of a list as they are answered: narrowed first, then ordered, then cut down. -/
def rows (items : List Json) (apiPath : String) (query : Params) (filter : Option (Filter F)) : List Json :=
  let items := match filter with
    | some f => items.filter f.matches
    | none => items
  let items := if m.sorts then ordered items query else items
  if m.narrows then narrowed m.kinds items apiPath query else items

variable (F)

/-- The answer to a request for a list. -/
def getList (apiPath : String) (query : Params) : Except Refused Json :=
  match paging query with
  | .error message => .error (.paging message)
  | .ok (page, limit) =>
      match m.filterOf F query with
      | .error complaint => .error (.filter complaint)
      | .ok filter =>
          match m.lists.lookup apiPath with
          | some items => .ok (listResponse (m.rows items apiPath query filter) page limit (m.miscounts.lookup apiPath))
          | none =>
              if m.kinds.any fun k => sameShape k.listPath apiPath then
                .ok (listResponse [] page limit (m.miscounts.lookup apiPath))
              else .error .unlisted

end Shared

/-! ### The client -/

/-- The options of a list. -/
structure ListOptions where
  limit : ℕ := 50
  filter : Option String := none
  orderby : Option String := none
  select : Option String := none

namespace Client

/-- What a list is asked for with; `orderby` and `select` say whether its kind takes these. -/
def query (kind : Kind) (orderby select : Bool) (opts : ListOptions) (page : ℕ) : Params :=
  (if kind.page then [("$page", toString page)] else []) ++
  (if kind.limit then [("$limit", toString (pageLimit opts.limit))] else []) ++
  (if kind.filter then opts.filter.toList.map (("$filter", ·)) else []) ++
  (if orderby then opts.orderby.toList.map (("$orderby", ·)) else []) ++
  (if select then opts.select.toList.map (("$select", ·)) else [])

def typeName : Json → String
  | .null => "null"
  | .bool _ => "bool"
  | .num _ => "number"
  | .str _ => "string"
  | .arr _ => "array"
  | .obj _ => "object"

/-- The total an answer states, if it states one; `unread` is what the reader of JSON says of a body it cannot
read. -/
def total (unread : Json → String) (body : Json) : Except PrismError (Option ℕ) :=
  match (body.get "metadata").getD .null with
  | .null => .ok none
  | metadata@(.obj _) =>
      match (metadata.get "totalAvailableResults").getD .null with
      | .null => .ok none
      | .num (.int n) => if 0 ≤ n ∧ n < 2 ^ 64 then .ok (some n.toNat) else .error (.decode (unread body))
      | _ => .error (.decode (unread body))
  | _ => .error (.decode (unread body))

/-- The rows of an answer, and the total it states. -/
def listItems (unread : Json → String) (body : Json) : Except PrismError (List Json × Option ℕ) := do
  let total ← total unread body
  match (body.get "data").getD .null with
  | .arr items => return (items, total)
  | .null => return ([], total)
  | other => .error (.decode s!"expected a list, got {typeName other}")

/-- A page of a list of the server, asked for and read; `refusal` is what the client makes of a refusal. -/
def listPage (m : Shared) (F : Doubles) (unread : Json → String) (refusal : Refused → PrismError) (kind : Kind)
    (orderby select : Bool) (apiPath : String) (opts : ListOptions) (page : ℕ) : Except PrismError Page :=
  match m.getList F apiPath (query kind orderby select opts page) with
  | .error r => .error (refusal r)
  | .ok body => do
      let (items, total) ← listItems unread body
      return { entities := items.map (.new kind · none), total }

end Client

/-! ### A page of the rows -/

theorem parseUsize_toString {n : ℕ} (h : n < 2 ^ 64) : parseUsize (toString n) = some n := by
  have htext : (toString n).toList = Nat.toDigits 10 n := by simp [Nat.repr]
  have hdigit : ∀ c ∈ Nat.toDigits 10 n, c.isDigit = true :=
    fun c hc => Nat.isDigit_of_mem_toDigits (by decide) (by decide) hc
  have hsign : (Nat.toDigits 10 n).head? ≠ some '+' := by
    intro hhead
    exact absurd (hdigit '+' (List.mem_of_mem_head? hhead)) (by decide)
  rw [parseUsize, htext, if_neg hsign]
  simp only [Nat.ofDigitChars_ten_toDigits, if_pos h]
  exact if_pos ⟨Nat.toDigits_ne_nil, List.all_eq_true.2 hdigit⟩

variable {kind : Kind} {orderby select : Bool} {opts : ListOptions} {page : ℕ}

theorem raw_append (q r : Params) (key : String) : Params.raw (q ++ r) key = (Params.raw q key).or (Params.raw r key) := by
  rw [Params.raw, Params.raw, Params.raw, List.find?_append, Option.map_or]

theorem raw_toList (o : Option String) (name key : String) :
    Params.raw (o.toList.map ((name, ·))) key = if name = key then o else none := by
  cases o with
  | none => simp [Params.raw]
  | some v =>
      by_cases h : name = key
      · simp [Params.raw, h]
      · simp [Params.raw, h]

theorem raw_ite (b : Bool) (q : Params) (key : String) :
    Params.raw (if b then q else []) key = if b then Params.raw q key else none := by
  cases b <;> rfl

theorem raw_single (name value key : String) : Params.raw [(name, value)] key = if name = key then some value else none :=
  raw_toList (some value) name key

/-- The parameters of a list, one by one. -/
theorem raw_query (key : String) : Params.raw (Client.query kind orderby select opts page) key =
    (((((if kind.page then if "$page" = key then some (toString page) else none else none).or
      (if kind.limit then if "$limit" = key then some (toString (pageLimit opts.limit)) else none else none)).or
      (if kind.filter then if "$filter" = key then opts.filter else none else none)).or
      (if orderby then if "$orderby" = key then opts.orderby else none else none)).or
      (if select then if "$select" = key then opts.select else none else none)) := by
  simp only [Client.query, raw_append, raw_ite, raw_toList, raw_single]

/-- Only the page differs between the requests for the pages of a list. -/
theorem raw_query_zero {key : String} (h : key ≠ "$page") :
    Params.raw (Client.query kind orderby select opts page) key =
      Params.raw (Client.query kind orderby select opts 0) key := by
  rw [raw_query, raw_query, if_neg (Ne.symm h), if_neg (Ne.symm h)]

theorem pageLimit_le (n : ℕ) : pageLimit n ≤ 100 := min_le_right _ _

/-- The page and its length are read as they were written, or taken as they are where the kind takes none. -/
theorem paging_query (hfits : page < 2 ^ 64) : paging (Client.query kind orderby select opts page) =
    .ok (if kind.page then page else 0, if kind.limit then pageLimit opts.limit else 50) := by
  have hpos := Prism.pageLimit_pos opts.limit
  have hle := pageLimit_le opts.limit
  have hp : Params.raw (Client.query kind orderby select opts page) "$page" =
      if kind.page then some (toString page) else none := by
    simp [raw_query]
  have hl : Params.raw (Client.query kind orderby select opts page) "$limit" =
      if kind.limit then some (toString (pageLimit opts.limit)) else none := by
    simp [raw_query]
  have hin : 1 ≤ pageLimit opts.limit ∧ pageLimit opts.limit ≤ 100 := ⟨hpos, hle⟩
  have hread := parseUsize_toString (show pageLimit opts.limit < 2 ^ 64 by omega)
  rw [paging, hp, hl]
  cases kind.page <;> cases kind.limit <;> simp only [if_true, if_neg Bool.false_ne_true, parseUsize_toString hfits,
    hread, if_pos hin, pure_bind] <;> rfl

theorem filterOf_query (m : Shared) :
    m.filterOf F (Client.query kind orderby select opts page) =
      m.filterOf F (Client.query kind orderby select opts 0) := by
  rw [Shared.filterOf, Shared.filterOf, raw_query_zero (by decide)]

theorem rows_query (m : Shared) (items : List Json) (apiPath : String) (filter : Option (Filter F)) :
    m.rows items apiPath (Client.query kind orderby select opts page) filter =
      m.rows items apiPath (Client.query kind orderby select opts 0) filter := by
  have horder (items : List Json) : ordered items (Client.query kind orderby select opts page) =
      ordered items (Client.query kind orderby select opts 0) := by
    rw [ordered, ordered, raw_query_zero (by decide)]
  have hnarrow (items : List Json) : narrowed m.kinds items apiPath (Client.query kind orderby select opts page) =
      narrowed m.kinds items apiPath (Client.query kind orderby select opts 0) := by
    rw [narrowed, narrowed, raw_query_zero (by decide)]
  simp only [Shared.rows, horder, hnarrow]

/-- The stretch of the rows that is answered is the page of them. -/
theorem stretch_eq {rows : List Json} {page limit : ℕ} (hlen : rows.length < 2 ^ 64)
    (hstop : page * limit + limit < 2 ^ 64) :
    (rows.take (min (min (min (min (page * limit) (2 ^ 64 - 1)) rows.length + limit) (2 ^ 64 - 1)) rows.length)).drop
      (min (min (page * limit) (2 ^ 64 - 1)) rows.length) = Pages.page limit page rows := by
  rw [Pages.page, List.drop_take]
  obtain hle | hlt := Nat.le_total (page * limit) rows.length
  · have hstart : min (min (page * limit) (2 ^ 64 - 1)) rows.length = page * limit := by omega
    rw [hstart]
    obtain h | h := Nat.le_total (page * limit + limit) rows.length
    · rw [show min (min (page * limit + limit) (2 ^ 64 - 1)) rows.length - page * limit = limit by omega]
    · rw [List.take_of_length_le (by rw [List.length_drop]; omega),
        List.take_of_length_le (by rw [List.length_drop]; omega)]
  · rw [List.drop_of_length_le hlt, List.drop_of_length_le (by omega)]
    simp

/-- A page that is answered is read as the page of the rows, with their number. -/
theorem listItems_listResponse (unread : Json → String) {rows : List Json} {page limit : ℕ}
    (hlen : rows.length < 2 ^ 64) (hstop : page * limit + limit < 2 ^ 64) :
    Client.listItems unread (listResponse rows page limit none) =
      .ok (Pages.page limit page rows, some rows.length) := by
  have hmetadata : (listResponse rows page limit none).get "metadata" =
      some (.obj [("totalAvailableResults", .num (.int rows.length)), ("flags", .arr []), ("links", .arr [])]) := rfl
  have hdata : (listResponse rows page limit none).get "data" = some (.arr (Pages.page limit page rows)) := by
    rw [← stretch_eq hlen hstop]
    rfl
  have hint : (0 : ℤ) ≤ rows.length ∧ (rows.length : ℤ) < 2 ^ 64 := by omega
  have htotal : Client.total unread (listResponse rows page limit none) = .ok (some rows.length) := by
    rw [Client.total, hmetadata]
    exact if_pos hint
  rw [Client.listItems, htotal, hdata]
  rfl

section

variable {m : Shared} {unread : Json → String} {refusal : Refused → PrismError} {apiPath : String} {items : List Json}
  {filter : Option (Filter F)}

theorem length_ordered (items : List Json) (query : Params) : (ordered items query).length = items.length := by
  rw [ordered]
  split
  · rfl
  · split
    · rfl
    · split
      · rfl
      · exact List.length_insertionSort _ _

theorem length_narrowed (kinds : List Kind) (items : List Json) (apiPath : String) (query : Params) :
    (narrowed kinds items apiPath query).length = items.length := by
  rw [narrowed]
  split
  · rfl
  · exact List.length_map _

/-- Neither an order nor a selection changes the number of the rows. -/
theorem length_rows (m : Shared) (items : List Json) (apiPath : String) (query : Params) (filter : Option (Filter F)) :
    (m.rows items apiPath query filter).length = items.countP fun row => filter.all (·.matches row) := by
  have hcut (items : List Json) : (if m.narrows then narrowed m.kinds items apiPath query else items).length =
      items.length := by
    split
    · exact length_narrowed m.kinds items apiPath query
    · rfl
  have hsort (items : List Json) : (if m.sorts then ordered items query else items).length = items.length := by
    split
    · exact length_ordered items query
    · rfl
  cases filter with
  | none =>
      simp only [Shared.rows, hcut, hsort]
      simp
  | some f =>
      simp only [Shared.rows, hcut, hsort]
      exact (List.countP_eq_length_filter ..).symm

theorem length_rows_le (m : Shared) (items : List Json) (apiPath : String) (query : Params)
    (filter : Option (Filter F)) : (m.rows items apiPath query filter).length ≤ items.length := by
  rw [length_rows]
  exact List.countP_le_length

/-- The total of a page is the number of the rows that are matched. -/
theorem total_listPage (hitems : m.lists.lookup apiPath = some items) (hcount : m.miscounts.lookup apiPath = none)
    (hfilter : m.filterOf F (Client.query kind orderby select opts 0) = .ok filter)
    (hlen : items.length < 2 ^ 64) :
    ∃ p, Client.listPage m F unread refusal kind orderby select apiPath opts 0 = .ok p ∧
      p.total = some (items.countP fun row => filter.all (·.matches row)) := by
  have hle := pageLimit_le opts.limit
  rw [Client.listPage, Shared.getList, paging_query (by decide)]
  simp only [hfilter, hitems, hcount]
  rw [listItems_listResponse unread ((length_rows_le m items apiPath _ filter).trans_lt hlen), length_rows]
  · exact ⟨_, rfl, rfl⟩
  · split <;> split <;> omega

/-- **A page of a list** is the page of its rows, with their number. -/
theorem listPage_eq (hpage : kind.page = true) (hlimit : kind.limit = true)
    (hitems : m.lists.lookup apiPath = some items) (hcount : m.miscounts.lookup apiPath = none)
    (hfilter : m.filterOf F (Client.query kind orderby select opts 0) = .ok filter)
    (hlen : items.length < 2 ^ 64) (hp : page < 2 ^ 32) :
    Client.listPage m F unread refusal kind orderby select apiPath opts page =
      .ok { entities :=
              (Pages.page (pageLimit opts.limit) page
                (m.rows items apiPath (Client.query kind orderby select opts 0) filter)).map (.new kind · none)
            total := some (m.rows items apiPath (Client.query kind orderby select opts 0) filter).length } := by
  have hle := pageLimit_le opts.limit
  have hmul : page * pageLimit opts.limit ≤ 2 ^ 32 * 100 := Nat.mul_le_mul (by omega) hle
  rw [Client.listPage, Shared.getList, paging_query (by omega)]
  simp only [filterOf_query m, hfilter, hitems, hcount, rows_query m, hpage, hlimit, if_true]
  rw [listItems_listResponse unread ((length_rows_le m items apiPath _ filter).trans_lt hlen) (by omega)]
  rfl

theorem mapM_ok {α β ε : Type} {f : α → Except ε β} {g : α → β} {l : List α} (h : ∀ a ∈ l, f a = .ok (g a)) :
    l.mapM f = .ok (l.map g) := by
  induction l with
  | nil => rfl
  | cons a l ih =>
      rw [List.mapM_cons, h a List.mem_cons_self, ih fun b hb => h b (List.mem_cons_of_mem a hb)]
      rfl

end

end Nutsh.Mock
