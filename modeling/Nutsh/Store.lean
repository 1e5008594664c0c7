/-
The store: tables of entities by kind and parents, updated by generation-tagged messages.

A polling cycle reports what it reads of one table as a stream of updates, each carrying the
generation the cycle drew.  Pages accumulate in the staging area of the table until a `complete` of
their generation makes them the rows; a single-entity read writes one row, and is kept whole beside
the rows.  An update of a generation the table is past is ignored.

Main definitions:

* `TableKey`, `TableKey.ident` — one table, and what a key is compared by;
* `Update` — what a cycle reports;
* `Table.apply` — one update on one table, an arm a definition: `Table.onStarted`, `Table.onPage`,
  `Table.onComplete`, `Table.onEntity`, `Table.onError`;
* `Table.row` — the fullest document the table holds for an id;
* `Store.apply`, `Store.restore`, `Store.abandon` — the operations on the whole store.

Main results:

* `Store.table_apply`, `Store.table_apply_ne` — an update of the store is an update of the one table;
* `Store.table_applyAll` — the same of a sequence of updates on one key.
-/
import Nutsh.Entity
import Nutsh.Lib.IndexMap

set_option relaxedAutoImplicit false
set_option autoImplicit false

namespace Nutsh

/-- One table: a kind listed under a chain of parent ids, with the filter it was listed with and the
context it was listed from when that is not the session's own. -/
structure TableKey where
  kind : Kind
  parents : List String := []
  filter : Option String := none
  context : Option String := none
  deriving DecidableEq, Repr

namespace TableKey

/-- What a key is compared and hashed by. -/
structure Ident where
  kindId : String
  parents : List String
  filter : Option String
  context : Option String
  deriving DecidableEq, Repr

/-- The part of a key two keys are compared by. -/
def ident (k : TableKey) : Ident := ⟨k.kind.id, k.parents, k.filter, k.context⟩

/-- A top-level table, listed whole. -/
def top (kind : Kind) : TableKey := { kind }

/-- A child table under the parent ids that fill its list path. -/
def under (kind : Kind) (parents : List String) : TableKey := { kind, parents }

/-- The same table, listed from a peer context. -/
def inContext (k : TableKey) (name : String) : TableKey := { k with context := some name }

/-- Whether this is a top-level table of the primary session, listed whole. -/
def isTop (k : TableKey) : Bool := k.parents.isEmpty && k.filter.isNone && k.context.isNone

theorem context_of_isTop {k : TableKey} (h : k.isTop = true) : k.context = none := by
  simp only [isTop, Bool.and_eq_true] at h
  exact Option.isNone_iff_eq_none.1 h.2

/-- A page pane's table. -/
def filtered (kind : Kind) (filter : Option String) : TableKey := { kind, filter }

end TableKey

/-- Why a cycle failed, in the terms the screen tells apart. -/
inductive Cause where
  | notServed
  | notFound
  | unavailable (status : ℕ)
  | rateLimited
  | rejected (status : ℕ)
  | denied
  | unreachable
  | unreadable
  | local
  deriving DecidableEq, Repr

/-- A failure with the server's own words beside it. -/
structure Failure where
  cause : Cause
  «namespace» : String := ""
  upstream : String := ""
  deriving DecidableEq, Repr

namespace Failure

/-- Whether this is the absence of the endpoint. -/
def isNotServed (f : Failure) : Bool := f.cause == .notServed

/-- The sentence the screen draws. -/
def text (f : Failure) : String :=
  let source := f.namespace
  match f.cause with
  | .notServed => "not served by this Prism Central (HTTP 404)"
  | .notFound => "not found (HTTP 404)"
  | .unavailable status => s!"{source} unavailable (HTTP {status}) - retrying"
  | .rateLimited => "rate limited (HTTP 429) - retrying"
  | .rejected 401 =>
      "authentication failed (HTTP 401) - requests stopped; run `nutsh ctx login`"
  | .rejected 403 => "not permitted for this account (HTTP 403)"
  | .denied => "not permitted for this account (HTTP 401)"
  | .rejected status =>
      if 300 ≤ status ∧ status ≤ 399 then
        s!"this Prism Central redirected the request (HTTP {status}) - not followed"
      else s!"the request was refused (HTTP {status})"
  | .unreachable => "cannot reach this Prism Central (retrying)"
  | .unreadable => "the response could not be read (see :journal)"
  | .local => f.upstream

/-- Whether asking again could only produce the same answer at a cost. -/
def isTerminal (f : Failure) : Bool := f.cause == .rejected 401 || f.cause == .denied

end Failure

/-- What a polling cycle reports of a table. -/
inductive Update where
  /-- A listing cycle has begun. -/
  | started (generation : ℕ)
  /-- One page of a listing cycle. -/
  | page (generation : ℕ) (entities : List Entity) (total : Option ℕ)
  /-- The cycle finished. -/
  | complete (generation : ℕ)
  /-- One entity refreshed out of band. -/
  | entity (generation : ℕ) (entity : Entity)
  /-- The cycle failed. -/
  | error (generation : ℕ) (error : Failure)

/-- The generation an update carries. -/
def Update.generation : Update → ℕ
  | started g => g
  | page g _ _ => g
  | complete g => g
  | entity g _ => g
  | error g _ => g

/-- The pages staged for one generation in progress. -/
structure Staging where
  generation : ℕ
  entities : List Entity := []
  total : Option ℕ := none

/-- The rows of entities by id, in the order given; an entity without an id has no row. -/
def index (entities : List Entity) : IndexMap String Entity :=
  IndexMap.ofList ((entities.filter fun e => e.extId != "").map fun e => (e.extId, e))

/-- The rows of one key and what describes the cycles that write them. -/
structure Table where
  /-- By id, in server order. -/
  rows : IndexMap String Entity := IndexMap.empty
  /-- The last completed list cycle. -/
  generation : ℕ := 0
  total : Option ℕ := none
  lastPoll : Option ℕ := none
  error : Option Failure := none
  notServed : Bool := false
  /-- No cycle has completed yet. -/
  loading : Bool := false
  /-- The generation of the listing cycle in flight and when it began. -/
  cycleStarted : Option (ℕ × ℕ) := none
  /-- When the rows were written to the cache, while they are the ones the cache held. -/
  restoredAt : Option ℕ := none
  /-- The one document a single-entity read fetched. -/
  whole : Option Entity := none
  /-- Pages accumulating for a generation that has not completed. -/
  staging : Option Staging := none

namespace Table

/-- A table no cycle has written to. -/
def fresh : Table := { loading := true }

/-- The fullest document the table holds for an id: the one a single-entity read fetched, the list
row otherwise. -/
def row (t : Table) (extId : String) : Option Entity :=
  (t.whole.filter fun e => e.extId == extId).or (t.rows.get? extId)

/-- The number of rows staged for the cycle in flight. -/
def staged (t : Table) : ℕ := (t.staging.map fun s => s.entities.length).getD 0

/-- The total the cycle in flight last reported. -/
def stagedTotal (t : Table) : Option ℕ := t.staging.bind Staging.total

/-- The clock once the cycle `g` has ended: only the cycle that set it clears it. -/
def endClock (t : Table) (g : ℕ) : Option (ℕ × ℕ) := t.cycleStarted.filter fun c => c.1 != g

/-- The pages a `complete` of generation `g` takes out of the staging area. -/
def takes (t : Table) (g : ℕ) : Option Staging := t.staging.filter fun s => s.generation == g

/-- The arm of a `started`. -/
def onStarted (t : Table) (now g : ℕ) : Table :=
  if g ≤ t.generation then t
  else if t.cycleStarted.any fun c => g ≤ c.1 then t
  else { t with cycleStarted := some (g, now) }

/-- The arm of a `page`: a completed generation never stages again, and a newer staging wins over a
late page. -/
def onPage (t : Table) (g : ℕ) (entities : List Entity) (total : Option ℕ) : Table :=
  if g ≤ t.generation then t
  else if t.staging.any fun s => g < s.generation then t
  else
    let s := (t.staging.filter fun s => !decide (s.generation < g)).getD { generation := g }
    { t with staging := some { s with entities := s.entities ++ entities, total } }

/-- The arm of a `complete`: the rows become what staged for this generation, if anything did. -/
def onComplete (t : Table) (now g : ℕ) : Table :=
  if g < t.generation then t
  else
    let ended := { t with cycleStarted := t.endClock g }
    let replaced :=
      match t.takes g with
      | some s =>
          { ended with
            staging := none, rows := index s.entities, total := s.total, restoredAt := none,
            generation := g }
      | none => ended
    { replaced with lastPoll := some now, error := none, notServed := false, loading := false }

/-- The arm of an `entity`: the row is written and the document kept whole. -/
def onEntity (t : Table) (g : ℕ) (e : Entity) : Table :=
  if g < t.generation then t
  else
    let grew := (t.rows.get? e.extId).isNone
    { t with
      whole := some e, rows := t.rows.insert e.extId e,
      total := if grew then t.total.map (· + 1) else t.total,
      loading := false }

/-- The arm of an `error`: the rows stay, staging that is not newer is dropped. -/
def onError (t : Table) (g : ℕ) (error : Failure) : Table :=
  if g < t.generation then t
  else
    { t with
      cycleStarted := t.endClock g,
      notServed := t.notServed || error.isNotServed,
      error := some error,
      staging := t.staging.filter fun s => !decide (s.generation ≤ g),
      loading := false }

/-- One update on one table, at a reading `now` of the clock. -/
def apply (t : Table) (now : ℕ) : Update → Table
  | .started g => t.onStarted now g
  | .page g entities total => t.onPage g entities total
  | .complete g => t.onComplete now g
  | .entity g e => t.onEntity g e
  | .error g error => t.onError g error

@[simp] theorem apply_started (t : Table) (now g : ℕ) :
    t.apply now (.started g) = t.onStarted now g := rfl

@[simp] theorem apply_page (t : Table) (now g : ℕ) (es : List Entity) (total : Option ℕ) :
    t.apply now (.page g es total) = t.onPage g es total := rfl

@[simp] theorem apply_complete (t : Table) (now g : ℕ) :
    t.apply now (.complete g) = t.onComplete now g := rfl

@[simp] theorem apply_entity (t : Table) (now g : ℕ) (e : Entity) :
    t.apply now (.entity g e) = t.onEntity g e := rfl

@[simp] theorem apply_error (t : Table) (now g : ℕ) (error : Failure) :
    t.apply now (.error g error) = t.onError g error := rfl

/-! ### What the arms leave alone -/

@[simp] theorem rows_onStarted (t : Table) (now g : ℕ) :
    (t.onStarted now g).rows = t.rows := by
  unfold onStarted
  split
  · rfl
  · split <;> rfl

@[simp] theorem generation_onStarted (t : Table) (now g : ℕ) :
    (t.onStarted now g).generation = t.generation := by
  unfold onStarted
  split
  · rfl
  · split <;> rfl

@[simp] theorem whole_onStarted (t : Table) (now g : ℕ) :
    (t.onStarted now g).whole = t.whole := by
  unfold onStarted
  split
  · rfl
  · split <;> rfl

@[simp] theorem staging_onStarted (t : Table) (now g : ℕ) :
    (t.onStarted now g).staging = t.staging := by
  unfold onStarted
  split
  · rfl
  · split <;> rfl

@[simp] theorem rows_onPage (t : Table) (g : ℕ) (es : List Entity) (total : Option ℕ) :
    (t.onPage g es total).rows = t.rows := by
  unfold onPage
  split
  · rfl
  · split <;> rfl

@[simp] theorem generation_onPage (t : Table) (g : ℕ) (es : List Entity) (total : Option ℕ) :
    (t.onPage g es total).generation = t.generation := by
  unfold onPage
  split
  · rfl
  · split <;> rfl

@[simp] theorem whole_onPage (t : Table) (g : ℕ) (es : List Entity) (total : Option ℕ) :
    (t.onPage g es total).whole = t.whole := by
  unfold onPage
  split
  · rfl
  · split <;> rfl

@[simp] theorem generation_onEntity (t : Table) (g : ℕ) (e : Entity) :
    (t.onEntity g e).generation = t.generation := by
  unfold onEntity
  split <;> rfl

@[simp] theorem staging_onEntity (t : Table) (g : ℕ) (e : Entity) :
    (t.onEntity g e).staging = t.staging := by
  unfold onEntity
  split <;> rfl

@[simp] theorem rows_onError (t : Table) (g : ℕ) (error : Failure) :
    (t.onError g error).rows = t.rows := by
  unfold onError
  split <;> rfl

@[simp] theorem generation_onError (t : Table) (g : ℕ) (error : Failure) :
    (t.onError g error).generation = t.generation := by
  unfold onError
  split <;> rfl

@[simp] theorem whole_onError (t : Table) (g : ℕ) (error : Failure) :
    (t.onError g error).whole = t.whole := by
  unfold onError
  split <;> rfl

@[simp] theorem whole_onComplete (t : Table) (now g : ℕ) :
    (t.onComplete now g).whole = t.whole := by
  unfold onComplete
  split
  · rfl
  · split <;> rfl

/-! ### Sequences of updates -/

/-- A sequence of updates on one table, each at a reading of the clock. -/
def applyAll (t : Table) (us : List (ℕ × Update)) : Table :=
  us.foldl (fun t u => t.apply u.1 u.2) t

@[simp] theorem applyAll_nil (t : Table) : t.applyAll [] = t := rfl

@[simp] theorem applyAll_cons (t : Table) (u : ℕ × Update) (us : List (ℕ × Update)) :
    t.applyAll (u :: us) = (t.apply u.1 u.2).applyAll us := rfl

theorem applyAll_append (t : Table) (us vs : List (ℕ × Update)) :
    t.applyAll (us ++ vs) = (t.applyAll us).applyAll vs :=
  List.foldl_append

/-- The names an update of the table makes known: those of the rows it replaced, or of the one
entity it wrote. -/
def naming (t : Table) (now : ℕ) : Update → List (String × String)
  | .complete g =>
      if g < t.generation then []
      else if (t.takes g).isSome then
        (t.onComplete now g).rows.values.map fun e => (e.extId, e.name)
      else []
  | .entity g e => if g < t.generation then [] else [(e.extId, e.name)]
  | _ => []

end Table

/-- Every table of a session, and the names they feed. -/
structure Store where
  tables : IndexMap TableKey.Ident (TableKey × Table) := IndexMap.empty
  names : IndexMap String String := IndexMap.empty

namespace Store

/-- The table of a key, a fresh one where there is none. -/
def table (s : Store) (key : TableKey) : Table :=
  ((s.tables.get? key.ident).map Prod.snd).getD Table.fresh

/-- The store with the table of a key written; the key it is filed under stays the first one. -/
def setTable (s : Store) (key : TableKey) (t : Table) : Store :=
  let filed := ((s.tables.get? key.ident).map Prod.fst).getD key
  { s with tables := s.tables.insert key.ident (filed, t) }

/-- Names learnt, the later one winning. -/
def applyNames (s : Store) (names : List (String × String)) : Store :=
  { s with names := names.foldl (fun m n => m.insert n.1 n.2) s.names }

/-- One update on the table of a key. -/
def apply (s : Store) (key : TableKey) (now : ℕ) (u : Update) : Store :=
  (s.setTable key ((s.table key).apply now u)).applyNames ((s.table key).naming now u)

/-- A sequence of updates on the table of one key. -/
def applyAll (s : Store) (key : TableKey) (us : List (ℕ × Update)) : Store :=
  us.foldl (fun s u => s.apply key u.1 u.2) s

/-- Rows the cache held, painted on a table no live cycle has written; the number painted. -/
def restore (s : Store) (key : TableKey) (rows : List Entity) (total : Option ℕ) (writtenAt : ℕ) :
    Store × ℕ :=
  let rows := index rows
  if rows.isEmpty then (s, 0)
  else
    let t := s.table key
    if 0 < t.generation || t.lastPoll.isSome then (s.setTable key t, 0)
    else
      let t := { t with rows, total, restoredAt := some writtenAt, error := none, loading := false }
      ((s.setTable key t).applyNames (rows.values.map fun e => (e.extId, e.name)), rows.len)

/-- The end of a cycle nobody waits for: its clock and its staged pages go. -/
def abandon (s : Store) (key : TableKey) : Store :=
  if (s.tables.get? key.ident).isSome then
    s.setTable key { s.table key with cycleStarted := none, staging := none }
  else s

@[simp] theorem table_applyNames (s : Store) (names : List (String × String)) (key : TableKey) :
    (s.applyNames names).table key = s.table key := rfl

@[simp] theorem table_setTable (s : Store) (key : TableKey) (t : Table) :
    (s.setTable key t).table key = t := by
  simp [table, setTable]

theorem table_setTable_ne {s : Store} {key key' : TableKey} {t : Table}
    (h : key'.ident ≠ key.ident) : (s.setTable key t).table key' = s.table key' := by
  simp [table, setTable, IndexMap.get?_insert_ne h]

/-- An update of the store is an update of the table of its key. -/
@[simp] theorem table_apply (s : Store) (key : TableKey) (now : ℕ) (u : Update) :
    (s.apply key now u).table key = (s.table key).apply now u := by
  simp [apply]

/-- An update of the store leaves every other table alone. -/
theorem table_apply_ne {s : Store} {key key' : TableKey} {now : ℕ} {u : Update}
    (h : key'.ident ≠ key.ident) : (s.apply key now u).table key' = s.table key' := by
  simp [apply, table_setTable_ne h]

/-- A sequence of updates of one key is that sequence on its table. -/
theorem table_applyAll (s : Store) (key : TableKey) (us : List (ℕ × Update)) :
    (s.applyAll key us).table key = (s.table key).applyAll us := by
  induction us generalizing s with
  | nil => rfl
  | cons u us ih => exact (ih (s.apply key u.1 u.2)).trans (by rw [table_apply]; rfl)

/-- The table of a store no update has reached is fresh. -/
@[simp] theorem table_default (key : TableKey) : ({} : Store).table key = Table.fresh := rfl

end Store

end Nutsh
