/-
A session on screen: its store, the contexts joined beside it, and the stack of views.

The rows of a joined context are in the store of the session under keys that carry its name.  A
top-level table shows the rows of all contexts, merged, a row of a joined one under an id that names
it; every other table shows what its key says.  The row a view acts on is found again by its id.

* `Peer`, `View`, `Live` — a joined context, what the body shows, a session;
* `Live.merged`, `peerRowId`, `splitRowId`, `Live.findRow` — the merged table, and the row of an id;
* `Live.cursor`, `Live.order`, `Live.selectedExtId`, `Live.subjects` — the row under the cursor, and
  the rows an action applies to;
* `Live.forgetPeer`, `Live.subscribePeers` — a context dropped, and the top table listed from all;
* `splitRowId_peerRowId` — what the id of a row says.
-/
import Mathlib.Data.List.Sort
import Nutsh.Tasks

set_option relaxedAutoImplicit false
set_option autoImplicit false

namespace Nutsh

/-- What the program is built with: the catalog, the libraries, and the rendering of a cell. -/
structure Env where
  catalog : Catalog
  /-- The kind of the tasks. -/
  taskKind : Kind
  codec : Codec
  render : Column → Entity → IndexMap String String → ℕ → String

/-! ### Views -/

/-- A table in front of the user. -/
structure TableView where
  key : TableKey
  sub : ℕ
  /-- Its lists on the joined contexts. -/
  peerSubs : List (String × ℕ) := []
  selected : ℕ := 0
  /-- The column and whether it is reversed. -/
  sort : Option (ℕ × Bool) := none
  wide : Bool := false
  parentName : Option String := none
  marks : List String := []
  /-- What the standing term keeps, `none` where there is no term or an empty one. -/
  filter : Option (Entity → Bool) := none

/-- One table of a page. -/
structure Pane where
  key : TableKey
  columns : List Column := []
  /-- None while it does not poll. -/
  sub : Option ℕ := none
  selected : ℕ := 0
  /-- Why the session does not list it. -/
  reason : Option String := none
  /-- The rows the last frame had room for, and those its subscription asks for. -/
  drawn : ℕ := 0
  askedRows : Option ℕ := none

structure PageView where
  panes : List Pane
  focus : ℕ := 0

/-- What the body shows. -/
inductive View where
  | table (view : TableView)
  | page (view : PageView)

/-- A context read beside the session. -/
structure Peer where
  session : Session
  scheduler : Scheduler

/-- The name a context was joined by: its session was connected as that context. -/
def Peer.name (p : Peer) : String := p.session.name

/-- A connected session. -/
structure Live where
  session : Session
  store : Store := {}
  scheduler : Scheduler
  peers : List Peer := []
  /-- The top one first. -/
  stack : List View := []
  journal : Journal := {}
  tasks : TaskIndex := {}
  canI : CanICell := {}

/-! ### Ids of rows -/

/-- The id a merged table gives the row of a joined context. -/
def peerRowId (peer extId : String) : String := peer ++ "\t" ++ extId

/-- The context an id names, if any, and the id within it. -/
def splitRowId (id : String) : Option String × String :=
  match Text.splitOnce "\t" id with
  | some (peer, extId) => (some peer, extId)
  | none => (none, id)

theorem splitRowId_peerRowId {peer : String} (h : '\t' ∉ peer.toList) (extId : String) :
    splitRowId (peerRowId peer extId) = (some peer, extId) := by
  have hsplit : Text.splitOnceList ['\t'] (peerRowId peer extId).toList =
      some (peer.toList, extId.toList) := by
    rw [peerRowId, String.toList_append, String.toList_append, List.append_assoc]
    exact Text.splitOnceList_char h
  have htab : ("\t" : String).toList = ['\t'] := rfl
  simp [splitRowId, Text.splitOnce, htab, hsplit]

theorem splitRowId_of_notMem {id : String} (h : '\t' ∉ id.toList) : splitRowId id = (none, id) := by
  have htab : ("\t" : String).toList = ['\t'] := rfl
  simp [splitRowId, Text.splitOnce, htab, Text.splitOnceList_char_of_not_mem h]

namespace Live

variable {live : Live} {key : TableKey}

def primaryName (live : Live) : String := live.session.name

/-- The joined context of a name. -/
def peer (live : Live) (name : String) : Option Peer := live.peers.find? fun p => p.name == name

/-- The table of a key as listed from a joined context. -/
def peerTable (live : Live) (key : TableKey) (name : String) : Table :=
  live.store.table (key.inContext name)

/-- Whether a view over a key draws the rows of every context. -/
def merges (live : Live) (key : TableKey) : Bool := !live.peers.isEmpty && key.isTop

/-- An entity with the name of its context on it. -/
def stamp (context : String) (e : Entity) : Entity :=
  match e.raw with
  | .obj members => { e with raw := .obj (IndexMap.put "$context" (.str context) members) }
  | _ => e

/-- The rows of every context, in the order they were joined. -/
def allRows (live : Live) (key : TableKey) : List (String × Entity) :=
  ((live.store.table key).rows.entries.map fun r => (r.1, stamp live.primaryName r.2)) ++
    live.peers.flatMap fun p => (live.peerTable key p.name).rows.entries.map fun r =>
      (peerRowId p.name r.1, stamp p.name r.2)

/-- What a merged table says of its cycles, with one more table merged in. -/
def mergeInto (out t : Table) : Table :=
  { out with
    total := match out.total, t.total with
      | some a, some b => some (a + b)
      | a, b => a.or b
    error := out.error.or t.error
    loading := out.loading && t.loading
    lastPoll := out.lastPoll.or t.lastPoll }

/-- The table a view draws. -/
def merged (live : Live) (key : TableKey) : Table :=
  let primary := live.store.table key
  if live.merges key then
    live.peers.foldl (fun out p => mergeInto out (live.peerTable key p.name))
      { rows := IndexMap.ofList (live.allRows key), total := primary.total,
        lastPoll := primary.lastPoll, error := primary.error, notServed := primary.notServed,
        loading := primary.loading, cycleStarted := primary.cycleStarted,
        restoredAt := primary.restoredAt }
  else primary

@[simp] theorem rows_mergeInto (out t : Table) : (mergeInto out t).rows = out.rows := rfl

theorem rows_foldl_mergeInto (tables : List Table) (out : Table) :
    (tables.foldl mergeInto out).rows = out.rows := by
  induction tables generalizing out with
  | nil => rfl
  | cons t tables ih => exact ih (mergeInto out t)

/-- The rows a merging view draws. -/
theorem rows_merged_of_merges (h : live.merges key = true) :
    (live.merged key).rows = IndexMap.ofList (live.allRows key) := by
  unfold merged
  rw [if_pos h, ← List.foldl_map]
  exact rows_foldl_mergeInto _ _

theorem merged_of_not_merges (h : live.merges key = false) :
    live.merged key = live.store.table key := by
  simp [merged, h]

/-- The row of an id under a key, with the joined context it is from: the one the id names; else the
table of the key itself, and for a top-level key the first joined context that has it. -/
def findRow (live : Live) (key : TableKey) (id : String) : Option (Option String × Entity) :=
  match splitRowId id with
  | (some name, extId) =>
      (live.peer name).bind fun p =>
        ((live.peerTable key p.name).row extId).map fun e => (some p.name, e)
  | (none, extId) =>
      match (live.store.table key).row extId with
      | some e => some (none, e)
      | none =>
          if key.isTop then
            live.peers.findSome? fun p =>
              ((live.peerTable key p.name).row extId).map fun e => (some p.name, e)
          else none

/-- The session a row of a context is read and acted through. -/
def sessionFor (live : Live) (context : Option String) : Session :=
  ((context.bind live.peer).map Peer.session).getD live.session

/-- The scheduler that polls a context, if it is joined. -/
def schedulerFor (live : Live) : Option String → Option Scheduler
  | none => some live.scheduler
  | some name => (live.peer name).map Peer.scheduler

/-- The first joined context of a name with its scheduler changed. -/
def mapPeer (name : String) (f : Scheduler → Scheduler) : List Peer → List Peer
  | [] => []
  | p :: ps =>
      if p.name = name then { p with scheduler := f p.scheduler } :: ps
      else p :: mapPeer name f ps

/-- The scheduler of a context changed. -/
def mapScheduler (live : Live) (context : Option String) (f : Scheduler → Scheduler) : Live :=
  match context with
  | none => { live with scheduler := f live.scheduler }
  | some name => { live with peers := mapPeer name f live.peers }

/-- Every scheduler, the session's own first. -/
def schedulers (live : Live) : List Scheduler := live.scheduler :: live.peers.map Peer.scheduler

/-- Whether a subscription belongs to any scheduler of the session. -/
def anyLive (live : Live) (sub : ℕ) : Bool := live.schedulers.any fun s => s.isLive sub

/-- The subscription of an id, whichever scheduler holds it. -/
def subscription (live : Live) (sub : ℕ) : Option Subscription :=
  live.schedulers.findSome? fun s => s.tasks.lookup sub

/-- A subscription ended on whichever scheduler holds it. -/
def unsubscribeAny (live : Live) (sub : ℕ) : Live :=
  { live with
    scheduler := live.scheduler.unsubscribe sub,
    peers := live.peers.map fun p => { p with scheduler := p.scheduler.unsubscribe sub } }

/-! ### Contexts dropped and joined -/

def forgetView (name : String) : View → View
  | .table t => .table { t with peerSubs := t.peerSubs.filter fun s => s.1 != name }
  | .page p => .page p

/-- A context dropped: its scheduler goes, and every view forgets the lists it held there. -/
def forgetPeer (live : Live) (name : String) : Live :=
  { live with
    stack := live.stack.map (forgetView name), peers := live.peers.filter fun p => p.name != name }

/-- The joined contexts a view does not list yet, each subscribed under the next id. -/
def subscribeEach (key : TableKey) (listed : List (String × ℕ)) :
    ℕ → List Peer → List Peer × List (String × ℕ) × ℕ
  | next, [] => ([], listed, next)
  | next, p :: ps =>
      if listed.any fun s => s.1 == p.name then
        let (ps, listed, next) := subscribeEach key listed next ps
        (p :: ps, listed, next)
      else
        let sub : Subscription := { key := key.inContext p.name }
        let (ps, listed, next') :=
          subscribeEach key (listed ++ [(p.name, next)]) (next + 1) ps
        ({ p with scheduler := p.scheduler.subscribe next sub } :: ps, listed, next')

/-- The top view, when it is a top-level table, listed from every joined context; the next
subscription id. -/
def subscribePeers (live : Live) (next : ℕ) : Live × ℕ :=
  match live.stack with
  | .table view :: rest =>
      if view.key.isTop then
        let (peers, peerSubs, next) := subscribeEach view.key view.peerSubs next live.peers
        ({ live with peers, stack := .table { view with peerSubs } :: rest }, next)
      else (live, next)
  | _ => (live, next)

/-! ### The cursor -/

/-- Where the cursor of the body is. -/
structure Cursor where
  key : TableKey
  selected : ℕ
  columns : List Column
  sort : Option (ℕ × Bool) := none
  /-- None where the view marks nothing. -/
  marks : Option (List String) := none
  filter : Option (Entity → Bool) := none

def contextColumn : Column := { header := "CONTEXT", path := "$context" }

/-- The columns a view shows, the context second when it draws several. -/
def columnsFor (kind : Kind) (wide merged : Bool) : List Column :=
  let all := if kind.columns.isEmpty then kind.fallbackColumns else kind.columns
  let base := all.take (if wide then 20 else 6)
  if merged then base.insertIdx (min 1 base.length) contextColumn else base

/-- The table the cursor is in: the top table, or the focused pane of the page. -/
def cursor (live : Live) : Option Cursor :=
  match live.stack.head? with
  | none => none
  | some (.table view) =>
      some {
        key := view.key, selected := view.selected,
        columns := columnsFor view.key.kind view.wide (live.merges view.key),
        sort := view.sort, marks := some view.marks, filter := view.filter }
  | some (.page page) =>
      page.panes[page.focus]?.map fun pane =>
        { key := pane.key, selected := pane.selected, columns := pane.columns }

/-- Texts in the order of their characters. -/
def textLe (a b : String) : Prop := ¬ b.toList < a.toList

instance : DecidableRel textLe := fun _ _ => inferInstanceAs (Decidable (¬ _))

/-- The order of two rows by the text of a cell, the id breaking ties. -/
def rowLe (reverse : Bool) (a b : String × String) : Prop :=
  if a.1 = b.1 then textLe a.2 b.2
  else if reverse then textLe b.1 a.1 else textLe a.1 b.1

instance (reverse : Bool) : DecidableRel (rowLe reverse) := fun a b => by
  unfold rowLe
  infer_instance

/-- The ids of the rows a view shows, in the order it shows them. -/
def order (env : Env) (names : IndexMap String String) (now : ℕ) (table : Table) (c : Cursor) :
    List String :=
  let kept := table.rows.entries.filter fun r => c.filter.all fun keeps => keeps r.2
  match c.sort.bind fun s => (c.columns[s.1]?).map fun col => (col, s.2) with
  | none => kept.map Prod.fst
  | some (col, reverse) =>
      ((kept.map fun r => (env.render col r.2 names now, r.1)).insertionSort (rowLe reverse)).map
        Prod.snd

/-- The ids under a cursor, as the view shows them. -/
def shown (live : Live) (env : Env) (now : ℕ) (c : Cursor) : List String :=
  order env live.store.names now (live.merged c.key) c

/-- The id of the row under the cursor. -/
def selectedExtId (live : Live) (env : Env) (now : ℕ) : Option String :=
  live.cursor.bind fun c => (live.shown env now c)[c.selected]?

/-- The row under the cursor. -/
def selectedEntity (live : Live) (env : Env) (now : ℕ) : Option Entity :=
  live.cursor.bind fun c =>
    (live.selectedExtId env now).bind fun id => (live.findRow c.key id).map Prod.snd

/-- The ids an action applies to: the marked ones the view shows, else the one under the cursor. -/
def wanted (live : Live) (env : Env) (now : ℕ) (c : Cursor) : List String :=
  match c.marks.filter fun m => !m.isEmpty with
  | none => (live.shown env now c)[c.selected]?.toList
  | some marks => (live.shown env now c).filter fun id => marks.contains id

/-- The rows an action applies to, by id and name. -/
def subjects (live : Live) (env : Env) (now : ℕ) : List (String × String) :=
  match live.cursor with
  | none => []
  | some c => (live.wanted env now c).filterMap fun id =>
      ((live.merged c.key).rows.get? id).map fun e => (id, e.name)

/-- No cursor points past the end of what its view shows. -/
def clampSelection (live : Live) : Live :=
  match live.stack with
  | .table view :: rest =>
      let len := ((live.merged view.key).rows.values.filter fun e =>
        view.filter.all fun keeps => keeps e).length
      { live with
        stack := .table { view with selected := min view.selected (len - 1) } :: rest }
  | .page page :: rest =>
      { live with
        stack := .page { page with
          panes := page.panes.map fun pane =>
            { pane with
              selected := min pane.selected ((live.store.table pane.key).rows.len - 1) } } :: rest }
  | [] => live

end Live

end Nutsh
