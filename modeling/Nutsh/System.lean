/-
The application at work: what the user does, what arrives, and the requests on their way.

The keys reach the box that is open; everything else happens between any two of them.  A request
that was sent is in flight until its outcome comes back, in any order and whatever has become of its
session.  Beside the application the system remembers what it looked like when the rows of the
pending action were taken and when that action was last judged, and the rows the open surface named:
the application reads none of the three.

* `Background`, `App.background` — what happens beside the user;
* `Browse`, `App.browse` — what the user does in a table or a page;
* `System`, `Event`, `System.step` — the run.
-/
import Nutsh.App
import Nutsh.Lib.Run

set_option relaxedAutoImplicit false
set_option autoImplicit false

namespace Nutsh

/-! ### Beside the user -/

inductive Background where
  | attach (session : Session)
  | joined (session : Session)
  | keepPeers (keep : List String)
  /-- A connect failed: the screen of the contexts comes up. -/
  | connectFailed
  | poll (sub now : ℕ) (u : Update)
  /-- A resolution of the roles comes back. -/
  | rolesResolved (generation : ℕ) (index : CanIndex)
  | rolesRestored (index : CanIndex)
  /-- A table of the cache is painted. -/
  | restored (kind : Kind) (parents : List String) (filter : Option String) (rows : List Entity)
      (total : Option ℕ) (writtenAt : ℕ)
  | restoredNames (names : List (String × String))
  | tick (now : ℕ)

def App.background (app : App) : Background → App
  | .attach session => app.attach session
  | .joined session => app.joined session
  | .keepPeers keep => app.keepPeers keep
  | .connectFailed => { app with mode := .elsewhere }
  | .poll sub now u => app.poll sub now u
  | .rolesResolved generation index =>
      app.mapLive fun live => { live with canI := live.canI.set generation index }
  | .rolesRestored index => app.mapLive fun live => { live with canI := live.canI.restore index }
  | .restored kind parents filter rows total writtenAt =>
      app.mapLive fun live =>
        { live with
          store := (live.store.restore { kind, parents, filter } rows total writtenAt).1 }
  | .restoredNames names =>
      app.mapLive fun live => { live with store := live.store.applyNames names }
  | .tick now => { app with now }

/-! ### In a table or a page -/

inductive Move where
  | down
  | up
  | home
  | bottom
  | pageDown
  | pageUp
  /-- A click on a row. -/
  | row (n : ℕ)

/-- Where a move takes the cursor, the last row being known. -/
def Move.to (selected last : ℕ) : Move → ℕ
  | down => min (selected + 1) last
  | up => selected - 1
  | home => 0
  | bottom => last
  | pageDown => min (selected + 20) last
  | pageUp => selected - 20
  | row n => n

/-- A table of a page as the catalog lays it out, and why the session does not list it. -/
structure PaneDef where
  kind : Kind
  columns : List Column := []
  filter : Option String := none
  reason : Option String := none

inductive Browse where
  | openRoot (kind : Kind)
  | openPage (panes : List PaneDef)
  /-- The kind of the focused pane as a full table. -/
  | openFocused
  | pop
  | move (m : Move)
  /-- The row under the cursor marked or unmarked, the cursor moving on. -/
  | toggleMark
  | clearMarks
  | filter (keeps : Option (Entity → Bool))
  | cycleSort
  | toggleWide
  | focus (pane : ℕ)
  /-- To a box that takes no part in an action, and back. -/
  | leave
  | back

namespace Live

/-- The focused table of the top view changed. -/
def mapTop (live : Live) (table : TableView → TableView) (pane : Pane → Pane) : Live :=
  { live with
    stack := live.stack.modifyHead fun
      | .table view => .table (table view)
      | .page page => .page { page with panes := page.panes.modify page.focus pane } }

/-- The last row a table view shows. -/
def lastRow (live : Live) (view : TableView) : ℕ :=
  ((live.merged view.key).rows.values.filter fun e => view.filter.all fun keeps => keeps e).length - 1

def move (live : Live) (m : Move) : Live :=
  live.mapTop
    (fun view => { view with selected := m.to view.selected (live.lastRow view) })
    (fun pane =>
      { pane with selected := m.to pane.selected ((live.store.table pane.key).rows.len - 1) })

/-- The next sort: a column, the column reversed, the next column, and none after the last. -/
def nextSort (columns : ℕ) : Option (ℕ × Bool) → Option (ℕ × Bool)
  | none => if 0 < columns then some (0, false) else none
  | some (col, false) => some (col, true)
  | some (col, true) => if col + 1 < columns then some (col + 1, false) else none

/-- A view that goes: all it polls is ended. -/
def drainView (live : Live) : View → Live
  | .table t =>
      let live := (t.sub :: t.peerSubs.map Prod.snd).foldl unsubscribeAny live
      { live with store := live.store.abandon t.key }
  | .page p =>
      let live := (p.panes.filterMap Pane.sub).foldl unsubscribeAny live
      { live with store := p.panes.foldl (fun store pane => store.abandon pane.key) live.store }

/-- A stack without its views. -/
def drainStack (live : Live) : Live := { live.stack.foldl drainView live with stack := [] }

/-- The rows a pane of a height asks for: some beyond those it draws, and never too few. -/
def paneBudget (rows : ℕ) : ℕ := max (rows + 10) 20

/-- One pane subscribed where it is served and not yet polled. -/
def subscribePane (served : Pane → Bool) (r : Live × List Pane × ℕ) (pane : Pane) :
    Live × List Pane × ℕ :=
  let (live, done, next) := r
  if pane.sub.isNone && served pane then
    (live.mapScheduler none fun s => s.subscribe next { key := pane.key },
      done ++ [{ pane with sub := some next, askedRows := some (paneBudget pane.drawn) }], next + 1)
  else (live, done ++ [pane], next)

def subscribePanes (live : Live) (next : ℕ) (served : Pane → Bool) (panes : List Pane) :
    Live × List Pane × ℕ :=
  panes.foldl (subscribePane served) (live, [], next)

end Live

namespace App

variable (env : Env)

def openRoot (app : App) (kind : Kind) : App :=
  match app.live with
  | none => app
  | some live =>
      if (kind.reach env.catalog).reason.isSome || (live.session.unavailable kind).isSome then app
      else
        match app.closeModals.live with
        | none => app
        | some live =>
            { app.closeModals.pushView live.drainStack kind [] none none with mode := .table }

def openPage (app : App) (defs : List PaneDef) : App :=
  let app := app.closeModals
  match app.live with
  | none => app
  | some live =>
      let panes := defs.map fun d =>
        ({ key := TableKey.filtered d.kind d.filter, columns := d.columns, reason := d.reason } : Pane)
      let (live, panes, nextSub) :=
        live.drainStack.subscribePanes app.nextSub (fun pane => pane.reason.isNone) panes
      { app with
        live := some { live with stack := [.page { panes }] }, nextSub, mode := .table }

def openFocused (app : App) : App :=
  match app.live with
  | none => app
  | some live =>
      match live.stack.head? with
      | some (.page page) =>
          match page.panes[page.focus]? with
          | none => app
          | some pane =>
              if (pane.reason.or (pane.key.kind.reach env.catalog).reason).isSome then app
              else app.pushView live pane.key.kind [] none none
      | _ => app

/-- The top view closed; a page below it is polled again. -/
def pop (app : App) : App :=
  match app.live with
  | none => app
  | some live =>
      match live.stack with
      | view :: next :: rest =>
          let live := { { live with stack := [view] }.drainStack with stack := next :: rest }
          match next with
          | .table _ => { app with live := some live }
          | .page page =>
              let (live, panes, nextSub) :=
                live.subscribePanes app.nextSub (fun pane => pane.reason.isNone) page.panes
              { app with
                live := some { live with stack := .page { page with panes } :: rest }, nextSub }
      | _ => app

def toggleMark (app : App) : App :=
  match app.selectedExtId env with
  | none => app
  | some id =>
      app.mapLive fun live =>
        (live.mapTop
          (fun view =>
            { view with
              marks :=
                if view.marks.contains id then view.marks.filter (· != id) else view.marks ++ [id] })
          fun pane => pane).move .down

def browse (app : App) : Browse → App
  | .openRoot kind => app.openRoot env kind
  | .openPage panes => app.openPage panes
  | .openFocused => app.openFocused env
  | .pop => app.pop
  | .move m => app.mapLive fun live => live.move m
  | .toggleMark => app.toggleMark env
  | .clearMarks => app.mapLive fun live => live.mapTop (fun view => { view with marks := [] }) id
  | .filter keeps =>
      app.mapLive fun live =>
        let live := live.mapTop (fun view => { view with filter := keeps }) id
        if keeps.isSome then live.clampSelection else live
  | .cycleSort =>
      app.mapLive fun live =>
        live.mapTop
          (fun view =>
            let columns := Live.columnsFor view.key.kind view.wide (live.merges view.key)
            { view with sort := Live.nextSort columns.length view.sort }) id
  | .toggleWide =>
      app.mapLive fun live => live.mapTop (fun view => { view with wide := !view.wide }) id
  | .focus pane =>
      app.mapLive fun live =>
        { live with
          stack := live.stack.modifyHead fun
            | .table view => .table view
            | .page page => .page (if pane < page.panes.length then { page with focus := pane } else page) }
  | .leave => { app with mode := .elsewhere }
  | .back => { app with mode := .table }

end App

/-! ### The run -/

/-- A request whose outcome has not come back, with the number of the session that sent it, the
application when its rows were taken, the application when it was judged, and the dialog the user
answered with yes, if one was open. -/
structure Flight where
  request : Request
  generation : ℕ
  chosen : Option App
  judged : Option App
  given : Option Confirm

structure System where
  app : App
  flying : List Flight := []
  /-- The rows the open menu or picker named and the row of the detail pane, each with the application
  when it was opened. -/
  named : Option (App × List String) := none
  pane : Option (App × List String) := none
  /-- The application when the rows of the pending action were taken. -/
  chosen : Option App := none
  /-- The application when the pending action was last judged. -/
  judged : Option App := none

inductive Event where
  | background (b : Background)
  | browse (b : Browse)
  /-- The outcome of a request in flight. -/
  | acted (i : ℕ) (outcome : Outcome)
  | openMenu
  | openPicker
  | openDetail
  | closeDetail
  /-- The menu or the picker is closed. -/
  | cancel
  /-- An action chosen in the menu or in the picker, or by its key. -/
  | start (action : Action)
  /-- A child kind chosen in the picker. -/
  | pickChild (child : Kind)
  /-- A field of the form edited. -/
  | type (field : ℕ) (text : String)
  | submit
  | closeForm
  | confirmed
  | cancelConfirm

/-- Whether a key of the view is taken: in a box that takes no part in an action, a view can only be
opened or come back to. -/
def Browse.taken (mode : Mode) : Browse → Bool
  | openRoot _ => mode == .table || mode == .elsewhere
  | openPage _ => mode == .table || mode == .elsewhere
  | back => mode == .table || mode == .elsewhere
  | _ => mode == .table

namespace App

variable (env : Env)

/-- The ids of the rows an action would run on. -/
def subjectIds (app : App) : List String := (app.subjects env).map Prod.fst

/-- The id of the row under the cursor, as a list. -/
def selectedIds (app : App) : List String := (app.selectedExtId env).toList

/-- Whether an action is one of those the open box, or a key of the table, offers. -/
def offers (app : App) (action : Action) : Bool :=
  match app.mode with
  | .table => app.cursor.any fun c =>
      (c.key.kind.actionTarget env.catalog).actions.contains action && !action.hidden
  | .menu => app.menu.any fun menu => menu.rows.any fun row => row.action == action
  | .picker => app.picker.any fun picker => picker.actions.any fun row => row.action == action
  | _ => false

def offersChild (app : App) (child : Kind) : Bool :=
  app.mode == .picker && app.picker.any fun picker => picker.children.any fun c => c.1 == child

/-- Whether the open body is the detail pane of a row. -/
def overRow (app : App) : Bool := app.mode == .detail && (app.detail.bind Detail.key).isSome

end App

namespace System

variable (env : Env)

/-- The requests an answer of the application comes with, on their way. -/
def launch (s : System) (given : Option Confirm) (r : App × List Request) : System :=
  { s with
    app := r.1,
    flying := s.flying ++ r.2.map fun request =>
      { request, generation := s.app.sessionGeneration, chosen := s.chosen, judged := s.judged,
        given } }

/-- What is remembered when an action is started from an application: where its rows were taken, and,
unless it asks for a body first, that it was judged there. -/
def remember (s : System) (app : App) (action : Action) : System :=
  match app.pend env action with
  | .error _ => s
  | .ok app =>
      match app.pending.filter Pending.asks with
      | some _ => { s with chosen := some app }
      | none => { s with chosen := some app, judged := some app }

/-- The row an open detail pane is over, once the application is as given. -/
def panned (s : System) (app : App) : System :=
  if app.mode = .detail then { s with app, pane := some (s.app, s.app.selectedIds env) }
  else { s with app }

def step (s : System) : Event → Option System
  | .background b => some { s with app := s.app.background b }
  | .browse b => if b.taken s.app.mode then some { s with app := s.app.browse env b } else none
  | .acted i outcome =>
      s.flying[i]?.map fun f =>
        { s with
          app := s.app.acted env f.request.journal f.request.plan.toRef outcome,
          flying := s.flying.eraseIdx i }
  | .openMenu =>
      if s.app.mode = .table ∨ s.app.mode = .detail then
        let named := if s.app.overRow then s.pane else some (s.app, s.app.subjectIds env)
        some { s with app := s.app.openMenu env, named }
      else none
  | .openPicker =>
      if s.app.mode = .table then
        let named := some (s.app, s.app.selectedIds env)
        some ({ s with named }.panned env (s.app.openPicker env))
      else none
  | .openDetail =>
      if s.app.mode = .table then some (s.panned env (s.app.openDetail env)) else none
  | .closeDetail =>
      if s.app.mode = .detail then some { s with app := { s.app.closeDetail with mode := .table } }
      else none
  | .cancel =>
      if s.app.mode = .menu then
        some { s with app := { s.app with menu := none, mode := s.app.actingFrom } }
      else if s.app.mode = .picker then
        some { s with app := { s.app with picker := none, mode := .table } }
      else none
  | .start action =>
      if s.app.offers env action then
        if s.app.mode = .picker then
          let app := { s.app with picker := none, mode := .table }
          some ((s.remember env app action).launch none (s.app.pickAction env action))
        else some ((s.remember env s.app action).launch none (s.app.start env action))
      else none
  | .pickChild child =>
      if s.app.offersChild child then some { s with app := s.app.pickChild env child } else none
  | .type field text =>
      if s.app.mode = .fields then
        some { s with
          app := { s.app with
            form := s.app.form.map fun form => { form with values := form.values.set field text } } }
      else none
  | .submit =>
      if s.app.mode = .fields then
        let judged := if s.app.formChecks env then some s.app.submitted else s.judged
        some ({ s with judged }.launch none (s.app.submitForm env))
      else none
  | .closeForm => if s.app.mode = .fields then some { s with app := s.app.closeForm } else none
  | .confirmed =>
      if s.app.mode = .confirm then some (s.launch s.app.confirm (s.app.runPending env)) else none
  | .cancelConfirm =>
      if s.app.mode = .confirm then some { s with app := s.app.cancelConfirm } else none

/-- The program as it starts, with the rules of its configuration. -/
def init (guardrails : Guardrails) : System := { app := { guardrails } }

end System

/-! ### A program to run the definitions on -/

def powerOn : Action :=
  { name := "power-on", path := "/vmm/v4.0/ahv/config/vms/{extId}/$actions/power-on", method := .post,
    scope := ["extId"] }

def deleteVm : Action :=
  { name := "delete", path := "/vmm/v4.0/ahv/config/vms/{extId}", method := .delete,
    scope := ["extId"], confirm := .typeName }

def updateVm : Action :=
  { name := "update", path := "/vmm/v4.0/ahv/config/vms/{extId}", method := .put, needsBody := true,
    takesBody := true, scope := ["extId"], form := [{ name := "name", required := true }] }

/-- Virtual machines with three actions. -/
def actedVmKind : Kind := { vmKind with actions := [powerOn, deleteVm, updateVm] }

def detachNic : Action :=
  { name := "detach", path := "/vmm/v4.0/ahv/config/vms/{vmExtId}/nics/{extId}/$actions/detach",
    method := .post, scope := ["vmExtId", "extId"] }

/-- The network cards of a virtual machine. -/
def nicKind : Kind :=
  { id := "vmm.ahv.config.Nic", display := "NICs",
    listPath := "/vmm/v4.0/ahv/config/vms/{vmExtId}/nics", parent := some vmKind.id,
    actions := [detachNic] }

def nic (extId : String) : Entity := Entity.new nicKind (.obj [("extId", .str extId)]) none

def taskKind : Kind :=
  { id := taskKindId, display := "Tasks", listPath := "/prism/v4.0/config/tasks",
    getPath := some "/prism/v4.0/config/tasks/{extId}" }

/-- Two kinds and the tasks; the libraries are asked nothing. -/
def vmEnv : Env :=
  { catalog := [actedVmKind, nicKind, taskKind], taskKind,
    codec := { parse := fun _ => .error "not asked", print := fun _ => "", rfc3339 := fun _ => "" },
    render := fun _ e _ _ => e.name }

def labSession : Session := { context := some ⟨"lab", by decide⟩ }

def prodSession : Session := { context := some ⟨"prod", by decide⟩ }

/-- One walk of a list. -/
def listed (sub generation : ℕ) (rows : List Entity) : List Event :=
  [.background (.poll sub 0 (.started generation)),
    .background (.poll sub 0 (.page generation rows none)),
    .background (.poll sub 0 (.complete generation))]

/-- The virtual machines of two contexts in one table: those of the session, and those of a context
joined to it. -/
def merging (peer : Session) (own joined : List Entity) : List Event :=
  [.background (.attach labSession), .background (.joined peer),
    .browse (.openRoot actedVmKind)] ++ listed 1 1 own ++ listed 2 1 joined

end Nutsh
