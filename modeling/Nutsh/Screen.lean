/-
The screen: every box that can be open, and everything that polls under it.

The system runs the action pipeline and takes all other boxes together.  Here each of them has a place
of its own, with the mode it was opened over and goes back to; a connect is on its way while its screen
waits; and the schedules the polls run at are those of the configuration and of this run.  Beside the
screen it is remembered what it looked like when a box opened: the screen never reads that.

* `Box`, `Screen.Mode`, `Screen.Shape` — what can have the keys, and what the claims about boxes are
  about;
* `Screen.esc` — every way out of a box;
* `Screen.choose`, `Screen.setting`, `Screen.onContexts` — the palette, the settings, the contexts;
* `Screen.setSchedule`, `Screen.stepRefresh`, `Screen.toggleWatch` — the schedules;
* `Screen.step` — the run.
-/
import Nutsh.Refresh
import Nutsh.System

set_option relaxedAutoImplicit false
set_option autoImplicit false

namespace Nutsh

/-- The boxes that take no part in an action. -/
inductive Box where
  | contexts
  | form
  | command
  | help
  | skins
  | journal
  | search
  | settings
  | activity
  | ladder
  deriving DecidableEq, Repr

/-- What has the keys. -/
inductive Screen.Mode where
  | table
  | picker
  | detail
  | menu
  | fields
  | confirm
  | box (b : Box)
  deriving DecidableEq, Repr

/-- What is open: the mode, the pane, and the boxes of an action and of the palette. -/
structure Screen.Shape where
  mode : Screen.Mode := .box .contexts
  detail : Option Detail := none
  menu : Bool := false
  picker : Bool := false
  form : Bool := false
  confirm : Bool := false
  pending : Bool := false
  palette : Bool := false

structure Screen where
  sys : System
  /-- The box that has the keys where the pipeline has none that does. -/
  box : Box := .contexts
  /-- Which boxes are there: the palette is that of `command`. -/
  up : Box → Bool := fun _ => false
  /-- The mode a box was opened over. -/
  cameFrom : Box → Screen.Mode := fun _ => .box .contexts
  /-- The level of the schedules the ladder is open over. -/
  ladder : Option Schedule := none
  /-- The box over the rows of the contexts is open; a connect runs; the connects on their way. -/
  prompt : Bool := false
  pending : Bool := false
  connects : ℕ := 0
  refreshCfg : Refresh := {}
  /-- By the id of the kind. -/
  refreshSession : IndexMap String Interval := IndexMap.empty
  /-- What the screen was before the box opened, the boxes of an action being one. -/
  beneath : Option Box → Screen.Shape := fun _ => {}

/-- The alerts around a failed task: their kind, and the filter that asks for them. -/
structure Evidence where
  kind : Kind
  asks : Entity → Option String

namespace Live

/-- The tasks of every scheduler, with the context it polls. -/
def polls (live : Live) : List (Option String × ℕ × Subscription) :=
  (live.scheduler.tasks.map fun t => (none, t)) ++
    live.peers.flatMap fun p => p.scheduler.tasks.map fun t => (some p.name, t)

/-- A change of every scheduler. -/
def mapSchedulers (live : Live) (f : Scheduler → Scheduler) : Live :=
  { live with
    scheduler := f live.scheduler, peers := live.peers.map fun p => { p with scheduler := f p.scheduler } }

/-- Whether a subscription is that of a pane of the open page. -/
def onPage (live : Live) (sub : ℕ) : Bool :=
  match live.stack.head? with
  | some (.page page) => page.panes.any fun pane => pane.sub == some sub
  | _ => false

/-- The panes the session has come to refuse stop polling. -/
def regrade (live : Live) (refused : Kind → Option String) : Live :=
  match live.stack with
  | .page page :: rest =>
      let gone := page.panes.filter fun pane =>
        pane.reason.isNone && (refused pane.key.kind).isSome
      { (gone.filterMap Pane.sub).foldl unsubscribeAny live with
        stack := .page { page with
          panes := page.panes.map fun pane =>
            if pane.reason.isNone && (refused pane.key.kind).isSome then
              { pane with reason := refused pane.key.kind, sub := none }
            else pane } :: rest }
  | _ => live

/-- One pane subscribed anew, if it polls and is drawn taller than its subscription asks for. -/
def resizePane (r : Live × List Pane × ℕ) (pane : Pane) : Live × List Pane × ℕ :=
  let (live, done, next) := r
  match pane.sub with
  | none => (live, done ++ [pane], next)
  | some old =>
      -- a pane drawn shorter holds every row it can draw
      if pane.askedRows.any fun asked => paneBudget pane.drawn ≤ asked then
        (live, done ++ [pane], next)
      else
        ((live.unsubscribeAny old).mapScheduler none fun s => s.subscribe next { key := pane.key },
          done ++ [{ pane with sub := some next, askedRows := some (paneBudget pane.drawn) }],
          next + 1)

/-- The open page resized. -/
def resize (live : Live) (next : ℕ) : Live × ℕ :=
  match live.stack with
  | .page page :: rest =>
      let (live, panes, next) := page.panes.foldl resizePane (live, [], next)
      ({ live with stack := .page { page with panes } :: rest }, next)
  | _ => (live, next)

end Live

namespace Screen

def app (s : Screen) : App := s.sys.app

def mapApp (s : Screen) (f : App → App) : Screen := { s with sys := { s.sys with app := f s.sys.app } }

/-- The mode of the pipeline, the other boxes taken together. -/
def Mode.inner : Screen.Mode → Nutsh.Mode
  | table => .table
  | picker => .picker
  | detail => .detail
  | menu => .menu
  | fields => .fields
  | confirm => .confirm
  | box _ => .elsewhere

def Mode.ofInner (b : Box) : Nutsh.Mode → Screen.Mode
  | .table => table
  | .picker => picker
  | .detail => detail
  | .menu => menu
  | .fields => fields
  | .confirm => confirm
  | .elsewhere => box b

def mode (s : Screen) : Screen.Mode := Mode.ofInner s.box s.app.mode

/-- The mode drawn behind a box. -/
def backgroundMode (s : Screen) : Screen.Mode :=
  match s.mode with
  | .box .help => s.cameFrom .help
  | .box .command => s.cameFrom .command
  | .box .skins => s.cameFrom .skins
  | .box .ladder => s.cameFrom .settings
  | .box .journal => s.cameFrom .journal
  | .box .activity => s.cameFrom .activity
  | .box .search => s.cameFrom .search
  | .box .settings => s.cameFrom .settings
  | .menu => Mode.ofInner s.box s.app.actingFrom
  | .confirm => Mode.ofInner s.box s.app.actingFrom
  | .fields => Mode.ofInner s.box s.app.actingFrom
  | mode => mode

/-- The keys given to a mode. -/
def «show» (s : Screen) (m : Screen.Mode) : Screen :=
  let s := s.mapApp fun app => { app with mode := m.inner }
  match m with
  | .box b => { s with box := b }
  | _ => s

@[simp] theorem mode_show (s : Screen) (m : Screen.Mode) : (s.show m).mode = m := by
  cases m <;> rfl

def shape (s : Screen) : Shape :=
  { mode := s.mode, detail := s.app.detail, menu := s.app.menu.isSome, picker := s.app.picker.isSome,
    form := s.app.form.isSome, confirm := s.app.confirm.isSome, pending := s.app.pending.isSome,
    palette := s.up .command }

/-- A box put up or taken away. -/
def put (s : Screen) (b : Box) (up : Bool) : Screen := { s with up := Function.update s.up b up }

/-- What the screen is, kept while a box is over it. -/
def remember (s : Screen) (b : Option Box) (what : Shape) : Screen :=
  { s with beneath := Function.update s.beneath b what }

/-- A box opened over the mode of the moment. -/
def enter (s : Screen) (b : Box) : Screen :=
  (({ s with cameFrom := Function.update s.cameFrom b s.mode }.remember (some b) s.shape).put b
    true).show (.box b)

/-- A box closed, for the mode it was opened over; without the box its keys do nothing. -/
def dismiss (s : Screen) (b : Box) : Screen :=
  if s.up b then (s.put b false).show (s.cameFrom b) else s

/-- What closing the modals closes beside the boxes of the pipeline and the pane. -/
def closeBoxes (s : Screen) : Screen :=
  { s with
    up := fun b =>
      s.up b && b != .command && b != .skins && b != .settings && b != .journal && b != .search }

section

variable (env : Env) (evidence : Evidence)

/-! ### Roots -/

/-- What can be opened as a root: the table of a kind, or a page. -/
inductive Target where
  | kind (kind : Kind)
  | page (panes : List PaneDef)

/-- Whether a target is opened, rather than explained. -/
def opens (s : Screen) : Target → Bool
  | .kind kind =>
      s.app.live.any fun live =>
        env.catalog.contains kind && (kind.reach env.catalog).reason.isNone &&
          (live.session.unavailable kind).isNone
  | .page panes => s.app.live.isSome && panes.all fun d => env.catalog.contains d.kind

/-- A target opened as the root, the stack and every modal dropped. -/
def openRoot (s : Screen) (t : Target) : Screen :=
  if s.opens env t then
    match t with
    | .kind kind => s.closeBoxes.mapApp fun app => app.openRoot env kind
    | .page panes => s.closeBoxes.mapApp fun app => app.openPage panes
  else s

def showContexts (s : Screen) : Screen := s.show (.box .contexts)

def showSettings (s : Screen) : Screen := s.enter .settings

/-- The rows of the settings built anew, the mode behind them kept. -/
def reopenSettings (s : Screen) : Screen := (s.put .settings true).show (.box .settings)

/-! ### Schedules -/

/-- How often a kind is polled under the configuration and what this run overrode. -/
def refreshOf (s : Screen) (kind : Kind) : Option ℕ × Origin :=
  effective kind s.refreshCfg (s.refreshSession.get? kind.id)

/-- The kind the body is about: that of the open pane, else that of the table of the cursor. -/
def currentKind (s : Screen) : Option Kind :=
  ((s.app.detail.bind Detail.key).map TableKey.kind).or (s.app.cursor.map fun c => c.key.kind)

/-- Every pausable subscription over a kind polls as the schedule of the kind says. -/
def retime (s : Screen) (kind : Kind) : Screen :=
  s.mapApp fun app => app.mapLive fun live =>
    live.mapSchedulers fun scheduler =>
      scheduler.setIntervalKind kind.id ((s.refreshOf kind).1.getD 0)

/-- One rung down for the kind of the body, in this run. -/
def stepRefresh (s : Screen) : Screen :=
  match s.currentKind with
  | none => s
  | some kind =>
      { s with
        refreshSession :=
          s.refreshSession.insert kind.id (refreshStep (s.refreshOf kind).1) }.retime kind

/-- A level written to the file, which holds `file` as others left it, or could not be written. -/
def save (s : Screen) (level : Schedule) (v : Interval) (file : Option Refresh) : Screen :=
  let s := match level with
    | .kind id => { s with refreshSession := s.refreshSession.erase id }
    | _ => s
  match file with
  | some cfg => { s with refreshCfg := cfg.set v level }
  | none => s

/-- The schedule of the kind of the body kept in the file. -/
def refreshCommand (s : Screen) (v : Interval) (file : Option Refresh) : Screen :=
  match s.currentKind with
  | none => s
  | some kind => (s.save (.kind kind.id) v file).retime kind

/-- A level of the schedules written, and the pollers it is about retimed. -/
def setSchedule (s : Screen) (level : Schedule) (v : Interval) (file : Option Refresh) : Screen :=
  ((env.catalog.filter fun k => level.touches k).foldl retime (s.save level v file)).reopenSettings

/-- The rung a row of the settings steps to. -/
def nextRung (s : Screen) : Schedule → Interval
  | .kind id =>
      match env.catalog.kind id with
      | some kind => refreshStep (s.refreshOf kind).1
      | none => refreshStepFrom s.refreshCfg.default
  | .namespace name =>
      refreshStepFrom ((s.refreshCfg.namespaces.get? name).or s.refreshCfg.default)
  | .everything => refreshStepFrom s.refreshCfg.default

/-- The row of the pane polled at a rhythm of its own, or as the catalog says again. -/
def toggleWatch (s : Screen) (every : ℕ) : Screen :=
  match s.app.detail with
  | none => s
  | some d =>
      match d.sub with
      | none => s
      | some sub =>
          let interval := if d.watch then (d.key.map fun key => key.kind.rhythm).getD 0 else every
          s.mapApp fun app =>
            { app.mapLive fun live =>
                live.mapSchedulers fun scheduler => scheduler.setInterval sub interval with
              detail := some { d with watch := !d.watch } }

/-! ### What polls once -/

/-- The list of a key, read once on the session's own scheduler. -/
def listOnce (s : Screen) (key : TableKey) : Screen :=
  s.mapApp fun app =>
    { app.mapLive fun live =>
        live.mapScheduler none fun scheduler =>
          scheduler.subscribe app.nextSub { key, once := true, pausable := false, interval := 1 } with
      nextSub := app.nextSub + 1 }

/-- The alerts around the failed task an opened pane is over, read once from the context of the row,
if `served` there. -/
def askEvidence (served : Bool) (s : Screen) : Screen :=
  match s.app.live, s.app.detail.bind fun d => d.key.map fun key => (key, d.extId) with
  | some live, some (key, extId) =>
      match ((live.store.table key).rows.get? extId).bind evidence.asks with
      | none => s
      | some filter =>
          if served && (live.schedulerFor key.context).isSome then
            let sub : Subscription :=
              { key := TableKey.filtered evidence.kind (some filter), once := true,
                pausable := false, interval := 1 }
            s.mapApp fun app =>
              { app with
                live := some (live.mapScheduler key.context fun scheduler =>
                  scheduler.subscribe app.nextSub sub),
                nextSub := app.nextSub + 1 }
          else s
  | _, _ => s

/-- What comes after a pane was opened: its evidence. -/
def opened (served : Bool) (s : Screen) : Screen :=
  if s.app.mode = .detail then s.askEvidence evidence served else s

/-- The rows of a kind offered for a reference of the form, listed once where the store has not all of
them; a kind that cannot be listed is explained. -/
def openRefPicker (s : Screen) (kind : Kind) : Screen :=
  match s.app.live, s.app.form with
  | some live, some form =>
      if (kind.reach env.catalog).reason.isSome || (live.session.unavailable kind).isSome then s
      else
        let table := live.store.table (TableKey.top kind)
        let short := table.loading || table.total.any fun total => table.rows.len < total
        let listing := short && !form.listed.contains kind.id
        let form := { form with
          picker := some kind, listed := if short then kind.id :: form.listed else form.listed }
        (if listing then s.listOnce (TableKey.top kind) else s).mapApp fun app =>
          { app with form := some form }
  | _, _ => s

/-- The reference picker closed, with what was chosen written into a field. -/
def closeRefPicker (s : Screen) (chosen : Option (ℕ × String)) : Screen :=
  s.mapApp fun app =>
    { app with
      form := app.form.map fun form =>
        { form with
          picker := none
          values := match chosen with
            | some (field, extId) => form.values.set field extId
            | none => form.values } }

/-- Whether a reference picker has the keys of the form. -/
def picking (s : Screen) : Bool := s.app.form.any fun form => form.picker.isSome

/-- What every kind is asked for under one term. -/
def searchCommand (s : Screen) (asks : List (Kind × Option String)) : Screen :=
  if s.app.live.isSome then
    (asks.foldl (fun s ask => s.listOnce (TableKey.filtered ask.1 ask.2)) s).enter .search
  else s

/-! ### The ways out -/

/-- The list of skins closed, back on the settings where they opened it. -/
def leaveSkins (s : Screen) : Screen :=
  let s := s.dismiss .skins
  if s.mode = .box .settings then s.reopenSettings else s

def escBox (s : Screen) : Box → Screen
  | .contexts =>
      if s.pending then s
      else if s.app.live.any fun live => !live.stack.isEmpty then s.show .table
      else s
  | .form => if s.pending then s else { s with prompt := false }.show (.box .contexts)
  | .help => s.show (s.cameFrom .help)
  | .skins => s.leaveSkins
  | .ladder => if s.ladder.isSome then { s with ladder := none }.show (.box .settings) else s
  | b => s.dismiss b

/-- The system taking a step of its own. -/
def within (s : Screen) (e : Nutsh.Event) : Option Screen :=
  (s.sys.step env e).map fun sys => { s with sys }

/-- The key that closes what has the keys; in a table it closes nothing here. -/
def esc (s : Screen) : Option Screen :=
  match s.mode with
  | .table => none
  | .detail => s.within env .closeDetail
  | .picker => s.within env .cancel
  | .menu => s.within env .cancel
  | .fields => if s.picking then some (s.closeRefPicker none) else s.within env .closeForm
  | .confirm => s.within env .cancelConfirm
  | .box b => some (s.escBox b)

/-! ### The contexts -/

def startConnect (s : Screen) : Screen :=
  { s with pending := true, connects := s.connects + 1 }.show
    (.box (if s.prompt then .form else .contexts))

/-- A connect failed: back to the box that asked for it. -/
def connectFailed (s : Screen) : Screen :=
  { s with pending := false, connects := s.connects - 1 }.show
    (.box (if s.prompt then .form else .contexts))

/-- A connect came back: a fresh session, and on it what was open before, else what the command line
named, else the contexts. -/
def connected (s : Screen) (session : Session) (was home : Target) : Screen :=
  let s := { s with pending := false, connects := s.connects - 1 }
  let s := s.closeBoxes.mapApp fun app => app.attach session
  let s := { s with prompt := false }
  if s.opens env was then s.openRoot env was
  else if s.opens env home then s.openRoot env home
  else s.showContexts

/-- A key on the rows of the contexts, or in the box over them. -/
inductive ContextsKey where
  /-- The box over the rows is opened. -/
  | opened
  | connect
  /-- A joined context is dropped, the others kept. -/
  | drop (name : String)
  | palette

def openPalette (s : Screen) : Screen := s.enter .command

def keepPeers (s : Screen) (keep : List String) : Screen := s.mapApp fun app => app.keepPeers keep

def onContexts (s : Screen) (b : Box) (key : ContextsKey) : Screen :=
  if s.pending then s
  else
    match b, key with
    | .contexts, .opened => { s with prompt := true }.show (.box .form)
    | .contexts, .connect => s.startConnect
    | .contexts, .drop name =>
        s.keepPeers (((s.app.live.map fun live => live.peers.map Peer.name).getD []).filter (· != name))
    | .contexts, .palette => if s.app.live.isSome then s.openPalette else s
    | .form, .connect => s.startConnect
    | _, _ => s

/-! ### The palette and the settings -/

/-- What a line of the palette runs. -/
inductive Command where
  | help
  | open (t : Target)
  | contexts
  /-- The context named has no password: its login box. -/
  | login
  | connect
  /-- The session named again: the contexts that are not named are dropped. -/
  | keepPeers (keep : List String)
  | skins
  | journal
  | activity
  | search (asks : List (Kind × Option String))
  | settings
  /-- Without a value the palette opens again. -/
  | refresh (value : Option (Interval × Option Refresh))
  /-- What moves neither the boxes nor the polls. -/
  | other

def run (s : Screen) : Command → Screen
  | .help => s.enter .help
  | .open t => s.openRoot env t
  | .contexts => s.showContexts
  | .login => { s with prompt := true }.show (.box .form)
  | .connect => s.startConnect
  | .keepPeers keep => s.keepPeers keep
  | .skins => s.enter .skins
  | .journal => if s.app.live.isSome then s.enter .journal else s
  | .activity => if s.app.live.isSome then s.enter .activity else s
  | .search asks => s.searchCommand asks
  | .settings => s.showSettings
  | .refresh none => if s.currentKind.isSome then s.openPalette else s
  | .refresh (some (v, file)) => s.refreshCommand v file
  | .other => s

/-- A line of the palette accepted. -/
def choose (s : Screen) (c : Command) : Screen :=
  if s.up .command then (s.dismiss .command).run env c else s

/-- A key on the settings. -/
inductive SettingsKey where
  | skins
  /-- The palette, on the verb that hides. -/
  | add
  /-- One rung further on a level, the file being what others left. -/
  | cycle (level : Schedule) (file : Option Refresh)
  /-- The ladder of a level. -/
  | pick (level : Schedule)
  | other

def setting (s : Screen) (key : SettingsKey) : Screen :=
  if s.up .settings then
    match key with
    | .skins => s.enter .skins
    | .add => (s.dismiss .settings).openPalette
    | .cycle level file => s.setSchedule env level (s.nextRung env level) file
    | .pick level => ({ s with ladder := some level }.remember (some .ladder) s.shape).show (.box .ladder)
    | .other => s.reopenSettings
  else s

/-- A rung chosen on the ladder. -/
def chooseRung (s : Screen) (v : Interval) (file : Option Refresh) : Screen :=
  match s.ladder with
  | none => s
  | some level => ({ s with ladder := none }.show (.box .settings)).setSchedule env level v file

/-! ### What comes in -/

/-- A message of a subscription; one of a pane has the session asked again what it lists. -/
def poll (s : Screen) (sub now : ℕ) (u : Update) (refused : Kind → Option String) : Screen :=
  (s.mapApp fun app => app.poll sub now u).mapApp fun app => app.mapLive fun live =>
    if live.anyLive sub && live.onPage sub then live.regrade refused else live

/-- A subscription that was to run once has. -/
def done (s : Screen) (sub : ℕ) : Screen :=
  s.mapApp fun app => app.mapLive fun live =>
    live.mapSchedulers fun scheduler =>
      { scheduler with tasks := scheduler.tasks.filter fun t => !(t.1 == sub && t.2.once) }

/-- The panes of the open page at the heights of the last frame. -/
def drawn (heights : List ℕ) (live : Live) : Live :=
  { live with
    stack := live.stack.modifyHead fun
      | .table view => .table view
      | .page page => .page { page with
          panes := page.panes.zipIdx.map fun (pane, i) => { pane with drawn := heights.getD i 0 } } }

/-- The second, after a frame. -/
def tick (s : Screen) (heights : List ℕ) : Screen :=
  s.mapApp fun app =>
    match app.live with
    | none => app
    | some live =>
        let (live, nextSub) := (drawn heights live).resize app.nextSub
        { app with live := some live, nextSub }

/-- A box of the pipeline that opened over the body: the body is remembered. -/
def overBody (s s' : Screen) : Screen :=
  if (s.mode = .table ∨ s.mode = .detail) ∧ s'.app.mode ∈ [.picker, .menu, .fields, .confirm] then
    s'.remember none s.shape
  else s'

/-- An outcome of a request; a document it answers with takes every modal down. -/
def acted (s : Screen) (i : ℕ) (outcome : Outcome) : Option Screen :=
  (s.within env (.acted i outcome)).map fun s =>
    match outcome with
    | .returned _ => if s.app.live.isSome then s.closeBoxes else s
    | _ => s

end

end Screen

/-- What the system takes as it is: the pipeline while the boxes are its own, the cursor, and what
resolves beside the user. -/
def Event.plain : Event → Bool
  | .background b =>
      match b with
      | .rolesResolved _ _ => true
      | .rolesRestored _ => true
      | .restored _ _ _ _ _ _ => true
      | .restoredNames _ => true
      | .tick _ => true
      | _ => false
  | .browse b =>
      match b with
      | .openRoot _ => false
      | .openPage _ => false
      | .leave => false
      | .back => false
      | _ => true
  | .openMenu => true
  | .start _ => true
  | .pickChild _ => true
  | .type _ _ => true
  | .submit => true
  | .confirmed => true
  | _ => false

namespace Screen

inductive Event where
  /-- A step the system takes by itself. -/
  | plain (e : Nutsh.Event)
  | acted (i : ℕ) (outcome : Outcome)
  /-- The way out of what has the keys. -/
  | esc
  /-- The pane of the row under the cursor, and the picker of it; `served` is whether the context of the
  row lists the alerts. -/
  | openDetail (served : Bool)
  | openPicker (served : Bool)
  | help
  | openPalette
  | choose (c : Command)
  /-- An entry of the menu of the sides. -/
  | openTarget (t : Target)
  | showContexts
  | showSettings
  | setting (key : SettingsKey)
  | chooseRung (v : Interval) (file : Option Refresh)
  /-- A result of the search opened. -/
  | openHit (kind : Kind)
  | onContexts (key : ContextsKey)
  | stepRefresh
  | toggleWatch (every : ℕ)
  | openRefPicker (kind : Kind)
  | choseRef (field : ℕ) (extId : String)
  | connected (session : Session) (was home : Target)
  | connectFailed
  | joined (session : Session)
  | poll (sub now : ℕ) (u : Update) (refused : Kind → Option String)
  | done (sub : ℕ)
  | tick (heights : List ℕ)

section

variable (env : Env) (evidence : Evidence)

def step (s : Screen) : Event → Option Screen
  | .plain e => if e.plain && !s.picking then (s.within env e).map s.overBody else none
  | .acted i outcome => s.acted env i outcome
  | .esc => s.esc env
  | .openDetail served => (s.within env .openDetail).map (opened evidence served)
  | .openPicker served => (s.within env .openPicker).map fun s' => s.overBody (opened evidence served s')
  | .help => if s.mode = .table ∨ s.mode = .detail then some (s.enter .help) else none
  | .openPalette => if s.mode = .table then some s.openPalette else none
  | .choose c => if s.mode = .box .command then some (s.choose env c) else none
  | .openTarget t => if s.mode = .table then some (s.openRoot env t) else none
  | .showContexts => if s.mode = .table then some s.showContexts else none
  | .showSettings => if s.mode = .table then some s.showSettings else none
  | .setting key => if s.mode = .box .settings then some (s.setting env key) else none
  | .chooseRung v file => if s.mode = .box .ladder then some (s.chooseRung env v file) else none
  | .openHit kind =>
      if s.mode = .box .search ∧ s.up .search = true then
        some ((s.dismiss .search).openRoot env (.kind kind))
      else none
  | .onContexts key =>
      match s.mode with
      | .box b => some (s.onContexts b key)
      | _ => none
  | .stepRefresh => if s.mode = .table ∨ s.mode = .detail then some s.stepRefresh else none
  | .toggleWatch every => if s.mode = .detail then some (s.toggleWatch every) else none
  | .openRefPicker kind =>
      if s.mode = .fields ∧ s.picking = false then some (s.openRefPicker env kind) else none
  | .choseRef field extId =>
      if s.mode = .fields ∧ s.picking = true then some (s.closeRefPicker (some (field, extId)))
      else none
  | .connected session was home =>
      if 0 < s.connects then some (s.connected env session was home) else none
  | .connectFailed => if 0 < s.connects then some s.connectFailed else none
  | .joined session => some (s.mapApp fun app => app.joined session)
  | .poll sub now u refused => some (s.poll sub now u refused)
  | .done sub => some (s.done sub)
  | .tick heights => some (s.tick heights)

end

/-- The program as it starts, with the rules and the schedules of its configuration. -/
def init (guardrails : Guardrails) (refreshCfg : Refresh) : Screen :=
  { sys := System.init guardrails, refreshCfg }

end Screen

/-! ### A program to run the definitions on -/

def alertKind : Kind :=
  { id := "monitoring.serviceability.Alert", display := "Alerts",
    listPath := "/monitoring/v4.0/serviceability/alerts" }

/-- The alerts of a failed task, asked for under one window. -/
def taskEvidence : Evidence where
  kind := alertKind
  asks e :=
    if e.kind.id = taskKindId ∧ (e.raw.get "status").bind Json.asStr = some "FAILED" then
      some "creationTime ge 2024-05-01T10:00:00Z"
    else none

def failedTask (extId : String) : Entity :=
  Entity.new taskKind (.obj [("extId", .str extId), ("status", .str "FAILED")]) none

/-- A session connected, and a root opened on it. -/
def connecting (session : Session) (root : Screen.Target) : List Screen.Event :=
  [.onContexts .connect, .connected session root root]

/-- One walk of a list, on the screen. -/
def walked (sub : ℕ) (rows : List Entity) : List Screen.Event :=
  [.poll sub 0 (.started 1) fun _ => none, .poll sub 0 (.page 1 rows none) fun _ => none,
    .poll sub 0 (.complete 1) fun _ => none]

end Nutsh
