/-
The application: the action pipeline, and what arrives beside it.

An action is chosen in the menu, in the picker of a row or by its key, runs on the rows the cursor or
the marks give at that moment, asks for a body and for a confirmation where they are due, and is sent
a request per row.  Meanwhile the polls go on, contexts are joined and dropped, the session is
replaced, and the outcomes of earlier requests come back.

* `App` — the state of the program, with the boxes that are open over the body;
* `App.refusalFor`, `App.start`, `App.prefill`, `App.submitForm`, `App.confirmOrRun`,
  `App.runPending` — the pipeline;
* `App.openMenu`, `App.openPicker`, `App.openDetail`, `App.pickChild` — the surfaces over a row;
* `App.attach`, `App.joined`, `App.keepPeers` — the sessions;
* `App.poll`, `App.acted` — what comes in.
-/
import Nutsh.Live

set_option relaxedAutoImplicit false
set_option autoImplicit false

namespace Nutsh

/-! ### The boxes over the body -/

/-- Which box has the keys; `elsewhere` are the boxes that take no part in an action. -/
inductive Mode where
  | table
  | picker
  | detail
  | menu
  | fields
  | confirm
  | elsewhere
  deriving DecidableEq, Repr

/-- An action, and why it cannot run if it cannot. -/
structure MenuRow where
  action : Action
  reason : Option String
  deriving DecidableEq

/-- The action menu; `subject` is what it says the action runs on. -/
structure Menu where
  subject : String
  rows : List MenuRow

/-- The picker over a row: the kinds listed under it, with why one is greyed, and its actions. -/
structure Picker where
  parent : Kind
  parentExtId : String
  parentName : String
  children : List (Kind × Option String)
  actions : List MenuRow

/-- The pane of one entity, or of a document an action answered with, which has no key. -/
structure Detail where
  key : Option TableKey := none
  extId : String := ""
  sub : Option ℕ := none
  /-- Whether the row is watched. -/
  watch : Bool := false

/-- The form of an action: its visible fields and what is typed into them. -/
structure Form where
  title : String
  fields : List Field
  values : List String
  /-- The kind whose rows are offered for a reference, and the kinds listed for that already. -/
  picker : Option Kind := none
  listed : List String := []

namespace Form

/-- The variants of an enum a form offers. -/
def offered (words : List String) : List String :=
  let kept := words.filter fun w => w.toList.head? != some '$'
  if kept.isEmpty then words else kept

/-- What a field starts at: its current value, else its own seed, else, unless an entity is being
edited, the shape of its type. -/
def seed (current : Option (IndexMap String String)) (f : Field) : String :=
  match (current.getD IndexMap.empty).get? f.name with
  | some now => now
  | none =>
      match f.value.filter fun v => v.toList.head? != some '$' with
      | some v => v
      | none =>
          if current.isSome then ""
          else
            match f.ty, f.value with
            | .json skeleton, none => skeleton
            | .enum words, _ => (offered words).head?.getD ""
            | _, _ => ""

/-- The form of an action, over an entity that exists when `current` is given. -/
def «over» (title : String) (fields : List Field) (current : Option (IndexMap String String)) : Form :=
  let visible := fields.filter fun f => !f.hidden
  { title, fields := visible, values := visible.map (seed current) }

/-- What the form collected. -/
def entered (form : Form) : IndexMap String String :=
  IndexMap.ofList ((form.fields.map Field.name).zip form.values)

end Form

/-- The confirm dialog. -/
structure Confirm where
  prompt : String
  names : List String
  more : ℕ
  /-- What has to be typed, `none` where yes is enough. -/
  expect : Option String
  deriving DecidableEq

/-- The dialog of a confirmation over the rows of the given names. -/
def Confirm.open (kind : ConfirmKind) (label display : String) (names : List String)
    (site : Option String) : Confirm :=
  let one := names.length == 1
  let count := names.length
  let first := names.head?.getD ""
  let subject := if one then first else s!"{count} {display}"
  let subject := match site with
    | some site => s!"{subject} on {site}"
    | none => subject
  let expect := if kind = .typeName then some (if one then first else s!"DELETE {count}") else none
  let prompt := match expect with
    | none => s!"{label} {subject}? [y/N]"
    | some what =>
        if one then s!"{label} {subject}. Type the name to confirm:"
        else s!"{label} {subject}. Type {what} to confirm:"
  { prompt, names := if one then [] else names.take 5, more := names.length - 5, expect }

/-- An action chosen, with the rows it applies to, by id and name, and what will be sent. -/
structure Pending where
  action : Action
  rows : List (String × String)
  /-- The one body the catalog curated for the action. -/
  body : Option Json := none
  /-- What the form collected. -/
  entered : Option (IndexMap String String) := none

/-- Whether a pending action asks for a body. -/
def Pending.asks (p : Pending) : Bool :=
  p.body.isNone && p.action.takesBody && !p.action.form.isEmpty

/-- A request on its way: the session whose client sends it, and the number of its entry in the
journal, with the context it was recorded against and the pending row it is for. -/
structure Request where
  session : Session
  plan : Plan
  journal : ℕ
  context : String
  row : String

structure App where
  live : Option Live := none
  mode : Mode := .elsewhere
  status : Option String := none
  now : ℕ := 0
  guardrails : Guardrails := {}
  menu : Option Menu := none
  picker : Option Picker := none
  detail : Option Detail := none
  form : Option Form := none
  confirm : Option Confirm := none
  pending : Option Pending := none
  /-- The ids no subscription and no scheduler was given yet. -/
  nextSub : ℕ := 1
  nextEpoch : ℕ := 1
  /-- The number of sessions attached. -/
  sessionGeneration : ℕ := 0

namespace App

variable (env : Env)

/-- The session changed, if there is one. -/
def mapLive (app : App) (f : Live → Live) : App := { app with live := app.live.map f }

/-- The body the pipeline runs over. -/
def actingFrom (app : App) : Mode := if app.detail.isSome then .detail else .table

/-! ### Rows -/

def cursor (app : App) : Option Live.Cursor := app.live.bind Live.cursor

def selectedExtId (app : App) : Option String :=
  app.live.bind fun live => live.selectedExtId env app.now

def selectedEntity (app : App) : Option Entity :=
  app.live.bind fun live => live.selectedEntity env app.now

def subjects (app : App) : List (String × String) :=
  (app.live.map fun live => live.subjects env app.now).getD []

/-- The joined context the row under the cursor is from, as far as it can be told from its id and
the key of the view. -/
def cursorSite (app : App) (live : Live) (c : Live.Cursor) : Option String :=
  ((live.selectedExtId env app.now).bind fun id => (splitRowId id).1).or c.key.context

/-- What the roles of the account on a context say, not resolved for a joined one. -/
def canIFor (live : Live) (site : Option String) : CanIndex :=
  if site.isSome then CanIndex.unknown "not resolved for a joined context" else live.canI.index

/-- What a refusal on a context is judged by. -/
def policyFor (app : App) (live : Live) (site : Option String) : Policy :=
  { session := live.sessionFor site, guardrails := app.guardrails, canI := canIFor live site }

/-- Why an action cannot run on a number of rows, judged by the row under the cursor. -/
def refusalFor (app : App) (action : Action) (count : ℕ) (entity : Option Entity) : Option String :=
  match app.live with
  | none => none
  | some live =>
      match live.cursor with
      | none => none
      | some c =>
          reason env.catalog (app.policyFor live (app.cursorSite env live c)) c.key.kind action
            c.key.parents entity count

def refusal (app : App) (action : Action) (count : ℕ) : Option String :=
  app.refusalFor env action count (app.selectedEntity env)

/-- The actions of the kind in view, each with why it cannot run. -/
def actionRows (app : App) : List MenuRow :=
  match app.cursor with
  | none => []
  | some c =>
      ((c.key.kind.actionTarget env.catalog).actions.filter fun a => !a.hidden).map fun action =>
        { action,
          reason := app.refusalFor env action (max (app.subjects env).length 1)
            (app.selectedEntity env) }

/-! ### The pipeline -/

/-- The first caller starts the resolution of the roles. -/
def startCanI (app : App) : App :=
  app.mapLive fun live => { live with canI := live.canI.claim.1 }

/-- A refused action recorded for each row it was asked for. -/
def journalRefusal (app : App) (action : Action) (subjects : List (String × String))
    (why : String) : App :=
  app.mapLive fun live =>
    match live.stack.head? with
    | some (.table view) =>
        { live with
          journal := subjects.foldl (fun j s =>
            (j.record
              { context := live.primaryName, kind := view.key.kind, extId := s.1, name := s.2,
                action := action.name }
              app.now (.denied why)).1) live.journal }
    | _ => live

/-- What an update form starts from: the values of the row under the cursor for one row, nothing for
several; `none` is no update. -/
def prefill (app : App) (action : Action) (rows : ℕ) : Option (IndexMap String String) :=
  if action.method = .put ∨ action.method = .patch then
    if 1 < rows then some IndexMap.empty
    else
      some (((app.selectedEntity env).map
        (currentValues env.codec action.form)).getD IndexMap.empty)
  else none

/-- The joined context all pending rows are from, when there are several contexts and they are from
one. -/
def pendingSite (app : App) (live : Live) : Option String :=
  if live.peers.isEmpty then none
  else
    match app.pending, live.cursor with
    | some pending, some c =>
        let sites := pending.rows.filterMap fun row =>
          (live.findRow c.key row.1).map fun r => r.1.getD live.primaryName
        match sites.destutter (· ≠ ·) with
        | [one] => some one
        | _ => none
    | _, _ => none

/-- The body sent for a row: built from what the form collected, else the curated one. -/
def bodyFor (app : App) (pending : Pending) (entity : Entity) : Except String (Option Json) :=
  match pending.entered with
  | some entered =>
      (buildBody env.codec pending.action.form entered entity app.now).map some
  | none => .ok pending.body

/-- What is sent for one pending row: the row found again, its client and context, its body and its
plan; `none` when it is gone. -/
def planRow (app : App) (live : Live) (key : TableKey) (pending : Pending) (id : String) :
    Option (Except String (Session × String × Plan)) :=
  (live.findRow key id).map fun (site, entity) => do
    let body ← app.bodyFor env pending entity
    let plan ← plan env.catalog key.kind entity pending.action key.parents body
    .ok (live.sessionFor site, site.getD live.primaryName, plan)

/-- The journal, the requests and the failures as the pending rows are gone through. -/
structure Sending where
  journal : Journal
  requests : List Request := []
  failures : List String := []

/-- One pending row planned and journalled. -/
def sendRow (app : App) (live : Live) (key : TableKey) (pending : Pending) (s : Sending)
    (row : String × String) : Sending :=
  match app.planRow env live key pending row.1 with
  | none => s
  | some (.error e) => { s with failures := s.failures ++ [e] }
  | some (.ok (session, context, plan)) =>
      let (journal, id) := s.journal.record
        { context, kind := key.kind, extId := plan.extId, name := plan.name,
          action := pending.action.name } app.now .started
      { s with
        journal,
        requests := s.requests ++ [{ session, plan, journal := id, context, row := row.1 }] }

/-- The marks of a table view spent. -/
def clearMarks : View → View
  | .table view => .table { view with marks := [] }
  | .page page => .page page

/-- The boxes of the pipeline closed, the pending action dropped. -/
def dropPending (app : App) : App :=
  { app with pending := none, confirm := none, menu := none, mode := app.actingFrom }

/-- The pending action sent: a request for each of its rows that is still there. -/
def runPending (app : App) : App × List Request :=
  match app.pending with
  | none => (app, [])
  | some pending =>
      let app := app.dropPending
      match app.live with
      | none => (app, [])
      | some live =>
          match live.cursor with
          | none => (app, [])
          | some c =>
              let s := pending.rows.foldl (app.sendRow env live c.key pending)
                { journal := live.journal }
              let started := s.requests.length
              let stack := if 0 < started then live.stack.modifyHead clearMarks else live.stack
              let status := match s.failures with
                | first :: _ => some first
                | [] => if 1 < started then some s!"{started} actions started" else app.status
              ({ app with live := some { live with journal := s.journal, stack }, status },
                s.requests)

/-- The pending action refused: recorded, and the boxes closed. -/
def refusePending (app : App) (pending : Pending) (why : String) : App :=
  let app := { app with pending := none }.journalRefusal pending.action pending.rows why
  { app with status := some why, confirm := none, menu := none, mode := app.actingFrom }

/-- The verdict on a pending action under the name of the session. -/
def ruling (app : App) (live : Live) (key : TableKey) (pending : Pending) : Verdict :=
  app.guardrails.verdict live.primaryName key.kind pending.action pending.rows.length
    (live.canI.index.can pending.action)

/-- The dialog a pending action is confirmed in. -/
def dialog (app : App) (live : Live) (key : TableKey) (pending : Pending) (strength : ConfirmKind) :
    Confirm :=
  Confirm.open strength pending.action.title key.kind.display (pending.rows.map Prod.snd)
    (app.pendingSite live)

/-- The pending action, judged once more, is confirmed or sent. -/
def confirmOrRun (app : App) : App × List Request :=
  match app.pending with
  | none => (app, [])
  | some pending =>
      match app.refusal env pending.action (max pending.rows.length 1) with
      | some why => (app.refusePending pending why, [])
      | none =>
          match app.live with
          | none => (app, [])
          | some live =>
              match live.cursor with
              | none => (app, [])
              | some c =>
                  match app.ruling live c.key pending with
                  | .confirm strength =>
                      ({ app with
                        confirm := some (app.dialog live c.key pending strength), mode := .confirm },
                        [])
                  | .allow => app.runPending env
                  | _ => (app.dropPending, [])

/-- An action chosen over the rows of the moment: pending, unless it is refused, there is no row, or
the curated body does not parse. -/
def pend (app : App) (action : Action) : Except App App :=
  let app := app.startCanI
  let subjects := app.subjects env
  match app.refusal env action (max subjects.length 1) with
  | some why => .error { app.journalRefusal action subjects why with status := some why }
  | none =>
      if subjects.isEmpty then .error { app with status := some "no row selected" }
      else
        match action.body.mapM env.codec.parse with
        | .error e =>
            let title := action.title
            .error { app with status := some s!"{title}: malformed curated body: {e}" }
        | .ok body => .ok { app with pending := some { action, rows := subjects, body } }

/-- The form of a pending action opened. -/
def openForm (app : App) (p : Pending) : App :=
  { app with
    form := some (Form.«over» p.action.title p.action.form (app.prefill env p.action p.rows.length)),
    mode := .fields }

/-- An action started: in the menu, in the picker, or by its key. -/
def start (app : App) (action : Action) : App × List Request :=
  match app.pend env action with
  | .error app => (app, [])
  | .ok app =>
      match app.pending.filter Pending.asks with
      | some p => (app.openForm env p, [])
      | none => app.confirmOrRun env

/-- Whether what was typed makes a body, tried on the first pending row still in the table of the
view. -/
def formChecks (app : App) : Bool :=
  match app.pending, app.form, app.live with
  | some pending, some form, some live =>
      match live.stack.head? with
      | some (.table view) =>
          let rows := (live.store.table view.key).rows
          (pending.rows.findSome? fun row => rows.get? row.1).any fun e =>
            (buildBody env.codec pending.action.form form.entered e app.now).isOk
      | _ => false
  | _, _, _ => false

/-- The form closed, what was typed kept with the pending action. -/
def submitted (app : App) : App :=
  match app.pending, app.form with
  | some pending, some form =>
      { app with pending := some { pending with entered := some form.entered }, form := none }
  | _, _ => app

/-- The form sent on: the pending action is confirmed or run with what was typed. -/
def submitForm (app : App) : App × List Request :=
  if app.formChecks env then app.submitted.confirmOrRun env else (app, [])

/-- The form given up, and the action with it. -/
def closeForm (app : App) : App :=
  { app with form := none, menu := none, pending := none, mode := .table }

/-- The dialog answered with no. -/
def cancelConfirm (app : App) : App := app.dropPending

/-! ### The surfaces over a row -/

/-- The menu over the rows an action would run on. -/
def openMenu (app : App) : App :=
  let app := app.startCanI
  match app.cursor with
  | none => app
  | some c =>
      let rows := app.actionRows env
      if rows.isEmpty then { app with status := some "no actions for this kind" }
      else
        let subject := match app.subjects env with
          | [one] => one.2
          | [] => "no row selected"
          | many =>
              let count := many.length
              let display := c.key.kind.display
              s!"{count} {display}"
        { app with menu := some { subject, rows }, mode := .menu }

/-- The picker for the row under the cursor, `none` when there is no row. -/
def buildPicker (app : App) : Option Picker :=
  app.live.bind fun live =>
    live.cursor.bind fun c =>
      (live.selectedExtId env app.now).bind fun id =>
        (live.findRow c.key id).map fun (site, entity) =>
          let session := live.sessionFor (site.or c.key.context)
          { parent := c.key.kind, parentExtId := entity.extId, parentName := entity.name,
            children := (c.key.kind.children env.catalog).map fun child =>
              (child, match child.reach env.catalog with
                | .fromParent _ => session.unavailable child
                | other => other.reason),
            actions := (app.actionRows env).filter fun row => row.action.actsOnARow }

/-- The detail pane over the row under the cursor, polled where its kind has a single read. -/
def openDetail (app : App) : App :=
  let app := app.startCanI
  match app.live with
  | none => app
  | some live =>
      match live.cursor, live.selectedExtId env app.now with
      | some c, some id =>
          let (site, extId) := splitRowId id
          let key := match site with
            | some name => c.key.inContext name
            | none => c.key
          let polls := key.kind.getPath.isSome && (live.schedulerFor key.context).isSome
          let subscribed := live.mapScheduler key.context fun s =>
            s.subscribe app.nextSub { key, single := some extId }
          { app with
            live := some (if polls then subscribed else live),
            nextSub := if polls then app.nextSub + 1 else app.nextSub,
            detail := some {
              key := some key, extId, sub := if polls then some app.nextSub else none },
            mode := .detail }
      | _, _ => app

/-- Enter on a row: the picker, or the detail pane when there is nothing to pick. -/
def openPicker (app : App) : App :=
  let app := app.startCanI
  match app.buildPicker env with
  | none => app
  | some picker =>
      if picker.children.isEmpty && picker.actions.isEmpty then app.openDetail env
      else { app with picker := some picker, mode := .picker }

def closeDetail (app : App) : App :=
  let sub := app.detail.bind Detail.sub
  { app with
    detail := none,
    live := match sub with
      | some sub => app.live.map fun live => live.unsubscribeAny sub
      | none => app.live }

/-- Every box closed. -/
def closeModals (app : App) : App :=
  { app with picker := none, menu := none, confirm := none, form := none, pending := none }.closeDetail

/-- A page that is buried stops polling its panes. -/
def releaseTop (live : Live) : Live :=
  match live.stack with
  | .page page :: rest =>
      { (page.panes.filterMap Pane.sub).foldl Live.unsubscribeAny live with
        store := page.panes.foldl (fun store pane => store.abandon pane.key) live.store,
        stack := .page { page with
          panes := page.panes.map fun pane => { pane with sub := none } } :: rest }
  | _ => live

/-- The key of a table opened from a context. -/
def viewKey (kind : Kind) (parents : List String) : Option String → TableKey
  | some name => (TableKey.under kind parents).inContext name
  | none => TableKey.under kind parents

/-- A table pushed over what the stack holds, if its context is joined. -/
def pushView (app : App) (live : Live) (kind : Kind) (parents : List String)
    (parentName context : Option String) : App :=
  let key := viewKey kind parents context
  if (live.schedulerFor key.context).isNone then { app with live := some live }
  else
    let live := (releaseTop live).mapScheduler key.context fun s => s.subscribe app.nextSub { key }
    let view : View := .table { key, sub := app.nextSub, parentName }
    let (live, nextSub) :=
      { live with stack := view :: live.stack }.subscribePeers (app.nextSub + 1)
    { app with live := some live, nextSub }

/-- The parents a child chosen now is listed under, its row apart: those of the table in view. -/
def childParents (live : Live) : List String :=
  match live.stack.head? with
  | some (.table view) => view.key.parents
  | _ => []

/-- The context a child chosen now is listed from: the one the id under the cursor names, else that of
the table in view. -/
def childContext (app : App) (live : Live) : Option String :=
  ((app.selectedExtId env).bind fun id => (splitRowId id).1).or
    (match live.stack.head? with
      | some (.table view) => view.key.context
      | _ => none)

/-- A child kind chosen in the picker: listed under the row the picker was opened over, from the
context of the row under the cursor. -/
def pickChild (app : App) (child : Kind) : App :=
  match app.picker with
  | none => app
  | some picker =>
      let app := { app with picker := none, mode := .table }
      match (picker.children.find? fun c => c.1 == child).bind Prod.snd with
      | some why => { app with status := some why }
      | none =>
          match app.live with
          | none => app
          | some live =>
              app.pushView live child (childParents live ++ [picker.parentExtId])
                (some picker.parentName) (app.childContext env live)

/-- An action chosen in the picker. -/
def pickAction (app : App) (action : Action) : App × List Request :=
  { app with picker := none, mode := .table }.start env action

/-! ### The sessions -/

/-- The session replaced: a fresh store and scheduler, an empty stack, every box closed. -/
def attach (app : App) (session : Session) : App :=
  let app := app.closeModals
  { app with
    live := some { session, scheduler := { epoch := app.nextEpoch } },
    nextEpoch := app.nextEpoch + 1, sessionGeneration := app.sessionGeneration + 1,
    mode := .table }

/-- The connect of a context to join came back. -/
def joined (app : App) (session : Session) : App :=
  match app.live with
  | none => app
  | some live =>
      let peer : Peer := { session, scheduler := { epoch := app.nextEpoch } }
      let live := live.forgetPeer peer.name
      let (live, nextSub) := { live with peers := live.peers ++ [peer] }.subscribePeers app.nextSub
      let name := peer.name
      { app with
        live := some live, nextSub, nextEpoch := app.nextEpoch + 1,
        status := some s!"joined {name}" }

/-- Every joined context dropped that is not to be kept. -/
def keepPeers (app : App) (keep : List String) : App :=
  app.mapLive fun live =>
    ((live.peers.map Peer.name).filter fun name => !keep.contains name).foldl Live.forgetPeer live

/-! ### What comes in -/

/-- A table with a row refreshed out of band, when the top view shows the kind. -/
def refreshRow (app : App) (kind : Kind) (extId : String) (site : Option String) : App :=
  match app.live with
  | none => app
  | some live =>
      match live.stack.head? with
      | some (.table view) =>
          if view.key.kind.id ≠ kind.id ∨ kind.getPath.isNone then app
          else
            let key := match site, view.key.context with
              | some name, none => view.key.inContext name
              | _, _ => view.key
            if (live.schedulerFor key.context).isNone then app
            else
              { app with
                live := some (live.mapScheduler key.context fun s =>
                  s.subscribe app.nextSub
                    { key, single := some extId, once := true, pausable := false, interval := 1 }),
                nextSub := app.nextSub + 1 }
      | _ => app

/-- The joined context an entry of the journal was recorded against, none for the session's own and
for an entry the ring has dropped. -/
def siteOf (live : Live) (journal : ℕ) : Option String :=
  (live.journal.contextOf journal).filter fun context => context != live.primaryName

/-- The outcome of a mutation: the watch opened, the journal settled, the row refreshed. -/
def acted (app : App) (journal : ℕ) (plan : PlanRef) (outcome : Outcome) : App :=
  match app.live with
  | none => app
  | some live =>
      let site := siteOf live journal
      let action := plan.action.name
      let name := plan.name
      match outcome with
      | .started task =>
          let watched := match live.schedulerFor site with
            | none => live
            | some scheduler =>
                let (tasks, scheduler) := live.tasks.watch env.taskKind scheduler app.nextSub site plan
                  task journal app.now
                { live.mapScheduler site fun _ => scheduler with tasks }
          { app with
            live := some { watched with journal := live.journal.settle journal .started (some task) },
            nextSub := app.nextSub + 1, status := some s!"{action} {name}: task started" }
      | .done =>
          let app := { app with
            live := some { live with journal := live.journal.settle journal .succeeded none } }
          { app.refreshRow plan.rowKind plan.extId site with
            status := some s!"{action} {name}: done" }
      | .returned _ =>
          let app := { app with
            live := some { live with journal := live.journal.settle journal .succeeded none }
          }.closeModals
          { app with
            detail := some {}, mode := .detail, status := some s!"{action} {name}: done" }
      | .failed failure forbidden =>
          let text := failure.text
          let live := { live with
            journal := live.journal.settle journal (.failed failure.upstream) none }
          let live := if forbidden then { live with canI := live.canI.invalidate } else live
          { app with live := some live, status := some s!"{action} {name} failed: {text}" }

/-- A watched task that ended: the journal settled, and the row refreshed if it succeeded. -/
def finished (app : App) (live : Live) (done : Finished) : App :=
  let w := done.watch
  let live := live.unsubscribeAny w.sub
  let live := { live with journal := live.journal.settle w.journal done.outcome (some w.task) }
  let app := { app with live := some live }
  let app :=
    if w.status = .succeeded then app.refreshRow w.rowKind w.extId (siteOf live w.journal) else app
  let action := w.action
  let name := w.name
  let label := w.status.label
  { app with status := some s!"{action} {name}: {label}" }

/-- A message of a live subscription.  Of the open detail's only the entity reaches the store; a
task entity ends its watch before it is stored. -/
def poll (app : App) (sub now : ℕ) (u : Update) : App :=
  match app.live with
  | none => app
  | some live =>
      match live.subscription sub with
      | none => app
      | some s =>
          if app.detail.any fun d => d.sub == some sub then
            match u with
            | .entity _ _ => { app with live := some { live with store := live.store.apply s.key now u } }
            | _ => app
          else
            let (tasks, done) := match u with
              | .entity _ e => live.tasks.apply e
              | _ => (live.tasks, none)
            let live := { live with tasks }
            let app := match done with
              | some done => app.finished live done
              | none => { app with live := some live }
            app.mapLive fun live =>
              { live with store := live.store.apply s.key now u }.clampSelection

end App

end Nutsh
