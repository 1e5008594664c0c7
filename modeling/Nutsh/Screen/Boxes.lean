/-
The boxes of the application, and what each function does to them.

The action pipeline opens one box after the other over the body; what comes in from elsewhere leaves
the boxes as they are, a document that an action answers with apart.

* `Boxes`, `App.boxes` — the mode and the boxes;
* `App.boxes_runPending`, `App.boxes_confirmOrRun`, `App.boxes_start`, `App.boxes_submitForm` — the
  pipeline;
* `App.boxes_openMenu`, `App.boxes_openDetail`, `App.boxes_openPicker`, `App.boxes_pickChild` — the
  surfaces over a row;
* `App.boxes_poll`, `App.boxes_acted` — what comes in.
-/
import Nutsh.Screen.Changes
import Nutsh.System.Choice

set_option relaxedAutoImplicit false
set_option autoImplicit false

namespace Nutsh

/-- The mode, and the boxes that can be open. -/
structure Boxes where
  mode : Mode
  detail : Option Detail
  menu : Option Menu
  picker : Option Picker
  form : Option Form
  confirm : Option Confirm
  pending : Option Pending

/-- The boxes once the pending action is dropped. -/
def Boxes.dropped (b : Boxes) : Boxes :=
  { b with
    pending := none, confirm := none, menu := none,
    mode := if b.detail.isSome then .detail else .table }

/-- No box, over a mode. -/
def Boxes.none (mode : Mode) : Boxes :=
  { mode, detail := .none, menu := .none, picker := .none, form := .none, confirm := .none,
    pending := .none }

namespace App

variable {env : Env} {app app' : App}

def boxes (app : App) : Boxes :=
  { mode := app.mode, detail := app.detail, menu := app.menu, picker := app.picker, form := app.form,
    confirm := app.confirm, pending := app.pending }

@[simp] theorem boxes_mapLive (f : Live → Live) : (app.mapLive f).boxes = app.boxes := rfl

@[simp] theorem boxes_startCanI (app : App) : app.startCanI.boxes = app.boxes := rfl

@[simp] theorem boxes_journalRefusal (app : App) (action : Action) (subjects : List (String × String))
    (why : String) : (app.journalRefusal action subjects why).boxes = app.boxes := rfl

/-! ### The pipeline -/

theorem boxes_dropPending (app : App) : app.dropPending.boxes = app.boxes.dropped := rfl

theorem boxes_refusePending (app : App) (pending : Pending) (why : String) :
    (app.refusePending pending why).boxes = app.boxes.dropped := rfl

theorem boxes_runPending (env : Env) {p : Pending} (hp : app.pending = some p) :
    (app.runPending env).1.boxes = app.boxes.dropped := by
  rcases runPending_cases env app with (⟨-, hnone⟩ | h) |
    ⟨live, key, p', s, -, -, -, -, -, stack, status, h⟩
  · rw [hp] at hnone
    cases hnone
  · rw [h]
    rfl
  · rw [h]
    rfl

/-- A pending action is dropped, asked to be confirmed, or, where there is no table, left. -/
theorem boxes_confirmOrRun (env : Env) {p : Pending} (hp : app.pending = some p) :
    (app.confirmOrRun env).1.boxes = app.boxes.dropped ∨
      (app.confirmOrRun env).1.boxes = app.boxes ∧ app.topKey = none ∨
        ∃ confirm, (app.confirmOrRun env).1.boxes =
          { app.boxes with confirm := some confirm, mode := .confirm } := by
  rcases confirmOrRun_cases env hp with ⟨why, h⟩ | ⟨h, hkey⟩ | ⟨live, c, k, -, -, -, -, h⟩ | ⟨-, h⟩ | h
  · rw [h]
    exact Or.inl (boxes_refusePending app p why)
  · rw [h]
    exact Or.inr (Or.inl ⟨rfl, hkey⟩)
  · rw [h]
    exact Or.inr (Or.inr ⟨_, rfl⟩)
  · rw [h]
    exact Or.inl (boxes_runPending env hp)
  · rw [h]
    exact Or.inl rfl

theorem boxes_of_pend_error {action : Action} (h : app.pend env action = .error app') :
    app'.boxes = app.boxes := by
  unfold pend at h
  dsimp only at h
  split at h
  · cases h
    rfl
  split at h
  · cases h
    rfl
  split at h
  · cases h
    rfl
  · cases h

/-- An action started is refused, asks for a body, or is confirmed or run. -/
theorem boxes_start (env : Env) (app : App) (action : Action) :
    (app.start env action).1.boxes = app.boxes ∨
      (∃ p form, (app.start env action).1.boxes =
        { app.boxes with pending := some p, form := some form, mode := .fields }) ∨
      (app.start env action).1.boxes = app.boxes.dropped ∨
      ∃ p confirm, (app.start env action).1.boxes =
        { app.boxes with pending := some p, confirm := some confirm, mode := .confirm } := by
  rcases start_cases env app action with ⟨app', hpend, h⟩ |
    ⟨app', p, hpend, hp, ⟨-, h⟩ | ⟨-, h⟩⟩ <;> rw [h]
  · exact Or.inl (boxes_of_pend_error hpend)
  · obtain ⟨-, body, rfl⟩ := pend_eq_ok hpend
    exact Or.inr (Or.inl ⟨_, _, rfl⟩)
  · have hkey := topKey_of_pend hpend
    obtain ⟨-, body, rfl⟩ := pend_eq_ok hpend
    rcases boxes_confirmOrRun env hp with h | ⟨-, hnone⟩ | ⟨confirm, h⟩
    · exact Or.inr (Or.inr (Or.inl h))
    · rw [hnone] at hkey
      cases hkey
    · exact Or.inr (Or.inr (Or.inr ⟨_, confirm, h⟩))

/-- The form sent on is kept, or closed for a confirmation or for good. -/
theorem boxes_submitForm (env : Env) (app : App) :
    (app.submitForm env).1.boxes = app.boxes ∨
      (app.submitForm env).1.boxes = { app.boxes with form := none }.dropped ∨
      ∃ p confirm, (app.submitForm env).1.boxes =
        { app.boxes with
          form := none, pending := some p, confirm := some confirm, mode := .confirm } := by
  unfold submitForm
  split
  case isTrue hchecks =>
    obtain ⟨hpending, hkey⟩ := pending_of_formChecks hchecks
    obtain ⟨p, hp⟩ := Option.isSome_iff_exists.1 hpending
    have hsubmitted : app.submitted.boxes = { app.boxes with form := none, pending := some p } := by
      unfold formChecks at hchecks
      split at hchecks
      · case h_1 pending form live h₁ h₂ h₃ =>
        simp only [submitted, h₁, h₂] at hp ⊢
        cases hp
        rfl
      · cases hchecks
    rcases boxes_confirmOrRun env hp with h | ⟨-, hnone⟩ | ⟨confirm, h⟩
    · refine Or.inr (Or.inl ?_)
      rw [h, hsubmitted]
      rfl
    · rw [hnone] at hkey
      cases hkey
    · refine Or.inr (Or.inr ⟨p, confirm, ?_⟩)
      rw [h, hsubmitted]
  case isFalse => exact Or.inl rfl

/-! ### The surfaces over a row -/

theorem boxes_openMenu (env : Env) (app : App) :
    (app.openMenu env).boxes = app.boxes ∨
      ∃ menu, (app.openMenu env).boxes = { app.boxes with menu := some menu, mode := .menu } := by
  unfold openMenu
  dsimp only
  split
  · exact Or.inl rfl
  · split
    · exact Or.inl rfl
    · exact Or.inr ⟨_, rfl⟩

/-- The kind of the row under the cursor. -/
def underCursor (app : App) : List Kind := (app.cursor.map fun c => c.key.kind).toList

@[simp] theorem underCursor_startCanI (app : App) : app.startCanI.underCursor = app.underCursor := by
  unfold underCursor cursor startCanI mapLive
  cases app.live <;> rfl

/-- The pane that is opened is over a row of the kind under the cursor. -/
theorem boxes_openDetail (env : Env) (app : App) :
    app.selectedExtId env = none ∧ (app.openDetail env).boxes = app.boxes ∨
      (app.selectedExtId env).isSome = true ∧
        ∃ detail, (∀ key, detail.key = some key → key.kind ∈ app.underCursor) ∧
          (app.openDetail env).boxes = { app.boxes with detail := some detail, mode := .detail } := by
  rcases openDetail_cases env app with ⟨hid, h⟩ | ⟨live, c, id, hlive, hc, hid, hopened⟩
  · exact Or.inl ⟨hid, by rw [h]; rfl⟩
  · have hcursor : app.startCanI.cursor = some c := by
      rw [cursor, hlive]
      exact hc
    have hkind : ∀ key, some (rowKey c.key id) = some key → key.kind ∈ app.underCursor := by
      rintro _ ⟨⟩
      rw [kind_rowKey, ← underCursor_startCanI, underCursor, hcursor]
      exact List.mem_singleton_self _
    rcases hopened with ⟨-, -, h⟩ | h
    · exact Or.inr ⟨by rw [hid]; rfl, _, hkind, by rw [h]; rfl⟩
    · exact Or.inr ⟨by rw [hid]; rfl, _, hkind, by rw [h]; rfl⟩

theorem boxes_openPicker (env : Env) (app : App) :
    (app.openPicker env).boxes = app.boxes ∨
      (∃ detail, (∀ key, detail.key = some key → key.kind ∈ app.underCursor) ∧
        (app.openPicker env).boxes = { app.boxes with detail := some detail, mode := .detail }) ∨
      ∃ picker, app.startCanI.buildPicker env = some picker ∧
        (app.openPicker env).boxes = { app.boxes with picker := some picker, mode := .picker } := by
  rcases openPicker_cases env app with ⟨-, h⟩ | ⟨-, h | ⟨picker, hbuilt, h⟩⟩
  · rcases boxes_openDetail env app.startCanI with ⟨-, hb⟩ | ⟨-, detail, hkind, hb⟩
    · exact Or.inl (by rw [h, hb]; rfl)
    · rw [underCursor_startCanI] at hkind
      exact Or.inr (Or.inl ⟨detail, hkind, by rw [h, hb]; rfl⟩)
  · exact Or.inl (by rw [h]; rfl)
  · exact Or.inr (Or.inr ⟨picker, hbuilt, by rw [h]; rfl⟩)

@[simp] theorem boxes_pushView (app : App) (live : Live) (kind : Kind) (parents : List String)
    (parentName context : Option String) :
    (app.pushView live kind parents parentName context).boxes = app.boxes := by
  unfold pushView
  dsimp only
  split <;> rfl

theorem boxes_openRoot {live : Live} {kind : Kind} (hlive : app.live = some live)
    (hreach : (kind.reach env.catalog).reason = none) (hserved : live.session.unavailable kind = none) :
    (app.openRoot env kind).boxes = Boxes.none .table := by
  have hclosed : app.closeModals.live.isSome = true := by
    rw [isSome_live_closeModals, hlive]
    rfl
  obtain ⟨live', hlive'⟩ := Option.isSome_iff_exists.1 hclosed
  simp only [openRoot, hlive, hreach, hserved, hlive', Option.isSome_none, Bool.or_false,
    Bool.false_eq_true, if_false]
  have hpush := boxes_pushView app.closeModals live'.drainStack kind [] none none
  exact congrArg (fun b : Boxes => { b with mode := .table }) hpush

theorem boxes_openPage (app : App) (defs : List PaneDef) :
    (app.openPage defs).boxes = Boxes.none app.mode ∧ app.live = none ∨
      (app.openPage defs).boxes = Boxes.none .table := by
  unfold openPage
  dsimp only
  split
  case h_1 hlive =>
    refine Or.inl ⟨rfl, ?_⟩
    have h := isSome_live_closeModals app
    rw [hlive] at h
    exact Option.isNone_iff_eq_none.1 (by simpa using h.symm)
  case h_2 => exact Or.inr rfl

theorem boxes_openFocused (env : Env) (app : App) : (app.openFocused env).boxes = app.boxes := by
  unfold openFocused
  split
  · rfl
  · split
    · split
      · rfl
      · split
        · rfl
        · exact boxes_pushView ..
    · rfl

theorem boxes_pop (app : App) : app.pop.boxes = app.boxes := by
  unfold pop
  split
  · rfl
  · split
    · dsimp only
      split <;> rfl
    · rfl

theorem boxes_pickChild (env : Env) {picker : Picker} (hp : app.picker = some picker) (child : Kind) :
    (app.pickChild env child).boxes = { app.boxes with picker := none, mode := .table } := by
  simp only [pickChild, hp]
  split
  · rfl
  · split
    · rfl
    · exact boxes_pushView ..

/-- The keys of a table that open and leave nothing. -/
theorem boxes_browse (env : Env) (app : App) {b : Browse} (hroot : ∀ kind, b ≠ .openRoot kind)
    (hpage : ∀ panes, b ≠ .openPage panes) (hleave : b ≠ .leave) (hback : b ≠ .back) :
    (app.browse env b).boxes = app.boxes := by
  cases b with
  | openRoot kind => exact absurd rfl (hroot kind)
  | openPage panes => exact absurd rfl (hpage panes)
  | leave => exact absurd rfl hleave
  | back => exact absurd rfl hback
  | openFocused => exact boxes_openFocused env app
  | pop => exact boxes_pop app
  | toggleMark =>
      show (app.toggleMark env).boxes = app.boxes
      unfold toggleMark
      split <;> rfl
  | _ => rfl

/-! ### What comes in -/

theorem boxes_joined (app : App) (session : Session) : (app.joined session).boxes = app.boxes := by
  unfold joined
  split <;> rfl

theorem boxes_refreshRow (app : App) (kind : Kind) (extId : String) (site : Option String) :
    (app.refreshRow kind extId site).boxes = app.boxes := by
  unfold refreshRow
  split
  · rfl
  · split
    · split
      · rfl
      · dsimp only
        split <;> split <;> rfl
    · rfl

theorem boxes_finished (app : App) (live : Live) (done : Finished) :
    (app.finished live done).boxes = app.boxes := by
  unfold finished
  dsimp only
  split
  · exact boxes_refreshRow { app with live := some _ } _ _ _
  · rfl

theorem boxes_poll (app : App) (sub now : ℕ) (u : Update) : (app.poll sub now u).boxes = app.boxes := by
  unfold poll
  split
  · rfl
  · split
    · rfl
    · split
      · split <;> rfl
      · dsimp only
        rw [boxes_mapLive]
        split
        · exact boxes_finished app _ _
        · rfl

/-- An outcome leaves the boxes, or shows the document it answers with and closes them. -/
theorem boxes_acted (env : Env) (app : App) (journal : ℕ) (plan : PlanRef) (outcome : Outcome) :
    (app.acted env journal plan outcome).boxes =
      match outcome, app.live with
      | .returned _, some _ => { Boxes.none .detail with detail := some {} }
      | _, _ => app.boxes := by
  cases hlive : app.live with
  | none => simp only [acted, hlive]
  | some live =>
      cases outcome with
      | done =>
          simp only [acted, hlive]
          exact boxes_refreshRow { app with live := some _ } _ _ _
      | started task =>
          simp only [acted, hlive]
          rfl
      | returned value =>
          simp only [acted, hlive]
          rfl
      | failed failure forbidden =>
          simp only [acted, hlive]
          rfl

end App

end Nutsh
