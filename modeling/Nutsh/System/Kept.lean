/-
What happens beside the user leaves the open box alone.

Polls, joins, drops and outcomes come in while a menu, a picker, a form or a dialog is open.  They
move the rows of the store under it; the boxes, the pending action and the table the cursor is in
stay what they were, or every box is closed.

* `Live.topKey` — the table the cursor is in;
* `App.Kept` — the boxes, the pending action and that table are the same;
* `App.kept_background`, `App.kept_acted` — what comes in keeps them as long as a box is open.
-/
import Nutsh.System

set_option relaxedAutoImplicit false
set_option autoImplicit false

namespace Nutsh

/-- The table a view has its cursor in. -/
def View.key : View → Option TableKey
  | table view => some view.key
  | page view => view.panes[view.focus]?.map Pane.key

/-- Whether a mode is that of a box a pending or chosen action waits in. -/
def Mode.isBox : Mode → Bool
  | .picker => true
  | .menu => true
  | .fields => true
  | .confirm => true
  | _ => false

/-- Whether a pending action waits in a mode. -/
def Mode.waits : Mode → Bool
  | .fields => true
  | .confirm => true
  | _ => false

theorem Mode.waits_of_isBox {m : Mode} (h : m.isBox = false) : m.waits = false := by
  cases m <;> first | rfl | cases h

namespace Live

variable {live : Live}

/-- The table the cursor is in. -/
def topKey (live : Live) : Option TableKey := live.stack.head?.bind View.key

theorem map_key_cursor (live : Live) : live.cursor.map Cursor.key = live.topKey := by
  unfold cursor topKey
  cases live.stack.head? with
  | none => rfl
  | some view =>
      cases view with
      | table view => rfl
      | page view => simp [View.key, Option.map_map, Function.comp_def]

theorem topKey_of_cursor {c : Cursor} (h : live.cursor = some c) : live.topKey = some c.key := by
  rw [← map_key_cursor, h]
  rfl

theorem cursor_of_topKey {key : TableKey} (h : live.topKey = some key) :
    ∃ c, live.cursor = some c ∧ c.key = key :=
  Option.map_eq_some_iff.1 ((map_key_cursor live).trans h)

/-- A change of a view that leaves its key leaves the key of the stack. -/
theorem bind_key_head {stack stack' : List View}
    (h : stack'.head?.map View.key = stack.head?.map View.key) :
    stack'.head?.bind View.key = stack.head?.bind View.key := by
  cases hv : stack.head? with
  | none =>
      rw [hv] at h
      have hv' : stack'.head? = none := by simpa using h
      rw [hv']
  | some view =>
      rw [hv] at h
      obtain ⟨view', hv', hkey⟩ := Option.map_eq_some_iff.1 h
      rw [hv']
      exact hkey

@[simp] theorem key_forgetView (name : String) (view : View) :
    (forgetView name view).key = view.key := by
  cases view <;> rfl

@[simp] theorem topKey_forgetPeer (live : Live) (name : String) :
    (live.forgetPeer name).topKey = live.topKey := by
  refine bind_key_head ?_
  simp [forgetPeer, Function.comp_def]

@[simp] theorem topKey_mapScheduler (live : Live) (context : Option String)
    (f : Scheduler → Scheduler) : (live.mapScheduler context f).topKey = live.topKey := by
  unfold mapScheduler
  split <;> rfl

@[simp] theorem primaryName_mapScheduler (live : Live) (context : Option String)
    (f : Scheduler → Scheduler) : (live.mapScheduler context f).primaryName = live.primaryName := by
  unfold mapScheduler
  split <;> rfl

@[simp] theorem topKey_subscribePeers (live : Live) (next : ℕ) :
    (live.subscribePeers next).1.topKey = live.topKey := by
  unfold subscribePeers
  split
  · rename_i view rest hs
    split
    · simp [topKey, hs, View.key]
    · rfl
  · rfl

@[simp] theorem primaryName_subscribePeers (live : Live) (next : ℕ) :
    (live.subscribePeers next).1.primaryName = live.primaryName := by
  unfold subscribePeers
  split
  · split <;> rfl
  · rfl

@[simp] theorem topKey_clampSelection (live : Live) :
    live.clampSelection.topKey = live.topKey := by
  unfold clampSelection
  split
  · rename_i hs
    simp [topKey, hs, View.key]
  · rename_i hs
    simp [topKey, hs, View.key, Option.map_map, Function.comp_def]
  · rfl

@[simp] theorem primaryName_clampSelection (live : Live) :
    live.clampSelection.primaryName = live.primaryName := by
  unfold clampSelection
  split <;> rfl

theorem topKey_foldl_forgetPeer (live : Live) (names : List String) :
    (names.foldl forgetPeer live).topKey = live.topKey ∧
      (names.foldl forgetPeer live).primaryName = live.primaryName := by
  induction names generalizing live with
  | nil => exact ⟨rfl, rfl⟩
  | cons name names ih =>
      obtain ⟨hkey, hname⟩ := ih (live.forgetPeer name)
      exact ⟨hkey.trans (topKey_forgetPeer live name), hname⟩

end Live

namespace App

variable {a a' a'' : App}

def topKey (app : App) : Option TableKey := app.live.bind Live.topKey

/-- The boxes, the pending action, and the table and the session under them are the same. -/
structure Kept (a a' : App) : Prop where
  mode : a'.mode = a.mode
  pending : a'.pending = a.pending
  picker : a'.picker = a.picker
  detail : a'.detail = a.detail
  form : a'.form = a.form
  confirm : a'.confirm = a.confirm
  key : a'.topKey = a.topKey
  name : a'.live.map Live.primaryName = a.live.map Live.primaryName
  guardrails : a'.guardrails = a.guardrails

theorem Kept.refl (a : App) : Kept a a := ⟨rfl, rfl, rfl, rfl, rfl, rfl, rfl, rfl, rfl⟩

theorem Kept.trans (h : Kept a a') (h' : Kept a' a'') : Kept a a'' :=
  ⟨h'.mode.trans h.mode, h'.pending.trans h.pending, h'.picker.trans h.picker,
    h'.detail.trans h.detail, h'.form.trans h.form, h'.confirm.trans h.confirm,
    h'.key.trans h.key, h'.name.trans h.name, h'.guardrails.trans h.guardrails⟩

/-- A session changed, its key and its name apart, is no change of the boxes. -/
theorem Kept.ofLive {live live' : Live} (h : a.live = some live) (hkey : live'.topKey = live.topKey)
    (hname : live'.primaryName = live.primaryName) (nextSub nextEpoch : ℕ) (status : Option String) :
    Kept a { a with live := some live', nextSub, nextEpoch, status } :=
  ⟨rfl, rfl, rfl, rfl, rfl, rfl, by simp [topKey, h, hkey], by simp [h, hname], rfl⟩

theorem Kept.ofStatus (h : Kept a a') (status : Option String) : Kept a { a' with status } :=
  ⟨h.mode, h.pending, h.picker, h.detail, h.form, h.confirm, h.key, h.name, h.guardrails⟩

theorem kept_mapLive {f : Live → Live} (hkey : ∀ live, (f live).topKey = live.topKey)
    (hname : ∀ live, (f live).primaryName = live.primaryName) (a : App) :
    Kept a (a.mapLive f) := by
  cases h : a.live with
  | none =>
      refine ⟨rfl, rfl, rfl, rfl, rfl, rfl, ?_, ?_, rfl⟩
      · simp [topKey, mapLive, h]
      · simp [mapLive, h]
  | some live =>
      refine ⟨rfl, rfl, rfl, rfl, rfl, rfl, ?_, ?_, rfl⟩
      · simp [topKey, mapLive, h, hkey]
      · simp [mapLive, h, hname]

theorem kept_refreshRow (a : App) (kind : Kind) (extId : String) (site : Option String) :
    Kept a (a.refreshRow kind extId site) := by
  unfold refreshRow
  cases h : a.live with
  | none => exact Kept.refl a
  | some live =>
      dsimp only
      split
      · split
        · exact Kept.refl a
        · split <;> split
          · exact Kept.refl a
          · exact Kept.ofLive h (by simp) (by simp) _ _ _
          · exact Kept.refl a
          · exact Kept.ofLive h (by simp) (by simp) _ _ _
      · exact Kept.refl a

theorem kept_finished (a : App) {live₀ live : Live} (h : a.live = some live₀)
    (hkey : live.topKey = live₀.topKey) (hname : live.primaryName = live₀.primaryName)
    (done : Finished) : Kept a (a.finished live done) := by
  unfold finished
  dsimp only
  split
  · refine Kept.ofStatus (Kept.trans ?_ (kept_refreshRow _ _ _ _)) _
    refine Kept.ofLive h ?_ ?_ _ _ _
    · exact hkey
    · exact hname
  · refine Kept.ofLive h ?_ ?_ _ _ _
    · exact hkey
    · exact hname

theorem kept_poll (a : App) (sub now : ℕ) (u : Update) : Kept a (a.poll sub now u) := by
  unfold poll
  cases h : a.live with
  | none => exact Kept.refl a
  | some live =>
      dsimp only
      split
      · exact Kept.refl a
      split
      · split
        · refine Kept.ofLive h ?_ ?_ _ _ _ <;> rfl
        · exact Kept.refl a
      · refine Kept.trans ?_ (kept_mapLive ?_ ?_ _)
        · split
          · refine kept_finished a h ?_ ?_ _ <;> rfl
          · refine Kept.ofLive h ?_ ?_ _ _ _ <;> rfl
        · intro live
          exact Live.topKey_clampSelection _
        · intro live
          exact Live.primaryName_clampSelection _

/-- What happens beside the user keeps an open box as it was. -/
theorem kept_background (a : App) (b : Background) (h : (a.background b).mode.isBox = true) :
    Kept a (a.background b) := by
  cases b with
  | attach session => cases h
  | joined session =>
      simp only [background, joined] at h ⊢
      cases hl : a.live with
      | none => exact Kept.refl a
      | some live =>
          refine Kept.ofLive hl ?_ ?_ _ _ _
          · rw [Live.topKey_subscribePeers]
            exact Live.topKey_forgetPeer live _
          · rw [Live.primaryName_subscribePeers]
            rfl
  | keepPeers keep =>
      exact kept_mapLive (fun live => (Live.topKey_foldl_forgetPeer live _).1)
        (fun live => (Live.topKey_foldl_forgetPeer live _).2) a
  | connectFailed => cases h
  | poll sub now u => exact kept_poll a sub now u
  | rolesResolved generation index => refine kept_mapLive ?_ ?_ a <;> intro live <;> rfl
  | rolesRestored index => refine kept_mapLive ?_ ?_ a <;> intro live <;> rfl
  | restored kind parents filter rows total writtenAt =>
      refine kept_mapLive ?_ ?_ a <;> intro live <;> rfl
  | restoredNames names => refine kept_mapLive ?_ ?_ a <;> intro live <;> rfl
  | tick now => exact ⟨rfl, rfl, rfl, rfl, rfl, rfl, rfl, rfl, rfl⟩

/-- An outcome keeps an open box as it was. -/
theorem kept_acted (env : Env) (a : App) (journal : ℕ) (plan : PlanRef) (outcome : Outcome)
    (h : (a.acted env journal plan outcome).mode.isBox = true) :
    Kept a (a.acted env journal plan outcome) := by
  cases hl : a.live with
  | none =>
      simp only [acted, hl]
      exact Kept.refl a
  | some live =>
      cases outcome with
      | started task =>
          simp only [acted, hl]
          split
          · refine Kept.ofLive hl ?_ ?_ _ _ _ <;> rfl
          · refine Kept.ofLive hl ?_ ?_ _ _ _
            · exact Live.topKey_mapScheduler live _ _
            · exact Live.primaryName_mapScheduler live _ _
      | done =>
          simp only [acted, hl]
          refine Kept.ofStatus (Kept.trans ?_ (kept_refreshRow _ _ _ _)) _
          refine Kept.ofLive hl ?_ ?_ _ _ _ <;> rfl
      | returned value =>
          simp only [acted, hl] at h
          cases h
      | failed failure forbidden =>
          simp only [acted, hl]
          refine Kept.ofLive hl ?_ ?_ _ _ _
          · split <;> rfl
          · split <;> rfl

/-! ### The modes of what the user does -/

theorem isBox_actingFrom (a : App) : a.actingFrom.isBox = false := by
  unfold actingFrom
  split <;> rfl

@[simp] theorem mode_pushView (a : App) (live : Live) (kind : Kind) (parents : List String)
    (parentName context : Option String) :
    (a.pushView live kind parents parentName context).mode = a.mode := by
  unfold pushView
  dsimp only
  split <;> rfl

theorem mode_openMenu (env : Env) (a : App) :
    (a.openMenu env).mode = a.mode ∨ (a.openMenu env).mode = .menu := by
  unfold openMenu
  dsimp only
  split
  · exact Or.inl rfl
  · split
    · exact Or.inl rfl
    · exact Or.inr rfl

theorem mode_openDetail (env : Env) (a : App) :
    (a.openDetail env).mode = a.mode ∨ (a.openDetail env).mode = .detail := by
  unfold openDetail
  dsimp only
  split
  · exact Or.inl rfl
  · split
    · exact Or.inr rfl
    · exact Or.inl rfl

theorem mode_openPicker (env : Env) (a : App) :
    (a.openPicker env).mode = a.mode ∨ (a.openPicker env).mode = .picker ∨
      (a.openPicker env).mode = .detail := by
  unfold openPicker
  dsimp only
  split
  · exact Or.inl rfl
  · split
    · rcases mode_openDetail env a.startCanI with h | h
      · exact Or.inl h
      · exact Or.inr (Or.inr h)
    · exact Or.inr (Or.inl rfl)

theorem picker_of_offersChild {a : App} {child : Kind} (h : a.offersChild child = true) :
    a.mode = .picker ∧ ∃ picker, a.picker = some picker ∧ ∃ c ∈ picker.children, c.1 = child := by
  unfold offersChild at h
  cases hp : a.picker with
  | none => simp [hp] at h
  | some picker => simpa [hp] using h

theorem mode_pickChild (env : Env) {a : App} {child : Kind} {picker : Picker}
    (h : a.picker = some picker) : (a.pickChild env child).mode = .table := by
  unfold pickChild
  rw [h]
  dsimp only
  split
  · rfl
  · split
    · rfl
    · rw [mode_pushView]

/-- What the user does in a table or a page opens no box of an action. -/
theorem isBox_browse (env : Env) (a : App) {b : Browse} (h : b.taken a.mode = true) :
    (a.browse env b).mode.isBox = false := by
  have hmode : a.mode.isBox = false := by
    cases hm : a.mode <;> cases b <;> simp_all [Browse.taken, Mode.isBox]
  cases b with
  | openRoot kind =>
      simp only [browse, openRoot]
      split
      · exact hmode
      · split
        · exact hmode
        · split
          · exact hmode
          · rfl
  | openPage panes =>
      simp only [browse, openPage]
      split
      · exact hmode
      · rfl
  | openFocused =>
      simp only [browse, openFocused]
      split
      · exact hmode
      · split
        · split
          · exact hmode
          · split
            · exact hmode
            · rw [mode_pushView]
              exact hmode
        · exact hmode
  | pop =>
      simp only [browse, pop]
      split
      · exact hmode
      · split
        · split <;> exact hmode
        · exact hmode
  | toggleMark =>
      simp only [browse, toggleMark]
      split <;> exact hmode
  | leave => rfl
  | back => rfl
  | move m | clearMarks | filter keeps | cycleSort | toggleWide | focus pane => exact hmode

end App

end Nutsh
