/-
The tables the views of the application are over.

A view keeps its keys as long as it is on the stack, whatever becomes of its subscriptions.  New keys
come with a table that is pushed and with a page that is opened, and all of them are of kinds of the
catalog.

* `View.keys`, `App.keys` — the keys of the views;
* `App.keys_pushView`, `App.keys_openPage`, `App.keys_pop`, ... — what each function does to them;
* `App.Cataloged` — the kinds of the views, and of what the picker offers, are of the catalog.
-/
import Nutsh.Screen.Boxes

set_option relaxedAutoImplicit false
set_option autoImplicit false

namespace Nutsh

/-- Whether a view is a page, and its keys. -/
def View.keys : View → Bool × List TableKey
  | .table t => (false, [t.key])
  | .page p => (true, p.panes.map Pane.key)

namespace Live

variable {live : Live}

def keys (live : Live) : List (Bool × List TableKey) := live.stack.map View.keys

theorem keys_of_polling {live live' : Live} (h : live'.polling = live.polling) :
    live'.keys = live.keys := by
  have hstack : live'.stack.map View.bare = live.stack.map View.bare := (same_of_polling h).stack
  have hbare : ∀ v : View, v.bare.keys = v.keys := by
    intro v
    cases v with
    | table t => rfl
    | page p => simp [View.bare, View.keys, Function.comp_def]
  have hkeys : ∀ stack : List View, (stack.map View.bare).map View.keys = stack.map View.keys := by
    intro stack
    simp [Function.comp_def, hbare]
  rw [keys, keys, ← hkeys, hstack, hkeys]

@[simp] theorem keys_mapScheduler (c : Option String) (f : Scheduler → Scheduler) :
    (live.mapScheduler c f).keys = live.keys := by
  rw [keys, stack_mapScheduler]
  rfl

theorem keys_subscribePeers (live : Live) (next : ℕ) : (live.subscribePeers next).1.keys = live.keys := by
  unfold subscribePeers
  split
  case h_1 view rest hstack =>
    split
    · simp [keys, hstack, View.keys]
    · rfl
  case h_2 => rfl

@[simp] theorem keys_forgetPeer (live : Live) (name : String) :
    (live.forgetPeer name).keys = live.keys := by
  rw [keys, keys, forgetPeer, List.map_map]
  refine List.map_congr_left fun v _ => ?_
  cases v <;> rfl

theorem keys_foldl_forgetPeer (names : List String) (live : Live) :
    (names.foldl forgetPeer live).keys = live.keys := by
  induction names generalizing live with
  | nil => rfl
  | cons name names ih => exact (ih (live.forgetPeer name)).trans (keys_forgetPeer live name)

theorem keys_foldl_subscribePane {served : Pane → Bool} (panes : List Pane) :
    ∀ (live : Live) (done : List Pane) (next : ℕ),
      (panes.foldl (subscribePane served) (live, done, next)).2.1.map Pane.key =
        (done ++ panes).map Pane.key := by
  induction panes with
  | nil => exact fun live done next => by rw [List.append_nil]; rfl
  | cons pane panes ih =>
      intro live done next
      rw [List.foldl_cons, subscribePane]
      split <;> simp [ih]

theorem keys_foldl_resizePane (panes : List Pane) : ∀ (live : Live) (done : List Pane) (next : ℕ),
    (panes.foldl resizePane (live, done, next)).2.1.map Pane.key = (done ++ panes).map Pane.key := by
  induction panes with
  | nil => exact fun live done next => by rw [List.append_nil]; rfl
  | cons pane panes ih =>
      intro live done next
      rw [List.foldl_cons]
      cases hout : outgrown pane with
      | false => rw [resizePane_of_not_outgrown hout]; simp [ih]
      | true =>
          obtain ⟨old, hsub⟩ : ∃ old, pane.sub = some old := by
            rw [← Option.isSome_iff_exists]
            exact (Bool.and_eq_true_iff.1 hout).1
          rw [resizePane_of_outgrown hsub hout]
          simp [ih]

theorem keys_resize (live : Live) (next : ℕ) : (live.resize next).1.keys = live.keys := by
  unfold resize
  split
  case h_1 page rest hstack =>
    have h := keys_foldl_resizePane page.panes live [] next
    simp only [List.nil_append] at h
    simp [keys, View.keys, hstack, h]
  case h_2 => rfl

theorem keys_drawn (heights : List ℕ) (live : Live) : (Screen.drawn heights live).keys = live.keys := by
  unfold keys Screen.drawn
  cases live.stack with
  | nil => rfl
  | cons v rest =>
      cases v with
      | table t => rfl
      | page page =>
          simp only [List.modifyHead_cons, List.map_cons, View.keys, List.map_map, Function.comp_def]
          refine congrArg (fun l => (true, l) :: _) ?_
          have h := List.map_map (f := Prod.fst) (g := Pane.key) (l := page.panes.zipIdx)
          rw [List.zipIdx_map_fst] at h
          rw [h]
          rfl

theorem keys_regrade (live : Live) (refused : Kind → Option String) :
    (live.regrade refused).keys = live.keys := by
  unfold regrade
  split
  case h_1 page rest hstack =>
    simp only [keys, hstack, List.map_cons, View.keys, List.map_map]
    refine congrArg (fun l => (true, l) :: _) (List.map_congr_left fun pane _ => ?_)
    simp only [Function.comp_apply]
    split <;> rfl
  case h_2 => rfl

end Live

namespace App

variable {env : Env} {app app' : App} {live : Live}

/-- The keys of the views, as far as there is a session. -/
def keys (app : App) : List (Bool × List TableKey) := (app.live.map Live.keys).getD []

theorem keys_of_live (h : app.live = some live) : app.keys = live.keys := by
  rw [keys, h]
  rfl

theorem keys_of_polling (h : app'.polling = app.polling) : app'.keys = app.keys := by
  have hlive : app'.live.map Live.polling = app.live.map Live.polling := congrArg Prod.fst h
  cases ha : app.live with
  | none =>
      rw [ha, Option.map_none, Option.map_eq_none_iff] at hlive
      rw [keys, keys, ha, hlive]
  | some live =>
      rw [ha, Option.map_some, Option.map_eq_some_iff] at hlive
      obtain ⟨live', ha', hlive⟩ := hlive
      rw [keys_of_live ha, keys_of_live ha', Live.keys_of_polling hlive]

theorem keys_mapLive {f : Live → Live} (hf : ∀ live, (f live).keys = live.keys) (app : App) :
    (app.mapLive f).keys = app.keys := by
  unfold keys mapLive
  cases app.live with
  | none => rfl
  | some live => exact hf live

theorem keys_closeModals (app : App) : app.closeModals.keys = app.keys := by
  unfold closeModals closeDetail
  dsimp only
  split
  case h_1 sub _ => exact keys_mapLive (f := fun live => live.unsubscribeAny sub) (fun _ => rfl) app
  case h_2 => rfl

/-- A table that is pushed brings its key. -/
theorem keys_pushView (app : App) (live : Live) (kind : Kind) (parents : List String)
    (parentName context : Option String) :
    (app.pushView live kind parents parentName context).keys = live.keys ∨
      (app.pushView live kind parents parentName context).keys =
        (false, [viewKey kind parents context]) :: live.keys := by
  have hrelease : (releaseTop live).keys = live.keys := by
    unfold releaseTop
    split
    case h_1 page rest hstack =>
      simp [Live.keys, hstack, View.keys, Function.comp_def]
    case h_2 => rfl
  unfold pushView
  dsimp only
  split
  · exact Or.inl rfl
  · refine Or.inr ((Live.keys_subscribePeers _ _).trans ?_)
    rw [← hrelease]
    simp [Live.keys, View.keys]

theorem keys_openRoot (env : Env) (app : App) (kind : Kind) :
    (app.openRoot env kind).keys = app.keys ∨ (app.openRoot env kind).keys = [] ∨
      (app.openRoot env kind).keys = [(false, [viewKey kind [] none])] := by
  unfold openRoot
  split
  · exact Or.inl rfl
  · split
    · exact Or.inl rfl
    · split
      · exact Or.inl rfl
      case h_2 live hlive =>
        rcases keys_pushView app.closeModals live.drainStack kind [] none none with h | h
        · exact Or.inr (Or.inl h)
        · exact Or.inr (Or.inr h)

theorem keys_openPage (app : App) (defs : List PaneDef) :
    (app.openPage defs).keys = app.keys ∨
      (app.openPage defs).keys = [(true, defs.map fun d => TableKey.filtered d.kind d.filter)] := by
  unfold openPage
  dsimp only
  split
  · exact Or.inl (keys_closeModals app)
  case h_2 live hlive =>
    have h := @Live.keys_foldl_subscribePane (fun pane => pane.reason.isNone) (panesOf defs)
      live.drainStack [] app.closeModals.nextSub
    refine Or.inr (congrArg (fun l => [(true, l)]) (h.trans ?_))
    simp [panesOf, Function.comp_def]

theorem keys_openFocused (env : Env) (app : App) :
    (app.openFocused env).keys = app.keys ∨
      ∃ x ∈ app.keys, ∃ key ∈ x.2,
        (app.openFocused env).keys = (false, [viewKey key.kind [] none]) :: app.keys := by
  unfold openFocused
  split
  · exact Or.inl rfl
  case h_2 live hlive =>
    split
    case h_1 page hpage =>
      split
      · exact Or.inl rfl
      case h_2 pane hpane =>
        split
        · exact Or.inl rfl
        · rw [keys_of_live hlive]
          rcases keys_pushView app live pane.key.kind [] none none with h | h
          · exact Or.inl h
          · refine Or.inr ⟨(View.page page).keys, ?_, pane.key, ?_, h⟩
            · exact List.mem_map.2 ⟨_, List.mem_of_mem_head? hpage, rfl⟩
            · exact List.mem_map.2 ⟨pane, List.mem_of_getElem? hpane, rfl⟩
    case h_2 => exact Or.inl rfl

theorem keys_pop (app : App) : app.pop.keys = app.keys ∨ app.pop.keys = app.keys.tail := by
  unfold pop
  split
  · exact Or.inl rfl
  case h_2 live hlive =>
    split
    case h_1 v next rest hstack =>
      refine Or.inr ?_
      rw [keys_of_live hlive]
      dsimp only
      split
      · simp [keys, Live.keys, hstack]
      case h_2 page =>
        have h := @Live.keys_foldl_subscribePane (fun pane => pane.reason.isNone) page.panes
          { { live with stack := [v] }.drainStack with stack := .page page :: rest } [] app.nextSub
        simp only [List.nil_append] at h
        simp [keys, Live.keys, hstack, View.keys, Live.subscribePanes, h]
    case h_2 => exact Or.inl rfl

theorem keys_pickChild (env : Env) (app : App) (child : Kind) :
    (app.pickChild env child).keys = app.keys ∨ ∃ parents context,
      (app.pickChild env child).keys = (false, [viewKey child parents context]) :: app.keys := by
  unfold pickChild
  split
  · exact Or.inl rfl
  · dsimp only
    split
    · exact Or.inl rfl
    · split
      · exact Or.inl rfl
      case h_2 live hlive =>
        rw [keys_of_live hlive]
        rcases keys_pushView { app with picker := none, mode := .table } live child _ _ _ with h | h
        · exact Or.inl h
        · exact Or.inr ⟨_, _, h⟩

theorem keys_openDetail (env : Env) (app : App) : (app.openDetail env).keys = app.keys := by
  have hstart := keys_of_polling (polling_startCanI app)
  rcases openDetail_cases env app with ⟨-, h⟩ | ⟨live, c, id, hlive, -, -, ⟨-, -, h⟩ | h⟩
  · rw [h, hstart]
  · rw [h, ← hstart, keys_of_live hlive]
    exact Live.keys_mapScheduler _ _
  · rw [h, ← hstart, keys_of_live hlive]
    rfl

theorem keys_openPicker (env : Env) (app : App) : (app.openPicker env).keys = app.keys := by
  have hstart := keys_of_polling (polling_startCanI app)
  rcases openPicker_cases env app with ⟨-, h⟩ | ⟨-, h | ⟨picker, -, h⟩⟩
  · rw [h, keys_openDetail, hstart]
  · rw [h, hstart]
  · rw [h, ← hstart]
    rfl

/-! ### What comes in -/

theorem keys_joined (app : App) (session : Session) : (app.joined session).keys = app.keys := by
  unfold joined
  split
  · rfl
  case h_2 live hlive =>
    rw [keys_of_live hlive]
    exact (Live.keys_subscribePeers _ _).trans (Live.keys_forgetPeer live _)

theorem keys_refreshRow (app : App) (kind : Kind) (extId : String) (site : Option String) :
    (app.refreshRow kind extId site).keys = app.keys := by
  unfold refreshRow
  split
  · rfl
  case h_2 live hlive =>
    rw [keys_of_live hlive]
    split
    · split
      · exact keys_of_live hlive
      · dsimp only
        split <;> split <;> first | exact keys_of_live hlive | exact Live.keys_mapScheduler _ _
    · exact keys_of_live hlive

theorem keys_finished (app : App) (live : Live) (done : Finished) :
    (app.finished live done).keys = live.keys := by
  unfold finished
  dsimp only
  split
  · exact (keys_refreshRow { app with live := some _ } _ _ _).trans rfl
  · rfl

theorem keys_poll (app : App) (sub now : ℕ) (u : Update) : (app.poll sub now u).keys = app.keys := by
  unfold poll
  split
  · rfl
  case h_2 live hlive =>
    split
    · rfl
    · split
      · split
        · exact (keys_of_live hlive).symm
        · rfl
      · dsimp only
        refine (keys_mapLive (fun live => ?_) _).trans ?_
        · exact Live.keys_of_polling (polling_clampSelection { live with store := _ })
        rw [keys_of_live hlive]
        split
        · exact keys_finished app _ _
        · rfl

theorem keys_acted (env : Env) (app : App) (journal : ℕ) (plan : PlanRef) (outcome : Outcome) :
    (app.acted env journal plan outcome).keys = app.keys := by
  cases hlive : app.live with
  | none => simp only [acted, hlive]
  | some live =>
      rw [keys_of_live hlive]
      cases outcome with
      | started task =>
          simp only [acted, hlive]
          split
          · rfl
          · exact @Live.keys_mapScheduler live _ _
      | done =>
          simp only [acted, hlive]
          exact keys_refreshRow { app with live := some _ } _ _ _
      | returned value =>
          simp only [acted, hlive]
          exact keys_closeModals { app with live := some _ }
      | failed failure forbidden =>
          simp only [acted, hlive]
          cases forbidden <;> rfl

/-! ### The kinds of the catalog -/

/-- The views, and the kinds the picker offers, are of the catalog; a page lists the session itself. -/
structure Cataloged (catalog : Catalog) (app : App) : Prop where
  views : ∀ x ∈ app.keys, ∀ key ∈ x.2, key.kind ∈ catalog ∧ (x.1 = true → key.context = none)
  picker : ∀ picker, app.picker = some picker → ∀ c ∈ picker.children, c.1 ∈ catalog

namespace Cataloged

variable {catalog : Catalog}

/-- With no view and no picker open there is nothing to check. -/
theorem of_bare (hkeys : app.keys = []) (hpicker : app.picker = none) : app.Cataloged catalog where
  views x hx := by rw [hkeys] at hx; cases hx
  picker p hp := by rw [hpicker] at hp; cases hp

theorem replace (h : app.Cataloged catalog)
    (hviews : ∀ x ∈ app'.keys, ∀ key ∈ x.2,
      key.kind ∈ catalog ∧ (x.1 = true → key.context = none))
    (hpicker : app'.picker = app.picker ∨ app'.picker = none) : app'.Cataloged catalog := by
  refine ⟨hviews, ?_⟩
  rcases hpicker with hp | hp <;> rw [hp]
  · exact h.picker
  · intro p hp
    cases hp

theorem same (h : app.Cataloged catalog) (hkeys : app'.keys = app.keys)
    (hpicker : app'.picker = app.picker ∨ app'.picker = none) : app'.Cataloged catalog :=
  h.replace (by rw [hkeys]; exact h.views) hpicker

/-- A table more. -/
theorem cons (h : app.Cataloged catalog) {key : TableKey} (hkind : key.kind ∈ catalog)
    (hkeys : app'.keys = (false, [key]) :: app.keys)
    (hpicker : app'.picker = app.picker ∨ app'.picker = none) : app'.Cataloged catalog := by
  refine h.replace ?_ hpicker
  rw [hkeys]
  intro x hx key' hkey'
  rcases List.mem_cons.1 hx with rfl | hx
  · rw [List.mem_singleton.1 hkey']
    exact ⟨hkind, nofun⟩
  · exact h.views x hx key' hkey'

/-- The views of a part of the stack. -/
theorem sub (h : app.Cataloged catalog) (hkeys : app'.keys ⊆ app.keys)
    (hpicker : app'.picker = app.picker ∨ app'.picker = none) : app'.Cataloged catalog :=
  h.replace (fun x hx => h.views x (hkeys hx)) hpicker

end Cataloged

theorem children_of_buildPicker {picker : Picker} (h : app.buildPicker env = some picker) :
    ∀ c ∈ picker.children, c.1 ∈ env.catalog := by
  simp only [buildPicker, Option.bind_eq_some_iff, Option.map_eq_some_iff] at h
  obtain ⟨live, -, c, -, id, -, row, -, rfl⟩ := h
  intro x hx
  obtain ⟨child, hchild, rfl⟩ := List.mem_map.1 hx
  exact (List.mem_filter.1 hchild).1

end App

end Nutsh
