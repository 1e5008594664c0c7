/-
The cursor of the table in view.

The keys move the cursor among the rows the frame shows: those of every context, merged, that the filter
keeps.  The wheel is clamped to the table of the session alone, with no filter, and of what changes the
rows from beside only a poll clamps the cursor.

* `Target`, `Live.wheel`, `Turn`, `System.turn` — a notch of the wheel, and the run with the wheel in it;
* `App.unclamped`, `App.Reaches` — the session once its rows have changed under a cursor that is not
  clamped to them, and whether they reach it;
* `System.Tracks`, `System.Follows` — the cursor is on a row after a turn and a notch moves it its way;
  what a turn leaves under the cursor reaches it;
* `System.tracks_iff_follows` — a run does the one exactly when it does the other.
-/
import Nutsh.System.Shown

set_option relaxedAutoImplicit false
set_option autoImplicit false

namespace Nutsh

namespace App

variable {env : Env} {a a' : App}

/-! ### What changes the rows under the cursor -/

theorem onRow_of_live {live : Live} (hl : a.live = some live) : a.OnRow ↔ live.OnRow := by
  rw [OnRow, hl]
  simp only [Option.mem_def, Option.some.injEq, forall_eq']

/-- The session once an event has changed what is shown under a cursor that is not clamped to it: a context
joins the table or leaves it, rows of the cache or the row of the open detail are stored, the term is
cleared, or the view over a table is closed. -/
def unclamped (a : App) (live : Live) : Event → Option Live
  | .background (.joined session) =>
      some { live with
        peers := live.peers.filter (fun p => p.name != session.name) ++
          [{ session, scheduler := { epoch := a.nextEpoch } }] }
  | .background (.keepPeers keep) => some { live with peers := live.peers.filter fun p => keep.contains p.name }
  | .background (.restored kind parents filter rows total writtenAt) =>
      some { live with store := (live.store.restore { kind, parents, filter } rows total writtenAt).1 }
  | .background (.poll sub now (.entity g e)) =>
      if a.detail.any fun d => d.sub == some sub then
        (live.subscription sub).map fun k => { live with store := live.store.apply k.key now (.entity g e) }
      else none
  | .browse (.filter none) => some (live.mapTop (fun view => { view with filter := none }) id)
  | .browse .pop =>
      match live.stack with
      | _ :: next :: rest => some { live with stack := next :: rest }
      | _ => none
  | _ => none

/-- Whether what an event leaves under the cursor reaches it. -/
def Reaches (a : App) (e : Event) : Prop := ∀ live ∈ a.live, ∀ u ∈ a.unclamped live e, u.OnRow

instance (a : App) (e : Event) : Decidable (a.Reaches e) := by
  unfold Reaches
  infer_instance

theorem reaches_iff {live : Live} {e : Event} (hl : a.live = some live) :
    a.Reaches e ↔ ∀ u ∈ a.unclamped live e, u.OnRow := by
  rw [Reaches, hl]
  simp only [Option.mem_def, Option.some.injEq, forall_eq']

/-- A session that stands still from the one an event leaves. -/
theorem onRow_iff_reaches {live live' u : Live} {e : Event} (hl : a.live = some live)
    (hu : a.unclamped live e = some u) (hl' : a'.live = some live') (hstill : Live.Still u live') :
    a'.OnRow ↔ a.Reaches e := by
  rw [onRow_of_live hl', reaches_iff hl, hu, hstill.onRow]
  simp only [Option.mem_def, Option.some.injEq, forall_eq']

theorem reaches_of_none {e : Event} (h : ∀ live ∈ a.live, a.unclamped live e = none) : a.Reaches e := by
  intro live hlive u hu
  rw [h live hlive] at hu
  cases hu

/-- An event after which the cursor stands where it stood. -/
theorem Still.onRow_iff {e : Event} (h : Still a a') (ha : a.OnRow)
    (he : ∀ live ∈ a.live, a.unclamped live e = none) : a'.OnRow ↔ a.Reaches e :=
  iff_of_true (h.onRow ha) (reaches_of_none he)

theorem onRow_of_no_live (h : a.live = none) : a.OnRow := by
  intro live hlive
  rw [h] at hlive
  cases hlive

theorem reaches_of_no_live {e : Event} (h : a.live = none) : a.Reaches e := by
  intro live hlive
  rw [h] at hlive
  cases hlive

theorem onRow_joined (a : App) (session : Session) :
    (a.joined session).OnRow ↔ a.Reaches (.background (.joined session)) := by
  cases hl : a.live with
  | none =>
      refine iff_of_true (onRow_of_no_live ?_) (reaches_of_no_live hl)
      simp only [joined, hl]
  | some live =>
      simp only [joined, hl]
      refine onRow_iff_reaches hl rfl rfl (Live.Still.trans ?_ (Live.still_subscribePeers _ _))
      exact ⟨Live.SameRows.ofStore rfl rfl rfl, Live.reading_forgetPeer live _⟩

theorem onRow_keepPeers (a : App) (keep : List String) :
    (a.keepPeers keep).OnRow ↔ a.Reaches (.background (.keepPeers keep)) := by
  cases hl : a.live with
  | none =>
      refine iff_of_true (onRow_of_no_live ?_) (reaches_of_no_live hl)
      simp only [keepPeers, mapLive, hl, Option.map_none]
  | some live =>
      have hkept : (((live.peers.map Peer.name).filter fun name => !keep.contains name).foldl
          Live.forgetPeer live).peers = live.peers.filter fun p => keep.contains p.name := by
        rw [Live.peers_foldl_forgetPeer]
        refine List.filter_congr fun p hp => ?_
        have hname : p.name ∈ live.peers.map Peer.name := List.mem_map_of_mem hp
        rw [Bool.eq_iff_iff]
        simp [hname]
      refine onRow_iff_reaches hl rfl (by simp only [keepPeers, mapLive, hl, Option.map_some]; rfl) ?_
      refine ⟨Live.SameRows.ofStore ?_ ?_ ?_, Live.reading_foldl_forgetPeer _ live⟩
      · exact (Live.topKey_foldl_forgetPeer live _).2
      · exact congrArg _ hkept
      · exact Live.store_foldl_forgetPeer _ live

/-- A poll ends in a clamp, that of the open detail apart, which stores its row and no more. -/
theorem onRow_poll (ha : a.OnRow) (sub now : ℕ) (u : Update) :
    (a.poll sub now u).OnRow ↔ a.Reaches (.background (.poll sub now u)) := by
  cases hl : a.live with
  | none =>
      refine iff_of_true (onRow_of_no_live ?_) (reaches_of_no_live hl)
      simp only [App.poll, hl]
  | some live =>
      cases hsub : live.subscription sub with
      | none =>
          refine iff_of_true ?_ ((reaches_iff hl).2 ?_)
          · simp only [App.poll, hl, hsub]
            exact ha
          · intro v hv
            unfold unclamped at hv
            split at hv <;> simp_all
      | some k =>
          cases hdetail : a.detail.any fun d => d.sub == some sub with
          | true =>
              cases u with
              | entity g e =>
                  refine onRow_iff_reaches (u := { live with
                    store := live.store.apply k.key now (.entity g e) }) hl ?_ ?_ (Live.Still.refl _)
                  · simp only [unclamped, hdetail, hsub, if_true, Option.map_some]
                  · simp only [App.poll, hl, hsub, hdetail, if_true]
              | started | page | complete | error =>
                  refine iff_of_true ?_ (reaches_of_none fun _ _ => rfl)
                  simp only [App.poll, hl, hsub, hdetail, if_true]
                  exact ha
          | false =>
              refine iff_of_true ?_ (reaches_of_none fun live' _ => ?_)
              · simp only [App.poll, hl, hsub, hdetail, Bool.false_eq_true, if_false]
                intro live' hlive'
                obtain ⟨l, -, rfl⟩ := Option.map_eq_some_iff.1 hlive'
                exact Live.onRow_clampSelection _
              · cases u <;> simp [unclamped, hdetail]

/-- What happens beside the user leaves the cursor on a row exactly when the rows it leaves reach it. -/
theorem onRow_background (ha : a.OnRow) (b : Background) :
    (a.background b).OnRow ↔ a.Reaches (.background b) := by
  cases b with
  | joined session => exact onRow_joined a session
  | keepPeers keep => exact onRow_keepPeers a keep
  | poll sub now u => exact onRow_poll ha sub now u
  | restored kind parents filter rows total writtenAt =>
      cases hl : a.live with
      | none =>
          refine iff_of_true (onRow_of_no_live ?_) (reaches_of_no_live hl)
          simp only [background, mapLive, hl, Option.map_none]
      | some live =>
          refine onRow_iff_reaches hl rfl ?_ (Live.Still.refl _)
          simp only [background, mapLive, hl, Option.map_some]
  | attach session =>
      refine iff_of_true ?_ (reaches_of_none fun _ _ => rfl)
      intro live hlive
      cases hlive
      exact Live.onRow_of_no_table rfl
  | connectFailed | tick => exact iff_of_true ha (reaches_of_none fun _ _ => rfl)
  | rolesResolved | rolesRestored | restoredNames =>
      refine Still.onRow_iff (still_mapLive ?_ a) ha fun _ _ => rfl
      intro live
      exact ⟨⟨rfl, rfl, fun _ => rfl⟩, rfl⟩

/-! ### The table and the page -/

/-- A table that is pushed has its cursor at the top. -/
theorem onRow_pushView {live : Live} (h : live.OnRow) (kind : Kind) (parents : List String)
    (parentName context : Option String) : (a.pushView live kind parents parentName context).OnRow := by
  intro live' hlive'
  unfold pushView at hlive'
  dsimp only at hlive'
  split at hlive'
  · cases hlive'
    exact h
  · cases hlive'
    refine (Live.still_subscribePeers _ _).onRow.2 ?_
    intro view hview hrows
    cases hview
    exact hrows

theorem onRow_pickChild (ha : a.OnRow) (child : Kind) : (a.pickChild env child).OnRow := by
  unfold pickChild
  split
  · exact ha
  · dsimp only
    split
    · exact ha
    · split
      · exact ha
      · rename_i live hl
        exact onRow_pushView (ha live hl) _ _ _ _

theorem onRow_openRoot (ha : a.OnRow) (kind : Kind) : (a.openRoot env kind).OnRow := by
  unfold openRoot
  split
  · exact ha
  split
  · exact ha
  split
  · exact ha
  · rename_i live _
    have hdrained : live.drainStack.OnRow := Live.onRow_of_no_table rfl
    have hpush : (a.closeModals.pushView live.drainStack kind [] none none).OnRow :=
      onRow_pushView hdrained kind [] none none
    exact hpush

theorem onRow_openPage (ha : a.OnRow) (panes : List PaneDef) : (a.openPage panes).OnRow := by
  unfold openPage
  dsimp only
  split
  · exact (still_closeModals a).onRow ha
  · intro live hlive
    cases hlive
    exact Live.onRow_of_no_table rfl

theorem onRow_openFocused (ha : a.OnRow) : (a.openFocused env).OnRow := by
  unfold openFocused
  split
  · exact ha
  · rename_i live hl
    split
    · split
      · exact ha
      · split
        · exact ha
        · exact onRow_pushView (ha live hl) _ _ _ _
    · exact ha

/-- A view that is closed leaves the table below it under the cursor it had. -/
theorem onRow_pop (ha : a.OnRow) : a.pop.OnRow ↔ a.Reaches (.browse .pop) := by
  cases hl : a.live with
  | none =>
      refine iff_of_true (onRow_of_no_live ?_) (reaches_of_no_live hl)
      simp only [pop, hl]
  | some live =>
      cases hstack : live.stack with
      | nil =>
          refine iff_of_true ?_ ((reaches_iff hl).2 ?_)
          · simpa only [pop, hl, hstack] using ha
          · simp [unclamped, hstack]
      | cons view views =>
          cases views with
          | nil =>
              refine iff_of_true ?_ ((reaches_iff hl).2 ?_)
              · simpa only [pop, hl, hstack] using ha
              · simp [unclamped, hstack]
          | cons next rest =>
              have hu : a.unclamped live (.browse .pop) = some { live with stack := next :: rest } := by
                simp only [unclamped, hstack]
              have hdrained := Live.sameRows_drainView { live with stack := [view] } view
              cases next with
              | table next =>
                  have hpop : a.pop.live = some { ({ live with stack := [view] } : Live).drainStack with
                      stack := .table next :: rest } := by simp only [pop, hl, hstack]
                  refine onRow_iff_reaches hl hu hpop ⟨?_, rfl⟩
                  exact ⟨hdrained.name, hdrained.names, hdrained.rows⟩
              | page page =>
                  refine iff_of_true ?_ ((reaches_iff hl).2 ?_)
                  · simp only [pop, hl, hstack]
                    exact (onRow_of_live rfl).2 (Live.onRow_of_no_table rfl)
                  · rw [hu]
                    simp only [Option.mem_def, Option.some.injEq, forall_eq']
                    exact Live.onRow_of_no_table rfl

/-- What the user does in a table or a page. -/
theorem onRow_browse (ha : a.OnRow) {b : Browse}
    (hb : ∀ n, b = .move (.row n) → ∀ live ∈ a.live, ∀ view ∈ live.table, n < live.matching view) :
    (a.browse env b).OnRow ↔ a.Reaches (.browse b) := by
  cases b with
  | pop => exact onRow_pop ha
  | filter keeps =>
      cases keeps with
      | none =>
          cases hl : a.live with
          | none =>
              refine iff_of_true (onRow_of_no_live ?_) (reaches_of_no_live hl)
              simp only [browse, mapLive, hl, Option.map_none]
          | some live =>
              refine onRow_iff_reaches hl rfl ?_ (Live.Still.refl _)
              simp only [browse, mapLive, hl, Option.map_some]
              rfl
      | some keeps =>
          refine iff_of_true ?_ (reaches_of_none fun _ _ => rfl)
          intro live' hlive'
          obtain ⟨live, -, rfl⟩ := Option.map_eq_some_iff.1 hlive'
          exact Live.onRow_clampSelection _
  | openRoot kind => exact iff_of_true (onRow_openRoot ha kind) (reaches_of_none fun _ _ => rfl)
  | openPage panes => exact iff_of_true (onRow_openPage ha panes) (reaches_of_none fun _ _ => rfl)
  | openFocused => exact iff_of_true (onRow_openFocused ha) (reaches_of_none fun _ _ => rfl)
  | move m =>
      refine iff_of_true ?_ (reaches_of_none fun _ _ => rfl)
      intro live' hlive'
      obtain ⟨live, hlive, rfl⟩ := Option.map_eq_some_iff.1 hlive'
      exact Live.onRow_move (ha live hlive) fun n hn => hb n (by rw [hn]) live hlive
  | toggleMark =>
      refine iff_of_true ?_ (reaches_of_none fun _ _ => rfl)
      simp only [browse, toggleMark]
      split
      · exact ha
      · intro live' hlive'
        obtain ⟨live, hlive, rfl⟩ := Option.map_eq_some_iff.1 hlive'
        refine Live.onRow_move ((Live.Still.onRow (Live.still_mapTop live _ ?_)).2 (ha live hlive)) ?_
        · intro view
          exact ⟨rfl, rfl, rfl⟩
        · intro n hn
          cases hn
  | clearMarks | cycleSort | toggleWide =>
      refine Still.onRow_iff (still_mapLive ?_ a) ha fun _ _ => rfl
      intro live
      exact Live.still_mapTop live _ fun _ => ⟨rfl, rfl, rfl⟩
  | focus pane =>
      refine Still.onRow_iff (still_mapLive ?_ a) ha fun _ _ => rfl
      intro live
      refine ⟨Live.SameRows.ofStore rfl rfl rfl, ?_⟩
      unfold Live.reading Live.table
      cases live.stack with
      | nil => rfl
      | cons view rest => cases view <;> rfl
  | leave | back => exact iff_of_true ha (reaches_of_none fun _ _ => rfl)

end App

/-! ### The wheel -/

/-- The rows of a notch. -/
def WHEEL_ROWS : ℕ := 3

/-- Where a notch of the wheel falls: on the table in view, or on a pane of the page. -/
inductive Target where
  | table
  | pane (i : ℕ)

namespace Live

variable {live : Live}

/-- The page in view. -/
def page (live : Live) : Option PageView :=
  match live.stack.head? with
  | some (.page page) => some page
  | _ => none

/-- The cursor of what a notch falls on. -/
def selection (live : Live) : Target → ℕ
  | .table => (live.table.map TableView.selected).getD 0
  | .pane i => ((live.page.bind fun page => page.panes[i]?).map Pane.selected).getD 0

/-- How many rows its table has, which the wheel is clamped to. -/
def rowsLen (live : Live) : Target → ℕ
  | .table => (live.table.map fun view => (live.store.table view.key).rows.len).getD 0
  | .pane i =>
      ((live.page.bind fun page => page.panes[i]?).map fun pane =>
        (live.store.table pane.key).rows.len).getD 0

def setSelection (live : Live) (row : ℕ) : Target → Live
  | .table =>
      { live with
        stack := live.stack.modifyHead fun
          | .table view => .table { view with selected := row }
          | .page page => .page page }
  | .pane i =>
      { live with
        stack := live.stack.modifyHead fun
          | .table view => .table view
          | .page page =>
              .page { page with panes := page.panes.modify i fun pane => { pane with selected := row } } }

/-- A cursor some rows down or up in a list of a length. -/
def step (selected : ℕ) (down : Bool) (rows len : ℕ) : ℕ :=
  if down then min (selected + rows) (len - 1) else selected - rows

def wheel (live : Live) (target : Target) (down : Bool) : Live :=
  live.setSelection (step (live.selection target) down WHEEL_ROWS (live.rowsLen target)) target


theorem table_setSelection_table (live : Live) (row : ℕ) :
    (live.setSelection row .table).table = live.table.map fun view => { view with selected := row } := by
  unfold table setSelection
  cases live.stack with
  | nil => rfl
  | cons view rest => cases view <;> rfl

/-- A notch over a pane leaves the table in view. -/
theorem still_wheel_pane (live : Live) (i : ℕ) (down : Bool) : Still live (live.wheel (.pane i) down) := by
  refine ⟨SameRows.ofStore rfl rfl rfl, ?_⟩
  unfold reading table wheel setSelection
  cases live.stack with
  | nil => rfl
  | cons view rest => cases view <;> rfl

theorem selection_table {view : TableView} (h : live.table = some view) : live.selection .table = view.selected := by
  rw [selection, h]
  rfl

theorem selection_wheel {view : TableView} (h : live.table = some view) (down : Bool) :
    (live.wheel .table down).selection .table = step view.selected down WHEEL_ROWS (live.rowsLen .table) := by
  rw [wheel, selection, table_setSelection_table, h, selection_table h]
  rfl

theorem onRow_wheel {view : TableView} (h : live.table = some view) (down : Bool) :
    (live.wheel .table down).OnRow ↔ (0 < live.matching view →
      step view.selected down WHEEL_ROWS (live.rowsLen .table) < live.matching view) := by
  have hsame : SameRows live (live.wheel .table down) := SameRows.ofStore rfl rfl rfl
  have htable : (live.wheel .table down).table = some { view with
      selected := step view.selected down WHEEL_ROWS (live.rowsLen .table) } := by
    rw [wheel, table_setSelection_table, h, selection_table h]
    rfl
  rw [OnRow, htable]
  simp only [Option.mem_def, Option.some.injEq, forall_eq', hsame.matching]
  exact Iff.rfl

end Live

/-- What happens to the application: an event of its run, or a notch of the wheel. -/
inductive Turn where
  | event (e : Event)
  | wheel (target : Target) (down : Bool)

namespace App

variable {a : App}

def wheel (a : App) (target : Target) (down : Bool) : App := a.mapLive fun live => live.wheel target down

/-- The cursor of the table in view. -/
def selection (a : App) : ℕ := (a.live.map fun live => live.selection .table).getD 0

/-- Whether the table in view shows a row: what a click, or a hit of the search, can land on.  The frame
is drawn again after whatever changes it. -/
def draws (a : App) (n : ℕ) : Bool :=
  a.live.all fun live => live.table.all fun view => n < live.matching view

/-- The cursor is the index of one of the rows shown, when the body shows a table and there is a row. -/
def Pointed (env : Env) (a : App) : Prop :=
  ∀ live ∈ a.live, live.table.isSome = true → ∀ c ∈ live.cursor,
    live.shown env a.now c ≠ [] → c.selected < (live.shown env a.now c).length

theorem pointed_iff (env : Env) (a : App) : a.Pointed env ↔ a.OnRow :=
  forall_congr' fun _ => forall_congr' fun _ => (Live.onRow_iff env a.now).symm

end App

namespace System

variable {env : Env} {s t : System}

def turn (env : Env) (s : System) : Turn → Option System
  | .event (.browse (.move (.row n))) =>
      if s.app.draws n then s.step env (.browse (.move (.row n))) else none
  | .event e => s.step env e
  | .wheel target down =>
      if s.app.mode = .table then some { s with app := s.app.wheel target down } else none

/-- After a turn the cursor is on a row, and a notch has moved it its way or not at all. -/
def Tracks (env : Env) (s : System) (u : Turn) : Prop :=
  ∀ t, s.turn env u = some t → t.app.Pointed env ∧
    match u with
    | .wheel .table true => s.app.selection ≤ t.app.selection
    | .wheel .table false => t.app.selection ≤ s.app.selection
    | _ => True

/-- What a turn leaves under the cursor reaches it.  For a notch down over the table in view: the cursor is
not past the table of the session, and a row is shown where the notch takes it, or that table has no more
rows than are shown. -/
def Follows (s : System) : Turn → Prop
  | .event e => s.app.Reaches e
  | .wheel .table true =>
      ∀ live ∈ s.app.live, ∀ view ∈ live.table,
        view.selected ≤ live.rowsLen .table - 1 ∧ (0 < live.matching view →
          view.selected + WHEEL_ROWS < live.matching view ∨ live.rowsLen .table ≤ live.matching view)
  | .wheel _ _ => True

instance (s : System) : (u : Turn) → Decidable (Follows s u)
  | .event e => inferInstanceAs (Decidable (s.app.Reaches e))
  | .wheel .table true => by
      unfold Follows
      infer_instance
  | .wheel .table false | .wheel (.pane _) _ => isTrue trivial

/-- What an event of the run leaves under the cursor. -/
theorem onRow_step {e : Event} (hs : s.app.OnRow) (h : s.step env e = some t)
    (he : ∀ n, e = .browse (.move (.row n)) → s.app.draws n = true) : t.app.OnRow ↔ s.app.Reaches e := by
  rw [app_step h]
  cases e with
  | background b => exact App.onRow_background hs b
  | browse b =>
      refine App.onRow_browse hs fun n hn live hlive view hview => ?_
      have hdraws := he n (by rw [hn])
      rw [App.draws, Option.mem_def.1 hlive, Option.all_some, Option.mem_def.1 hview, Option.all_some] at hdraws
      exact of_decide_eq_true hdraws
  | acted i outcome =>
      refine App.Still.onRow_iff ?_ hs fun _ _ => rfl
      rw [after]
      cases s.flying[i]? with
      | none => exact App.Still.refl s.app
      | some f => exact App.still_acted env s.app _ _ _
  | openMenu => exact (App.still_openMenu env s.app).onRow_iff hs fun _ _ => rfl
  | openPicker => exact (App.still_openPicker env s.app).onRow_iff hs fun _ _ => rfl
  | openDetail => exact (App.still_openDetail env s.app).onRow_iff hs fun _ _ => rfl
  | closeDetail => exact ((App.still_closeDetail s.app).trans (App.Still.same rfl)).onRow_iff hs fun _ _ => rfl
  | cancel =>
      refine App.Still.onRow_iff ?_ hs fun _ _ => rfl
      rw [after]
      split <;> exact App.Still.same rfl
  | start action =>
      refine App.Still.onRow_iff (App.Still.trans ?_ (App.still_start env s.acting action)) hs fun _ _ => rfl
      unfold acting
      split
      · exact App.Still.same rfl
      · exact App.Still.refl _
  | pickChild child => exact iff_of_true (App.onRow_pickChild hs child) (App.reaches_of_none fun _ _ => rfl)
  | submit => exact (App.still_submitForm env s.app).onRow_iff hs fun _ _ => rfl
  | confirmed => exact (App.still_runPending env s.app).onRow_iff hs fun _ _ => rfl
  | type field text | closeForm | cancelConfirm => exact iff_of_true hs (App.reaches_of_none fun _ _ => rfl)

theorem step_of_turn {e : Event} (h : s.turn env (.event e) = some t) :
    s.step env e = some t ∧ ∀ n, e = .browse (.move (.row n)) → s.app.draws n = true := by
  unfold turn at h
  split at h
  · rename_i n heq
    cases heq
    obtain ⟨hdraws, h⟩ := Option.ite_none_right_eq_some.1 h
    refine ⟨h, fun n' hn => ?_⟩
    cases hn
    exact hdraws
  · rename_i e' hrow heq
    cases heq
    exact ⟨h, fun n hn => absurd hn (hrow n)⟩
  · rename_i heq
    cases heq

/-- A notch over the table in view, in a session that shows one. -/
theorem tracks_wheel_table_iff {live : Live} {view : TableView} (hs : s.app.OnRow) (hl : s.app.live = some live)
    (hview : live.table = some view) (down : Bool) :
    ((s.app.wheel .table down).OnRow ∧
      if down then s.app.selection ≤ (s.app.wheel .table down).selection
      else (s.app.wheel .table down).selection ≤ s.app.selection) ↔ Follows s (.wheel .table down) := by
  have hwheel : (s.app.wheel .table down).live = some (live.wheel .table down) := by
    rw [App.wheel, App.mapLive, hl]
    rfl
  have hbefore : s.app.selection = view.selected := by
    rw [App.selection, hl, Option.map_some, Live.selection_table hview]
    rfl
  have hafter : (s.app.wheel .table down).selection =
      Live.step view.selected down WHEEL_ROWS (live.rowsLen .table) := by
    rw [App.selection, hwheel, Option.map_some, Live.selection_wheel hview]
    rfl
  have hon : 0 < live.matching view → view.selected < live.matching view := hs live hl view hview
  rw [App.onRow_of_live hwheel, Live.onRow_wheel hview, hbefore, hafter]
  cases down with
  | false =>
      refine iff_of_true ?_ trivial
      simp only [Live.step, Bool.false_eq_true, if_false]
      omega
  | true =>
      simp only [Follows, hl, Option.mem_def, Option.some.injEq, forall_eq', hview, Live.step, if_true]
      omega

/-- A notch moves the cursor its way and leaves it on a row exactly when a row is shown where it takes it. -/
theorem tracks_wheel_iff (hs : s.app.OnRow) (target : Target) (down : Bool)
    (h : s.turn env (.wheel target down) = some t) :
    Tracks env s (.wheel target down) ↔ Follows s (.wheel target down) := by
  obtain ⟨hmode, -⟩ := Option.ite_none_right_eq_some.1 h
  have hturn : ∀ t, s.turn env (.wheel target down) = some t ↔ t = { s with app := s.app.wheel target down } := by
    intro t
    rw [turn, if_pos hmode, Option.some.injEq, eq_comm]
  simp only [Tracks, hturn, forall_eq, App.pointed_iff]
  cases target with
  | pane i =>
      refine iff_of_true ⟨?_, trivial⟩ trivial
      exact (App.still_mapLive (fun live => Live.still_wheel_pane live i down) s.app).onRow hs
  | table =>
      by_cases htop : ∃ live ∈ s.app.live, ∃ view, live.table = some view
      · obtain ⟨live, hl, view, hview⟩ := htop
        rw [← tracks_wheel_table_iff hs hl hview down]
        cases down <;> exact Iff.rfl
      · push Not at htop
        have hnone : ∀ live ∈ s.app.live, live.table = none :=
          fun live hl => Option.eq_none_iff_forall_not_mem.2 (htop live hl)
        refine iff_of_true ⟨?_, ?_⟩ ?_
        · intro live' hlive'
          obtain ⟨live, hl, rfl⟩ := Option.map_eq_some_iff.1 hlive'
          refine Live.onRow_of_no_table ?_
          rw [Live.wheel, Live.table_setSelection_table, hnone live hl, Option.map_none]
        · have hsame : (s.app.wheel .table down).selection = s.app.selection := by
            rw [App.selection, App.selection, App.wheel, App.mapLive, Option.map_map]
            cases hl : s.app.live with
            | none => rfl
            | some live =>
                simp [Live.selection, Live.wheel, Live.table_setSelection_table, hnone live hl]
          cases down <;> simp only [hsame, le_refl]
        · cases down with
          | false => trivial
          | true =>
              intro live hl view hview
              rw [hnone live hl] at hview
              cases hview

theorem tracks_iff_follows_step {u : Turn} (hs : s.app.OnRow) (h : s.turn env u = some t) :
    Tracks env s u ↔ Follows s u := by
  cases u with
  | wheel target down => exact tracks_wheel_iff hs target down h
  | event e =>
      obtain ⟨hstep, hdraws⟩ := step_of_turn h
      rw [Follows, ← onRow_step hs hstep hdraws]
      simp only [Tracks, h, Option.some.injEq, forall_eq', and_true, App.pointed_iff]

/-- **The cursor of the table in view.**  In a run, after every turn the cursor is on one of the rows shown
and every notch has moved it its way, exactly when what each turn leaves under the cursor reaches it; and
then the cursor is on a row in the state reached. -/
theorem tracks_iff_follows {g : Guardrails} {us : List Turn}
    (hrun : Run.exec (turn env) (init g) us = some t) :
    (Run.Along (turn env) (Tracks env) (init g) us ↔ Run.Along (turn env) Follows (init g) us) ∧
      (Run.Along (turn env) Follows (init g) us → t.app.Pointed env) := by
  have hempty : (init g).app.OnRow := App.onRow_of_no_live rfl
  have hkept : ∀ s u t, Tracks env s u → s.turn env u = some t → t.app.OnRow :=
    fun s u t hu h => (App.pointed_iff env t.app).1 (hu t h).1
  have hiff : ∀ s u t, s.app.OnRow → s.turn env u = some t → (Tracks env s u ↔ Follows s u) :=
    fun s u t hs h => tracks_iff_follows_step hs h
  refine ⟨Run.along_iff hiff (fun s u t _ => hkept s u t) hempty hrun, ?_⟩
  intro hfollows
  have hstep : ∀ s u t, s.app.OnRow → Follows s u → s.turn env u = some t → t.app.OnRow :=
    fun s u t hs hu h => hkept s u t ((hiff s u t hs h).2 hu) h
  have hon : t.app.OnRow := Run.exec_inv_along (I := fun s : System => s.app.OnRow) hstep hempty hfollows hrun
  exact (App.pointed_iff env t.app).2 hon

/-- Five virtual machines of the session and one of a joined context. -/
def scrolling : List Event :=
  merging prodSession [vm "a" "a", vm "b" "b", vm "c" "c", vm "d" "d", vm "e" "e"] [vm "p" "p"]

/-- Down twice, up, the cursor put on the last row shown by a click, and the context dropped. -/
def scrolled : List Turn :=
  scrolling.map .event ++
    [.wheel .table true, .wheel .table true, .wheel .table false, .event (.browse (.move (.row 3))),
      .event (.background (.keepPeers [])), .wheel .table true]

theorem tracks_scrolled : ∃ t ∈ Run.exec (turn vmEnv) (init {}) scrolled,
    Run.Along (turn vmEnv) (Tracks vmEnv) (init {}) scrolled ∧ t.app.Pointed vmEnv := by
  obtain ⟨t, ht⟩ : ∃ t, Run.exec (turn vmEnv) (init {}) scrolled = some t :=
    Option.isSome_iff_exists.1 (by decide)
  have hfollows : Run.Along (turn vmEnv) Follows (init {}) scrolled := by decide
  exact ⟨t, ht, (tracks_iff_follows ht).1.2 hfollows, (tracks_iff_follows ht).2 hfollows⟩

/-- A notch down under a term that keeps one row. -/
def overshot : List Turn :=
  scrolling.map .event ++ [.event (.browse (.filter (some fun e => e.name == "a"))), .wheel .table true]

/-- The cursor on the last row shown, which is of the joined context. -/
def lowest : List Turn := scrolling.map .event ++ [.event (.browse (.move .bottom))]

/-- **A notch is clamped to the rows of the session, not to those shown**: under a term the wheel takes the
cursor past the last row that matches, and from a row of a joined context a notch down takes it up. -/
theorem not_tracks :
    (¬ ∀ (env : Env) (g : Guardrails) (us : List Turn) (t : System),
      Run.exec (turn env) (init g) us = some t → t.app.Pointed env) ∧
    ¬ ∀ (env : Env) (g : Guardrails) (us : List Turn) (s t : System),
      Run.exec (turn env) (init g) us = some s → s.turn env (.wheel .table true) = some t →
      s.app.selection ≤ t.app.selection := by
  refine ⟨?_, ?_⟩
  · intro h
    obtain ⟨t, ht, hoff⟩ : ∃ t ∈ Run.exec (turn vmEnv) (init {}) overshot, ¬ t.app.OnRow := by decide
    exact hoff ((App.pointed_iff vmEnv t.app).1 (h vmEnv {} overshot t ht))
  · intro h
    obtain ⟨s, hs, t, ht, hup⟩ : ∃ s ∈ Run.exec (turn vmEnv) (init {}) lowest,
        ∃ t ∈ s.turn vmEnv (.wheel .table true), t.app.selection < s.app.selection := by decide
    exact absurd (h vmEnv {} lowest s t hs ht) (Nat.not_le.2 hup)

end System

end Nutsh
