/-
The rows a table shows, and the cursor among them.

The frame shows the rows of every context, merged, that the filter keeps, and the cursor of the view is an
index of them.  Most of what happens shows the same rows under the same cursor: the boxes over the body
open and close, actions are judged and sent, their outcomes come back.

* `Live.table`, `Live.matching`, `Live.OnRow` — the table in view, how many rows it shows, and a cursor
  that is on one of them;
* `Live.onRow_iff` — it is the index of one of the ids the view gives;
* `Live.Still`, `App.Still` — the same rows under the same cursor;
* `App.still_start`, `App.still_acted`, … — the pipeline and the surfaces leave both.
-/
import Nutsh.System.Surfaces
import Nutsh.System.Tables

set_option relaxedAutoImplicit false
set_option autoImplicit false

namespace Nutsh

/-- How many of a table's rows a filter keeps. -/
def Table.matching (t : Table) (filter : Option (Entity → Bool)) : ℕ :=
  (t.rows.values.filter fun e => filter.all fun keeps => keeps e).length

namespace Live

variable {live live' live'' : Live} {env : Env} {now : ℕ}

/-- The table in view, if the body shows one. -/
def table (live : Live) : Option TableView :=
  match live.stack.head? with
  | some (.table view) => some view
  | _ => none

/-- How many rows a table view shows. -/
def matching (live : Live) (view : TableView) : ℕ := (live.merged view.key).matching view.filter

/-- The cursor of the table in view is on a row, when there is one. -/
def OnRow (live : Live) : Prop :=
  ∀ view ∈ live.table, 0 < live.matching view → view.selected < live.matching view

instance (live : Live) : Decidable live.OnRow := by
  unfold OnRow
  infer_instance

/-- The rows shown are those that match, in some order. -/
theorem length_shown (c : Cursor) :
    (live.shown env now c).length = (live.merged c.key).matching c.filter := by
  have hkept : ((live.merged c.key).rows.entries.filter fun r => c.filter.all fun keeps => keeps r.2).length =
      (live.merged c.key).matching c.filter := by
    rw [Table.matching, IndexMap.values, List.filter_map, List.length_map]
    rfl
  rw [← hkept]
  unfold shown order
  dsimp only
  split
  · rw [List.length_map]
  · rw [List.length_map, List.length_insertionSort, List.length_map]

/-- Where the body shows a table, the cursor is the view's. -/
theorem cursor_of_table {view : TableView} (h : view ∈ live.table) :
    ∃ c ∈ live.cursor, c.key = view.key ∧ c.selected = view.selected ∧ c.filter = view.filter := by
  unfold table at h
  split at h
  · rename_i view' htop
    cases h
    exact ⟨_, by rw [cursor, htop]; rfl, rfl, rfl, rfl⟩
  · cases h

/-- The cursor is on a row exactly when it is the index of one of the rows shown. -/
theorem onRow_iff (env : Env) (now : ℕ) :
    live.OnRow ↔ live.table.isSome = true → ∀ c ∈ live.cursor,
      live.shown env now c ≠ [] → c.selected < (live.shown env now c).length := by
  cases hview : live.table with
  | none => simp [OnRow, hview]
  | some view =>
      obtain ⟨c, hc, hkey, hselected, hfilter⟩ := cursor_of_table hview
      have hlen : (live.shown env now c).length = live.matching view := by
        rw [length_shown, hkey, hfilter]
        rfl
      rw [Option.mem_def.1 hc]
      simp only [OnRow, hview, Option.mem_def, Option.some.injEq, forall_eq', Option.isSome_some, forall_const,
        ← List.length_pos_iff_ne_nil, hlen, hselected]

/-! ### The same rows under the same cursor -/

/-- The cursor of the table in view, and how many rows the table shows. -/
def gauge (live : Live) : Option (ℕ × ℕ) :=
  live.table.map fun view => (view.selected, live.matching view)

theorem onRow_iff_gauge : live.OnRow ↔ ∀ g ∈ live.gauge, 0 < g.2 → g.1 < g.2 := by
  unfold OnRow gauge
  cases live.table with
  | none => simp
  | some view => simp

theorem onRow_congr (h : live'.gauge = live.gauge) : live'.OnRow ↔ live.OnRow := by
  rw [onRow_iff_gauge, onRow_iff_gauge, h]

/-- Two sessions whose tables hold the same rows, merged from the same contexts. -/
structure SameRows (live live' : Live) : Prop where
  name : live'.primaryName = live.primaryName
  names : live'.peers.map Peer.name = live.peers.map Peer.name
  rows : ∀ key, (live'.store.table key).rows = (live.store.table key).rows

namespace SameRows

theorem refl (live : Live) : SameRows live live := ⟨rfl, rfl, fun _ => rfl⟩

theorem trans (h : SameRows live live') (h' : SameRows live' live'') : SameRows live live'' :=
  ⟨h'.name.trans h.name, h'.names.trans h.names, fun key => (h'.rows key).trans (h.rows key)⟩

theorem ofStore (hname : live'.primaryName = live.primaryName)
    (hnames : live'.peers.map Peer.name = live.peers.map Peer.name) (hstore : live'.store = live.store) :
    SameRows live live' :=
  ⟨hname, hnames, fun key => by rw [hstore]⟩

theorem merges (h : SameRows live live') (key : TableKey) : live'.merges key = live.merges key := by
  have hempty : live'.peers.isEmpty = live.peers.isEmpty := by
    rw [← List.isEmpty_map (f := Peer.name), h.names, List.isEmpty_map]
  rw [Live.merges, Live.merges, hempty]

theorem allRows (h : SameRows live live') (key : TableKey) : live'.allRows key = live.allRows key := by
  have hpeers : ∀ l : Live, (l.peers.flatMap fun p => (l.peerTable key p.name).rows.entries.map fun r =>
      (peerRowId p.name r.1, stamp p.name r.2)) =
      (l.peers.map Peer.name).flatMap fun name => (l.peerTable key name).rows.entries.map fun r =>
        (peerRowId name r.1, stamp name r.2) := by
    intro l
    rw [List.flatMap_map]
  have hrows : ∀ name, (live'.peerTable key name).rows = (live.peerTable key name).rows :=
    fun name => h.rows (key.inContext name)
  rw [Live.allRows, Live.allRows, hpeers live', hpeers live, h.names, h.name, h.rows]
  simp only [hrows]

/-- The rows a view shows are the same. -/
theorem matching (h : SameRows live live') (view : TableView) : live'.matching view = live.matching view := by
  have hrows : (live'.merged view.key).rows = (live.merged view.key).rows := by
    cases hm : live.merges view.key with
    | true => rw [rows_merged_of_merges hm, rows_merged_of_merges ((h.merges _).trans hm), h.allRows]
    | false => rw [merged_of_not_merges hm, merged_of_not_merges ((h.merges _).trans hm), h.rows]
  rw [Live.matching, Live.matching, Table.matching, Table.matching, hrows]

end SameRows

/-- What the cursor of the table in view goes by, the rows apart. -/
def reading (live : Live) : Option (TableKey × Option (Entity → Bool) × ℕ) :=
  live.table.map fun view => (view.key, view.filter, view.selected)

/-- A session that shows the same rows under the same cursor. -/
structure Still (live live' : Live) : Prop extends SameRows live live' where
  reading : live'.reading = live.reading

namespace Still

theorem refl (live : Live) : Still live live := ⟨SameRows.refl live, rfl⟩

theorem trans (h : Still live live') (h' : Still live' live'') : Still live live'' :=
  ⟨h.toSameRows.trans h'.toSameRows, h'.reading.trans h.reading⟩

theorem gauge (h : Still live live') : live'.gauge = live.gauge := by
  have hcongr : ∀ view view' : TableView, view'.key = view.key → view'.filter = view.filter →
      live'.matching view' = live.matching view := by
    intro view view' hkey hfilter
    rw [← h.matching view, Live.matching, Live.matching, hkey, hfilter]
  have hreading := h.reading
  unfold Live.reading at hreading
  unfold Live.gauge
  cases ht : live.table with
  | none =>
      rw [ht, Option.map_none, Option.map_eq_none_iff] at hreading
      rw [hreading]
      rfl
  | some view =>
      rw [ht, Option.map_some] at hreading
      obtain ⟨view', hview', heq⟩ := Option.map_eq_some_iff.1 hreading
      simp only [Prod.mk.injEq] at heq
      rw [hview', Option.map_some, Option.map_some, hcongr view view' heq.1 heq.2.1, heq.2.2]

theorem onRow (h : Still live live') : live'.OnRow ↔ live.OnRow := onRow_congr h.gauge

end Still

/-- A session with another stack reads the same where the top view does. -/
theorem table_congr (h : live'.stack.head? = live.stack.head?) : live'.table = live.table := by
  rw [table, table, h]

theorem reading_congr (h : live'.stack.head? = live.stack.head?) : live'.reading = live.reading := by
  rw [reading, reading, table_congr h]

theorem still_mapScheduler (live : Live) (context : Option String) (f : Scheduler → Scheduler) :
    Still live (live.mapScheduler context f) :=
  ⟨SameRows.ofStore (primaryName_mapScheduler live context f) (names_mapScheduler context f)
    (store_mapScheduler context f), reading_congr (congrArg List.head? (App.stack_mapScheduler live context f))⟩

theorem still_unsubscribeAny (live : Live) (sub : ℕ) : Still live (live.unsubscribeAny sub) := by
  refine ⟨SameRows.ofStore rfl ?_ rfl, rfl⟩
  rw [unsubscribeAny, List.map_map]
  rfl

theorem still_foldl_unsubscribeAny (subs : List ℕ) (live : Live) :
    Still live (subs.foldl unsubscribeAny live) := by
  induction subs generalizing live with
  | nil => exact Still.refl live
  | cons sub subs ih => exact (still_unsubscribeAny live sub).trans (ih _)

theorem names_subscribeEach (key : TableKey) (listed : List (String × ℕ)) (next : ℕ) (ps : List Peer) :
    (subscribeEach key listed next ps).1.map Peer.name = ps.map Peer.name := by
  induction ps generalizing listed next with
  | nil => rfl
  | cons p ps ih =>
      rw [subscribeEach]
      split
      · exact congrArg (p.name :: ·) (ih listed next)
      · exact congrArg (p.name :: ·) (ih _ _)

theorem still_subscribePeers (live : Live) (next : ℕ) : Still live (live.subscribePeers next).1 := by
  unfold subscribePeers
  split
  · rename_i view rest hstack
    split
    · refine ⟨SameRows.ofStore rfl (names_subscribeEach _ _ _ _) rfl, ?_⟩
      simp [reading, table, hstack]
    · exact Still.refl live
  · exact Still.refl live

/-- Ending the cycles of a view leaves the rows. -/
theorem rows_abandon (s : Store) (key key' : TableKey) :
    ((s.abandon key).table key').rows = (s.table key').rows := by
  by_cases hk : key'.ident = key.ident
  · rw [Store.table_congr hk, Store.table_congr hk, Store.table_abandon]
  · rw [Store.table_abandon_ne hk]

theorem rows_foldl_abandon (panes : List Pane) (s : Store) (key : TableKey) :
    ((panes.foldl (fun s pane => s.abandon pane.key) s).table key).rows = (s.table key).rows := by
  induction panes generalizing s with
  | nil => rfl
  | cons pane panes ih => rw [List.foldl_cons, ih, rows_abandon]

theorem sameRows_drainView (live : Live) (view : View) : SameRows live (live.drainView view) := by
  cases view with
  | table t =>
      refine (still_foldl_unsubscribeAny _ live).toSameRows.trans ⟨rfl, rfl, fun key => ?_⟩
      exact rows_abandon _ _ _
  | page p =>
      refine (still_foldl_unsubscribeAny _ live).toSameRows.trans ⟨rfl, rfl, fun key => ?_⟩
      exact rows_foldl_abandon _ _ _

theorem reading_forgetPeer (live : Live) (name : String) : (live.forgetPeer name).reading = live.reading := by
  unfold reading table forgetPeer
  rw [List.head?_map]
  cases live.stack.head? with
  | none => rfl
  | some view => cases view <;> rfl

theorem peers_foldl_forgetPeer (names : List String) (live : Live) :
    (names.foldl forgetPeer live).peers = live.peers.filter fun p => !names.contains p.name := by
  induction names generalizing live with
  | nil => simp
  | cons name names ih =>
      rw [List.foldl_cons, ih, forgetPeer, List.filter_filter]
      refine List.filter_congr fun p _ => ?_
      rw [List.contains_cons, Bool.not_or, Bool.and_comm]
      rfl

theorem reading_foldl_forgetPeer (names : List String) (live : Live) :
    (names.foldl forgetPeer live).reading = live.reading := by
  induction names generalizing live with
  | nil => rfl
  | cons name names ih => exact (ih _).trans (reading_forgetPeer live name)

theorem table_mapTop (live : Live) (f : TableView → TableView) (g : Pane → Pane) :
    (live.mapTop f g).table = live.table.map f := by
  unfold table mapTop
  cases live.stack with
  | nil => rfl
  | cons view rest => cases view <;> rfl

theorem sameRows_mapTop (live : Live) (f : TableView → TableView) (g : Pane → Pane) :
    SameRows live (live.mapTop f g) :=
  SameRows.ofStore rfl rfl rfl

/-- A view changed but for its key, its term and its cursor. -/
theorem still_mapTop (live : Live) {f : TableView → TableView} (g : Pane → Pane)
    (hf : ∀ view, (f view).key = view.key ∧ (f view).filter = view.filter ∧ (f view).selected = view.selected) :
    Still live (live.mapTop f g) := by
  refine ⟨sameRows_mapTop live f g, ?_⟩
  rw [reading, reading, table_mapTop, Option.map_map]
  refine congrFun (congrArg _ (funext fun view => ?_)) _
  obtain ⟨hkey, hfilter, hselected⟩ := hf view
  simp only [Function.comp_apply, hkey, hfilter, hselected]

/-- The same rows under a cursor that was moved to one of them. -/
theorem onRow_of_moved (hsame : SameRows live live') {f : TableView → ℕ}
    (htable : live'.table = live.table.map fun view => { view with selected := f view })
    (hf : ∀ view ∈ live.table, 0 < live.matching view → f view < live.matching view) : live'.OnRow := by
  intro view' hview' hrows
  rw [htable] at hview'
  obtain ⟨view, hview, rfl⟩ := Option.map_eq_some_iff.1 hview'
  have hmatching : live'.matching { view with selected := f view } = live.matching view := hsame.matching _
  rw [hmatching] at hrows ⊢
  exact hf view hview hrows

/-- A clamp puts the cursor on a row. -/
theorem onRow_clampSelection (live : Live) : live.clampSelection.OnRow := by
  have hsame : SameRows live live.clampSelection := by
    unfold clampSelection
    split <;> exact SameRows.ofStore rfl rfl rfl
  refine onRow_of_moved hsame (f := fun view => min view.selected (live.matching view - 1)) ?_ ?_
  · unfold clampSelection
    split <;> (rename_i hstack; simp only [table, hstack]; rfl)
  · intro view _ hrows
    omega

/-- A move of the keys, and a click on a row that is shown, leaves the cursor on a row. -/
theorem onRow_move (h : live.OnRow) {m : Move}
    (hm : ∀ n, m = .row n → ∀ view ∈ live.table, n < live.matching view) : (live.move m).OnRow := by
  refine onRow_of_moved (sameRows_mapTop live _ _) (table_mapTop live _ _) ?_
  intro view hview hrows
  have hon := h view hview hrows
  have hlast : live.lastRow view = live.matching view - 1 := rfl
  rw [hlast]
  cases m with
  | down | up | home | bottom | pageDown | pageUp =>
      simp only [Move.to]
      omega
  | row n => exact hm n rfl view hview

theorem onRow_of_no_table (h : live.table = none) : live.OnRow := by
  intro view hview
  rw [h] at hview
  cases hview

end Live

namespace App

variable {env : Env} {a a' a'' : App}

/-- The cursor of the table in view is on a row, when there is one. -/
def OnRow (a : App) : Prop := ∀ live ∈ a.live, live.OnRow

instance (a : App) : Decidable a.OnRow := by
  unfold OnRow
  infer_instance

/-- A session that is there afterwards shows the same rows under the same cursor. -/
def Still (a a' : App) : Prop := ∀ live' ∈ a'.live, ∃ live ∈ a.live, Live.Still live live'

namespace Still

theorem refl (a : App) : Still a a := fun live h => ⟨live, h, Live.Still.refl live⟩

theorem trans (h : Still a a') (h' : Still a' a'') : Still a a'' := by
  intro live'' hlive''
  obtain ⟨live', hlive', hstill'⟩ := h' live'' hlive''
  obtain ⟨live, hlive, hstill⟩ := h live' hlive'
  exact ⟨live, hlive, hstill.trans hstill'⟩

theorem same (h : a'.live = a.live) : Still a a' :=
  fun live hlive => ⟨live, h ▸ hlive, Live.Still.refl live⟩

theorem ofLive {live live' : Live} (hl : a.live = some live) (hl' : a'.live = some live')
    (h : Live.Still live live') : Still a a' := by
  intro l hl''
  rw [hl'] at hl''
  cases hl''
  exact ⟨live, hl, h⟩

theorem onRow (h : Still a a') (ha : a.OnRow) : a'.OnRow := by
  intro live' hlive'
  obtain ⟨live, hlive, hstill⟩ := h live' hlive'
  exact hstill.onRow.2 (ha live hlive)

end Still

theorem still_mapLive {f : Live → Live} (hf : ∀ live, Live.Still live (f live)) (a : App) :
    Still a (a.mapLive f) := by
  intro live' hlive'
  obtain ⟨live, hlive, rfl⟩ := Option.map_eq_some_iff.1 hlive'
  exact ⟨live, hlive, hf live⟩

/-! ### The pipeline -/

theorem still_startCanI (a : App) : Still a a.startCanI := by
  refine still_mapLive ?_ a
  intro live
  exact ⟨Live.SameRows.ofStore rfl rfl rfl, rfl⟩

theorem still_journalRefusal (a : App) (action : Action) (subjects : List (String × String)) (why : String) :
    Still a (a.journalRefusal action subjects why) := by
  refine still_mapLive (fun live => ?_) a
  split
  · exact ⟨Live.SameRows.ofStore rfl rfl rfl, rfl⟩
  · exact Live.Still.refl live

theorem reading_clearMarks (live : Live) (journal : Journal) :
    ({ live with journal, stack := live.stack.modifyHead clearMarks } : Live).reading = live.reading := by
  unfold Live.reading Live.table
  cases live.stack with
  | nil => rfl
  | cons view rest => cases view <;> rfl

/-- The marks are spent, the cursor stays. -/
theorem still_runPending (env : Env) (a : App) : Still a (a.runPending env).1 := by
  cases hp : a.pending with
  | none =>
      simp only [runPending, hp]
      exact Still.refl a
  | some p =>
      cases hl : a.live with
      | none =>
          simp only [runPending, hp, hl, dropPending]
          exact Still.same hl.symm
      | some live =>
          cases hc : live.cursor with
          | none =>
              simp only [runPending, hp, hl, hc, dropPending]
              exact Still.same hl.symm
          | some c =>
              simp only [runPending, hp, hl, hc, dropPending]
              refine Still.ofLive hl rfl ⟨Live.SameRows.ofStore rfl rfl rfl, ?_⟩
              split
              · exact reading_clearMarks live _
              · rfl

theorem still_confirmOrRun (env : Env) (a : App) : Still a (a.confirmOrRun env).1 := by
  cases hp : a.pending with
  | none =>
      simp only [confirmOrRun, hp]
      exact Still.refl a
  | some p =>
      rcases confirmOrRun_cases env hp with ⟨why, h⟩ | ⟨h, -⟩ | ⟨live, c, k, -, -, -, -, h⟩ |
        ⟨-, h⟩ | h <;> rw [h]
      · exact still_journalRefusal { a with pending := none } p.action p.rows why
      · exact Still.refl a
      · exact Still.same rfl
      · exact still_runPending env a
      · exact Still.same rfl

theorem still_pend {action : Action} :
    (∀ a', a.pend env action = .ok a' → Still a a') ∧ ∀ a', a.pend env action = .error a' → Still a a' := by
  have hstart := still_startCanI a
  refine ⟨?_, ?_⟩
  · intro a' h
    obtain ⟨-, body, rfl⟩ := pend_eq_ok h
    exact hstart.trans (Still.same rfl)
  · intro a' h
    unfold pend at h
    dsimp only at h
    split at h
    · cases h
      exact hstart.trans (still_journalRefusal _ _ _ _)
    split at h
    · cases h
      exact hstart.trans (Still.same rfl)
    split at h
    · cases h
      exact hstart.trans (Still.same rfl)
    · cases h

theorem still_start (env : Env) (a : App) (action : Action) : Still a (a.start env action).1 := by
  rcases start_cases env a action with ⟨a', hpend, h⟩ |
    ⟨a', p, hpend, hp, ⟨hasks, h⟩ | ⟨hasks, h⟩⟩ <;> rw [h]
  · exact still_pend.2 a' hpend
  · exact (still_pend.1 a' hpend).trans (Still.same rfl)
  · exact (still_pend.1 a' hpend).trans (still_confirmOrRun env a')

theorem still_submitForm (env : Env) (a : App) : Still a (a.submitForm env).1 := by
  unfold submitForm
  split
  · refine Still.trans (Still.same ?_) (still_confirmOrRun env a.submitted)
    unfold submitted
    split <;> rfl
  · exact Still.same rfl

/-! ### The surfaces -/

theorem still_openMenu (env : Env) (a : App) : Still a (a.openMenu env) := by
  refine (still_startCanI a).trans (Still.same ?_)
  unfold openMenu
  dsimp only
  split
  · rfl
  · split <;> rfl

theorem still_openDetail (env : Env) (a : App) : Still a (a.openDetail env) := by
  refine (still_startCanI a).trans ?_
  unfold openDetail
  dsimp only
  split
  · exact Still.refl _
  · rename_i live hl
    split
    · refine Still.ofLive hl rfl ?_
      split <;> split
      · exact Live.still_mapScheduler live _ _
      · exact Live.Still.refl live
      · exact Live.still_mapScheduler live _ _
      · exact Live.Still.refl live
    · exact Still.refl _

theorem still_openPicker (env : Env) (a : App) : Still a (a.openPicker env) := by
  refine (still_startCanI a).trans ?_
  unfold openPicker
  dsimp only
  split
  · exact Still.refl _
  · split
    · exact still_openDetail env a.startCanI
    · exact Still.same rfl

theorem still_closeDetail (a : App) : Still a a.closeDetail := by
  unfold closeDetail
  dsimp only
  split
  · exact still_mapLive (fun live => Live.still_unsubscribeAny live _) a
  · exact Still.same rfl

theorem still_closeModals (a : App) : Still a a.closeModals :=
  Still.trans (Still.same rfl)
    (still_closeDetail { a with picker := none, menu := none, confirm := none, form := none, pending := none })

/-! ### What comes in -/

theorem still_refreshRow (a : App) (kind : Kind) (extId : String) (site : Option String) :
    Still a (a.refreshRow kind extId site) := by
  unfold refreshRow
  split
  · exact Still.refl a
  · rename_i live hl
    split
    · split
      · exact Still.refl a
      · dsimp only
        split <;> split
        · exact Still.refl a
        · exact Still.ofLive hl rfl (Live.still_mapScheduler live _ _)
        · exact Still.refl a
        · exact Still.ofLive hl rfl (Live.still_mapScheduler live _ _)
    · exact Still.refl a

theorem still_acted (env : Env) (a : App) (journal : ℕ) (plan : PlanRef) (outcome : Outcome) :
    Still a (a.acted env journal plan outcome) := by
  cases hl : a.live with
  | none =>
      simp only [acted, hl]
      exact Still.refl a
  | some live =>
      have hsettled : ∀ journal, Live.Still live { live with journal } :=
        fun journal => ⟨Live.SameRows.ofStore rfl rfl rfl, rfl⟩
      have hdone : Still a
          { a with live := some { live with journal := live.journal.settle journal .succeeded none } } :=
        Still.ofLive hl rfl (hsettled _)
      cases outcome with
      | started task =>
          simp only [acted, hl]
          refine Still.ofLive hl rfl ?_
          split
          · exact hsettled _
          · exact (Live.still_mapScheduler live _ _).trans ⟨Live.SameRows.ofStore rfl rfl rfl, rfl⟩
      | done =>
          simp only [acted, hl]
          exact (hdone.trans (still_refreshRow _ _ _ _)).trans (Still.same rfl)
      | returned value =>
          simp only [acted, hl]
          exact (hdone.trans (still_closeModals _)).trans (Still.same rfl)
      | failed failure forbidden =>
          simp only [acted, hl]
          refine Still.ofLive hl rfl ?_
          split
          · exact ⟨Live.SameRows.ofStore rfl rfl rfl, rfl⟩
          · exact hsettled _

end App

end Nutsh
