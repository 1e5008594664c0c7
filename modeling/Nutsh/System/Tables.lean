/-
The tables of a session while it lasts.

The application writes its store only by the operations of the store: an update of a poll, rows of the
cache, names, and the end of a cycle nobody waits for.  A session that is attached starts with an empty
one.  So what every operation keeps is true of the store at any moment of any run, as it is that a row
stands under the id it carries.

* `Store.Fed`, `App.Feeds` — a store some operations later, and an application whose store is;
* `System.feeds_step`, `System.store_inv` — every step feeds the store; the rule for what the operations
  keep;
* `Store.Filed`, `System.filed_of_run` — every row stands under its own id.
-/
import Mathlib.Logic.Relation
import Nutsh.Screen.Origins
import Nutsh.Store.Keyed

set_option relaxedAutoImplicit false
set_option autoImplicit false

namespace Nutsh

namespace Store

variable {s s' : Store}

/-- A store some operations later. -/
def Fed : Store → Store → Prop := Relation.ReflTransGen fun s s' => ∃ o, s' = s.op o

theorem Fed.refl (s : Store) : Fed s s := Relation.ReflTransGen.refl

theorem fed_op (s : Store) (o : Op) : Fed s (s.op o) := Relation.ReflTransGen.single ⟨o, rfl⟩

/-- What every operation keeps is true of a store some operations later. -/
theorem Fed.inv {I : Store → Prop} (hop : ∀ s o, I s → I (s.op o)) (h : Fed s s') (hs : I s) : I s' := by
  induction h with
  | refl => exact hs
  | tail _ hstep ih =>
      obtain ⟨o, rfl⟩ := hstep
      exact hop _ o ih

theorem fed_foldl_abandon {α : Type*} (key : α → TableKey) (xs : List α) (s : Store) :
    Fed s (xs.foldl (fun s x => s.abandon (key x)) s) := by
  induction xs generalizing s with
  | nil => exact Fed.refl s
  | cons x xs ih => exact (fed_op s (.abandon (key x))).trans (ih _)

end Store

namespace Live

variable {live : Live}

@[simp] theorem store_subscribePeers (live : Live) (next : ℕ) :
    (live.subscribePeers next).1.store = live.store := by
  unfold subscribePeers
  split
  · split <;> rfl
  · rfl

theorem store_foldl_forgetPeer (names : List String) (live : Live) :
    (names.foldl forgetPeer live).store = live.store := by
  induction names generalizing live with
  | nil => rfl
  | cons name names ih => exact ih (live.forgetPeer name)

@[simp] theorem store_subscribePanes (live : Live) (next : ℕ) (served : Pane → Bool) (panes : List Pane) :
    (live.subscribePanes next served panes).1.store = live.store := by
  suffices h : ∀ r : Live × List Pane × ℕ,
      (panes.foldl (subscribePane served) r).1.store = r.1.store from h (live, [], next)
  induction panes with
  | nil =>
      intro r
      rfl
  | cons pane panes ih =>
      intro r
      rw [List.foldl_cons, ih]
      unfold subscribePane
      dsimp only
      split
      · exact store_mapScheduler none _
      · rfl

/-- A view that goes ends the cycles of its tables. -/
theorem fed_drainView (live : Live) (view : View) : Store.Fed live.store (live.drainView view).store := by
  cases view with
  | table t =>
      rw [drainView]
      dsimp only
      rw [store_foldl_unsubscribeAny]
      exact Store.fed_op live.store (.abandon t.key)
  | page p =>
      rw [drainView]
      dsimp only
      rw [store_foldl_unsubscribeAny]
      exact Store.fed_foldl_abandon Pane.key p.panes live.store

theorem fed_drainStack (live : Live) : Store.Fed live.store live.drainStack.store := by
  suffices h : ∀ (views : List View) (live : Live),
      Store.Fed live.store (views.foldl drainView live).store from h live.stack live
  intro views
  induction views with
  | nil => exact fun live => Store.Fed.refl live.store
  | cons view views ih => exact fun live => (fed_drainView live view).trans (ih _)

end Live

namespace App

variable {env : Env} {a a' a'' : App}

theorem fed_releaseTop (live : Live) : Store.Fed live.store (releaseTop live).store := by
  unfold releaseTop
  split
  · exact Store.fed_foldl_abandon Pane.key _ live.store
  · exact Store.Fed.refl live.store

/-- A store that is there afterwards was fed, from what was there or from nothing. -/
def Feeds (a a' : App) : Prop :=
  ∀ live' ∈ a'.live, Store.Fed {} live'.store ∨ ∃ live ∈ a.live, Store.Fed live.store live'.store

theorem Feeds.refl (a : App) : Feeds a a :=
  fun live h => Or.inr ⟨live, h, Store.Fed.refl live.store⟩

theorem Feeds.trans (h : Feeds a a') (h' : Feeds a' a'') : Feeds a a'' := by
  intro live'' hlive''
  rcases h' live'' hlive'' with hnew | ⟨live', hlive', hfed'⟩
  · exact Or.inl hnew
  · rcases h live' hlive' with hnew | ⟨live, hlive, hfed⟩
    · exact Or.inl (hnew.trans hfed')
    · exact Or.inr ⟨live, hlive, hfed.trans hfed'⟩

theorem Feeds.same (h : a'.store = a.store) : Feeds a a' := by
  intro live' hlive'
  have hstore : a.store = some live'.store := by
    rw [← h, store, Option.mem_def.1 hlive', Option.map_some]
  obtain ⟨live, hlive, heq⟩ := Option.map_eq_some_iff.1 hstore
  exact Or.inr ⟨live, hlive, heq ▸ Store.Fed.refl live.store⟩

theorem Feeds.ofLive {live live' : Live} (hl : a.live = some live) (hl' : a'.live = some live')
    (hfed : Store.Fed live.store live'.store) : Feeds a a' := by
  intro l hl''
  rw [hl'] at hl''
  cases hl''
  exact Or.inr ⟨live, hl, hfed⟩

theorem feeds_mapLive {f : Live → Live} (hf : ∀ live : Live, Store.Fed live.store (f live).store) (a : App) :
    Feeds a (a.mapLive f) := by
  intro live' hlive'
  obtain ⟨live, hlive, rfl⟩ := Option.map_eq_some_iff.1 hlive'
  exact Or.inr ⟨live, hlive, hf live⟩

/-- A session changed but for its store. -/
theorem store_mapLive {f : Live → Live} (hf : ∀ live : Live, (f live).store = live.store) (a : App) :
    (a.mapLive f).store = a.store := by
  rw [store, store, mapLive, Option.map_map]
  exact congrArg (Option.map · a.live) (funext hf)

/-! ### The pipeline -/

@[simp] theorem store_startCanI (a : App) : a.startCanI.store = a.store := by
  refine store_mapLive ?_ a
  intro live
  rfl

@[simp] theorem store_journalRefusal (a : App) (action : Action) (subjects : List (String × String))
    (why : String) : (a.journalRefusal action subjects why).store = a.store := by
  refine store_mapLive ?_ a
  intro live
  split <;> rfl

theorem store_runPending (env : Env) (a : App) : (a.runPending env).1.store = a.store := by
  rcases runPending_cases env a with (⟨h, -⟩ | h) | ⟨live, key, p, s, hl, -, -, -, -, h⟩
  · rw [h]
  · rw [h]
    rfl
  · obtain ⟨stack, status, h⟩ := h
    rw [h, store, store, hl]
    rfl

theorem store_confirmOrRun (env : Env) (a : App) : (a.confirmOrRun env).1.store = a.store := by
  cases hp : a.pending with
  | none => simp only [confirmOrRun, hp]
  | some p =>
      rcases confirmOrRun_cases env hp with ⟨why, h⟩ | ⟨h, -⟩ | ⟨live, c, k, -, -, -, -, h⟩ |
        ⟨-, h⟩ | h <;> rw [h]
      · exact store_journalRefusal { a with pending := none } p.action p.rows why
      · rfl
      · exact store_runPending env a
      · rfl

theorem store_pend {action : Action} :
    (∀ a', a.pend env action = .ok a' → a'.store = a.store) ∧
      ∀ a', a.pend env action = .error a' → a'.store = a.store := by
  have hstart := store_startCanI a
  refine ⟨?_, ?_⟩
  · intro a' h
    obtain ⟨-, body, rfl⟩ := pend_eq_ok h
    exact hstart
  · intro a' h
    unfold pend at h
    dsimp only at h
    split at h
    · cases h
      exact (store_journalRefusal a.startCanI _ _ _).trans hstart
    split at h
    · cases h
      exact hstart
    split at h
    · cases h
      exact hstart
    · cases h

theorem store_start (env : Env) (a : App) (action : Action) : (a.start env action).1.store = a.store := by
  rcases start_cases env a action with ⟨a', hpend, h⟩ |
    ⟨a', p, hpend, hp, ⟨hasks, h⟩ | ⟨hasks, h⟩⟩ <;> rw [h]
  · exact store_pend.2 a' hpend
  · exact store_pend.1 a' hpend
  · exact (store_confirmOrRun env a').trans (store_pend.1 a' hpend)

theorem store_submitForm (env : Env) (a : App) : (a.submitForm env).1.store = a.store := by
  unfold submitForm
  split
  · refine (store_confirmOrRun env a.submitted).trans ?_
    unfold submitted
    split <;> rfl
  · rfl

/-! ### The surfaces -/

theorem store_openMenu (env : Env) (a : App) : (a.openMenu env).store = a.store := by
  unfold openMenu
  dsimp only
  split
  · exact store_startCanI a
  · split <;> exact store_startCanI a

theorem store_openDetail (env : Env) (a : App) : (a.openDetail env).store = a.store := by
  refine Eq.trans ?_ (store_startCanI a)
  unfold openDetail
  dsimp only
  split
  · rfl
  · rename_i live hl
    split
    · rw [store, store, hl, Option.map_some, Option.map_some, Option.some.injEq]
      split <;> split
      · exact Live.store_mapScheduler _ _
      · rfl
      · exact Live.store_mapScheduler _ _
      · rfl
    · rfl

theorem store_openPicker (env : Env) (a : App) : (a.openPicker env).store = a.store := by
  refine Eq.trans ?_ (store_startCanI a)
  unfold openPicker
  dsimp only
  split
  · rfl
  · split
    · exact store_openDetail env a.startCanI
    · rfl

@[simp] theorem store_closeDetail (a : App) : a.closeDetail.store = a.store := by
  unfold closeDetail
  rw [store, store]
  dsimp only
  split
  · rw [Option.map_map]
    rfl
  · rfl

@[simp] theorem store_closeModals (a : App) : a.closeModals.store = a.store :=
  store_closeDetail { a with picker := none, menu := none, confirm := none, form := none, pending := none }

theorem feeds_pushView (a : App) {live live₀ : Live} (hl : a.live = some live₀)
    (hfed : Store.Fed live₀.store live.store) (kind : Kind) (parents : List String)
    (parentName context : Option String) : Feeds a (a.pushView live kind parents parentName context) := by
  unfold pushView
  dsimp only
  split
  · exact Feeds.ofLive hl rfl hfed
  · refine Feeds.ofLive hl rfl (hfed.trans ?_)
    rw [Live.store_subscribePeers]
    dsimp only
    rw [Live.store_mapScheduler]
    exact fed_releaseTop live

theorem feeds_pickChild (env : Env) (a : App) (child : Kind) : Feeds a (a.pickChild env child) := by
  unfold pickChild
  split
  · exact Feeds.refl a
  · dsimp only
    split
    · exact Feeds.same rfl
    · split
      · exact Feeds.same rfl
      · rename_i live hl
        have hpush := feeds_pushView { a with picker := none, mode := .table } hl (Store.Fed.refl live.store)
        exact Feeds.trans (Feeds.same rfl) (hpush _ _ _ _)

/-! ### What comes in -/

theorem store_acted (env : Env) (a : App) (journal : ℕ) (plan : PlanRef) (outcome : Outcome) :
    (a.acted env journal plan outcome).store = a.store := by
  cases hl : a.live with
  | none => simp only [acted, hl]
  | some live =>
      have hstore : a.store = some live.store := by rw [store, hl, Option.map_some]
      cases outcome with
      | started task =>
          simp only [acted, hl]
          rw [hstore, store, Option.map_some]
          split
          · rfl
          · exact congrArg some (Live.store_mapScheduler _ _)
      | done =>
          simp only [acted, hl]
          exact (store_refreshRow { a with live := some _ } _ _ _).trans hstore.symm
      | returned value =>
          simp only [acted, hl]
          exact (store_closeModals { a with live := some _ }).trans hstore.symm
      | failed failure forbidden =>
          simp only [acted, hl]
          rw [hstore, store, Option.map_some]
          split <;> rfl

/-- Whatever happens beside the user, the store is fed. -/
theorem feeds_background (a : App) (b : Background) : Feeds a (a.background b) := by
  cases b with
  | attach session =>
      intro live' hlive'
      cases hlive'
      exact Or.inl (Store.Fed.refl {})
  | joined session =>
      refine Feeds.same ?_
      simp only [background, joined]
      split
      · rfl
      · rename_i live hl
        rw [store, store, hl, Option.map_some, Live.store_subscribePeers]
        rfl
  | keepPeers keep => exact Feeds.same (store_mapLive (fun live => Live.store_foldl_forgetPeer _ live) a)
  | connectFailed => exact Feeds.same rfl
  | poll sub now u =>
      cases hl : a.live with
      | none =>
          refine Feeds.same ?_
          simp only [background, App.poll, hl]
      | some live =>
          intro live' hlive'
          have hstore : (a.poll sub now u).store = some live'.store := by
            rw [store, show (a.poll sub now u).live = some live' from hlive', Option.map_some]
          refine Or.inr ⟨live, hl, ?_⟩
          rcases store_poll hl sub now u with h | ⟨k, -, h⟩ <;> rw [hstore, Option.some.injEq] at h <;> rw [h]
          · exact Store.Fed.refl live.store
          · exact Store.fed_op live.store (.apply k.key now u)
  | rolesResolved generation index =>
      refine Feeds.same (store_mapLive ?_ a)
      intro live
      rfl
  | rolesRestored index =>
      refine Feeds.same (store_mapLive ?_ a)
      intro live
      rfl
  | restored kind parents filter rows total writtenAt =>
      exact feeds_mapLive (fun live => Store.fed_op live.store (.restore _ rows total writtenAt)) a
  | restoredNames names => exact feeds_mapLive (fun live => Store.fed_op live.store (.applyNames names)) a
  | tick now => exact Feeds.same rfl

/-! ### The table and the page -/

theorem feeds_browse (env : Env) (a : App) (b : Browse) : Feeds a (a.browse env b) := by
  cases b with
  | openRoot kind =>
      simp only [browse, openRoot]
      split
      · exact Feeds.refl a
      split
      · exact Feeds.refl a
      split
      · exact Feeds.refl a
      · rename_i live hl
        have hpush := feeds_pushView a.closeModals hl (Live.fed_drainStack live) kind [] none none
        exact (Feeds.same (store_closeModals a)).trans hpush
  | openPage panes =>
      simp only [browse, openPage]
      refine (Feeds.same (store_closeModals a)).trans ?_
      split
      · exact Feeds.refl _
      · rename_i live hl
        refine Feeds.ofLive hl rfl ?_
        dsimp only
        rw [Live.store_subscribePanes]
        exact Live.fed_drainStack live
  | openFocused =>
      simp only [browse, openFocused]
      split
      · exact Feeds.refl a
      · rename_i live hl
        split
        · split
          · exact Feeds.refl a
          · split
            · exact Feeds.refl a
            · exact feeds_pushView a hl (Store.Fed.refl live.store) _ _ _ _
        · exact Feeds.refl a
  | pop =>
      simp only [browse, pop]
      split
      · exact Feeds.refl a
      · rename_i live hl
        split
        · rename_i view next rest hstack
          have hfed := Live.fed_drainStack { live with stack := [view] }
          split <;> refine Feeds.ofLive hl rfl ?_
          · exact hfed
          · dsimp only
            rw [Live.store_subscribePanes]
            exact hfed
        · exact Feeds.refl a
  | filter keeps =>
      refine Feeds.same (store_mapLive (fun live => ?_) a)
      dsimp only
      split
      · exact Live.store_clampSelection _
      · rfl
  | toggleMark =>
      simp only [browse, toggleMark]
      split
      · exact Feeds.refl a
      · refine Feeds.same (store_mapLive ?_ a)
        intro live
        rfl
  | leave | back => exact Feeds.same rfl
  | move m | clearMarks | cycleSort | toggleWide | focus pane =>
      refine Feeds.same (store_mapLive ?_ a)
      intro live
      rfl

end App

/-! ### The run -/

namespace System

variable {env : Env} {s t : System} {e : Event}

/-- Every step feeds the store. -/
theorem feeds_step (h : s.step env e = some t) : App.Feeds s.app t.app := by
  rw [app_step h]
  cases e with
  | background b => exact App.feeds_background s.app b
  | browse b => exact App.feeds_browse env s.app b
  | acted i outcome =>
      rw [after]
      cases s.flying[i]? with
      | none => exact App.Feeds.refl s.app
      | some f => exact App.Feeds.same (App.store_acted env s.app _ _ _)
  | openMenu => exact App.Feeds.same (App.store_openMenu env s.app)
  | openPicker => exact App.Feeds.same (App.store_openPicker env s.app)
  | openDetail => exact App.Feeds.same (App.store_openDetail env s.app)
  | closeDetail => exact App.Feeds.same (App.store_closeDetail s.app)
  | cancel =>
      rw [after]
      split <;> exact App.Feeds.same rfl
  | start action =>
      refine App.Feeds.trans ?_ (App.Feeds.same (App.store_start env s.acting action))
      unfold acting
      split
      · exact App.Feeds.same rfl
      · exact App.Feeds.refl _
  | pickChild child => exact App.feeds_pickChild env s.app child
  | submit => exact App.Feeds.same (App.store_submitForm env s.app)
  | confirmed => exact App.Feeds.same (App.store_runPending env s.app)
  | type field text | closeForm | cancelConfirm => exact App.Feeds.same rfl

/-- **The rule for stores**: what is true of the empty store and kept by every operation is true of the
store at the end of every run. -/
theorem store_inv {I : Store → Prop} (hempty : I {}) (hop : ∀ s o, I s → I (s.op o)) {g : Guardrails}
    {es : List Event} (hrun : Run.exec (System.step env) (init g) es = some t) :
    ∀ live ∈ t.app.live, I live.store := by
  refine Run.exec_inv (I := fun s : System => ∀ live ∈ s.app.live, I live.store) ?_ ?_ hrun
  · intro s e t hs hstep live' hlive'
    rcases feeds_step hstep live' hlive' with hfed | ⟨live, hlive, hfed⟩
    · exact hfed.inv hop hempty
    · exact hfed.inv hop (hs live hlive)
  · intro live hlive
    cases hlive

end System

/-! ### Rows under their ids -/

namespace Table

/-- Every row stands under the id it carries. -/
def Filed (t : Table) : Prop := ∀ id e, t.rows.get? id = some e → e.extId = id

theorem Keyed.filed {t : Table} (h : t.Keyed) : t.Filed := fun id e he => (h.identified id e he).2

theorem Filed.of_rows {t t' : Table} (h : t.Filed) (hrows : t'.rows = t.rows) : t'.Filed := by
  rwa [Filed, hrows]

theorem filed_apply {t : Table} (h : t.Filed) (now : ℕ) (u : Update) : (t.apply now u).Filed := by
  cases u with
  | started g => exact h.of_rows (by simp)
  | page g entities total => exact h.of_rows (by simp)
  | error g error => exact h.of_rows (by simp)
  | complete g =>
      rcases t.onComplete_cases now g with ⟨-, -, -, hrows⟩ | ⟨-, -, -, hrows⟩
      · exact (keyed_of_index hrows).filed
      · exact h.of_rows hrows
  | entity g e =>
      rw [apply_entity, onEntity]
      split
      · exact h
      · intro id e' he'
        by_cases hid : id = e.extId
        · rw [hid, IndexMap.get?_insert_self, Option.some.injEq] at he'
          rw [hid, he']
        · rw [IndexMap.get?_insert_ne hid] at he'
          exact h id e' he'

/-- What a table holds for an id carries it. -/
theorem Filed.row {t : Table} (h : t.Filed) {id : String} {e : Entity} (he : t.row id = some e) :
    e.extId = id := by
  rcases Option.or_eq_some_iff.1 he with hwhole | ⟨-, hrow⟩
  · have hid := (Option.filter_eq_some_iff.1 hwhole).2
    exact beq_iff_eq.1 hid
  · exact h id e hrow

end Table

namespace Store

/-- Every row of every table stands under the id it carries. -/
def Filed (s : Store) : Prop := ∀ key, (s.table key).Filed

theorem filed_empty : ({} : Store).Filed := fun _ => Table.keyed_fresh.filed

/-- A store is filed when the one table that was written is. -/
theorem filed_of_table {s s' : Store} {key : TableKey} (h : s.Filed) (hkey : (s'.table key).Filed)
    (hother : ∀ key', key'.ident ≠ key.ident → s'.table key' = s.table key') : s'.Filed := by
  intro key'
  by_cases hk : key'.ident = key.ident
  · rwa [table_congr hk]
  · rw [hother key' hk]
    exact h key'

theorem filed_op {s : Store} (h : s.Filed) (o : Op) : (s.op o).Filed := by
  cases o with
  | apply key now u =>
      refine filed_of_table h ?_ fun key' hk => table_apply_ne hk
      rw [op, table_apply]
      exact Table.filed_apply (h key) now u
  | restore key rows total writtenAt =>
      refine filed_of_table h ?_ fun key' hk => table_restore_ne hk ..
      rw [op, table_restore]
      split
      · exact h key
      split
      · exact h key
      · exact (Table.keyed_of_index rfl).filed
  | abandon key =>
      refine filed_of_table h ?_ fun key' hk => table_abandon_ne hk
      rw [op, table_abandon]
      exact (h key).of_rows rfl
  | applyNames names => exact h

end Store

namespace System

/-- **Every row stands under its own id**, in every table and at every moment of a run. -/
theorem filed_of_run {env : Env} {t : System} {g : Guardrails} {es : List Event}
    (hrun : Run.exec (System.step env) (init g) es = some t) : ∀ live ∈ t.app.live, live.store.Filed :=
  store_inv Store.filed_empty (fun _ o h => Store.filed_op h o) hrun

end System

end Nutsh
