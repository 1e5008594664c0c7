/-
A form sent on while the rows under it come and go.

What was typed is tried on the first pending row that is still in the table of the view; the run finds
its rows by their ids, in whichever context holds them.  In a plain table the two agree.  They differ on a
page, which has no table of its own, and for the rows of a joined context, which are in other tables: the
form says then that the row is gone, though the run would find it.

* `App.checked`, `App.formSays` — what was typed tried, and what the form says under itself;
* `App.found` — the pending rows the run finds;
* `App.Answers` — a form that is sent on as long as a pending row is found, and says no other row is gone;
* `App.viewHolds` — a pending row is in the table of the view itself;
* `App.answers_of_viewHolds`, `App.viewHolds_of_answers` — when a form answers so.
-/
import Nutsh.System.Tables

set_option relaxedAutoImplicit false
set_option autoImplicit false

namespace Nutsh

/-- Why a form stays open: what was typed makes no body, or there is no row to make it for. -/
inductive FormError where
  | body (why : String)
  | gone
  deriving DecidableEq, Repr

def FormError.text : FormError → String
  | body why => why
  | gone => "the row this action was started on is gone"

namespace Store

/-- No row carries an id with a tab in it. -/
def Untabbed (s : Store) : Prop :=
  ∀ table ∈ s.tables.values, ∀ e ∈ table.2.rows.values, '\t' ∉ e.extId.toList

instance (s : Store) : Decidable s.Untabbed := by
  unfold Untabbed
  infer_instance

theorem Untabbed.notMem {s : Store} (h : s.Untabbed) {key : TableKey} {id : String} {e : Entity}
    (he : (s.table key).rows.get? id = some e) : '\t' ∉ e.extId.toList := by
  have hrow : e ∈ (s.table key).rows.values :=
    List.mem_map.2 ⟨(id, e), IndexMap.mem_entries_iff.2 he, rfl⟩
  cases htable : s.tables.get? key.ident with
  | none =>
      rw [table, htable] at he
      cases he
  | some table =>
      refine h table (List.mem_map.2 ⟨_, IndexMap.mem_entries_iff.2 htable, rfl⟩) e ?_
      rwa [Store.table, htable] at hrow

end Store

namespace App

variable (env : Env)

/-- What was typed, tried on the first pending row still in the table of the view; none where there is no
session, no table or no such row. -/
def checked (app : App) (pending : Pending) (form : Form) : Option (Except String Json) :=
  app.live.bind fun live =>
    match live.stack.head? with
    | some (.table view) =>
        let rows := (live.store.table view.key).rows
        (pending.rows.findSome? fun row => rows.get? row.1).map fun e =>
          buildBody env.codec pending.action.form form.entered e app.now
    | _ => none

/-- What the form says once it is sent on, none where it closes. -/
def formSays (app : App) (pending : Pending) (form : Form) : Option FormError :=
  match app.checked env pending form with
  | some (.ok _) => none
  | some (.error e) => some (.body e)
  | none => some .gone

/-- The pending rows that are found again under the key of the cursor, each with its context. -/
def found (app : App) (pending : Pending) : List (Option String × Entity) :=
  match app.live.bind fun live => live.cursor.map fun c => (live, c.key) with
  | some (live, key) => pending.rows.filterMap fun row => live.findRow key row.1
  | none => []

/-- Whether one of the pending rows is in the table of the view itself. -/
def viewHolds (app : App) (pending : Pending) : Bool :=
  app.live.any fun live =>
    match live.stack.head? with
    | some (.table view) =>
        pending.rows.any fun row => ((live.store.table view.key).rows.get? row.1).isSome
    | _ => false

/-- A form sent on for a body, the pending action going on to its confirmation with what was typed, or
left open with why there is none. -/
def Takes (app : App) (pending : Pending) (form : Form) : Except String Json → Prop
  | .ok _ => app.submitForm env = app.submitted.confirmOrRun env ∧ app.formSays env pending form = none
  | .error why => app.submitForm env = (app, []) ∧ app.formSays env pending form = some (.body why)

/-- A form that is sent on by the body for a pending row that is found, as long as one is, and that says a
row is gone only when none is. -/
structure Answers (app : App) (pending : Pending) (form : Form) : Prop where
  built : app.found pending ≠ [] → ∃ row ∈ app.found pending,
    app.Takes env pending form
      (buildBody env.codec pending.action.form form.entered row.2 app.now)
  gone : app.formSays env pending form = some .gone → app.found pending = []

variable {env} {app : App} {pending : Pending} {form : Form}

/-! ### The rows a run finds -/

/-- A run is for the rows that are found: there are none, and nothing is sent. -/
theorem requests_of_found_nil (hp : app.pending = some pending) (h : app.found pending = []) :
    (app.runPending env).2 = [] := by
  cases hl : app.live with
  | none => simp [runPending, hp, dropPending, hl]
  | some live =>
      cases hc : live.cursor with
      | none => simp [runPending, hp, dropPending, hl, hc]
      | some c =>
          have hnone : ∀ row ∈ pending.rows, live.findRow c.key row.1 = none := by
            simpa [found, hl, hc] using h
          have hsent : ∀ (rows : List (String × String)) (s : Sending),
              (∀ row ∈ rows, live.findRow c.key row.1 = none) →
              rows.foldl (app.dropPending.sendRow env live c.key pending) s = s := by
            intro rows
            induction rows with
            | nil => exact fun s _ => rfl
            | cons row rows ih =>
                intro s hrows
                have hrow := hrows row List.mem_cons_self
                rw [List.foldl_cons, sendRow, planRow, hrow]
                exact ih s fun row' hrow' => hrows row' (List.mem_cons_of_mem _ hrow')
          have hlive : app.dropPending.live = some live := hl
          simp only [runPending, hp, hlive, hc, hsent pending.rows _ hnone]

/-! ### What is tried -/

/-- The form is sent on when what was typed makes a body. -/
theorem formChecks_eq (hp : app.pending = some pending) (hf : app.form = some form) :
    app.formChecks env = (app.checked env pending form).any Except.isOk := by
  unfold formChecks checked
  rw [hp, hf]
  cases app.live with
  | none => rfl
  | some live =>
      rw [Option.bind_some]
      cases hv : live.stack.head? with
      | none => simp only [hv, Option.any_none]
      | some view =>
          cases view with
          | page page => simp only [hv, Option.any_none]
          | table view =>
              simp only [hv, Option.any_map]

/-- What is tried is tried on a row of the view. -/
theorem isSome_checked (env : Env) (app : App) (pending : Pending) (form : Form) :
    (app.checked env pending form).isSome = app.viewHolds pending := by
  unfold checked viewHolds
  cases app.live with
  | none => rfl
  | some live =>
      rw [Option.bind_some, Option.any_some]
      split
      · rw [Option.isSome_map, List.isSome_findSome?]
      · rfl

/-- What was typed is taken as it was tried. -/
theorem takes_of_checked (hp : app.pending = some pending) (hf : app.form = some form)
    {r : Except String Json} (h : app.checked env pending form = some r) : app.Takes env pending form r := by
  have hchecks : app.formChecks env = (app.checked env pending form).any Except.isOk := formChecks_eq hp hf
  rw [h] at hchecks
  cases r with
  | ok body =>
      refine ⟨?_, by simp only [formSays, h]⟩
      rw [submitForm, hchecks]
      rfl
  | error why =>
      refine ⟨?_, by simp only [formSays, h]⟩
      rw [submitForm, hchecks]
      rfl

/-! ### When a form answers -/

/-- A pending row of the view is found, by the run, as a row of the same id: its own context's, under the
key of the cursor. -/
theorem found_of_viewHolds {live : Live} (hlive : app.live = some live) (hfiled : live.store.Filed)
    (huntabbed : live.store.Untabbed) {r : Except String Json} (h : app.checked env pending form = some r) :
    ∃ row ∈ app.found pending,
      buildBody env.codec pending.action.form form.entered row.2 app.now = r := by
  unfold checked at h
  rw [hlive, Option.bind_some] at h
  split at h
  · rename_i view hv
    obtain ⟨e, hfirst, rfl⟩ := Option.map_eq_some_iff.1 h
    obtain ⟨row, hrow, he⟩ := List.exists_of_findSome?_eq_some hfirst
    have hid : e.extId = row.1 := hfiled view.key row.1 e he
    have hsplit : splitRowId row.1 = (none, row.1) :=
      splitRowId_of_notMem (hid ▸ huntabbed.notMem he)
    -- the fullest document of the id is found, the row of the list or one read by itself
    have hheld : ∃ e', (live.store.table view.key).row row.1 = some e' := by
      refine Option.isSome_iff_exists.1 ?_
      rw [Table.row, Option.isSome_or, he, Option.isSome_some, Bool.or_true]
    obtain ⟨e', he'⟩ := hheld
    refine ⟨(none, e'), ?_, ?_⟩
    · have hcursor : ∃ c, live.cursor = some c ∧ c.key = view.key := by
        refine Live.cursor_of_topKey ?_
        rw [Live.topKey, hv]
        rfl
      obtain ⟨c, hc, hkey⟩ := hcursor
      have hfind : live.findRow view.key row.1 = some (none, e') := by
        rw [Live.findRow, hsplit]
        simp only [he']
      rw [found, hlive, Option.bind_some, hc, Option.map_some]
      exact List.mem_filterMap.2 ⟨row, hrow, hkey ▸ hfind⟩
    · exact buildBody_congr env.codec _ _ ((hfiled view.key).row he' |>.trans hid.symm) app.now
  · cases h

/-- A form over a row of the view itself answers. -/
theorem answers_of_viewHolds (hp : app.pending = some pending) (hf : app.form = some form)
    (hfiled : ∀ live ∈ app.live, live.store.Filed) (huntabbed : ∀ live ∈ app.live, live.store.Untabbed)
    (h : app.viewHolds pending = true) : app.Answers env pending form := by
  rw [← isSome_checked env app pending form] at h
  obtain ⟨r, hr⟩ := Option.isSome_iff_exists.1 h
  obtain ⟨live, hlive, -⟩ := Option.bind_eq_some_iff.1 hr
  obtain ⟨row, hrow, hbody⟩ := found_of_viewHolds hlive (hfiled live hlive) (huntabbed live hlive) hr
  have htakes := takes_of_checked hp hf hr
  refine ⟨fun _ => ⟨row, hrow, ?_⟩, fun hgone => ?_⟩
  · rw [hbody]
    exact htakes
  · -- a form whose text was tried on a row does not say that it is gone
    cases r with
    | ok body =>
        rw [htakes.2] at hgone
        cases hgone
    | error why =>
        rw [htakes.2] at hgone
        cases hgone

/-- A form that answers is over a row of the view itself, unless no pending row is found. -/
theorem viewHolds_of_answers (h : app.Answers env pending form) (hfound : app.found pending ≠ []) :
    app.viewHolds pending = true := by
  rw [← isSome_checked env app pending form]
  by_contra hnone
  refine hfound (h.gone ?_)
  rw [formSays, Option.not_isSome_iff_eq_none.1 hnone]

/-- A pending row that is found though the view holds none is one of a joined context, or one that is known
from a read of its own only. -/
theorem site_of_found {live : Live} (hlive : app.live = some live) {view : TableView}
    (hv : live.stack.head? = some (.table view)) (h : app.viewHolds pending = false)
    {row : Option String × Entity} (hrow : row ∈ app.found pending) :
    (∃ name, row.1 = some name) ∨ (live.store.table view.key).whole = some row.2 := by
  obtain ⟨c, hc, hkey⟩ : ∃ c, live.cursor = some c ∧ c.key = view.key := by
    refine Live.cursor_of_topKey ?_
    rw [Live.topKey, hv]
    rfl
  rw [found, hlive, Option.bind_some, hc, Option.map_some] at hrow
  obtain ⟨r, hr, hfind⟩ := List.mem_filterMap.1 hrow
  have hnone : (live.store.table view.key).rows.get? r.1 = none := by
    simp only [viewHolds, hlive, Option.any_some, hv, List.any_eq_false, Bool.not_eq_true,
      Option.isSome_eq_false_iff, Option.isNone_iff_eq_none] at h
    exact h r hr
  rw [hkey, Live.findRow] at hfind
  split at hfind
  · obtain ⟨p, -, hpeer⟩ := Option.bind_eq_some_iff.1 hfind
    obtain ⟨e, -, rfl⟩ := Option.map_eq_some_iff.1 hpeer
    exact Or.inl ⟨p.name, rfl⟩
  · rename_i extId hsplit
    obtain rfl : extId = r.1 := by
      rw [splitRowId] at hsplit
      split at hsplit <;> cases hsplit
      rfl
    split at hfind
    · rename_i e he
      cases hfind
      rcases Option.or_eq_some_iff.1 he with hwhole | ⟨-, hget⟩
      · exact Or.inr (Option.filter_eq_some_iff.1 hwhole).1
      · rw [hnone] at hget
        cases hget
    · rw [Option.ite_none_right_eq_some] at hfind
      obtain ⟨p, -, hpeer⟩ := List.exists_of_findSome?_eq_some hfind.2
      obtain ⟨e, -, rfl⟩ := Option.map_eq_some_iff.1 hpeer
      exact Or.inl ⟨p.name, rfl⟩

end App

namespace System

variable {env : Env} {g : Guardrails} {es : List Event} {t : System} {pending : Pending} {form : Form}

/-- **A form answers exactly when the view holds one of its rows**, or no row is found at all: at every
moment of every run, as long as no id carries a tab. -/
theorem form_answers_iff (hrun : Run.exec (System.step env) (init g) es = some t)
    (huntabbed : ∀ live ∈ t.app.live, live.store.Untabbed) (hp : t.app.pending = some pending)
    (hf : t.app.form = some form) :
    t.app.Answers env pending form ↔ t.app.viewHolds pending = true ∨ t.app.found pending = [] := by
  constructor
  · intro h
    by_cases hfound : t.app.found pending = []
    · exact Or.inr hfound
    · exact Or.inl (App.viewHolds_of_answers h hfound)
  · rintro (h | h)
    · exact App.answers_of_viewHolds hp hf (filed_of_run hrun) huntabbed h
    · exact ⟨fun hfound => absurd h hfound, fun _ => h⟩

/-- The form of the update over a machine of a plain table, another one listed meanwhile. -/
def tableForm : List Event :=
  [.background (.attach labSession), .browse (.openRoot actedVmKind)] ++ listed 1 1 [vm "0" "db"] ++
    [.start updateVm, .type 0 "web"] ++ listed 1 2 [vm "0" "db", vm "1" "cache"]

theorem form_answers_table : ∃ t ∈ Run.exec (System.step vmEnv) (init {}) tableForm,
    ∃ pending ∈ t.app.pending, ∃ form ∈ t.app.form, t.app.found pending ≠ [] ∧
      t.app.Answers vmEnv pending form := by
  have hrun : ∃ t ∈ Run.exec (System.step vmEnv) (init {}) tableForm,
      (∀ live ∈ t.app.live, live.store.Untabbed) ∧ ∃ pending ∈ t.app.pending, ∃ form ∈ t.app.form,
        (t.app.found pending).length = 1 ∧ t.app.viewHolds pending = true := by decide +kernel
  obtain ⟨t, ht, huntabbed, pending, hp, form, hf, hfound, hholds⟩ := hrun
  refine ⟨t, ht, pending, hp, form, hf, List.ne_nil_of_length_pos (hfound ▸ Nat.one_pos), ?_⟩
  exact (form_answers_iff ht huntabbed hp hf).2 (Or.inl hholds)

/-- The same form over a machine of a page. -/
def pageForm : List Event :=
  [.background (.attach labSession), .browse (.openPage [{ kind := actedVmKind }])] ++
    listed 1 1 [vm "0" "db"] ++ [.start updateVm, .type 0 "web"]

theorem not_form_answers : ¬ ∀ (env : Env) (g : Guardrails) (es : List Event) (t : System)
    (pending : Pending) (form : Form), Run.exec (System.step env) (init g) es = some t →
    (∀ live ∈ t.app.live, live.store.Untabbed) → t.app.pending = some pending →
    t.app.form = some form → t.app.Answers env pending form := by
  intro h
  have hrun : ∃ t ∈ Run.exec (System.step vmEnv) (init {}) pageForm,
      (∀ live ∈ t.app.live, live.store.Untabbed) ∧ ∃ pending ∈ t.app.pending, ∃ form ∈ t.app.form,
        (t.app.found pending).length = 1 ∧ t.app.formSays vmEnv pending form = some .gone := by
    decide +kernel
  obtain ⟨t, ht, huntabbed, pending, hp, form, hf, hfound, hgone⟩ := hrun
  have hnil := (h vmEnv {} pageForm t pending form ht huntabbed hp hf).gone hgone
  rw [hnil] at hfound
  cases hfound

end System

end Nutsh
