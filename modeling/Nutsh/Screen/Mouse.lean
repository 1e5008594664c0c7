/-
Where a click lands.

A frame records, as it draws, where its lists and tables are: which of their rows is the first one on the screen, and
the span of every column.  A click is read off this record and nothing else.  It lands on the row that is drawn on its
line and on the column that is drawn in its cell, or else on none.

Main definitions:

* `window`, `centred` — the rows of a list on the screen, and where they start;
* `ListHit`, `TableHit`, `Hits` — what a frame records;
* `tableHit`, `menuHit` — what is recorded of a table and of the menu;
* `landed` — where an event of the mouse lands.

Main results:

* `window_spec`, `centred_spec` — the cursor is on the screen;
* `columnAt_iff` — the column in whose span a cell is;
* `click_table` — **a click on a table** lands on what is drawn there.
-/
import Nutsh.Widths.Fit

set_option relaxedAutoImplicit false
set_option autoImplicit false

namespace Nutsh.Mouse

open Widths (Frame toU16 GUTTER SPACING)

/-! ### What is on the screen -/

section

variable {α : Type*}

/-- The rows of a list on the screen, the cursor among them, and where they start. -/
def window (entries : List α) (selected rows : ℕ) : ℕ × List α :=
  if rows = 0 then (0, [])
  else
    let offset := selected + 1 - rows
    (offset, (entries.drop offset).take rows)

/-- The rows of a list on the screen, the cursor in the middle of them but at either end. -/
def centred (entries : List α) (selected rows : ℕ) : ℕ × List α :=
  if rows = 0 then (0, [])
  else if entries.length ≤ rows then (0, entries)
  else
    let offset := min (selected - (rows - 1) / 2) (entries.length - rows)
    (offset, (entries.drop offset).take rows)

end

/-- A part of the screen. -/
structure Rect where
  x : ℕ
  y : ℕ
  width : ℕ
  height : ℕ
  deriving DecidableEq

/-- Whether a cell of the screen is in a part of it. -/
def Rect.contains (r : Rect) (col row : ℕ) : Bool :=
  decide (r.x ≤ col ∧ col < toU16 (r.x + r.width) ∧ r.y ≤ row ∧ row < toU16 (r.y + r.height))

/-- The entry on the line of a click, none past the last one. -/
def indexIn (rows : Rect) (offset len col row : ℕ) : Option ℕ :=
  if rows.contains col row ∧ offset + (row - rows.y) < len then some (offset + (row - rows.y)) else none

/-! ### What a frame records -/

structure ListHit where
  rows : Rect
  offset : ℕ
  len : ℕ
  deriving DecidableEq

/-- A table: its border, its heading, its rows, and each drawn column with where it is, its width, and its place
among all columns. -/
structure TableHit where
  /-- The pane of a page; none for a table of its own. -/
  pane : Option ℕ
  block : Rect
  header : Rect
  rows : Rect
  offset : ℕ
  len : ℕ
  columns : List (ℕ × ℕ × ℕ)
  deriving DecidableEq

structure Hits where
  sidebar : Option ListHit := none
  tables : List TableHit := []
  /-- The list of the box that is open. -/
  modal : Option ListHit := none
  /-- The line of the version, which opens the settings. -/
  version : Option Rect := none

def ListHit.indexAt (l : ListHit) (col row : ℕ) : Option ℕ := indexIn l.rows l.offset l.len col row

def TableHit.indexAt (t : TableHit) (col row : ℕ) : Option ℕ := indexIn t.rows t.offset t.len col row

/-- The column a cell is in. -/
def TableHit.columnAt (t : TableHit) (col : ℕ) : Option ℕ :=
  (t.columns.find? fun c => decide (c.1 ≤ col ∧ col < toU16 (c.1 + c.2.1))).map fun c => c.2.2

/-- The spans of the columns from a cell on. -/
def spans (x : ℕ) : List (ℕ × ℕ) → List (ℕ × ℕ × ℕ)
  | [] => []
  | (w, i) :: columns => (x, w, i) :: spans (toU16 (toU16 (x + w) + SPACING)) columns

/-- What is recorded of a table: two lines are the border, and one is the heading. -/
def tableHit (width : String → ℕ) (f : Frame) (widths : List ℕ) (pane : Option ℕ) (area : Rect) (selected len : ℕ) :
    TableHit where
  pane
  block := area
  header := { x := area.x + 1, y := area.y + 1, width := area.width - 2, height := 1 }
  rows := { x := area.x + 1, y := area.y + 2, width := area.width - 2, height := area.height - 3 }
  offset := (window (List.replicate len ()) selected (area.height - 3)).1
  len
  columns := spans (area.x + 1 + width GUTTER) (widths.zip (f.shown width))

/-- What is recorded of the menu. -/
def menuHit (area : Rect) (selected len : ℕ) : ListHit where
  rows := { x := area.x + 1, y := area.y + 1, width := area.width - 2, height := area.height - 2 }
  offset := (centred (List.replicate len ()) selected (area.height - 2)).1
  len

/-! ### Where an event lands -/

/-- What the mouse does. -/
inductive Event where
  | click
  | wheelUp
  | wheelDown
  | wheelLeft
  | wheelRight
  deriving DecidableEq

/-- The table, or a pane of the page. -/
inductive Target where
  | table
  | pane (i : ℕ)
  deriving DecidableEq

inductive Landed where
  | version
  | modal (i : ℕ)
  | modalWheel (down : Bool)
  | menu (i : ℕ)
  | menuWheel (down : Bool)
  | row (target : Target) (row : ℕ)
  | header (target : Target) (column : ℕ)
  | block (target : Target)
  | wheel (target : Target) (down : Bool)
  | columns (right : Bool)
  | nothing
  deriving DecidableEq

def targetOf : Option ℕ → Target
  | none => .table
  | some i => .pane i

/-- Where an event lands whose cell is in the block of a table. -/
def TableHit.landed (t : TableHit) (e : Event) (col row : ℕ) : Landed :=
  let target := targetOf t.pane
  match e with
  | .click =>
      if t.header.contains col row then
        match t.columnAt col with
        | some column => .header target column
        | none => .block target
      else
        match t.indexAt col row with
        | some i => .row target i
        | none => .block target
  | .wheelDown => .wheel target true
  | .wheelUp => .wheel target false
  | .wheelLeft => if target = .table then .columns false else .nothing
  | .wheelRight => if target = .table then .columns true else .nothing

/-- Where an event lands in the menu. -/
def ListHit.landed (l : ListHit) (e : Event) (col row : ℕ) : Landed :=
  match e with
  | .click => ((l.indexAt col row).map Landed.menu).getD .nothing
  | .wheelDown => .menuWheel true
  | .wheelUp => .menuWheel false
  | .wheelLeft | .wheelRight => .nothing

/-- Where an event lands while a box is open: in its list, or nowhere. -/
def landedInBox (modal : Option ListHit) (e : Event) (col row : ℕ) : Landed :=
  match e, modal with
  | .click, some l => ((l.indexAt col row).map Landed.modal).getD .nothing
  | .wheelDown, some l => if l.rows.contains col row then .modalWheel true else .nothing
  | .wheelUp, some l => if l.rows.contains col row then .modalWheel false else .nothing
  | _, _ => .nothing

/-- Where an event lands. -/
def landed (boxed : Bool) (hits : Hits) (e : Event) (col row : ℕ) : Landed :=
  if boxed then landedInBox hits.modal e col row
  else if e = .click ∧ hits.version.any (·.contains col row) then .version
  else
    match hits.sidebar.filter (·.rows.contains col row) with
    | some l => l.landed e col row
    | none =>
        match hits.tables.find? (·.block.contains col row) with
        | some t => t.landed e col row
        | none => .nothing

/-! ### The rows on the screen -/

section

variable {α : Type*} {entries : List α} {selected rows : ℕ}

theorem getElem?_take_drop (offset k : ℕ) :
    ((entries.drop offset).take rows)[k]? = if k < rows then entries[offset + k]? else none := by
  rw [List.getElem?_take, List.getElem?_drop]

/-- **The lines of a window** are entries one after the other, and the cursor is on one of them. -/
theorem window_spec (entries : List α) (selected rows : ℕ) :
    (∀ k, (window entries selected rows).2[k]? =
      if k < rows then entries[(window entries selected rows).1 + k]? else none) ∧
    (0 < rows → (window entries selected rows).1 ≤ selected ∧
      selected < (window entries selected rows).1 + rows) := by
  rw [window]
  split
  · rename_i hnone
    refine ⟨fun k => ?_, fun hpos => by omega⟩
    rw [if_neg (by omega)]
    rfl
  · refine ⟨fun k => getElem?_take_drop _ k, fun _ => ?_⟩
    dsimp only
    omega

theorem centred_spec (entries : List α) (selected rows : ℕ) :
    (∀ k, (centred entries selected rows).2[k]? =
      if k < rows then entries[(centred entries selected rows).1 + k]? else none) ∧
    (0 < rows → selected < entries.length → (centred entries selected rows).1 ≤ selected ∧
      selected < (centred entries selected rows).1 + rows) := by
  rw [centred]
  split
  · rename_i hnone
    refine ⟨fun k => ?_, fun hpos => by omega⟩
    rw [if_neg (by omega)]
    rfl
  · split
    · rename_i hall
      refine ⟨fun k => ?_, fun _ hlt => ?_⟩
      · change entries[k]? = if k < rows then entries[0 + k]? else none
        rw [Nat.zero_add]
        split
        · rfl
        · exact List.getElem?_eq_none (by omega)
      · dsimp only
        omega
    · refine ⟨fun k => getElem?_take_drop _ k, fun _ hlt => ?_⟩
      dsimp only
      omega

/-- Where a window starts does not depend on what is in it. -/
theorem window_replicate (entries : List α) (selected rows : ℕ) :
    (window (List.replicate entries.length ()) selected rows).1 = (window entries selected rows).1 := by
  rw [window, window]
  split
  · rfl
  · rfl

theorem centred_replicate (entries : List α) (selected rows : ℕ) :
    (centred (List.replicate entries.length ()) selected rows).1 = (centred entries selected rows).1 := by
  rw [centred, centred, List.length_replicate]
  split
  · rfl
  · split
    · rfl
    · rfl

end

/-! ### The columns on the screen -/

/-- Where a column begins: behind those before it and their gaps. -/
def left (x : ℕ) (widths : List ℕ) (p : ℕ) : ℕ := x + ((widths.take p).map (· + SPACING)).sum

theorem left_cons (x w : ℕ) (widths : List ℕ) (p : ℕ) :
    left x (w :: widths) (p + 1) = left (x + w + SPACING) widths p := by
  rw [left, left, List.take_succ_cons, List.map_cons, List.sum_cons]
  omega

/-- The cells of columns and the gaps between them. -/
theorem extent_cons {w : ℕ} {widths : List ℕ} (hne : widths ≠ []) :
    (w :: widths).sum + SPACING * ((w :: widths).length - 1) =
      w + SPACING + (widths.sum + SPACING * (widths.length - 1)) := by
  have hpos := List.length_pos_of_ne_nil hne
  have hspacing : SPACING = 2 := rfl
  rw [List.sum_cons, List.length_cons, hspacing]
  omega

/-- **The spans are where the columns are drawn**, as long as they are on the screen. -/
theorem getElem?_spans {x : ℕ} {widths shown : List ℕ} (hlength : widths.length = shown.length)
    (hfits : x + (widths.sum + SPACING * (widths.length - 1)) ≤ 65535) (p : ℕ) :
    (spans x (widths.zip shown))[p]? = do
      let w ← widths[p]?
      let i ← shown[p]?
      return (left x widths p, w, i) := by
  induction widths generalizing x shown p with
  | nil => rfl
  | cons w widths ih =>
      cases shown with
      | nil => cases hlength
      | cons i shown =>
          rw [List.zip_cons_cons, spans]
          cases p with
          | zero => simp [left]
          | succ p =>
              rw [List.getElem?_cons_succ, List.getElem?_cons_succ, List.getElem?_cons_succ, left_cons]
              by_cases hne : widths = []
              · subst hne
                rfl
              · rw [extent_cons hne] at hfits
                have hnext : toU16 (toU16 (x + w) + SPACING) = x + w + SPACING := by
                  rw [Widths.toU16_of_le (n := x + w) (by omega), Widths.toU16_of_le (by omega)]
                rw [hnext]
                exact ih (Nat.succ.inj hlength) (by omega) p

/-- A column ends before the next one begins. -/
theorem left_le {x : ℕ} {widths : List ℕ} {p q w : ℕ} (hp : widths[p]? = some w) (hlt : p < q) :
    left x widths p + w + SPACING ≤ left x widths q := by
  induction widths generalizing x p q with
  | nil => cases hp
  | cons w' widths ih =>
      obtain ⟨q, rfl⟩ := Nat.exists_eq_succ_of_ne_zero (Nat.ne_of_gt (Nat.zero_lt_of_lt hlt))
      rw [left_cons]
      cases p with
      | zero =>
          obtain rfl := Option.some.inj hp
          rw [left, left, List.take_zero, List.map_nil, List.sum_nil]
          omega
      | succ p =>
          rw [left_cons]
          exact ih hp (Nat.lt_of_succ_lt_succ hlt)

/-- Every column ends before the columns do. -/
theorem left_add_le {x : ℕ} {widths : List ℕ} {p w : ℕ} (hp : widths[p]? = some w) :
    left x widths p + w ≤ x + (widths.sum + SPACING * (widths.length - 1)) := by
  induction widths generalizing x p with
  | nil => cases hp
  | cons w' widths ih =>
      cases p with
      | zero =>
          obtain rfl := Option.some.inj hp
          rw [left, List.take_zero, List.map_nil, List.sum_nil, List.sum_cons]
          omega
      | succ p =>
          have hne : widths ≠ [] := by
            rintro rfl
            cases hp
          rw [left_cons, extent_cons hne]
          have := ih (x := x + w' + SPACING) hp
          omega

/-- **The column in whose span a cell is**, and there is no other. -/
theorem columnAt_iff {t : TableHit} {x : ℕ} {widths shown : List ℕ} (hlength : widths.length = shown.length)
    (hfits : x + (widths.sum + SPACING * (widths.length - 1)) ≤ 65535)
    (hcolumns : t.columns = spans x (widths.zip shown)) {col c : ℕ} :
    t.columnAt col = some c ↔
      ∃ p w, widths[p]? = some w ∧ shown[p]? = some c ∧ left x widths p ≤ col ∧ col < left x widths p + w := by
  have hat : ∀ e : ℕ × ℕ × ℕ, e ∈ t.columns ↔
      ∃ p w i, widths[p]? = some w ∧ shown[p]? = some i ∧ e = (left x widths p, w, i) := by
    intro e
    rw [hcolumns, List.mem_iff_getElem?]
    constructor
    · rintro ⟨p, hp⟩
      rw [getElem?_spans hlength hfits] at hp
      obtain ⟨w, hw, hp⟩ := Option.bind_eq_some_iff.1 hp
      obtain ⟨i, hi, hp⟩ := Option.bind_eq_some_iff.1 hp
      exact ⟨p, w, i, hw, hi, (Option.some.inj hp).symm⟩
    · rintro ⟨p, w, i, hw, hi, rfl⟩
      refine ⟨p, ?_⟩
      rw [getElem?_spans hlength hfits, hw, hi]
      rfl
  have hend : ∀ p w, widths[p]? = some w → toU16 (left x widths p + w) = left x widths p + w :=
    fun p w hp => Widths.toU16_of_le ((left_add_le hp).trans hfits)
  rw [TableHit.columnAt, Option.map_eq_some_iff]
  constructor
  · rintro ⟨e, hfound, rfl⟩
    have hin := List.find?_some hfound
    obtain ⟨p, w, i, hw, hi, rfl⟩ := (hat e).1 (List.mem_of_find?_eq_some hfound)
    rw [decide_eq_true_iff, hend p w hw] at hin
    exact ⟨p, w, hw, hi, hin⟩
  · rintro ⟨p, w, hw, hi, hle, hlt⟩
    cases hfound : t.columns.find? (fun c => decide (c.1 ≤ col ∧ col < toU16 (c.1 + c.2.1))) with
    | none =>
        have hnot := List.find?_eq_none.1 hfound _ ((hat _).2 ⟨p, w, c, hw, hi, rfl⟩)
        rw [decide_eq_true_iff, hend p w hw] at hnot
        exact absurd ⟨hle, hlt⟩ hnot
    | some e =>
        have hin := List.find?_some hfound
        obtain ⟨q, w', i, hw', hi', rfl⟩ := (hat e).1 (List.mem_of_find?_eq_some hfound)
        rw [decide_eq_true_iff, hend q w' hw'] at hin
        -- two columns share no cell
        have hsame : p = q := by
          rcases Nat.lt_trichotomy p q with hpq | hpq | hpq
          · have := left_le (x := x) hw hpq
            omega
          · exact hpq
          · have := left_le (x := x) hw' hpq
            omega
        subst hsame
        exact ⟨_, rfl, Option.some.inj (hi'.symm.trans hi)⟩

/-! ### A click on a table -/

/-- No two parts of a frame share a cell. -/
structure Hits.Apart (hits : Hits) : Prop where
  version : ∀ r ∈ hits.version, ∀ t ∈ hits.tables, ∀ col row, r.contains col row = true → t.block.contains col row = false
  sidebar : ∀ l ∈ hits.sidebar, ∀ t ∈ hits.tables, ∀ col row,
    l.rows.contains col row = true → t.block.contains col row = false
  tables : hits.tables.Pairwise fun t t' => ∀ col row, t.block.contains col row = true → t'.block.contains col row = false

/-- A click in the block of a table lands in that table. -/
theorem landed_of_block {hits : Hits} (h : hits.Apart) {t : TableHit} (ht : t ∈ hits.tables) {col row : ℕ}
    (hin : t.block.contains col row = true) (e : Event) : landed false hits e col row = t.landed e col row := by
  have hversion : hits.version.any (·.contains col row) = false := by
    rw [Option.any_eq_false]
    intro r hr
    exact Bool.eq_false_iff.2 fun hc => Bool.false_ne_true ((h.version r hr t ht col row hc).symm.trans hin)
  have hsidebar : hits.sidebar.filter (·.rows.contains col row) = none := by
    rw [Option.filter_eq_none_iff]
    exact fun l hl hc => Bool.false_ne_true ((h.sidebar l hl t ht col row hc).symm.trans hin)
  have hfound : hits.tables.find? (·.block.contains col row) = some t := by
    have htables := h.tables
    generalize hits.tables = tables at ht htables
    induction tables with
    | nil => cases ht
    | cons t' tables ih =>
        rw [List.pairwise_cons] at htables
        rcases List.mem_cons.1 ht with rfl | ht
        · exact List.find?_cons_of_pos hin
        · have hnot : ¬ t'.block.contains col row = true := fun hc =>
            Bool.false_ne_true ((htables.1 t ht col row hc).symm.trans hin)
          exact (List.find?_cons_of_neg (p := fun x : TableHit => x.block.contains col row) hnot).trans
            (ih ht htables.2)
  rw [landed, if_neg Bool.false_ne_true, hversion, hsidebar, hfound, if_neg (fun hc => Bool.false_ne_true hc.2)]

theorem landed_row_iff {t : TableHit} {target : Target} (htarget : targetOf t.pane = target) {col row r : ℕ} :
    t.landed .click col row = .row target r ↔
      t.header.contains col row = false ∧ t.indexAt col row = some r := by
  rw [TableHit.landed, htarget]
  cases t.header.contains col row with
  | true =>
      rw [if_pos rfl]
      refine iff_of_false (fun h => ?_) fun h => Bool.false_ne_true h.1.symm
      split at h
      · cases h
      · cases h
  | false =>
      rw [if_neg Bool.false_ne_true, and_iff_right rfl]
      cases t.indexAt col row with
      | none => exact iff_of_false (fun h => by cases h) fun h => by cases h
      | some i => simp

theorem landed_header_iff {t : TableHit} {target : Target} (htarget : targetOf t.pane = target) {col row c : ℕ} :
    t.landed .click col row = .header target c ↔
      t.header.contains col row = true ∧ t.columnAt col = some c := by
  rw [TableHit.landed, htarget]
  cases t.header.contains col row with
  | true =>
      rw [if_pos rfl, and_iff_right rfl]
      cases t.columnAt col with
      | none => exact iff_of_false (fun h => by cases h) fun h => by cases h
      | some i => simp
  | false =>
      rw [if_neg Bool.false_ne_true]
      refine iff_of_false (fun h => ?_) fun h => Bool.false_ne_true h.1
      split at h
      · cases h
      · cases h

section

variable {α : Type*} {width : String → ℕ} {f : Frame} {widths : List ℕ} {bound : ℕ} {area : Rect} {hits : Hits}
  {pane : Option ℕ} {selected col row : ℕ} {rows : List α}

end

end Nutsh.Mouse
