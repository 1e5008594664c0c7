/-
Headings that are told apart.

A heading that is shortened is no other column's, but the words of two names may be the same, and a table of several
contexts has a column headed `CONTEXT` beside.

* `offers` — the headings of the columns and what they may be shortened to;
* `TellsCells` — headings told apart, and a JSON export that holds every cell;
* `tellsCells_iff` — when they are;
* `not_tellsCells` — names that differ in the case of their first letter.
-/
import Nutsh.Export
import Nutsh.Generator.Columns
import Nutsh.Lib.Renaming
import Nutsh.Live

set_option relaxedAutoImplicit false
set_option autoImplicit false

namespace Nutsh.Generator

open Renaming (rename Kept nameAt offerAt)

/-- The headings of the columns, each with what it may be shortened to. -/
def offers (cols : List ColumnModel) : List (String × Option String) :=
  cols.map fun c => (c.header, (shortHeader c).filter (· ≠ ""))

/-- The headings of the columns of a schema are told apart, and the JSON export of a table that is drawn with them
holds every cell of every row under its own heading. -/
def TellsCells (schemas : Json) (schema : String) : Prop :=
  ((fallbackColumns schemas schema).map ColumnModel.header).Nodup ∧
    ∀ (kind : Kind) (wide merged : Bool), kind.columns = [] →
      kind.fallbackColumns = (fallbackColumns schemas schema).map ColumnModel.column →
      ∀ rows : List (List String), (∀ row ∈ rows, row.length = (Live.columnsFor kind wide merged).length) →
        Sheet.HoldsCells { headers := (Live.columnsFor kind wide merged).map Column.header, rows }

/-- No two of the columns that are drawn have the same words for a heading and both keep them, and none is headed
as the column of the contexts is. -/
structure Told (cols : List ColumnModel) : Prop where
  words : ∀ i j heading, i < j → j < MAX_FALLBACK_COLUMNS → nameAt (offers cols) i = some heading →
    nameAt (offers cols) j = some heading → ¬ (Kept (offers cols) i ∧ Kept (offers cols) j)
  context : ¬ ((∃ i < MAX_FALLBACK_COLUMNS, nameAt (offers cols) i = some "CONTEXT") ∨
    ((∃ i < MAX_FALLBACK_COLUMNS, offerAt (offers cols) i = some "CONTEXT") ∧
      ∀ j, nameAt (offers cols) j ≠ some "CONTEXT"))

/-! ### The headings of the columns -/

theorem header_shortenHeaders (before : List String) (cols : List ColumnModel) :
    (shortenHeaders before cols).map ColumnModel.header = rename before (offers cols) := by
  induction cols generalizing before with
  | nil => rfl
  | cons c cols ih =>
      have hnames : (offers cols).map Prod.fst = cols.map ColumnModel.header := by
        rw [offers, List.map_map]
        rfl
      have hsettled : ((shortHeader c).filter fun h =>
          h ≠ "" && !(before ++ c.header :: cols.map ColumnModel.header).contains h).getD c.header =
          Renaming.settled before ((offers cols).map Prod.fst) (c.header, (shortHeader c).filter (· ≠ "")) := by
        rw [hnames, Renaming.settled]
        generalize before ++ c.header :: cols.map ColumnModel.header = taken
        cases shortHeader c with
        | none => rfl
        | some short => by_cases hempty : short = "" <;> by_cases htaken : short ∈ taken <;>
            simp [Option.filter, hempty, htaken]
      rw [shortenHeaders, offers, List.map_cons, List.map_cons, rename, ← offers, ih, hsettled]

theorem header_fallbackColumns (schemas : Json) (schema : String) :
    (fallbackColumns schemas schema).map ColumnModel.header =
      (rename [] (offers (derivedColumns schemas schema))).take MAX_FALLBACK_COLUMNS := by
  have hpromoted (cols : List ColumnModel) :
      (promoteStatus cols).map ColumnModel.header = cols.map ColumnModel.header :=
    Passes.map_modifyFirst fun _ => rfl
  rw [fallbackColumns, List.map_take, hpromoted, header_shortenHeaders]

/-- `CONTEXT` is not shortened. -/
theorem offerAt_context (cols : List ColumnModel) (i : ℕ) (h : nameAt (offers cols) i = some "CONTEXT") :
    offerAt (offers cols) i = none := by
  rw [nameAt, offers, List.getElem?_map, Option.map_map, Option.map_eq_some_iff] at h
  obtain ⟨c, hc, hheader⟩ := h
  have hshort : shortHeader c = none := by
    rw [shortHeader, show c.header = "CONTEXT" from hheader]
    cases c.kind <;> decide
  rw [offerAt, offers, List.getElem?_map, hc, Option.map_some, Option.bind_some, hshort]
  rfl

/-! ### The headings of a table -/

/-- What a table of the columns is headed with. -/
theorem headers_columnsFor {kind : Kind} {cols : List ColumnModel} (hcurated : kind.columns = [])
    (hfallback : kind.fallbackColumns = cols.map ColumnModel.column) (wide merged : Bool) :
    ((Live.columnsFor kind wide merged).map Column.header).Perm
      ((if merged then ["CONTEXT"] else []) ++ (cols.map ColumnModel.header).take (if wide then 20 else 6)) := by
  have hbase : ((cols.map ColumnModel.column).take (if wide then 20 else 6)).map Column.header =
      (cols.map ColumnModel.header).take (if wide then 20 else 6) := by
    rw [List.map_take, List.map_map]
    rfl
  rw [Live.columnsFor, hcurated, hfallback, ← hbase]
  cases merged with
  | false => exact .refl _
  | true => exact (List.perm_insertIdx _ _ (Nat.min_le_right _ _)).map Column.header

/-- **The headings are told apart, and the export holds every cell, if and only if** the words are told apart where
they are kept, and no column is headed as that of the contexts. -/
theorem tellsCells_iff (schemas : Json) (schema : String) :
    TellsCells schemas schema ↔ Told (derivedColumns schemas schema) := by
  have hnodup := @Renaming.nodup_rename_iff _ (offers (derivedColumns schemas schema)) _ MAX_FALLBACK_COLUMNS
  have hcontext := Renaming.mem_take_rename_iff MAX_FALLBACK_COLUMNS (offerAt_context (derivedColumns schemas schema))
  rw [← header_fallbackColumns] at hnodup hcontext
  have hlength : ((fallbackColumns schemas schema).map ColumnModel.header).length ≤ 20 := by
    rw [List.length_map, fallbackColumns]
    exact List.length_take_le _ _
  constructor
  · rintro ⟨hdistinct, hcells⟩
    -- the widest table of several contexts draws all of them
    let kind : Kind :=
      { id := "", fallbackColumns := (fallbackColumns schemas schema).map ColumnModel.column }
    have hall := (Sheet.holdsCells_iff ((Live.columnsFor kind true true).map Column.header)).1 fun rows hrows =>
      hcells kind true true rfl rfl rows fun row hrow => (hrows row hrow).trans (List.length_map _)
    rw [(headers_columnsFor rfl rfl true true).nodup_iff, if_pos rfl, if_pos rfl, List.take_of_length_le hlength,
      List.singleton_append, List.nodup_cons] at hall
    exact ⟨hnodup.1 hdistinct, hcontext.not.1 hall.1⟩
  · rintro ⟨hwords, hnone⟩
    have hdistinct := hnodup.2 hwords
    refine ⟨hdistinct, fun kind wide merged hcurated hfallback rows hrows => ?_⟩
    refine (Sheet.holdsCells_iff _).2 ?_ rows fun row hrow => (hrows row hrow).trans (List.length_map _).symm
    rw [(headers_columnsFor hcurated hfallback wide merged).nodup_iff]
    have hdrawn := (List.take_sublist (if wide then 20 else 6) _).nodup hdistinct
    cases merged with
    | false => exact hdrawn
    | true =>
        exact List.nodup_cons.2 ⟨fun hmem => hcontext.not.2 hnone (List.mem_of_mem_take hmem), hdrawn⟩

/-- Two names that differ in the case of their first letter have the same words. -/
theorem not_tellsCells : ¬ ∀ schemas schema, TellsCells schemas schema := by
  intro h
  have hsame := (h (.obj [("vm", .obj [("properties", .obj
    [("powerState", .obj [("type", .str "string")]), ("PowerState", .obj [("type", .str "string")])])])]) "vm").1
  exact absurd hsame (by decide +kernel)

end Nutsh.Generator
