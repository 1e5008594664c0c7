/-
The rows in view, as CSV or JSON.

A sheet is the headings and the cells of a table as they are drawn.  In CSV a comma, a quote or a line break in a
cell puts it in quotes, a quote in it is doubled, and a record ends in `\r\n`.  In JSON a row is an object keyed
by heading, so the cells under one heading twice are one member, the last.

* `Sheet.csv`, `Sheet.json` — a sheet as it is written;
* `Sheet.file_rows` — what is written is a file of the rows;
* `Sheet.read_csv` — and of nothing else, so that it is read as they are;
* `Sheet.holdsCells_iff` — the objects hold every cell when the headings are told apart.
-/
import Nutsh.Lib.Csv
import Nutsh.Lib.IndexMap
import Nutsh.Lib.JsonText
import Nutsh.Lib.Text

set_option relaxedAutoImplicit false
set_option autoImplicit false

namespace Nutsh

/-- A table as text: the headings, and one row of cells per entity, in drawn order. -/
structure Sheet where
  headers : List String
  rows : List (List String)

/-- A cell as it is written. -/
def csvCell (cell : String) : String :=
  if cell.toList.any fun c => [',', '"', '\n', '\r'].contains c then
    String.ofList ('"' :: ((cell.toList.flatMap fun ch => if ch = '"' then ['"', ch] else [ch]) ++ ['"']))
  else cell

namespace Sheet

def csv (sheet : Sheet) : String :=
  String.join ((sheet.headers :: sheet.rows).map fun row => ",".intercalate (row.map csvCell) ++ "\r\n")

/-- One object per row, keyed by heading. -/
def objects (sheet : Sheet) : List (IndexMap String String) :=
  sheet.rows.map fun row => IndexMap.ofList (sheet.headers.zip row)

/-- Items between brackets, each on a line of its own and indented, the closing bracket below the opening one. -/
def bracketed (opening closing : Char) (indent : List Char) (items : List (List Char)) : List Char :=
  if items.isEmpty then [opening, closing]
  else
    opening :: '\n' :: ([',', '\n'].intercalate (items.map fun item => ' ' :: ' ' :: (indent ++ item)) ++
      '\n' :: (indent ++ [closing]))

/-- The objects with a member on each line, and a line break at the end. -/
def json (sheet : Sheet) : String :=
  String.ofList (bracketed '[' ']' [] (sheet.objects.map fun object =>
    bracketed '\x7b' '\x7d' [' ', ' '] (object.entries.map fun (heading, cell) =>
      Json.quoted heading ++ ':' :: ' ' :: Json.quoted cell)) ++ ['\n'])

/-- An object holds the cells of a row, each under its own heading. -/
def HoldsRow (headers row : List String) (object : IndexMap String String) : Prop :=
  ∀ (i : ℕ) (heading cell : String), headers[i]? = some heading → row[i]? = some cell →
    object.get? heading = some cell

/-- The objects hold every cell of every row. -/
def HoldsCells (sheet : Sheet) : Prop := List.Forall₂ (HoldsRow sheet.headers) sheet.rows sheet.objects

/-! ### What is written -/

theorem escaped_cell (cell : List Char) :
    Csv.Escaped (cell.flatMap fun ch => if ch = '"' then ['"', ch] else [ch]) cell := by
  induction cell with
  | nil => exact .nil
  | cons c cell ih =>
      rw [List.flatMap_cons]
      split
      · rename_i hc
        rw [hc]
        exact .quote ih
      · rename_i hc
        exact .char hc ih

theorem field_csvCell (cell : String) : Csv.Field (csvCell cell).toList cell.toList := by
  rw [csvCell]
  split
  · rw [String.toList_ofList]
    exact .quoted (escaped_cell cell.toList)
  · rename_i hnone
    refine .plain fun c hc => ?_
    have hspecial : [',', '"', '\n', '\r'].contains c = false := by
      rw [Bool.not_eq_true, List.any_eq_false] at hnone
      simpa using hnone c hc
    simpa [Csv.isText, and_assoc, and_comm, and_left_comm] using hspecial

theorem record_row {row : List String} (hne : row ≠ []) :
    Csv.Record (",".intercalate (row.map csvCell)).toList (row.map String.toList) := by
  induction row with
  | nil => exact absurd rfl hne
  | cons cell row ih =>
      cases row with
      | nil => simpa using Csv.Record.one (field_csvCell cell)
      | cons next row =>
          have hrecord := Csv.Record.cons (field_csvCell cell) (ih (List.cons_ne_nil next row))
          rw [List.map_cons, List.map_cons, String.intercalate_cons_cons]
          rw [List.map_cons] at hrecord
          simpa using hrecord

theorem file_rows {rows : List (List String)} (h : ∀ row ∈ rows, row ≠ []) :
    Csv.File (String.join (rows.map fun row => ",".intercalate (row.map csvCell) ++ "\r\n")).toList
      (rows.map fun row => row.map String.toList) := by
  induction rows with
  | nil => exact .nil
  | cons row rows ih =>
      have hrecord := record_row (h row List.mem_cons_self)
      have hfile := Csv.File.cons hrecord (ih fun r hr => h r (List.mem_cons_of_mem _ hr))
      rw [List.map_cons, List.map_cons]
      simpa using hfile

/-- **What is written is a file** of the headings and the rows, and of nothing else; it is read as they are. -/
theorem read_csv (sheet : Sheet) (hcolumns : sheet.headers ≠ [])
    (hwidth : ∀ row ∈ sheet.rows, row.length = sheet.headers.length) :
    Csv.read sheet.csv = some (sheet.headers :: sheet.rows) ∧
      ∀ records, Csv.File sheet.csv.toList records ↔
        records = (sheet.headers :: sheet.rows).map fun row => row.map String.toList := by
  have hne : ∀ row ∈ sheet.headers :: sheet.rows, row ≠ [] := by
    refine List.forall_mem_cons.2 ⟨hcolumns, fun row hrow hnil => hcolumns (List.length_eq_zero_iff.1 ?_)⟩
    rw [← hwidth row hrow, hnil, List.length_nil]
  have hfile := file_rows hne
  refine ⟨?_, fun records => ⟨fun h => h.unique hfile, fun h => h ▸ hfile⟩⟩
  have hread := Csv.readFrom_file hfile
  rw [Csv.read, csv, hread]
  simp [Function.comp_def]

theorem read_csv_quoted :
    Csv.read (Sheet.csv { headers := ["NAME", "NOTE"], rows := [["db, primary", "two\nlines"], ["", "\"no\""]] }) =
      some [["NAME", "NOTE"], ["db, primary", "two\nlines"], ["", "\"no\""]] :=
  (read_csv _ (by simp) (by simp)).1

/-! ### Objects of cells -/

theorem holdsRow_zip {headers row : List String} (hnodup : headers.Nodup) (hlength : row.length = headers.length) :
    HoldsRow headers row (IndexMap.ofList (headers.zip row)) := by
  intro i heading cell hheading hcell
  have hmem : (heading, cell) ∈ (headers.zip row).reverse :=
    List.mem_reverse.2 (List.mem_of_getElem? (List.getElem?_zip_eq_some.2 ⟨hheading, hcell⟩))
  have hkeys : ((headers.zip row).reverse.map Prod.fst).Nodup := by
    rwa [List.map_reverse, List.nodup_reverse, List.map_fst_zip (Nat.le_of_eq hlength.symm)]
  rw [IndexMap.get?_ofList]
  exact IndexMap.lookup_eq_some_of_mem hkeys hmem

theorem holdsCells_iff_forall (sheet : Sheet) :
    sheet.HoldsCells ↔ ∀ row ∈ sheet.rows, HoldsRow sheet.headers row (IndexMap.ofList (sheet.headers.zip row)) := by
  rw [HoldsCells, objects, List.forall₂_map_right_iff, List.forall₂_same]

/-- **The objects hold every cell**, whatever the cells are, if and only if no two headings are the same. -/
theorem holdsCells_iff (headers : List String) :
    (∀ rows : List (List String), (∀ row ∈ rows, row.length = headers.length) → HoldsCells { headers, rows }) ↔
      headers.Nodup := by
  constructor
  · intro h
    -- cells of different lengths under two headings that are the same
    have hat (k : ℕ) (hk : k < headers.length) :
        ((List.range headers.length).map fun i => String.ofList (List.replicate i 'x'))[k]? =
          some (String.ofList (List.replicate k 'x')) := by
      simp [hk]
    have hrow := (holdsCells_iff_forall _).1
      (h [(List.range headers.length).map fun i => String.ofList (List.replicate i 'x')] (by simp)) _
      (List.mem_singleton_self _)
    rw [List.nodup_iff_getElem?_ne_getElem?]
    intro i j hij hj heq
    have hi := hrow i _ _ (heq.trans (List.getElem?_eq_getElem hj)) (hat i (Nat.lt_trans hij hj))
    have hsame := hi.symm.trans (hrow j _ _ (List.getElem?_eq_getElem hj) (hat j hj))
    have hlength := congrArg (fun cell => cell.toList.length) (Option.some.inj hsame)
    simp only [String.toList_ofList, List.length_replicate] at hlength
    exact Nat.ne_of_lt hij hlength
  · exact fun hnodup rows hrows => (holdsCells_iff_forall _).2 fun row hrow => holdsRow_zip hnodup (hrows row hrow)

end Sheet

end Nutsh
