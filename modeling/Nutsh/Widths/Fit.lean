/-
The columns of a table in a frame.

A frame shows the first column and those from an offset on, without the rightmost ones that it can do without
until the floors of the rest fit.  The budget is split across them, and then cells are moved to the columns below
their floor and taken from those above it, the one with the most to spare first.

* `visible`, `rule`, `floorCells`, `fit` — the columns shown, their rules and floors, and the cells moved;
* `Frame`, `Frame.widths` — a table in a frame, and the widths of the columns shown;
* `dropUntilFit_done` — columns are dropped until the floors fit or there is none to drop;
* `fit_spec` — the cells stop moving, and with as many of them as the floors take nobody is below one;
* `Frame.floors_kept_iff` — whenever the floors fit, so do the widths with their gaps, and every column has its
  floor if and only if one that is shown takes what is left or the contents fill the floors.
-/
import Nutsh.Catalog
import Nutsh.Lib.Loop
import Nutsh.Widths
import Mathlib.Algebra.Group.Action.Defs

set_option relaxedAutoImplicit false
set_option autoImplicit false

namespace Nutsh.Widths

/-- The column of a merged table: the context a row came from. -/
def CONTEXT_COLUMN : Column := { header := "CONTEXT", path := "$context", kind := .text }

/-- The selection bar of every row. -/
def GUTTER : String := "▌ "

def SPACING : ℕ := 2

def MARK_CELLS : ℕ := 2

def HEADER_PROTECT : ℕ := 12

def SORT_MARK_CELLS : ℕ := 2

section

-- the cells a text takes on the screen
variable (width : String → ℕ)

/-- What so many columns cost before any of them gets a cell. -/
def overhead (n : ℕ) : ℕ := toU16 (toU16 (width GUTTER) + toU16 (SPACING * (n - 1)))

def maxOffset (cols : List Column) : ℕ := cols.length - 2

/-- The cells a heading is guaranteed, with the sort mark behind it. -/
def headingCells (col : Column) (sorted : Bool) : ℕ :=
  toU16 (min (toU16 (width col.header)) HEADER_PROTECT + if sorted then SORT_MARK_CELLS else 0)

/-- The width below which a column is not a column. -/
def floorCells (col : Column) (first sorted : Bool) : ℕ :=
  if first then max (headingCells width col sorted) 8 else max (headingCells width col sorted) 4

/-- The rule of a kind of column. -/
def ruleOf : ColumnKind → ColWidth
  | .status => .cap 16
  | .timestamp => .cap 7
  | .ip => .cap 15
  | .percent => .cap 5
  | .micros => .cap 7
  | .bytes => .cap 10
  | .duration => .cap 6
  | .bool => .cap 6
  | .count => .cap 5
  | .enum => .cap 20
  | .reference => .cap 18
  | .text => .flex 1

/-- The rule of a column: the first one is what is read, unless it is an address. -/
def rule (col : Column) (first sorted : Bool) : ColWidth :=
  if first && col.kind != .ip then .flex 6
  else if col.path = CONTEXT_COLUMN.path then .cap (max 16 (UInt16.ofNat (headingCells width col sorted)))
  else
    match ruleOf col.kind with
    | .cap cap => .cap (max cap (UInt16.ofNat (headingCells width col sorted)))
    | other => other

/-- The rule of the first column when something in the window is marked. -/
def markedRule (rule : ColWidth) (marked : Bool) : ColWidth :=
  match rule with
  | .cap cap => if marked then .cap (UInt16.ofNat (toU16 (cap.toNat + MARK_CELLS))) else .cap cap
  | other => other

/-! ### The columns shown -/

def droppable (kind : ColumnKind) : Bool := !(kind == .status || kind == .timestamp)

/-- The floors of some of the columns, given by their places. -/
def floorsOf (cols : List Column) (sort : Option ℕ) (idx : List ℕ) : List ℕ :=
  idx.filterMap fun i => cols[i]?.map fun col => floorCells width col (i == 0) (some i == sort)

/-- Whether what the columns cost and their floors fit the width. -/
def floorsFit (cols : List Column) (idx : List ℕ) (sort : Option ℕ) (innerWidth : UInt16) : Bool :=
  let floors := (floorsOf width cols sort idx).foldl (fun total n => toU16 (total + n)) 0
  toU16 (overhead width (toU16 idx.length) + floors) ≤ innerWidth.toNat

/-- Where the rightmost column stands that can be done without. -/
def lastDroppable (cols : List Column) (idx : List ℕ) : Option ℕ :=
  (idx.reverse.findIdx? fun i => i != 0 &&
    cols[i]?.any fun col => droppable col.kind && col.path != CONTEXT_COLUMN.path).map (idx.length - 1 - ·)

/-- Drops columns until the floors fit; each turn drops one. -/
def dropUntilFit (cols : List Column) (sort : Option ℕ) (innerWidth : UInt16) : ℕ → List ℕ → List ℕ
  | 0, idx => idx
  | turns + 1, idx =>
      if 1 < idx.length && !floorsFit width cols idx sort innerWidth then
        match lastDroppable cols idx with
        | some pos => dropUntilFit cols sort innerWidth turns (idx.eraseIdx pos)
        | none => idx
      else idx

def visible (cols : List Column) (offset : ℕ) (sort : Option ℕ) (innerWidth : UInt16) : List ℕ :=
  if cols.isEmpty then []
  else
    let offset := min offset (maxOffset cols)
    let idx := 0 :: List.range' (1 + offset) (cols.length - (1 + offset))
    dropUntilFit width cols sort innerWidth idx.length idx

/-! ### Their widths -/

/-- The widest of the heading and the cells on the screen, per column. -/
def measure (cols : List Column) (sort : Option ℕ) (window : List (List String)) : List UInt16 :=
  cols.zipIdx.map fun (col, i) =>
    let widest := ((window.map fun cells => (cells[i]?.map width).getD 0).max?).getD 0
    let mark := if some i = sort then SORT_MARK_CELLS else 0
    UInt16.ofNat (toU16 (max (width col.header + mark) widest))

/-- The cells of a column above its floor. -/
def spare (widths floors : List ℕ) (i : ℕ) : ℕ := widths.getD i 0 - floors.getD i 0

/-- The one of two columns with more cells above its floor, the later one of equals. -/
def fatter (widths floors : List ℕ) : Option ℕ → ℕ → Option ℕ
  | some best, i => if spare widths floors best ≤ spare widths floors i then some i else some best
  | none, i => some i

/-- The column with the most cells above its floor, if any has one. -/
def fattest (widths floors : List ℕ) : Option ℕ :=
  ((List.range widths.length).filter fun i => floors.getD i 0 < widths.getD i 0).foldl (fatter widths floors) none

/-- The first column below its floor. -/
def shortest (widths floors : List ℕ) : Option ℕ :=
  (List.range widths.length).find? fun i => widths.getD i 0 < floors.getD i 0

/-- A turn of the first loop: a column below its floor gets cells from the one with the most to spare. -/
def liftTurn (floors widths : List ℕ) : Option (List ℕ) := do
  let short ← shortest widths floors
  let fat ← fattest widths floors
  let take := min (floors.getD short 0 - widths.getD short 0) (spare widths floors fat)
  let widths := widths.modify short (· + take)
  return widths.modify fat (· - take)

/-- A turn of the second loop: the column with the most to spare pays what is over the budget. -/
def payTurn (floors : List ℕ) (budget : ℕ) (widths : List ℕ) : Option (List ℕ) :=
  let excess := toU16 (widths.sum - budget)
  if excess = 0 then none
  else do
    let fat ← fattest widths floors
    let take := min excess (spare widths floors fat)
    return widths.modify fat (· - take)

/-- The widths moved to the floors and the budget; it is over when a column is below its floor and none has a
cell to spare. -/
def fit (turns : ℕ) (widths floors : List ℕ) (budget : ℕ) : Option (List ℕ) := do
  let widths ← Loop.run (liftTurn floors) turns widths
  if (shortest widths floors).isSome then return widths
  Loop.run (payTurn floors budget) turns widths

/-- The columns of some places. -/
def columnsAt (all : List Column) (shown : List ℕ) : List Column := shown.filterMap (all[·]?)

/-- The rules of the columns shown, with the cells of their contents. -/
def shownRules (cols : List Column) (sorted : Option ℕ) (marked : Bool) (needed : List UInt16) :
    List (ColWidth × UInt16) :=
  (cols.zipIdx.zip needed).map fun ((col, i), needed) =>
    (markedRule (rule width col (i == 0) (some i == sorted)) (marked && i == 0), needed)

def shownFloors (cols : List Column) (sorted : Option ℕ) : List ℕ :=
  cols.zipIdx.map fun (col, i) => floorCells width col (i == 0) (some i == sorted)

/-- A table in a frame: all of its columns, the first of them that is shown next to the anchor, the sort column,
the rows on the screen with a cell for each column of the table, and whether one of them is marked. -/
structure Frame where
  all : List Column
  colOffset : ℕ
  sort : Option ℕ
  window : List (List String)
  marked : Bool
  areaWidth : UInt16

variable (f : Frame)

/-- The width inside the border. -/
def Frame.inner : UInt16 := UInt16.ofNat (f.areaWidth.toNat - 2)

def Frame.shown : List ℕ := visible width f.all (min f.colOffset (maxOffset f.all)) f.sort f.inner

def Frame.rules : List (ColWidth × UInt16) :=
  let shown := f.shown width
  let cols := columnsAt f.all shown
  let sorted := shown.findIdx? (some · == f.sort)
  let cells := f.window.map fun row => shown.map fun i => row.getD i ""
  shownRules width cols sorted f.marked (measure width cols sorted cells)

/-- The widths of the columns shown; `none` while the loops still run. -/
def Frame.widths (turns : ℕ) : Option (List ℕ) := do
  let shown := f.shown width
  let cols := columnsAt f.all shown
  let sorted := shown.findIdx? (some · == f.sort)
  let budget := f.inner.toNat - overhead width (toU16 cols.length)
  let widths ← distributeColumnWidths (UInt16.ofNat budget) (f.rules width)
  fit turns widths (shownFloors width cols sorted) budget

end

/-! ### The loops -/

variable {widths floors : List ℕ} {budget : ℕ}

theorem foldl_fatter (widths floors : List ℕ) (best : ℕ) (idx : List ℕ) :
    ∃ i ∈ best :: idx, idx.foldl (fatter widths floors) (some best) = some i := by
  induction idx generalizing best with
  | nil => exact ⟨best, List.mem_cons_self, rfl⟩
  | cons j idx ih =>
      rw [List.foldl_cons, fatter]
      split
      · obtain ⟨i, hi, heq⟩ := ih j
        exact ⟨i, List.mem_cons_of_mem best hi, heq⟩
      · obtain ⟨i, hi, heq⟩ := ih best
        refine ⟨i, ?_, heq⟩
        rcases List.mem_cons.1 hi with rfl | hi
        · exact List.mem_cons_self
        · exact List.mem_cons_of_mem best (List.mem_cons_of_mem j hi)

/-- Nobody has a cell to spare, or the fattest column has one. -/
theorem fattest_cases (widths floors : List ℕ) :
    (fattest widths floors = none ∧ ∀ i < widths.length, widths.getD i 0 ≤ floors.getD i 0) ∨
      ∃ i < widths.length, fattest widths floors = some i ∧ floors.getD i 0 < widths.getD i 0 := by
  rw [fattest]
  obtain ⟨idx, hidx⟩ : ∃ idx, (List.range widths.length).filter
    (fun i => decide (floors.getD i 0 < widths.getD i 0)) = idx := ⟨_, rfl⟩
  have hmem (i : ℕ) : i ∈ idx ↔ i < widths.length ∧ floors.getD i 0 < widths.getD i 0 := by
    rw [← hidx, List.mem_filter, List.mem_range, decide_eq_true_eq]
  rw [hidx]
  cases idx with
  | nil => exact .inl ⟨rfl, fun i hi => Nat.le_of_not_lt fun hlt => List.not_mem_nil ((hmem i).2 ⟨hi, hlt⟩)⟩
  | cons first idx =>
      obtain ⟨i, hi, heq⟩ := foldl_fatter widths floors first idx
      have := (hmem i).1 hi
      exact .inr ⟨i, this.1, heq, this.2⟩

theorem shortest_eq_none :
    shortest widths floors = none ↔ ∀ i < widths.length, floors.getD i 0 ≤ widths.getD i 0 := by
  rw [shortest, List.find?_eq_none]
  simp

theorem shortest_eq_some {i : ℕ} (h : shortest widths floors = some i) :
    i < widths.length ∧ widths.getD i 0 < floors.getD i 0 := by
  have hmem := List.mem_of_find?_eq_some h
  have hshort := List.find?_some h
  exact ⟨List.mem_range.1 hmem, of_decide_eq_true hshort⟩

theorem fattest_eq_some {i : ℕ} (h : fattest widths floors = some i) :
    i < widths.length ∧ floors.getD i 0 < widths.getD i 0 := by
  rcases fattest_cases widths floors with ⟨hnone, -⟩ | ⟨j, hj, hsome, hlt⟩
  · rw [h] at hnone
    cases hnone
  · rw [Option.some.inj (h.symm.trans hsome)]
    exact ⟨hj, hlt⟩

theorem getD_modify (widths : List ℕ) (i j : ℕ) (g : ℕ → ℕ) (hi : i < widths.length) :
    (widths.modify i g).getD j 0 = if i = j then g (widths.getD j 0) else widths.getD j 0 := by
  rw [List.getD_eq_getElem?_getD, List.getElem?_modify, List.getD_eq_getElem?_getD]
  split
  · rename_i h
    subst h
    rw [List.getElem?_eq_getElem hi]
    rfl
  · simp

theorem sum_modify (i : ℕ) (g : ℕ → ℕ) (hi : i < widths.length) :
    (widths.modify i g).sum + widths.getD i 0 = widths.sum + g (widths.getD i 0) := by
  have hget : widths[i]? = some (widths.getD i 0) := by
    rw [List.getD_eq_getElem?_getD, List.getElem?_eq_getElem hi, Option.getD_some]
  rw [List.modify_eq_set_getElem?, hget]
  exact sum_set (g (widths.getD i 0)) hget

/-- What the columns below their floor lack. -/
def deficit (floors widths : List ℕ) : ℕ :=
  ((List.range floors.length).map fun i => floors.getD i 0 - widths.getD i 0).sum

theorem liftTurn_spec {widths' : List ℕ} (hlength : widths.length = floors.length)
    (h : liftTurn floors widths = some widths') :
    widths'.length = floors.length ∧ widths'.sum = widths.sum ∧ deficit floors widths' < deficit floors widths := by
  simp only [liftTurn, Option.bind_eq_bind, Option.bind_eq_some_iff, Option.pure_def, Option.some.injEq] at h
  obtain ⟨short, hshort, fat, hfat, hwidths⟩ := h
  obtain ⟨hslt, hbelow⟩ := shortest_eq_some hshort
  obtain ⟨hflt, habove⟩ := fattest_eq_some hfat
  obtain ⟨take, htake⟩ : ∃ take, min (floors.getD short 0 - widths.getD short 0) (spare widths floors fat) = take :=
    ⟨_, rfl⟩
  rw [htake] at hwidths
  have hne : short ≠ fat := by
    rintro rfl
    omega
  have hlift (j : ℕ) := getD_modify widths short j (· + take) hslt
  have hfat' : (widths.modify short (· + take)).getD fat 0 = widths.getD fat 0 := by rw [hlift, if_neg hne]
  have hlen : (widths.modify short (· + take)).length = widths.length := List.length_modify ..
  have hat (j : ℕ) : widths'.getD j 0 = if fat = j then widths.getD j 0 - take
      else if short = j then widths.getD j 0 + take else widths.getD j 0 := by
    rw [← hwidths, getD_modify _ _ _ _ (hlen ▸ hflt), hlift]
    split
    · rename_i heq
      rw [if_neg (heq ▸ hne)]
    · rfl
  rw [spare] at htake
  refine ⟨by rw [← hwidths, List.length_modify, hlen, hlength], ?_, ?_⟩
  · have hsum₁ := sum_modify short (· + take) hslt
    have hsum₂ := sum_modify fat (· - take) (hlen ▸ hflt)
    rw [hwidths, hfat'] at hsum₂
    omega
  · refine List.sum_lt_sum _ _ (fun j _ => ?_) ⟨short, List.mem_range.2 (hlength ▸ hslt), ?_⟩
    · rw [hat j]
      split
      · rename_i heq
        subst heq
        omega
      · split <;> omega
    · rw [hat short, if_neg (Ne.symm hne), if_pos rfl]
      omega

theorem payTurn_spec {widths' : List ℕ} (hfloors : ∀ i < widths.length, floors.getD i 0 ≤ widths.getD i 0)
    (h : payTurn floors budget widths = some widths') :
    widths'.length = widths.length ∧ (∀ i < widths.length, floors.getD i 0 ≤ widths'.getD i 0) ∧
      widths'.sum < widths.sum := by
  rw [payTurn] at h
  split at h
  · cases h
  · rename_i hexcess
    simp only [Option.bind_eq_bind, Option.bind_eq_some_iff, Option.pure_def, Option.some.injEq] at h
    obtain ⟨fat, hfat, hwidths⟩ := h
    obtain ⟨hflt, habove⟩ := fattest_eq_some hfat
    obtain ⟨take, htake⟩ : ∃ take, min (toU16 (widths.sum - budget)) (spare widths floors fat) = take := ⟨_, rfl⟩
    rw [htake] at hwidths
    rw [spare] at htake
    have hat (j : ℕ) := getD_modify widths fat j (· - take) hflt
    refine ⟨by rw [← hwidths, List.length_modify], fun j hj => ?_, ?_⟩
    · have := hfloors j hj
      rw [← hwidths, hat j]
      split
      · rename_i heq
        subst heq
        omega
      · exact this
    · have hsum := sum_modify fat (· - take) hflt
      rw [hwidths] at hsum
      omega

/-- Widths below the floors everywhere sum up to less. -/
theorem sum_le_of_getD (hlength : widths.length = floors.length)
    (h : ∀ i < widths.length, widths.getD i 0 ≤ floors.getD i 0) : widths.sum ≤ floors.sum := by
  induction widths generalizing floors with
  | nil => exact Nat.zero_le _
  | cons w widths ih =>
      obtain ⟨f, floors, rfl⟩ := List.exists_cons_of_length_eq_add_one hlength.symm
      have hhead : w ≤ f := h 0 (Nat.zero_lt_succ _)
      have htail := ih (Nat.succ.inj hlength) fun i hi => h (i + 1) (Nat.succ_lt_succ hi)
      rw [List.sum_cons, List.sum_cons]
      omega

/-- Where the widths sum up to as much as the floors and none has a cell to spare, nobody is below the floor. -/
theorem getD_le_of_sum_le (hlength : widths.length = floors.length)
    (h : ∀ i < widths.length, widths.getD i 0 ≤ floors.getD i 0) (hsum : floors.sum ≤ widths.sum) :
    ∀ i < widths.length, floors.getD i 0 ≤ widths.getD i 0 := by
  induction widths generalizing floors with
  | nil => simp
  | cons w widths ih =>
      obtain ⟨f, floors, rfl⟩ := List.exists_cons_of_length_eq_add_one hlength.symm
      have hhead : w ≤ f := h 0 (Nat.zero_lt_succ _)
      have htail : ∀ i < widths.length, widths.getD i 0 ≤ floors.getD i 0 :=
        fun i hi => h (i + 1) (Nat.succ_lt_succ hi)
      have hle := sum_le_of_getD (Nat.succ.inj hlength) htail
      rw [List.sum_cons, List.sum_cons] at hsum
      intro i hi
      cases i with
      | zero =>
          rw [List.getD_cons_zero, List.getD_cons_zero]
          omega
      | succ i => exact ih (Nat.succ.inj hlength) htail (by omega) i (Nat.lt_of_succ_lt_succ hi)

/-- **Where the cells stop moving.**  With as many cells as the floors take, every column has its floor, and
otherwise one is below it; where the floors are within the budget, so are the widths. -/
theorem fit_spec (hlength : widths.length = floors.length) (budget : ℕ) :
    ∃ final, (∃ bound, ∀ turns, bound < turns → fit turns widths floors budget = some final) ∧
      final.length = floors.length ∧
      (floors.sum ≤ widths.sum ↔ ∀ i < final.length, floors.getD i 0 ≤ final.getD i 0) ∧
      (floors.sum ≤ budget → final.sum ≤ budget) := by
  obtain ⟨lifted, ⟨hlen, hsum⟩, hover, hrun⟩ :=
    Loop.run_of_measure (I := fun w => w.length = floors.length ∧ w.sum = widths.sum) (deficit floors)
      (fun w w' ⟨hw, hwsum⟩ hturn => by
        obtain ⟨hlen, hsum, hless⟩ := liftTurn_spec hw hturn
        exact ⟨⟨hlen, hsum.trans hwsum⟩, hless⟩) ⟨hlength, rfl⟩
  cases hshort : shortest lifted floors with
  | some short =>
      -- nobody has a cell to spare
      obtain ⟨hslt, hbelow⟩ := shortest_eq_some hshort
      have hnone : ∀ i < lifted.length, lifted.getD i 0 ≤ floors.getD i 0 := by
        rcases fattest_cases lifted floors with ⟨-, hall⟩ | ⟨fat, -, hfat, -⟩
        · exact hall
        · simp [liftTurn, hshort, hfat] at hover
      refine ⟨lifted, ⟨deficit floors widths, fun turns hturns => ?_⟩, hlen,
        iff_of_false (fun hle => ?_) fun hall => ?_,
        fun hbudget => (sum_le_of_getD hlen hnone).trans hbudget⟩
      · rw [fit, hrun turns hturns]
        simp [hshort]
      · have := getD_le_of_sum_le hlen hnone (hsum ▸ hle) short hslt
        omega
      · have := hall short hslt
        omega
  | none =>
      have hfloors := shortest_eq_none.1 hshort
      obtain ⟨final, ⟨hflen, hfinal⟩, hfover, hfrun⟩ :=
        Loop.run_of_measure
          (I := fun w => w.length = lifted.length ∧ ∀ i < w.length, floors.getD i 0 ≤ w.getD i 0) List.sum
          (fun w w' ⟨hw, hwfloors⟩ (hturn : payTurn floors budget w = some w') => by
            obtain ⟨hlen, hkept, hless⟩ := payTurn_spec hwfloors hturn
            exact ⟨⟨hlen.trans hw, hlen ▸ hkept⟩, hless⟩) ⟨rfl, hfloors⟩
      have hle : floors.sum ≤ widths.sum := by
        rw [← hsum]
        exact sum_le_of_getD hlen.symm (hlen ▸ hfloors)
      refine ⟨final, ⟨max (deficit floors widths) lifted.sum, fun turns hturns => ?_⟩, hflen.trans hlen,
        iff_of_true hle hfinal, fun hbudget => ?_⟩
      · rw [fit, hrun turns (by omega)]
        simp [hshort, hfrun turns (by omega)]
      · by_cases hexcess : toU16 (final.sum - budget) = 0
        · rw [toU16] at hexcess
          omega
        · rw [payTurn, if_neg hexcess] at hfover
          rcases fattest_cases final floors with ⟨-, hall⟩ | ⟨fat, -, hfat, -⟩
          · exact (sum_le_of_getD (hflen.trans hlen) hall).trans hbudget
          · simp [hfat] at hfover

/-! ### The columns shown -/

variable {width : String → ℕ} {all : List Column} {sort : Option ℕ} {inner : UInt16} {idx : List ℕ}

/-- What is kept of the columns: the first one and some of the others, in their order. -/
structure Shows (all : List Column) (idx : List ℕ) : Prop where
  lt : ∀ i ∈ idx, i < all.length
  nodup : idx.Nodup
  head : idx = [] ∨ ∃ rest, idx = 0 :: rest

theorem Shows.eraseIdx {pos : ℕ} (h : Shows all idx) (hpos : idx[pos]? ≠ some 0) : Shows all (idx.eraseIdx pos) where
  lt := fun i hi => h.lt i (List.mem_of_mem_eraseIdx hi)
  nodup := h.nodup.sublist (List.eraseIdx_sublist ..)
  head := by
    rcases h.head with rfl | ⟨rest, rfl⟩
    · exact .inl rfl
    · cases pos with
      | zero => exact absurd rfl hpos
      | succ pos => exact .inr ⟨rest.eraseIdx pos, rfl⟩

theorem lastDroppable_eq_some {pos : ℕ} (h : lastDroppable all idx = some pos) : ∃ i, idx[pos]? = some i ∧ i ≠ 0 := by
  rw [lastDroppable, Option.map_eq_some_iff] at h
  obtain ⟨k, hk, rfl⟩ := h
  obtain ⟨hlt, hfound, -⟩ := List.findIdx?_eq_some_iff_getElem.1 hk
  rw [List.length_reverse] at hlt
  refine ⟨idx[idx.length - 1 - k], List.getElem?_eq_getElem (by omega), ?_⟩
  rw [List.getElem_reverse, Bool.and_eq_true] at hfound
  exact bne_iff_ne.1 hfound.1

theorem Shows.dropUntilFit (turns : ℕ) (h : Shows all idx) :
    Shows all (dropUntilFit width all sort inner turns idx) := by
  induction turns generalizing idx with
  | zero => exact h
  | succ turns ih =>
      rw [Widths.dropUntilFit]
      split
      · split
        · rename_i pos hpos
          obtain ⟨i, hi, hne⟩ := lastDroppable_eq_some hpos
          exact ih (h.eraseIdx fun hzero => hne (Option.some.inj (hi.symm.trans hzero)))
        · exact h
      · exact h

/-- As many turns as there are columns are enough: then the floors fit, or there is nothing left to drop. -/
theorem dropUntilFit_done {turns : ℕ} (hturns : idx.length ≤ turns) :
    let kept := dropUntilFit width all sort inner turns idx
    kept.length ≤ 1 ∨ floorsFit width all kept sort inner = true ∨ lastDroppable all kept = none := by
  induction turns generalizing idx with
  | zero => exact .inl (hturns.trans (Nat.zero_le 1))
  | succ turns ih =>
      rw [dropUntilFit]
      split
      · split
        · rename_i pos hpos
          obtain ⟨i, hi, -⟩ := lastDroppable_eq_some hpos
          have := List.length_eraseIdx_of_lt (List.getElem?_eq_some_iff.1 hi).1
          exact ih (by omega)
        · rename_i hnone
          exact .inr (.inr hnone)
      · rename_i hstop
        rw [Bool.and_eq_true, decide_eq_true_eq, not_and, Bool.not_eq_true, Bool.not_eq_false'] at hstop
        rcases Nat.lt_or_ge 1 idx.length with hlt | hle
        · exact .inr (.inl (hstop hlt))
        · exact .inl hle

theorem shows_visible (width : String → ℕ) (all : List Column) (offset : ℕ) (sort : Option ℕ) (inner : UInt16) :
    Shows all (visible width all offset sort inner) := by
  rw [visible]
  split
  · exact ⟨by simp, List.nodup_nil, .inl rfl⟩
  · rename_i hne
    have hpos : 0 < all.length := List.length_pos_iff.2 fun h => hne (by rw [h]; rfl)
    refine Shows.dropUntilFit _ ⟨fun i hi => ?_, ?_, .inr ⟨_, rfl⟩⟩
    · rcases List.mem_cons.1 hi with rfl | hi
      · exact hpos
      · have := List.mem_range'_1.1 hi
        omega
    · refine List.nodup_cons.2 ⟨fun h => ?_, List.nodup_range' ..⟩
      have := (List.mem_range'_1.1 h).1
      omega

theorem getElem?_filterMap {β : Type*} {g : ℕ → Option β} (h : ∀ i ∈ idx, (g i).isSome = true) (p : ℕ) :
    (idx.filterMap g)[p]? = idx[p]?.bind g := by
  induction idx generalizing p with
  | nil => rfl
  | cons i idx ih =>
      obtain ⟨b, hb⟩ := Option.isSome_iff_exists.1 (h i List.mem_cons_self)
      have ih := ih fun j hj => h j (List.mem_cons_of_mem i hj)
      rw [List.filterMap_cons, hb]
      cases p with
      | zero => exact hb.symm
      | succ p => exact ih p

theorem length_filterMap {β : Type*} {g : ℕ → Option β} (h : ∀ i ∈ idx, (g i).isSome = true) :
    (idx.filterMap g).length = idx.length := by
  induction idx with
  | nil => rfl
  | cons i idx ih =>
      obtain ⟨b, hb⟩ := Option.isSome_iff_exists.1 (h i List.mem_cons_self)
      rw [List.filterMap_cons, hb, List.length_cons, List.length_cons, ih fun j hj => h j (List.mem_cons_of_mem i hj)]

theorem Shows.isSome (h : Shows all idx) : ∀ i ∈ idx, (all[i]?).isSome = true :=
  fun i hi => by rw [List.getElem?_eq_getElem (h.lt i hi)]; rfl

theorem Shows.isSome_map {β : Type*} (h : Shows all idx) (g : ℕ → Column → β) :
    ∀ i ∈ idx, (all[i]?.map (g i)).isSome = true :=
  fun i hi => by rw [Option.isSome_map]; exact h.isSome i hi

/-- The first column is the first one shown. -/
theorem Shows.beq_zero (h : Shows all idx) {p i : ℕ} (hi : idx[p]? = some i) : (p == 0) = (i == 0) := by
  rcases h.head with rfl | ⟨rest, rfl⟩
  · cases hi
  · cases p with
    | zero =>
        have : i = 0 := (Option.some.inj hi).symm
        rw [this]
    | succ p =>
        have hne : i ≠ 0 := fun hzero => (List.nodup_cons.1 h.nodup).1 (hzero ▸ List.mem_of_getElem? hi)
        rw [beq_eq_false_iff_ne.2 hne, beq_eq_false_iff_ne.2 (Nat.succ_ne_zero p)]

/-- The sort column is found where it is shown. -/
theorem Shows.beq_sort (h : Shows all idx) {p i : ℕ} (hi : idx[p]? = some i) (sort : Option ℕ) :
    (some p == idx.findIdx? (some · == sort)) = (some i == sort) := by
  rw [Bool.eq_iff_iff, beq_iff_eq, beq_iff_eq]
  obtain ⟨hp, hget⟩ := List.getElem?_eq_some_iff.1 hi
  constructor
  · intro hfound
    obtain ⟨hlt, hsort, -⟩ := List.findIdx?_eq_some_iff_getElem.1 hfound.symm
    rw [← beq_iff_eq (a := some i), ← hget]
    exact hsort
  · intro hsort
    refine (List.findIdx?_eq_some_iff_getElem.2 ⟨hp, by rw [hget, hsort]; exact beq_self_eq_true sort, ?_⟩).symm
    intro q hq hother
    rw [beq_iff_eq, ← hsort, Option.some.injEq, ← hget] at hother
    have := (h.nodup.getElem_inj_iff).1 hother
    omega

theorem zipIdx_map_getElem? {α β : Type*} (items : List α) (g : α × ℕ → β) (p : ℕ) :
    (items.zipIdx.map g)[p]? = items[p]?.map fun x => g (x, p) := by
  rw [List.getElem?_map, List.getElem?_zipIdx, Option.map_map, Nat.zero_add]
  rfl

/-- The floors of the columns shown are those they were chosen by. -/
theorem shownFloors_eq (h : Shows all idx) :
    shownFloors width (columnsAt all idx) (idx.findIdx? (some · == sort)) = floorsOf width all sort idx := by
  refine List.ext_getElem? fun p => ?_
  rw [shownFloors, zipIdx_map_getElem?, columnsAt, getElem?_filterMap h.isSome, floorsOf,
    getElem?_filterMap (h.isSome_map _)]
  cases hi : idx[p]? with
  | none => rfl
  | some i =>
      rw [Option.bind_some, Option.bind_some]
      dsimp only
      rw [h.beq_zero hi, h.beq_sort hi]

/-! ### The floors -/

theorem foldl_toU16 (cells : List ℕ) {total : ℕ} (h : total ≤ 65535) :
    cells.foldl (fun total n => toU16 (total + n)) total = toU16 (total + cells.sum) := by
  induction cells generalizing total with
  | nil => exact (toU16_of_le h).symm
  | cons n cells ih =>
      have hle : toU16 (total + n) ≤ 65535 := Nat.min_le_right ..
      rw [List.foldl_cons, ih hle, List.sum_cons, toU16, toU16, toU16]
      omega

/-- Where the floors fit, nothing was cut down to a `u16`. -/
theorem floorsFit_spec (hinner : inner.toNat < 65535) (h : floorsFit width all idx sort inner = true) :
    idx.length ≤ 65535 ∧ overhead width idx.length = width GUTTER + SPACING * (idx.length - 1) ∧
      width GUTTER + SPACING * (idx.length - 1) + (floorsOf width all sort idx).sum ≤ inner.toNat := by
  rw [floorsFit, decide_eq_true_eq, foldl_toU16 _ (Nat.zero_le _), overhead] at h
  rw [overhead]
  simp only [toU16, SPACING] at h ⊢
  omega

theorem four_le_floorCells (col : Column) (first sorted : Bool) : 4 ≤ floorCells width col first sorted := by
  rw [floorCells]
  split <;> omega

theorem le_sum_floorsOf (h : Shows all idx) : 4 * idx.length ≤ (floorsOf width all sort idx).sum := by
  have hall : ∀ n ∈ floorsOf width all sort idx, 4 ≤ n := by
    intro n hn
    obtain ⟨i, -, hi⟩ := List.mem_filterMap.1 hn
    obtain ⟨col, -, rfl⟩ := Option.map_eq_some_iff.1 hi
    exact four_le_floorCells ..
  have hsum := List.card_nsmul_le_sum _ 4 hall
  rw [floorsOf, length_filterMap (h.isSome_map _), ← floorsOf] at hsum
  rw [Nat.mul_comm]
  exact hsum

/-! ### The rules -/

/-- Whether a column shares what is left: the first one unless it is an address, and any other text but the
context. -/
def sharesRest (col : Column) (first : Bool) : Bool :=
  if first && col.kind != .ip then true else col.path != CONTEXT_COLUMN.path && col.kind == .text

theorem markedRule_rule (col : Column) (first sorted marked : Bool) :
    (sharesRest col first = true ∧ (markedRule (rule width col first sorted) marked = .flex 6 ∨
        markedRule (rule width col first sorted) marked = .flex 1)) ∨
      sharesRest col first = false ∧ ∃ cap, markedRule (rule width col first sorted) marked = .cap cap := by
  have hcap (cap : UInt16) : ∃ cap', markedRule (.cap cap) marked = .cap cap' := by
    cases marked with
    | false => exact ⟨cap, rfl⟩
    | true => exact ⟨_, rfl⟩
  rw [rule, sharesRest]
  split
  · exact .inl ⟨rfl, .inl rfl⟩
  · by_cases hpath : col.path = CONTEXT_COLUMN.path
    · rw [if_pos hpath]
      exact .inr ⟨by simp [hpath], hcap _⟩
    · rw [if_neg hpath]
      cases hkind : col.kind with
      | text => exact .inl ⟨by simp [hpath], .inr rfl⟩
      | enum => exact .inr ⟨by simp, hcap _⟩
      | status => exact .inr ⟨by simp, hcap _⟩
      | bytes => exact .inr ⟨by simp, hcap _⟩
      | duration => exact .inr ⟨by simp, hcap _⟩
      | timestamp => exact .inr ⟨by simp, hcap _⟩
      | ip => exact .inr ⟨by simp, hcap _⟩
      | percent => exact .inr ⟨by simp, hcap _⟩
      | micros => exact .inr ⟨by simp, hcap _⟩
      | bool => exact .inr ⟨by simp, hcap _⟩
      | count => exact .inr ⟨by simp, hcap _⟩
      | reference => exact .inr ⟨by simp, hcap _⟩

variable (f : Frame)

theorem Frame.shows : Shows f.all (f.shown width) := shows_visible ..

theorem Frame.length_rules : (f.rules width).length = (f.shown width).length := by
  rw [Frame.rules, shownRules, List.length_map, List.length_zip, measure, List.length_map, List.length_zipIdx,
    Nat.min_self]
  exact length_filterMap f.shows.isSome

theorem getElem?_zip {α β : Type*} {items : List α} {others : List β} {p : ℕ} {x : α} (hx : items[p]? = some x)
    (hp : p < others.length) : (items.zip others)[p]? = some (x, others[p]) :=
  List.getElem?_zip_eq_some.2 ⟨hx, List.getElem?_eq_getElem hp⟩

/-- The rule of a column shown. -/
theorem Frame.rules_getElem? {p i : ℕ} {col : Column} (hi : (f.shown width)[p]? = some i)
    (hcol : f.all[i]? = some col) :
    ∃ needed, (f.rules width)[p]? =
      some (markedRule (rule width col (i == 0) (some i == f.sort)) (f.marked && i == 0), needed) := by
  have hcolp : (columnsAt f.all (f.shown width))[p]? = some col := by
    rw [columnsAt, getElem?_filterMap f.shows.isSome, hi]
    exact hcol
  rw [← f.shows.beq_zero hi, ← f.shows.beq_sort hi, Frame.rules, shownRules]
  have hzip : (columnsAt f.all (f.shown width)).zipIdx[p]? = some (col, p) := by
    rw [List.getElem?_zipIdx, hcolp, Nat.zero_add]
    rfl
  have hmeasure (sorted : Option ℕ) (cells : List (List String)) :
      p < (measure width (columnsAt f.all (f.shown width)) sorted cells).length := by
    rw [measure, List.length_map, List.length_zipIdx]
    exact (List.getElem?_eq_some_iff.1 hcolp).1
  dsimp only
  rw [List.getElem?_map, getElem?_zip hzip (hmeasure _ _)]
  exact ⟨_, rfl⟩

/-- A frame has a flexible rule for each of the columns shown that share what is left. -/
theorem Frame.flex_mem_rules {p : ℕ} {weight needed : UInt16}
    (h : (f.rules width)[p]? = some (.flex weight, needed)) :
    (weight = 6 ∨ weight = 1) ∧ ∃ i ∈ f.shown width, ∃ col, f.all[i]? = some col ∧ sharesRest col (i == 0) = true := by
  have hp : p < (f.shown width).length := by
    rw [← f.length_rules]
    exact (List.getElem?_eq_some_iff.1 h).1
  have hmem := List.getElem_mem hp
  obtain ⟨col, hcol⟩ := Option.isSome_iff_exists.1 (f.shows.isSome _ hmem)
  obtain ⟨needed', hrule⟩ := f.rules_getElem? (List.getElem?_eq_getElem hp) hcol
  have heq := (Prod.mk.inj (Option.some.inj (h.symm.trans hrule))).1
  rcases markedRule_rule col ((f.shown width)[p] == 0) (some (f.shown width)[p] == f.sort)
    (f.marked && (f.shown width)[p] == 0) with ⟨hshares, hrule⟩ | ⟨-, cap, hrule⟩
  · refine ⟨?_, _, hmem, col, hcol, hshares⟩
    rw [← heq] at hrule
    exact hrule.imp ColWidth.flex.inj ColWidth.flex.inj
  · rw [hrule] at heq
    cases heq

theorem Frame.exists_flex {i : ℕ} {col : Column} (hi : i ∈ f.shown width) (hcol : f.all[i]? = some col)
    (hshares : sharesRest col (i == 0) = true) : ∃ weight needed, (.flex weight, needed) ∈ f.rules width := by
  obtain ⟨p, hp⟩ := List.getElem?_of_mem hi
  obtain ⟨needed, hrule⟩ := f.rules_getElem? hp hcol
  rcases markedRule_rule col (i == 0) (some i == f.sort) (f.marked && i == 0) with ⟨-, h | h⟩ | ⟨hnot, -⟩
  · exact ⟨6, needed, h ▸ List.mem_of_getElem? hrule⟩
  · exact ⟨1, needed, h ▸ List.mem_of_getElem? hrule⟩
  · rw [hshares] at hnot
    cases hnot

theorem reserved_le (col : ColWidth × UInt16) : reserved col ≤ 65535 := by
  obtain ⟨rule, needed⟩ := col
  cases rule with
  | exact w => exact Nat.le_of_lt_succ w.toNat_lt
  | cap cap => exact (Nat.min_le_left ..).trans (Nat.le_of_lt_succ needed.toNat_lt)
  | flex w => exact Nat.zero_le _

/-! No sum of a frame overflows: each of its columns weighs six at most, and is kept a `u16` of cells. -/

theorem Frame.sum_weightOf_le : ((f.rules width).map weightOf).sum ≤ (f.shown width).length * 6 := by
  have hweight : ∀ col ∈ f.rules width, weightOf col ≤ 6 := by
    rintro ⟨rule, needed⟩ hcol
    cases rule with
    | exact w => exact Nat.zero_le 6
    | cap cap => exact Nat.zero_le 6
    | flex w =>
        obtain ⟨p, hp⟩ := List.getElem?_of_mem hcol
        rcases (f.flex_mem_rules hp).1 with rfl | rfl
        · exact le_refl 6
        · exact (by decide : 1 ≤ 6)
  have hsum := List.sum_le_card_nsmul ((f.rules width).map weightOf) 6 (List.forall_mem_map.2 hweight)
  rwa [List.length_map, f.length_rules, smul_eq_mul] at hsum

theorem Frame.sum_reserved_le : ((f.rules width).map reserved).sum ≤ (f.shown width).length * 65535 := by
  have hsum := List.sum_le_card_nsmul ((f.rules width).map reserved) 65535
    (List.forall_mem_map.2 fun col _ => reserved_le col)
  rwa [List.length_map, f.length_rules, smul_eq_mul] at hsum

theorem Frame.flexible_pos : ∀ c ∈ flexible (f.rules width), 0 < c.weight := by
  intro c hc
  obtain ⟨weight, needed, hcol, hweight, -⟩ := mem_flexible.1 hc
  rw [hweight]
  rcases (f.flex_mem_rules hcol).1 with rfl | rfl <;> decide

/-- Somebody takes what is left exactly when a column that does is shown. -/
theorem Frame.flexible_ne_nil_iff : flexible (f.rules width) ≠ [] ↔
    ∃ i ∈ f.shown width, ∃ col, f.all[i]? = some col ∧ sharesRest col (i == 0) = true := by
  constructor
  · intro hne
    obtain ⟨c, rest, hflexible⟩ := List.exists_cons_of_ne_nil hne
    obtain ⟨weight, needed, hcol, -⟩ := mem_flexible.1 (hflexible ▸ List.mem_cons_self : c ∈ flexible (f.rules width))
    exact (f.flex_mem_rules hcol).2
  · rintro ⟨i, hi, col, hcol, hshares⟩
    obtain ⟨weight, needed, hmem⟩ := f.exists_flex hi hcol hshares
    obtain ⟨p, hp⟩ := List.getElem?_of_mem hmem
    exact List.ne_nil_of_mem (mem_flexible (c := { index := p, weight := weight.toNat, needed := needed.toNat }).2
      ⟨weight, needed, hp, rfl, rfl⟩)

/-- **The widths of a frame.** -/
theorem Frame.widths_spec (h : floorsFit width f.all (f.shown width) f.sort f.inner = true) :
    ∃ widths, (∃ bound, ∀ turns, bound < turns → f.widths width turns = some widths) ∧
      widths.length = (f.shown width).length ∧
      width GUTTER + SPACING * ((f.shown width).length - 1) + widths.sum ≤ f.inner.toNat ∧
      ((∀ p < widths.length, (floorsOf width f.all f.sort (f.shown width)).getD p 0 ≤ widths.getD p 0) ↔
        (∃ i ∈ f.shown width, ∃ col, f.all[i]? = some col ∧ sharesRest col (i == 0) = true) ∨
          (floorsOf width f.all f.sort (f.shown width)).sum ≤ ((f.rules width).map reserved).sum) := by
  have hshows : Shows f.all (f.shown width) := f.shows
  have hinner : f.inner.toNat < 65535 := by
    rw [Frame.inner, UInt16.toNat_ofNat']
    have := f.areaWidth.toNat_lt
    omega
  obtain ⟨hlength, hover, hfit⟩ := floorsFit_spec hinner h
  have hfour := @le_sum_floorsOf width f.all f.sort _ hshows
  have hrules : (f.rules width).length = (f.shown width).length := f.length_rules
  obtain ⟨budget, hbudget⟩ :
      ∃ budget, f.inner.toNat - (width GUTTER + SPACING * ((f.shown width).length - 1)) = budget :=
    ⟨_, rfl⟩
  -- a column has a floor of four cells, so there are not many of them
  have hweights : ((f.rules width).map weightOf).sum < 2 ^ 32 :=
    lt_of_le_of_lt f.sum_weightOf_le (by omega)
  have hfixed : ((f.rules width).map reserved).sum < 2 ^ 32 :=
    lt_of_le_of_lt f.sum_reserved_le (by omega)
  obtain ⟨split, hsplit, hsplitLength, hother, hsum, -⟩ :=
    distribute_spec (UInt16.ofNat budget) f.flexible_pos hweights hfixed
  have hbudget16 : (UInt16.ofNat budget).toNat = budget := by
    rw [UInt16.toNat_ofNat']
    omega
  have hfloors : (floorsOf width f.all f.sort (f.shown width)).length = (f.shown width).length :=
    length_filterMap (hshows.isSome_map _)
  have hsplitFloors : split.length = (floorsOf width f.all f.sort (f.shown width)).length := by
    rw [hsplitLength, hrules, hfloors]
  obtain ⟨final, ⟨bound, hrun⟩, hfinalLength, hfinal, hfinalSum⟩ := fit_spec hsplitFloors budget
  refine ⟨final, ⟨bound, fun turns hturns => ?_⟩, hfinalLength.trans hfloors, ?_, ?_⟩
  · have hcols : toU16 (columnsAt f.all (f.shown width)).length = (f.shown width).length := by
      rw [columnsAt, length_filterMap hshows.isSome, toU16_of_le hlength]
    rw [Frame.widths]
    simp only [hcols, hover, hbudget, hsplit, Option.bind_eq_bind, Option.bind_some, shownFloors_eq hshows]
    exact hrun turns hturns
  · have := hfinalSum (by omega)
    omega
  · -- the split has as many cells as the floors take, or nobody takes what is left
    rw [← hfinal, ← f.flexible_ne_nil_iff]
    by_cases hne : flexible (f.rules width) ≠ []
    · have := hsum hne
      exact iff_of_true (by omega) (.inl hne)
    · have heq : split = (f.rules width).map reserved := by
        refine List.ext_getElem? fun i => hother i ?_
        rw [not_not.1 hne]
        exact List.not_mem_nil
      rw [heq, or_iff_right hne]

/-- **The floors are kept exactly when somebody takes what is left**, or the contents of the columns shown fill
their floors; the gaps are kept, and the cells stop moving, in any case. -/
theorem Frame.floors_kept_iff (h : floorsFit width f.all (f.shown width) f.sort f.inner = true) :
    (∃ widths bound, (∀ turns, bound < turns → f.widths width turns = some widths) ∧
      width GUTTER + SPACING * ((f.shown width).length - 1) + widths.sum ≤ f.inner.toNat) ∧
    ((∃ widths bound, (∀ turns, bound < turns → f.widths width turns = some widths) ∧
        widths.length = (f.shown width).length ∧
        (∀ p < widths.length, (floorsOf width f.all f.sort (f.shown width)).getD p 0 ≤ widths.getD p 0) ∧
        width GUTTER + SPACING * ((f.shown width).length - 1) + widths.sum ≤ f.inner.toNat) ↔
      (∃ i ∈ f.shown width, ∃ col, f.all[i]? = some col ∧ sharesRest col (i == 0) = true) ∨
        (floorsOf width f.all f.sort (f.shown width)).sum ≤ ((f.rules width).map reserved).sum) := by
  obtain ⟨widths, ⟨bound, hrun⟩, hlength, hgaps, hiff⟩ := f.widths_spec h
  refine ⟨⟨widths, bound, hrun, hgaps⟩, ?_⟩
  rw [← hiff]
  constructor
  · rintro ⟨widths', bound', hrun', -, hfloors, -⟩
    have heq : widths = widths' := Option.some.inj
      ((hrun (max bound bound' + 1) (by omega)).symm.trans (hrun' (max bound bound' + 1) (by omega)))
    exact heq ▸ hfloors
  · intro hfloors
    exact ⟨widths, bound, hrun, hlength, hfloors, hgaps⟩

/-- A table of names and addresses. -/
def named : Frame where
  all := [{ header := "NAME", path := "name" }, { header := "IP", path := "ip", kind := .ip },
    { header := "STATE", path := "state", kind := .status }]
  colOffset := 0
  sort := some 1
  window := [["web-01", "10.0.0.1", "ON"]]
  marked := true
  areaWidth := 40

theorem floors_kept_named :
    ∃ widths bound, (∀ turns, bound < turns → named.widths String.length turns = some widths) ∧
      widths.length = (named.shown String.length).length ∧
      (∀ p < widths.length,
        (floorsOf String.length named.all named.sort (named.shown String.length)).getD p 0 ≤ widths.getD p 0) ∧
      String.length GUTTER + SPACING * ((named.shown String.length).length - 1) + widths.sum ≤ named.inner.toNat :=
  (named.floors_kept_iff (by decide)).2.2 (.inl ⟨0, by decide, _, rfl, by decide⟩)

/-- A table of addresses. -/
def addresses : Frame where
  all := [{ header := "IP", path := "ip", kind := .ip }]
  colOffset := 0
  sort := none
  window := [["::1"]]
  marked := false
  areaWidth := 80

theorem not_floors_kept : ¬ ∀ f : Frame,
    floorsFit String.length f.all (f.shown String.length) f.sort f.inner = true →
      ∃ widths bound, (∀ turns, bound < turns → f.widths String.length turns = some widths) ∧
        ∀ p < widths.length,
          (floorsOf String.length f.all f.sort (f.shown String.length)).getD p 0 ≤ widths.getD p 0 := by
  intro h
  obtain ⟨widths, bound, hrun, hfloors⟩ := h addresses (by decide)
  have hwidths : addresses.widths String.length (bound + 1) = some [3] := rfl
  have heq := Option.some.inj ((hrun (bound + 1) (Nat.lt_succ_self bound)).symm.trans hwidths)
  subst heq
  exact absurd (hfloors 0 (by decide)) (by decide)

end Nutsh.Widths
