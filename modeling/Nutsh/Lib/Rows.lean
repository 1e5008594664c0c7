/-
Rows that are found by an identifier.

A list of rows, each of which may have an identifier, is read by the first row of one, which is also the one that
is replaced; all rows of an identifier are removed at once.  An operation on the row of one identifier leaves what
is found under every other.

Main definitions:

* `Rows.find`, `Rows.replace`, `Rows.remove` — the operations;
* `Rows.Within` — what is found was found before, and is as it was in some respect.

Main results:

* `Rows.find_replace_self`, `Rows.find_replace_ne`, `Rows.find_remove` — what is found after an operation;
* `Rows.within_replace`, `Rows.within_remove` — the operations that keep a respect.
-/
import Mathlib.Data.List.Basic

set_option relaxedAutoImplicit false
set_option autoImplicit false

namespace Rows

variable {κ α : Type*} [DecidableEq κ] (key : α → Option κ)

/-- The first row of an identifier. -/
def find (id : κ) (rows : List α) : Option α := rows.find? fun row => decide (key row = some id)

/-- The rows with another in place of the first of an identifier. -/
def replace (id : κ) (new : α) : List α → List α
  | [] => []
  | row :: rows => if key row = some id then new :: rows else row :: replace id new rows

/-- The rows without those of an identifier. -/
def remove (id : κ) (rows : List α) : List α := rows.filter fun row => decide (key row ≠ some id)

variable {key} {id id' : κ} {rows : List α}

variable (key) in
theorem key_of_find {row : α} (h : find key id rows = some row) : key row = some id := by
  simpa using List.find?_some h

theorem find_cons (row : α) : find key id (row :: rows) = if key row = some id then some row else find key id rows := by
  rw [find, find, List.find?_cons]
  by_cases h : key row = some id <;> simp [h]

theorem find_append (news : List α) : find key id (rows ++ news) = (find key id rows).or (find key id news) :=
  List.find?_append

variable (key) in
/-- What is found under one identifier is not changed by rows of others. -/
theorem find_append_ne {new : α} (h : key new ≠ some id) : find key id (rows ++ [new]) = find key id rows := by
  have hnone : find key id [new] = none := by rw [find_cons, if_neg h]; rfl
  rw [find_append, hnone, Option.or_none]

theorem replace_of_find {new : α} (h : find key id rows = none) : replace key id new rows = rows := by
  induction rows with
  | nil => rfl
  | cons row rows ih =>
      rw [find_cons] at h
      by_cases hrow : key row = some id
      · rw [if_pos hrow] at h
        cases h
      · rw [if_neg hrow] at h
        rw [replace, if_neg hrow, ih h]

variable (key) in
theorem find_replace_self {new : α} (hnew : key new = some id) (h : find key id rows ≠ none) :
    find key id (replace key id new rows) = some new := by
  induction rows with
  | nil => exact absurd rfl h
  | cons row rows ih =>
      by_cases hrow : key row = some id
      · rw [replace, if_pos hrow, find_cons, if_pos hnew]
      · rw [find_cons, if_neg hrow] at h
        rw [replace, if_neg hrow, find_cons, if_neg hrow, ih h]

variable (key) in
theorem find_replace_ne {new : α} (hnew : key new = some id) (hne : id' ≠ id) :
    find key id' (replace key id new rows) = find key id' rows := by
  have hother {row : α} (hrow : key row = some id) : ¬ key row = some id' := by
    rw [hrow, Option.some.injEq]
    exact hne.symm
  induction rows with
  | nil => rfl
  | cons row rows ih =>
      by_cases hrow : key row = some id
      · rw [replace, if_pos hrow, find_cons, find_cons, if_neg (hother hnew), if_neg (hother hrow)]
      · rw [replace, if_neg hrow, find_cons, find_cons, ih]

theorem find_remove : find key id' (remove key id rows) = if id' = id then none else find key id' rows := by
  induction rows with
  | nil => exact (ite_self none).symm
  | cons row rows ih =>
      rw [remove] at ih ⊢
      by_cases hrow : key row = some id
      · rw [List.filter_cons_of_neg (by simp [hrow]), ih, find_cons]
        by_cases h : id' = id
        · rw [if_pos h, if_pos h]
        · have hrow' : ¬ key row = some id' := by
            rw [hrow, Option.some.injEq]
            exact Ne.symm h
          rw [if_neg h, if_neg h, if_neg hrow']
      · rw [List.filter_cons_of_pos (by simp [hrow]), find_cons, find_cons, ih]
        by_cases hrow' : key row = some id'
        · have h : id' ≠ id := by
            rintro rfl
            exact hrow hrow'
          rw [if_pos hrow', if_pos hrow', if_neg h]
        · rw [if_neg hrow', if_neg hrow']

/-! ### What is found was there -/

/-- What is found under an identifier was found under it before, and the two agree in some respect. -/
def Within (key : α → Option κ) (P : α → α → Prop) (rows rows' : List α) : Prop :=
  ∀ id row', find key id rows' = some row' → ∃ row, find key id rows = some row ∧ P row row'

variable {P : α → α → Prop}

/-- A row that agrees with the one it is put in place of. -/
theorem within_replace (hP : ∀ row, P row row) {row new : α} (hrow : find key id rows = some row)
    (hnew : key new = some id) (h : P row new) : Within key P rows (replace key id new rows) := by
  intro id' row' hfind
  by_cases hid : id' = id
  · subst hid
    rw [find_replace_self key hnew (by rw [hrow]; exact Option.some_ne_none row), Option.some.injEq] at hfind
    exact ⟨row, hrow, hfind ▸ h⟩
  · rw [find_replace_ne key hnew hid] at hfind
    exact ⟨row', hfind, hP row'⟩

theorem within_remove (hP : ∀ row, P row row) (id : κ) (rows : List α) : Within key P rows (remove key id rows) := by
  intro id' row' hfind
  rw [find_remove] at hfind
  split at hfind
  · cases hfind
  · exact ⟨row', hfind, hP row'⟩

end Rows
