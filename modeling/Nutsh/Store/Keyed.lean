/-
Every row under its own id.

Rows come in by three doors: a completed walk and the cache give a list of entities, of which those
without an id have no row, and a single-entity read gives one entity, which is filed under whatever id it
carries.  So every table stays keyed as long as no document is read that carries no id.

Main definitions:

* `Table.Keyed` — every row has an id and stands under it, once;
* `Store.Op`, `Store.step` — the operations on the store;
* `Store.Identified` — a single-entity read that is taken carries an id.

Main results:

* `Table.keyed_apply_iff` — what one update keeps;
* `Store.keyed_step_iff` — the same of one operation;
* `Store.along_keyed_iff` — the states of a run are keyed exactly when its reads carry an id.
-/
import Nutsh.Lib.Run
import Nutsh.Store.Fresh

set_option relaxedAutoImplicit false
set_option autoImplicit false

namespace Nutsh

namespace Table

/-- Every row has an id and stands under that id; no id stands twice, and those that stand in the order
are those that have a row. -/
structure Keyed (t : Table) : Prop where
  identified : ∀ id e, t.rows.get? id = some e → id ≠ "" ∧ e.extId = id
  once : t.rows.keys.Nodup
  ordered : ∀ id, t.rows.keys.count id = if (t.rows.get? id).isSome then 1 else 0

theorem count_keys (rows : IndexMap String Entity) (id : String) :
    rows.keys.count id = if (rows.get? id).isSome then 1 else 0 := by
  have hmem : id ∈ rows.keys ↔ (rows.get? id).isSome = true := by
    rw [IndexMap.get?, List.lookup_isSome_iff]
    constructor
    · intro h
      obtain ⟨x, hx, rfl⟩ := List.mem_map.1 h
      exact ⟨x, hx, beq_self_eq_true _⟩
    · rintro ⟨x, hx, he⟩
      exact List.mem_map.2 ⟨x, hx, (beq_iff_eq.1 he).symm⟩
  by_cases h : id ∈ rows.keys
  · rw [List.count_eq_one_of_mem rows.keys_nodup h, if_pos (hmem.1 h)]
  · rw [List.count_eq_zero_of_not_mem h, if_neg (mt hmem.2 h)]

/-- The order of a map needs no proof: only what its rows carry does. -/
theorem keyed_iff {t : Table} : t.Keyed ↔ ∀ id e, t.rows.get? id = some e → id ≠ "" ∧ e.extId = id :=
  ⟨Keyed.identified, fun h => ⟨h, t.rows.keys_nodup, count_keys t.rows⟩⟩

theorem Keyed.of_rows {t t' : Table} (h : t.Keyed) (hrows : t'.rows = t.rows) : t'.Keyed := by
  rw [keyed_iff] at h ⊢
  rwa [hrows]

theorem keyed_fresh : fresh.Keyed := by
  rw [keyed_iff]
  intro id e h
  cases h

/-- A list of entities gives keyed rows, whatever the entities carry. -/
theorem keyed_of_index {t : Table} {entities : List Entity} (hrows : t.rows = index entities) : t.Keyed := by
  rw [keyed_iff, hrows]
  intro id e he
  rw [get?_index, Ledger.walked] at he
  split at he
  · cases he
  case isFalse hid =>
    have hfound := List.find?_some he
    exact ⟨hid, by simpa using hfound⟩

/-- The update is no single-entity read that the table takes and that carries no id. -/
def Identified (t : Table) : Update → Prop
  | .entity g e => t.generation ≤ g → e.extId ≠ ""
  | _ => True

/-- An update keeps a table keyed exactly when it is no read without an id. -/
theorem keyed_apply_iff {t : Table} (h : t.Keyed) (now : ℕ) (u : Update) :
    (t.apply now u).Keyed ↔ t.Identified u := by
  cases u with
  | started g => exact iff_of_true (h.of_rows (by simp)) trivial
  | page g entities total => exact iff_of_true (h.of_rows (by simp)) trivial
  | complete g =>
      refine iff_of_true ?_ trivial
      rcases t.onComplete_cases now g with ⟨-, -, -, hrows⟩ | ⟨-, -, -, hrows⟩
      · exact keyed_of_index hrows
      · exact h.of_rows hrows
  | error g error => exact iff_of_true (h.of_rows (by simp)) trivial
  | entity g e =>
      rw [apply_entity, onEntity, Identified]
      by_cases hg : g < t.generation
      · rw [if_pos hg]
        exact iff_of_true h fun hle => absurd hg (Nat.not_lt.2 hle)
      · rw [if_neg hg, keyed_iff]
        constructor
        · intro hkeyed _
          exact (hkeyed e.extId e (by simp)).1
        · intro hid id e' he'
          have hne : e.extId ≠ "" := hid (Nat.not_lt.1 hg)
          by_cases he : id = e.extId
          · -- The one row that is written.
            rw [he, IndexMap.get?_insert_self, Option.some.injEq] at he'
            rw [he, ← he']
            exact ⟨hne, rfl⟩
          · rw [IndexMap.get?_insert_ne he] at he'
            exact h.identified id e' he'

end Table

namespace Store

/-! ### The operations -/

inductive Op where
  | apply (key : TableKey) (now : ℕ) (u : Update)
  | restore (key : TableKey) (rows : List Entity) (total : Option ℕ) (writtenAt : ℕ)
  | abandon (key : TableKey)
  | applyNames (names : List (String × String))

/-- One operation. -/
def op (s : Store) : Op → Store
  | .apply key now u => s.apply key now u
  | .restore key rows total writtenAt => (s.restore key rows total writtenAt).1
  | .abandon key => s.abandon key
  | .applyNames names => s.applyNames names

def step (s : Store) (o : Op) : Option Store := some (s.op o)

/-- Every table is keyed. -/
def Keyed (s : Store) : Prop := ∀ key, (s.table key).Keyed

/-- The operation is no single-entity read that a table takes and that carries no id. -/
def Identified (s : Store) : Op → Prop
  | .apply key _ u => (s.table key).Identified u
  | _ => True

/-- The table of a key after a restore: the rows that have an id painted, unless there are none or a live
cycle has completed. -/
theorem table_restore (s : Store) (key : TableKey) (rows : List Entity) (total : Option ℕ) (writtenAt : ℕ) :
    (s.restore key rows total writtenAt).1.table key =
      if (index rows).isEmpty then s.table key
      else if 0 < (s.table key).generation ∨ (s.table key).lastPoll.isSome = true then s.table key
      else { s.table key with
             rows := index rows, total, restoredAt := some writtenAt, error := none, loading := false } := by
  rw [restore]
  split
  · rfl
  · simp only [Bool.or_eq_true, decide_eq_true_eq]
    split <;> simp

theorem table_restore_ne {s : Store} {key key' : TableKey} (h : key'.ident ≠ key.ident) (rows : List Entity)
    (total : Option ℕ) (writtenAt : ℕ) :
    (s.restore key rows total writtenAt).1.table key' = s.table key' := by
  rw [restore]
  split
  · rfl
  · dsimp only
    split <;> simp [table_setTable_ne h]

theorem table_abandon (s : Store) (key : TableKey) :
    (s.abandon key).table key = { s.table key with cycleStarted := none, staging := none } := by
  rw [abandon]
  split
  · simp
  case isFalse h =>
    have hnone : s.tables.get? key.ident = none := by simpa using h
    simp [table, hnone, Table.fresh]

theorem table_abandon_ne {s : Store} {key key' : TableKey} (h : key'.ident ≠ key.ident) :
    (s.abandon key).table key' = s.table key' := by
  rw [abandon]
  split
  · exact table_setTable_ne h
  · rfl

theorem table_congr {s : Store} {key key' : TableKey} (h : key'.ident = key.ident) :
    s.table key' = s.table key := by
  rw [table, table, h]

/-- A store is keyed when the one table that was written is. -/
theorem keyed_of_table {s s' : Store} {key : TableKey} (h : s.Keyed) (hkey : (s'.table key).Keyed)
    (hother : ∀ key', key'.ident ≠ key.ident → s'.table key' = s.table key') : s'.Keyed := by
  intro key'
  by_cases hk : key'.ident = key.ident
  · rwa [table_congr hk]
  · rw [hother key' hk]
    exact h key'

/-- An operation keeps a store keyed exactly when it is no read without an id. -/
theorem keyed_step_iff {s : Store} (h : s.Keyed) (o : Op) : (s.op o).Keyed ↔ s.Identified o := by
  cases o with
  | apply key now u =>
      have hkeyed : (s.op (.apply key now u)).Keyed ↔ ((s.table key).apply now u).Keyed := by
        constructor
        · intro hs
          have hkey := hs key
          rwa [op, table_apply] at hkey
        · intro hkey
          refine keyed_of_table h ?_ fun key' hk => table_apply_ne hk
          rwa [op, table_apply]
      exact hkeyed.trans (Table.keyed_apply_iff (h key) now u)
  | restore key rows total writtenAt =>
      refine iff_of_true (keyed_of_table h ?_ fun key' hk => table_restore_ne hk ..) trivial
      rw [op, table_restore]
      split
      · exact h key
      split
      · exact h key
      · exact Table.keyed_of_index rfl
  | abandon key =>
      refine iff_of_true (keyed_of_table h ?_ fun key' hk => table_abandon_ne hk) trivial
      rw [op, table_abandon]
      exact (h key).of_rows rfl
  | applyNames names => exact iff_of_true h trivial

/-- **Every row under its own id.**  Whatever the operations and their order, every state of a run is
keyed exactly when each single-entity read that a table takes carries an id. -/
theorem along_keyed_iff (ops : List Op) :
    Run.Along step (fun s o => (s.op o).Keyed) {} ops ↔ Run.Along step Identified {} ops := by
  have hempty : ({} : Store).Keyed := fun _ => Table.keyed_fresh
  constructor
  · intro h
    refine Run.Along.imp (I := Keyed) (fun s o t _ hnext ht => ?_) (fun s o hs => (keyed_step_iff hs o).1)
      hempty h
    exact Option.some.inj ht ▸ hnext
  · intro h
    refine Run.Along.imp (I := Keyed) (fun s o t hs hid ht => ?_) (fun s o hs => (keyed_step_iff hs o).2)
      hempty h
    exact Option.some.inj ht ▸ (keyed_step_iff hs o).2 hid

/-- A document read by itself that carries no id is filed under no id. -/
theorem not_along_keyed :
    ¬ ∀ ops, Run.Along step (fun s o => (s.op o).Keyed) {} ops := by
  intro h
  have hkeyed := (h [.apply (.top vmKind) 0
    (.entity 1 (Entity.new vmKind (.obj [("name", .str "web-01")]) none))]).1
  exact ((hkeyed (.top vmKind)).identified "" _ rfl).1 rfl

end Store

end Nutsh
