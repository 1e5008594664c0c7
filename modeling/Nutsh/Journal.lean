/-
The journal of a session: what was attempted, and what came of it.

An entry is recorded when the attempt is made, under the next number, and settled in place when its
outcome is known.  The ring holds the last five hundred.  Numbering starts at one with every session.

* `Journal.record`, `Journal.settle`, `Journal.contextOf` — the operations;
* `Journal.settle_of_absent` — settling a number the ring does not hold changes nothing;
* `Journal.Extends`, `Journal.Knows` — a journal that goes on from another, and what a number stands
  for: recording and settling go on, and keep what every number given before stands for.
-/
import Nutsh.Catalog
import Mathlib.Data.List.Pairwise

set_option relaxedAutoImplicit false
set_option autoImplicit false

namespace Nutsh

inductive JournalOutcome where
  | started
  | succeeded
  | failed (message : String)
  | denied (message : String)
  | cancelled
  | unknown (message : String)
  deriving DecidableEq, Repr

structure Entry where
  id : ℕ
  «at» : ℕ
  context : String
  kind : Kind
  extId : String
  name : String
  action : String
  outcome : JournalOutcome
  taskExtId : Option String := none
  deriving DecidableEq, Repr

/-- The identifiers of one attempt. -/
structure Attempt where
  context : String
  kind : Kind
  extId : String
  name : String
  action : String
  deriving DecidableEq, Repr

/-- How many entries the ring holds. -/
def capacity : ℕ := 500

structure Journal where
  /-- Oldest first. -/
  entries : List Entry := []
  next : ℕ := 1
  deriving DecidableEq, Repr

namespace Journal

/-- The attempt under the next number; a full ring drops its oldest entry. -/
def record (j : Journal) (a : Attempt) (now : ℕ) (outcome : JournalOutcome) : Journal × ℕ :=
  let kept := if j.entries.length = capacity then j.entries.tail else j.entries
  let entry : Entry :=
    { id := j.next, «at» := now, context := a.context, kind := a.kind, extId := a.extId,
      name := a.name, action := a.action, outcome }
  ({ entries := kept ++ [entry], next := j.next + 1 }, j.next)

/-- An entry with its outcome, and the task if one is given. -/
def settled (e : Entry) (outcome : JournalOutcome) (task : Option String) : Entry :=
  { e with outcome, taskExtId := task.or e.taskExtId }

/-- The first entry of a number settled in a list. -/
def settleIn (id : ℕ) (outcome : JournalOutcome) (task : Option String) : List Entry → List Entry
  | [] => []
  | e :: es => if e.id = id then settled e outcome task :: es else e :: settleIn id outcome task es

/-- The entry of a number settled in place. -/
def settle (j : Journal) (id : ℕ) (outcome : JournalOutcome) (task : Option String) : Journal :=
  { j with entries := settleIn id outcome task j.entries }

/-- The context an entry was recorded against. -/
def contextOf (j : Journal) (id : ℕ) : Option String :=
  (j.entries.find? fun e => e.id == id).map Entry.context

@[simp] theorem next_settle (j : Journal) (id : ℕ) (outcome : JournalOutcome)
    (task : Option String) : (j.settle id outcome task).next = j.next := rfl

@[simp] theorem snd_record (j : Journal) (a : Attempt) (now : ℕ) (outcome : JournalOutcome) :
    (j.record a now outcome).2 = j.next := rfl

@[simp] theorem next_record (j : Journal) (a : Attempt) (now : ℕ) (outcome : JournalOutcome) :
    (j.record a now outcome).1.next = j.next + 1 := rfl

/-- Whether the ring holds a number. -/
def holds (j : Journal) (id : ℕ) : Prop := ∃ e ∈ j.entries, e.id = id

theorem settleIn_of_absent {id : ℕ} {outcome : JournalOutcome} {task : Option String}
    {es : List Entry} (h : ∀ e ∈ es, e.id ≠ id) : settleIn id outcome task es = es := by
  induction es with
  | nil => rfl
  | cons e es ih =>
      have he : e.id ≠ id := h e List.mem_cons_self
      rw [settleIn, if_neg he, ih fun e' h' => h e' (List.mem_cons_of_mem _ h')]

/-- Settling a number the ring does not hold changes nothing. -/
theorem settle_of_absent {j : Journal} {id : ℕ} (h : ¬ j.holds id) (outcome : JournalOutcome)
    (task : Option String) : j.settle id outcome task = j := by
  have hentries : ∀ e ∈ j.entries, e.id ≠ id := fun e he hid => h ⟨e, he, hid⟩
  rw [settle, settleIn_of_absent hentries]

/-- Settling one number leaves every other entry as it is. -/
theorem mem_settle_of_ne {j : Journal} {id : ℕ} {outcome : JournalOutcome} {task : Option String}
    {e : Entry} (he : e.id ≠ id) : e ∈ (j.settle id outcome task).entries ↔ e ∈ j.entries := by
  suffices h : ∀ es : List Entry, e ∈ settleIn id outcome task es ↔ e ∈ es from h j.entries
  intro es
  induction es with
  | nil => exact Iff.rfl
  | cons d es ih =>
      rw [settleIn]
      split
      · rename_i hd
        have hne : e ≠ d := fun h => he (h ▸ hd)
        have hne' : e ≠ settled d outcome task := fun h => he (h ▸ hd)
        simp [hne, hne']
      · simp [ih]

/-! ### A journal that goes on -/

/-- What was attempted, by an entry. -/
def attemptOf (e : Entry) : Attempt :=
  { context := e.context, kind := e.kind, extId := e.extId, name := e.name, action := e.action }

/-- The numbers of the entries are below the next one. -/
def Numbered (j : Journal) : Prop := ∀ e ∈ j.entries, e.id < j.next

/-- A journal that goes on from another: numbers only grow, and an entry under a number the other has
given is of the attempt it has there. -/
structure Extends (j j' : Journal) : Prop where
  next_le : j.next ≤ j'.next
  numbered : j.Numbered → j'.Numbered
  kept : ∀ e' ∈ j'.entries, e'.id < j.next → ∃ e ∈ j.entries, e.id = e'.id ∧ attemptOf e = attemptOf e'

/-- A number was given, and whatever the ring holds under it is of the attempt. -/
def Knows (j : Journal) (id : ℕ) (a : Attempt) : Prop :=
  id < j.next ∧ ∀ e ∈ j.entries, e.id = id → attemptOf e = a

variable {j j' j'' : Journal}

theorem Extends.refl (j : Journal) : Extends j j :=
  ⟨le_rfl, id, fun e he _ => ⟨e, he, rfl, rfl⟩⟩

theorem Extends.trans (h : Extends j j') (h' : Extends j' j'') : Extends j j'' := by
  refine ⟨h.next_le.trans h'.next_le, fun hj => h'.numbered (h.numbered hj), ?_⟩
  intro e'' he'' hid
  have hle := h.next_le
  obtain ⟨e', he', hid', hattempt'⟩ := h'.kept e'' he'' (by omega)
  obtain ⟨e, he, hid'', hattempt⟩ := h.kept e' he' (by omega)
  exact ⟨e, he, hid''.trans hid', hattempt.trans hattempt'⟩

theorem Extends.knows (h : Extends j j') {id : ℕ} {a : Attempt} (hk : j.Knows id a) :
    j'.Knows id a := by
  obtain ⟨hlt, hentries⟩ := hk
  refine ⟨lt_of_lt_of_le hlt h.next_le, ?_⟩
  intro e' he' hid
  obtain ⟨e, he, heid, hattempt⟩ := h.kept e' he' (hid ▸ hlt)
  rw [← hattempt]
  exact hentries e he (heid.trans hid)

theorem mem_entries_record {j : Journal} {a : Attempt} {now : ℕ} {outcome : JournalOutcome}
    {e : Entry} (he : e ∈ (j.record a now outcome).1.entries) :
    e ∈ j.entries ∨ e.id = j.next ∧ attemptOf e = a := by
  unfold record at he
  rcases List.mem_append.1 he with he | he
  · left
    split at he
    · exact List.mem_of_mem_tail he
    · exact he
  · right
    rw [List.mem_singleton] at he
    exact ⟨he ▸ rfl, he ▸ rfl⟩

theorem extends_record (j : Journal) (a : Attempt) (now : ℕ) (outcome : JournalOutcome) :
    Extends j (j.record a now outcome).1 := by
  refine ⟨Nat.le_succ _, ?_, ?_⟩
  · intro hj e he
    rw [next_record]
    rcases mem_entries_record he with he | ⟨hid, -⟩
    · have := hj e he
      omega
    · omega
  · intro e he hid
    rcases mem_entries_record he with he | ⟨hnext, -⟩
    · exact ⟨e, he, rfl, rfl⟩
    · omega

/-- A number just given stands for the attempt it was given to. -/
theorem knows_record (h : j.Numbered) (a : Attempt) (now : ℕ) (outcome : JournalOutcome) :
    (j.record a now outcome).1.Knows j.next a := by
  refine ⟨Nat.lt_succ_self _, ?_⟩
  intro e he hid
  rcases mem_entries_record he with he | ⟨-, hattempt⟩
  · have := h e he
    omega
  · exact hattempt

theorem mem_settleIn {id : ℕ} {outcome : JournalOutcome} {task : Option String} {es : List Entry}
    {e' : Entry} (he' : e' ∈ settleIn id outcome task es) :
    ∃ e ∈ es, e.id = e'.id ∧ attemptOf e = attemptOf e' := by
  induction es with
  | nil => cases he'
  | cons e es ih =>
      rw [settleIn] at he'
      split at he'
      · rcases List.mem_cons.1 he' with rfl | he'
        · exact ⟨e, List.mem_cons_self, rfl, rfl⟩
        · exact ⟨e', List.mem_cons_of_mem _ he', rfl, rfl⟩
      · rcases List.mem_cons.1 he' with rfl | he'
        · exact ⟨e', List.mem_cons_self, rfl, rfl⟩
        · obtain ⟨d, hd, h⟩ := ih he'
          exact ⟨d, List.mem_cons_of_mem _ hd, h⟩

theorem extends_settle (j : Journal) (id : ℕ) (outcome : JournalOutcome) (task : Option String) :
    Extends j (j.settle id outcome task) := by
  refine ⟨le_rfl, ?_, fun e' he' _ => mem_settleIn he'⟩
  intro hj e' he'
  obtain ⟨e, he, hid, -⟩ := mem_settleIn he'
  rw [← hid]
  exact hj e he

end Journal

end Nutsh
