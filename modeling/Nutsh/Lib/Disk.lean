/-
A directory of files, and what a crash leaves of it.

A name stands for a file or for none.  A file is made under a free name, written piece by piece, synced, moved to
another name, and its name removed.  What is written is on the disk once the file is synced, and what the names stand
for once the directory is: after a crash a name stands for any of the files it has stood for since the directory was
last synced, and the text of a file that was not synced is anything.

Main definitions:

* `Disk`, `Disk.create`, `Disk.write`, `Disk.sync`, `Disk.move`, `Disk.remove`, `Disk.syncNames`, `Disk.read` — a
  directory, and what is done to it;
* `Disk.Held` — a name stands for a file, or might after a crash;
* `Disk.Crash` — what a crash leaves;
* `Disk.Kept` — the files some names stand for, or might, are synced and as they are to be.

Main results:

* `held_set`, `held_crash` — for what a name stands once one of the names has changed, and after a crash;
* `Kept.set`, `Kept.modify`, `Kept.append`, `Kept.syncNames`, `Kept.crash` — what keeps the files as they are to be.
-/
import Mathlib.Data.List.Basic
import Mathlib.Logic.Function.Basic

set_option relaxedAutoImplicit false
set_option autoImplicit false

/-- A file: what is read of it, who may read it, and whether the disk has all of it. -/
structure Disk.File (α : Type) where
  text : List α
  mode : ℕ
  synced : Bool
  deriving DecidableEq

/-- A directory.  The files are numbered; `past` are the files a name stood for since the directory was synced. -/
structure Disk (N α : Type) where
  names : N → Option ℕ
  past : N → List (Option ℕ)
  files : List (Disk.File α)

namespace Disk

variable {N α : Type} [DecidableEq N]

/-! ### What is done to a directory -/

/-- A name stands for another file from now on, or for none. -/
def set (d : Disk N α) (n : N) (v : Option ℕ) : Disk N α :=
  { d with names := Function.update d.names n v, past := Function.update d.past n (d.names n :: d.past n) }

/-- An empty file under a name that is free. -/
def create (d : Disk N α) (n : N) (mode : ℕ) : Option (Disk N α × ℕ) :=
  match d.names n with
  | some _ => none
  | none =>
      let d' := d.set n (some d.files.length)
      some ({ d' with files := d.files ++ [{ text := [], mode, synced := false }] }, d.files.length)

def modify (d : Disk N α) (i : ℕ) (g : File α → File α) : Disk N α := { d with files := d.files.modify i g }

/-- More text at the end of a file. -/
def write (d : Disk N α) (i : ℕ) (cs : List α) : Disk N α :=
  d.modify i fun f => { f with text := f.text ++ cs, synced := false }

def sync (d : Disk N α) (i : ℕ) : Disk N α := d.modify i fun f => { f with synced := true }

/-- The file of one name is that of another from now on, whatever stood there. -/
def move (d : Disk N α) (a b : N) : Option (Disk N α) := (d.names a).map fun i => (d.set a none).set b (some i)

def remove (d : Disk N α) (n : N) : Option (Disk N α) := (d.names n).map fun _ => d.set n none

/-- What the names stand for is on the disk. -/
def syncNames (d : Disk N α) : Disk N α := { d with past := fun _ => [] }

/-- The file of a name. -/
def read (d : Disk N α) (n : N) : Option (File α) := (d.names n).bind fun i => d.files[i]?

/-- A name stands for a file, or might after a crash. -/
def Held (d : Disk N α) (n : N) (i : ℕ) : Prop := some i ∈ d.names n :: d.past n

/-- What a crash leaves: of a file that was synced all, of another some text, and every name for one of the files it
stood for since the directory was synced. -/
structure Crash (d d' : Disk N α) : Prop where
  names : ∀ n, d'.names n ∈ d.names n :: d.past n
  past : ∀ n, d'.past n = []
  length : d'.files.length = d.files.length
  files : ∀ (i : ℕ) (f : File α), d.files[i]? = some f → f.synced = true → d'.files[i]? = some f

/-- A directory as the disk has it: every file of a name is synced, and so are the names. -/
structure Settled (d : Disk N α) : Prop where
  past : ∀ n, d.past n = []
  synced : ∀ n i, d.names n = some i → ∃ f, d.files[i]? = some f ∧ f.synced = true

variable {d d' : Disk N α} {n m : N} {i j : ℕ} {v : Option ℕ} {g : File α → File α}

/-! ### For what the names stand -/

omit [DecidableEq N] in
theorem Settled.held (hd : d.Settled) (h : d.Held n i) : d.names n = some i := by
  rw [Held, hd.past, List.mem_singleton] at h
  exact h.symm

omit [DecidableEq N] in
theorem held_of_names (h : d.names n = some i) : d.Held n i := by
  rw [Held, h]
  exact List.mem_cons_self

@[simp] theorem names_set_self : (d.set n v).names n = v := Function.update_self ..

theorem names_set_of_ne (h : m ≠ n) : (d.set n v).names m = d.names m := Function.update_of_ne h ..

@[simp] theorem files_set : (d.set n v).files = d.files := rfl

theorem held_set_self : (d.set n v).Held n i ↔ v = some i ∨ d.Held n i := by
  simp [Held, set, eq_comm]

theorem held_set_of_ne (h : m ≠ n) : (d.set n v).Held m i ↔ d.Held m i := by
  simp [Held, set, Function.update_of_ne h]

/-- A name that is set stands for what it is set to, or might for what it stood for. -/
theorem held_set : (d.set n v).Held m i ↔ m = n ∧ v = some i ∨ d.Held m i := by
  by_cases h : m = n
  · subst h
    rw [held_set_self]
    simp
  · rw [held_set_of_ne h]
    simp [h]

omit [DecidableEq N] in
@[simp] theorem names_modify : (d.modify i g).names = d.names := rfl

omit [DecidableEq N] in
theorem held_modify : (d.modify i g).Held n j ↔ d.Held n j := Iff.rfl

omit [DecidableEq N] in
theorem held_syncNames : d.syncNames.Held n i ↔ d.names n = some i := by
  simp [Held, syncNames, eq_comm]

omit [DecidableEq N] in
/-- What a name stands for after a crash is what it might. -/
theorem Crash.held (h : Crash d d') (hi : d'.Held n i) : d.Held n i := by
  rw [Held, h.past, List.mem_singleton] at hi
  rw [Held, hi]
  exact h.names n

omit [DecidableEq N] in
theorem getElem?_modify_self {f : File α} (h : d.files[i]? = some f) : (d.modify i g).files[i]? = some (g f) := by
  change (d.files.modify i g)[i]? = some (g f)
  rw [List.getElem?_modify_eq, h]
  rfl

omit [DecidableEq N] in
theorem getElem?_modify_of_ne (h : i ≠ j) : (d.modify i g).files[j]? = d.files[j]? := by
  change (d.files.modify i g)[j]? = d.files[j]?
  exact List.getElem?_modify_ne g d.files h

/-! ### Files as they are to be -/

/-- The files some names stand for, or might after a crash, are synced and as they are to be. -/
def Kept (S : N → Prop) (P : N → ℕ → File α → Prop) (d : Disk N α) : Prop :=
  ∀ n, S n → ∀ i, d.Held n i → ∃ f, d.files[i]? = some f ∧ f.synced = true ∧ P n i f

variable {S : N → Prop} {P Q : N → ℕ → File α → Prop}

omit [DecidableEq N] in
theorem Kept.imp (h : d.Kept S P) (himp : ∀ n i f, P n i f → Q n i f) : d.Kept S Q := by
  intro n hn i hi
  obtain ⟨f, hf, hs, hp⟩ := h n hn i hi
  exact ⟨f, hf, hs, himp n i f hp⟩

theorem Kept.set (h : d.Kept S P)
    (hv : S n → ∀ i, v = some i → ∃ f, d.files[i]? = some f ∧ f.synced = true ∧ P n i f) : (d.set n v).Kept S P := by
  intro m hm i hi
  rw [held_set] at hi
  obtain ⟨rfl, hi⟩ | hi := hi
  · exact hv hm i hi
  · exact h m hm i hi

omit [DecidableEq N] in
/-- A file none of the names might stand for is changed. -/
theorem Kept.modify (h : d.Kept S P) (hi : ∀ n, S n → ¬ d.Held n i) : (d.modify i g).Kept S P := by
  intro n hn j hj
  obtain ⟨f, hf, hs, hp⟩ := h n hn j hj
  have hne : i ≠ j := by
    intro heq
    exact hi n hn (heq ▸ hj)
  exact ⟨f, by rw [getElem?_modify_of_ne hne, hf], hs, hp⟩

omit [DecidableEq N] in
theorem Kept.append (h : d.Kept S P) (fs : List (File α)) :
    Kept S P { d with files := d.files ++ fs } := by
  intro n hn i hi
  obtain ⟨f, hf, hs, hp⟩ := h n hn i hi
  refine ⟨f, ?_, hs, hp⟩
  obtain ⟨hlt, hget⟩ := List.getElem?_eq_some_iff.1 hf
  rw [List.getElem?_append_left hlt, hf]

omit [DecidableEq N] in
theorem Kept.syncNames (h : d.Kept S P) : d.syncNames.Kept S P := by
  intro n hn i hi
  exact h n hn i (held_of_names (held_syncNames.1 hi))

omit [DecidableEq N] in
theorem Kept.crash (h : d.Kept S P) (hc : Crash d d') : d'.Kept S P := by
  intro n hn i hi
  obtain ⟨f, hf, hs, hp⟩ := h n hn i (hc.held hi)
  exact ⟨f, hc.files i f hf hs, hs, hp⟩

end Disk
