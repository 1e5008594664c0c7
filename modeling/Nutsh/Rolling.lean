/-
The log file and the one kept beside it.

A run writes to a log that earlier runs may have left.  The file is opened at the first write and counted, and a
write that would take it over the cap moves it beside and begins a fresh one, in the place of whatever was kept
there.

Main definitions:

* `Files`, `Rolling` — the two files, and a run's handle on them with its count;
* `Rolling.openLog`, `Rolling.roll`, `Rolling.write` — what a write does;
* `Event`, `step` — runs one after the other over the same files;
* `Holds` — what the files hold and how large they are, by what was written.

Main results:

* `Rolling.write_holds` — a write succeeds and keeps `Holds`;
* `exec_holds` — so does every sequence of runs, over any files;
* `rolls` — **the two files end what was written, and neither is larger than the cap and the longest write**.
-/
import Mathlib.Data.List.Infix
import Nutsh.Lib.Run

set_option relaxedAutoImplicit false
set_option autoImplicit false

namespace Nutsh.Log

def CAP : ℕ := 4 * 1024 * 1024

abbrev Bytes := List UInt8

/-- The log file and the rolled one, none where there is no such file. -/
structure Files where
  log : Option Bytes := none
  rolled : Option Bytes := none
  deriving DecidableEq

/-- What the rolled file holds and then what the log does. -/
def Files.bytes (files : Files) : Bytes := files.rolled.getD [] ++ files.log.getD []

/-- A run's handle on the log: whether the file is open, and how many bytes it is counted to hold. -/
structure Rolling where
  files : Files
  file : Bool := false
  written : ℕ := 0
  deriving DecidableEq

namespace Rolling

/-- The handle of a run that has written nothing. -/
def shared (files : Files) : Rolling := { files }

/-- Appends to what is there, or to a new file. -/
def openLog (r : Rolling) : Rolling :=
  let held := r.files.log.getD []
  { files := { r.files with log := some held }, file := true, written := held.length }

/-- The log becomes the rolled file and a fresh one begins; there is no log to rename before it was opened. -/
def roll (r : Rolling) : Option Rolling :=
  r.files.log.map fun held => { r with files := { log := none, rolled := some held }, file := false }.openLog

/-- A write of which the system takes some bytes, all of them as a rule. -/
def write (r : Rolling) (buf : Bytes) (taken : ℕ) : Option Rolling := do
  let r := if r.file then r else r.openLog
  let r ← if CAP < r.written + buf.length then r.roll else some r
  let held ← r.files.log
  let piece := buf.take taken
  some { r with files := { r.files with log := some (held ++ piece) }, written := r.written + piece.length }

end Rolling

/-! ### Runs over the same files -/

inductive Event where
  /-- A run of the program begins, over what the last one left. -/
  | start
  | write (buf : Bytes) (taken : ℕ)

def step (r : Rolling) : Event → Option Rolling
  | .start => some (.shared r.files)
  | .write buf taken => r.write buf taken

/-- What an event writes. -/
def Event.piece : Event → Option Bytes
  | .start => none
  | .write buf taken => some (buf.take taken)

/-- Every single write. -/
def pieces (events : List Event) : List Bytes := events.filterMap Event.piece

def longest (past : List Bytes) : ℕ := (past.map List.length).foldr max 0

/-! ### What the files hold -/

/-- How large a file may be that was written to over the first ones. -/
def bound (first : Files) (past : List Bytes) : ℕ :=
  max (max CAP (longest past)) (max (first.log.getD []).length (first.rolled.getD []).length)

/-- The files end what they held at first and what was written since, neither is too large, and the count of an
open log is right. -/
structure Holds (first : Files) (past : List Bytes) (r : Rolling) : Prop where
  bytes : r.files.bytes <:+ first.bytes ++ past.flatten
  log_le : (r.files.log.getD []).length ≤ bound first past
  rolled_le : (r.files.rolled.getD []).length ≤ bound first past
  counted : r.file = true → ∃ held, r.files.log = some held ∧ r.written = held.length

theorem pieces_start (events : List Event) : pieces (events ++ [.start]) = pieces events := by
  rw [pieces, List.filterMap_append]
  exact List.append_nil _

theorem pieces_write (events : List Event) (buf : Bytes) (taken : ℕ) :
    pieces (events ++ [.write buf taken]) = pieces events ++ [buf.take taken] := by
  rw [pieces, List.filterMap_append]
  rfl

/-- Over no files the cap and the longest write are all that counts. -/
theorem bound_none (past : List Bytes) : bound {} past = max CAP (longest past) := Nat.max_zero _

section
variable {first : Files} {past : List Bytes} {r : Rolling}

theorem holds_shared (files : Files) : Holds files [] (.shared files) where
  bytes := by simp [Rolling.shared]
  log_le := Nat.le_trans (Nat.le_max_left _ _) (Nat.le_max_right _ _)
  rolled_le := Nat.le_trans (Nat.le_max_right _ _) (Nat.le_max_right _ _)
  counted := fun hfile => absurd hfile Bool.false_ne_true

/-- A run that begins finds the files as they are. -/
theorem Holds.start (h : Holds first past r) : Holds first past (.shared r.files) :=
  { h with counted := fun hfile => absurd hfile Bool.false_ne_true }

/-- Opening the log changes nothing that it holds. -/
theorem Holds.openLog (h : Holds first past r) : Holds first past r.openLog where
  bytes := h.bytes
  log_le := h.log_le
  rolled_le := h.rolled_le
  counted := fun _ => ⟨_, rfl, rfl⟩

theorem longest_append (past : List Bytes) (piece : Bytes) :
    longest (past ++ [piece]) = max (longest past) piece.length := by
  induction past with
  | nil => simp [longest]
  | cons p past ih =>
      have hcons : ∀ past, longest (p :: past) = max p.length (longest past) := fun _ => rfl
      rw [List.cons_append, hcons, hcons, ih, Nat.max_assoc]

theorem bound_le_append (first : Files) (past : List Bytes) (piece : Bytes) :
    bound first past ≤ bound first (past ++ [piece]) := by
  simp only [bound, longest_append]
  omega

theorem length_le_bound (first : Files) (past : List Bytes) (piece : Bytes) :
    piece.length ≤ bound first (past ++ [piece]) := by
  simp only [bound, longest_append]
  omega

/-- A piece appended to the log, when the log with it is small enough. -/
theorem Holds.append {held piece : Bytes} (h : Holds first past r) (hlog : r.files.log = some held)
    (hcount : r.written = held.length) (hle : (held ++ piece).length ≤ bound first (past ++ [piece])) :
    Holds first (past ++ [piece])
      { r with files := { r.files with log := some (held ++ piece) }, written := r.written + piece.length } where
  bytes := by
    have hbytes := h.bytes
    rw [Files.bytes, hlog] at hbytes
    obtain ⟨lost, hlost⟩ := hbytes
    refine ⟨lost, ?_⟩
    rw [List.flatten_append, List.flatten_singleton, ← List.append_assoc, ← hlost]
    simp [Files.bytes]
  log_le := hle
  rolled_le := Nat.le_trans h.rolled_le (bound_le_append first past piece)
  counted := fun _ => ⟨_, rfl, by simp [hcount]⟩

/-- A log that is moved beside is all that is kept of what was written. -/
theorem Holds.roll {held : Bytes} (h : Holds first past r) (hlog : r.files.log = some held) :
    ∃ s, r.roll = some s ∧ s.files = { log := some [], rolled := some held } ∧ s.written = 0 ∧
      Holds first past s := by
  have hbytes := h.bytes
  have hle := h.log_le
  rw [Files.bytes, hlog] at hbytes
  rw [hlog] at hle
  refine ⟨_, by rw [Rolling.roll, hlog]; rfl, rfl, rfl, ?_⟩
  refine Holds.openLog ⟨?_, Nat.zero_le _, hle, fun hfile => absurd hfile Bool.false_ne_true⟩
  exact List.IsSuffix.trans (by simp [Files.bytes]) ((List.suffix_append _ _).trans hbytes)

/-- **A write succeeds, and the files end with it.** -/
theorem Rolling.write_holds (h : Holds first past r) (buf : Bytes) (taken : ℕ) :
    ∃ s, r.write buf taken = some s ∧ Holds first (past ++ [buf.take taken]) s ∧
      buf.take taken <:+ s.files.bytes := by
  -- the file is open from here on
  obtain ⟨o, ho, hopen, hheld⟩ : ∃ o, (if r.file then r else r.openLog) = o ∧ Holds first past o ∧
      ∃ held, o.files.log = some held ∧ o.written = held.length := by
    cases hfile : r.file with
    | true => exact ⟨r, rfl, h, h.counted hfile⟩
    | false => exact ⟨r.openLog, rfl, h.openLog, _, rfl, rfl⟩
  obtain ⟨held, hlog, hcount⟩ := hheld
  have htaken : (buf.take taken).length ≤ buf.length := List.length_take_le' taken buf
  have hends : ∀ (rolled : Option Bytes) (kept : Bytes),
      buf.take taken <:+ Files.bytes { log := some (kept ++ buf.take taken), rolled } := by
    intro rolled kept
    exact ⟨rolled.getD [] ++ kept, by simp [Files.bytes]⟩
  by_cases hcap : CAP < o.written + buf.length
  · obtain ⟨s, hroll, hfiles, hwritten, hs⟩ := hopen.roll hlog
    have hlog' : s.files.log = some [] := by rw [hfiles]
    have happend := hs.append hlog' hwritten
      (length_le_bound first past (buf.take taken))
    refine ⟨_, ?_, happend, hends s.files.rolled []⟩
    simp only [Rolling.write, ho, if_pos hcap, hroll, hlog', Option.bind_eq_bind, Option.bind_some]
  · refine ⟨_, by simp only [Rolling.write, ho, if_neg hcap, hlog, Option.bind_eq_bind, Option.bind_some],
      hopen.append hlog hcount ?_, hends _ held⟩
    have : CAP ≤ bound first (past ++ [buf.take taken]) := by
      simp only [bound]
      omega
    rw [List.length_append]
    omega

end

/-- Every sequence of runs succeeds, whatever files it begins with. -/
theorem exec_holds (first : Files) (events : List Event) :
    ∃ s, Run.exec step (.shared first) events = some s ∧ Holds first (pieces events) s := by
  induction events using List.reverseRecOn with
  | nil => exact ⟨_, rfl, holds_shared first⟩
  | append_singleton events event ih =>
      obtain ⟨r, hrun, hr⟩ := ih
      cases event with
      | start =>
          refine ⟨_, Run.exec_append_eq_some.2 ⟨r, hrun, rfl⟩, ?_⟩
          rw [pieces_start]
          exact hr.start
      | write buf taken =>
          obtain ⟨s, hwrite, hs, -⟩ := Rolling.write_holds hr buf taken
          refine ⟨s, Run.exec_append_eq_some.2 ⟨r, hrun, by simp [Run.exec_cons, step, hwrite]⟩, ?_⟩
          rw [pieces_write]
          exact hs

/-- **The two files end what was written.**  After every write of every sequence of runs the rolled file and the
log are the end of everything that was written, the last write is at their end, and neither is larger than the
cap and the longest single write. -/
theorem rolls (events : List Event) (buf : Bytes) (taken : ℕ) :
    ∃ s, Run.exec step (.shared {}) (events ++ [.write buf taken]) = some s ∧
      s.files.rolled.getD [] ++ s.files.log.getD [] <:+ (pieces (events ++ [.write buf taken])).flatten ∧
      buf.take taken <:+ s.files.rolled.getD [] ++ s.files.log.getD [] ∧
      (s.files.rolled.getD []).length ≤ max CAP (longest (pieces (events ++ [.write buf taken]))) ∧
      (s.files.log.getD []).length ≤ max CAP (longest (pieces (events ++ [.write buf taken]))) := by
  obtain ⟨r, hrun, hr⟩ := exec_holds {} events
  obtain ⟨s, hwrite, hs, hends⟩ := Rolling.write_holds hr buf taken
  rw [pieces_write, ← bound_none]
  exact ⟨s, Run.exec_append_eq_some.2 ⟨r, hrun, by simp [Run.exec_cons, step, hwrite]⟩, hs.bytes, hends,
    hs.rolled_le, hs.log_le⟩

end Nutsh.Log
