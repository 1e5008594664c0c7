/-
Files that are written whole.

A file of the program is written under a name of its own first, synced, and then moved to where it belongs, so that
what is read there is one of the texts that were to be written, all of it, whatever other programs write, whichever
call fails and whenever the power does.  The directory is synced last, and a write that has returned without an error
is not undone by a crash.

Main definitions:

* `tempName` — the name a file is written under;
* `Write`, `Phase`, `World.call` — a write under way, and its next call of the system;
* `Step`, `Reaches` — the steps of any writes in one directory: they begin, go on, end with their program, and the
  power fails.

Main results:

* `tempName_injective` — two writes write under different names.

What is read of a file is in `Nutsh/Atomic/Whole.lean`, and what a write leaves behind in `Nutsh/Atomic/Tidy.lean`.
-/
import Nutsh.Lib.Disk
import Nutsh.Lib.Digits
import Mathlib.Data.List.Basic
import Mathlib.Logic.Relation

set_option relaxedAutoImplicit false
set_option autoImplicit false

namespace Nutsh.Atomic

/-! ### The writes -/

/-- The name a file is written under: its own, the process and the nanoseconds since the beginning of 1970. -/
def tempName (file : String) (pid nanos : ℕ) : String := s!".{file}.{pid}.{nanos}.tmp"

def IsTemp (name : String) : Prop := ∃ file pid nanos, name = tempName file pid nanos

/-- The call a write is before; a call on an open file holds its number. -/
inductive Phase where
  /-- `create_dir_private`. -/
  | start
  /-- `open` with `create_new`. -/
  | opening
  /-- `write_all`, and `sync_all` when nothing is left to write. -/
  | writing (handle : ℕ) (rest : List UInt8)
  /-- `rename`. -/
  | moving (handle : ℕ)
  /-- `remove_file`, after a call that failed. -/
  | removing
  | syncing
  | returned (ok : Bool)
  /-- An error was returned and the name it was written under could not be removed. -/
  | left
  /-- Its program has ended. -/
  | killed
  deriving DecidableEq

/-- A write: what it writes and where, the call it is before, and once it is renamed, its file and how many renames
came before. -/
structure Write where
  file : String
  text : List UInt8
  pid : ℕ
  nanos : ℕ
  phase : Phase := .start
  placed : Option (ℕ × ℕ) := none

def Write.temp (w : Write) : String := tempName w.file w.pid w.nanos

/-- A directory, its mode if there is one, and the writes of all programs. -/
structure World where
  disk : Disk String UInt8
  dir : Option ℕ
  writes : ℕ → Option Write
  renames : ℕ

/-- How a call of the system ends; one that writes has written some bytes. -/
inductive Outcome where
  | done (bytes : ℕ)
  | failed

namespace World

def put (s : World) (k : ℕ) (w : Write) (disk : Disk String UInt8) : World :=
  { s with disk, writes := Function.update s.writes k (some w) }

/-- The call a write is before is made; `none` where it cannot end so. -/
def call (s : World) (k : ℕ) (o : Outcome) : Option World :=
  match s.writes k with
  | none => none
  | some w =>
      match w.phase with
      | .start =>
          match o with
          | .done _ =>
              let s' := s.put k { w with phase := .opening } s.disk
              -- a directory that is there keeps its mode
              some { s' with dir := some (s.dir.getD 0o700) }
          | .failed => some (s.put k { w with phase := .returned false } s.disk)
      | .opening =>
          match o with
          | .done _ =>
              (s.disk.create w.temp 0o600).map fun made => s.put k { w with phase := .writing made.2 w.text } made.1
          | .failed => some (s.put k { w with phase := .removing } s.disk)
      | .writing i rest =>
          match o with
          | .done n =>
              if rest = [] then some (s.put k { w with phase := .moving i } (s.disk.sync i))
              else if 0 < n ∧ n ≤ rest.length then
                some (s.put k { w with phase := .writing i (rest.drop n) } (s.disk.write i (rest.take n)))
              else none
          | .failed => some (s.put k { w with phase := .removing } s.disk)
      | .moving i =>
          match o with
          | .done _ =>
              (s.disk.move w.temp w.file).map fun disk =>
                let s' := s.put k { w with phase := .syncing, placed := some (i, s.renames) } disk
                { s' with renames := s.renames + 1 }
          | .failed => some (s.put k { w with phase := .removing } s.disk)
      | .removing =>
          match o with
          | .done _ => (s.disk.remove w.temp).map fun disk => s.put k { w with phase := .returned false } disk
          | .failed => some (s.put k { w with phase := .left } s.disk)
      | .syncing =>
          match o with
          | .done _ => some (s.put k { w with phase := .returned true } s.disk.syncNames)
          | .failed => some (s.put k { w with phase := .returned false } s.disk)
      | .returned _ => none
      | .left => none
      | .killed => none

end World

/-- A write whose program has ended, unless it had returned before. -/
def Write.kill (w : Write) : Write :=
  match w.phase with
  | .returned _ => w
  | _ => { w with phase := .killed }

/-- The steps of the writes in a directory.  No two of them write under one name: it has the process and the
nanosecond in it. -/
inductive Step : World → World → Prop
  | begin {s : World} (k : ℕ) (file : String) (text : List UInt8) (pid nanos : ℕ) :
      s.writes k = none → ¬ IsTemp file →
        (∀ j w, s.writes j = some w → (w.file, w.pid, w.nanos) ≠ (file, pid, nanos)) →
          Step s (s.put k { file, text, pid, nanos } s.disk)
  | call {s s' : World} (k : ℕ) (o : Outcome) : s.call k o = some s' → Step s s'
  | kill {s : World} (k : ℕ) (w : Write) : s.writes k = some w → Step s (s.put k w.kill s.disk)
  | crash {s : World} (disk : Disk String UInt8) : Disk.Crash s.disk disk →
      Step s { s with disk, writes := fun k => (s.writes k).map Write.kill }

abbrev Reaches : World → World → Prop := Relation.ReflTransGen Step

/-- Nothing is being written. -/
def start (disk : Disk String UInt8) (dir : Option ℕ) : World := { disk, dir, writes := fun _ => none, renames := 0 }

/-! ### The names of writes -/

/-- Texts with the same last mark are the same before it and behind it. -/
theorem append_cons_inj_last {α : Type} {x y z t : List α} {a : α} (hz : a ∉ z) (ht : a ∉ t)
    (h : x ++ a :: z = y ++ a :: t) : x = y ∧ z = t := by
  obtain ⟨as, rfl, has⟩ | ⟨as, rfl, has⟩ := List.append_eq_append_iff.1 h
  · cases as with
    | nil => simpa using has
    | cons b as =>
        rw [List.cons_append, List.cons.injEq] at has
        exact absurd (has.2 ▸ List.mem_append_right as List.mem_cons_self) hz
  · cases as with
    | nil => simpa [eq_comm] using has
    | cons b as =>
        rw [List.cons_append, List.cons.injEq] at has
        exact absurd (has.2 ▸ List.mem_append_right as List.mem_cons_self) ht

theorem toList_toString (n : ℕ) : (toString n).toList = Nat.toDigits 10 n := by simp [Nat.repr]

theorem toList_tempName (file : String) (pid nanos : ℕ) : (tempName file pid nanos).toList =
    '.' :: ((file.toList ++ '.' :: Nat.toDigits 10 pid) ++ '.' :: Nat.toDigits 10 nanos) ++ ".tmp".toList := by
  change ("." ++ file ++ "." ++ toString pid ++ "." ++ toString nanos ++ ".tmp").toList = _
  have hdot : ".".toList = ['.'] := rfl
  simp only [String.toList_append, toList_toString, hdot, List.append_assoc, List.cons_append, List.nil_append]

theorem dot_not_mem_toDigits (n : ℕ) : '.' ∉ Nat.toDigits 10 n := by
  intro h
  exact absurd (Nat.isDigit_of_mem_toDigits (by decide) (by decide) h) (by decide)

theorem toDigits_inj {n m : ℕ} (h : Nat.toDigits 10 n = Nat.toDigits 10 m) : n = m := by
  rw [← @Nat.ofDigitChars_ten_toDigits n, h, Nat.ofDigitChars_ten_toDigits]

/-- **Two writes write under different names.** -/
theorem tempName_injective {file file' : String} {pid pid' nanos nanos' : ℕ}
    (h : tempName file pid nanos = tempName file' pid' nanos') : file = file' ∧ pid = pid' ∧ nanos = nanos' := by
  have hlist := congrArg String.toList h
  rw [toList_tempName, toList_tempName, List.append_cancel_right_eq, List.cons.injEq] at hlist
  obtain ⟨hfront, hnanos⟩ := append_cons_inj_last (dot_not_mem_toDigits nanos) (dot_not_mem_toDigits nanos') hlist.2
  obtain ⟨hfile, hpid⟩ := append_cons_inj_last (dot_not_mem_toDigits pid) (dot_not_mem_toDigits pid') hfront
  exact ⟨String.toList_inj.1 hfile, toDigits_inj hpid, toDigits_inj hnanos⟩

/-- A name that begins with no dot is of a file that is read. -/
theorem not_isTemp {name : String} (h : name.toList.head? ≠ some '.') : ¬ IsTemp name := by
  rintro ⟨file, pid, nanos, rfl⟩
  rw [toList_tempName] at h
  exact h rfl

theorem isTemp_temp (w : Write) : IsTemp w.temp := ⟨w.file, w.pid, w.nanos, rfl⟩

/-! ### Runs of one write -/

/-- One write goes on, its calls ending one way after the other. -/
def World.calls (s : World) (k : ℕ) (os : List Outcome) : Option World := os.foldlM (fun s o => s.call k o) s

theorem reaches_calls {s s' : World} {k : ℕ} {os : List Outcome} (h : s.calls k os = some s') : Reaches s s' := by
  induction os generalizing s with
  | nil =>
      obtain rfl : s = s' := Option.some.inj h
      exact .refl
  | cons o os ih =>
      rw [World.calls, List.foldlM_cons] at h
      obtain ⟨t, ht, h⟩ := Option.bind_eq_some_iff.1 h
      exact .head (.call k o ht) (ih h)

/-- An empty directory. -/
def bare : Disk String UInt8 := { names := fun _ => none, past := fun _ => [], files := [] }

theorem settled_bare : bare.Settled := ⟨fun _ => rfl, fun n i hi => by cases hi⟩

/-- Two bytes are to be written. -/
def begun : World := (start bare none).put 0 { file := "a", text := [104, 105], pid := 7, nanos := 9 } bare

theorem reaches_begun : Reaches (start bare none) begun :=
  .single (.begin 0 "a" [104, 105] 7 9 rfl (not_isTemp (by decide)) fun j w hw => by cases hw)

/-- The calls of a write none of which fails, the bytes written one by one. -/
def plain : List Outcome := [.done 0, .done 0, .done 1, .done 1, .done 0, .done 0, .done 0]

end Nutsh.Atomic
