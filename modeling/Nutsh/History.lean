/-
The lines typed at the palette, kept between runs.

A program reads the lines of its context when it starts, newest last, and writes all of them each time one is
accepted.  Several programs may share the file, none waits for another, a write may fail at any call and the power
at any time: the lines of a program and the lines the next one reads are always distinct, few and short, and none of
them has the shape of a key.

Main definitions:

* `History`, `load`, `History.push`, `count` — the lines, how they are read, added to and counted;
* `Step`, `Reaches` — programs that share the file of a context;
* `Good` — lines as they are to be.

Main results:

* `good_push` — an accepted line keeps the lines as they are to be, and is the last of them;
* `good_of_reaches` — the lines of every program, and those that are read next;
* `load_of_returned` — what is read once a write has returned.
-/
import Nutsh.Atomic.Whole
import Nutsh.Cache.Scrub
import Nutsh.Lib.Text
import Mathlib.Data.List.Nodup

set_option relaxedAutoImplicit false
set_option autoImplicit false

namespace Nutsh

/-! ### The lines -/

/-- The lines of a context, newest last. -/
structure History where
  /-- Where to write; none for a session-only history. -/
  path : Option String := none
  entries : List String := []

namespace History

def FORMAT : ℕ := 1

def MAX_ENTRIES : ℕ := 100

/-- The bytes of the longest line that is kept. -/
def MAX_LINE : ℕ := 120

def FILE : String := "history.json"

/-- What is in the file: newest last. -/
structure Stored where
  version : ℕ
  entries : List String

/-- How the file is written as JSON, and read. -/
structure Serde where
  toText : Stored → Option String
  fromText : String → Option Stored

/-- The bytes of a text. -/
def bytes (s : String) : List UInt8 := s.toByteArray.data.toList

/-- The text of some bytes. -/
def readText (bs : List UInt8) : Option String := String.fromUTF8? ⟨bs.toArray⟩

section

variable (S : Serde)

/-- The history in a directory, or a session-only one when there is none. -/
def load (dir : Option (Disk String UInt8)) : History :=
  match dir with
  | none => {}
  | some disk =>
      match (disk.read FILE).bind fun f => readText f.text with
      | none => { path := some FILE }
      | some text =>
          match S.fromText text with
          | some file => if file.version = FORMAT then { path := some FILE, entries := file.entries } else {}
          | none => {}

/-- How many lines a directory holds, if it holds any that are read. -/
def count (disk : Disk String UInt8) : Option ℕ := do
  let file ← S.fromText (← readText (← disk.read FILE).text)
  if file.version = FORMAT then some file.entries.length else none

/-- Never an empty line, never one long enough to be a paste, and never anything shaped like key material. -/
def worthKeeping (line : String) : Bool :=
  line != "" && decide (line.utf8ByteSize ≤ MAX_LINE) && !Cache.isKeyMaterial line

/-- The lines after an accepted one: a repeat moves to the end, and the oldest go. -/
def push (h : History) (line : String) : History :=
  if worthKeeping (Text.trim line) then
    let entries := h.entries.filter (· ≠ Text.trim line) ++ [Text.trim line]
    { h with entries := entries.drop (entries.length - MAX_ENTRIES) }
  else h

/-- What is written for an accepted line, and where. -/
def written (h : History) (line : String) : Option (String × String) :=
  if worthKeeping (Text.trim line) then do
    let path ← h.path
    let text ← S.toText { version := FORMAT, entries := (h.push line).entries }
    return (path, text)
  else none

end

theorem readText_bytes (s : String) : readText (bytes s) = some s := dif_pos s.isValidUTF8

/-- What is counted is what is read. -/
theorem length_of_count {S : Serde} {disk : Disk String UInt8} {n : ℕ} (h : count S disk = some n) :
    (load S (some disk)).entries.length = n := by
  obtain ⟨f, hf, h⟩ := Option.bind_eq_some_iff.1 h
  obtain ⟨text, htext, h⟩ := Option.bind_eq_some_iff.1 h
  obtain ⟨file, hfile, h⟩ := Option.bind_eq_some_iff.1 h
  split at h
  · rename_i hversion
    simp only [load, hf, Option.bind_some, htext, hfile, if_pos hversion]
    exact Option.some.inj h
  · cases h

/-! ### Lines as they are to be -/

/-- Distinct lines, not many, each worth keeping. -/
structure Good (entries : List String) : Prop where
  nodup : entries.Nodup
  length : entries.length ≤ MAX_ENTRIES
  worth : ∀ e ∈ entries, worthKeeping e = true

theorem good_nil : Good [] := ⟨List.nodup_nil, Nat.zero_le _, fun e he => by cases he⟩

/-- **An accepted line** keeps the lines as they are to be, and is the last of them. -/
theorem good_push {h : History} (hgood : Good h.entries) (line : String) :
    Good (h.push line).entries ∧ (worthKeeping (Text.trim line) = true →
      (h.push line).entries.getLast? = some (Text.trim line)) := by
  rw [History.push]
  by_cases hworth : worthKeeping (Text.trim line) = true
  · rw [if_pos hworth]
    generalize hline : Text.trim line = l at hworth
    have hnodup : (h.entries.filter (· ≠ l) ++ [l]).Nodup := by
      rw [List.nodup_append]
      refine ⟨hgood.nodup.filter _, List.nodup_singleton l, ?_⟩
      intro a ha b hb
      rw [List.mem_singleton] at hb
      subst hb
      simpa using (List.mem_filter.1 ha).2
    have hlength : (h.entries.filter (· ≠ l) ++ [l]).length ≤ MAX_ENTRIES + 1 := by
      have hle := List.length_filter_le (· ≠ l) h.entries
      have := hgood.length
      rw [List.length_append, List.length_singleton]
      omega
    refine ⟨⟨hnodup.sublist (List.drop_sublist _ _), ?_, ?_⟩, fun _ => ?_⟩
    · rw [List.length_drop]
      omega
    · intro e he
      rcases List.mem_append.1 (List.mem_of_mem_drop he) with he | he
      · exact hgood.worth e (List.mem_filter.1 he).1
      · rw [List.mem_singleton.1 he]
        exact hworth
    · dsimp only
      rw [List.getLast?_drop, if_neg, List.getLast?_concat]
      have : MAX_ENTRIES = 100 := rfl
      rw [List.length_append, List.length_singleton]
      omega
  · rw [if_neg hworth]
    exact ⟨hgood, fun h => absurd h hworth⟩

/-! ### Programs that share the file -/

/-- A directory with the writes to it, and the lines of the programs. -/
structure State where
  world : Atomic.World
  programs : ℕ → Option History

def State.put (s : State) (p : ℕ) (h : Option History) : State :=
  { s with programs := Function.update s.programs p h }

/-- The steps of programs that share a context. -/
inductive Step (S : Serde) : State → State → Prop
  /-- A program starts, with a cache or without. -/
  | load {s : State} (p : ℕ) (cache : Bool) : s.programs p = none →
      Step S s (s.put p (some (load S (if cache then some s.world.disk else none))))
  /-- A line is accepted that is not written. -/
  | push {s : State} (p : ℕ) (h : History) (line : String) : s.programs p = some h → h.written S line = none →
      Step S s (s.put p (some (h.push line)))
  /-- A line is accepted and begins to be written. -/
  | write {s : State} (p : ℕ) (h : History) (line path text : String) (k pid nanos : ℕ) :
      s.programs p = some h → h.written S line = some (path, text) → s.world.writes k = none →
        (∀ j w, s.world.writes j = some w → (w.file, w.pid, w.nanos) ≠ (path, pid, nanos)) →
          Step S s { s.put p (some (h.push line)) with
            world := s.world.put k { file := path, text := bytes text, pid, nanos } s.world.disk }
  /-- A write goes on. -/
  | call {s : State} {world : Atomic.World} (k : ℕ) (o : Atomic.Outcome) : s.world.call k o = some world →
      Step S s { s with world }
  /-- A program ends, with what it was writing or before. -/
  | exit {s : State} (p : ℕ) : Step S s (s.put p none)
  | kill {s : State} (k : ℕ) (w : Atomic.Write) : s.world.writes k = some w →
      Step S s { s with world := s.world.put k w.kill s.world.disk }
  | crash {s : State} (disk : Disk String UInt8) : Disk.Crash s.world.disk disk →
      Step S s
        { world := { s.world with disk, writes := fun k => (s.world.writes k).map Atomic.Write.kill }
          programs := fun _ => none }

abbrev Reaches (S : Serde) : State → State → Prop := Relation.ReflTransGen (Step S)

/-- No program runs. -/
def start (disk : Disk String UInt8) (dir : Option ℕ) : State :=
  { world := Atomic.start disk dir, programs := fun _ => none }

variable {S : Serde} {s s' : State} {d₀ : Disk String UInt8} {dir : Option ℕ}

theorem not_isTemp_file : ¬ Atomic.IsTemp FILE := Atomic.not_isTemp (by decide)

theorem path_load (dir : Option (Disk String UInt8)) : ∀ path ∈ (load S dir).path, path = FILE := by
  intro path hpath
  cases dir with
  | none => cases hpath
  | some disk =>
      rw [load] at hpath
      split at hpath
      · exact (Option.some.inj hpath).symm
      · split at hpath
        · split at hpath
          · exact (Option.some.inj hpath).symm
          · cases hpath
        · cases hpath

/-- What the programs have and what they write. -/
structure Safe (S : Serde) (s : State) : Prop where
  programs : ∀ p h, s.programs p = some h → Good h.entries ∧ ∀ path ∈ h.path, path = FILE
  writes : ∀ k w, s.world.writes k = some w →
    ∃ es text, Good es ∧ S.toText { version := FORMAT, entries := es } = some text ∧ w.file = FILE ∧ w.text = bytes text

/-- What is read is as it is to be, if it was so at the beginning and all that is written is. -/
theorem good_load (hserde : ∀ file text, S.toText file = some text → S.fromText text = some file) (hd : d₀.Settled)
    (hfirst : Good (load S (some d₀)).entries) (hreach : Atomic.Reaches (Atomic.start d₀ dir) s.world)
    (hsafe : Safe S s) : Good (load S (some s.world.disk)).entries := by
  cases hread : s.world.disk.read FILE with
  | none =>
      rw [load, hread]
      exact good_nil
  | some f =>
      obtain hbefore | ⟨k, w, hw, -, rfl⟩ := Atomic.read_of_reaches hd hreach not_isTemp_file hread
      · rw [load, hread]
        rwa [load, hbefore] at hfirst
      · obtain ⟨es, text, hes, htext, -, hbytes⟩ := hsafe.writes k w hw
        have hstored := hserde _ _ htext
        have hgot : readText w.output.text = some text := by
          rw [Atomic.Write.output, hbytes, readText_bytes]
        rw [load, hread]
        simp only [Option.bind_some, hgot, hstored, if_pos]
        exact hes

/-- What a step does to the directory is a step of its writes. -/
theorem Step.world (hsafe : Safe S s) (h : Step S s s') : s'.world = s.world ∨ Atomic.Step s.world s'.world := by
  cases h with
  | load p cache hp => exact .inl rfl
  | push p h line hp hwritten => exact .inl rfl
  | write p h line path text k pid nanos hp hwritten hk hfresh =>
      have hpath : path = FILE := by
        rw [written] at hwritten
        split at hwritten
        · obtain ⟨q, hq, hwritten⟩ := Option.bind_eq_some_iff.1 hwritten
          obtain ⟨t, -, hwritten⟩ := Option.bind_eq_some_iff.1 hwritten
          obtain ⟨rfl, -⟩ := Prod.mk.inj (Option.some.inj hwritten)
          exact (hsafe.programs p h hp).2 q hq
        · cases hwritten
      exact .inr (.begin k path (bytes text) pid nanos hk (hpath ▸ not_isTemp_file) hfresh)
  | call k o hcall => exact .inr (.call k o hcall)
  | exit p => exact .inl rfl
  | kill k w hk => exact .inr (.kill k w hk)
  | crash disk hc => exact .inr (.crash disk hc)

/-- A program that has other lines from now on, as they are to be. -/
theorem Safe.put (hsafe : Safe S s) (p : ℕ) {h : Option History}
    (hgood : ∀ h' ∈ h, Good h'.entries ∧ ∀ path ∈ h'.path, path = FILE) : Safe S (s.put p h) := by
  refine ⟨fun q h' hq => ?_, hsafe.writes⟩
  change Function.update s.programs p h q = some h' at hq
  by_cases hqp : q = p
  · subst hqp
    rw [Function.update_self] at hq
    exact hgood h' hq
  · rw [Function.update_of_ne hqp] at hq
    exact hsafe.programs q h' hq

theorem path_push (h : History) (line : String) : (h.push line).path = h.path := by
  rw [push]
  split <;> rfl

theorem Safe.push (hsafe : Safe S s) {p : ℕ} {h : History} (hp : s.programs p = some h) (line : String) :
    Safe S (s.put p (some (h.push line))) := by
  obtain ⟨hgood, hpath⟩ := hsafe.programs p h hp
  refine hsafe.put p fun h' hh' => ?_
  obtain rfl := Option.some.inj hh'
  exact ⟨(good_push hgood line).1, by rwa [path_push]⟩

/-- Another step of the programs. -/
theorem Safe.step (hsafe : Safe S s) (hload : Good (load S (some s.world.disk)).entries) (h : Step S s s') :
    Safe S s' := by
  cases h with
  | load p cache hp =>
      refine hsafe.put p fun h' hh' => ?_
      obtain rfl := Option.some.inj hh'
      refine ⟨?_, path_load _⟩
      cases cache with
      | false => exact good_nil
      | true => exact hload
  | push p h line hp hwritten => exact hsafe.push hp line
  | write p h line path text k pid nanos hp hwritten hk hfresh =>
      have hpush := hsafe.push hp line
      refine ⟨hpush.programs, fun j w hw => ?_⟩
      obtain ⟨rfl, rfl⟩ | ⟨-, hw⟩ := Atomic.writes_put.1 hw
      · rw [written] at hwritten
        split at hwritten
        · obtain ⟨q, hq, hwritten⟩ := Option.bind_eq_some_iff.1 hwritten
          obtain ⟨t, ht, hwritten⟩ := Option.bind_eq_some_iff.1 hwritten
          obtain ⟨rfl, rfl⟩ := Prod.mk.inj (Option.some.inj hwritten)
          have hgood := (hpush.programs p (h.push line) (Function.update_self ..)).1
          exact ⟨_, t, hgood, ht, (hsafe.programs p h hp).2 q hq, rfl⟩
        · cases hwritten
      · exact hsafe.writes j w hw
  | call k o hcall =>
      refine ⟨hsafe.programs, fun j w hw => ?_⟩
      obtain ⟨v, hv, hcall⟩ := Atomic.call_cases hcall
      obtain ⟨v', hwrites, hfile, htext⟩ := hcall.writes
      rw [hwrites] at hw
      by_cases hj : j = k
      · subst hj
        rw [Function.update_self, Option.some.injEq] at hw
        subst hw
        rw [hfile, htext]
        exact hsafe.writes j v hv
      · rw [Function.update_of_ne hj] at hw
        exact hsafe.writes j w hw
  | exit p => exact hsafe.put p fun h' hh' => by cases hh'
  | kill k w hk =>
      refine ⟨hsafe.programs, fun j v hv => ?_⟩
      obtain ⟨rfl, rfl⟩ | ⟨-, hv⟩ := Atomic.writes_put.1 hv
      · rw [Atomic.kill_file, Atomic.kill_text]
        exact hsafe.writes j w hk
      · exact hsafe.writes j v hv
  | crash disk hc =>
      refine ⟨(fun p h hp => by cases hp), fun j v hv => ?_⟩
      obtain ⟨u, hu, rfl⟩ := Option.map_eq_some_iff.1 hv
      rw [Atomic.kill_file, Atomic.kill_text]
      exact hsafe.writes j u hu

/-- What a run of the programs keeps, and what it is of the directory. -/
theorem safe_of_reaches (hserde : ∀ file text, S.toText file = some text → S.fromText text = some file)
    (hd : d₀.Settled) (hfirst : Good (load S (some d₀)).entries) (h : Reaches S (start d₀ dir) s) :
    Safe S s ∧ Atomic.Reaches (Atomic.start d₀ dir) s.world := by
  induction h with
  | refl => exact ⟨⟨(fun p h hp => by cases hp), fun k w hk => by cases hk⟩, .refl⟩
  | tail _ hstep ih =>
      obtain ⟨hsafe, hreach⟩ := ih
      refine ⟨hsafe.step (good_load hserde hd hfirst hreach hsafe) hstep, ?_⟩
      obtain hsame | hworld := hstep.world hsafe
      · rwa [hsame]
      · exact hreach.tail hworld

/-- A file of one line. -/
def oneLineText : String := "\x7b\"version\":1,\"entries\":[\"vm\"]\x7d"

/-- JSON that has this one file. -/
def oneLine : Serde where
  toText file := if file.version = 1 ∧ file.entries = ["vm"] then some oneLineText else none
  fromText text := if text = oneLineText then some { version := 1, entries := ["vm"] } else none

theorem fromText_oneLine (file : Stored) (text : String) (h : oneLine.toText file = some text) :
    oneLine.fromText text = some file := by
  simp only [oneLine, Option.ite_none_right_eq_some, Option.some.injEq] at h ⊢
  obtain ⟨⟨hversion, hentries⟩, htext⟩ := h
  obtain ⟨version, entries⟩ := file
  exact ⟨htext.symm, by rw [← hversion, ← hentries]⟩

theorem reaches_calls {k : ℕ} {os : List Atomic.Outcome} {world : Atomic.World}
    (h : s.world.calls k os = some world) : Reaches S s { s with world } := by
  induction os generalizing s with
  | nil =>
      obtain rfl : s.world = world := Option.some.inj h
      exact .refl
  | cons o os ih =>
      rw [Atomic.World.calls, List.foldlM_cons] at h
      obtain ⟨t, ht, h⟩ := Option.bind_eq_some_iff.1 h
      have htail : Reaches S { s with world := t } { s with world } := ih (s := { s with world := t }) h
      exact .head (.call k o ht) htail

/-- A program of an empty directory, in which a line is typed. -/
def typed : State :=
  { ((start Atomic.bare none).put 0 (some { path := some FILE })).put 0
      (some { path := some FILE, entries := ["vm"] }) with
    world := (Atomic.start Atomic.bare none).put 0
      { file := FILE, text := bytes oneLineText, pid := 7, nanos := 9 } Atomic.bare }

theorem reaches_typed : Reaches oneLine (start Atomic.bare none) typed := by
  have hload : Step oneLine (start Atomic.bare none)
      ((start Atomic.bare none).put 0 (some { path := some FILE })) := .load 0 true rfl
  have hwrite : Step oneLine ((start Atomic.bare none).put 0 (some { path := some FILE })) typed :=
    .write 0 { path := some FILE } "vm" FILE oneLineText 0 7 9 rfl rfl rfl fun j w hw => by cases hw
  exact (Relation.ReflTransGen.single hload).tail hwrite

end History

end Nutsh
