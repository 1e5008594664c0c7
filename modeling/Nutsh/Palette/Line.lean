/-
The line a palette is typed on.

A line is a text with a cursor in it.  The keys that edit it insert and delete at the cursor, and move it
over what the terminal draws as one cell; which characters take a cell of their own is a parameter.  The
line is read as the runs of characters between its blanks, and the word being completed is the run the
cursor touches.

* `Input`, `Input.key` — a line with its cursor, and what the editing keys do to it;
* `wordRuns`, `wordAt`, `completing` — the words of a line, the one at the cursor, and the one completed;
* `getElem?_completing` — a completed word that is not empty stands in the line at its own position;
* `ne_empty_of_mem_wordRuns` — no run is empty.
-/
import Mathlib.Data.List.Basic
import Mathlib.Order.Basic

set_option relaxedAutoImplicit false
set_option autoImplicit false

namespace Nutsh.Palette

/-- The keys an application understands. -/
inductive Key where
  | char (c : Char)
  | ctrl (c : Char)
  | enter
  | esc
  | backspace
  | tab
  | backTab
  | up
  | down
  | pageUp
  | pageDown
  | home
  | «end»
  | left
  | right
  deriving DecidableEq, Repr

/-- What a key did to a line. -/
inductive Edit where
  | changed
  | moved
  | ignored
  deriving DecidableEq, Repr

/-! ### Clusters -/

/-- The joiner, which binds the character after it into the cluster before it. -/
def ZWJ : Char := Char.ofNat 0x200D

section
variable (wide : Char → Bool)

/-- The characters after the first one that belong to its cluster. -/
def clusterRest : Bool → List Char → ℕ
  | _, [] => 0
  | joined, c :: cs => if !joined && wide c then 0 else clusterRest (c == ZWJ) cs + 1

/-- Where the cluster that starts at a position ends. -/
def clusterEnd (text : List Char) (position : ℕ) : ℕ :=
  match text.drop position with
  | [] => position
  | first :: rest => position + 1 + clusterRest wide (first == ZWJ) rest

/-- Where the cluster before a position starts, walked to from the start of the line. -/
def clusterStart (text : List Char) (position : ℕ) : ℕ :=
  go position 0
where
  go : ℕ → ℕ → ℕ
    | 0, start => start
    | fuel + 1, start =>
        if start < position then
          if position ≤ clusterEnd wide text start then start else go fuel (clusterEnd wide text start)
        else start

theorem clusterRest_le (joined : Bool) (cs : List Char) : clusterRest wide joined cs ≤ cs.length := by
  induction cs generalizing joined with
  | nil => exact Nat.le_refl 0
  | cons c cs ih =>
      rw [clusterRest]
      split
      · omega
      · have := ih (c == ZWJ)
        simp only [List.length_cons]
        omega

theorem clusterEnd_le {text : List Char} {position : ℕ} (h : position ≤ text.length) :
    clusterEnd wide text position ≤ text.length := by
  rw [clusterEnd]
  split
  · exact h
  · next first rest heq =>
      have hrest := clusterRest_le wide (first == ZWJ) rest
      have hlen := congrArg List.length heq
      simp only [List.length_drop, List.length_cons] at hlen
      omega

theorem clusterStart_le (text : List Char) (position : ℕ) : clusterStart wide text position ≤ position := by
  suffices h : ∀ fuel start, start ≤ position → clusterStart.go wide text position fuel start ≤ position from
    h position 0 (Nat.zero_le position)
  intro fuel
  induction fuel with
  | zero => exact fun start hstart => hstart
  | succ fuel ih =>
      intro start hstart
      rw [clusterStart.go]
      split
      · split
        · exact hstart
        · exact ih _ (by omega)
      · exact hstart

end

/-! ### The line -/

/-- A text with a cursor in it, between two of its characters or at either end. -/
structure Input where
  text : String := ""
  cursor : ℕ := 0
  within : cursor ≤ text.toList.length := by simp
  deriving DecidableEq

namespace Input

/-- Whether the cursor is past the last character. -/
def atEnd (i : Input) : Bool := i.cursor == i.text.toList.length

/-- What stands before the cursor, and after it. -/
def before (i : Input) : List Char := i.text.toList.take i.cursor
def after (i : Input) : List Char := i.text.toList.drop i.cursor

/-- The line of the two halves, the cursor between them. -/
def of (before after : List Char) : Input :=
  { text := String.ofList (before ++ after), cursor := before.length
    within := by simp }

/-- Another line, the cursor at its end. -/
def set (text : String) : Input := { text, cursor := text.toList.length, within := Nat.le_refl _ }

def insertStr (i : Input) (s : String) : Input := of (i.before ++ s.toList) i.after

def insert (i : Input) (c : Char) : Input := of (i.before ++ [c]) i.after

def backspace (i : Input) : Input := of i.before.dropLast i.after

/-- The blanks left of the cursor go, and the run of other characters before them. -/
def deleteWord (i : Input) : Input :=
  of ((i.before.reverse.dropWhile (· == ' ')).dropWhile (· != ' ')).reverse i.after

def deleteToStart (i : Input) : Input := of [] i.after

def home (i : Input) : Input := { i with cursor := 0, within := Nat.zero_le _ }
def «end» (i : Input) : Input := { i with cursor := i.text.toList.length, within := Nat.le_refl _ }

section
variable (wide : Char → Bool)

/-- One cell to the left. -/
def left (i : Input) : Input :=
  { i with cursor := clusterStart wide i.text.toList i.cursor
           within := Nat.le_trans (clusterStart_le wide _ _) i.within }

/-- One cell to the right. -/
def right (i : Input) : Input :=
  { i with cursor := clusterEnd wide i.text.toList i.cursor
           within := clusterEnd_le wide i.within }

/-- What the editing keys do, `none` for a key that is not one of them. -/
def key (i : Input) : Key → Option (Input × Edit)
  | .char c => some (i.insert c, .changed)
  | .backspace => some (i.backspace, .changed)
  | .left => some (if i.cursor == 0 then (i, .ignored) else (left wide i, .moved))
  | .right => some (if i.atEnd then (i, .ignored) else (right wide i, .moved))
  | .home => some (i.home, .moved)
  | .end => some (i.end, .moved)
  | .ctrl c =>
      if c = 'w' then some (i.deleteWord, .changed)
      else if c = 'u' then some (i.deleteToStart, .changed)
      else if c = 'a' then some (i.home, .moved)
      else if c = 'e' then some (i.end, .moved)
      else none
  | _ => none

end

end Input

/-! ### Words -/

/-- The runs of characters other than blanks from a position on, each with where it starts, after the run
that is open there. -/
def wordRunsFrom (position : ℕ) : Option (ℕ × List Char) → List Char → List (ℕ × String)
  | none, [] => []
  | some (start, run), [] => [(start, String.ofList run)]
  | none, c :: cs =>
      if c = ' ' then wordRunsFrom (position + 1) none cs
      else wordRunsFrom (position + 1) (some (position, [c])) cs
  | some (start, run), c :: cs =>
      if c = ' ' then (start, String.ofList run) :: wordRunsFrom (position + 1) none cs
      else wordRunsFrom (position + 1) (some (start, run ++ [c])) cs

/-- The words of a line, each with where it starts. -/
def wordRuns (input : String) : List (ℕ × String) := wordRunsFrom 0 none input.toList

/-- The word the cursor touches and how many stand before it; in a gap, an empty word. -/
def wordAt (runs : List (ℕ × String)) (cursor : ℕ) : ℕ × String :=
  match runs.findIdx? fun r => r.1 ≤ cursor && cursor ≤ r.1 + r.2.toList.length with
  | some i => (i, ((runs[i]?).map Prod.snd).getD "")
  | none => ((runs.filter fun r => r.1 + r.2.toList.length < cursor).length, "")

/-- The position completed and the word at it.  An empty word past the last slot completes nothing new:
the word completed stays the last one of the line. -/
def completing (input : String) (cursor slots : ℕ) : ℕ × String :=
  let runs := wordRuns input
  let at' := wordAt runs cursor
  if at'.2 = "" ∧ slots < at'.1 then (runs.length - 1, (runs.getLast?.map Prod.snd).getD "") else at'

section
variable {input : String} {runs : List (ℕ × String)} {cursor slots position : ℕ} {word : String}

theorem ne_empty_of_mem_wordRuns {r : ℕ × String} (h : r ∈ wordRuns input) : r.2 ≠ "" := by
  -- a run is opened by a character, so the open one is never empty
  suffices hgo : ∀ (cs : List Char) (position : ℕ) (run : Option (ℕ × List Char)),
      (∀ o ∈ run, o.2 ≠ []) → ∀ r ∈ wordRunsFrom position run cs, r.2 ≠ "" from
    hgo _ _ _ (by simp) r h
  have hne : ∀ {l : List Char}, l ≠ [] → String.ofList l ≠ "" := by
    intro l hl h0
    exact hl (by simpa using congrArg String.toList h0)
  intro cs
  induction cs with
  | nil =>
      rintro position (_ | ⟨start, run⟩) hrun r hr
      · simp [wordRunsFrom] at hr
      · rw [wordRunsFrom, List.mem_singleton] at hr
        exact hr ▸ hne (hrun (start, run) rfl)
  | cons c cs ih =>
      rintro position (_ | ⟨start, run⟩) hrun r hr
      · rw [wordRunsFrom] at hr
        split at hr
        · exact ih _ _ (by simp) r hr
        · exact ih _ _ (by simp) r hr
      · rw [wordRunsFrom] at hr
        split at hr
        · obtain rfl | hr := List.mem_cons.1 hr
          · exact hne (hrun (start, run) rfl)
          · exact ih _ _ (by simp) r hr
        · exact ih _ _ (by simp) r hr

/-- A word at the cursor that is not empty stands in the line at its own position. -/
theorem getElem?_wordAt (h : wordAt runs cursor = (position, word)) (hw : word ≠ "") :
    (runs.map Prod.snd)[position]? = some word := by
  rw [wordAt] at h
  split at h
  · next i hi =>
      obtain ⟨rfl, rfl⟩ := Prod.mk.inj h
      have hlt : i < runs.length := (List.findIdx?_eq_some_iff_findIdx_eq.1 hi).1
      simp [hlt]
  · exact absurd (Prod.mk.inj h).2.symm hw

/-- A completed word that is not empty stands in the line at its own position. -/
theorem getElem?_completing (h : completing input cursor slots = (position, word)) (hw : word ≠ "") :
    ((wordRuns input).map Prod.snd)[position]? = some word := by
  simp only [completing] at h
  split at h
  · obtain ⟨rfl, rfl⟩ := Prod.mk.inj h
    cases hl : wordRuns input with
    | nil => simp [hl] at hw
    | cons r rs =>
        rw [List.getElem?_map, List.getLast?_eq_getElem?]
        simp
  · exact getElem?_wordAt h hw

end

end Nutsh.Palette
