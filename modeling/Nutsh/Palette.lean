/-
The command palette.

The palette owns a line and a ranked list of rows.  The word under the cursor decides what the list is
drawn from; where nothing completes the word the list is the command as typed.  Every edit puts the
selection back on the first row.

* `Palette`, `Palette.key` — the palette and its keys;
* `Palette.ranked`, `Palette.refresh` — the rows of the line, and the list recomputed;
* `Palette.ghost`, `Palette.acceptGhost` — the completion drawn after the line, and taken.
-/
import Mathlib.Data.List.MinMax
import Nutsh.Palette.Line
import Nutsh.Palette.Rows

set_option relaxedAutoImplicit false
set_option autoImplicit false

namespace Nutsh.Palette


/-- What a key did. -/
inductive PaletteAction where
  | edited
  | moved
  /-- `enter` on a row, with every word after the head. -/
  | chose (entry : Entry) (args : List String)
  | completed
  | cancelled
  | ignored
  deriving DecidableEq

end Nutsh.Palette

namespace Nutsh

open Palette in
/-- The palette: the line, the rows and which is selected, the slot that is completed, and the lines it
remembers with the one that is shown. -/
structure Palette where
  input : Input := {}
  selected : ℕ := 0
  entries : List Palette.Entry := []
  slot : Option Palette.Slot := none
  history : List String := []
  historyPos : Option ℕ := none
  /-- The line that was typed when the first remembered one was shown. -/
  stash : Option String := none
  within : ∀ i ∈ historyPos, i < history.length := by simp

end Nutsh

namespace Nutsh.Palette

namespace Entry

/-- What, typed in full, selects the row. -/
def candidates : Entry → List String
  | .command c => [c.label]
  | .kind k _ => k.id :: k.display :: k.aliases
  | .page p => [p.id, p.title]
  | .value text _ => [text]
  | .missing item => [item.label]

/-- The shortest candidate without a blank that begins with the word. -/
def completion (e : Entry) (word : String) : Option String :=
  (e.candidates.filter fun c => !c.toList.contains ' ' && startsCi c word).argmin fun c =>
    (toLex (c.utf8ByteSize, c) : ℕ ×ₗ String)

end Entry

variable (p : Palette)

/-- The words of the line. -/
def words : List String := (wordRuns p.input.text).map Prod.snd

/-- The head word. -/
def head : String := p.words.head?.getD ""

/-- Every word after the head. -/
def args : List String := p.words.tail

/-- The command of the head, if it is one. -/
def command : Option Command := headCommand p.head

/-- The slots of the command of the head. -/
def slots : List Slot := (p.command.map Command.slots).getD []

/-- The position completed and the word at it. -/
def completingAtCursor : ℕ × String := completing p.input.text p.input.cursor p.slots.length

def current : Option Entry := p.entries[p.selected]?

/-- The rows of the line, and the slot that offered them. -/
def ranked (stock : Stock) (vocab : Vocabulary) : Option Slot × List Entry :=
  let (position, word) := p.completingAtCursor
  if position = 0 then (none, stock.headRanking word vocab)
  else
    let slot := p.slots[position - 1]?
    match (slot.map fun s => stock.vocabulary s word vocab).getD [] with
    | [] =>
        (none, match p.command with
          | some c => [.command c]
          | none => stock.headRanking p.head vocab)
    | row :: rows => (slot, row :: rows)

/-- The list recomputed for the line. -/
def refresh (stock : Stock) (vocab : Vocabulary) : Palette :=
  { p with slot := (p.ranked stock vocab).1, entries := (p.ranked stock vocab).2
           selected := min p.selected ((p.ranked stock vocab).2.length - 1) }

/-- What completes the word under the cursor, drawn after it. -/
def ghost : Option String :=
  if !p.input.atEnd || Text.endsWith " " p.input.text then none
  else
    let (position, word) := p.completingAtCursor
    if word = "" ∨ (0 < position ∧ p.slot.isNone) then none
    else
      (p.current.bind fun e => e.completion word).bind fun candidate =>
        let rest := candidate.toList.drop word.toList.length
        if rest.isEmpty then none else some (String.ofList rest)

/-- Another line, typed from now on. -/
def typing (input : Input) : Palette :=
  { p with input, historyPos := none, stash := none, selected := 0, within := by simp }

/-- The completion taken, with a blank after a command that has a slot. -/
def acceptGhost : Option Palette :=
  p.ghost.map fun ghost =>
    let input := p.input.insertStr ghost
    match p.current with
    | some (.command c) => p.typing (if c.slots.isEmpty then input else input.insert ' ')
    | _ => p.typing input

def down : Palette := { p with selected := min (p.selected + 1) (p.entries.length - 1) }

/-- The remembered line before the one that is shown. -/
def recallBack : Palette × PaletteAction :=
  match h : p.historyPos with
  | none =>
      if hne : p.history = [] then (p, .ignored)
      else
        ({ p with stash := some p.input.text, historyPos := some (p.history.length - 1), selected := 0
                  input := .set (p.history[p.history.length - 1]?.getD "")
                  within := by
                    rintro i ⟨⟩
                    have := List.length_pos_iff.2 hne
                    omega }, .edited)
  | some 0 => (p, .ignored)
  | some (i + 1) =>
      ({ p with historyPos := some i, input := .set (p.history[i]?.getD ""), selected := 0
                within := by
                  rintro j ⟨⟩
                  have := p.within (i + 1) h
                  omega }, .edited)

/-- The remembered line after the one that is shown, and at last the one that was typed. -/
def recallForward : Palette × PaletteAction :=
  match p.historyPos with
  | none => (p, .ignored)
  | some i =>
      if h : i + 1 < p.history.length then
        ({ p with historyPos := some (i + 1), input := .set p.history[i + 1], selected := 0
                  within := by
                    rintro j ⟨⟩
                    exact h }, .edited)
      else
        ({ p with historyPos := none, input := .set (p.stash.getD ""), stash := none, selected := 0
                  within := by simp }, .edited)

/-- The keys of the palette. -/
def key (stock : Stock) : Key → Palette × PaletteAction
  | .esc => (p, .cancelled)
  | .tab => (p.acceptGhost.map fun q => (q, .completed)).getD (p.down, .moved)
  | .down => (p.down, .moved)
  | .up | .backTab => ({ p with selected := p.selected - 1 }, .moved)
  | .enter => (p, (p.current.map fun e => .chose e p.args).getD .ignored)
  | k =>
      if k = .right ∧ p.input.atEnd then (p.acceptGhost.map fun q => (q, .completed)).getD (p, .ignored)
      else if k = .ctrl 'p' then p.recallBack
      else if k = .ctrl 'n' then p.recallForward
      else
        match p.input.key stock.wide k with
        | some (input, .changed) => (p.typing input, .edited)
        | some (input, .moved) => ({ p with input }, .moved)
        | some (_, .ignored) | none => (p, .ignored)

end Nutsh.Palette
