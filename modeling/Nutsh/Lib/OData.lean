/-
The tokens of an OData filter.

A filter is read character by character.  A quote opens a literal, and within one a quote either ends it or
is the first of two that stand for one; which of them it is, the next character tells.  A text with its quotes
doubled therefore stays within its literal and is read back as it was.

Main definitions:

* `Token`, `tokens` — the tokens of a filter;
* `escape` — a text with its quotes doubled;
* `holds` — whether a conjunction of comparisons holds.

Main results:

* `run_append` — a text is read up to a place, and from there on;
* `run_escape` — an escaped text stays within the literal it stands in;
* `run_literal` — a quoted escaped text is read as one literal, whatever follows but a quote;
* `run_words` — words with blanks between them are read as one token each.
-/
import Mathlib.Data.Int.Notation
import Mathlib.Data.List.Basic

set_option relaxedAutoImplicit false
set_option autoImplicit false

namespace OData

inductive Token where
  | word (text : String)
  | literal (value : String)
  | opening
  | closing
  | comma
  deriving DecidableEq, Repr

/-- What is being read. -/
inductive Mode where
  | between
  | word (read : List Char)
  | literal (read : List Char)
  /-- A quote was read in a literal: its end, unless another one follows. -/
  | quoted (read : List Char)
  deriving DecidableEq, Repr

def punctuation : Char → Option Token
  | '(' => some .opening
  | ')' => some .closing
  | ',' => some .comma
  | _ => none

/-- A character that begins something: the tokens it is, and what is read behind it. -/
def start (c : Char) : List Token × Mode :=
  if c = '\'' then ([], .literal [])
  else if c.isWhitespace then ([], .between)
  else
    match punctuation c with
    | some token => ([token], .between)
    | none => ([], .word [c])

/-- Whether a character goes on with a word. -/
def isWord (c : Char) : Bool := c != '\'' && !c.isWhitespace && (punctuation c).isNone

/-- One character: the tokens that end with it, and what is read behind it. -/
def step (mode : Mode) (c : Char) : List Token × Mode :=
  match mode with
  | .between => start c
  | .word read =>
      if isWord c then ([], .word (read ++ [c])) else (.word (String.ofList read) :: (start c).1, (start c).2)
  | .literal read => if c = '\'' then ([], .quoted read) else ([], .literal (read ++ [c]))
  | .quoted read =>
      if c = '\'' then ([], .literal (read ++ [c]))
      else (.literal (String.ofList read) :: (start c).1, (start c).2)

/-- The token that ends with the text; a literal that was not closed is none. -/
def finish : Mode → Option (List Token)
  | .between => some []
  | .word read => some [.word (String.ofList read)]
  | .literal _ => none
  | .quoted read => some [.literal (String.ofList read)]

/-- The tokens of what follows. -/
def run : Mode → List Char → Option (List Token)
  | mode, [] => finish mode
  | mode, c :: cs => (run (step mode c).2 cs).map ((step mode c).1 ++ ·)

/-- The tokens that end within a text, and what is read behind it. -/
def read : Mode → List Char → List Token × Mode
  | mode, [] => ([], mode)
  | mode, c :: cs =>
      let rest := read (step mode c).2 cs
      ((step mode c).1 ++ rest.1, rest.2)

def tokens (s : String) : Option (List Token) := run .between s.toList

/-- The characters with each quote doubled. -/
def escape (s : List Char) : List Char := s.flatMap fun c => if c = '\'' then ['\'', '\''] else [c]

variable {rest : List Char}

/-- A text is read up to a place, and from there on. -/
theorem run_append (mode : Mode) (front rest : List Char) :
    run mode (front ++ rest) = (run (read mode front).2 rest).map ((read mode front).1 ++ ·) := by
  induction front generalizing mode with
  | nil => simp [read]
  | cons c front ih => simp [read, run, ih, Function.comp_def]

/-- **An escaped text stays within its literal**, and adds itself to what was read of it. -/
theorem run_escape (read s rest : List Char) :
    run (.literal read) (escape s ++ rest) = run (.literal (read ++ s)) rest := by
  induction s generalizing read with
  | nil => rw [List.append_nil]; rfl
  | cons c s ih =>
      rw [escape, List.flatMap_cons, List.append_assoc]
      by_cases hc : c = '\''
      · have := ih (read ++ [c])
        simpa [run, step, hc, escape] using this
      · have := ih (read ++ [c])
        simpa [run, step, hc, escape] using this

/-- **A quoted escaped text is one literal**: the text, when no quote follows it. -/
theorem run_literal (s : List Char) (h : rest.head? ≠ some '\'') :
    run (.literal []) (escape s ++ '\'' :: rest) =
      (run .between rest).map (Token.literal (String.ofList s) :: ·) := by
  rw [run_escape]
  cases rest with
  | nil => simp [run, step, finish]
  | cons c rest =>
      have hc : c ≠ '\'' := by simpa using h
      simp [run, step, hc, Function.comp_def]

theorem start_of_isWord {c : Char} (h : isWord c = true) : start c = ([], .word [c]) := by
  simp only [isWord, Bool.and_eq_true, bne_iff_ne, Bool.not_eq_true', Option.isNone_iff_eq_none] at h
  rw [start, if_neg h.1.1, h.1.2, h.2]
  rfl

theorem run_isWord (read w rest : List Char) (h : ∀ c ∈ w, isWord c = true) :
    run (.word read) (w ++ rest) = run (.word (read ++ w)) rest := by
  induction w generalizing read with
  | nil => rw [List.append_nil, List.nil_append]
  | cons c w ih =>
      obtain ⟨hc, hw⟩ := List.forall_mem_cons.1 h
      rw [List.cons_append, run, step, if_pos hc, ih _ hw]
      simp

/-- **A word is one token**, up to the blank behind it. -/
theorem run_word {w : List Char} (hne : w ≠ []) (h : ∀ c ∈ w, isWord c = true) (rest : List Char) :
    run .between (w ++ ' ' :: rest) = (run .between rest).map (Token.word (String.ofList w) :: ·) := by
  cases w with
  | nil => exact absurd rfl hne
  | cons c w =>
      obtain ⟨hc, hw⟩ := List.forall_mem_cons.1 h
      rw [List.cons_append, run, step, start_of_isWord hc, run_isWord _ _ _ hw]
      simp [run, step, isWord, start, Function.comp_def]

/-- The last word of a filter. -/
theorem run_last_word {w : List Char} (hne : w ≠ []) (h : ∀ c ∈ w, isWord c = true) :
    run .between w = some [.word (String.ofList w)] := by
  cases w with
  | nil => exact absurd rfl hne
  | cons c w =>
      obtain ⟨hc, hw⟩ := List.forall_mem_cons.1 h
      have hrest := run_isWord [c] w [] hw
      rw [List.append_nil] at hrest
      rw [run, step, start_of_isWord hc, hrest]
      rfl

/-- Words with a blank before each but the first. -/
theorem run_words {w : List Char} {ws : List (List Char)}
    (h : ∀ v ∈ w :: ws, v ≠ [] ∧ ∀ c ∈ v, isWord c = true) :
    run .between (w ++ ws.flatMap (' ' :: ·)) = some ((w :: ws).map fun v => Token.word (String.ofList v)) := by
  induction ws generalizing w with
  | nil =>
      obtain ⟨hne, hw⟩ := h w List.mem_cons_self
      rw [List.flatMap_nil, List.append_nil, run_last_word hne hw]
      rfl
  | cons v ws ih =>
      obtain ⟨⟨hne, hw⟩, hrest⟩ := List.forall_mem_cons.1 h
      rw [List.flatMap_cons, List.cons_append, run_word hne hw, ih hrest]
      rfl

/-! ### Comparisons -/

/-- One comparison; other operators are not read. -/
def compared (op : String) (a b : ℤ) : Option Bool :=
  if op = "ge" then some (b ≤ a) else if op = "le" then some (a ≤ b) else none

/-- Whether a conjunction of comparisons holds, of what the properties are and the words on their right mean. -/
def holds (property literal : String → Option ℤ) : List Token → Option Bool
  | [.word p, .word op, .word v] => do compared op (← property p) (← literal v)
  | .word p :: .word op :: .word v :: .word "and" :: rest => do
      let first ← compared op (← property p) (← literal v)
      return first && (← holds property literal rest)
  | _ => none

end OData
