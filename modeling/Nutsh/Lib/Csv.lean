/-
Comma-separated values, as RFC 4180 has them.

The grammar of a file is given as relations between a text and what it holds: a field is text without commas,
quotes and line breaks, or anything between quotes with the quotes in it doubled; a record is fields with commas
between them; a file is records, each ended by a line break, which the last may lack.  The grammar leaves open
whether a line break at the very end is followed by a record of one empty field; here it is not.

The reader goes over a text once, and reads every file of the grammar as what it holds, so that a file holds
one thing only.

* `Csv.Escaped`, `Csv.Field`, `Csv.Record`, `Csv.File` — the grammar;
* `Csv.read` — the reader;
* `Csv.readFrom_file` — it reads every file of the grammar.
-/
import Mathlib.Data.List.Basic
import Mathlib.Order.Basic

set_option relaxedAutoImplicit false
set_option autoImplicit false

namespace Csv

/-! ### Grammar -/

/-- A character that may stand in a field without quotes. -/
def isText (c : Char) : Bool := c != ',' && c != '"' && c != '\r' && c != '\n'

/-- What stands between the quotes of a field, and the field. -/
inductive Escaped : List Char → List Char → Prop
  | nil : Escaped [] []
  | char {c : Char} {s v : List Char} (hc : c ≠ '"') (h : Escaped s v) : Escaped (c :: s) (c :: v)
  | quote {s v : List Char} (h : Escaped s v) : Escaped ('"' :: '"' :: s) ('"' :: v)

inductive Field : List Char → List Char → Prop
  | plain {s : List Char} (h : ∀ c ∈ s, isText c = true) : Field s s
  | quoted {s v : List Char} (h : Escaped s v) : Field ('"' :: (s ++ ['"'])) v

inductive Record : List Char → List (List Char) → Prop
  | one {s v : List Char} (h : Field s v) : Record s [v]
  | cons {s v r : List Char} {vs : List (List Char)} (h : Field s v) (hr : Record r vs) :
      Record (s ++ ',' :: r) (v :: vs)

inductive File : List Char → List (List (List Char)) → Prop
  | nil : File [] []
  | last {r : List Char} {vs : List (List Char)} (h : Record r vs) (hne : r ≠ []) : File r [vs]
  | cons {r text : List Char} {vs : List (List Char)} {records : List (List (List Char))} (h : Record r vs)
      (hrest : File text records) : File (r ++ '\r' :: '\n' :: text) (vs :: records)

/-! ### Reader -/

/-- Where the reader is: before a record, before a field, in a field without quotes, between quotes, behind a
quote, behind a carriage return. -/
inductive Place where
  | fresh
  | field
  | plain
  | quoted
  | closed
  | broken
  deriving DecidableEq

/-- Some characters more at the front of the first field. -/
def push (v : List Char) : List (List (List Char)) → List (List (List Char))
  | (f :: fs) :: records => ((v ++ f) :: fs) :: records
  | records => records

/-- Some fields more at the front of the first record. -/
def ahead (vs : List (List Char)) : List (List (List Char)) → List (List (List Char))
  | r :: records => (vs ++ r) :: records
  | [] => [vs]

/-- The records of a text, the first of them without what has been read of it. -/
def readFrom : Place → List Char → Option (List (List (List Char)))
  | .fresh, [] => some []
  | .quoted, [] => none
  | .broken, [] => none
  | _, [] => some [[[]]]
  | .quoted, c :: cs => if c = '"' then readFrom .closed cs else (readFrom .quoted cs).map (push [c])
  | .broken, c :: cs => if c = '\n' then (readFrom .fresh cs).map fun records => [[]] :: records else none
  | .closed, c :: cs =>
      if c = ',' then (readFrom .field cs).map (ahead [[]])
      else if c = '\r' then readFrom .broken cs
      else if c = '"' then (readFrom .quoted cs).map (push ['"'])
      else none
  | .plain, c :: cs =>
      if c = ',' then (readFrom .field cs).map (ahead [[]])
      else if c = '\r' then readFrom .broken cs
      else if isText c then (readFrom .plain cs).map (push [c])
      else none
  | _, c :: cs =>
      if c = ',' then (readFrom .field cs).map (ahead [[]])
      else if c = '\r' then readFrom .broken cs
      else if c = '"' then readFrom .quoted cs
      else if isText c then (readFrom .plain cs).map (push [c])
      else none

/-- The records of a text. -/
def read (text : String) : Option (List (List String)) :=
  (readFrom .fresh text.toList).map fun records => records.map fun r => r.map String.ofList

/-! ### What is read of a file -/

attribute [local simp] readFrom push

variable {s v r text : List Char} {vs : List (List Char)} {records : List (List (List Char))} {p : Place}

theorem push_comp (s v : List Char) : push s ∘ push v = push (s ++ v) := by
  funext records
  match records with
  | (f :: fs) :: records => simp [push]
  | [] :: records => rfl
  | [] => rfl

theorem push_nil : push [] = id := by
  funext records
  match records with
  | (f :: fs) :: records => rfl
  | [] :: records => rfl
  | [] => rfl

/-- What stands between quotes is read up to the quote behind it. -/
theorem readFrom_escaped (h : Escaped s v) :
    readFrom .quoted (s ++ '"' :: text) = (readFrom .closed text).map (push v) := by
  induction h with
  | nil => rw [List.nil_append, readFrom, if_pos rfl, push_nil, Option.map_id, id]
  | char hc h ih => rw [List.cons_append, readFrom, if_neg hc, ih, Option.map_map, push_comp, List.singleton_append]
  | quote h ih =>
      rw [List.cons_append, List.cons_append, readFrom, if_pos rfl, readFrom, if_neg (by decide), if_neg (by decide),
        if_pos rfl, ih, Option.map_map, push_comp, List.singleton_append]

theorem ne_of_isText {c : Char} (h : isText c = true) : c ≠ ',' ∧ c ≠ '"' ∧ c ≠ '\r' := by
  simp only [isText, Bool.and_eq_true, bne_iff_ne] at h
  exact ⟨h.1.1.1, h.1.1.2, h.1.2⟩

theorem readFrom_plain (h : ∀ c ∈ s, isText c = true) :
    readFrom .plain (s ++ text) = (readFrom .plain text).map (push s) := by
  induction s with
  | nil => rw [List.nil_append, push_nil, Option.map_id, id]
  | cons c s ih =>
      have hc : isText c = true := h c List.mem_cons_self
      obtain ⟨hcomma, -, hreturn⟩ := ne_of_isText hc
      rw [List.cons_append, readFrom, if_neg hcomma, if_neg hreturn, if_pos hc,
        ih fun d hd => h d (List.mem_cons_of_mem _ hd), Option.map_map, push_comp, List.singleton_append]

/-- What ends a field: a comma, a line break, or the end of the text. -/
def Ends (text : List Char) : Prop := text = [] ∨ ∃ cs, text = ',' :: cs ∨ text = '\r' :: cs

/-- What ends a field is read the same behind a field with quotes and behind one without. -/
theorem readFrom_closed (h : Ends text) : readFrom .closed text = readFrom .plain text := by
  rcases h with rfl | ⟨cs, rfl | rfl⟩
  · rfl
  · rfl
  · rfl

/-- A field with what ends it behind it; at the end of the text a record is not empty. -/
theorem readFrom_field (h : Field s v) (hends : Ends text) (hp : p = .field ∨ p = .fresh ∧ s ++ text ≠ []) :
    readFrom p (s ++ text) = (readFrom .plain text).map (push v) := by
  cases h with
  | plain h =>
      cases s with
      | nil =>
          rw [List.nil_append, push_nil, Option.map_id, id]
          rcases hends with rfl | ⟨cs, rfl | rfl⟩
          · rcases hp with rfl | ⟨-, hne⟩
            · rfl
            · exact absurd rfl hne
          · rcases hp with rfl | ⟨rfl, -⟩ <;> rfl
          · rcases hp with rfl | ⟨rfl, -⟩ <;> rfl
      | cons c s =>
          have hplain := @readFrom_plain _ text h
          have hc : isText c = true := h c List.mem_cons_self
          obtain ⟨hcomma, hquote, hreturn⟩ := ne_of_isText hc
          rw [← hplain, List.cons_append]
          rcases hp with rfl | ⟨rfl, -⟩
          all_goals simp only [readFrom, if_neg hcomma, if_neg hquote, if_neg hreturn]
  | quoted h =>
      have hquoted := @readFrom_escaped _ _ text h
      rw [readFrom_closed hends] at hquoted
      rw [List.cons_append, List.append_assoc, List.singleton_append, ← hquoted]
      rcases hp with rfl | ⟨rfl, -⟩
      all_goals simp [readFrom]

theorem readFrom_comma : readFrom .plain (',' :: text) = (readFrom .field text).map (ahead [[]]) := by
  rw [readFrom, if_pos rfl]

theorem readFrom_break :
    readFrom .plain ('\r' :: '\n' :: text) = (readFrom .fresh text).map fun records => [[]] :: records := by
  rw [readFrom, if_neg (by decide), if_pos rfl, readFrom, if_pos rfl]

/-- A record with a line break behind it. -/
theorem readFrom_record (h : Record r vs) (hp : p = .field ∨ p = .fresh) :
    readFrom p (r ++ '\r' :: '\n' :: text) = (readFrom .fresh text).map fun records => vs :: records := by
  induction h generalizing p with
  | one h =>
      rw [readFrom_field h (.inr ⟨_, .inr rfl⟩) (hp.imp_right fun hfresh => ⟨hfresh, by simp⟩), readFrom_break,
        Option.map_map]
      exact congrArg (Option.map · _) (funext fun records => by simp [push])
  | cons h hr ih =>
      rw [List.append_assoc, List.cons_append,
        readFrom_field h (.inr ⟨_, .inl rfl⟩) (hp.imp_right fun hfresh => ⟨hfresh, by simp⟩), readFrom_comma,
        ih (.inl rfl), Option.map_map, Option.map_map]
      exact congrArg (Option.map · _) (funext fun records => by simp [push, ahead])

/-- A record that nothing stands behind. -/
theorem readFrom_last (h : Record r vs) (hp : p = .field ∨ p = .fresh ∧ r ≠ []) : readFrom p r = some [vs] := by
  induction h generalizing p with
  | one h =>
      have hread := readFrom_field h (.inl rfl) (hp.imp_right fun hfresh => ⟨hfresh.1, by simpa using hfresh.2⟩)
      rw [List.append_nil] at hread
      rw [hread, readFrom]
      · simp [push]
      all_goals simp
  | cons h hr ih =>
      rw [readFrom_field h (.inr ⟨_, .inl rfl⟩) hp, readFrom_comma, ih (.inl rfl)]
      simp [push, ahead]

/-- **Every file is read** as what it holds. -/
theorem readFrom_file (h : File text records) : readFrom .fresh text = some records := by
  induction h with
  | nil => rfl
  | last h hne => exact readFrom_last h (.inr ⟨rfl, hne⟩)
  | cons h hrest ih => rw [readFrom_record h (.inr rfl), ih, Option.map_some]

/-- A text is a file of one list of records only. -/
theorem File.unique {records' : List (List (List Char))} (h : File text records) (h' : File text records') :
    records = records' :=
  Option.some.inj ((readFrom_file h).symm.trans (readFrom_file h'))

end Csv
