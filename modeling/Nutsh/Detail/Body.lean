/-
The sections of a detail as lines of a pane.

A section is a heading and its fields, each a label in a cell of its own and the value behind it.  A wide pane
has two fields on a line; the left one waits until the next is known to fit beside it, and a field that does not
fit has a line of its own, which the waiting one goes before.

Main definitions:

* `Span`, `pair`, `heading`, `bodyLines` — the spans of a field, and the lines of some sections;
* `BlankCells` — what is relied on of the widths of texts: a blank is one cell, whatever stands beside it;
* `IsField`, `ShowsFields`, `ShowsBody` — lines that show some fields, each whole and in order.

Main results:

* `pair_isField`, `lineWidth_pair` — what a field takes on a line;
* `showsFields_sectionLines` — the fields of a section are shown, with the one that waits before them;
* `showsBody_bodyLines` — **every field is shown once, in order and whole**, and two on a line fit the pane.
-/
import Nutsh.Detail

set_option relaxedAutoImplicit false
set_option autoImplicit false

namespace Nutsh.Detail

/-- The cells of a label. -/
def DETAIL_LABEL : ℕ := 18

/-- From this width on a pane has two columns. -/
def TWO_COLUMN_MIN : ℕ := 92

/-- The blank cells between a left field and the label of the right one. -/
def GUTTER : ℕ := 2

/-- The cells of a column, and of the values in it. -/
def column (w : ℕ) : ℕ := if TWO_COLUMN_MIN ≤ w then (w - 2) / 2 else w
def valueCells (w : ℕ) : ℕ := column w - (DETAIL_LABEL + 1 + GUTTER)

/-- How a span is drawn. -/
inductive Style where
  | raw
  | dim
  | text
  | header
  | lit
  deriving DecidableEq, Repr

structure Span where
  content : String
  style : Style
  deriving DecidableEq, Repr

/-- So many blanks. -/
def blanks (n : ℕ) : String := String.ofList (List.replicate n ' ')

section
-- the cells a text takes on the screen, and a text in capitals
variable (width : String → ℕ) (capitals : String → String)

def lineWidth (line : List Span) : ℕ := (line.map fun s => width s.content).sum

/-- A field: the label to the right of its cell, a blank, and the value. -/
def pair (label : String) (rendered : Rendered) (lit : Bool) : List Span :=
  [{ content := blanks (DETAIL_LABEL - width label) ++ label ++ " ", style := .dim },
    { content := rendered.text, style := if lit then .lit else if rendered.dim then .dim else .text }]

/-- The title, and a rule to the edge of the pane. -/
def heading (title : String) (w : ℕ) : List Span :=
  let text := capitals title
  let rule := w - (width text + 1)
  [{ content := text, style := .header },
    { content := " " ++ String.ofList (List.replicate rule '─'), style := .dim }]

/-- The lines of the fields of a section, after the field that waits for one beside it. -/
def sectionLines (w : ℕ) (hot : List String) (title : String) :
    Option (List Span) → List (String × Rendered) → List (List Span)
  | pending, [] => pending.toList
  | pending, (label, rendered) :: fields =>
      let lit := hot.contains (title ++ "/" ++ label)
      let spills := DETAIL_LABEL < width label ∨ valueCells w < width rendered.text
      if spills ∨ ¬ TWO_COLUMN_MIN ≤ w then
        pending.toList ++ pair width label rendered lit :: sectionLines w hot title none fields
      else
        match pending with
        | none => sectionLines w hot title (some (pair width label rendered lit)) fields
        | some left =>
            let used := lineWidth width left
            (left ++ { content := blanks (column w - used), style := .raw } :: pair width label rendered lit) ::
              sectionLines w hot title none fields

/-- The composed sections, for a pane so many cells wide. -/
def bodyLines (sections : List Section) (w : ℕ) (hot : List String) : List (List Span) :=
  sections.flatMap fun s => heading width capitals s.title w :: sectionLines width w hot s.title none s.fields

/-! ### Lines that show fields -/

/-- What is relied on of the widths of texts: a blank is one cell, before a text and after it. -/
structure BlankCells : Prop where
  empty : width "" = 0
  before : ∀ text, width (" " ++ text) = width text + 1
  after : ∀ text, width (text ++ " ") = width text + 1

/-- A field whole: its label at the right of a cell, a blank, and the text of its value. -/
def IsField (spans : List Span) (field : String × Rendered) : Prop :=
  ∃ style, spans = [{ content := blanks (DETAIL_LABEL - width field.1) ++ field.1 ++ " ", style := .dim },
    { content := field.2.text, style }]

/-- Lines of one field or of two, which together are some fields in order.  Between two are at least as many
blanks as the gutter has, and the line is no wider than the pane. -/
inductive ShowsFields (w : ℕ) : List (List Span) → List (String × Rendered) → Prop where
  | nil : ShowsFields w [] []
  | one {spans : List Span} {field : String × Rendered} {lines : List (List Span)}
      {fields : List (String × Rendered)} (hfield : IsField width spans field) (hrest : ShowsFields w lines fields) :
      ShowsFields w (spans :: lines) (field :: fields)
  | two {left right : List Span} {gap : ℕ} {a b : String × Rendered} {lines : List (List Span)}
      {fields : List (String × Rendered)} (ha : IsField width left a) (hb : IsField width right b)
      (hgap : 2 ≤ gap) (hgutter : width (blanks gap) = gap)
      (hfits : lineWidth width (left ++ { content := blanks gap, style := .raw } :: right) ≤ w)
      (hrest : ShowsFields w lines fields) :
      ShowsFields w ((left ++ { content := blanks gap, style := .raw } :: right) :: lines) (a :: b :: fields)

/-- The lines of a body: for each section its heading and lines that show its fields. -/
inductive ShowsBody (w : ℕ) : List (List Span) → List Section → Prop where
  | nil : ShowsBody w [] []
  | cons {s : Section} {sections : List Section} {lines rest : List (List Span)}
      (hfields : ShowsFields width w lines s.fields) (hrest : ShowsBody w rest sections) :
      ShowsBody w (heading width capitals s.title w :: lines ++ rest) (s :: sections)

end

variable {width : String → ℕ} {capitals : String → String} {w : ℕ} {hot : List String} {title : String}

/-! ### The width of a field -/

theorem blanks_succ (n : ℕ) : blanks (n + 1) = " " ++ blanks n := by
  rw [blanks, List.replicate_succ, ← List.singleton_append, String.ofList_append]
  rfl

theorem BlankCells.width_blanks_append (h : BlankCells width) (n : ℕ) (text : String) :
    width (blanks n ++ text) = n + width text := by
  induction n with
  | zero => simp [blanks]
  | succ n ih =>
      rw [blanks_succ, String.append_assoc, h.before, ih]
      omega

theorem BlankCells.width_blanks (h : BlankCells width) (n : ℕ) : width (blanks n) = n := by
  have happend := h.width_blanks_append n ""
  rwa [String.append_empty, h.empty] at happend

theorem pair_isField (label : String) (rendered : Rendered) (lit : Bool) :
    IsField width (pair width label rendered lit) (label, rendered) :=
  ⟨_, rfl⟩

/-- A field whose label fits its cell takes the cell, a blank and the value. -/
theorem lineWidth_pair (h : BlankCells width) {label : String} (hlabel : width label ≤ DETAIL_LABEL)
    (rendered : Rendered) (lit : Bool) :
    lineWidth width (pair width label rendered lit) = DETAIL_LABEL + 1 + width rendered.text := by
  simp only [lineWidth, pair, List.map_cons, List.map_nil, List.sum_cons, List.sum_nil]
  rw [h.after, h.width_blanks_append]
  omega

/-! ### The lines of a section -/

/-- The waiting field: one that fits the left column. -/
def Waits (width : String → ℕ) (w : ℕ) (left : List Span) (field : String × Rendered) : Prop :=
  IsField width left field ∧ lineWidth width left + GUTTER ≤ (w - 2) / 2

/-- A field that does not spill, in a pane with two columns, may wait. -/
theorem waits_pair (h : BlankCells width) {label : String} {rendered : Rendered}
    (hfits : ¬ ((DETAIL_LABEL < width label ∨ valueCells w < width rendered.text) ∨ ¬ TWO_COLUMN_MIN ≤ w))
    (lit : Bool) :
    TWO_COLUMN_MIN ≤ w ∧ Waits width w (pair width label rendered lit) (label, rendered) := by
  simp only [not_or, not_lt, not_not] at hfits
  obtain ⟨⟨hlabel, hvalue⟩, htwo⟩ := hfits
  rw [valueCells, column, if_pos htwo] at hvalue
  refine ⟨htwo, pair_isField label rendered lit, ?_⟩
  rw [lineWidth_pair h hlabel]
  simp only [TWO_COLUMN_MIN, DETAIL_LABEL, GUTTER] at *
  omega

/-- Two fields that may wait fit a line, with the gutter between them. -/
theorem Waits.beside (h : BlankCells width) (htwo : TWO_COLUMN_MIN ≤ w) {left right : List Span}
    {a b : String × Rendered} (ha : Waits width w left a) (hb : Waits width w right b) {lines : List (List Span)}
    {fields : List (String × Rendered)} (hrest : ShowsFields width w lines fields) :
    ShowsFields width w
      ((left ++ { content := blanks (column w - lineWidth width left), style := .raw } :: right) :: lines)
      (a :: b :: fields) := by
  have hleft := ha.2
  have hright := hb.2
  rw [column, if_pos htwo]
  simp only [TWO_COLUMN_MIN, GUTTER] at htwo hleft hright
  refine .two ha.1 hb.1 (by omega) (h.width_blanks _) ?_ hrest
  simp only [lineWidth, List.map_append, List.map_cons, List.sum_append, List.sum_cons, h.width_blanks] at *
  omega

/-- **The fields of a section are shown**, after the one that waits. -/
theorem showsFields_sectionLines (h : BlankCells width) (fields : List (String × Rendered)) :
    ShowsFields width w (sectionLines width w hot title none fields) fields ∧
      ∀ left field, TWO_COLUMN_MIN ≤ w → Waits width w left field →
        ShowsFields width w (sectionLines width w hot title (some left) fields) (field :: fields) := by
  induction fields with
  | nil => exact ⟨.nil, fun left field _ hwaits => .one hwaits.1 .nil⟩
  | cons next fields ih =>
      obtain ⟨label, rendered⟩ := next
      constructor
      · simp only [sectionLines]
        split
        · exact .one (pair_isField label rendered _) ih.1
        · rename_i hfits
          obtain ⟨htwo, hwaits⟩ := waits_pair h hfits _
          exact ih.2 _ _ htwo hwaits
      · intro left field htwo hleft
        simp only [sectionLines]
        split
        · exact .one hleft.1 (.one (pair_isField label rendered _) ih.1)
        · rename_i hfits
          exact hleft.beside h htwo (waits_pair h hfits _).2 ih.1

/-- **Every field is shown once, in order and whole**: the lines of the body are those of its sections, each
with its heading, and in them every field has its label and the text of its value; two fields on a line leave
the gutter between them and fit the pane. -/
theorem showsBody_bodyLines (h : BlankCells width) (sections : List Section) (w : ℕ) (hot : List String) :
    ShowsBody width capitals w (bodyLines width capitals sections w hot) sections := by
  induction sections with
  | nil => exact .nil
  | cons s sections ih => exact .cons (showsFields_sectionLines h s.fields).1 ih

/-- A section of two fields that go on one line and one that spills. -/
def identity : Section where
  title := "Identity"
  fields :=
    [("Name", { text := "web-1", dim := false }), ("Power", { text := "ON", dim := false }),
      ("UUID", { text := "0f1c5b0e-6a8f-4e0f-9a44-0f6a5d1b8c3a", dim := false })]

/-- Where every character takes one cell a blank does. -/
theorem blankCells_length : BlankCells String.length where
  empty := rfl
  before := fun text => by
    rw [String.length_append]
    exact Nat.add_comm _ _
  after := fun text => String.length_append text " "

theorem showsBody_identity :
    (bodyLines String.length id [identity] 94 []).length = 3 ∧
      ShowsBody String.length id 94 (bodyLines String.length id [identity] 94 []) [identity] :=
  ⟨by decide, showsBody_bodyLines blankCells_length [identity] 94 []⟩

end Nutsh.Detail
