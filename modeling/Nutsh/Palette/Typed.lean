/-
The argument typed and the argument that is run.

The rows a slot offers are filtered in the order of what they are drawn from, every edit selects the first
of them, and the row that is chosen takes the place of the word.  So the argument that is run is the one
typed exactly when the first value the word is found in is that very argument, or it is found in none.

* `Typing`, `Typing.step` — a palette while it is open, key after key;
* `Stock.offers`, `Stock.firstFound` — the values of a slot, and the first one a word is found in;
* `Stock.Legal`, `Stock.SameArgument` — a word is an argument of the slot, and two words are the same one;
* `current_of_unmoved` — with the selection where the last edit put it, the first row of the line is
  chosen;
* `honours_iff` — after every run of keys, the argument typed is the argument that is run exactly when
  the first value found is that argument.
-/
import Nutsh.Lib.Run
import Nutsh.Palette.Choose

set_option relaxedAutoImplicit false
set_option autoImplicit false

namespace Nutsh.Palette

/-! ### Keys until enter -/

/-- A palette that is open, with what its list was last recomputed against and whether the selection was
moved since the last edit. -/
structure Typing where
  palette : Palette
  vocab : Vocabulary
  moved : Bool := false

/-- A key, with what the session offers then, or a click on a row. -/
inductive Press where
  | key (k : Key) (vocab : Vocabulary)
  | point (row : ℕ)

namespace Typing

/-- The palette opened, with a beginning already typed. -/
def opened (stock : Stock) (history : List String) (start : String) (vocab : Vocabulary) : Typing :=
  let typed := start.toList.foldl (fun (p : Palette) c => (p.key stock (.char c)).1) { history }
  { palette := typed.refresh stock vocab, vocab }

/-- What a key does to the palette, `none` when it closes. -/
def step (stock : Stock) (t : Typing) : Press → Option Typing
  | .key k vocab =>
      match t.palette.key stock k with
      | (p, .edited) | (p, .completed) => some { palette := p.refresh stock vocab, vocab }
      | (p, .moved) =>
          some { palette := p.refresh stock vocab, vocab
                 moved := t.moved || p.selected != t.palette.selected }
      | (p, .ignored) => some { t with palette := p }
      | (_, .chose _ _) | (_, .cancelled) => none
  | .point row =>
      if row < t.palette.entries.length ∧ row ≠ t.palette.selected then
        some { t with palette := { t.palette with selected := row }, moved := true }
      else some t

/-- The rows are those of the line, and the selection is on the first one until it is moved. -/
structure Fresh (stock : Stock) (t : Typing) : Prop where
  entries : t.palette.entries = (t.palette.ranked stock t.vocab).2
  selected : t.moved = false → t.palette.selected = 0

end Typing

section
variable {stock : Stock} {vocab : Vocabulary} {p : Palette}

/-- What a key leaves: an edited or a completed line with the selection on the first row, and after a key
that is ignored the palette as it was. -/
def Settles (p : Palette) (r : Palette × PaletteAction) : Prop :=
  match r.2 with
  | .edited | .completed => r.1.selected = 0
  | .ignored => r.1 = p
  | _ => True

theorem settles_recallBack (p : Palette) : Settles p p.recallBack := by
  rw [recallBack]
  split
  · split
    · exact rfl
    · exact rfl
  · exact rfl
  · exact rfl

theorem settles_recallForward (p : Palette) : Settles p p.recallForward := by
  rw [recallForward]
  split
  · exact rfl
  · split
    · exact rfl
    · exact rfl

theorem selected_of_acceptGhost {q : Palette} (h : p.acceptGhost = some q) : q.selected = 0 := by
  obtain ⟨ghost, -, rfl⟩ := Option.map_eq_some_iff.1 h
  split <;> rfl

theorem settles_acceptGhost {other : Palette × PaletteAction} (h : Settles p other) :
    Settles p ((p.acceptGhost.map fun q => (q, PaletteAction.completed)).getD other) := by
  cases hq : p.acceptGhost with
  | none => exact h
  | some q => exact selected_of_acceptGhost hq

theorem settles_key (p : Palette) (k : Key) : Settles p (p.key stock k) := by
  rw [key.eq_def]
  split
  · exact trivial
  · exact settles_acceptGhost trivial
  · exact trivial
  · exact trivial
  · exact trivial
  · cases p.current with
    | none => exact rfl
    | some e => exact trivial
  · split
    · exact settles_acceptGhost rfl
    · split
      · exact settles_recallBack p
      · split
        · exact settles_recallForward p
        · -- the keys that are not the palette's own go to the line
          split
          · exact rfl
          · exact trivial
          · exact rfl
          · exact rfl

/-- The rows are those of the line alone. -/
theorem ranked_congr {q : Palette} (h : q.input = p.input) :
    q.ranked stock vocab = p.ranked stock vocab := by
  have hhead : q.head = p.head := by rw [head, head, words, words, h]
  have hcommand : q.command = p.command := by rw [command, command, hhead]
  have hslots : q.slots = p.slots := by rw [slots, slots, hcommand]
  have hat : q.completingAtCursor = p.completingAtCursor := by
    rw [completingAtCursor, completingAtCursor, h, hslots]
  rw [ranked, ranked, hat, hslots, hcommand, hhead]

/-- The list recomputed is the list of the line. -/
theorem entries_refresh (p : Palette) :
    (p.refresh stock vocab).entries = ((p.refresh stock vocab).ranked stock vocab).2 := by
  rw [ranked_congr (p := p) (q := p.refresh stock vocab) (by rw [refresh])]
  rw [refresh]

theorem selected_refresh (h : p.selected = 0) : (p.refresh stock vocab).selected = 0 := by
  simp [refresh, h]

theorem selected_key_char (p : Palette) (c : Char) : (p.key stock (.char c)).1.selected = 0 := by
  rw [key, if_neg fun h => Key.noConfusion h.1, if_neg fun h => Key.noConfusion h,
    if_neg fun h => Key.noConfusion h]
  · rfl
  all_goals exact fun h => Key.noConfusion h

namespace Typing

variable {t t' : Typing}

theorem fresh_opened (stock : Stock) (history : List String) (start : String) (vocab : Vocabulary) :
    (opened stock history start vocab).Fresh stock := by
  have hzero : ∀ (cs : List Char) (p : Palette), p.selected = 0 →
      (cs.foldl (fun (p : Palette) c => (p.key stock (.char c)).1) p).selected = 0 := by
    intro cs
    induction cs with
    | nil => exact fun p hp => hp
    | cons c cs ih => exact fun p _ => ih _ (selected_key_char p c)
  exact ⟨entries_refresh _, fun _ => selected_refresh (hzero _ _ rfl)⟩

theorem fresh_step {e : Press} (h : t.Fresh stock) (hstep : t.step stock e = some t') : t'.Fresh stock := by
  cases e with
  | key k vocab =>
      have hsettles : Settles t.palette (t.palette.key stock k) := settles_key t.palette k
      rw [step] at hstep
      split at hstep
      · next p heq =>
          obtain rfl := Option.some.inj hstep
          rw [heq] at hsettles
          exact ⟨entries_refresh p, fun _ => selected_refresh hsettles⟩
      · next p heq =>
          obtain rfl := Option.some.inj hstep
          rw [heq] at hsettles
          exact ⟨entries_refresh p, fun _ => selected_refresh hsettles⟩
      · next p heq =>
          obtain rfl := Option.some.inj hstep
          refine ⟨entries_refresh p, fun hm => selected_refresh ?_⟩
          simp only [Bool.or_eq_false_iff, bne_eq_false_iff_eq] at hm
          exact hm.2.trans (h.selected hm.1)
      · next p heq =>
          obtain rfl := Option.some.inj hstep
          rw [heq] at hsettles
          obtain rfl : p = t.palette := hsettles
          exact h
      · cases hstep
      · cases hstep
  | point row =>
      rw [step] at hstep
      split at hstep
      · obtain rfl := Option.some.inj hstep
        exact ⟨h.entries.trans (congrArg Prod.snd (ranked_congr rfl)), fun hm => absurd hm (by simp)⟩
      · exact Option.some.inj hstep ▸ h

theorem fresh_of_run {history : List String} {start : String} {es : List Press}
    (h : Run.exec (step stock) (opened stock history start vocab) es = some t) : t.Fresh stock :=
  Run.exec_inv (fun _ _ _ => fresh_step) (fresh_opened stock history start vocab) h

/-- With the selection where the last edit put it, `enter` chooses the first row of the line. -/
theorem current_of_unmoved (h : t.Fresh stock) (hm : t.moved = false) :
    t.palette.current = (t.palette.ranked stock t.vocab).2.head? := by
  rw [current, h.entries, h.selected hm, List.head?_eq_getElem?]

end Typing

end

/-! ### The values of a slot -/

/-- What the rows of a slot are. -/
def Slot.tag : Slot → Tag
  | .contexts | .actions | .kinds => .context
  | .skins => .skin
  | .hide => .nav true
  | .show => .nav false
  | .intervals => .interval
  | .levels => .level
  | .formats => .format

/-- How a word is found in a spelling: at its beginning for the rungs and the levels, anywhere for the
others. -/
def Slot.finds (spelling word : String) : Slot → Bool
  | .intervals | .levels => startsCi spelling word
  | _ => containsCi spelling word

/-- What an argument says to the command that reads it. -/
inductive Reading where
  | name (s : String)
  | interval (i : Interval)
  | level (l : LogLevel)
  | format (f : Format)
  deriving DecidableEq

namespace Stock

variable (stock : Stock) (vocab : Vocabulary)

/-- The values a slot offers, each with the spellings it is found by. -/
def offers : Slot → List (String × List String)
  | .contexts => vocab.contexts.map fun v => (v, [v])
  | .skins => stock.skins.map fun n => (n, n :: (stock.aliases.filter fun a => a.2 == n).map Prod.fst)
  | .hide => (hideNames [] stock.navNames).map fun n => (n.1, [n.1, n.2])
  | .show => vocab.hidden.map fun v => (v, [v])
  | .intervals => stock.ladder.map fun i => (shown i, [shown i])
  | .levels => stock.levels.map fun l => (l.word, [l.word])
  | .formats => stock.formats.map fun f => (f.word, [f.word])
  | .actions | .kinds => []

/-- The first value of a slot that a word is found in. -/
def firstFound (slot : Slot) (word : String) : Option String :=
  ((stock.offers vocab slot).find? fun o => o.2.any fun s => slot.finds s word).map Prod.fst

/-- What the command of a slot reads a word as. -/
def reads : Slot → String → Option Reading
  | .contexts, word => if word ∈ vocab.contexts then some (.name word) else none
  | .skins, word => (stock.canonical word).map .name
  | .hide, word | .show, word => (stock.navId (stock.trim word)).map .name
  | .intervals, word => (stock.parseInterval word).map .interval
  | .levels, word => (LogLevel.parse word).map .level
  | .formats, word => (Format.parse word).toOption.map .format
  | .actions, word => some (.name word)
  | .kinds, word => (stock.catalog.lookup word).head?.map fun k => .name k.id

/-- A word is an argument of a slot: but for the case of its letters a value that is offered, or what the
command reads. -/
def Legal (slot : Slot) (word : String) : Prop :=
  (∃ o ∈ stock.offers vocab slot, eqIgnoreCase o.1 word) ∨ (stock.reads vocab slot word).isSome

/-- Two words are the same argument: the same text; or, where the word is not offered as it stands, a
value that differs in the case of its letters; or the command reads both as one. -/
def SameArgument (slot : Slot) (value word : String) : Prop :=
  value = word ∨
    ((∀ o ∈ stock.offers vocab slot, o.1 ≠ word) ∧ (∃ o ∈ stock.offers vocab slot, o.1 = value) ∧
      eqIgnoreCase value word) ∨
    ∃ r, stock.reads vocab slot value = some r ∧ stock.reads vocab slot word = some r

end Stock

section
variable {stock : Stock} {vocab : Vocabulary} {slot : Slot} {word : String}

theorem head?_rows {α : Type*} (l : List α) (f : α → String) (found : α → Bool) (tag : Tag) :
    ((l.filter found).map fun a => Entry.value (f a) tag).head? =
      ((l.find? found).map f).map fun v => .value v tag := by
  rw [List.head?_map, List.head?_filter, Option.map_map]
  rfl

/-- The words of the levels are spelled in small letters. -/
theorem lower_word (l : LogLevel) : Text.lower l.word = l.word := by
  cases l <;> decide +kernel

/-- The first row of a slot is the first value the word is found in. -/
theorem head?_vocabulary (stock : Stock) (slot : Slot) (word : String) (vocab : Vocabulary) :
    (stock.vocabulary slot word vocab).head? =
      (stock.firstFound vocab slot word).map fun v => .value v slot.tag := by
  rw [Stock.firstFound]
  cases slot with
  | contexts =>
      rw [Stock.vocabulary, values, head?_rows, Stock.offers, List.find?_map]
      simp [Function.comp_def, Slot.finds, Slot.tag]
  | skins =>
      rw [Stock.vocabulary, Stock.skinRows, head?_rows, Stock.offers, List.find?_map]
      simp [Function.comp_def, Slot.finds, Slot.tag, List.any_map, List.any_filter]
  | hide =>
      rw [Stock.vocabulary, Stock.hideable, head?_rows, Stock.offers, List.find?_map]
      simp [Function.comp_def, Slot.finds, Slot.tag]
  | «show» =>
      rw [Stock.vocabulary, values, head?_rows, Stock.offers, List.find?_map]
      simp [Function.comp_def, Slot.finds, Slot.tag]
  | intervals =>
      rw [Stock.vocabulary, Stock.intervalRows, head?_rows, Stock.offers, List.find?_map, List.find?_map]
      simp [Function.comp_def, Slot.finds, Slot.tag, startsCi]
  | levels =>
      rw [Stock.vocabulary, Stock.levelRows, head?_rows, Stock.offers, List.find?_map, List.find?_map]
      simp [Function.comp_def, Slot.finds, Slot.tag, startsCi, lower_word]
  | formats =>
      rw [Stock.vocabulary, values, head?_rows, Stock.offers, List.find?_map, List.find?_map]
      simp [Function.comp_def, Slot.finds, Slot.tag]
  | actions => rfl
  | kinds => rfl

end

/-! ### The argument at the cursor -/

/-- The argument the word at a position belongs to: the words of a name are one, and elsewhere each is its
own. -/
def Command.argument (c : Command) (args : List String) (position : ℕ) : Option String :=
  match c with
  | .hide | .show | .search => joined args
  | _ => args[position]?

/-- A word is an argument of a command at a position: of its slot there, or behind the slots of a command
that takes the rest of the line. -/
def LegalAt (stock : Stock) (vocab : Vocabulary) (c : Command) (position : ℕ) (word : String) : Prop :=
  match c.slots[position]? with
  | some slot => stock.Legal vocab slot word
  | none => c.restOfLine = true

/-- Two words are the same argument of a command at a position. -/
def SameAt (stock : Stock) (vocab : Vocabulary) (c : Command) (position : ℕ) (value word : String) : Prop :=
  match c.slots[position]? with
  | some slot => stock.SameArgument vocab slot value word
  | none => value = word

/-- The cursor stands in an argument of the command of the line, and the argument is one the command
takes. -/
structure Argument (stock : Stock) (vocab : Vocabulary) (p : Palette) (head : Command) (position : ℕ)
    (word whole : String) : Prop where
  command : p.command = some head
  completing : p.completingAtCursor = (position + 1, word)
  nonempty : word ≠ ""
  argument : head.argument p.args position = some whole
  legal : LegalAt stock vocab head position whole

/-- `enter` calls the command of the line with an argument: the words are not refused for their number,
and the row that is chosen makes that call. -/
def Runs (stock : Stock) (vocab : Vocabulary) (p : Palette) (head : Command) (position : ℕ)
    (whole : String) : Prop :=
  ∃ e args, p.current = some e ∧ e.overflows p.args = false ∧ e.call p.args = some (head, args) ∧
    ∃ value, head.argument args position = some value ∧ SameAt stock vocab head position value whole

/-- The argument typed is the argument that is run. -/
def Typing.Honours (stock : Stock) (t : Typing) : Prop :=
  ∀ head position word whole, Argument stock t.vocab t.palette head position word whole →
    Runs stock t.vocab t.palette head position whole

/-- The first value the word is found in is the argument itself, or it is found in none; and where the
words are counted they are not too many. -/
def Typing.OwnFirst (stock : Stock) (t : Typing) : Prop :=
  ∀ head position word whole, Argument stock t.vocab t.palette head position word whole →
    ∀ slot, head.slots[position]? = some slot →
      match stock.firstFound t.vocab slot word with
      | some v => stock.SameArgument t.vocab slot v whole ∧
          (Entry.value v slot.tag).overflows t.palette.args = false
      | none => head.overflows t.palette.args = false

section
variable {stock : Stock} {vocab : Vocabulary} {p : Palette} {head : Command} {slot : Slot} {position : ℕ}
  {word whole v : String}

theorem argument_singleton (c : Command) (text : String) : c.argument [text] 0 = some text := by
  cases c <;> rfl

/-- What is called with an argument is run with it. -/
theorem Runs.enter (h : Runs stock vocab p head position whole) :
    ∃ e args, p.current = some e ∧ (∀ view, choose view e p.args = run view head args) ∧
      ∃ value, head.argument args position = some value ∧ SameAt stock vocab head position value whole := by
  obtain ⟨e, args, he, hover, hcall, hvalue⟩ := h
  exact ⟨e, args, he, fun view => choose_of_call hover hcall, hvalue⟩

/-- A slot that offers values is the only one of its command, and its rows run that command. -/
theorem tag_command_of_firstFound (hslot : head.slots[position]? = some slot)
    (hv : stock.firstFound vocab slot word = some v) : slot.tag.command = head ∧ position = 0 := by
  have hnone : slot ≠ .actions ∧ slot ≠ .kinds := by
    constructor <;> (rintro rfl; simp [Stock.firstFound, Stock.offers] at hv)
  have hmem : slot ∈ head.slots := List.mem_of_getElem? hslot
  have hlt : position < head.slots.length := (List.getElem?_eq_some_iff.1 hslot).1
  cases head <;> simp_all [Command.slots, Slot.tag, Tag.command]

namespace Argument

variable (h : Argument stock vocab p head position word whole)
include h

theorem slots_eq : p.slots = head.slots := by
  rw [slots, h.command]
  rfl

/-- Where no slot offers a value for the word the list is the command as typed. -/
theorem rows_of_none
    (hnone : ∀ slot, head.slots[position]? = some slot → stock.firstFound vocab slot word = none) :
    (p.ranked stock vocab).2 = [.command head] := by
  have hrows : ((p.slots[position]?).map fun s => stock.vocabulary s word vocab).getD [] = [] := by
    rw [h.slots_eq]
    cases hslot : head.slots[position]? with
    | none => rfl
    | some slot =>
        have := head?_vocabulary stock slot word vocab
        rw [hnone slot hslot, Option.map_none, List.head?_eq_none_iff] at this
        exact this
  rw [ranked, h.completing]
  simp only [Nat.add_one_ne_zero, if_false, Nat.add_sub_cancel, hrows, h.command]

/-- Where a slot offers a value for the word the first of them leads the list. -/
theorem head?_rows_of_some (hslot : head.slots[position]? = some slot)
    (hv : stock.firstFound vocab slot word = some v) :
    (p.ranked stock vocab).2.head? = some (.value v slot.tag) := by
  have hhead := head?_vocabulary stock slot word vocab
  rw [hv, Option.map_some] at hhead
  have hrows : ((p.slots[position]?).map fun s => stock.vocabulary s word vocab).getD [] =
      stock.vocabulary slot word vocab := by
    rw [h.slots_eq, hslot]
    rfl
  rw [ranked, h.completing]
  simp only [Nat.add_one_ne_zero, if_false, Nat.add_sub_cancel, hrows]
  cases hl : stock.vocabulary slot word vocab with
  | nil => simp [hl] at hhead
  | cons row rows => simpa [hl] using hhead

/-- The command as typed is run with the argument as typed, unless the words are too many. -/
theorem runs_command_iff (hcurrent : p.current = some (.command head)) :
    Runs stock vocab p head position whole ↔ head.overflows p.args = false := by
  constructor
  · rintro ⟨e, args, he, hover, -⟩
    obtain rfl := Option.some.inj (hcurrent.symm.trans he)
    simpa [Entry.overflows, Entry.counted] using hover
  · intro hover
    refine ⟨_, p.args, hcurrent, by simpa [Entry.overflows, Entry.counted] using hover, rfl, whole,
      h.argument, ?_⟩
    rw [SameAt]
    split
    · exact .inl rfl
    · rfl

end Argument

theorem runs_value_iff (hcurrent : p.current = some (.value v slot.tag)) (hslot : head.slots[position]? = some slot)
    (hv : stock.firstFound vocab slot word = some v) :
    Runs stock vocab p head position whole ↔
      stock.SameArgument vocab slot v whole ∧ (Entry.value v slot.tag).overflows p.args = false := by
  obtain ⟨htag, rfl⟩ := tag_command_of_firstFound hslot hv
  have hsame : SameAt stock vocab head 0 v whole ↔ stock.SameArgument vocab slot v whole := by
    rw [SameAt, hslot]
  constructor
  · rintro ⟨e, args, he, hover, hcall, value, hvalue, hsame'⟩
    obtain rfl := Option.some.inj (hcurrent.symm.trans he)
    obtain ⟨-, rfl⟩ := Prod.mk.inj (Option.some.inj hcall)
    rw [argument_singleton, Option.some.injEq] at hvalue
    subst hvalue
    exact ⟨hsame.1 hsame', hover⟩
  · rintro ⟨hsame', hover⟩
    exact ⟨_, [v], hcurrent, hover, by rw [Entry.call, htag], v, argument_singleton head v, hsame.2 hsame'⟩

/-- **The argument typed is the argument that is run, exactly when the first value the word is found in is
that argument or it is found in none.**  This after every run of keys, whatever is offered at each of them,
with the selection where the last edit put it. -/
theorem honours_iff (history : List String) (start : String) (es : List Press) (t : Typing)
    (hrun : Run.exec (Typing.step stock) (Typing.opened stock history start vocab) es = some t)
    (hm : t.moved = false) : t.Honours stock ↔ t.OwnFirst stock := by
  have hcurrent := Typing.current_of_unmoved (Typing.fresh_of_run hrun) hm
  constructor
  · intro hall head position word whole harg slot hslot
    have hruns := hall head position word whole harg
    cases hv : stock.firstFound t.vocab slot word with
    | none =>
        refine (harg.runs_command_iff ?_).1 hruns
        rw [hcurrent, harg.rows_of_none (fun slot' hslot' => by
          obtain rfl := Option.some.inj (hslot.symm.trans hslot')
          exact hv)]
        rfl
    | some v =>
        exact (runs_value_iff (hcurrent.trans (harg.head?_rows_of_some hslot hv)) hslot hv).1 hruns
  · intro hall head position word whole harg
    cases hslot : head.slots[position]? with
    | none =>
        refine (harg.runs_command_iff ?_).2 ?_
        · rw [hcurrent, harg.rows_of_none (fun slot' hslot' => by simp [hslot] at hslot')]
          rfl
        · -- a word behind the slots is an argument of a command that takes the rest of the line
          have hrest : head.restOfLine = true := by
            have := harg.legal
            rwa [LegalAt, hslot] at this
          simp [Command.overflows, hrest]
    | some slot =>
        have hown := hall head position word whole harg slot hslot
        cases hv : stock.firstFound t.vocab slot word with
        | none =>
            rw [hv] at hown
            refine (harg.runs_command_iff ?_).2 hown
            rw [hcurrent, harg.rows_of_none (fun slot' hslot' => by
              obtain rfl := Option.some.inj (hslot.symm.trans hslot')
              exact hv)]
            rfl
        | some v =>
            rw [hv] at hown
            exact (runs_value_iff (hcurrent.trans (harg.head?_rows_of_some hslot hv)) hslot hv).2 hown

/-- Five minutes typed after `refresh` are run as five minutes. -/
theorem honours_minutes : ∃ t, Run.exec (Typing.step {}) (Typing.opened {} [] "refresh " {})
    [.key (.char '5') {}, .key (.char 'm') {}] = some t ∧ t.Honours {} := by
  let run := Run.exec (Typing.step {}) (Typing.opened {} [] "refresh " {})
    [.key (.char '5') {}, .key (.char 'm') {}]
  have hline : run.map (fun t => (t.moved, t.palette.command, t.palette.completingAtCursor, t.palette.args)) =
      some (false, some .refresh, (1, "5m"), ["5m"]) := by
    decide +kernel
  obtain ⟨t, hrun, ht⟩ := Option.map_eq_some_iff.1 hline
  obtain ⟨hm, hcommand, hat, hargs⟩ : _ ∧ _ ∧ _ ∧ _ := by simpa only [Prod.mk.injEq] using ht
  refine ⟨t, hrun, (honours_iff [] "refresh " _ t hrun hm).2 ?_⟩
  intro head position word whole harg slot hslot
  obtain rfl := Option.some.inj (hcommand.symm.trans harg.command)
  obtain ⟨rfl, rfl⟩ : position = 0 ∧ "5m" = word := by
    simpa using Prod.mk.inj (harg.completing.symm.trans hat).symm
  obtain rfl : Slot.intervals = slot := by simpa [Command.slots] using hslot
  obtain rfl : "5m" = whole := by simpa [Command.argument, hargs] using harg.argument
  have hfound : ({} : Stock).firstFound t.vocab .intervals "5m" = some "5m" := by
    have : (({} : Stock).ladder.map shown).find? (fun s => startsCi s "5m") = some "5m" := by decide +kernel
    rw [List.find?_map] at this
    rw [Stock.firstFound, Stock.offers, List.find?_map]
    simpa [Function.comp_def, Slot.finds] using this
  rw [hfound]
  exact ⟨.inl rfl, by rw [hargs]; rfl⟩

/-- Six seconds typed after `refresh` are run as six hours: the first rung that begins with `6`. -/
theorem not_honours : ¬ ∀ (stock : Stock) (vocab : Vocabulary) (history : List String) (start : String)
    (es : List Press) (t : Typing),
    Run.exec (Typing.step stock) (Typing.opened stock history start vocab) es = some t →
      t.moved = false → t.Honours stock := by
  intro hall
  let run := Run.exec (Typing.step {}) (Typing.opened {} [] "refresh " {}) [.key (.char '6') {}]
  have hrow : run.map (fun t => (t.moved, t.palette.current)) =
      some (false, some (.value "6h" .interval)) := by
    decide +kernel
  have hline : run.map (fun t => (t.palette.command, t.palette.completingAtCursor, t.palette.args)) =
      some (some .refresh, (1, "6"), ["6"]) := by
    decide +kernel
  obtain ⟨t, hrun, ht⟩ := Option.map_eq_some_iff.1 hrow
  obtain ⟨hm, hcurrent⟩ := Prod.mk.inj ht
  rw [hrun, Option.map_some, Option.some.injEq] at hline
  obtain ⟨hcommand, hat, hargs⟩ : _ ∧ _ ∧ _ := by simpa only [Prod.mk.injEq] using hline
  have hhours : ({} : Stock).parseInterval "6h" = some (.secs 21600) := by decide +kernel
  have hsecs : ({} : Stock).parseInterval "6" = some (.secs 6) := by decide +kernel
  have harg : Argument {} t.vocab t.palette .refresh 0 "6" "6" :=
    { command := hcommand
      completing := hat
      nonempty := by decide
      argument := by rw [hargs]; rfl
      legal := .inr (by simp [Stock.reads, hsecs]) }
  obtain ⟨e, args, he, -, hcall, value, hvalue, hsame⟩ := hall {} {} [] "refresh " _ t hrun hm _ _ _ _ harg
  obtain rfl := Option.some.inj (hcurrent.symm.trans he)
  obtain ⟨-, rfl⟩ := Prod.mk.inj (Option.some.inj hcall)
  obtain rfl : "6h" = value := Option.some.inj hvalue
  obtain h | ⟨-, -, h⟩ | ⟨r, h, h'⟩ := hsame
  · exact absurd h (by decide)
  · exact absurd h (by decide +kernel)
  · obtain rfl : Reading.interval (.secs 21600) = r := by simpa [Stock.reads, hhours] using h
    simp [Stock.reads, hsecs] at h'

end

end Nutsh.Palette
