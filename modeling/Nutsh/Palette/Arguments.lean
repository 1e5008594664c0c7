/-
The words typed after a command.

The words are counted, a row of the command is given all of them, and a completed argument is run with
itself alone.  So a word is lost where a completed argument is chosen on a line that holds others, where
the row chosen is not the command's own, where an export names its format twice, and where a rhythm is
given with no kind in view.

* `Act.AccountsFor` — what is done accounts for every word;
* `Palette.Accounts`, `Palette.Keeps` — `enter` accounts for the line, and when it does;
* `exportArgs_eq` — what an export reads its words as;
* `mem_vocabulary_tag`, `not_value_mem_headRanking` — where completed arguments come from;
* `accounts_iff` — every word is accounted for, or the line refused, exactly so;
* `head?_headRanking`, `keeps_head_iff` — with the cursor in the head word the command's own row leads the
  list.
-/
import Mathlib.Data.List.TakeWhile
import Nutsh.Palette.Typed

set_option relaxedAutoImplicit false
set_option autoImplicit false

namespace Nutsh.Palette

/-- What is done accounts for every word: each is an argument that is acted on or a part of one, or the
line is refused aloud. -/
def Act.AccountsFor (words : List String) : Act → Prop
  | .refused _ | .answered _ => True
  | .connect session peers => words.head? = some session ∧ ∀ w ∈ words, w = session ∨ w ∈ peers
  | .skin name => words = [name]
  | .search term => term = " ".intercalate words
  | .export format path =>
      ∃ named : Option String, words = named.toList ++ path.toList ∧
        (named.map Format.parse).getD (.ok .csv) = .ok format
  | .canI action k => words = [action, k]
  | .tryKind term => words = [term]
  | .log level => words = level.toList
  | .refresh _ rung => words = [rung]
  | .nav name _ => name = joined words
  | _ => words = []

/-- The words of the line with the one at the cursor completed; in a gap the completion is a word more. -/
def completed (p : Palette) (text : String) : List String :=
  if p.completingAtCursor.2 = "" then p.args.insertIdx (p.completingAtCursor.1 - 1) text
  else p.args.set (p.completingAtCursor.1 - 1) text

/-- The words of the line as the row that is chosen leaves them. -/
def typed (p : Palette) : Entry → List String
  | .value text _ => p.completed text
  | _ => p.args

/-- `enter` refuses the line for the number of its words, or runs its command and accounts for every
word. -/
def Accounts (view : Option Kind) (p : Palette) : Prop :=
  ∃ e, p.current = some e ∧
    ((∃ status, choose view e p.args = .refused status) ∨
      (e.call p.args).map Prod.fst = p.command ∧ (choose view e p.args).AccountsFor (p.typed e))

/-! ### When the words are kept -/

/-- Whether a word names a format. -/
def isFormat (word : String) : Bool := (Format.parse word).toOption.isSome

/-- Whether a word that is no format is read as a path. -/
def isPath (word : String) : Bool := word.toList.contains '/' || word.toList.contains '.'

/-- The words of an export that is not refused: formats, and after them nothing or a path. -/
def Exports (args : List String) : Prop :=
  args.dropWhile isFormat = [] ∨ ∃ path, args.dropWhile isFormat = [path] ∧ isPath path = true

/-- A command acts on all its words: an export that is not refused names at most one format, and a rhythm
has a kind in view. -/
def Command.Keeps (view : Option Kind) (c : Command) (args : List String) : Prop :=
  (c = .export → Exports args → (args.takeWhile isFormat).length ≤ 1) ∧
    (c = .refresh → args ≠ [] → view.isSome)

/-- The words of the line beside the one at the cursor. -/
def others (p : Palette) : List String := if p.completingAtCursor.2 = "" then p.args else p.args.tail

/-- The words of the line are kept by the row that is chosen: it is the command's own and the command acts
on all of them, or a completed argument beside which there is no word but the same context again; or the
row refuses their number. -/
def Keeps (view : Option Kind) (p : Palette) : Prop :=
  ∃ e, p.current = some e ∧
    (e.overflows p.args = true ∨
      match e with
      | .command c => p.command = some c ∧ c.Keeps view p.args
      | .value text tag =>
          (∀ w ∈ p.others, tag = .context ∧ w = text) ∧ (tag = .interval → view.isSome)
      | _ => False)

/-! ### Where completed arguments come from -/

section
variable {stock : Stock} {vocab : Vocabulary} {slot : Slot} {word text : String} {tag : Tag} {p : Palette}
  {view : Option Kind} {head : Command} {args : List String}

theorem mem_vocabulary_tag (h : Entry.value text tag ∈ stock.vocabulary slot word vocab) :
    tag = slot.tag ∧ (tag = .format → ∃ f : Format, text = f.word) := by
  have hvalues : ∀ (l : List String) (t : Tag), Entry.value text tag ∈ l.map (fun v => Entry.value v t) →
      tag = t := by
    intro l t hmem
    obtain ⟨v, -, hv⟩ := List.mem_map.1 hmem
    exact (Entry.value.inj hv).2.symm
  cases slot with
  | contexts => exact ⟨hvalues _ _ h, by rw [hvalues _ _ h]; intro h'; cases h'⟩
  | skins => exact ⟨hvalues _ _ h, by rw [hvalues _ _ h]; intro h'; cases h'⟩
  | «show» => exact ⟨hvalues _ _ h, by rw [hvalues _ _ h]; intro h'; cases h'⟩
  | intervals => exact ⟨hvalues _ _ h, by rw [hvalues _ _ h]; intro h'; cases h'⟩
  | levels => exact ⟨hvalues _ _ h, by rw [hvalues _ _ h]; intro h'; cases h'⟩
  | hide =>
      obtain ⟨n, -, hn⟩ := List.mem_map.1 h
      obtain ⟨-, rfl⟩ := Entry.value.inj hn
      exact ⟨rfl, fun h' => by cases h'⟩
  | formats =>
      refine ⟨hvalues _ _ h, fun _ => ?_⟩
      obtain ⟨v, hv, hv'⟩ := List.mem_map.1 h
      obtain ⟨f, -, rfl⟩ := List.mem_map.1 (List.mem_filter.1 hv).1
      exact ⟨f, (Entry.value.inj hv').1.symm⟩
  | actions => simp [Stock.vocabulary] at h
  | kinds => simp [Stock.vocabulary] at h

theorem not_value_mem_listed {unavailable : Kind → Option String} {rows : List Row}
    (hrows : ∀ r ∈ rows, ∀ text tag, r.entry ≠ .value text tag) :
    ∀ (seen : List (ℕ × String)) (kinds : ℕ), Entry.value text tag ∉ stock.listed unavailable seen kinds rows := by
  induction rows with
  | nil => exact fun _ _ => by simp [Stock.listed]
  | cons r rows ih =>
      have hrest := ih fun r' hr' => hrows r' (List.mem_cons_of_mem _ hr')
      intro seen kinds
      rw [Stock.listed]
      split
      · exact hrest _ _
      · split
        · split
          · exact hrest _ _
          · rintro (_ | ⟨_, hmem⟩)
            exact hrest _ _ hmem
        · intro hmem
          obtain heq | hmem := List.mem_cons.1 hmem
          · exact hrows r List.mem_cons_self text tag heq.symm
          · exact hrest _ _ hmem

theorem not_value_mem_headRanking : Entry.value text tag ∉ stock.headRanking word vocab :=
  not_value_mem_listed (fun _ hr => (Stock.mem_rows ((List.mem_insertionSort _).1 hr)).not_value) _ _

/-- A completed argument that is chosen stands at the first position behind the command of the line. -/
theorem value_of_current (hrows : p.entries = (p.ranked stock vocab).2) (hhead : p.command = some head)
    (hcurrent : p.current = some (.value text tag)) :
    p.completingAtCursor.1 = 1 ∧ tag.command = head ∧ (tag = .format → ∃ f : Format, text = f.word) := by
  have hmem : Entry.value text tag ∈ (p.ranked stock vocab).2 := hrows ▸ List.mem_of_getElem? hcurrent
  have hslots : p.slots = head.slots := by
    rw [slots, hhead]
    rfl
  obtain ⟨position, word, hat⟩ : ∃ position word, p.completingAtCursor = (position, word) := ⟨_, _, rfl⟩
  rw [ranked, hat] at hmem
  rw [hat]
  by_cases hzero : position = 0
  · simp only [hzero, if_true] at hmem
    exact absurd hmem not_value_mem_headRanking
  · simp only [hzero, if_false, hslots] at hmem
    cases hslot : head.slots[position - 1]? with
    | none => simp [hslot, hhead] at hmem
    | some slot =>
        simp only [hslot, Option.map_some, Option.getD_some] at hmem
        cases hvoc : stock.vocabulary slot word vocab with
        | nil => simp [hvoc, hhead] at hmem
        | cons row rows =>
            rw [hvoc] at hmem
            have hfirst := head?_vocabulary stock slot word vocab
            rw [hvoc, List.head?_cons] at hfirst
            obtain ⟨v, hv, -⟩ := Option.map_eq_some_iff.1 hfirst.symm
            obtain ⟨htag, hone⟩ := tag_command_of_firstFound hslot hv
            have hmem' : Entry.value text tag ∈ stock.vocabulary slot word vocab := by rw [hvoc]; exact hmem
            obtain ⟨rfl, hformat⟩ := mem_vocabulary_tag hmem'
            exact ⟨by omega, htag, hformat⟩

/-! ### What a command acts on -/

/-- A path ends the words of an export. -/
theorem exportArgs_path (f : Format) (path : String) (args : List String) :
    exportArgs f (some path) args =
      if args = [] then .ok (f, some path) else .error "export: [csv|json] [path], nothing more" := by
  cases args <;> rfl

theorem parse_error {word why : String} (h : Format.parse word = .error why) :
    why = s!"{Text.lower word} is not a format; csv or json" := by
  rw [Format.parse] at h
  split at h
  · cases h
  · split at h
    · cases h
    · exact (Except.error.inj h).symm

/-- The last format named is the one that is written; what follows the formats is a path or is refused. -/
theorem exportArgs_eq (f : Format) (args : List String) :
    exportArgs f none args =
      let f' := (args.takeWhile isFormat).foldl (fun f w => (Format.parse w).toOption.getD f) f
      match args.dropWhile isFormat with
      | [] => .ok (f', none)
      | w :: ws =>
          if isPath w then
            if ws = [] then .ok (f', some w) else .error "export: [csv|json] [path], nothing more"
          else .error s!"export: {Text.lower w} is not a format; csv or json" := by
  induction args generalizing f with
  | nil => rfl
  | cons w ws ih =>
      rw [exportArgs]
      cases hw : Format.parse w with
      | ok g =>
          have hfmt : isFormat w = true := by rw [isFormat, hw]; rfl
          simp only [ih g, List.takeWhile_cons, List.dropWhile_cons, hfmt, if_true, List.foldl_cons, hw,
            Except.toOption, Option.getD_some]
      | error why =>
          have hfmt : isFormat w = false := by rw [isFormat, hw]; rfl
          have hbare : (!w.toList.contains '/' && !w.toList.contains '.') = !isPath w := by
            rw [isPath, Bool.not_or]
          simp only [List.takeWhile_cons, List.dropWhile_cons, hfmt, exportArgs_path, hbare, parse_error hw,
            Bool.false_eq_true, if_false, List.foldl_nil]
          cases isPath w <;> simp [toString, String.append_assoc]

/-- An export accounts for its words exactly when it is refused, or names one format at most. -/
theorem accountsFor_export :
    (run view .export args).AccountsFor args ↔
      (Exports args → (args.takeWhile isFormat).length ≤ 1) := by
  have hsplit : args.takeWhile isFormat ++ args.dropWhile isFormat = args := List.takeWhile_append_dropWhile
  -- one word that names a format names the one written
  have hone : ∀ path : Option String, args.dropWhile isFormat = path.toList →
      ((∃ named : Option String, args = named.toList ++ path.toList ∧
        (named.map Format.parse).getD (.ok .csv) =
          .ok ((args.takeWhile isFormat).foldl (fun f w => (Format.parse w).toOption.getD f) .csv)) ↔
        (args.takeWhile isFormat).length ≤ 1) := by
    intro path hpath
    rw [hpath] at hsplit
    constructor
    · rintro ⟨named, hnamed, -⟩
      have : args.takeWhile isFormat = named.toList :=
        List.append_cancel_right (hsplit.trans hnamed)
      rw [this]
      cases named <;> simp
    · intro hlen
      cases hf : args.takeWhile isFormat with
      | nil => exact ⟨none, by rw [← hsplit, hf]; rfl, rfl⟩
      | cons w ws =>
          rw [hf, List.length_cons] at hlen
          obtain rfl : ws = [] := List.length_eq_zero_iff.1 (by omega)
          refine ⟨some w, by rw [← hsplit, hf]; rfl, ?_⟩
          have hw : isFormat w = true :=
            List.mem_takeWhile_imp (l := args) (hf ▸ List.mem_cons_self)
          rw [isFormat] at hw
          cases hparse : Format.parse w with
          | ok g => simp [hparse, Except.toOption]
          | error why => simp [hparse, Except.toOption] at hw
  rw [run, exportArgs_eq]
  cases hrest : args.dropWhile isFormat with
  | nil =>
      have h := hone none hrest
      simpa [Act.AccountsFor, Exports, hrest] using h
  | cons w ws =>
      cases hpath : isPath w with
      | false => simp [Act.AccountsFor, Exports, hrest, hpath]
      | true =>
          cases ws with
          | nil =>
              have h := hone (some w) hrest
              simpa [Act.AccountsFor, Exports, hrest, hpath] using h
          | cons w' ws => simp [Act.AccountsFor, Exports, hrest, hpath]

/-- A command whose words are not too many accounts for them exactly when it keeps them. -/
theorem accountsFor_run {c : Command} (hover : c.overflows args = false) :
    (run view c args).AccountsFor args ↔ c.Keeps view args := by
  have hcount : c.restOfLine = false → args.length ≤ c.slots.length := by
    intro hrest
    simpa [Command.overflows, hrest] using hover
  have hnil : c.slots = [] → c.restOfLine = false → args = [] := by
    intro hslots hrest
    have := hcount hrest
    rw [hslots, List.length_nil] at this
    exact List.length_eq_zero_iff.1 (by omega)
  have hone : c.slots.length = 1 → c.restOfLine = false → args = [] ∨ ∃ w, args = [w] := by
    intro hslots hrest
    have := hcount hrest
    rw [hslots] at this
    rcases args with _ | ⟨w, _ | ⟨v, ws⟩⟩
    · exact .inl rfl
    · exact .inr ⟨w, rfl⟩
    · simp at this
  cases c with
  | ctx =>
      cases args with
      | nil => simp [run, Act.AccountsFor, Command.Keeps]
      | cons w ws => simp +contextual [run, Act.AccountsFor, Command.Keeps, Classical.em]
  | «export» => simpa [Command.Keeps] using accountsFor_export
  | search => simp [run, Act.AccountsFor, Command.Keeps]
  | hide => simp [run, Act.AccountsFor, Command.Keeps]
  | «show» => simp [run, Act.AccountsFor, Command.Keeps]
  | canI =>
      have hlength := hcount rfl
      rcases args with _ | ⟨a, _ | ⟨k, _ | ⟨w, ws⟩⟩⟩
      · simp [run, Act.AccountsFor, Command.Keeps]
      · simp [run, Act.AccountsFor, Command.Keeps]
      · simp [run, Act.AccountsFor, Command.Keeps]
      · simp [Command.slots] at hlength
  | refresh =>
      obtain rfl | ⟨w, rfl⟩ := hone rfl rfl <;> cases view <;>
        simp [run, Act.AccountsFor, Command.Keeps]
  | skin => obtain rfl | ⟨w, rfl⟩ := hone rfl rfl <;> simp [run, Act.AccountsFor, Command.Keeps]
  | «try» => obtain rfl | ⟨w, rfl⟩ := hone rfl rfl <;> simp [run, Act.AccountsFor, Command.Keeps]
  | log => obtain rfl | ⟨w, rfl⟩ := hone rfl rfl <;> simp [run, Act.AccountsFor, Command.Keeps]
  | quit => simp [run, Act.AccountsFor, Command.Keeps, hnil rfl rfl]
  | help => simp [run, Act.AccountsFor, Command.Keeps, hnil rfl rfl]
  | journal => simp [run, Act.AccountsFor, Command.Keeps, hnil rfl rfl]
  | activity => simp [run, Act.AccountsFor, Command.Keeps, hnil rfl rfl]
  | mouse => simp [run, Act.AccountsFor, Command.Keeps, hnil rfl rfl]
  | header => simp [run, Act.AccountsFor, Command.Keeps, hnil rfl rfl]
  | settings => simp [run, Act.AccountsFor, Command.Keeps, hnil rfl rfl]
  | all => simp [run, Act.AccountsFor, Command.Keeps, hnil rfl rfl]

/-- A name of several words is not its first word. -/
theorem joined_cons_eq_iff (text : String) (rest : List String) :
    joined [text] = joined (text :: rest) ↔ rest = [] := by
  constructor
  · intro h
    cases rest with
    | nil => rfl
    | cons w ws =>
        have hlen := congrArg (fun s : Option String => (s.map fun s => s.toList.length)) h
        simp [joined, String.intercalate_cons_cons] at hlen
  · rintro rfl
    rfl

/-- A completed argument accounts for itself, for the same context named again, and for no other word. -/
theorem accountsFor_value (hformat : tag = .format → ∃ f : Format, text = f.word) (rest : List String) :
    (run view tag.command [text]).AccountsFor (text :: rest) ↔
      (∀ w ∈ rest, tag = .context ∧ w = text) ∧ (tag = .interval → view.isSome) := by
  have hnil : (∀ w ∈ rest, False) ↔ rest = [] := by
    rw [List.eq_nil_iff_forall_not_mem]
  cases tag with
  | context => simp [run, Tag.command, Act.AccountsFor]
  | skin => simp [run, Tag.command, Act.AccountsFor, hnil]
  | level => simp [run, Tag.command, Act.AccountsFor, hnil]
  | interval => cases view <;> simp [run, Tag.command, Act.AccountsFor, hnil]
  | nav hide => cases hide <;> simp [run, Tag.command, Act.AccountsFor, joined_cons_eq_iff, hnil]
  | format =>
      obtain ⟨f, rfl⟩ := hformat rfl
      have hparse : Format.parse f.word = .ok f := by cases f <;> decide +kernel
      have hrun : run view .export [f.word] = .export f none := by
        simp [run, exportArgs, hparse]
      simp only [Tag.command, hrun, Act.AccountsFor, Option.toList_none, List.append_nil]
      constructor
      · rintro ⟨named, hnamed, -⟩
        cases named <;> simp_all
      · rintro ⟨hrest, -⟩
        exact ⟨some f.word, by simp [hnil.1 (by simpa using hrest)], by simp [hparse]⟩

/-! ### The head of a line -/

/-- No two commands are typed alike. -/
theorem eq_of_eqIgnoreCase_label {c d : Command} (hc : eqIgnoreCase c.label word = true)
    (hd : eqIgnoreCase d.label word = true) : c = d := by
  have hlabels : ∀ c ∈ COMMANDS, ∀ d ∈ COMMANDS, Text.lower c.label = Text.lower d.label → c = d := by
    decide +kernel
  have hmem : ∀ c, c ∈ COMMANDS := by
    intro c
    cases c <;> decide
  rw [eqIgnoreCase, beq_iff_eq] at hc hd
  exact hlabels c (hmem c) d (hmem d) (hc.trans hd.symm)

/-- What leads the sorted rows is a row no other comes before. -/
theorem head?_insertionSort {rows : List Row} {r : Row} (hr : r ∈ rows) :
    ∃ first ∈ rows, (rows.insertionSort fun a b => a.place ≤ b.place).head? = some first ∧
      first.place ≤ r.place := by
  have : Std.Total fun a b : Row => a.place ≤ b.place := ⟨fun a b => le_total a.place b.place⟩
  have : IsTrans Row fun a b => a.place ≤ b.place := ⟨fun _ _ _ => le_trans⟩
  have hsorted := List.pairwise_insertionSort (fun a b : Row => a.place ≤ b.place) rows
  have hmem := (List.mem_insertionSort fun a b : Row => a.place ≤ b.place).2 hr
  cases hl : rows.insertionSort fun a b => a.place ≤ b.place with
  | nil => simp [hl] at hmem
  | cons first rest =>
      rw [hl] at hsorted hmem
      refine ⟨first, (List.mem_insertionSort fun a b : Row => a.place ≤ b.place).1 (by simp [hl]), rfl, ?_⟩
      obtain rfl | hmem := List.mem_cons.1 hmem
      · exact le_refl _
      · exact (List.pairwise_cons.1 hsorted).1 r hmem

/-- A row of the best rank that is a command and was not found by a label of the menu is the row of the
command typed. -/
theorem entry_of_best {r : Row} (h : r ∈ stock.rows word) (hrank : r.rank = 0) (hclass : r.class = 0)
    (hroute : r.route = 0) {c : Command} (hc : eqIgnoreCase c.label word = true) : r.entry = .command c := by
  cases Stock.mem_rows h with
  | label d hd => exact congrArg Entry.command (eq_of_eqIgnoreCase_label hd hc)
  | start d => cases hrank
  | kind k rank route => cases hclass
  | page p rank route => cases hclass
  | nav d rank route hne => exact absurd hroute hne
  | missing item rank route => cases hclass

/-- With the cursor in the head word the command's own row leads the list. -/
theorem head?_headRanking {c : Command} (hc : headCommand word = some c) :
    (stock.headRanking word vocab).head? = some (.command c) := by
  have hlabel : eqIgnoreCase c.label word = true := by
    have := List.find?_some hc
    exact this
  have hmem : Row.ofCommand c 0 0 ∈ stock.rows word := by
    refine List.mem_append_left _ (List.mem_filterMap.2 ⟨c, List.mem_of_find?_eq_some hc, ?_⟩)
    rw [if_pos hlabel]
  obtain ⟨first, hfirst, hhead, hle⟩ := head?_insertionSort hmem
  -- it has the best rank, does not sink, is a command and was not found by a label of the menu
  have hentry : first.entry = .command c := by
    simp only [Row.place, Row.ofCommand, Prod.Lex.toLex_le_toLex, Nat.not_lt_zero, false_or] at hle
    exact entry_of_best hfirst hle.1 hle.2.2.1 hle.2.2.2.1 hlabel
  rw [Stock.headRanking]
  cases hl : (stock.rows word).insertionSort fun a b => a.place ≤ b.place with
  | nil => simp [hl] at hhead
  | cons r rest =>
      rw [hl, List.head?_cons, Option.some.injEq] at hhead
      subst hhead
      simp [Stock.listed, hentry]

/-! ### Every word is kept, or the line refused -/

/-- With the word of the first argument at the cursor, the completion takes its place. -/
theorem completed_eq (hone : p.completingAtCursor.1 = 1) : p.completed text = text :: p.others := by
  rw [completed, others, hone]
  split
  · simp
  · next hword =>
      have hget : p.words[1]? = some p.completingAtCursor.2 :=
        @getElem?_completing _ _ p.slots.length _ _ (by rw [← hone]; rfl) hword
      rw [args]
      match hw : p.words, hget with
      | head :: w :: ws, _ => rfl

/-- A row refuses the line exactly when it counts too many words. -/
theorem choose_refused_iff {e : Entry} :
    (∃ status, choose view e args = .refused status) ↔ e.overflows args = true := by
  constructor
  · rintro ⟨status, h⟩
    by_contra hover
    rw [Bool.not_eq_true] at hover
    cases hcall : e.call args with
    | some call =>
        rw [choose_of_call hover hcall] at h
        exact run_ne_refused _ _ h
    | none =>
        cases e with
        | command c => cases hcall
        | value text tag => cases hcall
        | kind k reason => simp [choose, Entry.counted] at h
        | page p => simp [choose, Entry.counted] at h
        | missing item => simp [choose, Entry.counted] at h
  · exact choose_of_overflows

/-- **`enter` accounts for every word or refuses the line for their number, exactly when the words are
kept**: on every line whose head is a command, wherever the cursor stands and whichever row is
selected. -/
theorem accounts_iff (view : Option Kind) (hrows : p.entries = (p.ranked stock vocab).2)
    (hhead : p.command = some head) : p.Accounts view ↔ p.Keeps view := by
  refine exists_congr fun e => and_congr_right fun hcurrent => ?_
  rw [choose_refused_iff]
  by_cases hover : e.overflows p.args = true
  · simp [hover]
  · rw [Bool.not_eq_true] at hover
    simp only [hover, Bool.false_eq_true, false_or]
    cases e with
    | command c =>
        have hcount : c.overflows p.args = false := by
          simpa [Entry.overflows, Entry.counted] using hover
        have htyped : p.typed (.command c) = p.args := rfl
        rw [choose_of_call hover rfl, htyped, accountsFor_run hcount]
        exact and_congr_left fun _ => eq_comm
    | value text tag =>
        obtain ⟨hone, htag, hformat⟩ := value_of_current hrows hhead hcurrent
        rw [choose_of_call hover rfl, typed, completed_eq hone, accountsFor_value hformat]
        simp [Entry.call, htag, hhead]
    | kind k reason => simp [Entry.call, hhead]
    | page p => simp [Entry.call, hhead]
    | missing item => simp [Entry.call, hhead]

/-- With the cursor in the head word and the selection where the last edit put it, the words are kept
exactly when the command keeps them or refuses their number. -/
theorem keeps_head_iff (hrows : p.entries = (p.ranked stock vocab).2) (hhead : p.command = some head)
    (hzero : p.selected = 0) (hat : p.completingAtCursor = (0, word)) (hword : word ≠ "") :
    p.Keeps view ↔ head.overflows p.args = true ∨ head.Keeps view p.args := by
  have hget : p.words[0]? = some word := @getElem?_completing _ _ p.slots.length _ _ hat hword
  have hcommand : headCommand word = some head := by
    rw [command, Palette.head, List.head?_eq_getElem?, hget] at hhead
    exact hhead
  have hcurrent : p.current = some (.command head) := by
    have hranked : (p.ranked stock vocab).2 = stock.headRanking word vocab := by
      rw [ranked, hat]
      rfl
    rw [current, hrows, hzero, hranked, ← List.head?_eq_getElem?, head?_headRanking hcommand]
  simp [Keeps, hcurrent, hhead, Entry.overflows, Entry.counted]

/-- The words of an export that names one format and a path are kept. -/
theorem accounts_export : (({ input := .set "export csv vms.csv" } : Palette).refresh {} {}).Accounts none :=
  (@accounts_iff {} {} _ .export none (entries_refresh _) (by decide +kernel)).2
    ⟨.command .export, by decide +kernel, .inr ⟨by decide +kernel, by
      intro _ _
      have : ((({ input := .set "export csv vms.csv" } : Palette).refresh {} {}).args.takeWhile
        isFormat).length = 1 := by decide +kernel
      omega, by decide +kernel⟩⟩

/-- With the cursor on the first of two contexts, the second is dropped and nothing is said. -/
theorem not_accounts : ¬ ∀ (stock : Stock) (vocab : Vocabulary) (p : Palette) (view : Option Kind)
    (head : Command), p.entries = (p.ranked stock vocab).2 → p.command = some head → p.Accounts view := by
  intro hall
  let p : Palette :=
    ({ input := { text := "ctx a b", cursor := 5, within := by decide } } : Palette).refresh {}
      { contexts := ["a"] }
  have hcurrent : p.current = some (.value "a" .context) := by decide +kernel
  have hargs : p.args = ["a", "b"] := by decide +kernel
  have hcompleted : p.completed "a" = ["a", "b"] := by decide +kernel
  obtain ⟨e, he, h⟩ := hall {} { contexts := ["a"] } p none .ctx (entries_refresh _) (by decide +kernel)
  obtain rfl := Option.some.inj (hcurrent.symm.trans he)
  have hchoose : choose none (.value "a" .context) p.args = .connect "a" [] := by rw [hargs]; rfl
  rw [hchoose] at h
  obtain ⟨status, h⟩ | ⟨-, -, h⟩ := h
  · cases h
  · rw [typed, hcompleted] at h
    exact absurd (h "b" (by simp)) (by decide)

end

end Nutsh.Palette
