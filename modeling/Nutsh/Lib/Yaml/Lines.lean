/-
Lines of a document, read one by one.

A plain scalar has no `: ` in it and does not begin like a dash, so that a line is told apart by its beginning: a
key goes up to the first `:` with a blank behind it, and a line without one is a scalar.

Main results:

* `Yaml.isPlain_iff` — a plain scalar, by what stands where in it;
* `Yaml.unquote_flatMap` — a quoted text that is escaped character by character;
* `Yaml.asStr_resolve` — strings under the core schema;
* `Yaml.tokens_blanks`, `Yaml.tokens_dash`, `Yaml.tokens_scalar`, `Yaml.tokens_entry`, `Yaml.tokens_key` — the tokens
  of the lines a value is laid out on;
* `Yaml.read_lines` — a document, by the tokens of its lines.
-/
import Nutsh.Lib.Yaml

set_option relaxedAutoImplicit false
set_option autoImplicit false

namespace Yaml

variable {float : String → UInt64} {after : Option Char} {cs text : List Char} {c : Char} {column : ℕ} {v : Json}

/-! ### Plain scalars -/

theorem isWhite_of_ns (h : ns c = true) : isWhite c = false := by
  simpa using (Bool.and_eq_true_iff.1 h).2

theorem ns_iff : ns c = true ↔ nb c = true ∧ isWhite c = false := by simp [ns]

/-- The characters of the rest of a plain scalar, by what stands before and behind each. -/
theorem plainRest_iff {before : Char} :
    plainRest after before cs = true ↔
      (∀ c ∈ cs, nb c = true) ∧
        (∀ front back, cs = front ++ '#' :: back → isWhite ((before :: front).getLast (by simp)) = false) ∧
          ∀ front back, cs = front ++ ':' :: back → (back.head?.or after).any ns = true := by
  induction cs generalizing before with
  | nil => simp [plainRest]
  | cons c cs ih =>
      have hhash : nb '#' = true := by decide
      have hcolon : nb ':' = true := by decide
      rw [plainRest, Bool.and_eq_true, ih, plainChar]
      constructor
      · rintro ⟨hc, hnb, hh, hk⟩
        refine ⟨List.forall_mem_cons.2 ⟨?_, hnb⟩, fun front back heq => ?_, fun front back heq => ?_⟩
        · by_cases h1 : c = '#'
          · rw [h1, hhash]
          · by_cases h2 : c = ':'
            · rw [h2, hcolon]
            · simpa [h1, h2] using hc
        · cases front with
          | nil =>
              obtain ⟨rfl, rfl⟩ := List.cons.inj heq
              simpa using hc
          | cons d front =>
              obtain ⟨rfl, rfl⟩ := List.cons.inj heq
              simpa using hh front back rfl
        · cases front with
          | nil =>
              obtain ⟨rfl, rfl⟩ := List.cons.inj heq
              simpa using hc
          | cons d front =>
              obtain ⟨rfl, rfl⟩ := List.cons.inj heq
              exact hk front back rfl
      · rintro ⟨hnb, hh, hk⟩
        obtain ⟨hc, hnb⟩ := List.forall_mem_cons.1 hnb
        refine ⟨?_, hnb, fun front back heq => ?_, fun front back heq => hk (c :: front) back (by rw [heq]; rfl)⟩
        · split
          · rename_i h1
            subst h1
            simpa using hh [] cs rfl
          · split
            · rename_i h2
              subst h2
              exact hk [] cs rfl
            · exact hc
        · simpa using hh (c :: front) back (by rw [heq]; rfl)

/-- **A plain scalar**, by what stands where in it. -/
theorem isPlain_iff :
    isPlain after cs = true ↔
      (∀ c ∈ cs, nb c = true) ∧ (∀ c ∈ cs.getLast?, isWhite c = false) ∧
        (∃ first rest, cs = first :: rest ∧ isWhite first = false ∧
          (first ∈ indicators →
            (first = '-' ∨ first = '?' ∨ first = ':') ∧ (rest.head?.or after).any ns = true)) ∧
          (∀ front back d, cs = front ++ d :: '#' :: back → isWhite d = false) ∧
            ∀ front back, cs = front ++ ':' :: back → (back.head?.or after).any ns = true := by
  cases cs with
  | nil => simp [isPlain]
  | cons first rest =>
      have hlast : (!((first :: rest).getLast?.any isWhite)) = true ↔
          ∀ c ∈ (first :: rest).getLast?, isWhite c = false := by
        rw [Bool.not_eq_true', Option.any_eq_false]
        simp
      rw [isPlain, Bool.and_eq_true, Bool.and_eq_true, hlast, plainRest_iff, plainFirst]
      simp only [Bool.and_eq_true, Bool.or_eq_true, Bool.not_eq_true', List.contains_eq_mem, decide_eq_false_iff_not,
        beq_iff_eq, ns_iff, List.forall_mem_cons, List.cons.injEq]
      constructor
      · rintro ⟨⟨⟨⟨hnb, hwhite⟩, hfirst⟩, hall, hhash, hcolon⟩, hend⟩
        refine ⟨⟨hnb, hall⟩, hend, ⟨first, rest, ⟨rfl, rfl⟩, hwhite, fun hmem => ?_⟩, ?_, ?_⟩
        · rcases hfirst with hnot | ⟨hwhich, hnext⟩
          · exact absurd hmem hnot
          · exact ⟨or_assoc.1 hwhich, hnext⟩
        · intro front back d heq
          cases front with
          | nil =>
              obtain ⟨rfl, rfl⟩ := List.cons.inj heq
              exact hhash [] back rfl
          | cons e front =>
              obtain ⟨rfl, rfl⟩ := List.cons.inj heq
              simpa using hhash (front ++ [d]) back (by simp)
        · intro front back heq
          cases front with
          | nil =>
              obtain ⟨rfl, rfl⟩ := List.cons.inj heq
              rcases hfirst with hnot | ⟨-, hnext⟩
              · exact absurd (by decide) hnot
              · exact hnext
          | cons e front =>
              obtain ⟨rfl, rfl⟩ := List.cons.inj heq
              exact hcolon front back rfl
      · rintro ⟨⟨hnb, hall⟩, hend, ⟨_, _, ⟨rfl, rfl⟩, hwhite, hfirst⟩, hhash, hcolon⟩
        refine ⟨⟨⟨⟨hnb, hwhite⟩, ?_⟩, hall, fun front back heq => ?_, fun front back heq => ?_⟩, hend⟩
        · by_cases hmem : first ∈ indicators
          · exact .inr ⟨or_assoc.2 (hfirst hmem).1, (hfirst hmem).2⟩
          · exact .inl hmem
        · subst heq
          rcases List.eq_nil_or_concat front with rfl | ⟨front, d, rfl⟩
          · exact hhash [] back _ rfl
          · simpa using hhash (first :: front) back d (by simp)
        · exact hcolon (first :: front) back (by rw [heq]; rfl)

/-! ### Keys -/

/-- A key goes up to the first `:` with a blank behind it. -/
theorem breakKey_append {tail : List Char} (htail : tail.head?.all isWhite = true)
    (h : ∀ front back, cs = front ++ ':' :: back → (back.head?.or (some ':')).any ns = true) :
    breakKey (cs ++ ':' :: tail) = some (cs, tail) := by
  induction cs with
  | nil => rw [List.nil_append, breakKey, htail]; rfl
  | cons c cs ih =>
      have hnot : ¬ (c = ':' && (cs ++ ':' :: tail).head?.all isWhite) = true := by
        rw [Bool.and_eq_true, decide_eq_true_eq]
        rintro ⟨rfl, hwhite⟩
        have hns := h [] cs rfl
        cases cs with
        | nil => exact absurd (show isWhite ':' = true from hwhite) (by decide)
        | cons d cs =>
            have hd : isWhite d = true := hwhite
            rw [isWhite_of_ns (by exact hns)] at hd
            cases hd
      rw [List.cons_append, breakKey, if_neg hnot, ih fun front back heq => h (c :: front) back (by rw [heq]; rfl)]
      rfl

theorem breakKey_eq_none (h : ∀ front back, cs = front ++ ':' :: back → (back.head?.or none).any ns = true) :
    breakKey cs = none := by
  induction cs with
  | nil => rfl
  | cons c cs ih =>
      have hnot : ¬ (c = ':' && cs.head?.all isWhite) = true := by
        rw [Bool.and_eq_true, decide_eq_true_eq]
        rintro ⟨rfl, hwhite⟩
        have hns := h [] cs rfl
        cases cs with
        | nil => cases hns
        | cons d cs =>
            have hd : isWhite d = true := hwhite
            rw [isWhite_of_ns (by exact hns)] at hd
            cases hd
      rw [breakKey, if_neg hnot, ih fun front back heq => h (c :: front) back (by rw [heq]; rfl)]
      rfl

/-! ### Tokens -/

/-- Blanks before a line only move it. -/
theorem tokens_blanks (n : ℕ) : tokens float column (List.replicate n ' ' ++ cs) = tokens float (column + n) cs := by
  induction n generalizing column with
  | zero => rfl
  | succ n ih =>
      rw [List.replicate_succ, List.cons_append, tokens, if_pos rfl, ih]
      congr 1
      omega

theorem tokens_dash :
    tokens float column ('-' :: ' ' :: cs) =
      (tokens float (column + 2) cs).map fun rest => (column, .dash) :: rest := by
  rw [tokens, if_neg (by decide), if_neg (by decide), if_pos (by rfl), tokens, if_pos rfl]

theorem tokens_dash_end (column : ℕ) : tokens float column ['-'] = some [(column, .dash)] := rfl

/-- What does not begin like a blank, a comment or a dash is one piece. -/
theorem tokens_piece (hblank : c ≠ ' ') (hcomment : c ≠ '#') (hdash : c = '-' → cs.head?.any (· != ' ') = true) :
    tokens float column (c :: cs) = (piece float (c :: cs)).map fun t => [(column, t)] := by
  have hnot : ¬ (c = '-' && cs.head?.all (· == ' ')) = true := by
    rw [Bool.and_eq_true, decide_eq_true_eq]
    rintro ⟨hc, hall⟩
    have hany := hdash hc
    cases cs with
    | nil => cases hany
    | cons d cs =>
        have h1 : (d == ' ') = true := hall
        have h2 : (d != ' ') = true := hany
        simp [bne, h1] at h2
  rw [tokens, if_neg hblank, if_neg hcomment, if_neg hnot]

/-- The beginning of a plain scalar is that of a piece. -/
theorem tokens_plain (float : String → UInt64) (column : ℕ) (tail : List Char) (h : isPlain after cs = true)
    (hafter : tail.head? = after) :
    ∃ c rest, cs = c :: rest ∧ c ≠ '"' ∧
      tokens float column (cs ++ tail) = (piece float (cs ++ tail)).map fun t => [(column, t)] := by
  obtain ⟨-, -, ⟨c, rest, rfl, hwhite, hfirst⟩, -⟩ := isPlain_iff.1 h
  have hquote : c ≠ '"' := by
    rintro rfl
    have := (hfirst (by decide)).1
    revert this
    decide
  refine ⟨c, rest, rfl, hquote, tokens_piece ?_ ?_ fun hdash => ?_⟩
  · rintro rfl
    cases hwhite
  · rintro rfl
    have := (hfirst (by decide)).1
    revert this
    decide
  · subst hdash
    have hns := (hfirst (by decide)).2
    show (rest ++ tail).head?.any (· != ' ') = true
    rw [List.head?_append, hafter]
    cases hnext : rest.head?.or after with
    | none => rw [hnext] at hns; cases hns
    | some d =>
        rw [hnext] at hns
        have hd : isWhite d = false := isWhite_of_ns (by exact hns)
        have hne : d ≠ ' ' := by
          rintro rfl
          cases hd
        simpa using hne

/-- A scalar that stands alone, by how it begins. -/
theorem scalar_cases (h : scalar float cs = some v) :
    cs = ['\x7b', '\x7d'] ∧ v = .obj [] ∨ cs = ['[', ']'] ∧ v = .arr [] ∨
      (∃ rest t, cs = '"' :: rest ∧ unquote 0 rest = some (t, []) ∧ v = .str (String.ofList t)) ∨
        isPlain none cs = true ∧ v = resolve float (String.ofList cs) := by
  rw [scalar.eq_def] at h
  split at h
  · exact .inl ⟨rfl, (Option.some.inj h).symm⟩
  · exact .inr (.inl ⟨rfl, (Option.some.inj h).symm⟩)
  · rename_i rest
    split at h
    · rename_i t hunquote
      exact .inr (.inr (.inl ⟨rest, t, rfl, hunquote, (Option.some.inj h).symm⟩))
    · cases h
  · split at h
    · rename_i hplain
      exact .inr (.inr (.inr ⟨hplain, (Option.some.inj h).symm⟩))
    · cases h

/-- A plain scalar is none of the others. -/
theorem scalar_of_isPlain (h : isPlain none cs = true) :
    scalar float cs = some (resolve float (String.ofList cs)) := by
  rw [scalar.eq_def]
  split
  · cases h
  · cases h
  · cases h
  · rw [if_pos h]

/-- The token of a scalar. -/
theorem tokens_scalar (h : scalar float cs = some v) : tokens float column cs = some [(column, .scalar v)] := by
  rcases scalar_cases h with ⟨rfl, rfl⟩ | ⟨rfl, rfl⟩ | ⟨rest, t, rfl, hunquote, rfl⟩ | ⟨hplain, hv⟩
  · rfl
  · rfl
  · rw [tokens_piece (by decide) (by decide) (fun hdash => absurd hdash (by decide)), piece]
    simp only [hunquote, Option.map_some]
  · obtain ⟨c, rest, hcs, hquote, htokens⟩ := tokens_plain float column [] hplain rfl
    rw [List.append_nil] at htokens
    obtain ⟨-, -, -, -, hcolon⟩ := isPlain_iff.1 hplain
    rw [htokens, hcs]
    rw [hcs] at hcolon h
    rw [piece.eq_def]
    split
    · rename_i hc
      exact absurd (List.cons.inj hc).1 hquote
    · rw [breakKey_eq_none hcolon]
      simp only [h, Option.map_some]

theorem scalar_ne_nil (h : scalar float cs = some v) : ∃ c rest, cs = c :: rest ∧ isWhite c = false := by
  rcases scalar_cases h with ⟨rfl, -⟩ | ⟨rfl, -⟩ | ⟨rest, t, rfl, -⟩ | ⟨hplain, -⟩
  · exact ⟨_, _, rfl, by decide⟩
  · exact ⟨_, _, rfl, by decide⟩
  · exact ⟨_, _, rfl, by decide⟩
  · obtain ⟨-, -, ⟨c, rest, hcs, hwhite, -⟩, -⟩ := isPlain_iff.1 hplain
    exact ⟨c, rest, hcs, hwhite⟩

/-- The piece of a line that begins with a key. -/
theorem tokens_of_isKey {tail : List Char} (h : isKey float cs = true) (htail : tail.head?.all isWhite = true) :
    tokens float column (cs ++ ':' :: tail) =
      (entry float (String.ofList cs) tail).map fun t => [(column, t)] := by
  have hplain : isPlain (some ':') cs = true := by
    simp only [isKey, Bool.and_eq_true] at h
    exact h.1.1
  obtain ⟨c, rest, rfl, hquote, htokens⟩ := tokens_plain float column (':' :: tail) hplain rfl
  obtain ⟨-, -, -, -, hcolon⟩ := isPlain_iff.1 hplain
  rw [htokens, piece.eq_def]
  split
  · rename_i heq
    exact absurd (List.cons.inj heq).1 hquote
  · rw [breakKey_append htail hcolon]
    simp only [h, if_true]

/-- The token of a key with its value behind it. -/
theorem tokens_entry (column : ℕ) (hkey : isKey float cs = true) (h : scalar float text = some v) :
    tokens float column (cs ++ ':' :: ' ' :: text) = some [(column, .entry (String.ofList cs) (some v))] := by
  obtain ⟨c, rest, rfl, hwhite⟩ := scalar_ne_nil h
  have hdrop : (' ' :: c :: rest).dropWhile isWhite = c :: rest := by
    rw [List.dropWhile_cons_of_pos (by decide), List.dropWhile_cons_of_neg (by simp [hwhite])]
  rw [tokens_of_isKey hkey (by rfl), entry, hdrop]
  simp only [h, Option.map_some]

/-- The token of a key alone on its line. -/
theorem tokens_key (column : ℕ) (hkey : isKey float cs = true) :
    tokens float column (cs ++ [':']) = some [(column, .entry (String.ofList cs) none)] := by
  rw [tokens_of_isKey hkey (by rfl)]
  rfl

/-! ### The core schema -/

/-- Only what is typed is not the string it is written as. -/
theorem asStr_resolve (s : String) : (resolve float s).asStr = if isTyped s then none else some s := by
  simp only [resolve, isTyped]
  split_ifs <;> simp_all [Json.asStr]

theorem resolve_eq_str {s : String} (h : isTyped s = false) : resolve float s = .str s := by
  simp only [isTyped, Bool.or_eq_false_iff] at h
  obtain ⟨⟨⟨⟨⟨⟨hnull, htrue⟩, hfalse⟩, hint⟩, hoctal⟩, hhex⟩, hreal⟩ := h
  simp only [resolve, hnull, htrue, hfalse, hint, hoctal, hhex, hreal, Bool.false_eq_true, if_false]

/-! ### Quoted texts -/

/-- A way to write a character in quotes. -/
def Spells (c : Char) (spelled : List Char) : Prop :=
  spelled = [c] ∧ nbJson c = true ∧ c ≠ '"' ∧ c ≠ '\\' ∨ ∃ e, spelled = ['\\', e] ∧ escaped e = some c

theorem unquote_spells {spelled rest : List Char} (h : Spells c spelled) :
    unquote 0 (spelled ++ rest) = (unquote 0 rest).map fun p => (c :: p.1, p.2) := by
  rcases h with ⟨rfl, hnb, hquote, hback⟩ | ⟨e, rfl, he⟩
  · rw [List.singleton_append, unquote, if_neg hquote, if_neg hback, if_pos hnb]
  · have hdigits : ¬ e = 'x' ∧ ¬ e = 'u' ∧ ¬ e = 'U' := by
      refine ⟨?_, ?_, ?_⟩ <;> rintro rfl <;> cases he
    rw [List.cons_append, List.singleton_append, unquote, if_neg (by decide), if_pos rfl, escape]
    simp only [hdigits, if_false, if_true, he, Option.map_some, Option.bind_some]
    rw [unquote]

/-- A text that is spelled character by character is read back from its quotes. -/
theorem unquote_flatMap {spell : Char → List Char} (h : ∀ c ∈ cs, Spells c (spell c)) :
    unquote 0 (cs.flatMap spell ++ ['"']) = some (cs, []) := by
  induction cs with
  | nil => rfl
  | cons c cs ih =>
      rw [List.flatMap_cons, List.append_assoc, unquote_spells (h c List.mem_cons_self),
        ih fun d hd => h d (List.mem_cons_of_mem _ hd)]
      rfl

/-- A character that may not stand in quotes is not read. -/
theorem unquote_of_not_nbJson {rest : List Char} (hc : nbJson c = false) : unquote 0 (c :: rest) = none := by
  have hquote : c ≠ '"' := by
    rintro rfl
    cases hc
  have hback : c ≠ '\\' := by
    rintro rfl
    cases hc
  rw [unquote, if_neg hquote, if_neg hback, if_neg (by simp [hc])]

theorem unquote_flatMap_none {spell : Char → List Char}
    (h : ∀ c ∈ cs, Spells c (spell c) ∨ spell c = [c] ∧ nbJson c = false)
    (hbad : ∃ c ∈ cs, spell c = [c] ∧ nbJson c = false) {rest : List Char} :
    unquote 0 (cs.flatMap spell ++ rest) = none := by
  induction cs with
  | nil =>
      obtain ⟨c, hc, -⟩ := hbad
      cases hc
  | cons c cs ih =>
      rw [List.flatMap_cons, List.append_assoc]
      by_cases hc : spell c = [c] ∧ nbJson c = false
      · rw [hc.1]
        exact unquote_of_not_nbJson hc.2
      · have hrest : ∃ d ∈ cs, spell d = [d] ∧ nbJson d = false := by
          obtain ⟨d, hd, hbad⟩ := hbad
          rcases List.mem_cons.1 hd with rfl | hd
          · exact absurd hbad hc
          · exact ⟨d, hd, hbad⟩
        rw [unquote_spells ((h c List.mem_cons_self).resolve_right hc),
          ih (fun d hd => h d (List.mem_cons_of_mem _ hd)) hrest]
        rfl

/-! ### Documents -/

theorem nb_of_isPlain (h : isPlain after cs = true) : ∀ c ∈ cs, nb c = true := (isPlain_iff.1 h).1

theorem not_mem_break (h : ∀ c ∈ cs, nb c = true) : '\n' ∉ cs := fun hmem => absurd (h _ hmem) (by decide)

theorem splitOn_of_not_mem (h : '\n' ∉ cs) : cs.splitOn '\n' = [cs] := by
  induction cs with
  | nil => rfl
  | cons c cs ih =>
      obtain ⟨hc, hcs⟩ := not_or.1 (List.mem_cons.not.1 h)
      rw [List.splitOn_cons_eq_if_modifyHead, if_neg (by simpa using Ne.symm hc), ih hcs]
      rfl

/-- The lines of a document, and the nothing behind the last. -/
theorem splitOn_lines {lines : List (List Char)} (h : ∀ l ∈ lines, '\n' ∉ l) :
    (lines.flatMap fun l => l ++ ['\n']).splitOn '\n' = lines ++ [[]] := by
  induction lines with
  | nil => rfl
  | cons l lines ih =>
      rw [List.flatMap_cons, List.append_assoc, List.singleton_append, List.splitOn_append_cons_self,
        splitOn_of_not_mem (h l List.mem_cons_self), ih fun m hm => h m (List.mem_cons_of_mem _ hm)]
      rfl

/-- The tokens of a line that is one. -/
def line (float : String → UInt64) (cs : List Char) : Option (List (ℕ × Token)) :=
  if '\n' ∈ cs then none else tokens float 0 cs

/-- The tokens of some lines. -/
def readLines (float : String → UInt64) : List (List Char) → Option (List (ℕ × Token))
  | [] => some []
  | l :: lines => (line float l).bind fun found => (readLines float lines).map fun rest => found ++ rest

theorem readLines_cons {l : List Char} {lines : List (List Char)} {found rest : List (ℕ × Token)}
    (hl : line float l = some found) (hlines : readLines float lines = some rest) :
    readLines float (l :: lines) = some (found ++ rest) := by
  rw [readLines, hl, Option.bind_some, hlines, Option.map_some]

theorem readLines_append {lines more : List (List Char)} {found rest : List (ℕ × Token)}
    (hlines : readLines float lines = some found) (hmore : readLines float more = some rest) :
    readLines float (lines ++ more) = some (found ++ rest) := by
  induction lines generalizing found with
  | nil =>
      obtain rfl := Option.some.inj hlines
      exact hmore
  | cons l lines ih =>
      rw [readLines] at hlines
      obtain ⟨first, hfirst, hlines⟩ := Option.bind_eq_some_iff.1 hlines
      obtain ⟨others, hothers, rfl⟩ := Option.map_eq_some_iff.1 hlines
      rw [List.cons_append, List.append_assoc]
      exact readLines_cons hfirst (ih hothers)

/-- Lines whose tokens are known. -/
theorem of_readLines {lines : List (List Char)} {found : List (ℕ × Token)}
    (h : readLines float lines = some found) :
    (∀ l ∈ lines, '\n' ∉ l) ∧ (lines.mapM (tokens float 0)).map List.flatten = some found := by
  induction lines generalizing found with
  | nil =>
      obtain rfl := Option.some.inj h
      exact ⟨by simp, rfl⟩
  | cons l lines ih =>
      rw [readLines] at h
      obtain ⟨first, hfirst, h⟩ := Option.bind_eq_some_iff.1 h
      obtain ⟨others, hothers, rfl⟩ := Option.map_eq_some_iff.1 h
      obtain ⟨hbreaks, hmap⟩ := ih hothers
      obtain ⟨all, hall, hflatten⟩ := Option.map_eq_some_iff.1 hmap
      rw [line] at hfirst
      split at hfirst
      · cases hfirst
      · rename_i hbreak
        refine ⟨List.forall_mem_cons.2 ⟨hbreak, hbreaks⟩, ?_⟩
        rw [List.mapM_cons, hfirst, hall, ← hflatten]
        rfl

/-- **A document whose lines are laid out as a value** is read as that value, unless one of them marks the
beginning or the end of a document. -/
theorem read_lines {lines : List (List Char)} {found : List (ℕ × Token)} (h : readLines float lines = some found)
    (text : String) (htext : text.toList = lines.flatMap fun l => l ++ ['\n']) :
    read float text = if lines.any isMarker then none else document found := by
  obtain ⟨hbreaks, hmap⟩ := of_readLines h
  obtain ⟨all, hall, rfl⟩ := Option.map_eq_some_iff.1 hmap
  have hlast : (lines ++ [[]]).mapM (tokens float 0) = some (all ++ [[]]) := by
    rw [List.mapM_append, hall]
    rfl
  have hmarker : (lines ++ [[]]).any isMarker = lines.any isMarker := by
    rw [List.any_append]
    exact Bool.or_false _
  rw [read, htext, splitOn_lines hbreaks]
  simp only [hmarker, hlast, Option.bind_some, List.flatten_append, List.flatten_cons, List.flatten_nil,
    List.append_nil]

end Yaml
