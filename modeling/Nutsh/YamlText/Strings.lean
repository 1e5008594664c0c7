/-
Strings of the raw view, read back.

What is not put in quotes is never typed, and it is a plain scalar but for a few beginnings that the rules miss.
What is put in quotes is read back unless a control character stands in it that the quotes do not escape.  A key
is written as it is, so that it is read back only if it is a plain scalar on its own.

Main definitions:

* `TextFits` — a string that is read back as it is written;
* `KeyFits` — a key that is.

Main results:

* `scalar_quoteIfNeeded_iff` — the strings that are read back;
* `isKey_iff` — the keys that are.
-/
import Nutsh.Lib.Replace
import Nutsh.Lib.Yaml.Numbers
import Nutsh.YamlText

set_option relaxedAutoImplicit false
set_option autoImplicit false

namespace Nutsh.YamlText

/-- A string that is read back as it is written: in quotes, if no control character stands in it but those that
are escaped; else, if it does not begin like something else and every character of it may stand unquoted. -/
def TextFits (s : String) : Prop :=
  if needsQuotes s then ∀ c ∈ s.toList, c = '\t' ∨ c = '\n' ∨ c = '\r' ∨ 0x20 ≤ c.toNat
  else
    (∀ c ∈ s.toList, c.toNat ≠ 0xFEFF ∧ c.toNat ≠ 0xFFFE ∧ c.toNat ≠ 0xFFFF) ∧ s.toList.head? ≠ some ',' ∧
      ∀ rest, s.toList = '?' :: rest → rest ≠ [] ∧ rest.head? ≠ some ' '

/-- A key that is read back as it is written. -/
structure KeyFits (k : String) : Prop where
  short : k.length ≤ Yaml.KEY_MAX
  untyped : Yaml.isTyped k = false
  legible : ∀ c ∈ k.toList, Yaml.nb c = true
  last : ∀ c ∈ k.toList.getLast?, Yaml.isWhite c = false
  first : ∀ c rest, k.toList = c :: rest → Yaml.isWhite c = false ∧
    (c ∈ Yaml.indicators → (c = '-' ∨ c = '?' ∨ c = ':') ∧ ∀ d ∈ rest.head?, Yaml.isWhite d = false)
  comment : ∀ front back d, k.toList = front ++ d :: '#' :: back → Yaml.isWhite d = false
  colon : ∀ front back, k.toList = front ++ ':' :: back → ∀ d ∈ back.head?, Yaml.isWhite d = false

variable {float : String → UInt64} {s k : String} {c : Char}

/-! ### Keys -/

/-- The keys that are read back. -/
theorem isKey_iff : Yaml.isKey float k.toList = true ↔ KeyFits k := by
  have hcolon : Yaml.ns ':' = true := by decide
  have hnext (front back : List Char) {c : Char} (hnb : ∀ d ∈ k.toList, Yaml.nb d = true)
      (heq : k.toList = front ++ c :: back) :
      (back.head?.or (some ':')).any Yaml.ns = true ↔ ∀ d ∈ back.head?, Yaml.isWhite d = false := by
    cases back with
    | nil => simp [hcolon]
    | cons d back =>
        have hd : Yaml.nb d = true := hnb d (by rw [heq]; simp)
        simp [Yaml.ns, hd]
  have htyped : (Yaml.resolve float (String.ofList k.toList)).asStr.isSome = true ↔ Yaml.isTyped k = false := by
    rw [String.ofList_toList, Yaml.asStr_resolve]
    cases Yaml.isTyped k <;> simp
  simp only [Yaml.isKey, Bool.and_eq_true, htyped, decide_eq_true_eq, String.length_toList, Yaml.isPlain_iff]
  constructor
  · rintro ⟨⟨⟨hnb, hlast, ⟨first, rest, hk, hwhite, hfirst⟩, hcomment, hcol⟩, hshort⟩, huntyped⟩
    refine ⟨hshort, huntyped, hnb, hlast, fun c rest' heq => ?_, hcomment, fun front back heq =>
      (hnext front back hnb heq).1 (hcol front back heq)⟩
    obtain ⟨rfl, rfl⟩ := List.cons.inj (hk.symm.trans heq)
    exact ⟨hwhite, fun hmem => ⟨(hfirst hmem).1, (hnext [] rest hnb hk).1 (hfirst hmem).2⟩⟩
  · intro h
    have hne : k.toList ≠ [] := by
      intro hnil
      rw [String.toList_eq_nil_iff.1 hnil] at h
      exact absurd h.untyped (by decide)
    obtain ⟨first, rest, hk⟩ := List.exists_cons_of_ne_nil hne
    obtain ⟨hwhite, hfirst⟩ := h.first first rest hk
    refine ⟨⟨⟨h.legible, h.last, ⟨first, rest, hk, hwhite, fun hmem => ?_⟩, h.comment, fun front back heq =>
      (hnext front back h.legible heq).2 (h.colon front back heq)⟩, h.short⟩, h.untyped⟩
    exact ⟨(hfirst hmem).1, (hnext [] rest h.legible hk).2 (hfirst hmem).2⟩

/-! ### Quotes -/

theorem escapeAll_eq (cs : List Char) : escapeAll cs = cs.flatMap fun c => escapeAll [c] := by
  simp only [escapeAll, replaceChar, List.flatMap_assoc, List.flatMap_singleton]

/-- A character in quotes is spelled so that it is read back, or it stands for itself and may not stand there. -/
theorem spells_escapeAll (c : Char) :
    (c = '\t' ∨ c = '\n' ∨ c = '\r' ∨ 0x20 ≤ c.toNat) ∧ Yaml.Spells c (escapeAll [c]) ∨
      ¬ (c = '\t' ∨ c = '\n' ∨ c = '\r' ∨ 0x20 ≤ c.toNat) ∧ escapeAll [c] = [c] ∧ Yaml.nbJson c = false := by
  by_cases hback : c = '\\'
  · subst hback
    exact .inl ⟨by decide, .inr ⟨'\\', rfl, rfl⟩⟩
  by_cases hquote : c = '"'
  · subst hquote
    exact .inl ⟨by decide, .inr ⟨'"', rfl, rfl⟩⟩
  by_cases hline : c = '\n'
  · subst hline
    exact .inl ⟨by decide, .inr ⟨'n', rfl, rfl⟩⟩
  by_cases hreturn : c = '\r'
  · subst hreturn
    exact .inl ⟨by decide, .inr ⟨'r', rfl, rfl⟩⟩
  by_cases htab : c = '\t'
  · subst htab
    exact .inl ⟨by decide, .inr ⟨'t', rfl, rfl⟩⟩
  have hself : escapeAll [c] = [c] := by
    simp [escapeAll, replaceChar, hback, hquote, hline, hreturn, htab]
  rw [hself]
  by_cases hcontrol : 0x20 ≤ c.toNat
  · exact .inl ⟨.inr (.inr (.inr hcontrol)), .inl ⟨rfl, by simp [Yaml.nbJson, hcontrol], hquote, hback⟩⟩
  · exact .inr ⟨by simp [hline, hreturn, htab, hcontrol], rfl, by simp [Yaml.nbJson, htab, hcontrol]⟩

/-- What is in quotes is read back exactly when every control character in it is escaped. -/
theorem unquote_escapeAll_iff (cs : List Char) :
    Yaml.unquote 0 (escapeAll cs ++ ['"']) = some (cs, []) ↔
      ∀ c ∈ cs, c = '\t' ∨ c = '\n' ∨ c = '\r' ∨ 0x20 ≤ c.toNat := by
  rw [escapeAll_eq]
  constructor
  · intro h
    by_contra hnot
    obtain ⟨c, hc, hbad⟩ : ∃ c ∈ cs, ¬ (c = '\t' ∨ c = '\n' ∨ c = '\r' ∨ 0x20 ≤ c.toNat) := by
      simpa only [not_forall, exists_prop] using hnot
    have hnone : Yaml.unquote 0 ((cs.flatMap fun c => escapeAll [c]) ++ ['"']) = none := by
      refine Yaml.unquote_flatMap_none (fun d _ => ?_)
        ⟨c, hc, ((spells_escapeAll c).resolve_left fun h => hbad h.1).2⟩
      exact (spells_escapeAll d).imp And.right And.right
    rw [hnone] at h
    cases h
  · intro h
    refine Yaml.unquote_flatMap fun c hc => ?_
    exact ((spells_escapeAll c).resolve_right fun hbad => hbad.1 (h c hc)).2

/-! ### What is left unquoted -/

/-- What is known of a string that is not put in quotes. -/
structure Unquoted (s : String) : Prop where
  word : ["true", "false", "null", "~", "yes", "no", "on", "off", ".inf", "-.inf", "+.inf", ".nan"].contains
    (Text.lower s) = false
  named : s ≠ ""
  number : parsesF64 s = false
  hex : Text.startsWith "0x" s = false
  octal : Text.startsWith "0o" s = false
  trimmed : Cell.trim s = s
  head : startsBadly s = false
  colon : ¬ [':', ' '] <:+: s.toList
  hash : ¬ [' ', '#'] <:+: s.toList
  comment : s.toList.head? ≠ some '#'
  control : ∀ c ∈ s.toList, isControl c = false
  last : s.toList.getLast? ≠ some ':'

theorem unquoted_of_needsQuotes (h : needsQuotes s = false) : Unquoted s := by
  simp only [needsQuotes, Bool.or_eq_false_iff] at h
  obtain ⟨⟨hlooks, hhead⟩, hcontains⟩ := h
  simp only [looksLikeOtherType, Bool.or_eq_false_iff] at hlooks
  obtain ⟨⟨⟨⟨⟨⟨hnamed, hword⟩, hnumber⟩, hhex⟩, hoctal⟩, -⟩, htrim⟩ := hlooks
  simp only [containsBadly, Bool.or_eq_false_iff] at hcontains
  obtain ⟨⟨⟨⟨⟨⟨hcolon, hhash⟩, hcomment⟩, hcontrol⟩, -⟩, hlast⟩, -⟩ := hcontains
  refine
    { word := hword, named := by simpa using hnamed, number := hnumber, hex := hhex, octal := hoctal
      trimmed := by simpa using Eq.symm (by simpa using htrim : s = Cell.trim s), head := hhead
      colon := fun hmem => ?_, hash := fun hmem => ?_, comment := fun hmem => ?_
      control := fun c hc => ?_, last := fun hmem => ?_ }
  · have : Text.contains ": " s = true := Text.contains_iff.2 hmem
    rw [this] at hcolon
    cases hcolon
  · have : Text.contains " #" s = true := Text.contains_iff.2 hmem
    rw [this] at hhash
    cases hhash
  · obtain ⟨rest, hrest⟩ := List.head?_eq_some_iff.1 hmem
    have : Text.startsWith "#" s = true := List.isPrefixOf_iff_prefix.2 ⟨rest, hrest.symm⟩
    rw [this] at hcomment
    cases hcomment
  · rw [← Bool.not_eq_true]
    exact fun hbad => absurd (List.any_eq_true.2 ⟨c, hc, hbad⟩) (by simp [hcontrol])
  · obtain ⟨front, hfront⟩ := List.getLast?_eq_some_iff.1 hmem
    have : Text.endsWith ":" s = true := List.isSuffixOf_iff_suffix.2 ⟨front, hfront.symm⟩
    rw [this] at hlast
    cases hlast

/-- Which printable characters may stand unquoted. -/
theorem nb_iff (h : isControl c = false) :
    Yaml.nb c = true ↔ c.toNat ≠ 0xFEFF ∧ c.toNat ≠ 0xFFFE ∧ c.toNat ≠ 0xFFFF := by
  have hvalid : c.toNat < 0xD800 ∨ 0xDFFF < c.toNat ∧ c.toNat < 0x110000 := c.valid
  have hne {d : Char} (hd : d.toNat < 0x20) : c ≠ d := by
    rintro rfl
    simp [isControl, hd] at h
  simp only [isControl, Bool.or_eq_false_iff, decide_eq_false_iff_not, Bool.and_eq_false_imp, decide_eq_true_eq] at h
  have htab : c ≠ '\t' := hne (by decide)
  have hline : c ≠ '\n' := hne (by decide)
  have hreturn : c ≠ '\r' := hne (by decide)
  simp only [Yaml.nb, Yaml.printable, Yaml.isBreak, Bool.and_eq_true, Bool.or_eq_true, beq_iff_eq, bne_iff_ne,
    decide_eq_true_eq, Bool.not_eq_true', Bool.or_eq_false_iff, beq_eq_false_iff_ne, htab, hline, hreturn, false_or,
    ne_eq, not_false_eq_true, and_true]
  omega

/-! ### Types -/

/-- What is left unquoted is a string under the core schema. -/
theorem isTyped_of_unquoted (h : Unquoted s) : Yaml.isTyped s = false := by
  have hnumber : Numeral.isNumber s.toList = false := (Bool.or_eq_false_iff.1 h.number).1
  have hwords : ∀ w ∈ Yaml.nulls ++ Yaml.trues ++ Yaml.falses ++ [".nan", ".NaN", ".NAN"], w = "" ∨
      ["true", "false", "null", "~", "yes", "no", "on", "off", ".inf", "-.inf", "+.inf", ".nan"].contains
        (Text.lower w) = true := by
    decide
  have hword {l : List String} (hsub : l ⊆ Yaml.nulls ++ Yaml.trues ++ Yaml.falses ++ [".nan", ".NaN", ".NAN"]) :
      l.contains s = false := by
    rw [List.contains_eq_mem, decide_eq_false_iff_not]
    intro hmem
    rcases hwords s (hsub hmem) with hempty | hlower
    · exact h.named hempty
    · rw [h.word] at hlower
      cases hlower
  have hinteger : Numeral.isInteger s.toList = false := by
    rw [← Bool.not_eq_true]
    intro hint
    rw [Numeral.isNumber_of_isInteger hint] at hnumber
    cases hnumber
  have hbegins {a b : Char} {t : String} (ht : t.toList = [a, b]) (hnot : Text.startsWith t s = false)
      {rest : List Char} (hs : s.toList = a :: b :: rest) : False := by
    have : Text.startsWith t s = true := List.isPrefixOf_iff_prefix.2 ⟨rest, by rw [ht, hs]; rfl⟩
    rw [this] at hnot
    cases hnot
  have hoctal : Yaml.isOctal s.toList = false := by
    rw [Yaml.isOctal.eq_def]
    split
    · rename_i digits hs
      exact (hbegins rfl h.octal hs).elim
    · rfl
  have hhex : Yaml.isHex s.toList = false := by
    rw [Yaml.isHex.eq_def]
    split
    · rename_i digits hs
      exact (hbegins rfl h.hex hs).elim
    · rfl
  have hinf : [".inf", ".Inf", ".INF"].contains (String.ofList (Numeral.unsigned s.toList)) = false := by
    have hsigned : ∀ sign ∈ ["", "+", "-"], ∀ w ∈ [".inf", ".Inf", ".INF"],
        ["true", "false", "null", "~", "yes", "no", "on", "off", ".inf", "-.inf", "+.inf", ".nan"].contains
          (Text.lower (sign ++ w)) = true := by
      decide
    rw [List.contains_eq_mem, decide_eq_false_iff_not]
    intro hmem
    obtain ⟨sign, hsign, hs⟩ : ∃ sign ∈ ["", "+", "-"], s = sign ++ String.ofList (Numeral.unsigned s.toList) := by
      rw [Numeral.unsigned.eq_def]
      split
      · rename_i cs hcs
        exact ⟨"+", by decide, String.toList_inj.1 (by rw [hcs]; simp)⟩
      · rename_i cs hcs
        exact ⟨"-", by decide, String.toList_inj.1 (by rw [hcs]; simp)⟩
      · exact ⟨"", by decide, by simp⟩
    have hlower := hsigned sign hsign _ hmem
    rw [← hs, h.word] at hlower
    cases hlower
  have hnulls : Yaml.nulls.contains s = false := hword (by decide)
  have htrues : Yaml.trues.contains s = false := hword (by decide)
  have hfalses : Yaml.falses.contains s = false := hword (by decide)
  have hnan : [".nan", ".NaN", ".NAN"].contains s = false := hword (by decide)
  simp only [Yaml.isTyped, Yaml.isReal, hnulls, htrues, hfalses, hinteger, hoctal, hhex, hnumber, hinf, hnan,
    Bool.or_false]

/-! ### Strings -/

theorem isWhite_trim {c : Char} (h : Yaml.isWhite c = true) : Cell.isWhite c = true := by
  simp only [Yaml.isWhite, Bool.or_eq_true, beq_iff_eq] at h
  rcases h with rfl | rfl
  · decide
  · decide

namespace Unquoted

variable (h : Unquoted s)
include h

theorem ends :
    (∀ c ∈ s.toList.head?, Yaml.isWhite c = false) ∧ ∀ c ∈ s.toList.getLast?, Yaml.isWhite c = false := by
  have htrim : (s.toList.dropWhile Cell.isWhite).rdropWhile Cell.isWhite = s.toList := by
    simpa [Cell.trim] using congrArg String.toList h.trimmed
  have hnot {c : Char} (hc : Cell.isWhite c = false) : Yaml.isWhite c = false := by
    rw [← Bool.not_eq_true] at hc ⊢
    exact fun hwhite => hc (isWhite_trim hwhite)
  obtain ⟨hhead, hlast⟩ := Cell.trim_eq_self_iff.1 htrim
  exact ⟨fun c hc => hnot (hhead c hc), fun c hc => hnot (hlast c hc)⟩

/-- Only a blank is white in a string without control characters. -/
theorem isWhite_iff {c : Char} (hc : c ∈ s.toList) : Yaml.isWhite c = true ↔ c = ' ' := by
  have htab : c ≠ '\t' := by
    rintro rfl
    exact absurd (h.control _ hc) (by decide)
  simp [Yaml.isWhite, htab]

theorem before_hash {front back : List Char} {d : Char} (hs : s.toList = front ++ d :: '#' :: back) :
    Yaml.isWhite d = false := by
  rw [← Bool.not_eq_true, h.isWhite_iff (by rw [hs]; simp)]
  rintro rfl
  exact h.hash ⟨front, back, by rw [hs]; simp⟩

/-- Something that is no blank stands behind every `:`. -/
theorem behind_colon {front back : List Char} (hs : s.toList = front ++ ':' :: back) :
    ∃ d rest, back = d :: rest ∧ Yaml.isWhite d = false := by
  cases back with
  | nil => exact absurd (List.getLast?_eq_some_iff.2 ⟨front, hs⟩) h.last
  | cons d rest =>
      refine ⟨d, rest, rfl, ?_⟩
      rw [← Bool.not_eq_true, h.isWhite_iff (by rw [hs]; simp)]
      rintro rfl
      exact h.colon ⟨front, rest, by rw [hs]; simp⟩

/-- Of the indicators, what is not quoted may begin with three. -/
theorem first_indicator {first : Char} {rest : List Char} (hs : s.toList = first :: rest)
    (hmem : first ∈ Yaml.indicators) : first = '?' ∨ first = ':' ∨ first = ',' := by
  have hhead : ¬ first ∈
      ['-', '*', '&', '!', '%', '@', '\x60', '[', ']', '\x7b', '\x7d', '|', '>', '\'', '"', ' '] := by
    simpa [startsBadly, hs] using h.head
  have hhash : first ≠ '#' := by
    rintro rfl
    exact h.comment (by rw [hs]; rfl)
  have hall : (Yaml.indicators.all fun c =>
      ['-', '*', '&', '!', '%', '@', '\x60', '[', ']', '\x7b', '\x7d', '|', '>', '\'', '"', ' '].contains c ||
        c == '#' || c == '?' || c == ':' || c == ',') = true := by
    decide
  have hcases := List.all_eq_true.1 hall first hmem
  simp only [Bool.or_eq_true, List.contains_eq_mem, decide_eq_true_eq, beq_iff_eq, or_assoc] at hcases
  exact (hcases.resolve_left hhead).resolve_left hhash

/-- **What is left unquoted** is a plain scalar but for some characters and some beginnings. -/
theorem isPlain_iff :
    Yaml.isPlain none s.toList = true ↔
      (∀ c ∈ s.toList, c.toNat ≠ 0xFEFF ∧ c.toNat ≠ 0xFFFE ∧ c.toNat ≠ 0xFFFF) ∧ s.toList.head? ≠ some ',' ∧
        ∀ rest, s.toList = '?' :: rest → rest ≠ [] ∧ rest.head? ≠ some ' ' := by
  have hlegible : (∀ c ∈ s.toList, Yaml.nb c = true) ↔
      ∀ c ∈ s.toList, c.toNat ≠ 0xFEFF ∧ c.toNat ≠ 0xFFFE ∧ c.toNat ≠ 0xFFFF :=
    forall₂_congr fun c hc => nb_iff (h.control c hc)
  rw [Yaml.isPlain_iff, hlegible]
  refine and_congr_right fun hall => ?_
  have hnb := hlegible.2 hall
  constructor
  · rintro ⟨-, ⟨first, rest, hs, hwhite, hfirst⟩, -⟩
    refine ⟨fun hcomma => ?_, fun rest' hs' => ?_⟩
    · rw [hs, List.head?_cons, Option.some_inj] at hcomma
      subst hcomma
      exact absurd (hfirst (by decide)).1 (by decide)
    · obtain ⟨rfl, rfl⟩ := List.cons.inj (hs.symm.trans hs')
      have hnext := (hfirst (by decide)).2
      cases rest with
      | nil => cases hnext
      | cons d rest =>
          refine ⟨List.cons_ne_nil d rest, ?_⟩
          rw [List.head?_cons, Ne, Option.some_inj]
          rintro rfl
          have hns : Yaml.ns ' ' = true := hnext
          exact absurd hns (by decide)
  · rintro ⟨hcomma, hquestion⟩
    obtain ⟨first, rest, hs⟩ := List.exists_cons_of_ne_nil fun hnil => h.named (String.toList_eq_nil_iff.1 hnil)
    have hcolon : ∀ front back, s.toList = front ++ ':' :: back → (back.head?.or none).any Yaml.ns = true := by
      intro front back heq
      obtain ⟨d, back, rfl, hd⟩ := h.behind_colon heq
      exact Yaml.ns_iff.2 ⟨hnb d (by rw [heq]; simp), hd⟩
    refine ⟨h.ends.2, ⟨first, rest, hs, h.ends.1 first (by rw [hs]; rfl), fun hmem => ?_⟩,
      fun front back d heq => h.before_hash heq, hcolon⟩
    rcases h.first_indicator hs hmem with rfl | rfl | rfl
    · refine ⟨.inr (.inl rfl), ?_⟩
      obtain ⟨hne, hblank⟩ := hquestion rest hs
      obtain ⟨d, rest, rfl⟩ := List.exists_cons_of_ne_nil hne
      have hd : Yaml.isWhite d = false := by
        rw [← Bool.not_eq_true, h.isWhite_iff (by rw [hs]; simp)]
        rintro rfl
        exact hblank rfl
      exact Yaml.ns_iff.2 ⟨hnb d (by rw [hs]; simp), hd⟩
    · exact ⟨.inr (.inr rfl), hcolon [] rest hs⟩
    · exact absurd (by rw [hs]; rfl) hcomma

end Unquoted

/-- The strings that are read back. -/
theorem scalar_quoteIfNeeded_iff :
    Yaml.scalar float (quoteIfNeeded s).toList = some (.str s) ↔ TextFits s := by
  rw [quoteIfNeeded, TextFits]
  cases hquotes : needsQuotes s with
  | true =>
      simp only [if_true, String.toList_ofList, ← unquote_escapeAll_iff, Yaml.scalar]
      constructor
      · intro h
        split at h
        · rename_i t heq
          have hs : String.ofList t = s := Json.str.inj (Option.some.inj h)
          rw [heq, ← hs, String.toList_ofList]
        · cases h
      · intro h
        simp only [h, String.ofList_toList]
  | false =>
      have h := unquoted_of_needsQuotes hquotes
      simp only [Bool.false_eq_true, if_false, ← h.isPlain_iff]
      have hresolve : Yaml.resolve float (String.ofList s.toList) = .str s := by
        rw [String.ofList_toList]
        exact Yaml.resolve_eq_str (isTyped_of_unquoted h)
      constructor
      · intro hscalar
        rcases Yaml.scalar_cases hscalar with ⟨-, hv⟩ | ⟨-, hv⟩ | ⟨rest, -, hs, -⟩ | ⟨hplain, -⟩
        · cases hv
        · cases hv
        · exact absurd (h.first_indicator hs (by decide)) (by decide)
        · exact hplain
      · intro hplain
        rw [Yaml.scalar_of_isPlain hplain, hresolve]

end Nutsh.YamlText
