/-
How a rung is spelled.

A rung is shown as `auto`, as `off`, or as its length of time, in the largest unit it is as long as and cut to
whole ones.  What is typed is read as one of the words, or as seconds, minutes or hours.  So a length that its unit
does not measure is read back as a shorter one, and one of a day or longer is not read at all.

* `Interval.shown`, `Interval.parse` — the text of a rung, and the rung of a text;
* `Interval.Whole` — the rungs whose text says all of them;
* `parse_toOption`, `shown_eq` — the palette reads and shows the same;
* `Interval.parse_shown_iff` — the rungs that are read back as they are shown.
-/
import Nutsh.Cell.Status
import Nutsh.Palette.Choose
import Nutsh.Scheduler.Backoff

set_option relaxedAutoImplicit false
set_option autoImplicit false

namespace Nutsh

open Palette (parseU32 parseSecs)

namespace Interval

/-- How a rung is drawn. -/
def shown : Interval → String
  | auto => "auto"
  | off => "off"
  | secs n => Cell.span n

/-- The rung of a word: `auto`, `off`, or a length of time from the floor on. -/
def parse (word : String) : Except String Interval :=
  let word := Cell.trim word
  if word = "auto" then .ok auto
  else if word = "off" then .ok off
  else
    match parseSecs word with
    | none => .error s!"{word.quote} is not auto, off, or a length of time like 30s, 5m or 12h"
    | some n => if n < Polls.MIN_INTERVAL then .error s!"{Polls.MIN_INTERVAL}s is the floor" else .ok (secs n)

/-- A rung that is a whole number of the unit it is shown in, and shorter than a day. -/
def Whole : Interval → Prop
  | auto => True
  | off => True
  | secs n => 1 ≤ n ∧ n < 60 ∨ 60 ≤ n ∧ n < 3600 ∧ 60 ∣ n ∨ 3600 ≤ n ∧ n < 86400 ∧ 3600 ∣ n

end Interval

/-! ### The palette -/

theorem shown_eq (v : Interval) : Palette.shown v = v.shown := by
  cases v with
  | auto => rfl
  | off => rfl
  | secs n => rfl

/-- What the palette reads of a word, where it knows the white space. -/
theorem parse_toOption {stock : Palette.Stock} (hwhite : stock.white = Cell.isWhite) (word : String) :
    (Interval.parse word).toOption = stock.parseInterval word := by
  have htrim : stock.trim word = Cell.trim word := by
    rw [Palette.Stock.trim, Cell.trim, List.rdropWhile, hwhite]
  rw [Interval.parse, Palette.Stock.parseInterval, htrim]
  split
  · rfl
  · split
    · rfl
    · cases parseSecs (Cell.trim word) with
      | none => rfl
      | some n =>
          rw [Option.bind_some]
          by_cases hfloor : n < Polls.MIN_INTERVAL
          · exact (congrArg Except.toOption (if_pos hfloor)).trans (if_pos hfloor).symm
          · exact (congrArg Except.toOption (if_neg hfloor)).trans (if_neg hfloor).symm

/-! ### Numbers and units -/

theorem parseU32_toDigits {n : ℕ} (h : n < 2 ^ 32) : parseU32 (Nat.toDigits 10 n) = some n := by
  have hdigit : ∀ c ∈ Nat.toDigits 10 n, c.isDigit = true :=
    fun c hc => Nat.isDigit_of_mem_toDigits (by decide) (by decide) hc
  have hvalue : (Nat.toDigits 10 n).foldl (fun n c => 10 * n + (c.toNat - '0'.toNat)) 0 = n := by
    rw [← Nat.ofDigitChars_eq_foldl, Nat.ofDigitChars_ten_toDigits]
  obtain ⟨c, cs, hdigits⟩ := List.exists_cons_of_ne_nil (Nat.toDigits_ne_nil (n := n) (b := 10))
  rw [hdigits] at hdigit hvalue ⊢
  have hsign (ds : List Char) (heq : c :: cs = '+' :: ds) : False := by
    rw [(List.cons.inj heq).1] at hdigit
    exact absurd (hdigit '+' List.mem_cons_self) (by decide)
  rw [parseU32]
  · rw [if_pos ⟨List.cons_ne_nil c cs, List.all_eq_true.2 hdigit⟩, hvalue, if_pos h]
  · exact hsign

/-- A letter behind the digits makes no number. -/
theorem parseU32_append_letter {c : Char} (hc : c.isDigit = false) (hplus : c ≠ '+') (digits : List Char) :
    parseU32 (digits ++ [c]) = none := by
  have hall {ds : List Char} (h : c ∈ ds) : ¬ (ds ≠ [] ∧ ds.all Char.isDigit = true) := by
    rintro ⟨-, hdigits⟩
    rw [List.all_eq_true.1 hdigits c h] at hc
    cases hc
  obtain ⟨d, ds, hds⟩ := List.exists_cons_of_ne_nil (List.append_ne_nil_of_right_ne_nil digits (List.cons_ne_nil c []))
  have hmem : c ∈ d :: ds := hds ▸ List.mem_append_right digits (List.mem_singleton_self c)
  rw [hds]
  by_cases hd : d = '+'
  · subst hd
    rw [parseU32, if_neg (hall ((List.mem_cons.1 hmem).resolve_left hplus))]
  · rw [parseU32]
    · exact if_neg (hall hmem)
    · exact fun _ heq => hd (List.cons.inj heq).1

/-- A number with the letter of its unit behind it. -/
def measured (n : ℕ) (unit : Char) : String := String.ofList (Nat.toDigits 10 n ++ [unit])

theorem stripSuffix_measured {tail : String} {c : Char} (htail : tail.toList = [c]) (n : ℕ) (unit : Char) :
    Text.stripSuffix tail (measured n unit) = if c = unit then some (String.ofList (Nat.toDigits 10 n)) else none := by
  rw [Text.stripSuffix, htail, measured, String.toList_ofList]
  by_cases h : c = unit
  · subst h
    have hsuffix : [c].isSuffixOf (Nat.toDigits 10 n ++ [c]) = true :=
      List.isSuffixOf_iff_suffix.2 (List.suffix_append _ [c])
    rw [if_pos hsuffix, if_pos rfl]
    simp
  · have hsuffix : ¬ [c].isSuffixOf (Nat.toDigits 10 n ++ [unit]) = true := by
      rw [List.isSuffixOf_iff_suffix]
      rintro ⟨front, heq⟩
      exact h (List.cons.inj (List.append_inj' heq rfl).2).1
    rw [if_neg hsuffix, if_neg h]

/-- A number of seconds, of minutes and of hours. -/
theorem parseSecs_measured {n : ℕ} (h : n < 2 ^ 32) :
    parseSecs (measured n 's') = some n ∧ parseSecs (measured n 'm') = some (min (n * 60) (2 ^ 32 - 1)) ∧
      parseSecs (measured n 'h') = some (min (n * 3600) (2 ^ 32 - 1)) := by
  have hh := @stripSuffix_measured "h" 'h' rfl n
  have hm := @stripSuffix_measured "m" 'm' rfl n
  have hs := @stripSuffix_measured "s" 's' rfl n
  refine ⟨?_, ?_, ?_⟩
  · rw [parseSecs, hh, if_neg (by decide), hm, if_neg (by decide), hs, if_pos rfl, Option.getD_some]
    dsimp only
    rw [String.toList_ofList, parseU32_toDigits h, Option.map_some]
    exact congrArg some (by omega)
  · rw [parseSecs, hh, if_neg (by decide), hm, if_pos rfl]
    dsimp only
    rw [String.toList_ofList, parseU32_toDigits h, Option.map_some]
  · rw [parseSecs, hh, if_pos rfl]
    dsimp only
    rw [String.toList_ofList, parseU32_toDigits h, Option.map_some]

/-- No other unit is read. -/
theorem parseSecs_measured_eq_none {unit : Char} (hdigit : unit.isDigit = false)
    (hunit : 'h' ≠ unit ∧ 'm' ≠ unit ∧ 's' ≠ unit ∧ unit ≠ '+') (n : ℕ) : parseSecs (measured n unit) = none := by
  obtain ⟨hh, hm, hs, hplus⟩ := hunit
  rw [parseSecs, stripSuffix_measured (c := 'h') rfl, if_neg hh, stripSuffix_measured (c := 'm') rfl, if_neg hm,
    stripSuffix_measured (c := 's') rfl, if_neg hs, Option.getD_none]
  dsimp only
  rw [measured, String.toList_ofList, parseU32_append_letter hdigit hplus, Option.map_none]

/-! ### What is shown, read -/

theorem isWhite_of_isDigit {c : Char} (h : c.isDigit = true) : Cell.isWhite c = false := by
  have hall : ∀ k < 10, Cell.isWhite (Char.ofNat (48 + k)) = false := by decide
  obtain ⟨hle, hge⟩ : 48 ≤ c.toNat ∧ c.toNat ≤ 57 := by
    simpa [Char.isDigit, UInt32.le_iff_toNat_le] using h
  rw [← Char.ofNat_toNat c]
  obtain ⟨k, hk⟩ := Nat.exists_eq_add_of_le hle
  rw [hk]
  exact hall k (by omega)

theorem trim_measured (n : ℕ) {unit : Char} (h : Cell.isWhite unit = false) :
    Cell.trim (measured n unit) = measured n unit := by
  rw [Cell.trim, measured, String.toList_ofList]
  refine congrArg String.ofList (Cell.trim_eq_self_iff.2 ⟨fun c hc => ?_, fun c hc => ?_⟩)
  · have hmem := List.mem_of_mem_head? hc
    rcases List.mem_append.1 hmem with hmem | hmem
    · exact isWhite_of_isDigit (Nat.isDigit_of_mem_toDigits (by decide) (by decide) hmem)
    · exact List.mem_singleton.1 hmem ▸ h
  · rw [List.getLast?_concat, Option.mem_some_iff] at hc
    exact hc ▸ h

/-- A length of time is neither of the words. -/
theorem measured_ne (n : ℕ) {unit : Char} (h : unit ≠ 'o' ∧ unit ≠ 'f') :
    measured n unit ≠ "auto" ∧ measured n unit ≠ "off" := by
  have hlast : (measured n unit).toList.getLast? = some unit := by
    rw [measured, String.toList_ofList, List.getLast?_concat]
  constructor
  · intro heq
    rw [heq] at hlast
    exact h.1 (Option.some.inj hlast).symm
  · intro heq
    rw [heq] at hlast
    exact h.2 (Option.some.inj hlast).symm

/-- A length of time is shown in the largest unit it is as long as. -/
theorem span_eq (n : ℕ) :
    Cell.span n = if n < 60 then measured n 's' else if n < 3600 then measured (n / 60) 'm'
      else if n < 86400 then measured (n / 3600) 'h' else if n < 31536000 then measured (n / 86400) 'd'
      else measured (n / 31536000) 'y' := by
  have hrepr (m : ℕ) (unit : Char) : m.repr ++ String.singleton unit = measured m unit := by
    rw [measured, String.ofList_append, Nat.repr_eq_ofList_toDigits]
    rfl
  simp only [← hrepr]
  rfl

namespace Interval

/-- What is read of a length of time. -/
theorem parse_measured (n : ℕ) {unit : Char} (hunit : Cell.isWhite unit = false ∧ unit ≠ 'o' ∧ unit ≠ 'f') :
    (parse (measured n unit)).toOption =
      (parseSecs (measured n unit)).bind fun m => if m < Polls.MIN_INTERVAL then none else some (secs m) := by
  obtain ⟨hauto, hoff⟩ := measured_ne n hunit.2
  rw [parse, trim_measured n hunit.1, if_neg hauto, if_neg hoff]
  cases parseSecs (measured n unit) with
  | none => rfl
  | some m =>
      dsimp only
      rw [Option.bind_some]
      split <;> rfl

/-- A length of time is read back in whole minutes, or in whole hours, and one of a day or longer is not. -/
theorem parse_shown_secs (n : ℕ) :
    (parse (shown (secs n))).toOption =
      if n = 0 ∨ 86400 ≤ n then none else some (secs (if n < 60 then n else if n < 3600 then n / 60 * 60
        else n / 3600 * 3600)) := by
  have hms : Cell.isWhite 's' = false ∧ 's' ≠ 'o' ∧ 's' ≠ 'f' := by decide
  have hmm : Cell.isWhite 'm' = false ∧ 'm' ≠ 'o' ∧ 'm' ≠ 'f' := by decide
  have hmh : Cell.isWhite 'h' = false ∧ 'h' ≠ 'o' ∧ 'h' ≠ 'f' := by decide
  have hmd : Cell.isWhite 'd' = false ∧ 'd' ≠ 'o' ∧ 'd' ≠ 'f' := by decide
  have hmy : Cell.isWhite 'y' = false ∧ 'y' ≠ 'o' ∧ 'y' ≠ 'f' := by decide
  rw [shown, span_eq]
  split
  case isTrue hs =>
    rw [parse_measured n hms, (parseSecs_measured (by omega)).1, Option.bind_some, Polls.MIN_INTERVAL]
    by_cases hzero : n = 0
    · rw [if_pos (by omega), if_pos (.inl hzero)]
    · rw [if_neg (by omega), if_neg (by omega)]
  split
  case isTrue hs hm =>
    have hmin : min (n / 60 * 60) (2 ^ 32 - 1) = n / 60 * 60 := by omega
    rw [parse_measured (n / 60) hmm, (parseSecs_measured (by omega)).2.1, Option.bind_some, hmin, Polls.MIN_INTERVAL,
      if_neg (by omega), if_neg (by omega)]
  split
  case isTrue hs hm hh =>
    have hmin : min (n / 3600 * 3600) (2 ^ 32 - 1) = n / 3600 * 3600 := by omega
    rw [parse_measured (n / 3600) hmh, (parseSecs_measured (by omega)).2.2, Option.bind_some, hmin,
      Polls.MIN_INTERVAL, if_neg (by omega), if_neg (by omega)]
  -- a day or longer
  rw [if_pos (show n = 0 ∨ 86400 ≤ n by omega)]
  split
  · rw [parse_measured (n / 86400) hmd, parseSecs_measured_eq_none (by decide) (by decide), Option.bind_none]
  · rw [parse_measured (n / 31536000) hmy, parseSecs_measured_eq_none (by decide) (by decide), Option.bind_none]

theorem eq_ok_iff {ε α : Type*} {e : Except ε α} {a : α} : e = .ok a ↔ e.toOption = some a := by
  cases e with
  | error => exact iff_of_false nofun nofun
  | ok b => exact Except.ok.injEq b a ▸ Option.some.injEq b a ▸ Iff.rfl

/-- **A rung is read back as it is shown** exactly when it is a word or shorter than a day and a whole number of
its unit, and so what was typed for it stays what it was. -/
theorem parse_shown_iff (v : Interval) :
    (parse v.shown = .ok v ↔ v.Whole) ∧ ∀ word, parse word = .ok v → (parse v.shown = parse word ↔ v.Whole) := by
  have hiff : parse v.shown = .ok v ↔ v.Whole := by
    cases v with
    | auto => exact iff_of_true (by rfl) trivial
    | off => exact iff_of_true (by rfl) trivial
    | secs n =>
        rw [eq_ok_iff, parse_shown_secs, Whole]
        split
        case isTrue h => exact iff_of_false nofun (by omega)
        case isFalse h =>
          rw [Option.some.injEq, secs.injEq]
          split
          · omega
          · split <;> omega
  exact ⟨hiff, fun word hword => by rw [hword, hiff]⟩

/-- Five minutes. -/
theorem parse_shown_five : parse (shown (secs 300)) = parse " 300s" :=
  ((parse_shown_iff (secs 300)).2 " 300s" (by rfl)).2 (.inr (.inl (by decide)))

/-- A minute and a half is shown as a minute, and a day is not read. -/
theorem not_parse_shown : ¬ ∀ v : Interval, ∀ word, parse word = .ok v →
    parse v.shown = .ok v ∧ parse v.shown = parse word := by
  intro h
  have hshown : parse (shown (secs 90)) = .ok (secs 60) := by rfl
  have := (h (secs 90) "90" (by rfl)).1
  rw [hshown] at this
  cases this

end Interval

end Nutsh
