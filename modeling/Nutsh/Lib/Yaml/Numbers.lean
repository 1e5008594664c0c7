/-
Numbers of a document.

A decimal number has no character in it that a line is broken up at, so that it stands on its line as it is, and
under the core schema it is nothing else.

Main results:

* `Numeral.mem_of_isNumber` — the characters of a number;
* `Numeral.integer_toString` — the value of an integer that is written;
* `Yaml.scalar_integer`, `Yaml.scalar_real` — a number, read.
-/
import Mathlib.Data.List.TakeWhile
import Nutsh.Lib.Yaml.Lines

set_option relaxedAutoImplicit false
set_option autoImplicit false

namespace Numeral

variable {cs : List Char} {c : Char}

/-- The characters of a number. -/
def characters : List Char := ['0', '1', '2', '3', '4', '5', '6', '7', '8', '9', '+', '-', '.', 'e', 'E']

theorem mem_of_isDigit (h : c.isDigit = true) : c ∈ characters := by
  obtain ⟨hle, hge⟩ : 48 ≤ c.toNat ∧ c.toNat ≤ 57 := Char.isDigit_iff_toNat.1 h
  have hall : ∀ n < 10, Char.ofNat (48 + n) ∈ characters := by decide
  have hc : Char.ofNat (48 + (c.toNat - 48)) = c := by
    rw [Nat.add_sub_cancel' hle]
    exact Char.ofNat_toNat c
  rw [← hc]
  exact hall _ (by omega)

/-- A number is what stands behind its sign, if there is one. -/
theorem unsigned_eq (cs : List Char) :
    ∃ sign, cs = sign ++ unsigned cs ∧ (sign = [] ∨ sign = ['+'] ∨ sign = ['-']) := by
  rw [unsigned.eq_def]
  split
  · exact ⟨['+'], rfl, .inr (.inl rfl)⟩
  · exact ⟨['-'], rfl, .inr (.inr rfl)⟩
  · exact ⟨[], rfl, .inl rfl⟩

theorem mem_of_unsigned (h : ∀ c ∈ unsigned cs, c ∈ characters) : ∀ c ∈ cs, c ∈ characters := by
  obtain ⟨sign, hcs, hsign⟩ := unsigned_eq cs
  intro c hc
  rw [hcs, List.mem_append] at hc
  rcases hc with hc | hc
  · rcases hsign with rfl | rfl | rfl
    · cases hc
    · rw [List.mem_singleton.1 hc]
      decide
    · rw [List.mem_singleton.1 hc]
      decide
  · exact h c hc

theorem isMantissa_mem (h : isMantissa cs = true) (hc : c ∈ cs) : c.isDigit = true ∨ c = '.' := by
  simp only [isMantissa, Bool.and_eq_true, List.all_eq_true] at h
  obtain ⟨⟨hwhole, hfraction⟩, -⟩ := h
  rw [← List.takeWhile_append_dropWhile (p := (· != '.')) (l := cs), List.mem_append] at hc
  rcases hc with hc | hc
  · exact .inl (hwhole c hc)
  · have hpoint := List.head?_dropWhile_not (fun c => c != '.') cs
    cases hdrop : cs.dropWhile (· != '.') with
    | nil =>
        rw [hdrop] at hc
        cases hc
    | cons d rest =>
        rw [hdrop] at hc hfraction hpoint
        rcases List.mem_cons.1 hc with rfl | hc
        · exact .inr (by simpa using hpoint)
        · exact .inl (hfraction c hc)

theorem mem_of_isMantissa (h : isMantissa cs = true) (hc : c ∈ cs) : c ∈ characters := by
  rcases isMantissa_mem h hc with hdigit | rfl
  · exact mem_of_isDigit hdigit
  · decide

theorem ne_of_isDigit {x : Char} (h : c.isDigit = true) (hx : x.isDigit = false) : c ≠ x := by
  rintro rfl
  rw [h] at hx
  cases hx

/-- A mantissa needs no exponent. -/
theorem isNumber_of_isMantissa (h : isMantissa (unsigned cs) = true) : isNumber cs = true := by
  have hexponent : ∀ c ∈ unsigned cs, (!isExponent c) = true := by
    intro c hc
    rw [Bool.not_eq_true', isExponent, Bool.or_eq_false_iff, beq_eq_false_iff_ne, beq_eq_false_iff_ne]
    rcases isMantissa_mem h hc with hdigit | rfl
    · exact ⟨ne_of_isDigit hdigit (by decide), ne_of_isDigit hdigit (by decide)⟩
    · decide
  have htake := List.takeWhile_eq_self_iff.2 hexponent
  have hdrop := List.dropWhile_eq_nil_iff.2 hexponent
  rw [isNumber]
  simp only [htake, hdrop, h, List.isEmpty_nil, Bool.true_or, Bool.and_true]

/-- Digits with a point behind them, and other digits behind it. -/
theorem isMantissa_append {digits fraction : List Char} (hdigits : isDigits digits = true)
    (hfraction : fraction = [] ∨ ∃ rest, fraction = '.' :: rest ∧ rest.all Char.isDigit = true) :
    isMantissa (digits ++ fraction) = true := by
  simp only [isDigits, Bool.and_eq_true, Bool.not_eq_true', List.all_eq_true] at hdigits
  obtain ⟨hne, hall⟩ := hdigits
  have hpoint : ∀ c ∈ digits, (c != '.') = true := fun c hc => bne_iff_ne.2 (ne_of_isDigit (hall c hc) (by decide))
  rw [isMantissa, List.takeWhile_append_of_pos hpoint, List.dropWhile_append_of_pos hpoint]
  rcases hfraction with rfl | ⟨rest, rfl, hrest⟩
  · simpa [hne] using hall
  · simpa [hne, hrest] using hall

theorem isNumber_of_isInteger (h : isInteger cs = true) : isNumber cs = true := by
  have hmantissa : isMantissa (unsigned cs ++ []) = true := isMantissa_append h (.inl rfl)
  rw [List.append_nil] at hmantissa
  exact isNumber_of_isMantissa hmantissa

/-- A number: a sign, digits with one among them, and what else may stand in a number. -/
theorem parts_of_isNumber (h : isNumber cs = true) :
    ∃ sign mantissa exponent, cs = sign ++ (mantissa ++ exponent) ∧ (sign = [] ∨ sign = ['+'] ∨ sign = ['-']) ∧
      isMantissa mantissa = true ∧ ∀ c ∈ exponent, c ∈ characters := by
  simp only [isNumber, Bool.and_eq_true] at h
  obtain ⟨hmantissa, hexponent⟩ := h
  obtain ⟨sign, hcs, hsign⟩ := unsigned_eq cs
  refine ⟨sign, (unsigned cs).takeWhile fun c => !isExponent c, (unsigned cs).dropWhile fun c => !isExponent c, ?_,
    hsign, hmantissa, ?_⟩
  · rw [List.takeWhile_append_dropWhile]
    exact hcs
  · have hhead := List.head?_dropWhile_not (fun c => !isExponent c) (unsigned cs)
    cases hdrop : (unsigned cs).dropWhile fun c => !isExponent c with
    | nil => simp
    | cons e rest =>
        rw [hdrop] at hhead hexponent
        have he : e = 'e' ∨ e = 'E' := by simpa [isExponent, or_iff_not_imp_left] using hhead
        simp only [List.isEmpty_cons, Bool.false_or, List.tail_cons, isDigits, Bool.and_eq_true,
          List.all_eq_true] at hexponent
        refine List.forall_mem_cons.2 ⟨?_, mem_of_unsigned fun c hc => mem_of_isDigit (hexponent.2 c hc)⟩
        rcases he with rfl | rfl
        · decide
        · decide

/-- **The characters of a number.** -/
theorem mem_of_isNumber (h : isNumber cs = true) (hc : c ∈ cs) : c ∈ characters := by
  obtain ⟨sign, mantissa, exponent, hcs, hsign, hmantissa, hexponent⟩ := parts_of_isNumber h
  rw [hcs, List.mem_append, List.mem_append] at hc
  rcases hc with hc | hc | hc
  · rcases hsign with rfl | rfl | rfl
    · cases hc
    · rw [List.mem_singleton.1 hc]
      decide
    · rw [List.mem_singleton.1 hc]
      decide
  · exact mem_of_isMantissa hmantissa hc
  · exact hexponent c hc

theorem isMantissa_ne_nil (h : isMantissa cs = true) : cs ≠ [] := by
  rintro rfl
  cases h

/-- A mantissa begins with a digit, or with a point and a digit. -/
theorem head_of_isMantissa (h : isMantissa cs = true) :
    (∃ c rest, cs = c :: rest ∧ c.isDigit = true) ∨ ∃ c rest, cs = '.' :: c :: rest ∧ c.isDigit = true := by
  obtain ⟨c, rest, rfl⟩ := List.exists_cons_of_ne_nil (isMantissa_ne_nil h)
  rcases isMantissa_mem h List.mem_cons_self with hdigit | rfl
  · exact .inl ⟨c, rest, rfl, hdigit⟩
  · simp only [isMantissa, bne_self_eq_false, Bool.false_eq_true, not_false_eq_true, List.takeWhile_cons_of_neg,
      List.dropWhile_cons_of_neg, List.all_nil, List.tail_cons, List.isEmpty_nil, Bool.true_and, Bool.and_eq_true,
      List.all_eq_true, Bool.not_eq_true', List.isEmpty_eq_false_iff] at h
    obtain ⟨d, rest, rfl⟩ := List.exists_cons_of_ne_nil h.2
    exact .inr ⟨d, rest, rfl, h.1 d List.mem_cons_self⟩

/-! ### Integers -/

theorem toString_cases (n : ℤ) :
    (∃ m : ℕ, n = m ∧ (toString n).toList = Nat.toDigits 10 m) ∨
      ∃ m : ℕ, n = -(m : ℤ) ∧ (toString n).toList = '-' :: Nat.toDigits 10 m := by
  cases n with
  | ofNat m => exact .inl ⟨m, rfl, Nat.toList_repr⟩
  | negSucc m =>
      refine .inr ⟨m + 1, rfl, ?_⟩
      have hrepr : toString (Int.negSucc m) = "-" ++ (m + 1).repr := rfl
      rw [hrepr, String.toList_append, Nat.toList_repr]
      rfl

theorem unsigned_of_isDigit (h : c.isDigit = true) : unsigned (c :: cs) = c :: cs := by
  rw [unsigned.eq_def]
  split
  · rename_i heq
    exact absurd (List.cons.inj heq).1 (ne_of_isDigit h (by decide))
  · rename_i heq
    exact absurd (List.cons.inj heq).1 (ne_of_isDigit h (by decide))
  · rfl

theorem isDigit_toDigits {m : ℕ} (h : c ∈ Nat.toDigits 10 m) : c.isDigit = true :=
  Nat.isDigit_of_mem_toDigits (by decide) (by decide) h

/-- What begins with the digits of a number has no sign. -/
theorem unsigned_toDigits_append (m : ℕ) (cs : List Char) :
    unsigned (Nat.toDigits 10 m ++ cs) = Nat.toDigits 10 m ++ cs := by
  obtain ⟨c, rest, hdigits⟩ := List.exists_cons_of_ne_nil (Nat.toDigits_ne_nil (n := m) (b := 10))
  rw [hdigits, List.cons_append]
  exact unsigned_of_isDigit (isDigit_toDigits (by rw [hdigits]; exact List.mem_cons_self))

theorem unsigned_toDigits (m : ℕ) : unsigned (Nat.toDigits 10 m) = Nat.toDigits 10 m := by
  simpa using unsigned_toDigits_append m []

theorem isDigits_toDigits (m : ℕ) : isDigits (Nat.toDigits 10 m) = true := by
  simp only [isDigits, Bool.and_eq_true, Bool.not_eq_true', List.isEmpty_eq_false_iff, List.all_eq_true]
  exact ⟨Nat.toDigits_ne_nil, fun c hc => isDigit_toDigits hc⟩

theorem isInteger_toString (n : ℤ) : isInteger (toString n).toList = true := by
  rcases toString_cases n with ⟨m, -, h⟩ | ⟨m, -, h⟩
  · rw [isInteger, h, unsigned_toDigits, isDigits_toDigits]
  · rw [isInteger, h, unsigned, isDigits_toDigits]

/-- **An integer that is written** has its own value. -/
theorem integer_toString (n : ℤ) : integer (toString n).toList = n := by
  rcases toString_cases n with ⟨m, hn, h⟩ | ⟨m, hn, h⟩
  · have hdigits := unsigned_toDigits m
    rw [h, integer.eq_def]
    split
    · rename_i heq
      rw [heq] at hdigits
      exact absurd (congrArg List.length hdigits) (by simp [unsigned])
    · rw [hdigits, Nat.ofDigitChars_ten_toDigits, hn]
  · rw [h, integer, Nat.ofDigitChars_ten_toDigits, hn]

end Numeral

namespace Yaml

open Numeral

variable {float : String → UInt64} {cs : List Char} {s : String}

/-! ### On a line -/

theorem ns_of_mem_characters {c : Char} (h : c ∈ characters) : ns c = true := by
  have hall : characters.all ns = true := by decide
  exact List.all_eq_true.1 hall c h

/-- A number is a plain scalar. -/
theorem isPlain_of_isNumber (h : isNumber cs = true) : isPlain none cs = true := by
  have hns {c : Char} (hc : c ∈ cs) : nb c = true ∧ isWhite c = false :=
    ns_iff.1 (ns_of_mem_characters (mem_of_isNumber h hc))
  have hnot {c : Char} {front back : List Char} (heq : cs = front ++ c :: back) : c ∈ characters :=
    mem_of_isNumber h (by rw [heq]; simp)
  rw [isPlain_iff]
  refine ⟨fun c hc => (hns hc).1, fun c hc => (hns (List.mem_of_getLast? hc)).2, ?_, fun front back d heq => ?_,
    fun front back heq => absurd (hnot heq) (by decide)⟩
  · obtain ⟨sign, mantissa, exponent, hcs, hsign, hmantissa, -⟩ := parts_of_isNumber h
    obtain ⟨c, rest, rfl⟩ := List.exists_cons_of_ne_nil (isMantissa_ne_nil hmantissa)
    have hc := isMantissa_mem hmantissa List.mem_cons_self
    have hall : (characters.all fun d => !indicators.contains d || d == '-') = true := by decide
    have hcns : ns c = true := ns_of_mem_characters (mem_of_isMantissa hmantissa List.mem_cons_self)
    rcases hsign with rfl | rfl | rfl
    · refine ⟨c, rest ++ exponent, hcs, isWhite_of_ns hcns, fun hmem => ?_⟩
      have hdash := List.all_eq_true.1 hall c (mem_of_isMantissa hmantissa List.mem_cons_self)
      obtain rfl : c = '-' := by simpa [hmem] using hdash
      exact absurd hc (by decide)
    · exact ⟨'+', _, hcs, by decide, fun hmem => absurd hmem (by decide)⟩
    · exact ⟨'-', c :: (rest ++ exponent), hcs, by decide, fun _ => ⟨.inl rfl, hcns⟩⟩
  · exact (hns (by rw [heq]; simp)).2

/-- A number marks neither the beginning nor the end of a document. -/
theorem isMarker_of_isNumber (h : isNumber cs = true) : isMarker cs = false := by
  obtain ⟨sign, mantissa, exponent, rfl, hsign, hmantissa, -⟩ := parts_of_isNumber h
  have hdash {c : Char} (hc : c.isDigit = true) : c ≠ '-' := ne_of_isDigit hc (by decide)
  have hpoint {c : Char} (hc : c.isDigit = true) : c ≠ '.' := ne_of_isDigit hc (by decide)
  rw [← Bool.not_eq_true]
  intro hmarker
  simp only [isMarker, Bool.and_eq_true, Bool.or_eq_true, beq_iff_eq] at hmarker
  rcases head_of_isMantissa hmantissa with ⟨c, rest, rfl, hc⟩ | ⟨c, rest, rfl, hc⟩
  · rcases hsign with rfl | rfl | rfl
    · simp [hdash hc, hpoint hc] at hmarker
    · simp at hmarker
    · simp [hdash hc] at hmarker
  · rcases hsign with rfl | rfl | rfl
    · simp [hpoint hc] at hmarker
    · simp at hmarker
    · simp at hmarker

theorem not_mem_of_isNumber {words : List String} (hwords : ∀ w ∈ words, isNumber w.toList = false)
    (h : isNumber s.toList = true) : words.contains s = false := by
  rw [List.contains_eq_mem, decide_eq_false_iff_not]
  intro hmem
  rw [hwords s hmem] at h
  cases h

/-- **An integer**, read. -/
theorem scalar_integer (n : ℤ) : scalar float (toString n).toList = some (.num (.int n)) := by
  have hinteger := isInteger_toString n
  have hnumber := isNumber_of_isInteger hinteger
  have hnull : nulls.contains (toString n) = false := not_mem_of_isNumber (by decide) hnumber
  have htrue : trues.contains (toString n) = false := not_mem_of_isNumber (by decide) hnumber
  have hfalse : falses.contains (toString n) = false := not_mem_of_isNumber (by decide) hnumber
  rw [scalar_of_isPlain (isPlain_of_isNumber hnumber), String.ofList_toList, resolve, hnull, htrue, hfalse, hinteger,
    integer_toString]
  rfl

/-- **A number that is no integer**, read. -/
theorem scalar_real (hnumber : isNumber s.toList = true) (hinteger : isInteger s.toList = false) :
    scalar float s.toList = some (.num (.float (float s))) := by
  have hnull : nulls.contains s = false := not_mem_of_isNumber (by decide) hnumber
  have htrue : trues.contains s = false := not_mem_of_isNumber (by decide) hnumber
  have hfalse : falses.contains s = false := not_mem_of_isNumber (by decide) hnumber
  have hoctal : isOctal s.toList = false := by
    rw [isOctal.eq_def]
    split
    · rename_i digits hs
      exact absurd (mem_of_isNumber hnumber (c := 'o') (by rw [hs]; simp)) (by decide)
    · rfl
  have hhex : isHex s.toList = false := by
    rw [isHex.eq_def]
    split
    · rename_i digits hs
      exact absurd (mem_of_isNumber hnumber (c := 'x') (by rw [hs]; simp)) (by decide)
    · rfl
  have hreal : isReal s = true := by
    rw [isReal, hnumber]
    rfl
  rw [scalar_of_isPlain (isPlain_of_isNumber hnumber), String.ofList_toList, resolve, hnull, htrue, hfalse, hinteger,
    hoctal, hhex, hreal]
  rfl

end Yaml
