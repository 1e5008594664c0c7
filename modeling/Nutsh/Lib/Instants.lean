/-
The order of instants as texts.

An instant is written as the second it is in and the digits of its fraction, up to nine.  With its fraction padded
to nine digits, the text of an instant comes before that of another exactly when it is earlier.

* `Digits.lt_iff_ofDigitChars_lt` — digits as many as others come in the order of their values;
* `Rfc3339.stem`, `Rfc3339.text`, `Rfc3339.key` — the second, the text, and the text with its fraction padded;
* `Rfc3339.stem_lt_iff` — seconds come in the order of their texts;
* `Rfc3339.read_text` — what is written is read;
* `Rfc3339.key_lt_iff` — instants come in the order of their keys.
-/
import Nutsh.Lib.Rfc3339

set_option relaxedAutoImplicit false
set_option autoImplicit false

namespace Digits

/-- The value of some digits, the first of them taken off. -/
theorem ofDigitChars_cons_zero (c : Char) (cs : List Char) :
    Nat.ofDigitChars 10 (c :: cs) 0 = 10 ^ cs.length * (c.toNat - 48) + Nat.ofDigitChars 10 cs 0 := by
  rw [Nat.ofDigitChars_cons, Nat.ofDigitChars_eq_ofDigitChars_zero, Nat.mul_zero, Nat.zero_add]
  rfl

theorem ofDigitChars_lt_pow {ds : List Char} (h : ∀ d ∈ ds, d.isDigit = true) :
    Nat.ofDigitChars 10 ds 0 < 10 ^ ds.length := by
  induction ds with
  | nil => simp
  | cons d ds ih =>
      obtain ⟨hd, hds⟩ := List.forall_mem_cons.1 h
      have hvalue : d.toNat - 48 ≤ 9 := by
        have hle : d.toNat ≤ 57 := (Char.isDigit_iff_toNat.1 hd).2
        omega
      have ih := ih hds
      have hmul := Nat.mul_le_mul_left (10 ^ ds.length) hvalue
      rw [ofDigitChars_cons_zero, List.length_cons, Nat.pow_succ]
      omega

/-- Two numbers in one base come in the order of their first parts, then of their last. -/
theorem add_lt_add_iff {p a b x y : ℕ} (hx : x < p) (hy : y < p) :
    (p * a + x = p * b + y ↔ a = b ∧ x = y) ∧ (p * a + x < p * b + y ↔ a < b ∨ a = b ∧ x < y) := by
  rcases Nat.lt_trichotomy a b with hlt | rfl | hgt
  · have hmul := Nat.mul_le_mul_left p hlt
    rw [Nat.succ_eq_add_one, Nat.mul_add, Nat.mul_one] at hmul
    omega
  · omega
  · have hmul := Nat.mul_le_mul_left p hgt
    rw [Nat.succ_eq_add_one, Nat.mul_add, Nat.mul_one] at hmul
    omega

/-- **Digits as many as others come in the order of their values.** -/
theorem lt_iff_ofDigitChars_lt {ds es : List Char} (hds : ∀ d ∈ ds, d.isDigit = true) (hes : ∀ e ∈ es, e.isDigit = true)
    (hlen : ds.length = es.length) :
    (ds = es ↔ Nat.ofDigitChars 10 ds 0 = Nat.ofDigitChars 10 es 0) ∧
      (ds < es ↔ Nat.ofDigitChars 10 ds 0 < Nat.ofDigitChars 10 es 0) := by
  induction ds generalizing es with
  | nil =>
      obtain rfl : es = [] := List.length_eq_zero_iff.1 hlen.symm
      simp
  | cons d ds ih =>
      cases es with
      | nil => cases hlen
      | cons e es =>
          obtain ⟨hd, hds'⟩ := List.forall_mem_cons.1 hds
          obtain ⟨he, hes'⟩ := List.forall_mem_cons.1 hes
          rw [List.length_cons, List.length_cons, Nat.add_right_cancel_iff] at hlen
          obtain ⟨heq, hlt⟩ := ih hds' hes' hlen
          have hdlt := ofDigitChars_lt_pow hds'
          have helt := ofDigitChars_lt_pow hes'
          have hchar : d = e ↔ d.toNat - 48 = e.toNat - 48 := by
            have hd : 48 ≤ d.toNat := (Char.isDigit_iff_toNat.1 hd).1
            have he : 48 ≤ e.toNat := (Char.isDigit_iff_toNat.1 he).1
            rw [← Char.toNat_inj]
            omega
          have hcharlt : d < e ↔ d.toNat - 48 < e.toNat - 48 := by
            have hd : 48 ≤ d.toNat := (Char.isDigit_iff_toNat.1 hd).1
            have he : 48 ≤ e.toNat := (Char.isDigit_iff_toNat.1 he).1
            have hval : d < e ↔ d.toNat < e.toNat := Iff.rfl
            rw [hval]
            omega
          rw [hlen] at hdlt
          rw [ofDigitChars_cons_zero, ofDigitChars_cons_zero, hlen, List.cons.injEq, List.cons_lt_cons_iff, heq, hlt,
            hchar, hcharlt]
          exact ⟨(add_lt_add_iff hdlt helt).1.symm, (add_lt_add_iff hdlt helt).2.symm⟩

end Digits

namespace Rfc3339

open Calendar

/-! ### The second an instant is in -/

/-- The date and the time of a second. -/
def stem (secs : ℕ) : List Char :=
  let t := ofSeconds secs
  Digits.ofInt 4 t.date.year ++ '-' :: (Digits.ofInt 2 t.date.month ++ '-' :: (Digits.ofInt 2 t.date.day ++
    'T' :: (Digits.ofNat 2 t.hour ++ ':' :: (Digits.ofNat 2 t.minute ++ ':' :: Digits.ofNat 2 t.second))))

theorem write_eq_stem (secs : ℕ) : write (ofSeconds secs) = stem secs ++ ['Z'] := by
  simp [write, stem]

/-- The years of four digits. -/
def Fits (secs : ℕ) : Prop := (ofSeconds secs).date.year ≤ 9999

/-- The fields of a second, each with as many digits as it is written with. -/
theorem fields_lt {secs : ℕ} (h : Fits secs) :
    (0 ≤ (ofSeconds secs).date.year ∧ (ofSeconds secs).date.year.natAbs < 10 ^ 4) ∧
    (0 ≤ (ofSeconds secs).date.month ∧ (ofSeconds secs).date.month.natAbs < 10 ^ 2) ∧
    (0 ≤ (ofSeconds secs).date.day ∧ (ofSeconds secs).date.day.natAbs < 10 ^ 2) ∧
    (ofSeconds secs).hour < 10 ^ 2 ∧ (ofSeconds secs).minute < 10 ^ 2 ∧ (ofSeconds secs).second < 10 ^ 2 := by
  rw [Fits, ofSeconds_eq] at h
  rw [ofSeconds_eq]
  have hyear := year_ofDays (secs / 86400)
  obtain ⟨hmonth, hday⟩ := proper_ofDays (secs / 86400)
  dsimp only at h ⊢
  omega

theorem length_stem {secs : ℕ} (h : Fits secs) : (stem secs).length = 19 := by
  obtain ⟨hyear, hmonth, hday, hhour, hminute, hsecond⟩ := fields_lt h
  simp only [stem, List.length_append, List.length_cons]
  rw [Digits.length_ofInt (by decide) hyear.1 hyear.2, Digits.length_ofInt (by decide) hmonth.1 hmonth.2,
    Digits.length_ofInt (by decide) hday.1 hday.2, Digits.length_ofNat (by decide) hhour,
    Digits.length_ofNat (by decide) hminute, Digits.length_ofNat (by decide) hsecond]

/-- Texts whose first parts are of one length, with one character behind these, come in the order of the first
parts, then of what follows the character. -/
theorem append_cons_lt_iff {a b x y : List Char} {c : Char} (h : a.length = b.length) :
    a ++ c :: x < b ++ c :: y ↔ a < b ∨ a = b ∧ x < y := by
  rw [Digits.append_lt_append_iff h, List.cons_lt_cons_iff]
  simp

/-- A second before another is written before it. -/
theorem stem_lt {secs later : ℕ} (h : secs < later) (hs : Fits secs) (hl : Fits later) : stem secs < stem later := by
  obtain ⟨hyear, hmonth, hday, hhour, hminute, hsecond⟩ := fields_lt hs
  obtain ⟨hyear', hmonth', hday', hhour', hminute', hsecond'⟩ := fields_lt hl
  have hlenInt {width : ℕ} {n m : ℤ} (hw : 0 < width) (hn : 0 ≤ n ∧ n.natAbs < 10 ^ width)
      (hm : 0 ≤ m ∧ m.natAbs < 10 ^ width) : (Digits.ofInt width n).length = (Digits.ofInt width m).length := by
    rw [Digits.length_ofInt hw hn.1 hn.2, Digits.length_ofInt hw hm.1 hm.2]
  have hlenNat {width n m : ℕ} (hw : 0 < width) (hn : n < 10 ^ width) (hm : m < 10 ^ width) :
      (Digits.ofNat width n).length = (Digits.ofNat width m).length := by
    rw [Digits.length_ofNat hw hn, Digits.length_ofNat hw hm]
  simp only [stem]
  rw [append_cons_lt_iff (hlenInt (by decide) hyear hyear'), append_cons_lt_iff (hlenInt (by decide) hmonth hmonth'),
    append_cons_lt_iff (hlenInt (by decide) hday hday'), append_cons_lt_iff (hlenNat (by decide) hhour hhour'),
    append_cons_lt_iff (hlenNat (by decide) hminute hminute'),
    (Digits.ofInt_lt_iff (by decide) hyear hyear').1, (Digits.ofInt_lt_iff (by decide) hyear hyear').2,
    (Digits.ofInt_lt_iff (by decide) hmonth hmonth').1, (Digits.ofInt_lt_iff (by decide) hmonth hmonth').2,
    (Digits.ofInt_lt_iff (by decide) hday hday').1, (Digits.ofInt_lt_iff (by decide) hday hday').2,
    (Digits.ofNat_lt_iff (by decide) hhour hhour').1, (Digits.ofNat_lt_iff (by decide) hhour hhour').2,
    (Digits.ofNat_lt_iff (by decide) hminute hminute').1, (Digits.ofNat_lt_iff (by decide) hminute hminute').2,
    (Digits.ofNat_lt_iff (by decide) hsecond hsecond').2]
  rw [ofSeconds_eq, ofSeconds_eq]
  dsimp only
  rcases Nat.lt_or_ge (secs / 86400) (later / 86400) with hday | hday
  · obtain h | ⟨hy, h | ⟨hm, h⟩⟩ := ofDays_before hday
    · exact .inl h
    · exact .inr ⟨hy, .inl h⟩
    · exact .inr ⟨hy, .inr ⟨hm, .inl h⟩⟩
  · have hsame : secs / 86400 = later / 86400 := by omega
    refine .inr ⟨by rw [hsame], .inr ⟨by rw [hsame], .inr ⟨by rw [hsame], ?_⟩⟩⟩
    omega

/-- **Seconds come in the order of their texts.** -/
theorem stem_lt_iff {secs later : ℕ} (hs : Fits secs) (hl : Fits later) :
    (stem secs = stem later ↔ secs = later) ∧ (stem secs < stem later ↔ secs < later) := by
  rcases Nat.lt_trichotomy secs later with hlt | rfl | hgt
  · have h := stem_lt hlt hs hl
    exact ⟨iff_of_false (ne_of_lt h) (ne_of_lt hlt), iff_of_true h hlt⟩
  · exact ⟨iff_of_true rfl rfl, iff_of_false (lt_irrefl _) (lt_irrefl _)⟩
  · have h := stem_lt hgt hl hs
    exact ⟨iff_of_false (ne_of_gt h) (ne_of_gt hgt), iff_of_false (lt_asymm h) (lt_asymm hgt)⟩

/-! ### Instants -/

/-- The digits of a fraction, nine of them. -/
def padded (ds : List Char) : List Char := ds ++ List.replicate (9 - ds.length) '0'

/-- The text of an instant. -/
def text (secs : ℕ) (ds : List Char) : List Char := stem secs ++ ((if ds = [] then [] else '.' :: ds) ++ ['Z'])

/-- The text of an instant with its fraction padded. -/
def key (secs : ℕ) (ds : List Char) : List Char := stem secs ++ '.' :: (padded ds ++ ['Z'])

/-- The nanoseconds of an instant since the beginning of 1970. -/
def nanos (secs : ℕ) (ds : List Char) : ℕ := 10 ^ 9 * secs + Nat.ofDigitChars 10 (padded ds) 0

/-- The digits of a fraction that is written. -/
def IsFraction (ds : List Char) : Prop := ds.length ≤ 9 ∧ ∀ d ∈ ds, d.isDigit = true

variable {ds es : List Char}

theorem isFraction_nil : IsFraction [] := ⟨Nat.zero_le 9, fun d hd => by cases hd⟩

theorem IsFraction.padded (h : IsFraction ds) : (padded ds).length = 9 ∧ ∀ d ∈ padded ds, d.isDigit = true := by
  obtain ⟨hlen, hds⟩ := h
  constructor
  · rw [Rfc3339.padded, List.length_append, List.length_replicate]
    omega
  · intro d hd
    rw [Rfc3339.padded] at hd
    rcases List.mem_append.1 hd with hd | hd
    · exact hds d hd
    · rw [List.eq_of_mem_replicate hd]
      decide

/-- **Instants come in the order of their keys.** -/
theorem key_lt_iff {secs later : ℕ} (hs : Fits secs) (hl : Fits later) (hds : IsFraction ds) (hes : IsFraction es) :
    (key secs ds = key later es ↔ nanos secs ds = nanos later es) ∧
      (key secs ds < key later es ↔ nanos secs ds < nanos later es) := by
  obtain ⟨hdlen, hdigits⟩ := hds.padded
  obtain ⟨helen, hedigits⟩ := hes.padded
  have hlen : (stem secs).length = (stem later).length := by rw [length_stem hs, length_stem hl]
  have hpad : (padded ds).length = (padded es).length := by rw [hdlen, helen]
  obtain ⟨hstem, hstemLt⟩ := stem_lt_iff hs hl
  obtain ⟨hfrac, hfracLt⟩ := Digits.lt_iff_ofDigitChars_lt hdigits hedigits hpad
  have hd : Nat.ofDigitChars 10 (padded ds) 0 < 10 ^ 9 := hdlen ▸ Digits.ofDigitChars_lt_pow hdigits
  have he : Nat.ofDigitChars 10 (padded es) 0 < 10 ^ 9 := helen ▸ Digits.ofDigitChars_lt_pow hedigits
  obtain ⟨hnanos, hnanosLt⟩ := Digits.add_lt_add_iff (a := secs) (b := later) hd he
  rw [nanos, nanos, hnanos, hnanosLt, key, key]
  constructor
  · rw [List.append_eq_append_iff_of_size_eq_left hlen, List.cons.injEq,
      List.append_eq_append_iff_of_size_eq_left hpad, hstem, hfrac]
    simp
  · rw [append_cons_lt_iff hlen, Digits.append_lt_append_iff hpad, hstem, hstemLt, hfracLt]
    simp

/-- The nanoseconds of a fraction, nine digits of it being read. -/
theorem fraction_digits (hds : IsFraction ds) (hne : ds ≠ []) (rest : List Char) :
    fraction ('.' :: (ds ++ 'Z' :: rest)) = some (Nat.ofDigitChars 10 (padded ds) 0, 'Z' :: rest) := by
  obtain ⟨hlen, hdigits⟩ := hds
  have htake : (ds ++ 'Z' :: rest).takeWhile Char.isDigit = ds := by
    rw [List.takeWhile_append_of_pos hdigits, List.takeWhile_cons, if_neg (by decide), List.append_nil]
  have hdrop : (ds ++ 'Z' :: rest).dropWhile Char.isDigit = 'Z' :: rest := by
    rw [List.dropWhile_append_of_pos hdigits, List.dropWhile_cons, if_neg (by decide)]
  have hnine : (ds ++ List.replicate 9 '0').take 9 = padded ds := by
    rw [padded, List.take_append, List.take_of_length_le hlen, List.take_replicate]
    congr 2
    omega
  simp only [fraction, htake, hdrop, hnine]
  rw [if_neg (by simpa using hne)]

/-- **What is written is read**: the nanoseconds of the instant. -/
theorem read_text (secs : ℕ) (hds : IsFraction ds) : read (String.ofList (text secs ds)) = some (nanos secs ds : ℤ) := by
  by_cases hne : ds = []
  · subst hne
    have hzero : Nat.ofDigitChars 10 (padded []) 0 = 0 := by decide
    rw [text, if_pos rfl, List.nil_append, ← write_eq_stem, read_written, nanos, hzero]
    congr 1
    push_cast
    omega
  · obtain ⟨⟨hmonth, hmonth'⟩, hday, hday'⟩ := proper_ofDays (secs / 86400)
    have hlast := day_le_monthDays (secs / 86400)
    have hyear := year_ofDays (secs / 86400)
    have hdays := days_ofDays (secs / 86400)
    rw [text, if_neg hne, stem, ofSeconds_eq]
    generalize ofDays (secs / 86400) = date at *
    obtain ⟨year, month, day⟩ := date
    dsimp only at *
    lift year to ℕ using by omega
    lift month to ℕ using by omega
    lift day to ℕ using by omega
    rw [Digits.ofInt_of_nonneg _ (by omega), Digits.ofInt_of_nonneg _ (by omega), Digits.ofInt_of_nonneg _ (by omega),
      Int.natAbs_natCast, Int.natAbs_natCast, Int.natAbs_natCast, read, String.toList_ofList]
    simp only [List.append_assoc, List.cons_append]
    rw [readDate_ofNat (by omega) (by omega) (by decide)]
    have htime := readTime_ofNat (by omega : secs % 86400 / 3600 < 24) (by omega : secs % 86400 % 3600 / 60 < 60)
      (by omega : secs % 86400 % 60 < 60) (by decide : '.'.isDigit = false) (ds ++ ['Z'])
    simp only [Option.bind_eq_bind, Option.bind_some, skip_self, htime, fraction_digits hds hne, offset, hdays]
    refine congrArg some ?_
    rw [nanos]
    push_cast
    omega

end Rfc3339
