/-
Numbers in decimal digits, with zeros before them up to a width.

* `Digits.ofNat`, `Digits.ofInt` — a number at a width, the sign before the zeros;
* `Digits.append_lt_append_iff` — the order of texts whose first parts are of one length;
* `Digits.ofNat_lt_iff`, `Digits.ofInt_lt_iff` — numbers that fit the width come in the order of their digits;
* `Digits.mod_pow_eq` — numbers with the same last digits, in any base.
-/
import Mathlib.Algebra.Group.Nat.Defs
import Mathlib.Data.Int.Notation
import Mathlib.Data.List.Lex
import Mathlib.Order.Defs.LinearOrder
import Mathlib.Data.Char

set_option relaxedAutoImplicit false
set_option autoImplicit false

namespace Digits

/-- A natural number, with zeros before it up to a width. -/
def ofNat (width n : ℕ) : List Char :=
  let digits := Nat.toDigits 10 n
  List.replicate (width - digits.length) '0' ++ digits

/-- An integer, with zeros between its sign and its digits up to a width. -/
def ofInt (width : ℕ) (n : ℤ) : List Char :=
  if n < 0 then '-' :: ofNat (width - 1) n.natAbs else ofNat width n.natAbs

theorem ofInt_of_nonneg {n : ℤ} (width : ℕ) (h : 0 ≤ n) : ofInt width n = ofNat width n.natAbs := by
  rw [ofInt, if_neg (by omega)]

/-- Texts whose first parts are of one length come in the order of these, then of what follows. -/
theorem append_lt_append_iff {a b c d : List Char} (h : a.length = b.length) :
    a ++ c < b ++ d ↔ a < b ∨ a = b ∧ c < d := by
  induction a generalizing b with
  | nil =>
      have hb : b = [] := List.length_eq_zero_iff.1 h.symm
      simp [hb]
  | cons x a ih =>
      cases b with
      | nil => exact absurd h (by simp)
      | cons y b =>
          have ih := ih (b := b) (by simpa using h)
          rw [List.cons_append, List.cons_append, List.cons_lt_cons_iff, List.cons_lt_cons_iff, ih, List.cons.injEq]
          tauto

theorem length_ofNat {width n : ℕ} (hwidth : 0 < width) (h : n < 10 ^ width) : (ofNat width n).length = width := by
  have hle := (Nat.length_toDigits_le_iff (by decide : 1 < 10) hwidth).2 h
  rw [ofNat, List.length_append, List.length_replicate]
  omega

theorem ofNat_one {n : ℕ} (h : n < 10) : ofNat 1 n = [n.digitChar] := by
  rw [ofNat, Nat.toDigits_of_lt_base h]
  rfl

theorem ofNat_succ {width : ℕ} (hwidth : 0 < width) (n : ℕ) :
    ofNat (width + 1) n = ofNat width (n / 10) ++ [(n % 10).digitChar] := by
  rw [ofNat, ofNat]
  by_cases hsmall : n < 10
  · have hzero : n / 10 = 0 := Nat.div_eq_of_lt hsmall
    obtain ⟨width, rfl⟩ := Nat.exists_eq_add_of_lt hwidth
    rw [hzero, Nat.toDigits_of_lt_base hsmall, Nat.toDigits_zero, Nat.mod_eq_of_lt hsmall]
    simp [List.replicate_succ']
  · rw [Nat.toDigits_of_base_le (by decide) (by omega : 10 ≤ n)]
    simp [Nat.add_sub_add_right]

theorem digitChar_lt_iff : ∀ i j : Fin 10, (i.val.digitChar < j.val.digitChar ↔ i < j) ∧
    (i.val.digitChar = j.val.digitChar ↔ i = j) := by
  decide

theorem digitChar_inj {i j : ℕ} (hi : i < 10) (hj : j < 10) : i.digitChar = j.digitChar ↔ i = j := by
  simpa using (digitChar_lt_iff ⟨i, hi⟩ ⟨j, hj⟩).2

theorem digitChar_lt {i j : ℕ} (hi : i < 10) (hj : j < 10) : i.digitChar < j.digitChar ↔ i < j := by
  simpa using (digitChar_lt_iff ⟨i, hi⟩ ⟨j, hj⟩).1

/-- **Numbers that fit the width** are told apart by their digits, and come in the order of these. -/
theorem ofNat_lt_iff {width n m : ℕ} (hwidth : 0 < width) (hn : n < 10 ^ width) (hm : m < 10 ^ width) :
    (ofNat width n = ofNat width m ↔ n = m) ∧ (ofNat width n < ofNat width m ↔ n < m) := by
  induction width, hwidth using Nat.le_induction generalizing n m with
  | base =>
      rw [Nat.succ_eq_add_one, Nat.zero_add, Nat.pow_one] at hn hm
      rw [Nat.succ_eq_add_one, Nat.zero_add, ofNat_one hn, ofNat_one hm, List.cons_lt_cons_iff, List.cons.injEq,
        digitChar_inj hn hm, digitChar_lt hn hm]
      simp
  | succ width hwidth ih =>
      -- all but the last digit first, then the last
      rw [Nat.pow_succ] at hn hm
      have hn' : n / 10 < 10 ^ width := by omega
      have hm' : m / 10 < 10 ^ width := by omega
      have hlength : (ofNat width (n / 10)).length = (ofNat width (m / 10)).length := by
        rw [length_ofNat hwidth hn', length_ofNat hwidth hm']
      obtain ⟨hinj, hlt⟩ := ih hn' hm'
      have hnlast : n % 10 < 10 := Nat.mod_lt n (by decide)
      have hmlast : m % 10 < 10 := Nat.mod_lt m (by decide)
      rw [ofNat_succ hwidth, ofNat_succ hwidth, append_lt_append_iff hlength,
        List.append_eq_append_iff_of_size_eq_left hlength, List.cons_lt_cons_iff, List.cons.injEq, hinj, hlt,
        digitChar_inj hnlast hmlast, digitChar_lt hnlast hmlast]
      constructor
      · simp
        omega
      · simp
        omega

theorem length_ofInt {width : ℕ} {n : ℤ} (hwidth : 0 < width) (hn : 0 ≤ n) (h : n.natAbs < 10 ^ width) :
    (ofInt width n).length = width := by
  rw [ofInt_of_nonneg width hn, length_ofNat hwidth h]

theorem ofInt_lt_iff {width : ℕ} {n m : ℤ} (hwidth : 0 < width) (hn : 0 ≤ n ∧ n.natAbs < 10 ^ width)
    (hm : 0 ≤ m ∧ m.natAbs < 10 ^ width) :
    (ofInt width n = ofInt width m ↔ n = m) ∧ (ofInt width n < ofInt width m ↔ n < m) := by
  obtain ⟨hinj, hlt⟩ := ofNat_lt_iff hwidth hn.2 hm.2
  rw [ofInt_of_nonneg width hn.1, ofInt_of_nonneg width hm.1, hinj, hlt]
  omega

/-- Numbers with the same last digits are the same up to a power of the base. -/
theorem mod_pow_eq {base n m : ℕ} (k : ℕ) (h : ∀ j < k, n / base ^ j % base = m / base ^ j % base) :
    n % base ^ k = m % base ^ k := by
  induction k with
  | zero => rw [Nat.pow_zero, Nat.mod_one, Nat.mod_one]
  | succ k ih =>
      rw [Nat.mod_pow_succ, Nat.mod_pow_succ, ih fun j hj => h j (Nat.lt_succ_of_lt hj), h k (Nat.lt_succ_self k)]

end Digits
