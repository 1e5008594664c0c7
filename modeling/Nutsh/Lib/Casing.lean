/-
Lower case, over the tables of a script.

Every character has its lower case, which may be several characters, but for the capital sigma: at the end
of a word it is written otherwise than within one.  Where it stands is told by the characters around it,
those that are as good as absent to the eye being skipped; so the lower case of a text need not be the
beginning of the lower case of a longer one.

Main definitions:

* `Casing` — the tables: lower cases, which characters have a case, and which are skipped;
* `Casing.lower` — the lower case of a text;
* `Casing.EndsOpen` — the text ends in a sigma that the next character may stop from being its last.

Main results:

* `Casing.lowerFrom_prefix` — a character appended leaves the lower case before it alone, but for such a
  sigma;
* `Casing.infix_lowerFrom` — what stands for itself in lower case is found again in it;
* `Casing.lowerFrom_cons_digit` — a digit in front changes nothing behind it.
-/
import Mathlib.Data.List.TakeWhile
import Mathlib.Tactic.IntervalCases

set_option relaxedAutoImplicit false
set_option autoImplicit false

/-- The tables of a script.  A digit is its own lower case, has no case and is not skipped. -/
structure Casing where
  lowerChar : Char → List Char
  cased : Char → Bool
  ignorable : Char → Bool
  lowerChar_digit : ∀ {c : Char}, c.isDigit = true → lowerChar c = [c]
  cased_digit : ∀ {c : Char}, c.isDigit = true → cased c = false
  ignorable_digit : ∀ {c : Char}, c.isDigit = true → ignorable c = false

namespace Casing

variable (k : Casing)

/-- Whether the first character that counts has a case. -/
def ignorableThenCased (cs : List Char) : Bool := (cs.dropWhile k.ignorable).head?.any k.cased

/-- A character in lower case, after the characters `before`, the nearest one first, and before `after`. -/
def lowerAt (before : List Char) (c : Char) (after : List Char) : List Char :=
  if c = 'Σ' then
    if k.ignorableThenCased before && !k.ignorableThenCased after then ['ς'] else ['σ']
  else k.lowerChar c

/-- What follows the characters `before`, in lower case. -/
def lowerFrom (before : List Char) : List Char → List Char
  | [] => []
  | c :: cs => k.lowerAt before c cs ++ lowerFrom (c :: before) cs

def lower (s : String) : String := String.ofList (k.lowerFrom [] s.toList)

@[simp] theorem lower_toList (s : String) : (k.lower s).toList = k.lowerFrom [] s.toList := by
  simp [lower]

variable {k} {before cs : List Char} {c d : Char}

@[simp] theorem lowerAt_digit (hc : c.isDigit = true) : k.lowerAt before c cs = [c] := by
  rw [lowerAt, if_neg, k.lowerChar_digit hc]
  rintro rfl
  exact absurd hc (by decide)

/-! ### A digit in front -/

/-- What stands behind a digit sees nothing beyond it that has a case. -/
theorem ignorableThenCased_digit (hd : d.isDigit = true) (cs : List Char) :
    k.ignorableThenCased (cs ++ [d]) = k.ignorableThenCased cs := by
  induction cs with
  | nil => simp [ignorableThenCased, k.ignorable_digit hd, k.cased_digit hd]
  | cons c cs ih =>
      rw [List.cons_append]
      by_cases hc : k.ignorable c
      · simpa [ignorableThenCased, hc] using ih
      · simp [ignorableThenCased, hc]

theorem lowerFrom_digit (hd : d.isDigit = true) (before cs : List Char) :
    k.lowerFrom (before ++ [d]) cs = k.lowerFrom before cs := by
  induction cs generalizing before with
  | nil => rfl
  | cons c cs ih =>
      have hat : k.lowerAt (before ++ [d]) c cs = k.lowerAt before c cs := by
        simp only [lowerAt, ignorableThenCased_digit hd]
      rw [lowerFrom, lowerFrom, hat, ← List.cons_append, ih]

theorem lowerFrom_cons_digit (hd : d.isDigit = true) (cs : List Char) :
    k.lowerFrom [] (d :: cs) = d :: k.lowerFrom [] cs := by
  rw [lowerFrom, lowerAt_digit hd, ← List.nil_append [d], lowerFrom_digit hd]
  rfl

/-! ### What stands for itself -/

/-- The lower case of what stands behind a text ends the lower case of the whole. -/
theorem exists_lowerFrom_append (before front cs : List Char) :
    ∃ lowered, k.lowerFrom before (front ++ cs) = lowered ++ k.lowerFrom (front.reverse ++ before) cs := by
  induction front generalizing before with
  | nil => exact ⟨[], rfl⟩
  | cons c front ih =>
      obtain ⟨lowered, h⟩ := ih (c :: before)
      refine ⟨k.lowerAt before c (front ++ cs) ++ lowered, ?_⟩
      rw [List.cons_append, lowerFrom, h, List.reverse_cons, List.append_assoc, List.append_assoc]
      rfl

theorem lowerFrom_digits {ds : List Char} (h : ∀ d ∈ ds, d.isDigit = true) (before cs : List Char) :
    k.lowerFrom before (ds ++ cs) = ds ++ k.lowerFrom (ds.reverse ++ before) cs := by
  induction ds generalizing before with
  | nil => rfl
  | cons d ds ih =>
      obtain ⟨hd, hds⟩ := List.forall_mem_cons.1 h
      rw [List.cons_append, lowerFrom, lowerAt_digit hd, ih hds, List.reverse_cons, List.append_assoc]
      rfl

/-- Digits in a text stand in its lower case. -/
theorem infix_lowerFrom {ds : List Char} (hds : ∀ d ∈ ds, d.isDigit = true) (before : List Char)
    (h : ds <:+: cs) : ds <:+: k.lowerFrom before cs := by
  obtain ⟨front, back, rfl⟩ := h
  obtain ⟨lowered, hfront⟩ := exists_lowerFrom_append (k := k) before front (ds ++ back)
  rw [List.append_assoc, hfront, lowerFrom_digits hds]
  exact ⟨lowered, _, List.append_assoc ..⟩

/-! ### A character appended -/

/-- What follows `before` ends in a sigma, but for characters that are skipped, and the sigma is the last
letter of a word. -/
def EndsOpen (k : Casing) (before cs : List Char) : Prop :=
  ∃ front back, cs = front ++ 'Σ' :: back ∧ (∀ c ∈ back, k.ignorable c = true) ∧
    k.ignorableThenCased (front.reverse ++ before) = true

theorem EndsOpen.cons (h : k.EndsOpen (c :: before) cs) : k.EndsOpen before (c :: cs) := by
  obtain ⟨front, back, rfl, hback, hfront⟩ := h
  exact ⟨c :: front, back, rfl, hback, by simpa using hfront⟩

/-- A character that counts is told by those before it already, unless they are all skipped. -/
theorem ignorableThenCased_append (h : ¬ ∀ x ∈ cs, k.ignorable x = true) :
    k.ignorableThenCased (cs ++ [c]) = k.ignorableThenCased cs := by
  induction cs with
  | nil => simp at h
  | cons x cs ih =>
      rw [List.cons_append]
      by_cases hx : k.ignorable x
      · have := ih fun hcs => h (List.forall_mem_cons.2 ⟨hx, hcs⟩)
        simpa [ignorableThenCased, hx] using this
      · simp [ignorableThenCased, hx]

/-- **A character appended leaves the lower case before it alone**, unless it has a case and follows an open
sigma. -/
theorem lowerFrom_prefix (before cs : List Char) (c : Char)
    (h : k.ignorableThenCased [c] = true → ¬ k.EndsOpen before cs) :
    k.lowerFrom before cs <+: k.lowerFrom before (cs ++ [c]) := by
  induction cs generalizing before with
  | nil => exact List.nil_prefix
  | cons x cs ih =>
      have hat : k.lowerAt before x (cs ++ [c]) = k.lowerAt before x cs := by
        by_cases hx : x = 'Σ'
        · by_cases hcs : ∀ y ∈ cs, k.ignorable y = true
          · have hdrop : (cs ++ [c]).dropWhile k.ignorable = [c].dropWhile k.ignorable :=
              List.dropWhile_append_of_pos hcs
            have hnone : cs.dropWhile k.ignorable = [] := List.dropWhile_eq_nil_iff.2 hcs
            by_cases hc : k.ignorableThenCased [c] = true
            · have hbefore : k.ignorableThenCased before = false := by
                by_contra hopen
                exact h hc ⟨[], cs, by simp [hx], hcs, by simpa using hopen⟩
              simp [lowerAt, hx, hbefore]
            · rw [ignorableThenCased] at hc
              simp [lowerAt, hx, ignorableThenCased, hdrop, hnone, hc]
          · simp only [lowerAt, ignorableThenCased_append hcs]
        · simp [lowerAt, hx]
      have hrest := ih (x :: before) fun hc hopen => h hc hopen.cons
      rw [List.cons_append, lowerFrom, lowerFrom, hat]
      exact (List.prefix_append_right_inj _).2 hrest

/-! ### Latin and Greek letters -/

theorem mem_of_isDigit (hc : c.isDigit = true) : c ∈ "0123456789".toList := by
  obtain ⟨hlow, hhigh⟩ := Char.isDigit_iff_toNat.1 hc
  have hlow : 48 ≤ c.toNat := hlow
  have hhigh : c.toNat ≤ 57 := hhigh
  rw [← Char.ofNat_toNat c]
  interval_cases c.toNat <;> decide

/-- The tables of the plain Latin and Greek letters. -/
def plain : Casing where
  lowerChar c := [if 'Α' ≤ c && c ≤ 'Ω' then Char.ofNat (c.toNat + 32) else c.toLower]
  cased c := c.isAlpha || ('Α' ≤ c && c ≤ 'ω')
  ignorable c := ['\'', '.', ':', '^', '·'].contains c
  lowerChar_digit hc := by
    have hall : ("0123456789".toList.all fun d =>
        [if 'Α' ≤ d && d ≤ 'Ω' then Char.ofNat (d.toNat + 32) else d.toLower] == [d]) = true := by decide
    exact eq_of_beq (List.all_eq_true.1 hall _ (mem_of_isDigit hc))
  cased_digit hc := by
    have hall : ("0123456789".toList.all fun d => (d.isAlpha || ('Α' ≤ d && d ≤ 'ω')) == false) = true := by decide
    exact eq_of_beq (List.all_eq_true.1 hall _ (mem_of_isDigit hc))
  ignorable_digit hc := by
    have hall : ("0123456789".toList.all fun d => ['\'', '.', ':', '^', '·'].contains d == false) = true := by decide
    exact eq_of_beq (List.all_eq_true.1 hall _ (mem_of_isDigit hc))

example : plain.lower "ΟΔΟΣ" = "οδος" ∧ plain.lower "ΟΔΟΣ.Α" = "οδοσ.α" := by decide +kernel

end Casing
