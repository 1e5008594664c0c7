/-
What the patterns of the rules match.

A pattern of a rule is bytes, of which a star stands for any bytes, a question mark for one, and a letter for
itself in either case.  The matcher is the walk with one place to come back to; its fuel is more than the
walk needs, so that what it answers is whether the text is the pattern with its stars and question marks
filled in.

* `Fills`, `Filled` — what a byte of a pattern stands for, and a whole pattern;
* `globFrom_eq` — the loop is the walk;
* `glob_iff` — what a pattern matches, and that the loop comes to its answer;
* `isAbout_iff` — what a rule is about.
-/
import Nutsh.Guardrails
import Nutsh.Lib.Glob

set_option relaxedAutoImplicit false
set_option autoImplicit false

namespace Nutsh

/-- Whether a byte of a pattern is a star. -/
def isStar (b : UInt8) : Bool := b == 42

/-- Whether a byte of a pattern stands for a byte of a text. -/
def acceptsByte (b c : UInt8) : Bool := b == 63 || lowerByte b == lowerByte c

/-- What a byte of a pattern may be replaced by. -/
def Fills (b : UInt8) (part : List UInt8) : Prop :=
  if b = 42 then True
  else if b = 63 then part.length = 1
  else ∃ c, part = [c] ∧ lowerByte b = lowerByte c

/-- A text is the pattern with each of its bytes replaced. -/
def Filled (pattern text : List UInt8) : Prop :=
  ∃ parts, List.Forall₂ Fills pattern parts ∧ text = parts.flatten

theorem fills_iff (b : UInt8) (part : List UInt8) :
    Fills b part ↔ isStar b = true ∨ ∃ c, part = [c] ∧ acceptsByte b c = true := by
  simp only [Fills, isStar, acceptsByte, beq_iff_eq, Bool.or_eq_true]
  by_cases hstar : b = 42
  · simp [hstar]
  · by_cases hmark : b = 63
    · simp [hmark, List.length_eq_one_iff]
    · simp [hstar, hmark]

theorem filled_iff {pattern text : List UInt8} :
    Filled pattern text ↔ Glob.Fits isStar acceptsByte pattern text := by
  simp only [Filled, Glob.Fits, funext fun b => funext fun part => propext (fills_iff b part)]

/-- The loop is the walk. -/
theorem globFrom_eq (fuel : ℕ) (p t : List UInt8) (star : Option (List UInt8 × List UInt8)) :
    globFrom fuel p t star =
      (Glob.run isStar acceptsByte fuel { pattern := p, text := t, last := star }).getD false := by
  induction fuel generalizing p t star with
  | zero => rfl
  | succ fuel ih =>
      rw [Glob.run, Glob.step]
      cases t with
      | nil => rfl
      | cons c t =>
          cases p with
          | nil =>
              rcases star with _ | ⟨after, _ | ⟨_, rest⟩⟩
              · rfl
              · rfl
              · exact ih after rest _
          | cons b p =>
              simp only [globFrom, isStar, acceptsByte, beq_iff_eq, Bool.or_eq_true]
              by_cases hstar : b = 42
              · simp only [hstar, if_true]
                exact ih _ _ _
              · by_cases hmark : b = 63
                · subst hmark
                  exact ih _ _ _
                · by_cases hsame : lowerByte b = lowerByte c
                  · simp only [hstar, hmark, hsame, if_false, if_true, or_true]
                    exact ih _ _ _
                  · simp only [hstar, hmark, hsame, if_false, or_self]
                    rcases star with _ | ⟨after, _ | ⟨_, rest⟩⟩
                    · rfl
                    · rfl
                    · exact ih after rest _

/-- The walk over a pattern comes to its answer in any number of steps that is enough. -/
theorem run_glob (pattern text : String) {fuel : ℕ}
    (hfuel : ((utf8 text).length + 1) * ((utf8 pattern).length + 1) ≤ fuel) :
    ∃ r, Glob.run isStar acceptsByte fuel { pattern := utf8 pattern, text := utf8 text } = some r ∧
      (r = true ↔ Filled (utf8 pattern) (utf8 text)) := by
  rw [filled_iff]
  exact Glob.run_start hfuel

theorem glob_filled (pattern text : String) :
    glob pattern text = true ↔ Filled (utf8 pattern) (utf8 text) := by
  have hfuel : ((utf8 text).length + 1) * ((utf8 pattern).length + 1) ≤
      ((utf8 text).length + 1) * ((utf8 pattern).length + (utf8 text).length + 1) + 1 :=
    (Nat.mul_le_mul_left _ (by omega)).trans (Nat.le_succ _)
  obtain ⟨r, hr, hfilled⟩ := run_glob pattern text hfuel
  rw [glob, globFrom_eq, hr, Option.getD_some, hfilled]

/-- **What a pattern matches**: the texts that are the pattern filled in; and the loop comes to its answer. -/
theorem glob_iff (pattern text : String) :
    (glob pattern text = true ↔ Filled (utf8 pattern) (utf8 text)) ∧
      Glob.run isStar acceptsByte (((utf8 text).length + 1) * ((utf8 pattern).length + 1))
        { pattern := utf8 pattern, text := utf8 text } = some (glob pattern text) := by
  refine ⟨glob_filled pattern text, ?_⟩
  obtain ⟨r, hr, hfilled⟩ := run_glob pattern text (Nat.le_refl _)
  rw [hr, Bool.eq_iff_iff.2 (hfilled.trans (glob_filled pattern text).symm)]

/-- What a rule is about: each of its lists is absent, or one of its patterns is filled in so. -/
theorem isAbout_iff (r : Rule) (context : String) (kind : Kind) (action : Action) :
    r.isAbout context kind action = true ↔
      (r.contexts = [] ∨ ∃ g ∈ r.contexts, Filled (utf8 g) (utf8 context)) ∧
      (r.kinds = [] ∨ ∃ g ∈ r.kinds, ∃ name ∈ kind.id :: kind.display :: kind.aliases,
        Filled (utf8 g) (utf8 name)) ∧
      (r.actions = [] ∨ ∃ g ∈ r.actions, Filled (utf8 g) (utf8 action.name)) := by
  simp only [Rule.isAbout, anyGlob, Bool.and_eq_true, Bool.or_eq_true, List.isEmpty_iff, List.any_eq_true,
    glob_filled, List.mem_cons, exists_eq_or_imp, and_assoc, or_assoc]

end Nutsh
