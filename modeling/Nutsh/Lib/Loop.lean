/-
Loops that end.

A loop takes turns until one of them says that it is over.  When every turn keeps an invariant and lowers a
measure, the loop is over after fewer turns than the measure tells, and where it ends the invariant holds.

* `Loop.run` — where a loop ends, when so many turns are enough;
* `Loop.run_of_measure` — the rule for a loop with an invariant and a measure.
-/
import Mathlib.Data.Nat.Notation

set_option relaxedAutoImplicit false
set_option autoImplicit false

namespace Loop

variable {σ : Type*} {turn : σ → Option σ}

/-- Where a loop ends, `none` when so many turns are not enough. -/
def run (turn : σ → Option σ) : ℕ → σ → Option σ
  | 0, _ => none
  | turns + 1, s =>
      match turn s with
      | none => some s
      | some t => run turn turns t

/-- **The rule for loops.**  Any more turns than the measure tells lead to the same end. -/
theorem run_of_measure {I : σ → Prop} (μ : σ → ℕ) (hturn : ∀ s t, I s → turn s = some t → I t ∧ μ t < μ s)
    {s : σ} (hs : I s) : ∃ t, I t ∧ turn t = none ∧ ∀ turns, μ s < turns → run turn turns s = some t := by
  induction hbound : μ s using Nat.strongRecOn generalizing s with
  | _ bound ih =>
      cases h : turn s with
      | none =>
          refine ⟨s, hs, h, fun turns hturns => ?_⟩
          obtain ⟨turns, rfl⟩ := Nat.exists_eq_add_one_of_ne_zero (Nat.ne_of_gt (Nat.zero_lt_of_lt hturns))
          rw [run, h]
      | some u =>
          obtain ⟨hu, hless⟩ := hturn s u hs h
          obtain ⟨t, ht, hover, hrun⟩ := ih (μ u) (hbound ▸ hless) hu rfl
          refine ⟨t, ht, hover, fun turns hturns => ?_⟩
          obtain ⟨turns, rfl⟩ := Nat.exists_eq_add_one_of_ne_zero (Nat.ne_of_gt (Nat.zero_lt_of_lt hturns))
          rw [run, h]
          exact hrun turns (by omega)

end Loop
