/-
Shares of an amount by weight, in whole numbers.

Everyone's share is rounded down.  What is left over is less than one for each, so that the rest is handed out
by giving one more to some.

* `Shares.share` — a share, rounded down;
* `Shares.sum_share_le`, `Shares.sub_sum_share_lt` — the shares are no more than the amount, and leave less than
  one for each.
-/
import Mathlib.Algebra.Order.BigOperators.Group.List
import Mathlib.Tactic.Ring

set_option relaxedAutoImplicit false
set_option autoImplicit false

namespace Shares

/-- The share of a weight, rounded down. -/
def share (amount total weight : ℕ) : ℕ := amount * weight / total

theorem share_le {amount total weight : ℕ} (h : weight ≤ total) : share amount total weight ≤ amount := by
  rcases Nat.eq_zero_or_pos total with rfl | hpos
  · rw [share, Nat.div_zero]
    exact Nat.zero_le amount
  · exact Nat.div_le_of_le_mul (by rw [Nat.mul_comm]; exact Nat.mul_le_mul_right amount h)

theorem sum_share_mul_le (amount total : ℕ) (weights : List ℕ) :
    (weights.map (share amount total)).sum * total ≤ amount * weights.sum := by
  induction weights with
  | nil => simp
  | cons weight weights ih =>
      have hshare : share amount total weight * total ≤ amount * weight := Nat.div_mul_le_self _ _
      rw [List.map_cons, List.sum_cons, List.sum_cons, Nat.add_mul, Nat.mul_add]
      exact Nat.add_le_add hshare ih

theorem lt_sum_share_mul {total : ℕ} (hpos : 0 < total) (amount : ℕ) {weights : List ℕ} (hne : weights ≠ []) :
    amount * weights.sum < ((weights.map (share amount total)).sum + weights.length) * total := by
  induction weights with
  | nil => exact absurd rfl hne
  | cons weight weights ih =>
      have hshare : amount * weight < (share amount total weight + 1) * total := by
        have hdiv := Nat.div_add_mod (amount * weight) total
        have hmod := Nat.mod_lt (amount * weight) hpos
        rw [share, Nat.add_mul, Nat.mul_comm (amount * weight / total), Nat.one_mul]
        omega
      have hrest : amount * weights.sum ≤ ((weights.map (share amount total)).sum + weights.length) * total := by
        cases weights with
        | nil => simp
        | cons next weights => exact (ih (List.cons_ne_nil next weights)).le
      calc amount * (weight :: weights).sum
          = amount * weight + amount * weights.sum := by rw [List.sum_cons, Nat.mul_add]
        _ < (share amount total weight + 1) * total +
            ((weights.map (share amount total)).sum + weights.length) * total := by omega
        _ = (((weight :: weights).map (share amount total)).sum + (weight :: weights).length) * total := by
            rw [List.map_cons, List.sum_cons, List.length_cons]
            ring

/-- The shares are no more than the amount. -/
theorem sum_share_le {amount total : ℕ} {weights : List ℕ} (hpos : 0 < total) (htotal : weights.sum = total) :
    (weights.map (share amount total)).sum ≤ amount := by
  have h := sum_share_mul_le amount total weights
  rw [htotal] at h
  exact Nat.le_of_mul_le_mul_right h hpos

/-- They leave less than one for each. -/
theorem sub_sum_share_lt {amount total : ℕ} {weights : List ℕ} (hpos : 0 < total) (htotal : weights.sum = total) :
    amount - (weights.map (share amount total)).sum < weights.length := by
  have hne : weights ≠ [] := by
    rintro rfl
    exact absurd htotal (by simpa using hpos.ne)
  have h := lt_sum_share_mul hpos amount hne
  rw [htotal] at h
  have hlt := Nat.lt_of_mul_lt_mul_right h
  have hle := (sum_share_le hpos htotal : (weights.map (share amount total)).sum ≤ amount)
  omega

end Shares
