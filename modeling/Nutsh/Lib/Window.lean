/-
Instants in a window.

A list of instants is paced when no window of a fixed length holds more than a fixed number of them.
An instant is added at the end, not before any of the others, and keeps the list paced as long as
fewer than that number of them are less than the length of the window old.

Main definitions:

* `Window.inside`, `Window.recent` — the instants of a window, and those of the window that ends now;
* `Window.Paced` — no window holds too many.

Main results:

* `Window.Paced.snoc` — what may be added;
* `Window.recent_append_of_old` — the recent instants after the old ones are gone;
* `Window.length_recent_lt_iff` — when a window has room again.
-/
import Mathlib.Data.List.Basic

set_option relaxedAutoImplicit false
set_option autoImplicit false

namespace Window

variable {n w w' t u now now' : ℕ} {ts us : List ℕ}

/-- The instants from `t` on that are before `t + w`. -/
def inside (w t : ℕ) (ts : List ℕ) : List ℕ := ts.filter fun u => decide (t ≤ u ∧ u < t + w)

/-- The instants less than `w` before `now`. -/
def recent (w now : ℕ) (ts : List ℕ) : List ℕ := ts.filter fun u => decide (now < u + w)

/-- No window of length `w` holds more than `n` of the instants. -/
def Paced (n w : ℕ) (ts : List ℕ) : Prop := ∀ t, (inside w t ts).length ≤ n

theorem paced_nil (n w : ℕ) : Paced n w [] := fun _ => Nat.zero_le n

/-- The instants of a window that holds `now` are recent. -/
theorem length_inside_le_recent (h : now < t + w) :
    (inside w t ts).length ≤ (recent w now ts).length := by
  have himp : ∀ u : ℕ, decide (t ≤ u ∧ u < t + w) = true → decide (now < u + w) = true := by
    intro u hu
    simp only [decide_eq_true_eq] at hu ⊢
    omega
  exact (List.monotone_filter_right ts himp).length_le

/-- **What may be added**: an instant that is not before the others, fewer than `n` of which are
recent. -/
theorem Paced.snoc (h : Paced n w ts) (hrecent : (recent w now ts).length < n) :
    Paced n w (ts ++ [now]) := by
  intro t
  have happ : inside w t (ts ++ [now]) = inside w t ts ++ inside w t [now] := List.filter_append _ _
  rw [happ, List.length_append]
  by_cases hin : t ≤ now ∧ now < t + w
  · have hold : (inside w t ts).length ≤ (recent w now ts).length := length_inside_le_recent hin.2
    have hnew : (inside w t [now]).length ≤ 1 := List.length_filter_le _ _
    omega
  · have hnew : inside w t [now] = [] := by simp [inside, hin]
    have hold := h t
    rw [hnew, List.length_nil]
    omega

/-- The old instants are not recent. -/
theorem recent_append_of_old (h : ∀ u ∈ us, u + w ≤ now) : recent w now (us ++ ts) = recent w now ts := by
  have hold : recent w now us = [] := by
    rw [recent, List.filter_eq_nil_iff]
    intro u hu
    have := h u hu
    simp only [decide_eq_true_eq]
    omega
  rw [recent, List.filter_append]
  exact (congrArg (· ++ recent w now ts) hold).trans (List.nil_append _)

/-- What is recent later is recent now. -/
theorem recent_recent (h : now ≤ now') : recent w now' (recent w now ts) = recent w now' ts := by
  rw [recent, recent, recent, List.filter_filter]
  refine List.filter_congr fun v _ => ?_
  rw [← Bool.decide_and, decide_eq_decide]
  omega

/-- A window of sorted instants holds fewer than `n` once the `n`th from the end is out of it. -/
theorem length_recent_lt_iff (hsorted : ts.Pairwise (· ≤ ·)) (hn : 0 < n) (hlen : n ≤ ts.length)
    (hget : ts[ts.length - n]? = some u) : (recent w now ts).length < n ↔ u + w ≤ now := by
  have hlt : ts.length - n < ts.length := by omega
  have hu : ts[ts.length - n] = u := by
    rw [List.getElem?_eq_getElem hlt] at hget
    exact Option.some.inj hget
  constructor
  · intro hfew
    by_contra hnot
    -- all from `u` on are in the window
    have hdrop : ts.drop (ts.length - n) = u :: ts.drop (ts.length - n + 1) := by
      rw [List.drop_eq_getElem_cons hlt, hu]
    have hpair := hsorted.drop (i := ts.length - n)
    rw [hdrop, List.pairwise_cons] at hpair
    have hall : ∀ v ∈ ts.drop (ts.length - n), decide (now < v + w) = true := by
      intro v hv
      rw [hdrop] at hv
      rw [decide_eq_true_eq]
      obtain rfl | hv := List.mem_cons.1 hv
      · omega
      · have hle := hpair.1 v hv
        omega
    have hsub : (ts.drop (ts.length - n)).length ≤ (recent w now ts).length := by
      have hfilter := (List.drop_sublist (ts.length - n) ts).filter fun v => decide (now < v + w)
      rw [List.filter_eq_self.2 hall] at hfilter
      exact hfilter.length_le
    rw [List.length_drop] at hsub
    omega
  · intro hout
    have hold : ∀ v ∈ ts.take (ts.length - n + 1), v + w ≤ now := by
      intro v hv
      have hpair := hsorted.take (i := ts.length - n + 1)
      rw [List.take_succ_eq_append_getElem hlt, hu] at hv hpair
      obtain hv | hv := List.mem_append.1 hv
      · have hle := (List.pairwise_append.1 hpair).2.2 v hv u (List.mem_singleton_self u)
        omega
      · rw [List.mem_singleton] at hv
        omega
    have hrest : recent w now ts = recent w now (ts.drop (ts.length - n + 1)) := by
      have happ := @recent_append_of_old w now (ts.drop (ts.length - n + 1)) _ hold
      rw [List.take_append_drop] at happ
      exact happ
    have hle : (recent w now (ts.drop (ts.length - n + 1))).length ≤ (ts.drop (ts.length - n + 1)).length :=
      List.length_filter_le _ _
    rw [List.length_drop] at hle
    rw [hrest]
    omega

end Window
