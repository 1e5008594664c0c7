/-
Climbing from a thing to what is above it, until nothing is.

A measure that falls with every step keeps a climb from coming to a thing twice, so in a list that holds all there
is above the climb ends within the length of the list.  Where every step takes one from a rank, a climb as long as
the rank comes to every rank below it.

* `climb` — what is above, the nearest first, with a bound on how far;
* `not_transGen_self` — what falls does not come back;
* `climb_ends` — a climb ends where nothing is above;
* `rank_of_length_eq` — the ranks that a climb as long as the rank comes to.
-/
import Mathlib.Data.List.Chain
import Mathlib.Data.List.Perm.Subperm
import Mathlib.Logic.Relation

set_option relaxedAutoImplicit false
set_option autoImplicit false

namespace Climb

variable {α : Type*} {up : α → Option α} {s : α → α → Prop} {r : α → ℕ} {x : α} {l all : List α}

/-- What is above, the nearest first, as far as the bound allows. -/
def climb (up : α → Option α) : ℕ → Option α → List α
  | 0, _ => []
  | _, none => []
  | n + 1, some a => a :: climb up n (up a)

/-! ### Falling ranks -/

theorem not_transGen_self (h : ∀ a b, s a b → r b < r a) (a : α) : ¬ Relation.TransGen s a a := by
  have hfall : ∀ b, Relation.TransGen s a b → r b < r a := by
    intro b hb
    induction hb with
    | single hstep => exact h _ _ hstep
    | tail _ hstep ih => exact (h _ _ hstep).trans ih
  exact fun hcycle => lt_irrefl _ (hfall a hcycle)

theorem length_le_rank (h : List.IsChain (fun a b => r b < r a) (x :: l)) : l.length ≤ r x := by
  induction l generalizing x with
  | nil => exact Nat.zero_le _
  | cons b l ih =>
      obtain ⟨hstep, hrest⟩ := List.isChain_cons_cons.1 h
      exact (ih hrest).trans_lt hstep

/-- **Every rank is come to.** -/
theorem rank_of_length_eq (h : List.IsChain (fun a b => r b < r a) (x :: l)) (hlength : l.length = r x)
    {i : ℕ} {a : α} (ha : l.reverse[i]? = some a) : r a = i := by
  induction l generalizing x with
  | nil => cases ha
  | cons b l ih =>
      obtain ⟨hstep, hrest⟩ := List.isChain_cons_cons.1 h
      have hle := length_le_rank hrest
      have hrank : l.length = r b := by
        rw [List.length_cons] at hlength
        omega
      rw [List.reverse_cons] at ha
      rcases lt_or_ge i l.length with hi | hi
      · rw [List.getElem?_append_left (by rwa [List.length_reverse])] at ha
        exact ih hrest hrank ha
      · rw [List.getElem?_append_right (by rwa [List.length_reverse]), List.length_reverse] at ha
        rw [List.getElem?_singleton] at ha
        split_ifs at ha with hzero
        obtain rfl := Option.some.inj ha
        omega

/-! ### Where a climb ends -/

theorem isChain_climb (n : ℕ) (x : α) : List.IsChain (fun a b => up a = some b) (x :: climb up n (up x)) := by
  induction n generalizing x with
  | zero => exact .singleton x
  | succ n ih =>
      cases h : up x with
      | none => exact .singleton x
      | some a => exact .cons_cons h (ih a)

/-- A climb that stops before the bound stops where nothing is above. -/
theorem up_getLastD_of_lt {n : ℕ} (h : (climb up n (up x)).length < n) :
    up ((climb up n (up x)).getLastD x) = none := by
  induction n generalizing x with
  | zero => cases h
  | succ n ih =>
      cases hup : up x with
      | none => exact hup
      | some a =>
          rw [hup] at h
          rw [climb, List.getLastD_cons]
          exact ih (Nat.lt_of_succ_lt_succ h)

theorem mem_of_isChain (hall : ∀ a ∈ all, ∀ b, up a = some b → b ∈ all) (hx : x ∈ all)
    (h : List.IsChain (fun a b => up a = some b) (x :: l)) : ∀ a ∈ x :: l, a ∈ all := by
  induction l generalizing x with
  | nil => exact List.forall_mem_singleton.2 hx
  | cons b l ih =>
      obtain ⟨hstep, hrest⟩ := List.isChain_cons_cons.1 h
      exact List.forall_mem_cons.2 ⟨hx, ih (hall x hx b hstep) hrest⟩

/-- **A climb ends.**  What it comes to is there once each, so there is less of it than there is at all. -/
theorem climb_ends (hall : ∀ a ∈ all, ∀ b, up a = some b → b ∈ all ∧ r b < r a) (hx : x ∈ all) :
    up ((climb up all.length (up x)).getLastD x) = none := by
  refine up_getLastD_of_lt ?_
  have hchain : List.IsChain (fun a b => up a = some b) (x :: climb up all.length (up x)) :=
    isChain_climb all.length x
  have hmem := mem_of_isChain (fun a ha b hb => (hall a ha b hb).1) hx hchain
  have hfalls : List.Pairwise (fun a b => r b < r a) (x :: climb up all.length (up x)) := by
    have : Trans (fun a b : α => r b < r a) (fun a b => r b < r a) (fun a b => r b < r a) :=
      ⟨fun h h' => h'.trans h⟩
    refine List.isChain_iff_pairwise.1 (hchain.imp_of_mem_imp fun a b ha _ hstep => ?_)
    exact (hall a (hmem a ha) b hstep).2
  have hnodup : (x :: climb up all.length (up x)).Nodup := hfalls.imp fun h he => by
    rw [he] at h
    exact lt_irrefl _ h
  exact (hnodup.subperm hmem).length_le

end Climb
