/-
Sums over the last seconds, in a ring of slots.

A slot holds what was recorded in one second, and the second it is of.  The slot of a second is found by the
second modulo the length of the ring, and it is cleared when it is written to and still holds another second; a sum
over the last seconds skips the slots of others.  So nothing is cleared as time goes by.

* `LazyRing.record`, `LazyRing.sum` — what a second is recorded as, and the sum of the seconds of a window;
* `LazyRing.Holds` — a slot holds the last of its seconds that was recorded, and all of it;
* `LazyRing.sum_window` — the sum of a window no longer than the ring is the sum of what was recorded in it.
-/
import Mathlib.Algebra.BigOperators.Group.Finset.Basic
import Mathlib.Algebra.BigOperators.Group.List.Basic
import Mathlib.Algebra.BigOperators.Fin
import Mathlib.Data.Fintype.Basic
import Mathlib.Data.List.Induction
import Mathlib.Data.Nat.ModEq

set_option relaxedAutoImplicit false
set_option autoImplicit false

namespace LazyRing

structure Slot (M : Type*) where
  second : ℕ
  value : M

variable {M : Type*} [AddCommMonoid M] {n : ℕ} [NeZero n]

/-- The slot of a second. -/
def slotOf (n : ℕ) [NeZero n] (second : ℕ) : Fin n := Fin.ofNat n second

/-- A ring in which nothing was recorded. -/
def empty (second : Fin n → ℕ) : Fin n → Slot M := fun i => { second := second i, value := 0 }

/-- What is recorded in a second is added to its slot, which is cleared first when it holds another second. -/
def record (ring : Fin n → Slot M) (second : ℕ) (x : M) : Fin n → Slot M :=
  let old := ring (slotOf n second)
  Function.update ring (slotOf n second)
    { second := second, value := (if old.second = second then old.value else 0) + x }

/-- The sum of the `window` seconds that end at `now`. -/
def sum (ring : Fin n → Slot M) (now window : ℕ) : M :=
  ((List.finRange n).map fun i =>
    if now - (window - 1) ≤ (ring i).second ∧ (ring i).second ≤ now then (ring i).value else 0).sum

/-- What was recorded in the seconds that meet a condition. -/
def total (records : List (ℕ × M)) (p : ℕ → Bool) : M := ((records.filter fun r => p r.1).map Prod.snd).sum

theorem total_cons (r : ℕ × M) (records : List (ℕ × M)) (p : ℕ → Bool) :
    total (r :: records) p = (if p r.1 then r.2 else 0) + total records p := by
  rw [total, total, List.filter_cons]
  split
  · rw [List.map_cons, List.sum_cons]
  · rw [zero_add]

theorem total_append (records more : List (ℕ × M)) (p : ℕ → Bool) :
    total (records ++ more) p = total records p + total more p := by
  rw [total, List.filter_append, List.map_append, List.sum_append, total, total]

theorem total_congr {records : List (ℕ × M)} {p q : ℕ → Bool} (h : ∀ r ∈ records, p r.1 = q r.1) :
    total records p = total records q := by
  rw [total, total, List.filter_congr h]

theorem total_eq_zero {records : List (ℕ × M)} {p : ℕ → Bool} (h : ∀ r ∈ records, p r.1 = false) :
    total records p = 0 := by
  rw [total, List.filter_eq_nil_iff.2 fun r hr => by rw [h r hr]; exact Bool.false_ne_true]
  rfl

/-- **What the ring holds**: a slot has the last of its seconds in which something was recorded, with all of it. -/
structure Holds (records : List (ℕ × M)) (ring : Fin n → Slot M) : Prop where
  value : ∀ i, (ring i).value = total records fun t => t == (ring i).second && slotOf n t == i
  last : ∀ i, ∀ r ∈ records, slotOf n r.1 = i →
    r.1 ≤ (ring i).second ∧ ∃ r' ∈ records, slotOf n r'.1 = i ∧ r'.1 = (ring i).second

theorem holds_empty (second : Fin n → ℕ) : Holds [] (empty second : Fin n → Slot M) where
  value := fun i => rfl
  last := by simp

theorem Holds.record {records : List (ℕ × M)} {ring : Fin n → Slot M} (h : Holds records ring) {second : ℕ}
    (hlast : ∀ r ∈ records, r.1 ≤ second) (x : M) :
    Holds (records ++ [(second, x)]) (record ring second x) where
  value := fun i => by
    rw [total_append, LazyRing.record]
    by_cases hi : slotOf n second = i
    · subst hi
      have hone : total [(second, x)] (fun t => t == second && slotOf n t == slotOf n second) = x := by
        simp [total]
      rw [Function.update_self]
      dsimp only
      rw [hone]
      congr 1
      split
      · rename_i hsame
        rw [h.value, hsame]
      · rename_i hother
        -- nothing was recorded in this second, or the slot would still be its
        symm
        refine total_eq_zero fun r hr => Bool.eq_false_iff.2 fun heq => hother ?_
        rw [Bool.and_eq_true, beq_iff_eq, beq_iff_eq] at heq
        obtain ⟨hle, r', hr', -, hsecond⟩ := h.last _ r hr heq.2
        have := hlast r' hr'
        omega
    · have hnone (t : ℕ) : total [(second, x)] (fun s => s == t && slotOf n s == i) = 0 :=
        total_eq_zero fun r hr => by rw [List.mem_singleton.1 hr]; simp [hi]
      rw [Function.update_of_ne (Ne.symm hi), hnone, add_zero, h.value]
  last := fun i r hr hslot => by
    rw [LazyRing.record]
    by_cases hi : slotOf n second = i
    · subst hi
      rw [Function.update_self]
      refine ⟨?_, (second, x), List.mem_append_right records List.mem_cons_self, rfl, rfl⟩
      rcases List.mem_append.1 hr with hr | hr
      · exact hlast r hr
      · rw [List.mem_singleton.1 hr]
    · rw [Function.update_of_ne (Ne.symm hi)]
      rcases List.mem_append.1 hr with hr | hr
      · obtain ⟨hle, r', hr', hslot', hsecond⟩ := h.last i r hr hslot
        exact ⟨hle, r', List.mem_append_left _ hr', hslot', hsecond⟩
      · rw [List.mem_singleton.1 hr] at hslot
        exact absurd hslot hi

/-- Two seconds of one slot, less than a turn of the ring apart, are the same. -/
theorem eq_of_slotOf_eq {s t : ℕ} (h : slotOf n s = slotOf n t) (hle : s ≤ t) (hlt : t < s + n) : s = t := by
  have hmod : s % n = t % n := congrArg Fin.val h
  have hdvd : n ∣ t - s := (Nat.modEq_iff_dvd' hle).1 hmod
  have hzero := Nat.eq_zero_of_dvd_of_lt hdvd (by omega)
  omega

/-- Everything recorded is in one slot. -/
theorem sum_total (records : List (ℕ × M)) (p : ℕ → Bool) :
    ((List.finRange n).map fun i => total records fun t => p t && slotOf n t == i).sum = total records p := by
  rw [← Fin.sum_univ_def]
  induction records with
  | nil => exact Finset.sum_const_zero
  | cons r records ih =>
      simp only [total_cons]
      rw [Finset.sum_add_distrib, ih]
      congr 1
      cases p r.1 with
      | false => simp
      | true => simp

/-- **The sum of a window.** -/
theorem Holds.sum {records : List (ℕ × M)} {ring : Fin n → Slot M} (h : Holds records ring) {now window : ℕ}
    (hnow : ∀ r ∈ records, r.1 ≤ now) (hwindow : 1 ≤ window ∧ window ≤ n) :
    LazyRing.sum ring now window = total records fun t => decide (now < t + window) := by
  rw [LazyRing.sum, ← sum_total (n := n)]
  congr 1
  refine List.map_congr_left fun i _ => ?_
  split
  · rename_i hin
    rw [h.value]
    refine total_congr fun r hr => ?_
    by_cases hslot : slotOf n r.1 = i
    · obtain ⟨hle, r', hr', hslot', hsecond⟩ := h.last i r hr hslot
      have heq : r.1 = (ring i).second ↔ now < r.1 + window := by
        refine ⟨fun heq => by omega, fun hlt => ?_⟩
        rw [← hsecond] at hle hin ⊢
        exact eq_of_slotOf_eq (hslot.trans hslot'.symm) hle (by omega)
      rw [beq_eq_decide, decide_eq_decide.2 heq]
    · rw [beq_eq_false_iff_ne.2 hslot, Bool.and_false, Bool.and_false]
  · rename_i hout
    symm
    refine total_eq_zero fun r hr => Bool.eq_false_iff.2 fun heq => hout ?_
    rw [Bool.and_eq_true, decide_eq_true_eq, beq_iff_eq] at heq
    obtain ⟨hle, r', hr', -, hsecond⟩ := h.last i r hr heq.2
    have := hnow r' hr'
    omega

/-! ### Runs -/

/-- The ring after some records, one after the other. -/
def run (ring : Fin n → Slot M) (records : List (ℕ × M)) : Fin n → Slot M :=
  records.foldl (fun ring r => record ring r.1 r.2) ring

theorem run_concat (ring : Fin n → Slot M) (records : List (ℕ × M)) (r : ℕ × M) :
    run ring (records ++ [r]) = record (run ring records) r.1 r.2 := by
  rw [run, List.foldl_append]
  rfl

theorem holds_run (second : Fin n → ℕ) {records : List (ℕ × M)}
    (hsorted : records.Pairwise fun r r' => r.1 ≤ r'.1) :
    Holds records (run (empty second) records) := by
  induction records using List.reverseRecOn with
  | nil => exact holds_empty second
  | append_singleton records r ih =>
      obtain ⟨hsorted, -, hle⟩ := List.pairwise_append.1 hsorted
      rw [run_concat]
      exact (ih hsorted).record (fun r' hr' => hle r' hr' r List.mem_cons_self) r.2

/-- **The sum of a window after some records** is the sum of those of its seconds, however long ago the others. -/
theorem sum_window (second : Fin n → ℕ) {records : List (ℕ × M)} (hsorted : records.Pairwise fun r r' => r.1 ≤ r'.1)
    {now window : ℕ} (hnow : ∀ r ∈ records, r.1 ≤ now) (hwindow : 1 ≤ window ∧ window ≤ n) :
    sum (run (empty second) records) now window =
      total records fun t => decide (now < t + window) :=
  (holds_run second hsorted).sum hnow hwindow

end LazyRing
