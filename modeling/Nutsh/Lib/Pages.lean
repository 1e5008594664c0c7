/-
A list page by page.

A page is a stretch of a list of a fixed length, the last one shorter.  Pages in a row are the stretch
they cover, a page is short or empty where the list ends, and the rows of the first pages are the first
rows of the list.

* `Pages.page` — one page;
* `Pages.take_succ_mul`, `Pages.flatMap_page` — pages in a row;
* `Pages.length_page`, `Pages.page_eq_nil_iff` — how long a page is.
-/
import Mathlib.Data.List.Basic

set_option relaxedAutoImplicit false
set_option autoImplicit false

namespace Pages

variable {α : Type*} {l p : ℕ} {xs : List α}

/-- The page `p`, counted from nought, of pages of `l` rows. -/
def page (l p : ℕ) (xs : List α) : List α := (xs.drop (p * l)).take l

/-- The rows of one more page. -/
theorem take_succ_mul (l p : ℕ) (xs : List α) : xs.take ((p + 1) * l) = xs.take (p * l) ++ page l p xs := by
  rw [Nat.succ_mul, List.take_add]
  rfl

theorem length_page (l p : ℕ) (xs : List α) : (page l p xs).length = min l (xs.length - p * l) := by
  rw [page, List.length_take, List.length_drop]

theorem page_eq_nil_iff (hl : 0 < l) : page l p xs = [] ↔ xs.length ≤ p * l := by
  rw [← List.length_eq_zero_iff, length_page]
  omega

/-- Pages in a row are the stretch they cover. -/
theorem flatMap_page (l a n : ℕ) (xs : List α) :
    (List.range' a n).flatMap (fun p => page l p xs) = (xs.drop (a * l)).take (n * l) := by
  induction n generalizing a with
  | zero => simp
  | succ n ih =>
      have hmul : (n + 1) * l = l + n * l := by
        rw [Nat.succ_mul]
        omega
      rw [List.range'_succ, List.flatMap_cons, ih, hmul, List.take_add, List.drop_drop, Nat.succ_mul]
      rfl

end Pages
