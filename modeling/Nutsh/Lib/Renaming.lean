/-
Names that are replaced where what they are replaced with is free.

The names of a list are gone through once.  One that has an offer takes it unless the offer is already a name,
be it of one before, as it is by then, or of one behind.  So a replacement never makes two names the same, and two
that are the same in the end were the same and were both kept.

* `rename` — the pass;
* `Kept` — the names that stay, told from the names and the offers alone;
* `getElem?_rename` — a name that is kept stays, another is its offer;
* `nodup_rename_iff` — when the first names are told apart in the end;
* `mem_take_rename_iff` — when a name without an offer is among the first in the end.
-/
import Mathlib.Data.List.Basic
import Mathlib.Data.List.Nodup

set_option relaxedAutoImplicit false
set_option autoImplicit false

namespace Renaming

variable {α : Type*}

section
variable [DecidableEq α]

/-- A name with an offer takes it when it is no name of those before and behind. -/
def settled (before behind : List α) (item : α × Option α) : α :=
  match item.2 with
  | some offer => if offer ∈ before ++ item.1 :: behind then item.1 else offer
  | none => item.1

/-- The names after the pass, given those it is done with. -/
def rename : (before : List α) → List (α × Option α) → List α
  | _, [] => []
  | before, item :: items =>
      let name := settled before (items.map Prod.fst) item
      name :: rename (before ++ [name]) items

end

def nameAt (items : List (α × Option α)) (i : ℕ) : Option α := items[i]?.map Prod.fst

def offerAt (items : List (α × Option α)) (i : ℕ) : Option α := items[i]?.bind Prod.snd

/-- A name is kept when it has no offer, or what is offered is a name from there on, or one before that was kept
or that was offered and not kept. -/
def Kept (items : List (α × Option α)) (i : ℕ) : Prop :=
  ∀ offer, offerAt items i = some offer →
    (∃ j, i ≤ j ∧ nameAt items j = some offer) ∨
      ∃ j, ∃ _ : j < i, (nameAt items j = some offer ∧ Kept items j) ∨
        (offerAt items j = some offer ∧ ¬ Kept items j)
termination_by i

/-! ### The pass -/

section
variable [DecidableEq α]

theorem length_rename (before : List α) (items : List (α × Option α)) :
    (rename before items).length = items.length := by
  induction items generalizing before with
  | nil => rfl
  | cons item items ih => rw [rename, List.length_cons, List.length_cons, ih]

/-- What a name becomes, by the names that are settled before it and those behind it. -/
theorem rename_eq (before : List α) (front : List (α × Option α)) (item : α × Option α)
    (back : List (α × Option α)) :
    (rename before (front ++ item :: back))[front.length]? =
      some (settled (before ++ (rename before (front ++ item :: back)).take front.length) (back.map Prod.fst)
        item) := by
  induction front generalizing before with
  | nil => simp [rename]
  | cons first front ih =>
      rw [List.cons_append, rename, List.length_cons, List.getElem?_cons_succ, ih, List.take_succ_cons,
        List.append_assoc, List.singleton_append]

end

/-! ### Names that are kept -/

variable {items : List (α × Option α)} {i : ℕ} {offer : α}

theorem kept_of_offerAt_eq_none (h : offerAt items i = none) : Kept items i := by
  rw [Kept]
  intro offer hoffer
  cases h.symm.trans hoffer

theorem kept_iff (h : offerAt items i = some offer) : Kept items i ↔
    (∃ j, i ≤ j ∧ nameAt items j = some offer) ∨
      ∃ j < i, (nameAt items j = some offer ∧ Kept items j) ∨ (offerAt items j = some offer ∧ ¬ Kept items j) := by
  rw [Kept]
  constructor
  · intro hkept
    refine (hkept offer h).imp_right ?_
    rintro ⟨j, hj, hbefore⟩
    exact ⟨j, hj, hbefore⟩
  · rintro hkept offer' hoffer'
    obtain rfl := Option.some.inj (h.symm.trans hoffer')
    refine hkept.imp_right ?_
    rintro ⟨j, hj, hbefore⟩
    exact ⟨j, hj, hbefore⟩

theorem mem_drop_map_fst {name : α} :
    name ∈ (items.drop i).map Prod.fst ↔ ∃ j, i ≤ j ∧ nameAt items j = some name := by
  rw [List.mem_iff_getElem?]
  simp only [List.getElem?_map, List.getElem?_drop, nameAt]
  constructor
  · rintro ⟨k, hk⟩
    exact ⟨i + k, Nat.le_add_right i k, hk⟩
  · rintro ⟨j, hj, hname⟩
    exact ⟨j - i, by rwa [Nat.add_sub_cancel' hj]⟩

theorem mem_take_iff {l : List α} {n : ℕ} {a : α} : a ∈ l.take n ↔ ∃ i < n, l[i]? = some a := by
  rw [List.mem_iff_getElem?]
  simp only [List.getElem?_take, Option.ite_none_right_eq_some]

/-! ### What becomes of the names -/

variable [DecidableEq α]

open Classical in
/-- **What becomes of a name.**  By induction on its place, since what is settled before it tells. -/
theorem getElem?_rename (items : List (α × Option α)) (i : ℕ) :
    (rename [] items)[i]? = if Kept items i then nameAt items i else offerAt items i := by
  induction i using Nat.strongRecOn with
  | ind i ih =>
      rcases Nat.lt_or_ge i items.length with hi | hi
      · have hsplit : items = items.take i ++ items[i] :: items.drop (i + 1) := by
          rw [List.getElem_cons_drop, List.take_append_drop]
        have hat : items[i]? = some items[i] := List.getElem?_eq_getElem hi
        have hrename := rename_eq [] (items.take i) items[i] (items.drop (i + 1))
        rw [← hsplit, List.length_take, Nat.min_eq_left (Nat.le_of_lt hi), List.nil_append] at hrename
        rw [hrename, settled]
        cases hoffer : items[i].2 with
        | none =>
            have hnone : offerAt items i = none := by rw [offerAt, hat, Option.bind_some, hoffer]
            rw [if_pos (kept_of_offerAt_eq_none hnone), nameAt, hat, Option.map_some]
        | some offer =>
            have hsome : offerAt items i = some offer := by rw [offerAt, hat, Option.bind_some, hoffer]
            have hbehind : items[i].1 :: (items.drop (i + 1)).map Prod.fst = (items.drop i).map Prod.fst := by
              rw [← List.map_cons, List.getElem_cons_drop]
            have hbefore : offer ∈ (rename [] items).take i ↔
                ∃ j < i, (nameAt items j = some offer ∧ Kept items j) ∨
                  (offerAt items j = some offer ∧ ¬ Kept items j) := by
              rw [mem_take_iff]
              refine exists_congr fun j => and_congr_right fun hj => ?_
              rw [ih j hj]
              by_cases hkept : Kept items j <;> simp [hkept]
            have htaken : offer ∈ (rename [] items).take i ++ items[i].1 :: (items.drop (i + 1)).map Prod.fst ↔
                Kept items i := by
              rw [List.mem_append, hbehind, mem_drop_map_fst, hbefore, or_comm, kept_iff hsome]
            simp only [htaken]
            split_ifs with hkept
            · rw [nameAt, hat, Option.map_some]
            · rw [hsome]
      · have hnone : items[i]? = none := List.getElem?_eq_none hi
        have hoffer : offerAt items i = none := by
          rw [offerAt, hnone]
          rfl
        rw [List.getElem?_eq_none (by rwa [length_rename]), if_pos (kept_of_offerAt_eq_none hoffer), nameAt, hnone]
        rfl

theorem getElem?_rename_of_kept (h : Kept items i) : (rename [] items)[i]? = nameAt items i := by
  rw [getElem?_rename, if_pos h]

theorem getElem?_rename_of_not_kept (h : ¬ Kept items i) : (rename [] items)[i]? = offerAt items i := by
  rw [getElem?_rename, if_neg h]

/-- **The first names are told apart** when no two of them were the same and both kept. -/
theorem nodup_rename_iff (n : ℕ) : ((rename [] items).take n).Nodup ↔
    ∀ i j name, i < j → j < n → nameAt items i = some name → nameAt items j = some name →
      ¬ (Kept items i ∧ Kept items j) := by
  have hat (k : ℕ) : ((rename [] items).take n)[k]? = if k < n then (rename [] items)[k]? else none :=
    List.getElem?_take
  rw [List.nodup_iff_getElem?_ne_getElem?]
  constructor
  · rintro hnodup i j name hij hj hi hname ⟨hkept, hkept'⟩
    have hlength : j < ((rename [] items).take n).length := by
      rw [List.length_take, length_rename]
      refine Nat.lt_min.2 ⟨hj, ?_⟩
      by_contra hout
      rw [nameAt, List.getElem?_eq_none (Nat.le_of_not_lt hout)] at hname
      cases hname
    refine hnodup i j hij hlength ?_
    rw [hat, hat, if_pos (Nat.lt_trans hij hj), if_pos hj, getElem?_rename_of_kept hkept,
      getElem?_rename_of_kept hkept', hi, hname]
  · intro h i j hij hlength heq
    rw [List.length_take, length_rename] at hlength
    obtain ⟨hj, hlt⟩ := Nat.lt_min.1 hlength
    rw [hat, hat, if_pos (Nat.lt_trans hij hj), if_pos hj] at heq
    obtain ⟨name, hend⟩ : ∃ name, (rename [] items)[j]? = some name :=
      ⟨_, List.getElem?_eq_getElem (by rwa [length_rename])⟩
    rw [hend] at heq
    -- the one that is not kept would have had an offer that is a name
    by_cases hkept : Kept items j
    · rw [getElem?_rename_of_kept hkept] at hend
      by_cases hkept' : Kept items i
      · rw [getElem?_rename_of_kept hkept'] at heq
        exact h i j name hij hj heq hend ⟨hkept', hkept⟩
      · rw [getElem?_rename_of_not_kept hkept'] at heq
        exact hkept' ((kept_iff heq).2 (.inl ⟨j, Nat.le_of_lt hij, hend⟩))
    · rw [getElem?_rename_of_not_kept hkept] at hend
      refine hkept ((kept_iff hend).2 (.inr ⟨i, hij, ?_⟩))
      by_cases hkept' : Kept items i
      · rw [getElem?_rename_of_kept hkept'] at heq
        exact .inl ⟨heq, hkept'⟩
      · rw [getElem?_rename_of_not_kept hkept'] at heq
        exact .inr ⟨heq, hkept'⟩

/-- A name that never has an offer is among the first in the end when it is one of them, or is offered to one of
them and is no name at all. -/
theorem mem_take_rename_iff {name : α} (n : ℕ) (hname : ∀ i, nameAt items i = some name → offerAt items i = none) :
    name ∈ (rename [] items).take n ↔
      (∃ i < n, nameAt items i = some name) ∨
        ((∃ i < n, offerAt items i = some name) ∧ ∀ j, nameAt items j ≠ some name) := by
  rw [mem_take_iff]
  constructor
  · rintro ⟨i, hi, hin⟩
    by_cases hkept : Kept items i
    · exact .inl ⟨i, hi, by rwa [getElem?_rename_of_kept hkept] at hin⟩
    · rw [getElem?_rename_of_not_kept hkept] at hin
      rw [kept_iff hin, not_or] at hkept
      by_cases hother : ∃ j, nameAt items j = some name
      · obtain ⟨j, hj⟩ := hother
        refine .inl ⟨j, ?_, hj⟩
        rcases Nat.lt_or_ge j i with hlt | hge
        · exact Nat.lt_trans hlt hi
        · exact absurd ⟨j, hge, hj⟩ hkept.1
      · exact .inr ⟨⟨i, hi, hin⟩, not_exists.1 hother⟩
  · rintro (⟨i, hi, hin⟩ | ⟨⟨i, hi, hoffer⟩, hnone⟩)
    · exact ⟨i, hi, by rw [getElem?_rename_of_kept (kept_of_offerAt_eq_none (hname i hin)), hin]⟩
    · by_cases hkept : Kept items i
      · rcases (kept_iff hoffer).1 hkept with ⟨j, -, hj⟩ | ⟨j, hj, ⟨hin, -⟩ | ⟨hoffer', hkept'⟩⟩
        · exact absurd hj (hnone j)
        · exact absurd hin (hnone j)
        · exact ⟨j, Nat.lt_trans hj hi, by rw [getElem?_rename_of_not_kept hkept', hoffer']⟩
      · exact ⟨i, hi, by rw [getElem?_rename_of_not_kept hkept, hoffer]⟩

end Renaming
