/-
The first of each key.

A list read from its front, where an item is dropped when one of its key was read before.  Several lists
read one after the other leave what is first of each key among all of them, and that depends on the order
of the lists unless what they leave by themselves agrees as far as they go.

Main definitions:

* `Firsts.push` — an item added behind the others, unless one of its key is there;
* `Firsts.firsts` — the first item of each key;
* `Firsts.Comparable` — one of two lists is where the other begins.

Main results:

* `Firsts.firsts_append` — what is left of two lists read one after the other;
* `Firsts.nodup_firsts`, `Firsts.mem_map_firsts` — each key is left once;
* `Firsts.firsts_flatMap_perm_iff` — the order of the lists does not matter exactly when each two of them
  leave comparable lists.
-/
import Mathlib.Data.List.Basic
import Mathlib.Data.List.Induction
import Mathlib.Data.List.Nodup
import Mathlib.Data.List.Perm.Basic

set_option relaxedAutoImplicit false
set_option autoImplicit false

namespace Firsts

variable {α β κ : Type*} [DecidableEq κ] (f : α → κ)

/-- The items with one more behind them, unless one of its key is there. -/
def push (acc : List α) (a : α) : List α := if acc.any fun b => f b == f a then acc else acc ++ [a]

/-- The first item of each key. -/
def firsts (l : List α) : List α := l.foldl (push f) []

variable {f} {l m : List α} {a : α}

theorem push_of_mem (h : f a ∈ l.map f) : push f l a = l := by
  obtain ⟨b, hb, hkey⟩ := List.mem_map.1 h
  have hany : (l.any fun b => f b == f a) = true := List.any_eq_true.2 ⟨b, hb, beq_iff_eq.2 hkey⟩
  exact if_pos hany

theorem push_of_not_mem (h : f a ∉ l.map f) : push f l a = l ++ [a] := by
  refine if_neg fun hany => h ?_
  obtain ⟨b, hb, hkey⟩ := List.any_eq_true.1 hany
  exact List.mem_map.2 ⟨b, hb, beq_iff_eq.1 hkey⟩

@[simp] theorem firsts_nil : firsts f [] = [] := rfl

theorem firsts_concat (l : List α) (a : α) : firsts f (l ++ [a]) = push f (firsts f l) a := by
  rw [firsts, List.foldl_append]
  rfl

/-! ### Each key once -/

/-- The keys that are left are those that were read. -/
theorem mem_map_firsts {k : κ} : k ∈ (firsts f l).map f ↔ k ∈ l.map f := by
  induction l using List.reverseRecOn with
  | nil => rfl
  | append_singleton l a ih =>
      rw [firsts_concat]
      by_cases ha : f a ∈ (firsts f l).map f
      · rw [push_of_mem ha, ih, List.map_append, List.mem_append]
        refine ⟨.inl, fun h => h.elim id fun hk => ?_⟩
        obtain rfl : k = f a := by simpa using hk
        exact ih.1 (by simpa using ha)
      · rw [push_of_not_mem ha, List.map_append, List.mem_append, List.map_append, List.mem_append, ih]

theorem nodup_firsts (l : List α) : ((firsts f l).map f).Nodup := by
  induction l using List.reverseRecOn with
  | nil => exact List.nodup_nil
  | append_singleton l a ih =>
      rw [firsts_concat]
      by_cases ha : f a ∈ (firsts f l).map f
      · rwa [push_of_mem ha]
      · rw [push_of_not_mem ha, List.map_append]
        exact ih.append (List.nodup_singleton _) (List.disjoint_singleton.2 ha)

theorem firsts_subset (l : List α) : firsts f l ⊆ l := by
  induction l using List.reverseRecOn with
  | nil => exact List.Subset.refl _
  | append_singleton l a ih =>
      rw [firsts_concat]
      by_cases ha : f a ∈ (firsts f l).map f
      · rw [push_of_mem ha]
        exact List.subset_append_of_subset_left _ ih
      · rw [push_of_not_mem ha]
        exact List.append_subset.2
          ⟨List.subset_append_of_subset_left _ ih, List.subset_append_right _ _⟩

/-! ### One list after the other -/

/-- Behind what one list leaves stands what the other leaves of new keys. -/
theorem firsts_append (l m : List α) :
    firsts f (l ++ m) =
      firsts f l ++ (firsts f m).filter fun a => decide (f a ∉ (firsts f l).map f) := by
  induction m using List.reverseRecOn with
  | nil => simp
  | append_singleton m a ih =>
      rw [← List.append_assoc, firsts_concat, firsts_concat, ih]
      by_cases hold : f a ∈ (firsts f l).map f
      · -- A key of the first list is dropped, wherever it stands in the other.
        have hall : f a ∈ (firsts f l ++
            (firsts f m).filter fun a => decide (f a ∉ (firsts f l).map f)).map f := by
          rw [List.map_append]
          exact List.mem_append_left _ hold
        rw [push_of_mem hall]
        by_cases hm : f a ∈ (firsts f m).map f
        · rw [push_of_mem hm]
        · have hnone : [a].filter (fun a => decide (f a ∉ (firsts f l).map f)) = [] := by
            simpa using List.mem_map.1 hold
          rw [push_of_not_mem hm, List.filter_append, hnone, List.append_nil]
      · by_cases hm : f a ∈ (firsts f m).map f
        · have hall : f a ∈ (firsts f l ++
              (firsts f m).filter fun a => decide (f a ∉ (firsts f l).map f)).map f := by
            obtain ⟨b, hb, hkey⟩ := List.mem_map.1 hm
            rw [List.map_append]
            refine List.mem_append_right _ (List.mem_map.2 ⟨b, List.mem_filter.2 ⟨hb, ?_⟩, hkey⟩)
            rw [hkey]
            exact decide_eq_true hold
          rw [push_of_mem hall, push_of_mem hm]
        · have hall : f a ∉ (firsts f l ++
              (firsts f m).filter fun a => decide (f a ∉ (firsts f l).map f)).map f := by
            rw [List.map_append, List.mem_append]
            refine not_or.2 ⟨hold, fun h => hm ?_⟩
            exact List.map_subset f (List.filter_subset_self _) h
          have hone : [a].filter (fun a => decide (f a ∉ (firsts f l).map f)) = [a] :=
            List.filter_eq_self.2 (by simpa using fun b hb hkey => hold (List.mem_map.2 ⟨b, hb, hkey⟩))
          rw [push_of_not_mem hall, push_of_not_mem hm, List.filter_append, hone, List.append_assoc]

theorem firsts_append_congr_left {l' : List α} (h : firsts f l = firsts f l') (m : List α) :
    firsts f (l ++ m) = firsts f (l' ++ m) := by
  rw [firsts_append, firsts_append, h]

theorem firsts_append_congr_right {m' : List α} (l : List α) (h : firsts f m = firsts f m') :
    firsts f (l ++ m) = firsts f (l ++ m') := by
  rw [firsts_append, firsts_append, h]

theorem prefix_firsts_append (l m : List α) : firsts f l <+: firsts f (l ++ m) := by
  rw [firsts_append]
  exact List.prefix_append _ _

/-! ### The order of the lists -/

/-- One list is where the other begins. -/
def Comparable (l m : List α) : Prop := l <+: m ∨ m <+: l

/-- A list that leaves where the other begins adds nothing, before it or behind it. -/
theorem firsts_append_of_known (h : firsts f l <+: firsts f m) :
    firsts f (l ++ m) = firsts f m ∧ firsts f (m ++ l) = firsts f m := by
  obtain ⟨rest, hrest⟩ := h
  have hdisjoint : ∀ a ∈ rest, f a ∉ (firsts f l).map f := by
    have hnodup : ((firsts f m).map f).Nodup := nodup_firsts m
    rw [← hrest, List.map_append] at hnodup
    intro a ha hmem
    exact (List.disjoint_of_nodup_append hnodup) hmem (List.mem_map_of_mem ha)
  constructor
  · rw [firsts_append, ← hrest, List.filter_append]
    have hnone : (firsts f l).filter (fun a => decide (f a ∉ (firsts f l).map f)) = [] := by
      refine List.filter_eq_nil_iff.2 fun a ha => ?_
      simpa using ⟨a, ha, rfl⟩
    have hall : rest.filter (fun a => decide (f a ∉ (firsts f l).map f)) = rest :=
      List.filter_eq_self.2 fun a ha => decide_eq_true (hdisjoint a ha)
    rw [hnone, hall, List.nil_append]
  · rw [firsts_append]
    have hnone : (firsts f l).filter (fun a => decide (f a ∉ (firsts f m).map f)) = [] := by
      refine List.filter_eq_nil_iff.2 fun a ha => ?_
      have hmem : f a ∈ (firsts f m).map f := by
        rw [← hrest]
        exact List.mem_map_of_mem (List.mem_append_left _ ha)
      simpa using hmem
    rw [hnone, List.append_nil]

theorem firsts_append_comm (h : Comparable (firsts f l) (firsts f m)) :
    firsts f (l ++ m) = firsts f (m ++ l) := by
  rcases h with h | h
  · rw [(firsts_append_of_known h).1, (firsts_append_of_known h).2]
  · rw [(firsts_append_of_known h).1, (firsts_append_of_known h).2]

/-- Lists that each two leave comparable can be read in any order. -/
theorem firsts_flatMap_perm {g : β → List α} {ts us : List β} (hperm : ts.Perm us)
    (h : ∀ t ∈ ts, ∀ u ∈ ts, Comparable (firsts f (g t)) (firsts f (g u))) :
    firsts f (ts.flatMap g) = firsts f (us.flatMap g) := by
  induction hperm with
  | nil => rfl
  | cons t _ ih =>
      rw [List.flatMap_cons, List.flatMap_cons]
      exact firsts_append_congr_right _
        (ih fun u hu v hv => h u (List.mem_cons_of_mem _ hu) v (List.mem_cons_of_mem _ hv))
  | swap t u ts =>
      have hcomm := firsts_append_comm (h u List.mem_cons_self t (List.mem_cons_of_mem _ List.mem_cons_self))
      simp only [List.flatMap_cons, ← List.append_assoc]
      exact firsts_append_congr_left hcomm _
  | trans hfirst _ ih₁ ih₂ =>
      exact (ih₁ h).trans (ih₂ fun t ht u hu => h t (hfirst.mem_iff.2 ht) u (hfirst.mem_iff.2 hu))

/-- Any two items of a list can be brought to its front. -/
theorem exists_perm_cons_cons {t u : β} {ts : List β} (ht : t ∈ ts) (hu : u ∈ ts) (hne : u ≠ t) :
    ∃ rest, ts.Perm (t :: u :: rest) := by
  obtain ⟨a, b, rfl⟩ := List.append_of_mem ht
  have hrest : (a ++ t :: b).Perm (t :: (a ++ b)) := List.perm_middle
  have hu' : u ∈ a ++ b := (List.mem_cons.1 (hrest.mem_iff.1 hu)).resolve_left hne
  obtain ⟨c, d, hcd⟩ := List.append_of_mem hu'
  refine ⟨c ++ d, hrest.trans ?_⟩
  rw [hcd]
  exact List.perm_middle.cons t

/-- **The order of the lists.**  It does not matter exactly when each two leave comparable lists. -/
theorem firsts_flatMap_perm_iff {g : β → List α} {ts : List β} :
    (∀ us : List β, us.Perm ts → firsts f (us.flatMap g) = firsts f (ts.flatMap g)) ↔
      ∀ t ∈ ts, ∀ u ∈ ts, Comparable (firsts f (g t)) (firsts f (g u)) := by
  constructor
  · intro h t ht u hu
    by_cases hne : u = t
    · rw [hne]
      exact .inl List.prefix_rfl
    · -- The whole begins with what either leaves, when that one is read first.
      obtain ⟨rest, hrest⟩ := exists_perm_cons_cons ht hu hne
      have hleft : firsts f (g t) <+: firsts f (ts.flatMap g) := by
        rw [← h _ hrest.symm, List.flatMap_cons]
        exact prefix_firsts_append _ _
      have hright : firsts f (g u) <+: firsts f (ts.flatMap g) := by
        rw [← h _ ((List.Perm.swap t u rest).trans hrest.symm), List.flatMap_cons]
        exact prefix_firsts_append _ _
      exact List.prefix_or_prefix_of_prefix hleft hright
  · intro h us hus
    exact (firsts_flatMap_perm hus.symm h).symm

end Firsts
