/-
Filling a room with what is offered in turn.

Everything offered that fits in what is left of the room is taken, and what does not fit is left, whatever comes
behind it.  Offered the largest key first, what is left may thus have a larger key than what is taken; it has not
when behind the first that does not fit nothing does.

* `Greedy.took`, `Greedy.missed` — what is taken and what is left;
* `Greedy.took_append_missed_perm`, `Greedy.sum_took_le` — nothing is lost, and the room is enough;
* `Greedy.missed_le_took_iff` — when nothing that is left has a larger key than something taken;
* `Greedy.missed_le_took_iff_first` — the same while no two keys are equal.
-/
import Mathlib.Algebra.GroupWithZero.Nat
import Mathlib.Algebra.Order.BigOperators.Group.List
import Mathlib.Order.Defs.LinearOrder

set_option relaxedAutoImplicit false
set_option autoImplicit false

namespace Greedy

variable {α β : Type*} [LinearOrder β] (cap : ℕ) (size : α → ℕ)

/-- What is taken, so much being taken already. -/
def took : ℕ → List α → List α
  | _, [] => []
  | total, a :: items => if cap < total + size a then took total items else a :: took (total + size a) items

/-- What is left. -/
def missed : ℕ → List α → List α
  | _, [] => []
  | total, a :: items => if cap < total + size a then a :: missed total items else missed (total + size a) items

variable {cap size} {total : ℕ} {items front back : List α}

attribute [local simp] took missed

theorem took_append_missed_perm (total : ℕ) (items : List α) :
    (took cap size total items ++ missed cap size total items).Perm items := by
  induction items generalizing total with
  | nil => exact .nil
  | cons a items ih =>
      rw [took, missed]
      split
      · exact List.perm_middle.trans ((ih total).cons a)
      · exact (ih (total + size a)).cons a

theorem mem_of_mem_took {a : α} (h : a ∈ took cap size total items) : a ∈ items :=
  (took_append_missed_perm total items).subset (List.mem_append_left _ h)

theorem mem_of_mem_missed {a : α} (h : a ∈ missed cap size total items) : a ∈ items :=
  (took_append_missed_perm total items).subset (List.mem_append_right _ h)

/-- What is taken has room. -/
theorem sum_took_le (htotal : total ≤ cap) (items : List α) :
    total + ((took cap size total items).map size).sum ≤ cap := by
  induction items generalizing total with
  | nil => exact htotal
  | cons a items ih =>
      rw [took]
      split
      case isTrue => exact ih htotal
      case isFalse h =>
        have := ih (Nat.le_of_not_lt h)
        rw [List.map_cons, List.sum_cons]
        omega

theorem took_append (total : ℕ) (front back : List α) :
    took cap size total (front ++ back) = took cap size total front ++
      took cap size (total + ((took cap size total front).map size).sum) back := by
  induction front generalizing total with
  | nil => rfl
  | cons a front ih =>
      rw [List.cons_append, took, took]
      split
      · exact ih total
      · rw [ih, List.map_cons, List.sum_cons, Nat.add_assoc, List.cons_append]

theorem missed_append (total : ℕ) (front back : List α) :
    missed cap size total (front ++ back) = missed cap size total front ++
      missed cap size (total + ((took cap size total front).map size).sum) back := by
  induction front generalizing total with
  | nil => rfl
  | cons a front ih =>
      rw [List.cons_append, missed, missed, took]
      split
      · rw [ih, List.cons_append]
      · rw [ih, List.map_cons, List.sum_cons, Nat.add_assoc]

/-- What has room together is taken. -/
theorem took_eq_self (h : total + (items.map size).sum ≤ cap) : took cap size total items = items := by
  induction items generalizing total with
  | nil => rfl
  | cons a items ih =>
      rw [List.map_cons, List.sum_cons] at h
      rw [took, if_neg (by omega), ih (by omega)]

theorem missed_eq_nil (h : total + (items.map size).sum ≤ cap) : missed cap size total items = [] := by
  have hperm : (took cap size total items ++ missed cap size total items).Perm items :=
    took_append_missed_perm total items
  rw [took_eq_self h] at hperm
  have hlength := hperm.length_eq
  rw [List.length_append] at hlength
  exact List.length_eq_zero_iff.1 (by omega)

theorem took_eq_nil_iff : took cap size total items = [] ↔ ∀ a ∈ items, cap < total + size a := by
  induction items with
  | nil => exact iff_of_true rfl (List.forall_mem_nil _)
  | cons a items ih =>
      rw [took, List.forall_mem_cons]
      split
      case isTrue h => rw [ih, and_iff_right h]
      case isFalse h => exact iff_of_false (List.cons_ne_nil _ _) fun hall => h hall.1

/-- Only the sizes tell what is taken. -/
theorem took_map {γ : Type*} {f : γ → α} {size' : γ → ℕ} {items : List γ} (h : ∀ c ∈ items, size (f c) = size' c)
    (total : ℕ) : took cap size total (items.map f) = (took cap size' total items).map f := by
  induction items generalizing total with
  | nil => rfl
  | cons c items ih =>
      obtain ⟨hc, h⟩ := List.forall_mem_cons.1 h
      rw [List.map_cons, took, took, hc]
      split
      · exact ih h total
      · rw [ih h, List.map_cons]

theorem missed_map {γ : Type*} {f : γ → α} {size' : γ → ℕ} {items : List γ}
    (h : ∀ c ∈ items, size (f c) = size' c) (total : ℕ) :
    missed cap size total (items.map f) = (missed cap size' total items).map f := by
  induction items generalizing total with
  | nil => rfl
  | cons c items ih =>
      obtain ⟨hc, h⟩ := List.forall_mem_cons.1 h
      rw [List.map_cons, missed, missed, hc]
      split
      · rw [ih h, List.map_cons]
      · exact ih h _

/-! ### The largest first -/

variable {key : α → β}

/-- In a list with the largest first, those from some key on stand in front. -/
theorem exists_split (hsorted : items.Pairwise fun a b => key b ≤ key a) (k : β) :
    ∃ front back, items.filter (fun a => k ≤ key a) = front ∧ items = front ++ back ∧
      (∀ a ∈ front, k ≤ key a) ∧ ∀ a, a ∈ back ↔ a ∈ items ∧ key a < k := by
  induction items with
  | nil => exact ⟨[], [], rfl, rfl, List.forall_mem_nil _, fun a => by simp⟩
  | cons a items ih =>
      obtain ⟨ha, hsorted⟩ := List.pairwise_cons.1 hsorted
      rcases le_or_gt k (key a) with hle | hlt
      · obtain ⟨front, back, hfront, hitems, hall, hback⟩ := ih hsorted
        refine ⟨a :: front, back, ?_, by rw [hitems, List.cons_append], List.forall_mem_cons.2 ⟨hle, hall⟩, ?_⟩
        · rw [List.filter_cons_of_pos (by simpa using hle), hfront]
        · intro b
          rw [hback, List.mem_cons]
          refine and_congr_left fun hb => ⟨.inr, fun h => h.resolve_left ?_⟩
          rintro rfl
          exact absurd hle (not_le.2 hb)
      · have hall : ∀ b ∈ a :: items, key b < k :=
          List.forall_mem_cons.2 ⟨hlt, fun b hb => (ha b hb).trans_lt hlt⟩
        refine ⟨[], a :: items, ?_, rfl, List.forall_mem_nil _, fun b => ⟨fun hb => ⟨hb, hall b hb⟩, And.left⟩⟩
        exact List.filter_eq_nil_iff.2 fun b hb => by simpa using hall b hb

/-- **Nothing that is left has a larger key than something taken** exactly when, for every item, those with at
least its key have room together, or no item with a smaller key has room beside what is taken of them. -/
theorem missed_le_took_iff (hsorted : items.Pairwise fun a b => key b ≤ key a) :
    (∀ a ∈ missed cap size 0 items, ∀ b ∈ took cap size 0 items, key a ≤ key b) ↔
      ∀ a ∈ items, ∀ b ∈ items, key b < key a →
        ((items.filter fun c => key a ≤ key c).map size).sum ≤ cap ∨
          cap < ((took cap size 0 (items.filter fun c => key a ≤ key c)).map size).sum + size b := by
  constructor
  · intro h a ha b hb hlt
    refine or_iff_not_imp_left.2 fun hover => ?_
    obtain ⟨front, back, hfront, hitems, hge, hback⟩ := exists_split hsorted (key a)
    rw [hfront] at hover ⊢
    -- something with at least this key is left
    obtain ⟨c, hc⟩ : ∃ c, c ∈ missed cap size 0 front := by
      refine List.exists_mem_of_ne_nil _ fun hnil => hover ?_
      have hperm := @took_append_missed_perm _ cap size 0 front
      rw [hnil, List.append_nil] at hperm
      have := @sum_took_le _ cap size 0 (Nat.zero_le cap) front
      rwa [Nat.zero_add, (hperm.map size).sum_eq] at this
    rw [hitems, missed_append, took_append, Nat.zero_add] at h
    -- so nothing with a smaller one is taken
    have hnil : took cap size ((took cap size 0 front).map size).sum back = [] := by
      refine List.eq_nil_iff_forall_not_mem.2 fun d hd => ?_
      have hda : key d < key a := ((hback d).1 (mem_of_mem_took hd)).2
      have hcd := h c (List.mem_append_left _ hc) d (List.mem_append_right _ hd)
      exact absurd ((hge c (mem_of_mem_missed hc)).trans hcd) (not_le.2 hda)
    exact took_eq_nil_iff.1 hnil b ((hback b).2 ⟨hb, hlt⟩)
  · intro h a ha b hb
    refine le_of_not_gt fun hlt => ?_
    have hside := fun d hd hda => h a (mem_of_mem_missed ha) d hd hda
    obtain ⟨front, back, hfront, hitems, hge, hback⟩ := exists_split hsorted (key a)
    rw [hfront] at hside
    rw [hitems, missed_append, Nat.zero_add, List.mem_append] at ha
    rw [hitems, took_append, Nat.zero_add, List.mem_append] at hb
    have hleft : a ∈ missed cap size 0 front :=
      ha.resolve_right fun ha => lt_irrefl _ ((hback a).1 (mem_of_mem_missed ha)).2
    have htaken : b ∈ took cap size ((took cap size 0 front).map size).sum back :=
      hb.resolve_left fun hb => not_le.2 hlt (hge b (mem_of_mem_took hb))
    have hnil : took cap size ((took cap size 0 front).map size).sum back = [] := by
      refine took_eq_nil_iff.2 fun d hd => ?_
      obtain ⟨hd, hda⟩ := (hback d).1 hd
      refine (hside d hd hda).resolve_left fun hroom => ?_
      rw [missed_eq_nil (by rwa [Nat.zero_add])] at hleft
      cases hleft
    rw [hnil] at htaken
    cases htaken

/-- What has no room together has a first item for which there is none. -/
theorem exists_first (htotal : total ≤ cap) (h : cap < total + (items.map size).sum) :
    ∃ front a back, items = front ++ a :: back ∧ total + (front.map size).sum ≤ cap ∧
      cap < total + (front.map size).sum + size a := by
  induction items generalizing total with
  | nil =>
      rw [List.map_nil, List.sum_nil] at h
      omega
  | cons a items ih =>
      by_cases ha : cap < total + size a
      · exact ⟨[], a, items, rfl, htotal, ha⟩
      · rw [List.map_cons, List.sum_cons, ← Nat.add_assoc] at h
        obtain ⟨front, b, back, hitems, hfront, hb⟩ := ih (Nat.le_of_not_lt ha) h
        refine ⟨a :: front, b, back, by rw [hitems, List.cons_append], ?_, ?_⟩
        all_goals
          rw [List.map_cons, List.sum_cons, ← Nat.add_assoc]
          assumption

/-- In a list with the largest first and no two equal, those before an item are those with a larger key. -/
theorem filter_lt {a : α} (hsorted : (front ++ a :: back).Pairwise fun a b => key b < key a) :
    (front ++ a :: back).filter (fun b => key a < key b) = front := by
  obtain ⟨-, hback, hfront⟩ := List.pairwise_append.1 hsorted
  have hlarger : ∀ b ∈ front, key a < key b := fun b hb => hfront b hb a List.mem_cons_self
  have hsmaller : ∀ b ∈ a :: back, ¬ key a < key b :=
    List.forall_mem_cons.2 ⟨lt_irrefl _, fun b hb => not_lt.2 ((List.pairwise_cons.1 hback).1 b hb).le⟩
  rw [List.filter_append, List.filter_eq_self.2 fun b hb => by simpa using hlarger b hb,
    List.filter_eq_nil_iff.2 fun b hb => by simpa using hsmaller b hb, List.append_nil]

/-- **Of different keys**, nothing that is left has a larger one than something taken exactly when behind the
first item without room no item has any. -/
theorem missed_le_took_iff_first (hsorted : items.Pairwise fun a b => key b < key a) :
    (∀ a ∈ missed cap size 0 items, ∀ b ∈ took cap size 0 items, key a ≤ key b) ↔
      ∀ a ∈ items, ∀ b ∈ items, key b < key a →
        ((items.filter fun c => key a < key c).map size).sum ≤ cap →
          cap < ((items.filter fun c => key a < key c).map size).sum + size a →
            cap < ((items.filter fun c => key a < key c).map size).sum + size b := by
  constructor
  · intro h a ha b hb hlt
    obtain ⟨front, back, rfl⟩ := List.append_of_mem ha
    rw [filter_lt hsorted]
    intro hfront hover
    obtain ⟨-, hback, hlarger⟩ := List.pairwise_append.1 hsorted
    rw [missed_append, took_append, took_eq_self (by rwa [Nat.zero_add]), Nat.zero_add, missed, took, if_pos hover,
      if_pos hover] at h
    have hnil : took cap size (front.map size).sum back = [] := by
      refine List.eq_nil_iff_forall_not_mem.2 fun c hc => ?_
      have hle := h a (List.mem_append_right _ List.mem_cons_self) c (List.mem_append_right _ hc)
      exact not_le.2 ((List.pairwise_cons.1 hback).1 c (mem_of_mem_took hc)) hle
    refine took_eq_nil_iff.1 hnil b ?_
    rcases List.mem_append.1 hb with hb | hb
    · exact absurd (hlarger b hb a List.mem_cons_self) hlt.asymm
    · exact (List.mem_cons.1 hb).resolve_left fun heq => lt_irrefl _ (heq ▸ hlt)
  · intro h a ha b hb
    by_cases hroom : (items.map size).sum ≤ cap
    · rw [missed_eq_nil (by rwa [Nat.zero_add])] at ha
      cases ha
    · obtain ⟨front, c, back, rfl, hfront, hover⟩ :=
        @exists_first _ cap size 0 items (Nat.zero_le cap) (by rw [Nat.zero_add]; exact Nat.lt_of_not_le hroom)
      rw [Nat.zero_add] at hfront hover
      obtain ⟨-, hback, hlarger⟩ := List.pairwise_append.1 hsorted
      have hsmaller := (List.pairwise_cons.1 hback).1
      have hnil : took cap size (front.map size).sum back = [] := by
        refine took_eq_nil_iff.2 fun d hd => ?_
        have := h c (List.mem_append_right _ List.mem_cons_self) d
          (List.mem_append_right _ (List.mem_cons_of_mem c hd)) (hsmaller d hd)
        rw [filter_lt hsorted] at this
        exact this hfront hover
      have htook : took cap size 0 (front ++ c :: back) = front := by
        rw [took_append, took_eq_self (by rwa [Nat.zero_add]), Nat.zero_add, took, if_pos hover, hnil,
          List.append_nil]
      rw [missed_append, missed_eq_nil (by rwa [Nat.zero_add]), List.nil_append] at ha
      exact (hlarger b (htook ▸ hb) a (mem_of_mem_missed ha)).le

end Greedy
