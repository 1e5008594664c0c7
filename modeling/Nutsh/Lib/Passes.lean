/-
Passes over a list that change a state.

A pass takes the items of a list one after the other.  It can fail at an item, or it can go on and collect
what is wrong, and then it is accepted when nothing was; either way an accepted pass is a run of its step.
What holds after a step exactly when it held before and the step met a condition holds after a run exactly
when it held before and every step did.

Main definitions:

* `Passes.pass`, `Passes.accepted` — a pass that collects what is wrong, and its steps with nothing wrong;
* `Passes.modifyFirst` — a list with its first item of a kind changed.

Main results:

* `Passes.exec_of_foldlM`, `Passes.exec_of_pass` — passes are runs;
* `Passes.exec_iff_along` — what a run keeps exactly when each step meets a condition;
* `Passes.forall_modifyFirst_iff` — what holds of all items after the first one was changed;
* `Passes.exec_gathered` — what a run gathers, when each step adds something.
-/
import Mathlib.Data.List.Forall2
import Nutsh.Lib.Run

set_option relaxedAutoImplicit false
set_option autoImplicit false

universe u

namespace Passes

variable {σ α β ε π : Type*}

/-- A pass: the state it leads to, and what is wrong with each item. -/
def pass (step : σ → α → σ × List π) : σ → List α → σ × List π
  | s, [] => (s, [])
  | s, x :: xs =>
      let (t, problems) := step s x
      let (u, rest) := pass step t xs
      (u, problems ++ rest)

/-- The step of a pass, with nothing wrong. -/
def accepted (step : σ → α → σ × List π) (s : σ) (x : α) : Option σ :=
  if (step s x).2.isEmpty then some (step s x).1 else none

theorem accepted_eq_some {step : σ → α → σ × List π} {s t : σ} {x : α} :
    accepted step s x = some t ↔ step s x = (t, []) := by
  rw [accepted]
  cases step s x with
  | mk u problems => cases problems <;> simp

/-- A pass with nothing wrong is a run of its steps. -/
theorem exec_of_pass {step : σ → α → σ × List π} {s t : σ} {xs : List α}
    (h : pass step s xs = (t, [])) : Run.exec (accepted step) s xs = some t := by
  induction xs generalizing s with
  | nil => exact congrArg some (Prod.mk.inj h).1
  | cons x xs ih =>
      rw [pass] at h
      obtain ⟨ht, hproblems⟩ := Prod.mk.inj h
      obtain ⟨hstep, hrest⟩ := List.append_eq_nil_iff.1 hproblems
      exact Run.exec_cons_eq_some.2
        ⟨_, accepted_eq_some.2 (Prod.ext rfl hstep), ih (Prod.ext ht hrest)⟩

/-- The state a pass leads to does not depend on what is wrong. -/
theorem pass_fst (step : σ → α → σ × List π) (s : σ) (xs : List α) :
    (pass step s xs).1 = xs.foldl (fun s x => (step s x).1) s := by
  induction xs generalizing s with
  | nil => rfl
  | cons x xs ih => exact ih _

/-- What can fail, one after the other, and does not. -/
theorem bind_eq_ok {γ δ : Type u} {x : Except ε γ} {f : γ → Except ε δ} {b : δ} :
    (x >>= f) = .ok b ↔ ∃ a, x = .ok a ∧ f a = .ok b := by
  cases x with
  | ok a => exact ⟨fun h => ⟨a, rfl, h⟩, fun ⟨_, ha, h⟩ => Except.ok.inj ha ▸ h⟩
  | error e =>
      constructor
      · intro h
        cases h
      · rintro ⟨_, h, -⟩
        cases h

/-- A pass that can fail and does not is a run of its step. -/
theorem exec_of_foldlM {step : σ → α → Except ε σ} {s t : σ} {xs : List α}
    (h : xs.foldlM step s = .ok t) : Run.exec (fun s x => (step s x).toOption) s xs = some t := by
  induction xs generalizing s with
  | nil => exact congrArg some (Except.ok.inj h)
  | cons x xs ih =>
      rw [List.foldlM_cons] at h
      obtain ⟨u, hstep, h⟩ := bind_eq_ok.1 h
      exact Run.exec_cons_eq_some.2 ⟨u, by rw [hstep]; rfl, ih h⟩

/-- **What a run keeps exactly.** -/
theorem exec_iff_along {step : σ → α → Option σ} {I : σ → Prop} {P : σ → α → Prop}
    (hstep : ∀ s x t, step s x = some t → (I t ↔ I s ∧ P s x)) {s t : σ} {xs : List α}
    (h : Run.exec step s xs = some t) : I t ↔ I s ∧ Run.Along step P s xs := by
  induction xs generalizing s with
  | nil => simp [← Option.some.inj h]
  | cons x xs ih =>
      obtain ⟨u, hu, h⟩ := Run.exec_cons_eq_some.1 h
      rw [ih h, hstep s x u hu, Run.along_cons, and_assoc]
      refine and_congr_right fun _ => and_congr_right fun _ => ⟨fun hrest v hv => ?_, fun hrest => hrest u hu⟩
      obtain rfl := Option.some.inj (hu.symm.trans hv)
      exact hrest

/-- Items that are each read without failing. -/
theorem forall₂_of_mapM {f : α → Except ε β} {xs : List α} {ys : List β}
    (h : xs.mapM f = .ok ys) : List.Forall₂ (fun x y => f x = .ok y) xs ys := by
  induction xs generalizing ys with
  | nil =>
      obtain rfl := Except.ok.inj h
      exact .nil
  | cons x xs ih =>
      rw [List.mapM_cons] at h
      obtain ⟨y, hx, h⟩ := bind_eq_ok.1 h
      obtain ⟨ys', hxs, h⟩ := bind_eq_ok.1 h
      obtain rfl := Except.ok.inj h
      exact .cons hx (ih hxs)

/-! ### The first of a kind -/

/-- The list with `f` of its first item that meets `p`. -/
def modifyFirst (p : α → Bool) (f : α → α) : List α → List α
  | [] => []
  | a :: as => if p a then f a :: as else a :: modifyFirst p f as

variable {p : α → Bool} {f : α → α} {l : List α}

theorem modifyFirst_id (p : α → Bool) (l : List α) : modifyFirst p (fun a => a) l = l := by
  induction l with
  | nil => rfl
  | cons a l ih => rw [modifyFirst, ih, ite_self]

/-- A list whose first item of the kind the change leaves, or that has none. -/
theorem modifyFirst_of_fixed (h : ∀ a, l.find? p = some a → f a = a) : modifyFirst p f l = l := by
  induction l with
  | nil => rfl
  | cons a l ih =>
      rw [modifyFirst]
      cases ha : p a with
      | true => rw [if_pos rfl, h a (by rw [List.find?_cons, ha])]
      | false =>
          rw [if_neg Bool.false_ne_true, ih fun b hb => h b (by rw [List.find?_cons, ha]; exact hb)]

theorem modifyFirst_of_find?_eq_none (h : l.find? p = none) : modifyFirst p f l = l :=
  modifyFirst_of_fixed fun a ha => by rw [h] at ha; cases ha

/-- What holds of all items after the first was changed: it held of all before, and the change met a
condition. -/
theorem forall_modifyFirst_iff {Q : α → Prop} {R : Prop} {a : α} (h : l.find? p = some a)
    (hQ : Q (f a) ↔ Q a ∧ R) : (∀ b ∈ modifyFirst p f l, Q b) ↔ (∀ b ∈ l, Q b) ∧ R := by
  induction l with
  | nil => cases h
  | cons b l ih =>
      rw [List.find?_cons] at h
      rw [modifyFirst]
      cases hb : p b with
      | true =>
          rw [hb] at h
          obtain rfl := Option.some.inj h
          simp only [if_true, List.forall_mem_cons, hQ]
          exact and_right_comm
      | false =>
          rw [hb] at h
          simp only [Bool.false_eq_true, if_false, List.forall_mem_cons, ih h]
          exact and_assoc.symm

/-- What holds of all items is kept when the first of the kind has it after the change. -/
theorem forall_modifyFirst {Q : α → Prop} (h : ∀ a ∈ l, Q a)
    (hf : ∀ a, l.find? p = some a → Q (f a)) : ∀ b ∈ modifyFirst p f l, Q b := by
  induction l with
  | nil => exact h
  | cons a l ih =>
      obtain ⟨ha, h⟩ := List.forall_mem_cons.1 h
      rw [modifyFirst]
      cases hp : p a with
      | true =>
          rw [if_pos rfl]
          exact List.forall_mem_cons.2 ⟨hf a (by rw [List.find?_cons, hp]), h⟩
      | false =>
          rw [if_neg Bool.false_ne_true]
          exact List.forall_mem_cons.2
            ⟨ha, ih h fun b hb => hf b (by rw [List.find?_cons, hp]; exact hb)⟩

/-- What holds of all items is what held of all before, when the change does not touch it. -/
theorem forall_modifyFirst_congr {Q : α → Prop} (hf : ∀ a, Q (f a) ↔ Q a) :
    (∀ b ∈ modifyFirst p f l, Q b) ↔ ∀ b ∈ l, Q b := by
  induction l with
  | nil => exact Iff.rfl
  | cons a l ih =>
      rw [modifyFirst]
      split_ifs
      · rw [List.forall_mem_cons, List.forall_mem_cons, hf]
      · rw [List.forall_mem_cons, List.forall_mem_cons]
        exact and_congr_right fun _ => ih

/-- A change that nothing `g` reads leaves what `g` reads. -/
theorem map_modifyFirst {g : α → β} (hg : ∀ a, g (f a) = g a) :
    (modifyFirst p f l).map g = l.map g := by
  induction l with
  | nil => rfl
  | cons a l ih =>
      rw [modifyFirst]
      split_ifs
      · rw [List.map_cons, List.map_cons, hg]
      · rw [List.map_cons, List.map_cons, ih]

/-- The first item of a kind after it was changed, when the change keeps it of the kind. -/
theorem find?_modifyFirst (hp : ∀ a, p (f a) = p a) :
    (modifyFirst p f l).find? p = (l.find? p).map f := by
  induction l with
  | nil => rfl
  | cons a l ih =>
      rw [modifyFirst]
      cases ha : p a with
      | true => rw [if_pos rfl, List.find?_cons, hp, ha, List.find?_cons, ha]; rfl
      | false => rw [if_neg Bool.false_ne_true, List.find?_cons, ha, List.find?_cons, ha]; exact ih

/-- The first item of another kind is not touched. -/
theorem find?_modifyFirst_of_disjoint {q : α → Bool} (hq : ∀ a, q (f a) = q a)
    (hpq : ∀ a, p a = true → q a = false) : (modifyFirst p f l).find? q = l.find? q := by
  induction l with
  | nil => rfl
  | cons a l ih =>
      rw [modifyFirst]
      cases ha : p a with
      | true =>
          have hqa := hpq a ha
          rw [if_pos rfl, List.find?_cons, hq, hqa, List.find?_cons, hqa]
      | false =>
          rw [if_neg Bool.false_ne_true, List.find?_cons, List.find?_cons, ih]

/-- Lists that `g` does not tell apart have firsts of a kind that `g` does not tell apart. -/
theorem find?_of_map_eq {g : α → β} {q : β → Bool} {l' : List α} (h : l'.map g = l.map g) {a : α}
    (ha : l.find? (q ∘ g) = some a) : ∃ a', l'.find? (q ∘ g) = some a' ∧ g a' = g a := by
  have hfind := congrArg (List.find? q) h
  rw [List.find?_map, List.find?_map, ha, Option.map_some] at hfind
  obtain ⟨a', ha', hg⟩ := Option.map_eq_some_iff.1 hfind
  exact ⟨a', ha', hg⟩

theorem modifyFirst_modifyFirst {f' : α → α} (hp : ∀ a, p (f a) = p a) :
    modifyFirst p f' (modifyFirst p f l) = modifyFirst p (f' ∘ f) l := by
  induction l with
  | nil => rfl
  | cons a l ih =>
      rw [modifyFirst, modifyFirst]
      cases ha : p a with
      | true => rw [if_pos rfl, if_pos rfl, modifyFirst, hp, ha, if_pos rfl]; rfl
      | false => rw [if_neg Bool.false_ne_true, if_neg Bool.false_ne_true, modifyFirst, ha,
          if_neg Bool.false_ne_true, ih]

theorem map_ite_of_filter_eq_nil (h : l.filter p = []) : (l.map fun a => if p a then f a else a) = l := by
  refine List.map_congr_left (fun b hb => if_neg fun hp => ?_) |>.trans (List.map_id l)
  exact absurd (List.mem_filter.2 ⟨hb, hp⟩) (h ▸ List.not_mem_nil)

/-- What holds of all items after the only one of a kind was changed. -/
theorem forall_map_ite_iff {Q : α → Prop} {R : Prop} {a : α} (h : l.filter p = [a])
    (hQ : Q (f a) ↔ Q a ∧ R) :
    (∀ b ∈ l.map fun a => if p a then f a else a, Q b) ↔ (∀ b ∈ l, Q b) ∧ R := by
  induction l with
  | nil => cases h
  | cons b l ih =>
      rw [List.filter_cons] at h
      cases hb : p b with
      | true =>
          rw [hb, if_pos rfl] at h
          obtain ⟨rfl, hrest⟩ := List.cons.inj h
          rw [List.map_cons, map_ite_of_filter_eq_nil hrest, hb]
          simp only [if_true, List.forall_mem_cons, hQ]
          exact and_right_comm
      | false =>
          rw [hb, if_neg Bool.false_ne_true] at h
          rw [List.map_cons, List.forall_mem_cons, List.forall_mem_cons, hb, if_neg Bool.false_ne_true]
          exact (and_congr_right fun _ => ih h).trans and_assoc.symm

/-! ### What is gathered from all items -/

/-- What is gathered after the first item of a kind was changed, and has more than before. -/
theorem flatMap_modifyFirst_perm {g : α → List β} {more : List β} {a : α} (h : l.find? p = some a)
    (hg : (g (f a)).Perm (g a ++ more)) : ((modifyFirst p f l).flatMap g).Perm (l.flatMap g ++ more) := by
  induction l with
  | nil => cases h
  | cons b l ih =>
      rw [List.find?_cons] at h
      rw [modifyFirst]
      cases hb : p b with
      | true =>
          rw [hb] at h
          obtain rfl := Option.some.inj h
          simp only [if_true, List.flatMap_cons]
          refine (hg.append_right _).trans ?_
          rw [List.append_assoc, List.append_assoc]
          exact (List.perm_append_comm).append_left _
      | false =>
          rw [hb] at h
          simp only [Bool.false_eq_true, if_false, List.flatMap_cons]
          rw [List.append_assoc]
          exact (ih h).append_left _

/-- What is gathered after the only item of a kind was changed, and has more than before. -/
theorem flatMap_map_ite_perm {g : α → List β} {more : List β} {a : α} (h : l.filter p = [a])
    (hg : (g (f a)).Perm (g a ++ more)) :
    ((l.map fun a => if p a then f a else a).flatMap g).Perm (l.flatMap g ++ more) := by
  induction l with
  | nil => cases h
  | cons b l ih =>
      rw [List.filter_cons] at h
      cases hb : p b with
      | true =>
          rw [hb, if_pos rfl] at h
          obtain ⟨rfl, hrest⟩ := List.cons.inj h
          rw [List.map_cons, map_ite_of_filter_eq_nil hrest, hb]
          simp only [if_true, List.flatMap_cons]
          refine (hg.append_right _).trans ?_
          rw [List.append_assoc, List.append_assoc]
          exact (List.perm_append_comm).append_left _
      | false =>
          rw [hb, if_neg Bool.false_ne_true] at h
          simp only [List.map_cons, hb, Bool.false_eq_true, if_false, List.flatMap_cons]
          rw [List.append_assoc]
          exact (ih h).append_left _

/-- A run whose steps each add something. -/
theorem exec_gathered {step : σ → α → Option σ} (g : σ → List β) (more : α → List β)
    (hstep : ∀ s x t, step s x = some t → (g t).Perm (g s ++ more x)) {s t : σ} {xs : List α}
    (h : Run.exec step s xs = some t) : (g t).Perm (g s ++ xs.flatMap more) := by
  induction xs generalizing s with
  | nil => simp [← Option.some.inj h]
  | cons x xs ih =>
      obtain ⟨u, hu, h⟩ := Run.exec_cons_eq_some.1 h
      rw [List.flatMap_cons, ← List.append_assoc]
      exact (ih h).trans ((hstep s x u hu).append_right _)

end Passes
