/-
What a completed walk installs.

A list cycle of generation `g` hands a table its pages and then completes.  The staging area the
pages wait in is shared with every other cycle on the table, and an `error` drops it unless it is
newer than the failed cycle.  This file follows one generation through any interleaving of updates:
what of it is staged, when another cycle has superseded it for good, and what an `error` drops.

Main definitions:

* `Table.stagedFor` — the entities staged for a generation;
* `pagesOf` — the entities of all the pages of a generation in a sequence of updates;
* `Table.Superseded` — the generation can no longer replace the rows unless an error intervenes;
* `Update.drops` — the update is an error that discards what is staged for the generation;
* `Table.InstallsWhole` — completing installs exactly the given pages.

Main results:

* `Table.stagedFor_applyAll` — with no such error, nothing given is lost before completion;
* `Table.staged_ahead` — what is staged is always newer than the completed generation;
* `complete_installs_whole_iff` — exactly when a completed walk installs all its pages.
-/
import Mathlib.Data.List.Induction
import Nutsh.Store

set_option relaxedAutoImplicit false
set_option autoImplicit false

namespace Nutsh

/-- The entities of the pages of generation `g` in a sequence of updates, in order. -/
def pagesOf (g : ℕ) (us : List (ℕ × Update)) : List Entity :=
  us.flatMap fun u =>
    match u.2 with
    | .page h entities _ => if h = g then entities else []
    | _ => []

@[simp] theorem pagesOf_nil (g : ℕ) : pagesOf g [] = [] := rfl

theorem pagesOf_cons (g : ℕ) (u : ℕ × Update) (us : List (ℕ × Update)) :
    pagesOf g (u :: us) = pagesOf g [u] ++ pagesOf g us := by
  simp [pagesOf]

theorem pagesOf_append (g : ℕ) (us vs : List (ℕ × Update)) :
    pagesOf g (us ++ vs) = pagesOf g us ++ pagesOf g vs :=
  List.flatMap_append

/-- The update is an error that discards what is staged for generation `g`. -/
def Update.drops (g : ℕ) : Update → Bool
  | .error h _ => decide (g ≤ h)
  | _ => false

namespace Table

/-- The entities staged for generation `g`. -/
def stagedFor (t : Table) (g : ℕ) : List Entity := ((t.takes g).map Staging.entities).getD []

/-- A `complete` of generation `g` replaces the rows. -/
def replaces (t : Table) (g : ℕ) : Bool := decide (t.generation ≤ g) && (t.takes g).isSome

/-- Generation `g` is completed, or newer pages are staged in its place. -/
def Superseded (t : Table) (g : ℕ) : Prop :=
  g ≤ t.generation ∨ ∃ s, t.staging = some s ∧ g < s.generation

instance decidableSuperseded (t : Table) (g : ℕ) : Decidable (t.Superseded g) :=
  decidable_of_iff (g ≤ t.generation ∨ ∃ s ∈ t.staging, g < s.generation) Iff.rfl

/-- What is staged is newer than the last completed generation. -/
def Ahead (t : Table) : Prop := ∀ s, t.staging = some s → t.generation < s.generation

theorem stagedFor_of_staging {t : Table} {s : Staging} {g : ℕ} (h : t.staging = some s) :
    t.stagedFor g = if s.generation = g then s.entities else [] := by
  by_cases hg : s.generation = g <;> simp [stagedFor, takes, h, hg, Option.filter_some]

theorem stagedFor_of_none {t : Table} {g : ℕ} (h : t.staging = none) : t.stagedFor g = [] := by
  simp [stagedFor, takes, h]

/-- What is staged for a generation depends on the staging area alone. -/
theorem stagedFor_congr {t t' : Table} (g : ℕ) (h : t.staging = t'.staging) :
    t.stagedFor g = t'.stagedFor g := by
  simp [stagedFor, takes, h]

/-! ### The arms and the staging area -/

/-- A page either changes nothing, its generation being completed or superseded, or extends what is
staged for its generation. -/
theorem onPage_cases (t : Table) (g : ℕ) (es : List Entity) (total : Option ℕ) :
    (t.onPage g es total = t ∧ t.Superseded g) ∨
      (t.generation < g ∧ (∀ s, t.staging = some s → s.generation ≤ g) ∧
        (t.onPage g es total).staging =
          some { generation := g, entities := t.stagedFor g ++ es, total }) := by
  unfold onPage
  by_cases hg : g ≤ t.generation
  · exact Or.inl ⟨if_pos hg, Or.inl hg⟩
  · rw [if_neg hg]
    cases hs : t.staging with
    | none =>
        refine Or.inr ⟨Nat.lt_of_not_le hg, by simp, ?_⟩
        simp [stagedFor_of_none hs]
    | some s =>
        by_cases hn : g < s.generation
        · refine Or.inl ⟨by simp [hn], Or.inr ⟨s, hs, hn⟩⟩
        · refine Or.inr ⟨Nat.lt_of_not_le hg, by simpa using hn, ?_⟩
          rcases Nat.lt_or_ge s.generation g with ho | ho
          · simp [hn, ho, stagedFor_of_staging hs, Nat.ne_of_lt ho, Option.filter_some]
          · have he : s.generation = g := Nat.le_antisymm (Nat.le_of_not_lt hn) ho
            simp [he, stagedFor_of_staging hs, Option.filter_some]

/-- A `complete` either takes its own pages out of the staging area and becomes the completed
generation, or leaves both alone. -/
theorem onComplete_cases (t : Table) (now g : ℕ) :
    (t.replaces g = true ∧ (t.onComplete now g).generation = g ∧
        (t.onComplete now g).staging = none ∧
        (t.onComplete now g).rows = index (t.stagedFor g)) ∨
      (t.replaces g = false ∧ (t.onComplete now g).generation = t.generation ∧
        (t.onComplete now g).staging = t.staging ∧ (t.onComplete now g).rows = t.rows) := by
  unfold onComplete replaces
  by_cases hg : g < t.generation
  · exact Or.inr ⟨by simp [Nat.not_le.2 hg], by simp [hg], by simp [hg], by simp [hg]⟩
  · cases ht : t.takes g with
    | none => exact Or.inr ⟨by simp, by simp [hg], by simp [hg], by simp [hg]⟩
    | some s =>
        exact Or.inl ⟨by simpa using hg, by simp [hg], by simp [hg],
          by simp [hg, ht, stagedFor]⟩

/-- An `error` leaves newer staging, and anything at all once its generation is past. -/
theorem staging_onError (t : Table) (g : ℕ) (error : Failure) :
    (t.onError g error).staging =
      if g < t.generation then t.staging else t.staging.filter fun s => !decide (s.generation ≤ g) := by
  unfold onError
  split <;> rfl

/-- A table takes only what it has staged. -/
theorem staging_of_takes {t : Table} {g : ℕ} {s : Staging} (h : t.takes g = some s) :
    t.staging = some s ∧ s.generation = g := by
  obtain ⟨hs, hg⟩ := Option.filter_eq_some_iff.1 h
  exact ⟨hs, by simpa using hg⟩

/-! ### One generation through a sequence of updates -/

/-- What is staged stays newer than the completed generation. -/
theorem ahead_apply {t : Table} (h : t.Ahead) (now : ℕ) (u : Update) : (t.apply now u).Ahead := by
  intro s hs
  cases u with
  | started g => simpa using h s (by simpa using hs)
  | page g es total =>
      rcases onPage_cases t g es total with ⟨he, -⟩ | ⟨hg, -, he⟩
      · simp only [apply_page, he] at hs ⊢
        exact h s hs
      · simp only [apply_page, he, Option.some.injEq] at hs
        simpa [← hs] using hg
  | complete g =>
      rcases onComplete_cases t now g with ⟨-, -, he, -⟩ | ⟨-, hg, he, -⟩
      · simp [he] at hs
      · simp only [apply_complete, he, hg] at hs ⊢
        exact h s hs
  | entity g e => simpa using h s (by simpa using hs)
  | error g error =>
      simp only [apply, staging_onError, generation_onError] at hs ⊢
      split at hs
      · exact h s hs
      · exact h s (Option.filter_eq_some_iff.1 hs).1

/-- **What is staged is always newer than what is completed**, after any updates on a fresh
table. -/
theorem staged_ahead (us : List (ℕ × Update)) : (fresh.applyAll us).Ahead := by
  induction us using List.reverseRecOn with
  | nil => intro s hs; cases hs
  | append_singleton us u ih =>
      rw [applyAll_append]
      exact ahead_apply ih u.1 u.2

/-- A generation that could still replace the rows is not superseded. -/
theorem not_superseded {t : Table} {g : ℕ} (ha : t.Ahead) (hr : t.replaces g = true) :
    ¬ t.Superseded g := by
  simp only [replaces, Bool.and_eq_true, Option.isSome_iff_exists] at hr
  obtain ⟨-, s, hs⟩ := hr
  obtain ⟨hs, hg⟩ := staging_of_takes hs
  have hlt : t.generation < s.generation := ha s hs
  rintro (hle | ⟨s', hs', hlt'⟩)
  · omega
  · rw [hs, Option.some.injEq] at hs'
    subst hs'
    omega

/-- Superseded is for good, short of an error that drops the newer pages. -/
theorem superseded_apply {t : Table} {g : ℕ} (h : t.Superseded g) (now : ℕ) {u : Update}
    (hu : u.drops g = false) : (t.apply now u).Superseded g := by
  cases u with
  | started k => simpa [Superseded] using h
  | page k es total =>
      rcases onPage_cases t k es total with ⟨he, -⟩ | ⟨hk, hle, he⟩
      · simpa [he] using h
      · rcases h with h | ⟨s, hs, hlt⟩
        · exact Or.inl (by simpa using h)
        · exact Or.inr ⟨_, he, Nat.lt_of_lt_of_le hlt (hle s hs)⟩
  | complete k =>
      rcases onComplete_cases t now k with ⟨hr, hk, -, -⟩ | ⟨-, hk, he, -⟩
      · -- a completion that replaces the rows is of a generation past `g`, or of one not below it
        refine Or.inl ?_
        simp only [replaces, Bool.and_eq_true, decide_eq_true_eq, Option.isSome_iff_exists] at hr
        obtain ⟨hle, s', hs'⟩ := hr
        obtain ⟨hs', hk'⟩ := staging_of_takes hs'
        simp only [apply, hk]
        rcases h with h | ⟨s, hs, hlt⟩
        · exact Nat.le_trans h hle
        · rw [hs', Option.some.injEq] at hs
          subst hs
          omega
      · simpa [Superseded, hk, he] using h
  | entity k e => simpa [Superseded] using h
  | error k error =>
      have hk : k < g := by simpa [Update.drops] using hu
      rcases h with h | ⟨s, hs, hlt⟩
      · exact Or.inl (by simpa using h)
      · refine Or.inr ⟨s, ?_, hlt⟩
        simp only [apply, staging_onError, hs]
        split
        · rfl
        · simp only [Option.filter_some, Bool.not_eq_true', decide_eq_false_iff_not, not_le]
          exact if_pos (Nat.lt_trans hk hlt)

/-- Short of an error that drops it, what is staged for a generation is only ever extended by its
pages, until the generation is superseded. -/
theorem stagedFor_apply (t : Table) (g now : ℕ) {u : Update} (hu : u.drops g = false) :
    (t.apply now u).Superseded g ∨
      (t.apply now u).stagedFor g = t.stagedFor g ++ pagesOf g [(now, u)] := by
  cases u with
  | started k => exact Or.inr (by simp [pagesOf, stagedFor_congr g (staging_onStarted t now k)])
  | page k es total =>
      rcases onPage_cases t k es total with ⟨he, hsup⟩ | ⟨hk, hle, he⟩
      · by_cases hkg : k = g
        · subst hkg
          exact Or.inl (by simpa [he] using hsup)
        · exact Or.inr (by simp [he, pagesOf, hkg])
      · rcases Nat.lt_trichotomy k g with hlt | rfl | hgt
        · -- an older page: nothing of `g` was staged, and nothing is
          refine Or.inr ?_
          have hnone : t.stagedFor g = [] := by
            cases hs : t.staging with
            | none => exact stagedFor_of_none hs
            | some s =>
                have := hle s hs
                rw [stagedFor_of_staging hs, if_neg (by omega)]
          simp [stagedFor_of_staging he, hnone, pagesOf, Nat.ne_of_lt hlt]
        · exact Or.inr (by simp [stagedFor_of_staging he, pagesOf])
        · exact Or.inl (Or.inr ⟨_, he, hgt⟩)
  | complete k =>
      rcases onComplete_cases t now k with ⟨hr, hk, he, -⟩ | ⟨-, -, he, -⟩
      · by_cases hkg : g ≤ k
        · exact Or.inl (Or.inl (by simpa [hk] using hkg))
        · refine Or.inr ?_
          simp only [replaces, Bool.and_eq_true, Option.isSome_iff_exists] at hr
          obtain ⟨-, s, hs⟩ := hr
          obtain ⟨hs, hsk⟩ := staging_of_takes hs
          have hne : s.generation ≠ g := by omega
          simp [stagedFor_of_none he, stagedFor_of_staging hs, hne, pagesOf]
      · exact Or.inr (by simp [pagesOf, stagedFor_congr g he])
  | entity k e => exact Or.inr (by simp [pagesOf, stagedFor_congr g (staging_onEntity t k e)])
  | error k error =>
      refine Or.inr ?_
      have hk : k < g := by simpa [Update.drops] using hu
      have he := staging_onError t k error
      by_cases hlt : k < t.generation
      · rw [if_pos hlt] at he
        simp [pagesOf, stagedFor_congr g he]
      · rw [if_neg hlt] at he
        cases hs : t.staging with
        | none =>
            rw [hs] at he
            simp [pagesOf, stagedFor_of_none he, stagedFor_of_none hs]
        | some s =>
            by_cases hsk : s.generation ≤ k
            · have he : (t.onError k error).staging = none := by
                rw [he, hs]
                simp [hsk]
              have hne : s.generation ≠ g := by omega
              simp [pagesOf, stagedFor_of_none he, stagedFor_of_staging hs, hne]
            · have he : (t.onError k error).staging = t.staging := by
                rw [he, hs]
                simp [hsk, Option.filter_some]
              simp [pagesOf, stagedFor_congr g he]

/-- **Nothing given is lost without an error.**  Through any updates none of which drops it, what is
staged for a generation is what was, followed by all its pages, or the generation is superseded. -/
theorem stagedFor_applyAll (t : Table) (g : ℕ) {us : List (ℕ × Update)}
    (hus : ∀ u ∈ us, u.2.drops g = false) :
    (t.applyAll us).Superseded g ∨
      (t.applyAll us).stagedFor g = t.stagedFor g ++ pagesOf g us := by
  induction us using List.reverseRecOn with
  | nil => exact Or.inr (by simp)
  | append_singleton us u ih =>
      rw [applyAll_append, pagesOf_append, ← List.append_assoc]
      have hu : u.2.drops g = false := hus u (by simp)
      rcases ih fun v hv => hus v (by simp [hv]) with h | h
      · exact Or.inl (superseded_apply h u.1 hu)
      · rw [← h]
        exact stagedFor_apply _ g u.1 hu

/-- An error that drops a generation leaves nothing of it staged. -/
theorem stagedFor_of_drops (t : Table) {g : ℕ} (now : ℕ) {u : Update} (hu : u.drops g = true) :
    (t.apply now u).Superseded g ∨ (t.apply now u).stagedFor g = [] := by
  cases u with
  | error k error =>
      have hk : g ≤ k := by simpa [Update.drops] using hu
      have he := staging_onError t k error
      by_cases hlt : k < t.generation
      · exact Or.inl (Or.inl (by simp only [apply, generation_onError]; omega))
      · rw [if_neg hlt] at he
        cases hs : t.staging with
        | none => exact Or.inr (stagedFor_of_none (by simpa [hs] using he))
        | some s =>
            by_cases hsk : s.generation ≤ k
            · exact Or.inr (stagedFor_of_none (by rw [apply, he, hs]; simp [hsk]))
            · refine Or.inl (Or.inr ⟨s, ?_, by omega⟩)
              rw [apply, he, hs]
              simp [hsk]
  | _ => cases hu

/-- A `complete` of generation `g` makes the rows the index of exactly these entities, all of them
having been staged. -/
def InstallsWhole (t : Table) (now g : ℕ) (entities : List Entity) : Prop :=
  t.stagedFor g = entities ∧ (t.onComplete now g).rows = index entities

/-- A `complete` that replaces the rows installs what is staged. -/
theorem installsWhole_iff {t : Table} {g : ℕ} (h : t.replaces g = true) (now : ℕ)
    (entities : List Entity) : t.InstallsWhole now g entities ↔ t.stagedFor g = entities := by
  refine ⟨And.left, fun he => ⟨he, ?_⟩⟩
  rcases onComplete_cases t now g with ⟨-, -, -, hrows⟩ | ⟨hr, -⟩
  · rw [hrows, he]
  · rw [h] at hr
    cases hr

end Table

/-! ### Whole walks -/

/-- An error comes after pages of generation `g` have been given and discards them. -/
def LosesPages (g : ℕ) (us : List (ℕ × Update)) : Prop :=
  ∃ a u b, us = a ++ u :: b ∧ u.2.drops g = true ∧ pagesOf g a ≠ []

/-- A sequence of updates with an error that drops `g` has a last one. -/
theorem exists_last_drop {g : ℕ} {us : List (ℕ × Update)} (h : ∃ u ∈ us, u.2.drops g = true) :
    ∃ a u b, us = a ++ u :: b ∧ u.2.drops g = true ∧ ∀ v ∈ b, v.2.drops g = false := by
  induction us with
  | nil => simp at h
  | cons u us ih =>
      by_cases hus : ∃ v ∈ us, v.2.drops g = true
      · obtain ⟨a, v, b, rfl, hv, hb⟩ := ih hus
        exact ⟨u :: a, v, b, rfl, hv, hb⟩
      · obtain ⟨v, hv, hd⟩ := h
        rcases List.mem_cons.1 hv with rfl | hv
        · exact ⟨[], v, us, rfl, hd, by simpa using hus⟩
        · exact absurd ⟨v, hv, hd⟩ hus

/-- No pages are lost without an error that drops the generation. -/
theorem not_losesPages_of_forall {g : ℕ} {us : List (ℕ × Update)}
    (h : ∀ u ∈ us, u.2.drops g = false) : ¬ LosesPages g us := by
  rintro ⟨a, u, b, rfl, hu, -⟩
  rw [h u (by simp)] at hu
  cases hu

/-- No pages are lost when none came before the last error that drops the generation. -/
theorem not_losesPages {g : ℕ} {a b : List (ℕ × Update)} {u : ℕ × Update}
    (ha : pagesOf g a = []) (hb : ∀ v ∈ b, v.2.drops g = false) :
    ¬ LosesPages g (a ++ u :: b) := by
  rintro ⟨a', u', b', he, hu', hne⟩
  rcases List.append_eq_append_iff.1 he with ⟨c, rfl, hc⟩ | ⟨c, rfl, -⟩
  · cases c with
    | nil => exact hne (by simpa using ha)
    | cons v c =>
        -- a later error would stand behind the last one
        rw [List.cons_append, List.cons.injEq] at hc
        rw [hb u' (by rw [hc.2]; simp)] at hu'
        cases hu'
  · rw [pagesOf_append] at ha
    exact hne (List.append_eq_nil_iff.1 ha).1

/-- The pages of a walk that could still replace the rows, counted from the last error that dropped
it: all of them when there was none, on top of what was staged before. -/
theorem stagedFor_walk {t : Table} {g : ℕ} {us : List (ℕ × Update)}
    (hns : ¬ (t.applyAll us).Superseded g) :
    ((∀ u ∈ us, u.2.drops g = false) ∧
        (t.applyAll us).stagedFor g = t.stagedFor g ++ pagesOf g us) ∨
      ∃ a u b, us = a ++ u :: b ∧ u.2.drops g = true ∧ (∀ v ∈ b, v.2.drops g = false) ∧
        (t.applyAll us).stagedFor g = pagesOf g b := by
  by_cases hd : ∃ u ∈ us, u.2.drops g = true
  · obtain ⟨a, u, b, rfl, hu, hb⟩ := exists_last_drop hd
    refine Or.inr ⟨a, u, b, rfl, hu, hb, ?_⟩
    rw [Table.applyAll_append, Table.applyAll_cons] at hns ⊢
    have hrun := (Table.stagedFor_applyAll ((t.applyAll a).apply u.1 u.2) g hb).resolve_left hns
    rcases Table.stagedFor_of_drops (t.applyAll a) u.1 hu with hsup | hnil
    · -- a walk superseded at the last error stays superseded to the end
      refine absurd ?_ hns
      clear hrun hns
      induction b using List.reverseRecOn with
      | nil => exact hsup
      | append_singleton b v ih =>
          rw [Table.applyAll_append]
          exact Table.superseded_apply (ih ⟨u, by simp, hu⟩ fun w hw => hb w (by simp [hw])) v.1
            (hb v (by simp))
    · rw [hrun, hnil, List.nil_append]
  · have hall : ∀ u ∈ us, u.2.drops g = false := by simpa using hd
    exact Or.inl ⟨hall, (Table.stagedFor_applyAll t g hall).resolve_left hns⟩

/-- **Exactly when a completed walk is whole.**  Where `complete g` replaces the rows, it installs
all the pages of generation `g` given since a `started g` exactly when no error of a generation at
least `g` came after some of them, and nothing of `g` was staged before the `started`, unless such
an error dropped it. -/
theorem complete_installs_whole_iff (key : TableKey) (before walk : List (ℕ × Update))
    (g now₀ now : ℕ)
    (hr : ((({} : Store).applyAll key (before ++ (now₀, .started g) :: walk)).table key).replaces g
      = true) :
    ((({} : Store).applyAll key (before ++ (now₀, .started g) :: walk)).table key).stagedFor g
          = pagesOf g walk ∧
        (((({} : Store).applyAll key (before ++ (now₀, .started g) :: walk)).apply key now
          (.complete g)).table key).rows = index (pagesOf g walk) ↔
      ¬ LosesPages g walk ∧
        (((({} : Store).applyAll key before).table key).stagedFor g = [] ∨
          ∃ u ∈ walk, u.2.drops g = true) := by
  have hns := Table.not_superseded
    (by rw [Store.table_applyAll, Store.table_default]; exact Table.staged_ahead _) hr
  rw [Store.table_apply, Table.apply_complete]
  refine (Table.installsWhole_iff hr now _).trans ?_
  rw [Store.table_applyAll, Table.applyAll_append, Table.applyAll_cons] at hns ⊢
  rw [Store.table_applyAll]
  set t := (({} : Store).table key).applyAll before
  have hstart : (t.apply now₀ (.started g)).stagedFor g = t.stagedFor g :=
    Table.stagedFor_congr g (Table.staging_onStarted t now₀ g)
  rcases stagedFor_walk hns with ⟨hall, hst⟩ | ⟨a, u, b, rfl, hu, hb, hst⟩
  · -- no error dropped it: the pages stand behind whatever was staged before
    have hnone : ¬ ∃ u ∈ walk, u.2.drops g = true := by simpa using hall
    rw [hst, hstart, List.append_left_eq_self]
    simp [not_losesPages_of_forall hall, hnone]
  · -- what is staged are the pages after the last drop: all of them if none came before it
    have hex : ∃ v ∈ a ++ u :: b, v.2.drops g = true := ⟨u, by simp, hu⟩
    have hpages : pagesOf g (a ++ u :: b) = pagesOf g a ++ pagesOf g b := by
      rw [pagesOf_append, pagesOf_cons]
      cases hue : u.2 with
      | error k error => simp [pagesOf, hue]
      | _ => simp [hue, Update.drops] at hu
    rw [hst, hpages, List.self_eq_append_left]
    refine ⟨fun hnil => ⟨not_losesPages hnil hb, Or.inr hex⟩, fun h => ?_⟩
    by_contra hne
    exact h.1 ⟨a, u, b, rfl, hu, hne⟩

/-- A walk of two pages beside nothing else installs both of them. -/
theorem complete_installs_two_pages :
    (((({} : Store).applyAll (TableKey.top vmKind)
        ([] ++ (0, .started 5) ::
          [(1, .page 5 [vm "a" "A"] (some 2)), (2, .page 5 [vm "b" "B"] (some 2))])).apply
      (TableKey.top vmKind) 3 (.complete 5)).table (TableKey.top vmKind)).rows =
      index [vm "a" "A", vm "b" "B"] :=
  ((complete_installs_whole_iff (TableKey.top vmKind) []
    [(1, .page 5 [vm "a" "A"] (some 2)), (2, .page 5 [vm "b" "B"] (some 2))] 5 0 3
    (by decide)).2
    ⟨not_losesPages_of_forall (by simp [Update.drops]), Or.inl rfl⟩).2

/-- A refresh of generation 7 that fails between the two pages of walk 5 takes the first of them
along, and the walk completes with the second alone. -/
theorem not_complete_installs_whole :
    ¬ ∀ (key : TableKey) (before walk : List (ℕ × Update)) (g now₀ now : ℕ),
      ((({} : Store).applyAll key (before ++ (now₀, .started g) :: walk)).table key).replaces g
          = true →
        (((({} : Store).applyAll key (before ++ (now₀, .started g) :: walk)).apply key now
          (.complete g)).table key).rows = index (pagesOf g walk) := by
  intro h
  have hrows := h (TableKey.top vmKind) []
    [(1, .page 5 [vm "a" "A"] (some 2)), (2, .error 7 { cause := .unreachable }),
      (3, .page 5 [vm "b" "B"] (some 2))] 5 0 4 (by decide)
  exact absurd (congrArg IndexMap.keys hrows) (by decide)

end Nutsh
