/-
The roles of the account, whoever resolves them.

Any number of tasks share the cell of the roles.  One of them is granted a claim and goes to ask; until its
answer arrives the roles may be invalidated, restored out of the cache and claimed by another.  An answer
counts for the generation it was claimed under and for no other.

Main definitions:

* `Resolving` — the cell together with the claims that were granted;
* `Resolving.Op`, `Resolving.step` — what a task does with the cell;
* `Resolving.Origin` — where the roles in the cell come from;
* `Resolving.Sound` — what holds after any operations.

Main results:

* `Resolving.coherent_step`, `Resolving.origin_step` — an operation keeps the account of the claims and of
  where the roles come from;
* `Resolving.sound` — the cell holds nothing, what was restored before anyone asked, or the answer of the
  one who asked.
-/
import Mathlib.Data.List.Induction
import Nutsh.Guardrails
import Nutsh.Lib.Run

set_option relaxedAutoImplicit false
set_option autoImplicit false

namespace Nutsh

open Run (exec)

/-- The cell and the claims that were granted, each as the task and the generation it was given. -/
structure Resolving where
  cell : CanICell := {}
  granted : List (ℕ × ℕ) := []
  deriving DecidableEq, Repr

namespace Resolving

/-- What a task does with the cell. -/
inductive Op where
  | claim (task : ℕ)
  /-- The answer of a task, under the generation it was given. -/
  | set (task generation : ℕ) (index : CanIndex)
  | restore (index : CanIndex)
  | invalidate
  deriving DecidableEq, Repr

/-- One operation; only who was granted a claim has an answer. -/
def step (s : Resolving) : Op → Option Resolving
  | .claim task => some
      { cell := s.cell.claim.1, granted := s.cell.claim.2.toList.map (task, ·) ++ s.granted }
  | .set task generation index =>
      if (task, generation) ∈ s.granted then some { s with cell := s.cell.set generation index } else none
  | .restore index => some { s with cell := s.cell.restore index }
  | .invalidate => some { s with cell := s.cell.invalidate }

variable {s t u : Resolving} {o : Op} {os xs ys : List Op} {task generation : ℕ} {index : CanIndex}

/-! ### One operation -/

theorem step_set_eq_some :
    step s (.set task generation index) = some t ↔
      (task, generation) ∈ s.granted ∧ t = { s with cell := s.cell.set generation index } := by
  rw [step]
  split
  case isTrue hgranted => simp [hgranted, eq_comm]
  case isFalse hgranted => simp [hgranted]

/-- A claim is granted to the first who asks, under the generation of the moment. -/
theorem step_claim (hstep : step s (.claim task) = some t) :
    (s.cell.claimed = true ∧ t = s) ∨
      (s.cell.claimed = false ∧
        t = { cell := { s.cell with claimed := true },
              granted := (task, s.cell.generation) :: s.granted }) := by
  rw [step, Option.some.injEq] at hstep
  subst hstep
  cases hclaimed : s.cell.claimed with
  | true => exact .inl ⟨rfl, by simp [CanICell.claim, hclaimed]⟩
  | false => exact .inr ⟨rfl, by simp [CanICell.claim, hclaimed]⟩

/-- No operation takes a claim back. -/
theorem granted_subset (hstep : step s o = some t) : s.granted ⊆ t.granted := by
  cases o with
  | claim task =>
      rcases step_claim hstep with ⟨-, rfl⟩ | ⟨-, rfl⟩
      · exact fun _ hx => hx
      · exact List.subset_cons_self _ _
  | set task generation index =>
      obtain ⟨-, rfl⟩ := step_set_eq_some.1 hstep
      exact fun _ hx => hx
  | restore index =>
      cases hstep
      exact fun _ hx => hx
  | invalidate =>
      cases hstep
      exact fun _ hx => hx

@[simp] theorem generation_set (c : CanICell) :
    (c.set generation index).generation = c.generation := by
  rw [CanICell.set]
  split <;> rfl

@[simp] theorem claimed_set (c : CanICell) : (c.set generation index).claimed = c.claimed := by
  rw [CanICell.set]
  split <;> rfl

@[simp] theorem generation_restore (c : CanICell) : (c.restore index).generation = c.generation := by
  rw [CanICell.restore]
  split <;> rfl

@[simp] theorem claimed_restore (c : CanICell) : (c.restore index).claimed = c.claimed := by
  rw [CanICell.restore]
  split <;> rfl

/-- Only an invalidation opens a generation. -/
theorem generation_step (hstep : step s o = some t) :
    (o = .invalidate ∧ t.cell = { generation := s.cell.generation + 1 }) ∨
      (o ≠ .invalidate ∧ t.cell.generation = s.cell.generation) := by
  cases o with
  | claim task =>
      rcases step_claim hstep with ⟨-, rfl⟩ | ⟨-, rfl⟩
      · exact .inr ⟨nofun, rfl⟩
      · exact .inr ⟨nofun, rfl⟩
  | set task generation index =>
      obtain ⟨-, rfl⟩ := step_set_eq_some.1 hstep
      exact .inr ⟨nofun, generation_set _⟩
  | restore index =>
      cases hstep
      exact .inr ⟨nofun, generation_restore _⟩
  | invalidate =>
      cases hstep
      exact .inl ⟨rfl, rfl⟩

/-! ### The account of the claims -/

/-- The claims that were granted, against the state of the cell. -/
structure Coherent (s : Resolving) : Prop where
  once : (s.granted.map Prod.snd).Nodup
  behind : ∀ x ∈ s.granted, x.2 ≤ s.cell.generation
  claimed : s.cell.claimed = true ↔ ∃ task, (task, s.cell.generation) ∈ s.granted

theorem coherent_init : Coherent {} := ⟨List.nodup_nil, nofun, by simp⟩

/-- **One claim a generation.**  An operation keeps the account of the claims. -/
theorem coherent_step (h : Coherent s) (hstep : step s o = some t) : Coherent t := by
  cases o with
  | claim task =>
      rcases step_claim hstep with ⟨-, rfl⟩ | ⟨hfree, rfl⟩
      · exact h
      · have hnone : ∀ who, (who, s.cell.generation) ∉ s.granted := by
          intro who hwho
          have := h.claimed.2 ⟨who, hwho⟩
          simp [hfree] at this
        refine ⟨?_, ?_, ?_⟩
        · simpa [h.once] using hnone
        · intro x hx
          rcases List.mem_cons.1 hx with rfl | hx
          · exact le_rfl
          · exact h.behind x hx
        · exact ⟨fun _ => ⟨task, List.mem_cons_self⟩, fun _ => rfl⟩
  | set task generation index =>
      obtain ⟨-, rfl⟩ := step_set_eq_some.1 hstep
      exact ⟨h.once, by simpa using h.behind, by simpa using h.claimed⟩
  | restore index =>
      cases hstep
      exact ⟨h.once, by simpa using h.behind, by simpa using h.claimed⟩
  | invalidate =>
      cases hstep
      refine ⟨h.once, ?_, ?_⟩
      · intro x hx
        have := h.behind x hx
        show x.2 ≤ s.cell.generation + 1
        omega
      · -- Nobody was given the generation that is opened.
        refine ⟨nofun, ?_⟩
        rintro ⟨who, hwho⟩
        have hle : s.cell.generation + 1 ≤ s.cell.generation := h.behind _ hwho
        omega

theorem coherent_exec (h : Coherent s) (hrun : exec step s os = some t) : Coherent t :=
  Run.exec_inv (fun _ _ _ hs hstep => coherent_step hs hstep) h hrun

/-- Generations only go up, and an invalidation on the way makes them. -/
theorem generation_exec (hrun : exec step s os = some t) :
    s.cell.generation ≤ t.cell.generation ∧
      (.invalidate ∈ os → s.cell.generation < t.cell.generation) := by
  induction os generalizing s with
  | nil =>
      cases hrun
      exact ⟨le_rfl, nofun⟩
  | cons o os ih =>
      obtain ⟨u, hstep, hrun⟩ := Run.exec_cons_eq_some.1 hrun
      obtain ⟨hle, hlt⟩ := ih hrun
      rcases generation_step hstep with ⟨rfl, hu⟩ | ⟨hne, hu⟩
      · have hup : u.cell.generation = s.cell.generation + 1 := by rw [hu]
        exact ⟨by omega, fun _ => by omega⟩
      · rw [hu] at hle hlt
        exact ⟨hle, fun hmem => hlt ((List.mem_cons.1 hmem).resolve_left (Ne.symm hne))⟩

theorem granted_exec (hrun : exec step s os = some t) : s.granted ⊆ t.granted :=
  Run.exec_inv (I := fun v => s.granted ⊆ v.granted)
    (fun _ _ _ hs hstep => List.Subset.trans hs (granted_subset hstep)) (List.Subset.refl _) hrun

/-! ### Where the roles come from -/

/-- Among the operations the roles were restored in the current generation, before anyone claimed it. -/
def Restored (os : List Op) (s : Resolving) : Prop :=
  ∃ xs ys u, os = xs ++ .restore s.cell.index :: ys ∧ exec step {} xs = some u ∧
    u.cell.generation = s.cell.generation ∧ ∀ task, (task, s.cell.generation) ∉ u.granted

/-- Among the operations somebody who holds the claim of the current generation gave the answer. -/
def Answered (os : List Op) (s : Resolving) (index : CanIndex) : Prop :=
  ∃ xs ys u task, os = xs ++ .set task s.cell.generation index :: ys ∧ exec step {} xs = some u ∧
    u.cell.generation = s.cell.generation ∧ (task, s.cell.generation) ∈ s.granted

/-- Where the roles in the cell come from. -/
def Origin (os : List Op) (s : Resolving) : Prop :=
  s.cell.index = {} ∨ Restored os s ∨ Answered os s s.cell.index

/-- An operation that leaves the roles and the generation leaves where they come from. -/
theorem Origin.mono (h : Origin os s) (hindex : t.cell.index = s.cell.index)
    (hgeneration : t.cell.generation = s.cell.generation) (hgranted : s.granted ⊆ t.granted) (o : Op) :
    Origin (os ++ [o]) t := by
  rw [Origin, Restored, Answered, hindex, hgeneration]
  rcases h with hempty | ⟨xs, ys, u, rfl, hu, hgen, hnone⟩ | ⟨xs, ys, u, task, rfl, hu, hgen, htask⟩
  · exact .inl hempty
  · exact .inr (.inl ⟨xs, ys ++ [o], u, by simp, hu, hgen, hnone⟩)
  · exact .inr (.inr ⟨xs, ys ++ [o], u, task, by simp, hu, hgen, hgranted htask⟩)

theorem origin_step (hrun : exec step {} os = some s) (h : Origin os s) (hstep : step s o = some t) :
    Origin (os ++ [o]) t := by
  have hcoherent : Coherent s := coherent_exec coherent_init hrun
  cases o with
  | claim task =>
      rcases step_claim hstep with ⟨-, rfl⟩ | ⟨-, rfl⟩
      · exact h.mono rfl rfl (List.Subset.refl _) _
      · refine h.mono ?_ ?_ ?_ _
        · rfl
        · rfl
        · exact List.subset_cons_self _ _
  | set task generation index =>
      obtain ⟨hgranted, rfl⟩ := step_set_eq_some.1 hstep
      by_cases hgen : s.cell.generation = generation
      · subst hgen
        refine .inr (.inr ⟨os, [], s, task, ?_, hrun, ?_, ?_⟩)
        · simp [CanICell.set]
        · exact (generation_set s.cell).symm
        · rwa [generation_set]
      · have hsame : s.cell.set generation index = s.cell := if_neg hgen
        rw [hsame]
        exact h.mono rfl rfl (List.Subset.refl _) _
  | restore index =>
      cases hstep
      cases hclaimed : s.cell.claimed with
      | true =>
          have hsame : s.cell.restore index = s.cell := if_pos hclaimed
          rw [hsame]
          exact h.mono rfl rfl (List.Subset.refl _) _
      | false =>
          have hpaint : s.cell.restore index = { s.cell with index } := if_neg (by simp [hclaimed])
          rw [hpaint]
          refine .inr (.inl ⟨os, [], s, rfl, hrun, rfl, ?_⟩)
          intro who hwho
          have := hcoherent.claimed.2 ⟨who, hwho⟩
          simp [hclaimed] at this
  | invalidate =>
      cases hstep
      exact .inl rfl

theorem origin (hrun : exec step {} os = some s) : Origin os s := by
  induction os using List.reverseRecOn generalizing s with
  | nil =>
      cases hrun
      exact .inl rfl
  | append_singleton os o ih =>
      obtain ⟨u, hu, hlast⟩ := Run.exec_append_eq_some.1 hrun
      obtain ⟨v, hstep, hv⟩ := Run.exec_cons_eq_some.1 hlast
      cases hv
      exact origin_step hu (ih hu) hstep

/-! ### What holds after any operations -/

/-- What holds of the cell after the operations. -/
structure Sound (os : List Op) (s : Resolving) : Prop where
  /-- One claim is granted a generation. -/
  once : (s.granted.map Prod.snd).Nodup
  origin : Origin os s
  /-- An answer for a generation that was invalidated since it was claimed changes nothing. -/
  late : ∀ xs ys u, os = xs ++ ys → exec step {} xs = some u → .invalidate ∈ ys →
    ∀ task generation, (task, generation) ∈ u.granted →
      ∀ index, step s (.set task generation index) = some s
  /-- A restore behind the answer of the current generation changes nothing. -/
  behind : ∀ index, Answered os s index → ∀ cached, step s (.restore cached) = some s

/-- **The roles are those of whoever was sent for them.**  Whatever tasks claim, answer, invalidate and
restore, in whatever order. -/
theorem sound (hrun : exec step {} os = some s) : Sound os s := by
  have hcoherent : Coherent s := coherent_exec coherent_init hrun
  refine ⟨hcoherent.once, origin hrun, ?_, ?_⟩
  · rintro xs ys u rfl hu hinvalid task generation hgranted index
    obtain ⟨v, hv, hrest⟩ := Run.exec_append_eq_some.1 hrun
    obtain rfl : v = u := Option.some.inj (hv.symm.trans hu)
    -- What was granted before the invalidation is of an earlier generation.
    have hle : generation ≤ v.cell.generation := (coherent_exec coherent_init hu).behind _ hgranted
    have hlt : v.cell.generation < s.cell.generation := (generation_exec hrest).2 hinvalid
    have hsame : s.cell.set generation index = s.cell := if_neg (by omega)
    exact step_set_eq_some.2 ⟨granted_exec hrest hgranted, by rw [hsame]⟩
  · rintro index ⟨xs, ys, u, task, -, -, -, htask⟩ cached
    have hclaimed : s.cell.claimed = true := hcoherent.claimed.2 ⟨task, htask⟩
    have hsame : s.cell.restore cached = s.cell := if_pos hclaimed
    rw [step, hsame]

/-- A claim, an invalidation, a restore, the claim of another task, the late answer and the current one. -/
theorem sound_two :
    Sound [.claim 1, .invalidate, .restore { roles := some ["Viewer"] }, .claim 2,
        .set 1 0 { roles := some ["Admin"] }, .set 2 1 { roles := some ["Operator"] }]
      { cell := { index := { roles := some ["Operator"] }, claimed := true, generation := 1 },
        granted := [(2, 1), (1, 0)] } :=
  sound (by decide)

end Resolving

end Nutsh
