/-
Registers written under a condition.

A register holds a value under a tag, and every write gives it another tag: one that was never used, or
the tag of an earlier version together with its value.  So a tag stands for one value, which is the
invariant the structure carries.  A conditional write names a tag and is taken only when that is the tag
of the moment; whoever read the value under it earlier has then read the value that is replaced.

Main definitions:

* `Versioned` — a register with every version it had;
* `Versioned.write`, `Versioned.putIf` — a write, and one under a condition.

Main results:

* `Versioned.putIf_replaces` — a conditional write taken replaces the value read under its tag;
* `Versioned.mem_versions_of_write` — a write forgets no version.
-/
import Mathlib.Data.List.Basic

set_option relaxedAutoImplicit false
set_option autoImplicit false

/-- A register of values under tags, the version of the moment and those before it. -/
structure Versioned (τ σ : Type*) where
  current : τ × σ
  past : List (τ × σ) := []
  /-- A tag stands for one value. -/
  strong : ∀ u ∈ current :: past, ∀ v ∈ current :: past, u.1 = v.1 → u.2 = v.2

/-- What a write makes the version of the moment: a new one, or one there was. -/
inductive Written (τ σ : Type*) where
  | fresh (v : τ × σ)
  | again (n : ℕ)

namespace Versioned

variable {τ σ : Type*}

/-- Every version, the newest first. -/
def versions (r : Versioned τ σ) : List (τ × σ) := r.current :: r.past

/-- A register as it is first written. -/
def new (v : τ × σ) : Versioned τ σ where
  current := v
  strong := by
    intro u hu w hw _
    rw [List.mem_singleton.1 hu, List.mem_singleton.1 hw]

/-- A version that agrees with every one there was can follow them. -/
def follow (r : Versioned τ σ) (v : τ × σ) (h : ∀ u ∈ r.versions, u.1 = v.1 → u.2 = v.2) :
    Versioned τ σ where
  current := v
  past := r.versions
  strong := by
    intro u hu w hw htag
    rcases List.mem_cons.1 hu with hu | hu
    · rcases List.mem_cons.1 hw with hw | hw
      · rw [hu, hw]
      · rw [hu] at htag ⊢
        exact (h w hw htag.symm).symm
    · rcases List.mem_cons.1 hw with hw | hw
      · rw [hw] at htag ⊢
        exact h u hu htag
      · exact r.strong u hu w hw htag

theorem mem_current (r : Versioned τ σ) : r.current ∈ r.versions := List.mem_cons_self

variable [DecidableEq τ]

/-- A write, which always changes the tag. -/
def write (r : Versioned τ σ) : Written τ σ → Option (Versioned τ σ)
  | .fresh v =>
      if h : ∀ u ∈ r.versions, u.1 ≠ v.1 then
        some (r.follow v fun u hu htag => absurd htag (h u hu))
      else none
  | .again n =>
      if h : n < r.versions.length then
        if r.versions[n].1 = r.current.1 then none
        else
          some (r.follow r.versions[n] fun u hu htag => r.strong u hu _ (List.getElem_mem h) htag)
      else none

/-- A write under the condition that a tag is that of the moment. -/
def putIf (r : Versioned τ σ) (tag : Option τ) (w : Written τ σ) : Option (Versioned τ σ) :=
  if tag = some r.current.1 then r.write w else none

variable {r r' : Versioned τ σ} {tag : Option τ} {w : Written τ σ} {v : τ × σ}

/-- A write forgets no version. -/
theorem mem_versions_of_write (h : r.write w = some r') (hv : v ∈ r.versions) : v ∈ r'.versions := by
  have hfollow : ∃ u hu, r' = r.follow u hu := by
    cases w with
    | fresh u =>
        rw [write] at h
        split at h
        · rename_i hu
          exact ⟨u, _, (Option.some.inj h).symm⟩
        · cases h
    | again n =>
        rw [write] at h
        split at h
        · split at h
          · cases h
          · exact ⟨_, _, (Option.some.inj h).symm⟩
        · cases h
  obtain ⟨u, hu, rfl⟩ := hfollow
  exact List.mem_cons_of_mem _ hv

/-- A conditional write that is taken is a write under the tag of the moment. -/
theorem putIf_eq_some (h : r.putIf tag w = some r') :
    tag = some r.current.1 ∧ r.write w = some r' := by
  unfold putIf at h
  split at h
  · rename_i htag
    exact ⟨htag, h⟩
  · cases h

/-- **A conditional write replaces what was read**: the value under its tag, whenever that was read,
is the one the write replaces. -/
theorem putIf_replaces (h : r.putIf tag w = some r') (hv : v ∈ r.versions) (htag : tag = some v.1) :
    r.current.2 = v.2 := by
  have hcurrent := (putIf_eq_some h).1
  have hsame : r.current.1 = v.1 := Option.some.inj (hcurrent.symm.trans htag)
  exact r.strong r.current (mem_current r) v hv hsame

end Versioned
