/-
The one-row probe: whether a table changed since its last walk.

A probe asks for the newest row of a list and for the total.  A list is walked again unless both are what
they were; what they were is the baseline, which a cycle that probes and walks leaves behind.  The first
such cycle calibrates: it takes a baseline only of a Prism Central that orders the rows as it is asked to.

Main definitions:

* `ProbeState`, `ProbeAnswer` — the baseline, and the answer of one probe;
* `probeDecision` — whether a cycle skips its walk;
* `calibrate` — what a cycle that probed and walked leaves behind.

Main results:

* `probeDecision_eq_skip` — a walk is skipped exactly when the answer agrees with the baseline;
* `calibrate_eq_armed` — a baseline is the answer, or what it was.
-/
import Nutsh.Store

set_option relaxedAutoImplicit false
set_option autoImplicit false

namespace Nutsh.Polls

/-- The skips in a row after which a cycle walks whatever the probe says. -/
def MAX_SKIPS : ℕ := 9

/-- What is known of a table between two cycles. -/
inductive ProbeState where
  /-- Not calibrated: the next cycle walks and probes. -/
  | unarmed
  /-- The probe can decide nothing here. -/
  | disarmed
  | armed (sortValue extId : String) (total skips : ℕ)
  deriving DecidableEq, Repr

/-- One row and the total. -/
structure ProbeAnswer where
  sortValue : Option String
  /-- `none` when the list was empty. -/
  extId : Option String
  total : Option ℕ
  deriving DecidableEq, Repr

/-- The text a row carries under the field the probe is ordered by. -/
def sortValueOf (field : String) (e : Entity) : Option String := (e.raw.get field).bind Json.asStr

/-- The answer read off a page of one row. -/
def ProbeAnswer.of (field : String) (entities : List Entity) (total : Option ℕ) : ProbeAnswer :=
  { sortValue := entities.head?.bind (sortValueOf field), extId := entities.head?.map Entity.extId, total }

inductive ProbeDecision where
  | skip
  | walk
  deriving DecidableEq, Repr

/-- Whether a cycle walks: it is asked to, there is no baseline, it has skipped often enough, or the answer
differs from the baseline or is not one. -/
def probeDecision (state : ProbeState) (answer : ProbeAnswer) (dirty : Bool) : ProbeDecision :=
  if dirty then .walk
  else
    match state with
    | .armed sortValue extId total skips =>
        if MAX_SKIPS ≤ skips then .walk
        else
          match answer.sortValue, answer.extId, answer.total with
          | some seen, some seenId, some nowTotal =>
              if seen = sortValue ∧ seenId = extId ∧ nowTotal = total then .skip else .walk
          | _, _, _ => .walk
    | _ => .walk

/-- What a walk saw. -/
structure Walk where
  pages : ℕ := 0
  /-- The newest value under the field of the probe, when the walk calibrates. -/
  maxSort : Option String := none
  sawRows : Bool := false
  deriving DecidableEq, Repr

/-- What a cycle that probed and walked leaves behind; `walk` is given in the one cycle that calibrates, and
`instantOf` reads a timestamp. -/
def calibrate (instantOf : String → Option ℤ) (state : ProbeState) (answer : ProbeAnswer)
    (walk : Option Walk) : ProbeState :=
  if state = .disarmed then .disarmed
  else if answer.extId = none ∧ answer.sortValue = none then state
  else
    match answer.sortValue, answer.extId, answer.total with
    | some sortValue, some extId, some total =>
        let probed := instantOf sortValue
        if state = .unarmed ∧ (probed = none ∨ walk.any fun w => w.maxSort.isNone && w.sawRows) then .disarmed
        else
          match walk.bind Walk.maxSort with
          | none => .armed sortValue extId total 0
          | some max =>
              match probed, instantOf max with
              | some probed, some newest =>
                  if newest ≤ probed then .armed sortValue extId total 0 else .disarmed
              | _, _ => .disarmed
    | _, _, _ => .disarmed

/-- The baseline after one more skip. -/
def ProbeState.skipped : ProbeState → ProbeState
  | .armed sortValue extId total skips => .armed sortValue extId total (skips + 1)
  | s => s

def ProbeState.isArmed : ProbeState → Bool
  | .armed .. => true
  | _ => false

/-! ### Decisions and baselines -/

variable {instantOf : String → Option ℤ} {state : ProbeState} {answer : ProbeAnswer} {dirty : Bool}

/-- An answer agrees with a baseline: it is its row with its value, and its total. -/
def Agrees (state : ProbeState) (answer : ProbeAnswer) : Prop :=
  ∃ sortValue extId total skips, state = .armed sortValue extId total skips ∧
    answer = ⟨some sortValue, some extId, some total⟩ ∧ skips < MAX_SKIPS

/-- A walk is skipped exactly when none is asked for and the answer agrees with the baseline. -/
theorem probeDecision_eq_skip : probeDecision state answer dirty = .skip ↔ dirty = false ∧ Agrees state answer := by
  constructor
  · intro h
    simp only [probeDecision] at h
    split at h
    · cases h
    · next hdirty =>
        refine ⟨Bool.eq_false_iff.2 hdirty, ?_⟩
        split at h
        · next sortValue extId total skips =>
            split at h
            · cases h
            · next hskips =>
                split at h
                · next seen seenId nowTotal hseen hid htotal =>
                    split at h
                    · next heq =>
                        obtain ⟨rfl, rfl, rfl⟩ := heq
                        obtain ⟨v, i, n⟩ := answer
                        simp only at hseen hid htotal
                        exact ⟨_, _, _, _, rfl, by rw [hseen, hid, htotal], Nat.lt_of_not_le hskips⟩
                    · cases h
                · cases h
        · cases h
  · rintro ⟨rfl, sortValue, extId, total, skips, rfl, rfl, hskips⟩
    have hnot : ¬ MAX_SKIPS ≤ skips := by omega
    simp [probeDecision, hnot]

@[simp] theorem isArmed_skipped (state : ProbeState) : state.skipped.isArmed = state.isArmed := by
  cases state <;> rfl

/-- A baseline left behind is the answer, or the one there was when the list was empty. -/
theorem calibrate_eq_armed {walk : Option Walk} {sortValue extId : String} {total skips : ℕ}
    (h : calibrate instantOf state answer walk = .armed sortValue extId total skips) :
    answer = ⟨some sortValue, some extId, some total⟩ ∧ skips = 0 ∨
      answer.extId = none ∧ answer.sortValue = none ∧ state = .armed sortValue extId total skips := by
  simp only [calibrate] at h
  split at h
  · cases h
  · split at h
    · next hempty => exact .inr ⟨hempty.1, hempty.2, h⟩
    · refine .inl ?_
      split at h
      · next v i n hv hi hn =>
          have harmed : ProbeState.armed v i n 0 = .armed sortValue extId total skips := by
            split at h
            · cases h
            · split at h
              · exact h
              · split at h
                · split at h
                  · exact h
                  · cases h
                · cases h
          obtain ⟨rfl, rfl, rfl, rfl⟩ := ProbeState.armed.inj harmed
          obtain ⟨v', i', n'⟩ := answer
          simp only at hv hi hn
          exact ⟨by rw [hv, hi, hn], rfl⟩
      · cases h

end Nutsh.Polls
