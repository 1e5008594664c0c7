/-
Runs of a step function.

A system is a function `step : σ → ε → Option σ`: the state an event leads to, `none` where the
event is not enabled.  This file fixes what a run of such a system is and packages the two
inductions the developments over it use: an invariant kept by every step holds at the end of every
run, and so does an invariant kept only by the steps that meet a side condition, for the runs whose
steps all meet it.

Main definitions:

* `Run.exec` — the state a list of events leads to;
* `Run.Along` — every step of a run meets a condition on the state before it and the event.

Main results:

* `Run.exec_inv`, `Run.exists_exec` — the invariant rule, and a run where the invariant enables every event;
* `Run.exec_inv_along`, `Run.Along.imp` — the rules for runs whose steps meet a condition: an
  invariant holds at the end, and what it gives of a step holds of every step;
* `Run.along_iff` — two conditions that agree where an invariant holds agree along every run;
* `Run.exec_append`, `Run.along_append` — runs compose.
-/
import Mathlib.Data.List.Basic
import Mathlib.Data.Option.Basic

set_option relaxedAutoImplicit false
set_option autoImplicit false

namespace Run

variable {σ ε : Type*} {step : σ → ε → Option σ}

/-- The state the events lead to, `none` as soon as one of them is not enabled. -/
def exec (step : σ → ε → Option σ) : σ → List ε → Option σ
  | s, [] => some s
  | s, e :: es => (step s e).bind fun t => exec step t es

@[simp] theorem exec_nil (s : σ) : exec step s [] = some s := rfl

theorem exec_cons (s : σ) (e : ε) (es : List ε) :
    exec step s (e :: es) = (step s e).bind fun t => exec step t es := rfl

/-- A run of a nonempty list takes its first step and goes on from there. -/
theorem exec_cons_eq_some {s t : σ} {e : ε} {es : List ε} :
    exec step s (e :: es) = some t ↔ ∃ u, step s e = some u ∧ exec step u es = some t := by
  simp [exec_cons, Option.bind_eq_some_iff]

/-- A run over a concatenation is the one run after the other. -/
theorem exec_append (s : σ) (es fs : List ε) :
    exec step s (es ++ fs) = (exec step s es).bind fun t => exec step t fs := by
  induction es generalizing s with
  | nil => rfl
  | cons e es ih =>
      rw [List.cons_append, exec_cons, exec_cons, Option.bind_assoc]
      exact congrArg _ (funext fun t => ih t)

theorem exec_append_eq_some {s t : σ} {es fs : List ε} :
    exec step s (es ++ fs) = some t ↔
      ∃ u, exec step s es = some u ∧ exec step u fs = some t := by
  simp [exec_append, Option.bind_eq_some_iff]

/-- **The invariant rule.**  What every step keeps holds at the end of every run. -/
theorem exec_inv {I : σ → Prop} (hstep : ∀ s e t, I s → step s e = some t → I t)
    {s t : σ} {es : List ε} (hs : I s) (hrun : exec step s es = some t) : I t := by
  induction es generalizing s with
  | nil => exact Option.some.inj hrun ▸ hs
  | cons e es ih =>
      obtain ⟨u, hu, hrun⟩ := exec_cons_eq_some.1 hrun
      exact ih (hstep s e u hs hu) hrun

/-- A system in which every event is enabled where an invariant holds, and keeps it, runs on. -/
theorem exists_exec {I : σ → Prop} (hstep : ∀ s e, I s → ∃ t, step s e = some t ∧ I t) {s : σ} (hs : I s)
    (es : List ε) : ∃ t, exec step s es = some t ∧ I t := by
  induction es generalizing s with
  | nil => exact ⟨s, rfl, hs⟩
  | cons e es ih =>
      obtain ⟨u, hu, hI⟩ := hstep s e hs
      obtain ⟨t, ht, hI⟩ := ih hI
      exact ⟨t, exec_cons_eq_some.2 ⟨u, hu, ht⟩, hI⟩

/-- Every step of the run of `es` from `s` meets `P`, a condition on the state before the step and
the event. -/
def Along (step : σ → ε → Option σ) (P : σ → ε → Prop) : σ → List ε → Prop
  | _, [] => True
  | s, e :: es => P s e ∧ ∀ t, step s e = some t → Along step P t es

variable {P : σ → ε → Prop}

@[simp] theorem along_nil (s : σ) : Along step P s [] := trivial

theorem along_cons {s : σ} {e : ε} {es : List ε} :
    Along step P s (e :: es) ↔ P s e ∧ ∀ t, step s e = some t → Along step P t es := Iff.rfl

/-- A condition along a run that takes its first step to `t` is one on that step and one from `t`
on. -/
theorem Along.cons {s t : σ} {e : ε} {es : List ε} (hP : P s e) (h : step s e = some t)
    (ht : Along step P t es) : Along step P s (e :: es) :=
  ⟨hP, fun u hu => by
    rw [h, Option.some.injEq] at hu
    exact hu ▸ ht⟩

instance decidableAlong [∀ s e, Decidable (P s e)] :
    (s : σ) → (es : List ε) → Decidable (Along step P s es)
  | _, [] => isTrue trivial
  | s, e :: es =>
      have : DecidablePred fun t => Along step P t es := fun t => decidableAlong t es
      decidable_of_iff (P s e ∧ ∀ t ∈ step s e, Along step P t es) Iff.rfl

/-- A run meets a condition along a concatenation exactly when it meets it along the first part
and, from where that part ends, along the second. -/
theorem along_append {s : σ} {es fs : List ε} :
    Along step P s (es ++ fs) ↔
      Along step P s es ∧ ∀ t, exec step s es = some t → Along step P t fs := by
  induction es generalizing s with
  | nil => simp
  | cons e es ih =>
      simp only [List.cons_append, along_cons, ih, exec_cons_eq_some]
      constructor
      · rintro ⟨hP, h⟩
        exact ⟨⟨hP, fun t ht => (h t ht).1⟩, fun t ⟨u, hu, ht⟩ => (h u hu).2 t ht⟩
      · rintro ⟨⟨hP, h⟩, h'⟩
        exact ⟨hP, fun u hu => ⟨h u hu, fun t ht => h' t ⟨u, hu, ht⟩⟩⟩

/-- **The invariant rule for guarded runs.**  What is kept by the steps that meet `P` holds at the
end of every run whose steps all meet `P`. -/
theorem exec_inv_along {I : σ → Prop} (hstep : ∀ s e t, I s → P s e → step s e = some t → I t)
    {s t : σ} {es : List ε} (hs : I s) (hP : Along step P s es)
    (hrun : exec step s es = some t) : I t := by
  induction es generalizing s with
  | nil => exact Option.some.inj hrun ▸ hs
  | cons e es ih =>
      obtain ⟨u, hu, hrun⟩ := exec_cons_eq_some.1 hrun
      exact ih (hstep s e u hs hP.1 hu) (hP.2 u hu) hrun

/-- What an invariant and the condition of a guarded run give of each step holds along the run. -/
theorem Along.imp {Q : σ → ε → Prop} {I : σ → Prop}
    (hstep : ∀ s e t, I s → P s e → step s e = some t → I t) (hQ : ∀ s e, I s → P s e → Q s e)
    {s : σ} {es : List ε} (hs : I s) (hP : Along step P s es) : Along step Q s es := by
  induction es generalizing s with
  | nil => trivial
  | cons e es ih => exact ⟨hQ s e hs hP.1, fun t ht => ih (hstep s e t hs hP.1 ht) (hP.2 t ht)⟩

/-- Two conditions that agree on the steps from where an invariant holds, which the steps that meet one
of them keep, agree along every run. -/
theorem along_iff {Q : σ → ε → Prop} {I : σ → Prop}
    (hiff : ∀ s e t, I s → step s e = some t → (Q s e ↔ P s e))
    (hstep : ∀ s e t, I s → Q s e → step s e = some t → I t) {s t : σ} {es : List ε} (hs : I s)
    (hrun : exec step s es = some t) : Along step Q s es ↔ Along step P s es := by
  induction es generalizing s with
  | nil => exact Iff.rfl
  | cons e es ih =>
      obtain ⟨u, hu, hrun⟩ := exec_cons_eq_some.1 hrun
      rw [along_cons, along_cons, hu, hiff s e u hs hu]
      refine and_congr_right fun hP => ?_
      have hQ : Q s e := (hiff s e u hs hu).2 hP
      simp only [Option.some.injEq, forall_eq']
      exact ih (hstep s e u hs hQ hu) hrun

end Run
