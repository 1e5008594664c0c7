/-
The idle flag of one task.

The flag is one for all tasks of a scheduler, and the task reads it at both ends of its sleep.  Whatever
else the task does leaves the flag as it is; and a pausable task that is paused, with no cycle about to
begin and none asked for, comes to no other cycle by itself.

Main definitions:

* `own` — the events of the task itself, not of the scheduler;
* `Quiet`, `Paused` — no cycle is about to begin; and none will, while the flag is set.

Main results:

* `idle_step` — the task does not touch the flag;
* `paused_step` — a paused task stays paused.
-/
import Nutsh.Scheduler.Forced

set_option relaxedAutoImplicit false
set_option autoImplicit false

namespace Nutsh.Polls

open Prism (PrismError)

/-- Whether a cycle is about to begin. -/
def Point.isHead : Point → Bool
  | .head => true
  | _ => false

namespace Poller

/-- The events of the task itself: the answers, the clock and the wakes. -/
def own : PollerEvent → Bool
  | .refresh | .refreshAll | .setInterval _ | .stop | .setIdle _ => false
  | _ => true

/-- No cycle is about to begin, and no wake that would start one is on its way. -/
def Quiet (s : Poller) : Prop := s.point.isHead = false ∧ ¬ (s.armed = true ∧ s.wake = true)

instance (s : Poller) : Decidable s.Quiet := inferInstanceAs (Decidable (_ ∧ _))

structure Paused (s : Poller) : Prop where
  idle : s.idle = true
  quiet : s.Quiet

variable {instantOf : String → Option ℤ} {sub : Polled} {s s' t : Poller} {a : Attempt} {e : PollerEvent}

/-! ### What a cycle leaves alone -/

/-- The flags the scheduler reaches the task through are as they were, and no cycle is about to begin. -/
structure Within (s t : Poller) : Prop where
  idle : t.idle = s.idle
  armed : t.armed = s.armed
  wake : t.wake = s.wake
  point : t.point.isHead = false

theorem Within.paused (h : Within s t) (hs : s.Paused) : t.Paused := by
  refine ⟨h.idle.trans hs.idle, h.point, ?_⟩
  rw [h.armed, h.wake]
  exact hs.quiet.2

theorem Within.trans (h : Within s t) (h' : Within t s') : Within s s' :=
  ⟨h'.idle.trans h.idle, h'.armed.trans h.armed, h'.wake.trans h.wake, h'.point⟩

theorem within_ended {error : Option PrismError} (hidle : t.idle = s.idle) (harmed : t.armed = s.armed)
    (hwake : t.wake = s.wake) : Within s (t.ended sub error) := by
  obtain heq | heq := @ended_cases sub t error
  · rw [heq]
    exact ⟨hidle, harmed, hwake, rfl⟩
  · rw [heq]
    exact ⟨hidle, harmed, hwake, rfl⟩

theorem within_landed {full : Bool} (hidle : t.idle = s.idle) (harmed : t.armed = s.armed)
    (hwake : t.wake = s.wake) : Within s ((t.land full).ended sub none) := by
  cases full with
  | true => exact within_ended hidle harmed hwake
  | false => exact within_ended hidle harmed hwake

theorem within_startAttempt (hidle : t.idle = s.idle) (harmed : t.armed = s.armed) (hwake : t.wake = s.wake) :
    Within s (t.startAttempt sub a) := by
  obtain ⟨-, heq⟩ | ⟨-, w, -, heq⟩ | ⟨-, heq⟩ := @startAttempt_cases sub t a
  · rw [heq]
    exact ⟨hidle, harmed, hwake, rfl⟩
  · rw [heq]
    exact ⟨hidle, harmed, hwake, rfl⟩
  · rw [heq]
    exact ⟨hidle, harmed, hwake, rfl⟩

theorem within_failed (err : PrismError) : Within s (s.failed sub a err) := by
  rw [failed]
  split
  · exact within_startAttempt rfl rfl rfl
  · exact within_ended rfl rfl rfl

theorem within_walked (w : Paging) (full : Bool) : Within s (s.walked instantOf sub a w full) := by
  rw [walked]
  split
  · exact within_landed rfl rfl rfl
  · exact ⟨rfl, rfl, rfl, rfl⟩
  · exact within_landed rfl rfl rfl

/-- What the task does by itself: a cycle begins at its head, an answer leaves the flags alone, and between
two cycles the flags are read. -/
inductive Moved (sub : Polled) (s : Poller) : Poller → Prop where
  | begun {t : Poller} (hhead : s.point.isHead = true) (h : Within s t) : Moved sub s t
  | answered {t : Poller} (h : Within s t) : Moved sub s t
  | slept (hidle : ¬ (sub.pausable = true ∧ s.idle = true)) : Moved sub s { s with point := .head }
  | woken (harmed : s.armed = true) (hwake : s.wake = true) :
      Moved sub s { s with wake := false, armed := false, point := .head }
  | unarmed (harmed : ¬ s.armed = true) : Moved sub s { s with wake := false, point := .waiting }

theorem moved_step (hown : own e = true) (h : s.step instantOf sub e = some t) : Moved sub s t := by
  cases step_cases h with
  | begin hpoint => exact .begun (by rw [hpoint]; rfl) (within_startAttempt rfl rfl rfl)
  | skip hpoint hdec => exact .answered (within_ended rfl rfl rfl)
  | change hpoint hdec => exact .answered ⟨rfl, rfl, rfl, rfl⟩
  | turn hpoint hmore hstop => exact .answered ⟨rfl, rfl, rfl, rfl⟩
  | walked hpoint hlast => exact .answered (within_walked _ _)
  | calibrated hpoint => exact .answered (within_landed rfl rfl rfl)
  | entity hpoint => exact .answered (within_ended rfl rfl rfl)
  | failed err hpoint => exact .answered (within_failed err)
  | park hpoint hrest => exact .answered ⟨rfl, rfl, rfl, rfl⟩
  | sleep hpoint hrest => exact .answered ⟨rfl, rfl, rfl, rfl⟩
  | doze hpoint hidle => exact .answered ⟨rfl, rfl, rfl, rfl⟩
  | due hpoint hidle => exact .slept hidle
  | wake hpoint hwake harmed => exact .woken harmed hwake
  | stir hpoint hwake harmed => exact .unarmed (ne_true_of_eq_false harmed)
  | respawn | refresh | passed | refreshAll | off | every | stop | setIdle => cases hown

/-- The task does not touch the flag. -/
theorem idle_step (hown : own e = true) (h : s.step instantOf sub e = some t) : t.idle = s.idle := by
  cases moved_step hown h with
  | begun hhead hwithin => exact hwithin.idle
  | answered hwithin => exact hwithin.idle
  | slept hidle => rfl
  | woken harmed hwake => rfl
  | unarmed harmed => rfl

/-- A paused task stays paused. -/
theorem paused_step (hpausable : sub.pausable = true) (hs : s.Paused) (hown : own e = true)
    (h : s.step instantOf sub e = some t) : t.Paused := by
  cases moved_step hown h with
  | begun hhead hwithin =>
      rw [hs.quiet.1] at hhead
      cases hhead
  | answered hwithin => exact hwithin.paused hs
  | slept hidle => exact absurd ⟨hpausable, hs.idle⟩ hidle
  | woken harmed hwake => exact absurd ⟨harmed, hwake⟩ hs.quiet.2
  | unarmed harmed => exact ⟨hs.idle, rfl, fun h => harmed h.1⟩

/-- What the scheduler is called with reaches the flag only where it sets it. -/
theorem idle_called (hown : own e = false) (hidle : ∀ idle, e ≠ .setIdle idle)
    (h : s.step instantOf sub e = some t) : t.idle = s.idle := by
  cases step_cases h with
  | respawn | refresh | passed | refreshAll | off | every | stop => rfl
  | setIdle idle => exact absurd rfl (hidle idle)
  | begin | skip | change | turn | walked | calibrated | entity | failed => cases hown
  | park | sleep | doze | due | wake | stir => cases hown

end Poller

end Nutsh.Polls
