/-
A stop that holds.

A stop is a flag.  The walk reads it after a page, and the task where it is about to wait; a sleep that has
begun, a cycle that is about to begin and a probe that is in flight do not read it, and neither does the
wake of all subscriptions, which arms a stopped one like any other.  So a stop holds, short of a refresh or
another interval, exactly when it finds a manual subscription with nothing asked for, waiting for a wake or
with the last request of its cycle in flight.

Main definitions:

* `Silent` — after a stop no request goes out but the one in flight, whatever comes but a restart;
* `Settled` — the states that a stop holds in.

Main results:

* `settled_step` — a stopped task that is settled stays so, and sends nothing;
* `silent_iff` — a stop holds exactly in the settled states.
-/
import Nutsh.Scheduler.Forced

set_option relaxedAutoImplicit false
set_option autoImplicit false

namespace Nutsh.Polls

open Prism (PrismError)

namespace Poller

/-- What starts a stopped subscription again: a refresh of it, or an interval set. -/
def restarts : PollerEvent → Bool
  | .refresh | .setInterval _ => true
  | _ => false

/-- Once stopped, the task sends no request but the one that is in flight, and lands no walk that was cut
short but the one it is in, until it is started again. -/
def Silent (instantOf : String → Option ℤ) (sub : Polled) (s : Poller) : Prop :=
  ∀ (es : List PollerEvent) (t : Poller), (∀ e ∈ es, restarts e = false) →
    Run.exec (step instantOf sub) s (.stop :: es) = some t →
      t.requests = s.requests ∧ ∀ n ∈ t.partials, n ∈ s.partials ∨ n = s.cycles

/-- Nothing is asked for, and no wake of all subscriptions reaches this one. -/
def Unasked (s : Poller) : Prop := s.interval = 0 ∧ ¬ (s.armed = true ∧ s.wake = true)

/-- A 404 on the request in flight is not asked once more. -/
def Final (sub : Polled) (a : Attempt) : Prop := a.second = true ∨ isEndpointList sub = false

/-- The states that a stop holds in. -/
def Settled (sub : Polled) (s : Poller) : Prop :=
  match s.point with
  | .head | .sleeping | .probing _ => False
  | .waiting | .parked => Unasked s
  | .fetching a | .calibrating a _ _ => Final sub a ∧ (sub.once = true ∨ Unasked s)
  | .walking a w => (∀ field, w.purpose ≠ .calibrate field) ∧ Final sub a ∧ (sub.once = true ∨ Unasked s)
  | .finished => True

variable {instantOf : String → Option ℤ} {sub : Polled} {s s' t : Poller} {a : Attempt} {e : PollerEvent}

/-! ### A settled task stays settled -/

/-- What a stopped and settled task keeps. -/
structure Holds (sub : Polled) (s t : Poller) : Prop where
  stop : t.stop = true
  settled : Settled sub t
  requests : t.requests = s.requests
  cycles : t.cycles = s.cycles
  partials : ∀ n ∈ t.partials, n ∈ s.partials ∨ n = s.cycles

/-- The end of a cycle that was the last. -/
theorem holds_ended {error : Option PrismError} (hstop : t.stop = true) (hun : sub.once = true ∨ Unasked t)
    (hreq : t.requests = s.requests) (hcyc : t.cycles = s.cycles)
    (hpart : ∀ n ∈ t.partials, n ∈ s.partials ∨ n = s.cycles) : Holds sub s (t.ended sub error) := by
  by_cases honce : sub.once = true
  · have heq : t.ended sub error = { t with point := .finished } := by rw [ended.eq_def, if_pos honce]
    rw [heq]
    exact ⟨hstop, trivial, hreq, hcyc, hpart⟩
  · obtain heq | heq := @ended_cases sub t error
    · rw [heq]
      exact ⟨hstop, trivial, hreq, hcyc, hpart⟩
    · rw [heq]
      exact ⟨hstop, hun.resolve_left honce, hreq, hcyc, hpart⟩

/-- The landing of the walk that the stop found. -/
theorem holds_landed {full : Bool} (hstop : t.stop = true) (hun : sub.once = true ∨ Unasked t)
    (hreq : t.requests = s.requests) (hcyc : t.cycles = s.cycles)
    (hpart : ∀ n ∈ t.partials, n ∈ s.partials ∨ n = s.cycles) :
    Holds sub s ((t.land full).ended sub none) := by
  cases full with
  | true => exact holds_ended hstop hun hreq hcyc hpart
  | false =>
      refine holds_ended hstop hun hreq hcyc fun n hn => ?_
      obtain rfl | hn := List.mem_cons.1 (show n ∈ t.cycles :: t.partials from hn)
      · exact .inr hcyc
      · exact hpart n hn

theorem holds_failed {err : PrismError} (h : Holds sub s t) (hfinal : Final sub a)
    (hun : sub.once = true ∨ Unasked t) : Holds sub s (t.failed sub a err) := by
  have hnot : (isMissingList sub err && !a.second) = false := by
    obtain hsecond | hend := hfinal
    · rw [hsecond, Bool.not_true, Bool.and_false]
    · rw [Bool.and_eq_false_iff]
      left
      cases err with
      | notFound m => exact hend
      | _ => rfl
  rw [failed, hnot, if_neg Bool.false_ne_true]
  exact holds_ended h.stop hun h.requests h.cycles h.partials

/-- With something asked for, only the end of a task that runs once is settled. -/
theorem settled_of_asked (hun : ¬ Unasked t) (h : Settled sub t) (hpoint : s'.point = t.point) :
    Settled sub s' := by
  rw [Settled, hpoint]
  cases hp : t.point with
  | head => rw [Settled, hp] at h; exact h
  | sleeping => rw [Settled, hp] at h; exact h
  | probing a => rw [Settled, hp] at h; exact h
  | waiting => rw [Settled, hp] at h; exact (hun h).elim
  | parked => rw [Settled, hp] at h; exact (hun h).elim
  | fetching a => rw [Settled, hp] at h; exact ⟨h.1, .inl (h.2.resolve_right hun)⟩
  | calibrating a walk full => rw [Settled, hp] at h; exact ⟨h.1, .inl (h.2.resolve_right hun)⟩
  | walking a w => rw [Settled, hp] at h; exact ⟨h.1, h.2.1, .inl (h.2.2.resolve_right hun)⟩
  | finished => trivial

/-- A stopped task that is settled stays so, and sends nothing. -/
theorem settled_step (h : Holds sub s t) (hnot : restarts e = false)
    (hstep : t.step instantOf sub e = some s') : Holds sub s s' := by
  have hset := h.settled
  cases step_cases hstep with
  | begin hpoint =>
      rw [Settled, hpoint] at hset
      exact hset.elim
  | skip hpoint hdec =>
      rw [Settled, hpoint] at hset
      exact hset.elim
  | change hpoint hdec =>
      rw [Settled, hpoint] at hset
      exact hset.elim
  | turn hpoint hmore hstop =>
      rw [h.stop] at hstop
      cases hstop
  | @walked a w entities total hpoint hlast =>
      rw [Settled, hpoint] at hset
      obtain ⟨hpurpose, -, hun⟩ := hset
      rw [walked]
      split
      · exact holds_landed h.stop hun h.requests h.cycles h.partials
      · next field hf => exact absurd ((purpose_read w entities).symm.trans hf) (hpurpose field)
      · exact holds_landed h.stop hun h.requests h.cycles h.partials
  | calibrated hpoint =>
      rw [Settled, hpoint] at hset
      exact holds_landed h.stop hset.2 h.requests h.cycles h.partials
  | entity hpoint =>
      rw [Settled, hpoint] at hset
      exact holds_ended h.stop hset.2 h.requests h.cycles h.partials
  | failed err hpoint =>
      cases hp : t.point with
      | fetching a =>
          rw [Settled, hp] at hset
          rw [hp] at hpoint
          exact holds_failed h (Option.some.inj hpoint ▸ hset.1) hset.2
      | walking a w =>
          rw [Settled, hp] at hset
          rw [hp] at hpoint
          exact holds_failed h (Option.some.inj hpoint ▸ hset.2.1) hset.2.2
      | calibrating a walk full =>
          rw [Settled, hp] at hset
          rw [hp] at hpoint
          exact holds_failed h (Option.some.inj hpoint ▸ hset.1) hset.2
      | probing a =>
          rw [Settled, hp] at hset
          exact hset.elim
      | head | waiting | parked | sleeping | finished =>
          rw [hp] at hpoint
          cases hpoint
  | park hpoint hrest =>
      rw [Settled, hpoint] at hset
      exact ⟨h.stop, hset, h.requests, h.cycles, h.partials⟩
  | sleep hpoint hrest => exact absurd (.inr (.inl h.stop)) hrest
  | doze hpoint hidle =>
      rw [Settled, hpoint] at hset
      exact hset.elim
  | due hpoint hidle =>
      rw [Settled, hpoint] at hset
      exact hset.elim
  | wake hpoint hwake harmed =>
      obtain hpoint | hpoint := hpoint
      · rw [Settled, hpoint] at hset
        exact absurd ⟨harmed, hwake⟩ hset.2
      · rw [Settled, hpoint] at hset
        exact hset.elim
  | stir hpoint hwake harmed =>
      obtain hpoint | hpoint := hpoint
      · rw [Settled, hpoint] at hset
        exact ⟨h.stop, ⟨hset.1, fun h => Bool.noConfusion h.2⟩, h.requests, h.cycles, h.partials⟩
      · rw [Settled, hpoint] at hset
        exact hset.elim
  | respawn hpoint honce => cases hnot
  | refresh hlives => cases hnot
  | off => cases hnot
  | every n => cases hnot
  | passed hinterval => exact h
  | refreshAll hinterval =>
      have hset' : Settled sub { t.arm with owed := true } :=
        settled_of_asked (fun hun => hinterval hun.1) hset rfl
      exact ⟨h.stop, hset', h.requests, h.cycles, h.partials⟩
  | stop hlives => exact ⟨rfl, hset, h.requests, h.cycles, h.partials⟩
  | setIdle idle => exact ⟨h.stop, hset, h.requests, h.cycles, h.partials⟩

/-! ### What a task that is not settled goes on to -/

theorem requests_startAttempt (s : Poller) (a : Attempt) :
    (s.startAttempt sub a).requests = s.requests + 1 := by
  obtain ⟨-, heq⟩ | ⟨-, w, -, heq⟩ | ⟨-, heq⟩ := @startAttempt_cases sub s a
  · rw [heq]
    rfl
  · rw [heq]
    rfl
  · rw [heq]
    rfl

/-- Some events but a restart, after which one more request has gone out. -/
def Sends (instantOf : String → Option ℤ) (sub : Polled) (s : Poller) : Prop :=
  ∃ (es : List PollerEvent) (t : Poller), (∀ e ∈ es, restarts e = false) ∧
    Run.exec (step instantOf sub) s es = some t ∧ t.requests = s.requests + 1

theorem sends_of_step (hnot : restarts e = false) (hstep : s.step instantOf sub e = some s')
    (hreq : s'.requests = s.requests + 1) : Sends instantOf sub s :=
  ⟨[e], s', by simpa using hnot, by rw [Run.exec_cons, hstep]; rfl, hreq⟩

theorem sends_cons (hnot : restarts e = false) (hstep : s.step instantOf sub e = some s')
    (hreq : s'.requests = s.requests) (h : Sends instantOf sub s') : Sends instantOf sub s := by
  obtain ⟨es, t, hes, hrun, hcount⟩ := h
  refine ⟨e :: es, t, fun e' he' => ?_, by rw [Run.exec_cons, hstep]; exact hrun, by rw [hcount, hreq]⟩
  obtain rfl | he' := List.mem_cons.1 he'
  · exact hnot
  · exact hes e' he'

theorem sends_head (hpoint : s.point = .head) : Sends instantOf sub s := by
  refine @sends_of_step _ _ _ _ .begin rfl (by simp only [step, hpoint]; rfl) ?_
  rw [requests_startAttempt]

theorem sends_sleeping (hpoint : s.point = .sleeping) : Sends instantOf sub s := by
  refine @sends_cons _ _ _ { s with idle := false } (.setIdle false) rfl rfl rfl ?_
  refine @sends_cons _ _ _ { s with idle := false, point := .head } .elapsed rfl ?_ rfl (sends_head rfl)
  simp [step, hpoint]

/-- A stopped task that waits for a wake is woken, if by the wake of all subscriptions. -/
theorem sends_parked (hpoint : s.point = .parked) (hun : ¬ Unasked s) : Sends instantOf sub s := by
  have hwoken : ∀ u : Poller, u.point = .parked → u.armed = true → u.wake = true → Sends instantOf sub u := by
    intro u hp harmed hwake
    refine @sends_cons _ _ _ { u with wake := false, armed := false, point := .head } .woken rfl ?_ rfl
      (sends_head rfl)
    simp [step, hp, harmed, hwake]
  by_cases hinterval : s.interval = 0
  · obtain ⟨harmed, hwake⟩ := not_not.1 fun h => hun ⟨hinterval, h⟩
    exact hwoken s hpoint harmed hwake
  · refine @sends_cons _ _ _ { s.arm with owed := true } .refreshAll rfl (if_neg hinterval) rfl ?_
    exact hwoken _ hpoint rfl rfl

theorem sends_waiting (hpoint : s.point = .waiting) (hstop : s.stop = true) (hun : ¬ Unasked s) :
    Sends instantOf sub s := by
  refine @sends_cons _ _ _ { s with point := .parked } .rest rfl ?_ rfl (sends_parked rfl hun)
  simp [step, hpoint, hstop]

/-- A request in flight that may be asked once more, or after which the task waits to be woken. -/
theorem sends_failed (hstep : ∀ err, s.step instantOf sub (.failed err) = some (s.failed sub a err))
    (hstop : s.stop = true) (h : ¬ (Final sub a ∧ (sub.once = true ∨ Unasked s))) :
    Sends instantOf sub s := by
  by_cases hfinal : Final sub a
  · obtain ⟨honce, hun⟩ := not_or.1 fun hor => h ⟨hfinal, hor⟩
    have hgoes : s.failed sub a (.transport "") = { s with point := .waiting } := by
      rw [failed, ended.eq_def, if_neg honce]
      rfl
    exact sends_cons rfl ((hstep _).trans (congrArg some hgoes)) rfl (sends_waiting rfl hstop hun)
  · obtain ⟨hsecond, hend⟩ := not_or.1 hfinal
    refine sends_of_step rfl (hstep (.notFound "")) ?_
    have hasked : (isMissingList sub (.notFound "") && !a.second) = true := by
      rw [Bool.and_eq_true, Bool.not_eq_true']
      exact ⟨by simpa [isMissingList] using hend, by simpa using hsecond⟩
    rw [failed, if_pos hasked, requests_startAttempt]

/-- A stopped task that is not settled sends another request. -/
theorem sends_of_not_settled (hstop : s.stop = true) (h : ¬ Settled sub s) : Sends instantOf sub s := by
  rw [Settled] at h
  cases hpoint : s.point with
  | head => exact sends_head hpoint
  | sleeping => exact sends_sleeping hpoint
  | probing a =>
      -- an answer without a total decides nothing
      refine @sends_of_step _ _ _ (s.ask (.walking a { purpose := .changed (answerOf sub [] none) }))
        (.page [] none) rfl ?_ rfl
      have hwalk : probeDecision s.state (answerOf sub [] none) a.dirty = .walk := by
        cases hdec : probeDecision s.state (answerOf sub [] none) a.dirty with
        | walk => rfl
        | skip =>
            obtain ⟨-, v, i, n, k, -, heq, -⟩ := probeDecision_eq_skip.1 hdec
            cases congrArg ProbeAnswer.total heq
      rw [answerOf] at hwalk
      simp only [step, paged, hpoint, hwalk]
      rfl
  | waiting =>
      rw [hpoint] at h
      exact sends_waiting hpoint hstop h
  | parked =>
      rw [hpoint] at h
      exact sends_parked hpoint h
  | fetching a =>
      rw [hpoint] at h
      exact sends_failed (fun err => by simp [step, hpoint]) hstop h
  | calibrating a walk full =>
      rw [hpoint] at h
      exact sends_failed (fun err => by simp [step, hpoint]) hstop h
  | walking a w =>
      rw [hpoint] at h
      by_cases hcal : ∀ field, w.purpose ≠ .calibrate field
      · exact sends_failed (fun err => by simp [step, hpoint]) hstop fun hrest => h ⟨hcal, hrest⟩
      · -- a walk that calibrates is followed by its probe
        obtain ⟨field, hfield⟩ := not_forall.1 hcal
        have hpurpose : (w.read instantOf []).purpose = .calibrate field :=
          (purpose_read w []).trans (not_not.1 hfield)
        refine @sends_of_step _ _ _ (s.walked instantOf sub a (w.read instantOf [])
          (!(w.read instantOf []).more sub [] none)) (.page [] none) rfl ?_ ?_
        · simp [step, paged, hpoint, hstop]
        · rw [walked, hpurpose]
          rfl
  | finished =>
      rw [hpoint] at h
      exact (h trivial).elim

/-- A stop holds exactly when it finds a task that is settled. -/
theorem silent_iff (hlive : s.point ≠ .finished) : Silent instantOf sub s ↔ Settled sub s := by
  have hstop : s.step instantOf sub .stop = some { s with stop := true } := by
    cases hpoint : s.point with
    | finished => exact absurd hpoint hlive
    | _ => simp [step, hpoint]
  constructor
  · intro hsilent
    by_contra hset
    obtain ⟨es, t, hes, hrun, hcount⟩ := @sends_of_not_settled instantOf sub { s with stop := true } rfl hset
    have hcount' := (hsilent es t hes (by rw [Run.exec_cons, hstop]; exact hrun)).1
    rw [hcount] at hcount'
    exact absurd hcount' (Nat.succ_ne_self _)
  · intro hset es t hes hrun
    rw [Run.exec_cons, hstop] at hrun
    have hinit : Holds sub s { s with stop := true } := ⟨rfl, hset, rfl, rfl, fun _ hn => .inl hn⟩
    have hpart : ∀ (es : List PollerEvent) (u : Poller), (∀ e ∈ es, restarts e = false) → Holds sub s u →
        Run.exec (step instantOf sub) u es = some t → Holds sub s t := by
      intro es
      induction es with
      | nil => exact fun u _ hu hrun => Option.some.inj hrun ▸ hu
      | cons e es ih =>
          intro u hes hu hrun
          obtain ⟨u', hstep, hrun⟩ := Run.exec_cons_eq_some.1 hrun
          exact ih u' (fun e' he' => hes e' (List.mem_cons_of_mem _ he'))
            (settled_step hu (hes e List.mem_cons_self) hstep) hrun
    have hholds := hpart es _ hes hinit hrun
    exact ⟨hholds.requests, hholds.partials⟩

/-- A manual subscription that waits for a wake stays silent. -/
theorem silent_manual : Silent instantOfDay tasksSub { interval := 0, point := .parked } :=
  (silent_iff fun h => Point.noConfusion h).2 ⟨rfl, fun h => Bool.noConfusion h.1⟩

/-- A subscription that sleeps when it is stopped polls on. -/
theorem not_silent : ¬ ∀ (instantOf : String → Option ℤ) (sub : Polled) (every : ℕ) (es : List PollerEvent)
    (s : Poller), Run.exec (step instantOf sub) (start every) es = some s → s.point ≠ .finished →
      Silent instantOf sub s := by
  intro hall
  let first : List PollerEvent := [.begin, .page [stampedRow "a" newStamp] (some 1), .rest]
  let asleep : Poller := { start 30 with pages := 1, point := .sleeping, requests := 1, cycles := 1 }
  have hrun : Run.exec (step instantOfDay tasksSub) (start 30) first = some asleep := rfl
  have hsilent := hall _ _ _ _ _ hrun fun h => Point.noConfusion h
  have hcount := (hsilent [.elapsed, .begin]
    ({ asleep with stop := true, point := .head, cycles := 2 }.startAttempt tasksSub ⟨false, false⟩)
    (by decide) rfl).1
  rw [requests_startAttempt] at hcount
  exact absurd hcount (by decide)

end Poller

end Nutsh.Polls
