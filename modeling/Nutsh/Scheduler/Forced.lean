/-
A refresh forces a walk.

The mark a refresh leaves is taken at the head of a cycle.  From there it is carried by the cycle, which
then walks; and it is needed no more once a walk has come to its end.  It is lost where the cycle that
carries it is cut short and the next one may skip: when the probe or the walk behind it fails, and when a
walk is stopped while a wake is still armed.  A probe that was in flight when the refresh came knows nothing
of it.

Main definitions:

* `skips` — a cycle decides to skip its walk;
* `unbroken` — a step does none of these.

Main results:

* `inv_step` — a walk that is owed is marked, carried or out of the way;
* `forced_along` — in a run of unbroken steps no cycle skips a walk that is owed.
-/
import Nutsh.Scheduler.Cycle

set_option relaxedAutoImplicit false
set_option autoImplicit false

namespace Nutsh.Polls

open Prism (PrismError)

namespace Poller

/-- An event at which a cycle decides to skip its walk. -/
def skips (sub : Polled) (s : Poller) : PollerEvent → Bool
  | .page entities total =>
      match s.point with
      | .probing a => probeDecision s.state (answerOf sub entities total) a.dirty == .skip
      | _ => false
  | _ => false

/-- A failure after which the task goes on with another cycle. -/
def goesOn (sub : Polled) (e : PrismError) : Bool :=
  !sub.once && !isMissingList sub e && !(failureOf sub.key.kind e false).isTerminal

/-- A step at which a walk that is owed is not lost: a probe in flight when the mark was left does not
agree, no failure ends the cycle that probes or walks for it, and no stop cuts its walk while a wake is
armed. -/
def unbroken (instantOf : String → Option ℤ) (sub : Polled) (s : Poller) (e : PollerEvent) : Bool :=
  !s.owed ||
    match e, s.point with
    | .page entities total, .probing a =>
        a.dirty || !s.dirty || probeDecision s.state (answerOf sub entities total) false != .skip
    | .page entities total, .walking _ w =>
        let w := w.read instantOf entities
        s.dirty || !s.armed || !(w.more sub entities total && s.stop) ||
          match w.purpose with
          | .plain => !s.state.isArmed
          | _ => false
    | .failed e, .probing _ => s.dirty || !goesOn sub e
    | .failed e, .walking _ w =>
        s.dirty || !goesOn sub e ||
          match w.purpose with
          | .changed _ => false
          | _ => true
    | _, _ => true

/-! ### What a cycle can go on with -/

variable {instantOf : String → Option ℤ} {sub : Polled} {s s' : Poller} {a : Attempt} {e : PollerEvent}

/-- The next cycle may probe before it walks. -/
def CanSkip (sub : Polled) (s : Poller) : Prop :=
  sub.single = none ∧ sub.key.kind.probeBy ≠ none ∧ s.state.isArmed = true ∧ 2 ≤ s.pages

/-- An attempt begins with the single read, with a walk where there is no baseline, or with the probe. -/
theorem startAttempt_cases (s : Poller) (a : Attempt) :
    (sub.single ≠ none ∧ s.startAttempt sub a = s.ask (.fetching a)) ∨
      (¬ CanSkip sub s ∧ ∃ w, (∀ answer, w.purpose ≠ .changed answer) ∧
        s.startAttempt sub a = s.ask (.walking a w)) ∨
      CanSkip sub s ∧ s.startAttempt sub a = s.ask (.probing a) := by
  rw [startAttempt]
  cases hsingle : sub.single with
  | some id => exact .inl ⟨by simp, rfl⟩
  | none =>
      refine .inr ?_
      simp only [Option.isSome_none, Bool.false_eq_true, if_false]
      cases hprobe : sub.key.kind.probeBy with
      | none => exact .inl ⟨fun h => h.2.1 hprobe, _, fun _ h => Purpose.noConfusion h, rfl⟩
      | some field =>
          simp only
          split
          · next hplain =>
              refine .inl ⟨fun h => ?_, _, fun _ h => Purpose.noConfusion h, rfl⟩
              obtain hdis | hpages := hplain
              · rw [CanSkip, hdis] at h
                exact Bool.noConfusion h.2.2.1
              · have := h.2.2.2
                omega
          · next hnot =>
              obtain ⟨hdis, hpages⟩ := not_or.1 hnot
              split
              · next hun =>
                  refine .inl ⟨fun h => ?_, _, fun _ h => Purpose.noConfusion h, rfl⟩
                  rw [CanSkip, hun] at h
                  exact Bool.noConfusion h.2.2.1
              · next hun =>
                  have harmed : s.state.isArmed = true := by
                    cases hstate : s.state with
                    | unarmed => exact absurd hstate hun
                    | disarmed => exact absurd hstate hdis
                    | armed v i n k => rfl
                  exact .inr ⟨⟨hsingle, by rw [hprobe]; exact nofun, harmed, by omega⟩, rfl⟩

/-- A cycle ends with the task returned, or waiting for the next one. -/
theorem ended_cases (s : Poller) (error : Option PrismError) :
    s.ended sub error = { s with point := .finished } ∨ s.ended sub error = { s with point := .waiting } := by
  rw [ended.eq_def]
  split
  · exact .inl rfl
  · split
    · exact .inr rfl
    · split
      · exact .inl rfl
      · exact .inr rfl

/-- A failure that the task goes on after, or that is asked once more. -/
theorem failed_cases (s : Poller) (a : Attempt) (e : PrismError) :
    s.failed sub a e = s.startAttempt sub ⟨true, true⟩ ∨ s.failed sub a e = { s with point := .finished } ∨
      goesOn sub e = true ∧ s.failed sub a e = { s with point := .waiting } := by
  rw [failed]
  split
  · exact .inl rfl
  · next hasked =>
      refine .inr ?_
      rw [ended]
      split
      · exact .inl rfl
      · next honce =>
          split
          · exact .inl rfl
          · next hgoes =>
              rw [Bool.not_eq_true, Bool.or_eq_false_iff] at hgoes
              have hterm : (failureOf sub.key.kind e false).isTerminal = false := hgoes.1 ▸ hgoes.2
              exact .inr ⟨by simp [goesOn, honce, hgoes.1, hterm], rfl⟩

/-! ### The invariant -/

/-- Every wake that comes will mark a walk, for none is armed and the clock is not waited for. -/
def AtRest (s : Poller) : Prop := s.armed = false ∧ (s.stop = true ∨ s.interval = 0)

/-- A walk that is owed and not marked is carried by the cycle, or the next cycle cannot skip, or there is
no next cycle before another mark. -/
def Kept (sub : Polled) (s : Poller) : Prop :=
  s.owed = true → s.dirty = false →
    match s.point with
    | .head | .sleeping => ¬ CanSkip sub s
    | .probing a => a.dirty = true
    | .calibrating _ _ full => full = true ∨ AtRest s
    | .waiting | .parked => ¬ CanSkip sub s ∨ AtRest s
    | .fetching _ | .walking _ _ | .finished => True

/-- The single read is of one entity, and a walk that did not come after a probe had no baseline. -/
def Fits (sub : Polled) (s : Poller) : Prop :=
  match s.point with
  | .fetching _ => sub.single ≠ none
  | .walking _ w => (∃ answer, w.purpose = .changed answer) ∨ ¬ CanSkip sub s
  | .calibrating _ _ _ => ¬ CanSkip sub s
  | _ => True

structure Inv (sub : Polled) (s : Poller) : Prop where
  kept : Kept sub s
  fits : Fits sub s

/-- The start of an attempt that carries the mark, or before which there was nothing to skip. -/
theorem inv_startAttempt (h : a.dirty = true ∨ (s.owed = true → s.dirty = false → ¬ CanSkip sub s)) :
    Inv sub (s.startAttempt sub a) := by
  obtain ⟨hsingle, heq⟩ | ⟨hskip, w, -, heq⟩ | ⟨hskip, heq⟩ := @startAttempt_cases sub s a
  · rw [heq]
    exact ⟨fun _ _ => trivial, hsingle⟩
  · rw [heq]
    exact ⟨fun _ _ => trivial, .inr hskip⟩
  · rw [heq]
    exact ⟨fun howed hdirty => h.resolve_right fun hnot => hnot howed hdirty hskip, trivial⟩

/-- The end of a cycle after which the next one cannot skip, or comes with a mark. -/
theorem inv_ended {error : Option PrismError}
    (h : s.owed = true → s.dirty = false → ¬ CanSkip sub s ∨ AtRest s) : Inv sub (s.ended sub error) := by
  obtain heq | heq := @ended_cases sub s error
  · rw [heq]
    exact ⟨fun _ _ => trivial, trivial⟩
  · rw [heq]
    exact ⟨h, trivial⟩

/-- A failure that loses nothing, for it ends the task or the next cycle cannot skip. -/
theorem inv_failed {e : PrismError}
    (h : goesOn sub e = true → s.owed = true → s.dirty = false → ¬ CanSkip sub s) :
    Inv sub (s.failed sub a e) := by
  obtain heq | heq | ⟨hgoes, heq⟩ := @failed_cases sub s a e
  · rw [heq]
    exact inv_startAttempt (.inl rfl)
  · rw [heq]
    exact ⟨fun _ _ => trivial, trivial⟩
  · rw [heq]
    exact ⟨fun howed hdirty => .inl (h hgoes howed hdirty), trivial⟩

/-- The landing of a full walk, or of one that was cut short with no wake armed. -/
theorem inv_landed {full : Bool} {error : Option PrismError}
    (h : full = true ∨ (s.owed = true → s.dirty = false → ¬ CanSkip sub s ∨ AtRest s)) :
    Inv sub ((s.land full).ended sub error) := by
  refine inv_ended fun howed hdirty => ?_
  cases full with
  | true => exact Bool.noConfusion (howed : false = true)
  | false => exact (h.resolve_left Bool.false_ne_true) howed hdirty

theorem probeDecision_dirty (state : ProbeState) (answer : ProbeAnswer) :
    probeDecision state answer true = .walk := rfl

/-- A walk that was cut short by the stop, as an unbroken step cuts it. -/
theorem atRest_of_cut {w : Paging} {entities : List Entity} {total : Option ℕ}
    (hpoint : s.point = .walking a w) (hunbroken : unbroken instantOf sub s (.page entities total) = true)
    (hcut : (w.read instantOf entities).more sub entities total = true) (hstop : s.stop = true)
    (howed : s.owed = true) (hdirty : s.dirty = false) :
    AtRest s ∨ (w.read instantOf entities).purpose = .plain ∧ s.state.isArmed = false := by
  simp only [unbroken, hpoint, howed, hdirty, hcut, hstop, Bool.not_true, Bool.false_or, Bool.and_self, Bool.or_false,
    Bool.or_eq_true, Bool.not_eq_true'] at hunbroken
  obtain harmed | hplain := hunbroken
  · exact .inl ⟨harmed, .inl hstop⟩
  · cases hpurpose : (w.read instantOf entities).purpose with
    | plain =>
        rw [hpurpose] at hplain
        exact .inr ⟨rfl, by simpa using hplain⟩
    | calibrate field =>
        rw [hpurpose] at hplain
        cases hplain
    | changed answer =>
        rw [hpurpose] at hplain
        cases hplain

@[simp] theorem purpose_see (field : String) (w : Paging) (e : Entity) :
    (w.see instantOf field e).purpose = w.purpose := by
  rw [Paging.see]
  split
  · rfl
  · split <;> rfl

@[simp] theorem purpose_read (w : Paging) (entities : List Entity) :
    (w.read instantOf entities).purpose = w.purpose := by
  have hfold : ∀ (field : String) (es : List Entity) (w : Paging),
      (es.foldl (Paging.see instantOf field) w).purpose = w.purpose := by
    intro field es
    induction es with
    | nil => exact fun _ => rfl
    | cons e es ih => exact fun w => (ih _).trans (purpose_see field w e)
  rw [Paging.read.eq_def]
  simp only
  split
  · exact hfold _ _ _
  · rfl

/-- The end of a walk: one that ends with more to follow was stopped. -/
theorem inv_walked (h : Inv sub s) {entities : List Entity} {total : Option ℕ} {w : Paging}
    (hpoint : s.point = .walking a w)
    (hunbroken : unbroken instantOf sub s (.page entities total) = true)
    (hlast : ((w.read instantOf entities).more sub entities total && !s.stop) = false) :
    Inv sub (s.walked instantOf sub a (w.read instantOf entities)
      (!(w.read instantOf entities).more sub entities total)) := by
  have hcut : (!(w.read instantOf entities).more sub entities total) = true ∨
      (s.owed = true → s.dirty = false →
        AtRest s ∨ (w.read instantOf entities).purpose = .plain ∧ s.state.isArmed = false) := by
    cases hm : (w.read instantOf entities).more sub entities total with
    | false => exact .inl rfl
    | true =>
        have hstop : s.stop = true := by simpa [hm] using hlast
        exact .inr fun howed hdirty => atRest_of_cut hpoint hunbroken hm hstop howed hdirty
  rw [walked]
  split
  · refine inv_landed (hcut.imp id fun hcut howed hdirty => ?_)
    obtain hrest | ⟨-, harmed⟩ := hcut howed hdirty
    · exact .inr hrest
    · exact .inl fun hskip => Bool.noConfusion (hskip.2.2.1.symm.trans harmed)
  · next hpurpose =>
      refine ⟨fun howed hdirty => hcut.imp id fun hcut => ?_, ?_⟩
      · obtain hrest | ⟨hplain, -⟩ := hcut howed hdirty
        · exact hrest
        · rw [hplain] at hpurpose
          cases hpurpose
      · have hfits := h.fits
        rw [Fits, hpoint] at hfits
        obtain ⟨answer, hw⟩ | hskip := hfits
        · rw [purpose_read, hw] at hpurpose
          cases hpurpose
        · exact hskip
  · next hpurpose =>
      refine inv_landed (hcut.imp id fun hcut howed hdirty => ?_)
      obtain hrest | ⟨hplain, -⟩ := hcut howed hdirty
      · exact .inr hrest
      · rw [hplain] at hpurpose
        cases hpurpose

theorem canSkip_false_of_single (h : sub.single ≠ none) : ¬ CanSkip sub s := fun hskip => h hskip.1

/-- A failure. -/
theorem inv_failure (h : Inv sub s) {err : PrismError} (hpoint : s.point.attempt = some a)
    (hunbroken : unbroken instantOf sub s (.failed err) = true) : Inv sub (s.failed sub a err) := by
  have hfits := h.fits
  refine inv_failed fun hgoes howed hdirty => ?_
  cases hp : s.point with
  | fetching a' =>
      rw [Fits, hp] at hfits
      exact canSkip_false_of_single hfits
  | probing a' => simp [unbroken, hp, howed, hdirty, hgoes] at hunbroken
  | walking a' w =>
      rw [Fits, hp] at hfits
      refine hfits.resolve_left ?_
      rintro ⟨answer, hw⟩
      simp [unbroken, hp, howed, hdirty, hgoes, hw] at hunbroken
  | calibrating a' walk full =>
      rw [Fits, hp] at hfits
      exact hfits
  | head | waiting | parked | sleeping | finished =>
      rw [hp] at hpoint
      cases hpoint

/-- The task waits for a wake, or for that and the clock. -/
theorem skip_or_rest_of_waits (h : Inv sub s) (hpoint : s.point = .parked ∨ s.point = .sleeping)
    (howed : s.owed = true) (hdirty : s.dirty = false) : ¬ CanSkip sub s ∨ AtRest s := by
  have hkept := h.kept howed hdirty
  obtain hp | hp := hpoint
  · rw [hp] at hkept
    exact hkept
  · rw [hp] at hkept
    exact .inl hkept

/-- What the scheduler is called with: a mark is left, or nothing that the invariant is about changes but
the flags that keep the task at rest. -/
theorem inv_called (h : Inv sub s) (hpoint : s'.point = s.point)
    (hskip : CanSkip sub s' ↔ CanSkip sub s)
    (hmark : s'.dirty = true ∨ s'.owed = s.owed ∧ s'.dirty = s.dirty ∧ (AtRest s → AtRest s')) : Inv sub s' := by
  refine ⟨fun howed hdirty => ?_, ?_⟩
  · obtain hmark | ⟨howed', hdirty', hrest⟩ := hmark
    · rw [hmark] at hdirty
      cases hdirty
    · have hkept := h.kept (howed'.symm.trans howed) (hdirty'.symm.trans hdirty)
      rw [hpoint]
      cases hp : s.point with
      | head => rw [hp] at hkept; exact hskip.not.2 hkept
      | sleeping => rw [hp] at hkept; exact hskip.not.2 hkept
      | probing a => rw [hp] at hkept; exact hkept
      | calibrating a walk full => rw [hp] at hkept; exact hkept.imp id hrest
      | waiting => rw [hp] at hkept; exact hkept.imp hskip.not.2 hrest
      | parked => rw [hp] at hkept; exact hkept.imp hskip.not.2 hrest
      | fetching a => trivial
      | walking a w => trivial
      | finished => trivial
  · have hfits := h.fits
    rw [Fits, hpoint]
    cases hp : s.point with
    | fetching a => rw [Fits, hp] at hfits; exact hfits
    | walking a w => rw [Fits, hp] at hfits; exact hfits.imp id hskip.not.2
    | calibrating a walk full => rw [Fits, hp] at hfits; exact hskip.not.2 hfits
    | head => trivial
    | probing a => trivial
    | waiting => trivial
    | parked => trivial
    | sleeping => trivial
    | finished => trivial

/-- What an unbroken step keeps. -/
theorem inv_step (h : Inv sub s) (hunbroken : unbroken instantOf sub s e = true)
    (hstep : s.step instantOf sub e = some s') : Inv sub s' := by
  have hkept := h.kept
  have hfits := h.fits
  cases step_cases hstep with
  | begin hpoint =>
      rw [Kept, hpoint] at hkept
      -- the mark is taken here, and carried from here on
      refine inv_startAttempt ?_
      cases hdirty : s.dirty with
      | true => exact .inl rfl
      | false => exact .inr fun howed _ => hkept howed hdirty
  | @skip a entities total hpoint hdec =>
      refine inv_ended fun howed hdirty => ?_
      -- the mark that the cycle carries would have made it walk
      have hcarried := hkept howed hdirty
      rw [hpoint] at hcarried
      simp only at hcarried
      rw [hcarried, probeDecision_dirty] at hdec
      cases hdec
  | change hpoint hdec => exact ⟨fun _ _ => trivial, .inl ⟨_, rfl⟩⟩
  | @turn a w entities total hpoint hmore hstop =>
      refine ⟨fun _ _ => trivial, ?_⟩
      rw [Fits, hpoint] at hfits
      exact hfits.imp (fun ⟨answer, hw⟩ => ⟨answer, (purpose_read w entities).trans hw⟩) id
  | walked hpoint hlast => exact inv_walked h hpoint hunbroken hlast
  | @calibrated a walk full entities total hpoint =>
      refine inv_landed ?_
      cases full with
      | true => exact .inl rfl
      | false =>
          refine .inr fun howed hdirty => .inr ?_
          have hlands := hkept howed hdirty
          rw [hpoint] at hlands
          exact hlands.resolve_left Bool.false_ne_true
  | entity hpoint =>
      rw [Fits, hpoint] at hfits
      exact inv_ended fun _ _ => .inl (canSkip_false_of_single hfits)
  | failed err hpoint => exact inv_failure h hpoint hunbroken
  | park hpoint hrest =>
      rw [Kept, hpoint] at hkept
      exact ⟨hkept, trivial⟩
  | sleep hpoint hrest =>
      rw [Kept, hpoint] at hkept
      obtain ⟨hinterval, hflags⟩ := not_or.1 hrest
      obtain ⟨hstop, -⟩ := not_or.1 hflags
      refine ⟨fun howed hdirty => (hkept howed hdirty).resolve_right ?_, trivial⟩
      rintro ⟨-, hs | hi⟩
      · exact hstop hs
      · exact hinterval hi
  | doze hpoint hidle =>
      rw [Kept, hpoint] at hkept
      exact ⟨fun howed hdirty => .inl (hkept howed hdirty), trivial⟩
  | due hpoint hidle =>
      rw [Kept, hpoint] at hkept
      exact ⟨hkept, trivial⟩
  | wake hpoint hwake harmed =>
      refine ⟨fun howed hdirty => (skip_or_rest_of_waits h hpoint howed hdirty).resolve_right ?_, trivial⟩
      rintro ⟨hnot, -⟩
      rw [hnot] at harmed
      cases harmed
  | stir hpoint hwake harmed =>
      have hrest := skip_or_rest_of_waits h hpoint
      exact ⟨hrest, trivial⟩
  | respawn hpoint honce => exact ⟨fun _ hdirty => Bool.noConfusion (hdirty : true = false), trivial⟩
  | refresh hlives => exact inv_called h rfl Iff.rfl (.inl rfl)
  | passed hinterval => exact h
  | refreshAll hinterval => exact inv_called h rfl Iff.rfl (.inl rfl)
  | off => exact inv_called h rfl Iff.rfl (.inr ⟨rfl, rfl, fun hrest => ⟨hrest.1, .inr rfl⟩⟩)
  | every n => exact inv_called h rfl Iff.rfl (.inl rfl)
  | stop hlives => exact inv_called h rfl Iff.rfl (.inr ⟨rfl, rfl, fun hrest => ⟨hrest.1, .inl rfl⟩⟩)
  | setIdle idle => exact inv_called h rfl Iff.rfl (.inr ⟨rfl, rfl, id⟩)

theorem inv_start (every : ℕ) : Inv sub (start every) :=
  ⟨fun howed => Bool.noConfusion (howed : false = true), trivial⟩

/-! ### Runs -/

/-- In a run of unbroken steps no cycle skips a walk that is owed. -/
theorem forced_along {every : ℕ} {es : List PollerEvent}
    (h : Run.Along (step instantOf sub) (fun s e => unbroken instantOf sub s e = true) (start every) es) :
    Run.Along (step instantOf sub) (fun s e => skips sub s e = true → s.owed = false) (start every) es := by
  refine Run.Along.imp (fun s e s' hinv hun hstep => inv_step hinv hun hstep) ?_ (inv_start every) h
  intro s e hinv hun hskips
  by_contra howed
  rw [Bool.not_eq_false] at howed
  rw [skips.eq_def] at hskips
  split at hskips
  · next entities total =>
      split at hskips
      · next a hpoint =>
          have hskip : probeDecision s.state (answerOf sub entities total) a.dirty = .skip := by
            simpa using hskips
          have hclean : a.dirty = false := (probeDecision_eq_skip.1 hskip).1
          cases hdirty : s.dirty with
          | true =>
              rw [hclean] at hskip
              simp [unbroken, hpoint, howed, hclean, hdirty, hskip] at hun
          | false =>
              have hcarried := hinv.kept howed hdirty
              rw [hpoint] at hcarried
              simp only [hclean] at hcarried
              cases hcarried
      · cases hskips
  · cases hskips

/-! ### A list of two pages -/

/-- The kind of tasks, with the field its probe is ordered by. -/
def tasksSub : Polled :=
  { key := .top { id := "prism.config.Task", probeBy := some "lastUpdatedTime" }, pageSize := 1 }

def stampedRow (extId stamp : String) : Entity :=
  .new { id := "prism.config.Task" } (.obj [("extId", .str extId), ("lastUpdatedTime", .str stamp)]) none

def oldStamp : String := "2026-01-01T00:00:00Z"

def newStamp : String := "2026-01-01T00:00:01Z"

/-- The two instants, in seconds of that day. -/
def instantOfDay (s : String) : Option ℤ :=
  if s = oldStamp then some 0 else if s = newStamp then some 1 else none

/-- The answers to a walk, and to the probe behind it. -/
def walkAnswers : List PollerEvent :=
  [.page [stampedRow "a" newStamp] (some 2), .page [stampedRow "b" oldStamp] (some 2)]

def probeAnswered : PollerEvent := .page [stampedRow "a" newStamp] (some 2)

/-- A first walk, and the cycle that calibrates. -/
def calibrated : List PollerEvent :=
  .begin :: walkAnswers ++ [.rest, .elapsed, .begin] ++ walkAnswers ++ [probeAnswered, .rest]

/-- A refresh of a task that sleeps makes it walk. -/
theorem forced_along_tasks :
    Run.Along (step instantOfDay tasksSub) (fun s e => skips tasksSub s e = true → s.owed = false) (start 30)
      (calibrated ++ [.refresh, .woken, .begin, probeAnswered] ++ walkAnswers ++
        [.rest, .elapsed, .begin, probeAnswered]) :=
  forced_along (by decide +kernel)

/-- A refresh whose probe fails is forgotten: the next cycle skips. -/
theorem not_forced_along :
    ¬ ∀ (instantOf : String → Option ℤ) (sub : Polled) (every : ℕ) (es : List PollerEvent),
      Run.Along (step instantOf sub) (fun s e => skips sub s e = true → s.owed = false) (start every) es := by
  intro hall
  have hrun := hall instantOfDay tasksSub 30 (calibrated ++ [.refresh, .woken, .begin, .failed (.transport "reset"),
    .rest, .elapsed, .begin, probeAnswered])
  exact absurd hrun (by decide +kernel)

end Poller

end Nutsh.Polls
