/-
How often a walk is skipped.

The baseline counts the skips since it was taken, and with nine of them a cycle walks whatever the probe
says.  A walk takes a new baseline or leaves the count as it is, which only makes the next one come sooner,
and a cycle that fails leaves it alone.

Main definitions:

* `Landing`, `Poller.landing` — how a cycle that ends without a failure has ended;
* `Poller.landings` — the landings of a run;
* `Rationed` — no more skips follow one another than a count leaves.

Main results:

* `Rationed.length_le` — the skips of a rationed list that follow one another;
* `rationed_landings` — what a run keeps;
* `full_of_ten` — of ten cycles in a row that end without a failure one walks, to its end when no stop cut
  it short.
-/
import Nutsh.Scheduler.Unchanged

set_option relaxedAutoImplicit false
set_option autoImplicit false

namespace Nutsh.Polls

open Prism (PrismError)

/-! ### Landings -/

/-- How a cycle that ends without a failure has ended. -/
inductive Landing where
  | skipped
  /-- A walk came to its end. -/
  | full
  /-- A walk was cut short by a stop. -/
  | cut
  deriving DecidableEq

def Landing.walked (full : Bool) : Landing := if full then .full else .cut

namespace Poller

variable (instantOf : String → Option ℤ) (sub : Polled)

/-- How the cycle of a list ends with an event, when it ends without a failure. -/
def landing (s : Poller) : PollerEvent → Option Landing
  | .page entities total =>
      match s.point with
      | .probing a =>
          match probeDecision s.state (answerOf sub entities total) a.dirty with
          | .skip => some .skipped
          | .walk => none
      | .walking _ w =>
          let w := w.read instantOf entities
          if w.more sub entities total && !s.stop then none
          else
            match w.purpose with
            | .calibrate _ => none
            | _ => some (.walked (!w.more sub entities total))
      | .calibrating _ _ full => some (.walked full)
      | _ => none
  | _ => none

/-- The landings of a run. -/
def landings : Poller → List PollerEvent → List Landing
  | _, [] => []
  | s, e :: es =>
      match s.step instantOf sub e with
      | none => []
      | some t => (s.landing instantOf sub e).toList ++ landings t es

end Poller

/-! ### Rations -/

/-- The skips counted since the baseline was taken. -/
def ProbeState.skips : ProbeState → ℕ
  | .armed _ _ _ skips => skips
  | _ => 0

/-- After `k` skips in a row no more follow than there may be, and after each walk no more than that. -/
def Rationed : ℕ → List Landing → Prop
  | _, [] => True
  | k, .skipped :: ls => k < MAX_SKIPS ∧ Rationed (k + 1) ls
  | _, _ :: ls => Rationed 0 ls

variable {instantOf : String → Option ℤ} {sub : Polled} {s t : Poller} {e : PollerEvent} {j k : ℕ}
  {l : Landing} {ls before skips after : List Landing}

/-- Fewer skips leave more. -/
theorem Rationed.mono (h : Rationed k ls) (hle : j ≤ k) : Rationed j ls := by
  induction ls generalizing j k with
  | nil => trivial
  | cons l ls ih =>
      cases l with
      | skipped =>
          obtain ⟨hlt, hrest⟩ := h
          exact ⟨by omega, ih hrest (by omega)⟩
      | full => exact h
      | cut => exact h

/-- The skips at the head of a rationed list. -/
theorem Rationed.length_head_le (hk : k ≤ MAX_SKIPS) (h : Rationed k (skips ++ after))
    (hskips : ∀ l ∈ skips, l = .skipped) : k + skips.length ≤ MAX_SKIPS := by
  induction skips generalizing k with
  | nil => exact hk
  | cons l skips ih =>
      obtain rfl := hskips l List.mem_cons_self
      obtain ⟨hlt, hrest⟩ := h
      have hle := ih hlt hrest fun l hl => hskips l (List.mem_cons_of_mem _ hl)
      rw [List.length_cons]
      omega

/-- **The skips of a rationed list that follow one another.** -/
theorem Rationed.length_le (hk : k ≤ MAX_SKIPS) (h : Rationed k (before ++ skips ++ after))
    (hskips : ∀ l ∈ skips, l = .skipped) : skips.length ≤ MAX_SKIPS := by
  induction before generalizing k with
  | nil =>
      rw [List.nil_append] at h
      have hle := h.length_head_le hk hskips
      omega
  | cons l before ih =>
      cases l with
      | skipped => exact ih h.1 h.2
      | full => exact ih (Nat.zero_le _) h
      | cut => exact ih (Nat.zero_le _) h

/-! ### What a step makes of the count -/

/-- A walk leaves the count at nought or as it was. -/
theorem skips_calibrate_le (state : ProbeState) (answer : ProbeAnswer) (walk : Option Walk) :
    (calibrate instantOf state answer walk).skips ≤ state.skips := by
  cases h : calibrate instantOf state answer walk with
  | unarmed => exact Nat.zero_le _
  | disarmed => exact Nat.zero_le _
  | armed v i n k =>
      obtain ⟨-, rfl⟩ | ⟨-, -, rfl⟩ := calibrate_eq_armed h
      · exact Nat.zero_le _
      · exact le_rfl

/-- A skip is counted, and there are fewer than nine before it. -/
theorem skips_of_skip {answer : ProbeAnswer} {dirty : Bool} {state : ProbeState}
    (h : probeDecision state answer dirty = .skip) :
    state.skips < MAX_SKIPS ∧ state.skipped.skips = state.skips + 1 := by
  obtain ⟨-, v, i, n, k, rfl, -, hlt⟩ := probeDecision_eq_skip.1 h
  exact ⟨hlt, rfl⟩

/-- What an event does to the count: a skip adds one, below nine; a walk does not add to it; and an event
that does not end a cycle, or ends it with a failure, leaves it. -/
def Counts (old new : ProbeState) : Option Landing → Prop
  | some .skipped => old.skips < MAX_SKIPS ∧ new.skips = old.skips + 1
  | some .full | some .cut => new.skips ≤ old.skips
  | none => new = old

theorem counts_walked {old new : ProbeState} (full : Bool) (h : new.skips ≤ old.skips) :
    Counts old new (some (.walked full)) := by
  cases full
  · exact h
  · exact h

/-- The end of a walk, which may be followed by the probe that takes its baseline. -/
theorem counts_lastPage {a : Attempt} {w : Paging} {entities : List Entity} {total : Option ℕ}
    (hpoint : s.point = .walking a w)
    (hlast : ((w.read instantOf entities).more sub entities total && !s.stop) = false) :
    Counts s.state (s.walked instantOf sub a (w.read instantOf entities)
      (!(w.read instantOf entities).more sub entities total)).state
      (s.landing instantOf sub (.page entities total)) := by
  simp only [Poller.landing, hpoint, hlast, Bool.false_eq_true, if_false]
  rw [Poller.walked]
  cases (w.read instantOf entities).purpose with
  | calibrate field => rfl
  | plain =>
      simp only [state_ended, state_land]
      exact counts_walked _ le_rfl
  | changed answer =>
      simp only [state_ended, state_land]
      exact counts_walked _ (skips_calibrate_le _ _ _)

theorem counts_step (hstep : s.step instantOf sub e = some t) :
    Counts s.state t.state (s.landing instantOf sub e) := by
  cases Poller.step_cases hstep with
  | skip hpoint hdec =>
      simp only [Poller.landing, hpoint, hdec, state_ended]
      exact skips_of_skip hdec
  | change hpoint hdec =>
      simp only [Poller.landing, hpoint, hdec]
      rfl
  | turn hpoint hmore hstop =>
      simp only [Poller.landing, hpoint, hmore, hstop, Bool.not_false, Bool.and_self, if_true]
      rfl
  | walked hpoint hlast => exact counts_lastPage hpoint hlast
  | calibrated hpoint =>
      simp only [Poller.landing, hpoint, state_ended, state_land]
      exact counts_walked _ (skips_calibrate_le _ _ _)
  | begin hpoint => exact (step_fresh (.inl rfl) hstep).1
  | failed err hpoint => exact (step_fresh (.inr ⟨err, rfl⟩) hstep).1
  | entity _ | park _ _ | sleep _ _ | doze _ _ | due _ _ | wake _ _ _ | stir _ _ _ | respawn _ _ | refresh _
  | passed _ | refreshAll _ | off | every _ | stop _ | setIdle _ => exact (step_other rfl hstep).1

/-! ### Runs -/

/-- The landings of a run are rationed by the count it starts with. -/
theorem rationed_landings (s : Poller) (es : List PollerEvent) :
    Rationed s.state.skips (s.landings instantOf sub es) := by
  induction es generalizing s with
  | nil => trivial
  | cons e es ih =>
      rw [Poller.landings]
      cases hstep : s.step instantOf sub e with
      | none => trivial
      | some t =>
          have hrest := ih t
          have hcounts := counts_step hstep
          cases hl : s.landing instantOf sub e with
          | none =>
              rw [hl] at hcounts
              rw [show t.state = s.state from hcounts] at hrest
              exact hrest
          | some l =>
              rw [hl] at hcounts
              cases l with
              | skipped => exact ⟨hcounts.1, by rw [← hcounts.2]; exact hrest⟩
              | full => exact hrest.mono (Nat.zero_le _)
              | cut => exact hrest.mono (Nat.zero_le _)

/-! ### Without a stop -/

/-- The task is not stopped, and no walk that was cut short is about to land. -/
structure Uncut (s : Poller) : Prop where
  stop : s.stop = false
  point : ∀ a walk, s.point ≠ .calibrating a walk false

@[simp] theorem stop_startAttempt (s : Poller) (a : Attempt) : (s.startAttempt sub a).stop = s.stop := by
  rw [Poller.startAttempt]
  split
  · rfl
  · split
    · rfl
    · split
      · rfl
      · split <;> rfl

@[simp] theorem stop_ended (s : Poller) (error : Option PrismError) : (s.ended sub error).stop = s.stop := by
  obtain heq | heq := @Poller.ended_cases sub s error
  · rw [heq]
  · rw [heq]

@[simp] theorem stop_land (s : Poller) (full : Bool) : (s.land full).stop = s.stop := by
  cases full <;> rfl

theorem stop_failed (s : Poller) (a : Attempt) (err : PrismError) : (s.failed sub a err).stop = s.stop := by
  obtain heq | heq | ⟨-, heq⟩ := @Poller.failed_cases sub s a err
  · rw [heq, stop_startAttempt]
  · rw [heq]
  · rw [heq]

theorem quiet_ne_calibrating {point : Point} (h : point.isQuiet = true) (a : Attempt) (walk : Walk) (full : Bool) :
    point ≠ .calibrating a walk full := by
  intro heq
  rw [heq] at h
  cases h

/-- A cycle that ends leaves a task that is not stopped uncut. -/
theorem uncut_ended {error : Option PrismError} (hstop : s.stop = false) : Uncut (s.ended sub error) :=
  ⟨(stop_ended _ _).trans hstop, fun a walk => quiet_ne_calibrating (quiet_ended _ error) a walk false⟩

theorem uncut_landed {full : Bool} (hstop : s.stop = false) : Uncut ((s.land full).ended sub none) :=
  uncut_ended ((stop_land _ _).trans hstop)

/-- The end of a walk that was not cut short. -/
theorem uncut_walked {a : Attempt} {w : Paging} (hstop : s.stop = false) :
    Uncut (s.walked instantOf sub a w true) := by
  rw [Poller.walked]
  cases w.purpose with
  | calibrate field => exact ⟨hstop, fun _ _ => by simp [Poller.ask]⟩
  | plain => exact uncut_landed hstop
  | changed answer => exact uncut_landed hstop

/-- A step that is no stop leaves a task uncut. -/
theorem uncut_step (h : Uncut s) (hnot : e ≠ .stop) (hstep : s.step instantOf sub e = some t) : Uncut t := by
  cases Poller.step_cases hstep with
  | begin hpoint =>
      refine ⟨(stop_startAttempt _ _).trans h.stop, fun a walk heq => ?_⟩
      have hfresh := (step_fresh (.inl rfl) hstep).2
      rw [Fresh, heq] at hfresh
      exact hfresh
  | failed err hpoint =>
      refine ⟨(stop_failed _ _ _).trans h.stop, fun a walk heq => ?_⟩
      have hfresh := (step_fresh (.inr ⟨err, rfl⟩) hstep).2
      rw [Fresh, heq] at hfresh
      exact hfresh
  | skip hpoint hdec => exact uncut_ended h.stop
  | change hpoint hdec => exact ⟨h.stop, fun _ _ => by simp [Poller.ask]⟩
  | turn hpoint hmore hstop => exact ⟨h.stop, fun _ _ => by simp [Poller.ask]⟩
  | walked hpoint hlast =>
      -- the task is not stopped, so the last page is the last there is
      rw [h.stop, Bool.not_false, Bool.and_true] at hlast
      rw [hlast]
      exact uncut_walked h.stop
  | calibrated hpoint => exact uncut_landed h.stop
  | entity hpoint => exact uncut_ended h.stop
  | park _ _ | sleep _ _ | doze _ _ | due _ _ | wake _ _ _ | stir _ _ _ => exact ⟨h.stop, fun _ _ heq => by cases heq⟩
  | respawn _ _ => exact ⟨rfl, fun _ _ heq => by cases heq⟩
  | refresh _ | off | every _ => exact ⟨rfl, h.point⟩
  | passed _ | refreshAll _ | setIdle _ => exact ⟨h.stop, h.point⟩
  | stop _ => exact absurd rfl hnot

/-- Nor does it land a walk that was cut short. -/
theorem landing_ne_cut (h : Uncut s) (hstep : s.step instantOf sub e = some t) :
    s.landing instantOf sub e ≠ some .cut := by
  cases Poller.step_cases hstep with
  | skip hpoint hdec => simp [Poller.landing, hpoint, hdec]
  | change hpoint hdec => simp [Poller.landing, hpoint, hdec]
  | turn hpoint hmore hstop => simp [Poller.landing, hpoint, hmore, hstop]
  | @walked a w entities total hpoint hlast =>
      rw [h.stop, Bool.not_false, Bool.and_true] at hlast
      simp only [Poller.landing, hpoint, hlast, Bool.false_and, Bool.false_eq_true, if_false, Bool.not_false]
      cases (w.read instantOf entities).purpose <;> simp [Landing.walked]
  | @calibrated a walk full entities total hpoint =>
      simp only [Poller.landing, hpoint]
      cases full with
      | true => simp [Landing.walked]
      | false => exact absurd hpoint (h.point a walk)
  | begin _ | failed _ _ | entity _ | park _ _ | sleep _ _ | doze _ _ | due _ _ | wake _ _ _ | stir _ _ _
  | respawn _ _ | refresh _ | passed _ | refreshAll _ | off | every _ | stop _ | setIdle _ =>
      simp [Poller.landing]

theorem landings_ne_cut (h : Uncut s) {es : List PollerEvent} (hes : .stop ∉ es) :
    .cut ∉ s.landings instantOf sub es := by
  induction es generalizing s with
  | nil => exact List.not_mem_nil
  | cons e es ih =>
      rw [Poller.landings]
      cases hstep : s.step instantOf sub e with
      | none => exact List.not_mem_nil
      | some t =>
          have ht := uncut_step h (fun heq => hes (heq ▸ List.mem_cons_self)) hstep
          have hland := landing_ne_cut h hstep
          rw [List.mem_append, not_or]
          refine ⟨?_, ih ht fun hmem => hes (List.mem_cons_of_mem _ hmem)⟩
          rw [Option.mem_toList]
          exact hland

/-- **Skips in a row**: in every run of a task at most nine cycles that end without a failure and follow one
another skip their walk; and when nothing stops the task, of ten of them one walks to the end. -/
theorem full_of_ten (instantOf : String → Option ℤ) (sub : Polled) (every : ℕ) (es : List PollerEvent) :
    (∀ before skips after, (Poller.start every).landings instantOf sub es = before ++ skips ++ after →
      (∀ l ∈ skips, l = .skipped) → skips.length ≤ 9) ∧
    (.stop ∉ es → ∀ before ten after, (Poller.start every).landings instantOf sub es = before ++ ten ++ after →
      10 ≤ ten.length → .full ∈ ten) := by
  have hration := @rationed_landings instantOf sub (.start every) es
  have hskips : ∀ before skips after, (Poller.start every).landings instantOf sub es = before ++ skips ++ after →
      (∀ l ∈ skips, l = .skipped) → skips.length ≤ 9 := by
    intro before skips after heq hall
    rw [heq] at hration
    exact hration.length_le (Nat.zero_le _) hall
  refine ⟨hskips, fun hes before ten after heq hten => ?_⟩
  by_contra hfull
  have hall : ∀ l ∈ ten, l = Landing.skipped := by
    intro l hl
    have hcut := @landings_ne_cut instantOf sub (.start every) ⟨rfl, fun _ _ => Point.noConfusion⟩ es hes
    rw [heq] at hcut
    cases l with
    | skipped => rfl
    | full => exact absurd hl hfull
    | cut => exact absurd (List.mem_append_left after (List.mem_append_right before hl)) hcut
  have hle := hskips before ten after heq hall
  omega

end Nutsh.Polls
