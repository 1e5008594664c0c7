/-
What a skipped walk does not miss.

A list is written by others while it is polled: a row that is created or changed gets a value newer than
every earlier one, and the probe is answered with the newest row and the number of rows.  When a walk is
skipped, the list holds the very rows it held at the probe that the baseline was taken of.  That is less
than that nothing was written: a row may have come and gone, and the cycle that calibrates takes its
baseline after its walk, so that what was written while it walked is in the baseline and not on the screen.

Main definitions:

* `Listing`, `Listing.write` — the rows at the server, the newest first;
* `Watched` — a task, the list it polls, and what was written since its probes and walks;
* `Unchanged` — the list is what it was at the probe of the baseline.

Main results:

* `Since.write` — what a list is since a moment, after one more write;
* `Since.eq_of_agrees` — a list that agrees with the baseline is the list of the baseline;
* `unchanged_along` — in every run a walk is skipped only when the list is unchanged.
-/
import Nutsh.Scheduler.Forced

set_option relaxedAutoImplicit false
set_option autoImplicit false

namespace Nutsh.Polls

open Prism (PrismError)

/-! ### The list at the server -/

/-- The rows of a list, the newest first: each with its id and its value under the field of the probe. -/
structure Listing where
  rows : List (String × String) := []
  /-- The instant of the last value given. -/
  latest : Option ℤ := none

inductive Write where
  /-- A row is created or changed, with a value. -/
  | put (extId value : String)
  | delete (extId : String)

def Write.extId : Write → String
  | .put extId _ => extId
  | .delete extId => extId

/-- The rows but one. -/
def without (extId : String) (rows : List (String × String)) : List (String × String) :=
  rows.filter fun r => r.1 != extId

/-- One write, its value newer than every earlier one. -/
def Listing.write (instantOf : String → Option ℤ) (l : Listing) : Write → Option Listing
  | .put extId value =>
      match instantOf value with
      | none => none
      | some t =>
          if l.latest.all (· < t) then some { rows := (extId, value) :: without extId l.rows, latest := some t }
          else none
  | .delete extId =>
      if l.rows.any fun r => r.1 == extId then some { l with rows := without extId l.rows } else none

/-- A page that answers the probe: the newest row, and the number of rows. -/
def Listing.answers (l : Listing) (field : String) (entities : List Entity) (total : Option ℕ) : Bool :=
  (entities.map fun e => (e.extId, sortValueOf field e)) ==
      (l.rows.head?.toList.map fun r => (r.1, some r.2)) &&
    total == some l.rows.length

/-! ### A task and its list -/

/-- A moment: the rows there were, and the ids written since, the last one first. -/
structure Mark where
  rows : List (String × String) := []
  touched : List String := []

/-- A task with the list it polls, and what was written since the moments that count. -/
structure Watched where
  poller : Poller
  list : Listing := {}
  /-- The last probe that was answered. -/
  probed : Mark := {}
  /-- The probe of the baseline. -/
  base : Mark := {}
  /-- Since the walk under way began. -/
  walk : List String := []
  /-- Since the walk began that the rows on the screen are of. -/
  screen : List String := []
  /-- That walk was the calibrating one. -/
  calibrating : Bool := false

inductive WatchedEvent where
  | write (w : Write)
  | poll (e : PollerEvent)

def Point.isWalking : Point → Bool
  | .walking _ _ => true
  | _ => false

namespace Watched

variable (instantOf : String → Option ℤ) (sub : Polled)

/-- An id written. -/
def touch (s : Watched) (extId : String) : Watched :=
  { s with
    probed := { s.probed with touched := extId :: s.probed.touched }
    base := { s.base with touched := extId :: s.base.touched }
    walk := extId :: s.walk, screen := extId :: s.screen }

/-- Whether an event is the answer of a probe that does not tell the list as it is. -/
def belies (s : Watched) : PollerEvent → Bool
  | .page entities total =>
      match s.poller.point with
      | .probing _ | .calibrating _ _ _ =>
          !s.list.answers (sub.key.kind.probeBy.getD "") entities total
      | _ => false
  | _ => false

/-- What an event of the task makes of the moments. -/
def note (s : Watched) (e : PollerEvent) (p : Poller) : Watched :=
  let now : Mark := { rows := s.list.rows }
  match e, s.poller.point with
  | .page _ _, .probing _ => { s with poller := p, probed := now, walk := [] }
  | .page _ _, .walking _ w =>
      if p.point.isWalking then { s with poller := p }
      else
        match w.purpose with
        | .plain => { s with poller := p, screen := s.walk, calibrating := false }
        | .calibrate _ => { s with poller := p }
        | .changed answer =>
            { s with
              poller := p, screen := s.walk, calibrating := false
              base := if answer.extId.isSome then s.probed else s.base }
  | .page entities _, .calibrating _ _ _ =>
      { s with
        poller := p, probed := now, screen := s.walk, calibrating := true
        base := if entities.isEmpty then s.base else now }
  | .begin, _ | .failed _, _ => { s with poller := p, walk := [] }
  | _, _ => { s with poller := p }

/-- One event. -/
def step (s : Watched) : WatchedEvent → Option Watched
  | .write w => (s.list.write instantOf w).map fun list => { s.touch w.extId with list }
  | .poll e =>
      if s.belies sub e then none else (s.poller.step instantOf sub e).map fun p => s.note e p

/-- A cycle decides to skip its walk. -/
def skips (s : Watched) : WatchedEvent → Bool
  | .write _ => false
  | .poll e => !s.belies sub e && s.poller.skips sub e

/-- The list holds the rows it held at the probe of the baseline, and none of them was touched in between;
and that probe came before the walk on the screen, unless that was the calibrating one. -/
structure Unchanged (s : Watched) : Prop where
  rows : s.list.rows = s.base.rows
  untouched : ∀ extId ∈ s.base.touched, extId ∉ s.list.rows.map Prod.fst
  before : s.calibrating = false → s.screen <+: s.base.touched

end Watched

/-! ### What a list is since a moment -/

variable {instantOf : String → Option ℤ} {sub : Polled} {l l' : Listing} {m : Mark} {w : Write}

/-- Rows whose values are no newer than the last one given. -/
def Dated (instantOf : String → Option ℤ) (l : Listing) (rows : List (String × String)) : Prop :=
  ∀ r ∈ rows, ∃ t u, instantOf r.2 = some t ∧ l.latest = some u ∧ t ≤ u

/-- The rows since a moment: those written since, on top of those of the moment that were not touched. -/
structure Since (instantOf : String → Option ℤ) (l : Listing) (m : Mark) : Prop where
  split : ∃ fresh, l.rows = fresh ++ m.rows.filter (fun r => !m.touched.contains r.1) ∧
    ∀ r ∈ fresh, r.1 ∈ m.touched ∧ ∀ r' ∈ m.rows, r.2 ≠ r'.2
  dated : Dated instantOf l m.rows

theorem since_now (h : Dated instantOf l l.rows) : Since instantOf l { rows := l.rows } where
  split := ⟨[], by simp, by simp⟩
  dated := h

theorem dated_write {rows : List (String × String)} (h : Dated instantOf l rows)
    (hw : l.write instantOf w = some l') : Dated instantOf l' rows := by
  intro r hr
  obtain ⟨t, u, ht, hu, hle⟩ := h r hr
  cases w with
  | put extId value =>
      simp only [Listing.write] at hw
      split at hw
      · cases hw
      · next t' ht' =>
          split at hw
          · next hlater =>
              obtain rfl := Option.some.inj hw
              rw [hu] at hlater
              have hlt : u < t' := by simpa using hlater
              exact ⟨t, t', ht, rfl, by omega⟩
          · cases hw
  | delete extId =>
      simp only [Listing.write] at hw
      split at hw
      · obtain rfl := Option.some.inj hw
        exact ⟨t, u, ht, hu, hle⟩
      · cases hw

/-- A write leaves the rows dated. -/
theorem dated_rows_write (h : Dated instantOf l l.rows) (hw : l.write instantOf w = some l') :
    Dated instantOf l' l'.rows := by
  have hold := dated_write h hw
  intro r hr
  cases w with
  | put extId value =>
      simp only [Listing.write] at hw
      split at hw
      · cases hw
      · next t' ht' =>
          split at hw
          · obtain rfl := Option.some.inj hw
            obtain rfl | hr := List.mem_cons.1 hr
            · exact ⟨t', t', ht', rfl, Int.le_refl t'⟩
            · exact hold r (List.mem_filter.1 hr).1
          · cases hw
  | delete extId =>
      simp only [Listing.write] at hw
      split at hw
      · obtain rfl := Option.some.inj hw
        exact hold r (List.mem_filter.1 hr).1
      · cases hw

/-- The rows without a row, since a moment. -/
theorem split_without {fresh : List (String × String)} {extId : String}
    (hrows : l.rows = fresh ++ m.rows.filter fun r => !m.touched.contains r.1) :
    without extId l.rows =
      without extId fresh ++ m.rows.filter fun r => !(extId :: m.touched).contains r.1 := by
  rw [hrows, without, List.filter_append, List.filter_filter, without]
  congr 1
  refine List.filter_congr fun r _ => ?_
  rw [List.contains_cons, Bool.not_or, bne]

/-- What a list is since a moment, after one more write. -/
theorem Since.write (h : Since instantOf l m) (hw : l.write instantOf w = some l') :
    Since instantOf l' { m with touched := w.extId :: m.touched } := by
  obtain ⟨fresh, hrows, hfresh⟩ := h.split
  refine ⟨?_, dated_write h.dated hw⟩
  have hold : ∀ r ∈ without w.extId fresh, r.1 ∈ w.extId :: m.touched ∧ ∀ r' ∈ m.rows, r.2 ≠ r'.2 := by
    intro r hr
    obtain ⟨hmem, hne⟩ := hfresh r (List.mem_filter.1 hr).1
    exact ⟨List.mem_cons_of_mem _ hmem, hne⟩
  cases w with
  | put extId value =>
      simp only [Listing.write] at hw
      split at hw
      · cases hw
      · next t ht =>
          split at hw
          · next hlater =>
              obtain rfl := Option.some.inj hw
              refine ⟨(extId, value) :: without extId fresh, ?_, ?_⟩
              · exact congrArg (List.cons (extId, value)) (split_without hrows)
              · intro r hr
                obtain rfl | hr := List.mem_cons.1 hr
                · refine ⟨List.mem_cons_self, fun r' hr' heq => ?_⟩
                  -- a value given before is no newer than the last one
                  obtain ⟨t', u, ht', hu, hle⟩ := h.dated r' hr'
                  rw [← heq, ht, Option.some.injEq] at ht'
                  rw [hu] at hlater
                  have hlt : u < t := by simpa using hlater
                  omega
                · exact hold r hr
          · cases hw
  | delete extId =>
      simp only [Listing.write] at hw
      split at hw
      · obtain rfl := Option.some.inj hw
        exact ⟨without extId fresh, split_without hrows, hold⟩
      · cases hw

/-- A list whose newest row and whose number of rows are those of a moment is the list of that moment, and
nothing of it was touched. -/
theorem Since.eq_of_agrees (h : Since instantOf l m) {r : String × String} (hbase : m.rows.head? = some r)
    (hhead : l.rows.head? = some r) (hlen : l.rows.length = m.rows.length) :
    l.rows = m.rows ∧ ∀ extId ∈ m.touched, extId ∉ l.rows.map Prod.fst := by
  obtain ⟨fresh, hrows, hfresh⟩ := h.split
  have hmem : r ∈ m.rows := List.mem_of_mem_head? hbase
  cases fresh with
  | cons f fresh =>
      rw [hrows, List.cons_append, List.head?_cons, Option.some.injEq] at hhead
      exact absurd rfl ((hhead ▸ (hfresh f List.mem_cons_self).2) r hmem)
  | nil =>
      rw [List.nil_append] at hrows
      have hall : ∀ x ∈ m.rows, (!m.touched.contains x.1) = true :=
        List.length_filter_eq_length_iff.1 (by rw [← hrows, hlen])
      rw [List.filter_eq_self.2 hall] at hrows
      refine ⟨hrows, fun extId htouched hin => ?_⟩
      rw [hrows] at hin
      obtain ⟨x, hx, rfl⟩ := List.mem_map.1 hin
      have hnot := hall x hx
      rw [Bool.not_eq_true', List.contains_eq_mem, decide_eq_false_iff_not] at hnot
      exact hnot htouched

/-! ### The invariant -/

/-- A moment is the one an answer was read at. -/
def Reads (m : Mark) (answer : ProbeAnswer) : Prop :=
  ∀ v i n, answer = ⟨some v, some i, some n⟩ → m.rows.head? = some (i, v) ∧ m.rows.length = n

/-- The baseline was taken of a probe, and that probe came before the walk on the screen. -/
def Based (instantOf : String → Option ℤ) (s : Watched) : Prop :=
  ∀ v i n k, s.poller.state = .armed v i n k →
    s.base.rows.head? = some (i, v) ∧ s.base.rows.length = n ∧ Since instantOf s.list s.base ∧
      (s.calibrating = false → s.screen <+: s.base.touched)

/-- The walk under way began after the probe of the baseline; where it came after a probe, after that one
too; and where it calibrates there is no baseline yet. -/
def Walks (instantOf : String → Option ℤ) (s : Watched) : Prop :=
  match s.poller.point with
  | .walking _ w =>
      (s.poller.state.isArmed = true → s.walk <+: s.base.touched) ∧
        match w.purpose with
        | .plain => True
        | .calibrate _ => s.poller.state.isArmed = false
        | .changed answer =>
            Since instantOf s.list s.probed ∧ Reads s.probed answer ∧ s.walk <+: s.probed.touched
  | .calibrating _ _ _ => s.poller.state.isArmed = false
  | _ => True

structure Watched.Inv (instantOf : String → Option ℤ) (s : Watched) : Prop where
  dated : Dated instantOf s.list s.list.rows
  based : Based instantOf s
  walks : Walks instantOf s

variable {s s' : Watched} {p : Poller} {a : Attempt}

/-! ### Writes -/

attribute [local simp] Walks Watched.note

theorem inv_write (h : s.Inv instantOf) (hw : s.list.write instantOf w = some l') :
    Watched.Inv instantOf { s.touch w.extId with list := l' } where
  dated := dated_rows_write h.dated hw
  based := by
    intro v i n k hstate
    obtain ⟨hhead, hlen, hsince, hbefore⟩ := h.based v i n k hstate
    exact ⟨hhead, hlen, hsince.write hw, fun hcal => List.cons_prefix_cons.2 ⟨rfl, hbefore hcal⟩⟩
  walks := by
    have hwalks := h.walks
    rw [Walks] at hwalks ⊢
    cases hp : s.poller.point with
    | walking a w' =>
        rw [hp] at hwalks
        obtain ⟨hbase, hpurpose⟩ := hwalks
        simp only [Watched.touch, hp]
        refine ⟨fun harmed => List.cons_prefix_cons.2 ⟨rfl, hbase harmed⟩, ?_⟩
        cases hq : w'.purpose with
        | plain => trivial
        | calibrate field =>
            rw [hq] at hpurpose
            exact hpurpose
        | changed answer =>
            rw [hq] at hpurpose
            obtain ⟨hsince, hreads, hprobe⟩ := hpurpose
            exact ⟨hsince.write hw, hreads, List.cons_prefix_cons.2 ⟨rfl, hprobe⟩⟩
    | calibrating a walk full =>
        rw [hp] at hwalks
        simp only [Watched.touch, hp]
        exact hwalks
    | head | fetching a | probing a | waiting | parked | sleeping | finished =>
        simp only [Watched.touch, hp]

/-! ### Events of the task that are no page -/

/-- A point at which no walk is under way. -/
def Point.isQuiet : Point → Bool
  | .walking _ _ | .calibrating _ _ _ => false
  | _ => true

/-- A walk that has just begun, if one has. -/
def Fresh (p : Poller) : Prop :=
  match p.point with
  | .walking _ w => w.purpose = .plain ∨ (∃ field, w.purpose = .calibrate field) ∧ p.state.isArmed = false
  | .calibrating _ _ _ => False
  | _ => True

theorem fresh_startAttempt (p : Poller) (a : Attempt) : Fresh (p.startAttempt sub a) := by
  rw [Poller.startAttempt]
  split
  · trivial
  · split
    · exact .inl rfl
    · split
      · exact .inl rfl
      · split
        · next hun => exact .inr ⟨⟨_, rfl⟩, by rw [Poller.ask, hun]; rfl⟩
        · trivial

@[simp] theorem state_startAttempt (p : Poller) (a : Attempt) : (p.startAttempt sub a).state = p.state := by
  rw [Poller.startAttempt]
  split
  · rfl
  · split
    · rfl
    · split
      · rfl
      · split <;> rfl

theorem quiet_ended (p : Poller) (error : Option PrismError) : (p.ended sub error).point.isQuiet = true := by
  obtain heq | heq := @Poller.ended_cases sub p error
  · rw [heq]; rfl
  · rw [heq]; rfl

@[simp] theorem state_ended (p : Poller) (error : Option PrismError) : (p.ended sub error).state = p.state := by
  obtain heq | heq := @Poller.ended_cases sub p error
  · rw [heq]
  · rw [heq]

theorem failed_fresh (p : Poller) (a : Attempt) (e : PrismError) :
    (p.failed sub a e).state = p.state ∧ Fresh (p.failed sub a e) := by
  obtain heq | heq | ⟨-, heq⟩ := @Poller.failed_cases sub p a e
  · rw [heq]
    exact ⟨state_startAttempt p _, fresh_startAttempt p _⟩
  · rw [heq]
    exact ⟨rfl, trivial⟩
  · rw [heq]
    exact ⟨rfl, trivial⟩

/-- A walk begins only at the head of a cycle or after a 404. -/
theorem step_fresh {q : Poller} {e : PollerEvent} (hstart : e = .begin ∨ ∃ err, e = .failed err)
    (hstep : p.step instantOf sub e = some q) : q.state = p.state ∧ Fresh q := by
  obtain rfl | ⟨err, rfl⟩ := hstart
  · cases Poller.step_cases hstep with
    | begin hpoint => exact ⟨state_startAttempt _ _, fresh_startAttempt _ _⟩
  · cases Poller.step_cases hstep with
    | failed err hpoint => exact failed_fresh p _ err

/-- An event that neither answers a page nor begins a walk. -/
def PollerEvent.isOther : PollerEvent → Bool
  | .page _ _ | .begin | .failed _ => false
  | _ => true

/-- What such an event leaves as it was. -/
theorem step_other {q : Poller} {e : PollerEvent} (hother : e.isOther = true)
    (hstep : p.step instantOf sub e = some q) :
    q.state = p.state ∧ (q.point = p.point ∨ q.point.isQuiet = true) := by
  cases Poller.step_cases hstep with
  | begin _ | skip _ _ | change _ _ | turn _ _ _ | walked _ _ | calibrated _ | failed _ _ => cases hother
  | entity hpoint => exact ⟨state_ended p none, .inr (quiet_ended p none)⟩
  | park hpoint hrest => exact ⟨rfl, .inr rfl⟩
  | sleep hpoint hrest => exact ⟨rfl, .inr rfl⟩
  | doze hpoint hidle => exact ⟨rfl, .inr rfl⟩
  | due hpoint hidle => exact ⟨rfl, .inr rfl⟩
  | wake hpoint hwake harmed => exact ⟨rfl, .inr rfl⟩
  | stir hpoint hwake harmed => exact ⟨rfl, .inr rfl⟩
  | respawn hpoint honce => exact ⟨rfl, .inr rfl⟩
  | refresh _ | passed _ | refreshAll _ | off | every _ | stop _ | setIdle _ => exact ⟨rfl, .inl rfl⟩

/-- A walk that begins is one since which nothing was written. -/
theorem walks_fresh (hfresh : Fresh p) : Walks instantOf { s with poller := p, walk := [] } := by
  rw [Walks]
  rw [Fresh] at hfresh
  cases hp : p.point with
  | walking a w =>
      rw [hp] at hfresh
      refine ⟨fun _ => List.nil_prefix, ?_⟩
      obtain hplain | ⟨⟨field, hcal⟩, harmed⟩ := hfresh
      · simp only [hplain]
      · simp only [hcal]
        exact harmed
  | calibrating a walk full =>
      rw [hp] at hfresh
      exact hfresh.elim
  | head | fetching a | probing a | waiting | parked | sleeping | finished => trivial

theorem walks_quiet (hquiet : p.point.isQuiet = true) (s : Watched) (hs : s.poller = p) :
    Walks instantOf s := by
  subst hs
  rw [Walks]
  cases hp : s.poller.point with
  | walking a w => rw [hp] at hquiet; cases hquiet
  | calibrating a walk full => rw [hp] at hquiet; cases hquiet
  | head | fetching a | probing a | waiting | parked | sleeping | finished => trivial

theorem quiet_isWalking {point : Point} (h : point.isQuiet = true) : point.isWalking = false := by
  cases point with
  | walking a w => cases h
  | calibrating a walk full => cases h
  | head | fetching a | probing a | waiting | parked | sleeping | finished => rfl

theorem isArmed_eq {state : ProbeState} {v i : String} {n k : ℕ} (h : state = .armed v i n k) :
    state.isArmed = true := by
  rw [h]
  rfl

/-- The start of a cycle, and a failure. -/
theorem inv_begun {e : PollerEvent} (h : s.Inv instantOf) (hstart : e = .begin ∨ ∃ err, e = .failed err)
    (hstep : s.poller.step instantOf sub e = some p) : (s.note e p).Inv instantOf := by
  obtain ⟨hstate, hfresh⟩ := step_fresh hstart hstep
  have hnote : s.note e p = { s with poller := p, walk := [] } := by
    obtain rfl | ⟨err, rfl⟩ := hstart
    · rfl
    · rfl
  rw [hnote]
  exact ⟨h.dated, fun v i n k hs => h.based v i n k (hstate.symm.trans hs), walks_fresh hfresh⟩

/-- An event that touches no walk. -/
theorem inv_other {e : PollerEvent} (h : s.Inv instantOf) (hother : e.isOther = true)
    (hstep : s.poller.step instantOf sub e = some p) : (s.note e p).Inv instantOf := by
  obtain ⟨hstate, hpoint⟩ := step_other hother hstep
  have hnote : s.note e p = { s with poller := p } := by
    cases e with
    | page entities total => cases hother
    | begin => cases hother
    | failed err => cases hother
    | entity | rest | elapsed | woken | refresh | refreshAll | setInterval _ | stop | setIdle _ => rfl
  rw [hnote]
  refine ⟨h.dated, fun v i n k hs => h.based v i n k (hstate.symm.trans hs), ?_⟩
  obtain hsame | hquiet := hpoint
  · have hwalks := h.walks
    rw [Walks] at hwalks ⊢
    simp only [hsame, hstate]
    exact hwalks
  · exact walks_quiet hquiet _ rfl

/-! ### Pages -/

@[simp] theorem state_land (p : Poller) (full : Bool) : (p.land full).state = p.state := by
  cases full <;> rfl

/-- An answer that tells the list as it is is read at this moment. -/
theorem reads_of_answers {entities : List Entity} {total : Option ℕ}
    (h : s.list.answers (sub.key.kind.probeBy.getD "") entities total = true) :
    Reads { rows := s.list.rows } (Poller.answerOf sub entities total) := by
  intro v i n hanswer
  rw [Listing.answers, Bool.and_eq_true, beq_iff_eq, beq_iff_eq] at h
  obtain ⟨hrows, htotal⟩ := h
  rw [Poller.answerOf, ProbeAnswer.of, ProbeAnswer.mk.injEq] at hanswer
  obtain ⟨hv, hi, hn⟩ := hanswer
  cases entities with
  | nil => cases hi
  | cons e es =>
      refine ⟨?_, Option.some.inj (htotal.symm.trans hn)⟩
      cases hl : s.list.rows with
      | nil => rw [hl] at hrows; cases hrows
      | cons r rs =>
          rw [hl] at hrows
          simp only [List.map_cons, List.head?_cons, Option.toList_some, List.map_nil, List.cons.injEq,
            Prod.mk.injEq, List.map_eq_nil_iff] at hrows
          obtain ⟨⟨hid, hsort⟩, -⟩ := hrows
          have hv' : some r.2 = some v := hsort.symm.trans hv
          have hi' : some r.1 = some i := (congrArg some hid.symm).trans hi
          rw [List.head?_cons, Option.some.injEq]
          exact Prod.ext (Option.some.inj hi') (Option.some.inj hv')

/-- A skip counts, and nothing else. -/
theorem armed_of_skipped {state : ProbeState} {v i : String} {n k : ℕ} (h : state.skipped = .armed v i n k) :
    ∃ k', state = .armed v i n k' := by
  cases state with
  | unarmed => cases h
  | disarmed => cases h
  | armed v' i' n' k' =>
      obtain ⟨rfl, rfl, rfl, -⟩ := ProbeState.armed.inj h
      exact ⟨k', rfl⟩

/-- A probe that skips. -/
theorem inv_skip (h : s.Inv instantOf) {entities : List Entity} {total : Option ℕ} {a : Attempt}
    (hpoint : s.poller.point = .probing a) :
    (s.note (.page entities total) ({ s.poller with state := s.poller.state.skipped }.ended sub none)).Inv
      instantOf := by
  simp only [Watched.note, hpoint]
  refine ⟨h.dated, fun v i n k hstate => ?_, walks_quiet (quiet_ended _ none) _ rfl⟩
  rw [state_ended] at hstate
  obtain ⟨k', hstate⟩ := armed_of_skipped hstate
  exact h.based v i n k' hstate

/-- A probe that finds a change. -/
theorem inv_change (h : s.Inv instantOf) {entities : List Entity} {total : Option ℕ} {a : Attempt}
    (hpoint : s.poller.point = .probing a)
    (hanswers : s.list.answers (sub.key.kind.probeBy.getD "") entities total = true) :
    (s.note (.page entities total) (s.poller.ask
      (.walking a { purpose := .changed (Poller.answerOf sub entities total) }))).Inv instantOf := by
  simp only [Watched.note, hpoint]
  exact ⟨h.dated, h.based, fun _ => List.nil_prefix, since_now h.dated, reads_of_answers hanswers,
    List.nil_prefix⟩

/-- The answer to the probe after the walk. -/
theorem inv_calibrated (h : s.Inv instantOf) {entities : List Entity} {total : Option ℕ} {a : Attempt}
    {walk : Walk} {full : Bool} (hpoint : s.poller.point = .calibrating a walk full)
    (hanswers : s.list.answers (sub.key.kind.probeBy.getD "") entities total = true) :
    (s.note (.page entities total) (({ s.poller with
      pages := walk.pages
      state := calibrate instantOf s.poller.state (Poller.answerOf sub entities total) (some walk) }.land
        full).ended sub none)).Inv instantOf := by
  have hwalks := h.walks
  rw [Walks, hpoint] at hwalks
  simp only [Watched.note, hpoint]
  refine ⟨h.dated, fun v i n k hstate => ?_, walks_quiet (quiet_ended _ none) _ rfl⟩
  rw [state_ended, state_land] at hstate
  obtain ⟨hanswer, -⟩ | ⟨-, -, harmed⟩ := calibrate_eq_armed hstate
  · have hread := reads_of_answers hanswers v i n hanswer
    have hsome : entities.isEmpty = false := by
      cases entities with
      | nil => cases (ProbeAnswer.mk.inj hanswer).2.1
      | cons e es => rfl
    simp only [hsome, Bool.false_eq_true, if_false]
    exact ⟨hread.1, hread.2, since_now h.dated, fun hcal => Bool.noConfusion (hcal : true = false)⟩
  · rw [harmed] at hwalks
    cases hwalks

/-- A page with another to come. -/
theorem inv_turn (h : s.Inv instantOf) {entities : List Entity} {total : Option ℕ} {a : Attempt} {w : Paging}
    (hpoint : s.poller.point = .walking a w) :
    (s.note (.page entities total) (s.poller.ask
      (.walking a { w.read instantOf entities with page := (w.read instantOf entities).page + 1 }))).Inv
        instantOf := by
  have hwalks := h.walks
  rw [Walks, hpoint] at hwalks
  obtain ⟨harmed, hpurpose⟩ := hwalks
  simp only [Watched.note, hpoint]
  refine ⟨h.dated, h.based, harmed, ?_⟩
  simp only [Poller.purpose_read]
  exact hpurpose

/-- The last page of a walk. -/
theorem inv_walked (h : s.Inv instantOf) {entities : List Entity} {total : Option ℕ} {a : Attempt} {w : Paging}
    (full : Bool) (hpoint : s.poller.point = .walking a w) :
    (s.note (.page entities total)
      (s.poller.walked instantOf sub a (w.read instantOf entities) full)).Inv instantOf := by
  have hwalks := h.walks
  rw [Walks, hpoint] at hwalks
  obtain ⟨harmed, hpurpose⟩ := hwalks
  simp only [Watched.note, hpoint]
  have hq : (w.read instantOf entities).purpose = w.purpose := Poller.purpose_read w entities
  cases hw : w.purpose with
  | plain =>
      rw [Poller.walked, hq, hw]
      simp only [quiet_isWalking (quiet_ended _ none), Bool.false_eq_true, if_false]
      refine ⟨h.dated, fun v i n k hstate => ?_, walks_quiet (quiet_ended _ none) _ rfl⟩
      rw [state_ended, state_land] at hstate
      obtain ⟨hhead, hlen, hsince, -⟩ := h.based v i n k hstate
      exact ⟨hhead, hlen, hsince, fun _ => harmed (isArmed_eq hstate)⟩
  | calibrate field =>
      rw [hw] at hpurpose
      rw [Poller.walked, hq, hw]
      exact ⟨h.dated, h.based, hpurpose⟩
  | changed answer =>
      rw [hw] at hpurpose
      obtain ⟨hsince, hreads, hprobe⟩ := hpurpose
      rw [Poller.walked, hq, hw]
      simp only [quiet_isWalking (quiet_ended _ none), Bool.false_eq_true, if_false]
      refine ⟨h.dated, fun v i n k hstate => ?_, walks_quiet (quiet_ended _ none) _ rfl⟩
      rw [state_ended, state_land] at hstate
      obtain ⟨hanswer, -⟩ | ⟨hnone, -, hbefore⟩ := calibrate_eq_armed hstate
      · obtain ⟨hhead, hlen⟩ := hreads v i n hanswer
        simp only [hanswer, Option.isSome_some, if_true]
        exact ⟨hhead, hlen, hsince, fun _ => hprobe⟩
      · -- an empty answer leaves the baseline as it was
        obtain ⟨hhead, hlen, hbase, -⟩ := h.based v i n k hbefore
        simp only [hnone, Option.isSome_none, Bool.false_eq_true, if_false]
        exact ⟨hhead, hlen, hbase, fun _ => harmed (isArmed_eq hbefore)⟩

/-! ### Runs -/

/-- What a step keeps. -/
theorem watched_step {e : WatchedEvent} (h : s.Inv instantOf) (hstep : s.step instantOf sub e = some s') :
    s'.Inv instantOf := by
  cases e with
  | write w =>
      obtain ⟨list, hw, rfl⟩ := Option.map_eq_some_iff.1 hstep
      exact inv_write h hw
  | poll e =>
      simp only [Watched.step] at hstep
      split at hstep
      · cases hstep
      · next hbelies =>
          obtain ⟨p, hp, rfl⟩ := Option.map_eq_some_iff.1 hstep
          by_cases hother : e.isOther = true
          · exact inv_other h hother hp
          · cases Poller.step_cases hp with
            | begin hpoint => exact inv_begun h (.inl rfl) hp
            | failed err hpoint => exact inv_begun h (.inr ⟨err, rfl⟩) hp
            | skip hpoint hdec => exact inv_skip h hpoint
            | change hpoint hdec =>
                exact inv_change h hpoint (by simpa [Watched.belies, hpoint] using hbelies)
            | turn hpoint hmore hstop => exact inv_turn h hpoint
            | walked hpoint hlast => exact inv_walked h _ hpoint
            | calibrated hpoint =>
                exact inv_calibrated h hpoint (by simpa [Watched.belies, hpoint] using hbelies)
            | entity | park | sleep | doze | due | wake | stir => exact absurd rfl hother
            | respawn | refresh | passed | refreshAll => exact absurd rfl hother
            | off | every | stop | setIdle => exact absurd rfl hother

/-- A walk is skipped only for an answer that agrees with the baseline. -/
theorem unchanged_of_skips {e : WatchedEvent} (h : s.Inv instantOf) (hskips : s.skips sub e = true) :
    s.Unchanged := by
  cases e with
  | write w => cases hskips
  | poll e =>
      rw [Watched.skips, Bool.and_eq_true, Bool.not_eq_true'] at hskips
      obtain ⟨hbelies, hskips⟩ := hskips
      rw [Poller.skips.eq_def] at hskips
      split at hskips
      · next entities total =>
          split at hskips
          · next a hpoint =>
              have hanswers : s.list.answers (sub.key.kind.probeBy.getD "") entities total = true := by
                simpa [Watched.belies, hpoint] using hbelies
              obtain ⟨-, v, i, n, k, hstate, hanswer, -⟩ := probeDecision_eq_skip.1 (beq_iff_eq.1 hskips)
              obtain ⟨hhead, hlen, hsince, hbefore⟩ := h.based v i n k hstate
              obtain ⟨hnow, htotal⟩ := reads_of_answers hanswers v i n hanswer
              obtain ⟨hrows, hnot⟩ := hsince.eq_of_agrees hhead hnow (htotal.trans hlen.symm)
              exact ⟨hrows, hnot, hbefore⟩
          · cases hskips
      · cases hskips

theorem inv_watched (every : ℕ) : Watched.Inv instantOf { poller := .start every } where
  dated := fun _ hr => absurd hr List.not_mem_nil
  based := fun _ _ _ _ hstate => ProbeState.noConfusion hstate
  walks := trivial

/-- In every run a walk is skipped only when the list is what it was at the probe of the baseline. -/
theorem unchanged_along (instantOf : String → Option ℤ) (sub : Polled) (every : ℕ) (es : List WatchedEvent) :
    Run.Along (Watched.step instantOf sub) (fun s e => s.skips sub e = true → s.Unchanged)
      { poller := .start every } es := by
  have hall : ∀ (es : List WatchedEvent) (s : Watched), s.Inv instantOf →
      Run.Along (Watched.step instantOf sub) (fun s e => s.skips sub e = true → s.Unchanged) s es := by
    intro es
    induction es with
    | nil => exact fun _ _ => trivial
    | cons e es ih =>
        intro s h
        exact ⟨unchanged_of_skips h, fun t ht => ih t (watched_step h ht)⟩
  exact hall es _ (inv_watched every)

/-! ### A row that changes while the walk calibrates, and one that comes and goes -/

def lateStamp : String := "2026-01-01T00:00:02Z"

/-- The three instants. -/
def instantOfStamp (s : String) : Option ℤ := if s = lateStamp then some 2 else Poller.instantOfDay s

open Poller (oldStamp newStamp stampedRow tasksSub walkAnswers probeAnswered)

/-- Two rows, and a first walk. -/
def firstWalk : List WatchedEvent :=
  .write (.put "b" oldStamp) :: .write (.put "a" newStamp) :: .poll .begin :: walkAnswers.map .poll

/-- The wait for the next cycle, and its start. -/
def nextCycle : List WatchedEvent := [.poll .rest, .poll .elapsed, .poll .begin]

/-- A row that is changed behind the page it was read on, while the walk calibrates. -/
def changedBehind : List WatchedEvent :=
  firstWalk ++ nextCycle ++
    [.poll (.page [stampedRow "a" newStamp] (some 2)), .write (.put "a" lateStamp),
      .poll (.page [stampedRow "b" oldStamp] (some 2)), .poll (.page [stampedRow "a" lateStamp] (some 2))] ++
    nextCycle ++ [.poll (.page [stampedRow "a" lateStamp] (some 2))]

/-- A row that comes and goes while a walk goes on that was forced. -/
def cameAndWent : List WatchedEvent :=
  firstWalk ++ nextCycle ++ (walkAnswers ++ [probeAnswered]).map .poll ++
    [.poll .rest, .poll .refresh, .poll .woken, .poll .begin, .poll probeAnswered, .write (.put "c" lateStamp),
      .write (.delete "c")] ++
    walkAnswers.map .poll ++ nextCycle ++ [.poll probeAnswered]

/-- A walk is skipped though a row on the screen has changed since it was read, and, though no walk
calibrated, though a row came and went. -/
theorem not_unwritten_along :
    (¬ ∀ (instantOf : String → Option ℤ) (sub : Polled) (every : ℕ) (es : List WatchedEvent),
      Run.Along (Watched.step instantOf sub) (fun s e => s.skips sub e = true → s.screen = [])
        { poller := .start every } es) ∧
    ¬ ∀ (instantOf : String → Option ℤ) (sub : Polled) (every : ℕ) (es : List WatchedEvent),
      Run.Along (Watched.step instantOf sub)
        (fun s e => s.skips sub e = true → s.calibrating = false → s.screen = []) { poller := .start every } es := by
  constructor
  · intro hall
    exact absurd (hall instantOfStamp tasksSub 30 changedBehind) (by decide +kernel)
  · intro hall
    exact absurd (hall instantOfStamp tasksSub 30 cameAndWent) (by decide +kernel)

end Nutsh.Polls
