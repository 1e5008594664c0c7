/-
The task of one subscription, request by request.

A task runs cycle after cycle: a single read, a walk over the pages of a list, or a probe that decides
whether there is a walk.  Between two cycles it waits, for the clock or for a wake.  The scheduler reaches
it through flags that the task reads where it comes to them: a request in flight is not taken back, a sleep
that has begun is not cut short by a stop, and a wake starts a cycle only when it is armed.

How long the task sleeps is left open, and so is what the server answers.

Main definitions:

* `Polled` — what a subscription polls;
* `Point` — where its task is;
* `Poller` — the flags, the probe and the task;
* `Poller.step` — what can happen, in any order: the answers, the clock, and what the scheduler is called
  with;
* `Poller.step_cases` — everything a step can do, with where it can do it.
-/
import Nutsh.Lib.Run
import Nutsh.Prism.Negotiate
import Nutsh.Scheduler.Probe

set_option relaxedAutoImplicit false
set_option autoImplicit false

namespace Nutsh.Polls

open Prism (PrismError)

/-- The pages one cycle walks at most. -/
def MAX_PAGES : ℕ := 200

/-- The rows of one page at most. -/
def PAGE_LIMIT : ℕ := 100

/-! ### Subscriptions and failures -/

/-- What a subscription polls: a list, or one entity. -/
structure Polled where
  key : TableKey
  single : Option String := none
  pageSize : ℕ := 100
  maxRows : Option ℕ := none
  once : Bool := false
  pausable : Bool := true

/-- A list under no parent: its answer is about the endpoint. -/
def isEndpointList (sub : Polled) : Bool := sub.single.isNone && sub.key.parents.isEmpty

def isMissingList (sub : Polled) : PrismError → Bool
  | .notFound _ => isEndpointList sub
  | _ => false

/-- Why a request failed, in the terms the screen tells apart. -/
def causeOf (notServed : Bool) : PrismError → Cause
  | .notFound _ => if notServed then .notServed else .notFound
  | .api status _ _ => if 500 ≤ status then .unavailable status else .rejected status
  | .rateLimited _ => .rateLimited
  | .auth => .rejected 401
  | .denied _ => .denied
  | .forbidden _ => .rejected 403
  | .conflict _ _ _ => .rejected 412
  | .transport _ => .unreachable
  | .decode _ => .unreadable
  | _ => .local

def failureOf (kind : Kind) (e : PrismError) (notServed : Bool) : Failure :=
  { cause := causeOf notServed e, «namespace» := kind.namespace, upstream := e.text }

/-! ### Walks -/

/-- Whether a walk fetches another page. -/
def morePages (pages : Bool) (count limit fetched : ℕ) (total : Option ℕ) (page : ℕ) (budget : Option ℕ) :
    Bool :=
  pages && 0 < count && page + 1 < MAX_PAGES && budget.all (fun b => fetched < b) &&
    match total with
    | some t => fetched < t
    | none => count == limit

/-- Why a cycle walks. -/
inductive Purpose where
  /-- There is nothing to probe, or it would not pay. -/
  | plain
  /-- The probe comes after the walk, and is compared with what the walk saw under the field. -/
  | calibrate (field : String)
  /-- The probe came first and did not agree with the baseline. -/
  | changed (answer : ProbeAnswer)

/-- How far a walk has come. -/
structure Paging where
  purpose : Purpose
  page : ℕ := 0
  fetched : ℕ := 0
  walk : Walk := {}
  newest : Option ℤ := none

namespace Paging

variable (instantOf : String → Option ℤ)

/-- The newest value so far, with one more row. -/
def see (field : String) (w : Paging) (e : Entity) : Paging :=
  match (sortValueOf field e).bind fun seen => (instantOf seen).map fun t => (seen, t) with
  | none => w
  | some (seen, t) =>
      if w.newest.all (· < t) then { w with newest := some t, walk := { w.walk with maxSort := some seen } }
      else w

/-- The walk with one more page. -/
def read (w : Paging) (entities : List Entity) : Paging :=
  let w := { w with
    fetched := w.fetched + entities.length
    walk := { w.walk with pages := w.walk.pages + 1, sawRows := w.walk.sawRows || !entities.isEmpty } }
  match w.purpose with
  | .calibrate field => entities.foldl (see instantOf field) w
  | _ => w

/-- Whether another page follows the one that was read. -/
def more (sub : Polled) (w : Paging) (entities : List Entity) (total : Option ℕ) : Bool :=
  morePages sub.key.kind.page entities.length (min (max sub.pageSize 1) PAGE_LIMIT) w.fetched total w.page
    sub.maxRows

end Paging

/-! ### The task -/

/-- One attempt of a cycle: whether it is to walk, and whether it is the second, after a 404. -/
structure Attempt where
  dirty : Bool
  second : Bool := false
  deriving DecidableEq

/-- Where a task is. -/
inductive Point where
  /-- At the head of its loop, before a cycle. -/
  | head
  /-- The single read is in flight. -/
  | fetching (a : Attempt)
  /-- The probe that decides is in flight. -/
  | probing (a : Attempt)
  /-- A page is in flight. -/
  | walking (a : Attempt) (w : Paging)
  /-- The probe after a walk is in flight; `full` when the walk was not cut short. -/
  | calibrating (a : Attempt) (walk : Walk) (full : Bool)
  /-- After a cycle or a wake, before the flags are read. -/
  | waiting
  /-- Waits for a wake. -/
  | parked
  /-- Waits for the clock or a wake. -/
  | sleeping
  /-- The task has returned. -/
  | finished

/-- The attempt whose request is in flight. -/
def Point.attempt : Point → Option Attempt
  | .fetching a | .probing a | .walking a _ | .calibrating a _ _ => some a
  | .head | .waiting | .parked | .sleeping | .finished => none

/-- The flags of a subscription, what its probe knows, and its task. -/
structure Poller where
  /-- The permit of the notification. -/
  wake : Bool := false
  /-- The next wake starts a cycle. -/
  armed : Bool := false
  stop : Bool := false
  idle : Bool := false
  /-- The seconds between two cycles, 0 for no schedule. -/
  interval : ℕ
  state : ProbeState := .unarmed
  /-- The next cycle must walk. -/
  dirty : Bool := false
  /-- The pages of the last walk. -/
  pages : ℕ := 0
  point : Point := .head
  -- what follows is counted, and read by nothing
  /-- The requests sent. -/
  requests : ℕ := 0
  /-- The cycles begun. -/
  cycles : ℕ := 0
  /-- The cycles that landed a walk that was cut short. -/
  partials : List ℕ := []
  /-- A refresh has not been followed by a full walk. -/
  owed : Bool := false

inductive PollerEvent where
  /-- A cycle begins. -/
  | begin
  /-- A page is answered, of a walk or of a probe. -/
  | page (entities : List Entity) (total : Option ℕ)
  /-- The single read is answered. -/
  | entity
  | failed (e : PrismError)
  /-- The flags are read before a wait. -/
  | rest
  /-- The clock comes round. -/
  | elapsed
  /-- The permit is taken. -/
  | woken
  | refresh
  | refreshAll
  | setInterval (every : Option ℕ)
  | stop
  | setIdle (idle : Bool)

namespace Poller

/-- A request sent. -/
def ask (s : Poller) (point : Point) : Poller := { s with point, requests := s.requests + 1 }

/-- A walk landed: a full one is what a refresh asked for. -/
def land (s : Poller) (full : Bool) : Poller :=
  if full then { s with owed := false } else { s with partials := s.cycles :: s.partials }

variable (instantOf : String → Option ℤ) (sub : Polled)

/-- The end of a cycle: a task that runs once returns, and so does one that was answered what it would be
answered again. -/
def ended (s : Poller) (error : Option PrismError) : Poller :=
  if sub.once then { s with point := .finished }
  else
    match error with
    | none => { s with point := .waiting }
    | some e =>
        if isMissingList sub e || (failureOf sub.key.kind e (isMissingList sub e)).isTerminal then
          { s with point := .finished }
        else { s with point := .waiting }

/-- The first request of an attempt. -/
def startAttempt (s : Poller) (a : Attempt) : Poller :=
  if sub.single.isSome then s.ask (.fetching a)
  else
    match sub.key.kind.probeBy with
    | none => s.ask (.walking a { purpose := .plain })
    | some field =>
        if s.state = .disarmed ∨ s.pages < 2 then s.ask (.walking a { purpose := .plain })
        else if s.state = .unarmed then s.ask (.walking a { purpose := .calibrate field })
        else s.ask (.probing a)

/-- A failed attempt: the first 404 of a list is asked once more. -/
def failed (s : Poller) (a : Attempt) (e : PrismError) : Poller :=
  if isMissingList sub e && !a.second then s.startAttempt sub ⟨true, true⟩ else s.ended sub (some e)

/-- A walk that has ended. -/
def walked (s : Poller) (a : Attempt) (w : Paging) (full : Bool) : Poller :=
  match w.purpose with
  | .plain => ({ s with pages := w.walk.pages }.land full).ended sub none
  | .calibrate _ => s.ask (.calibrating a w.walk full)
  | .changed answer =>
      ({ s with pages := w.walk.pages, state := calibrate instantOf s.state answer none }.land full).ended sub
        none

/-- A page that is answered. -/
def paged (s : Poller) (entities : List Entity) (total : Option ℕ) : Option Poller :=
  let answer := ProbeAnswer.of (sub.key.kind.probeBy.getD "") entities total
  match s.point with
  | .probing a =>
      match probeDecision s.state answer a.dirty with
      | .skip => some ({ s with state := s.state.skipped }.ended sub none)
      | .walk => some (s.ask (.walking a { purpose := .changed answer }))
  | .walking a w =>
      let w := w.read instantOf entities
      -- the stop is read after the page, not before its request
      if w.more sub entities total && !s.stop then some (s.ask (.walking a { w with page := w.page + 1 }))
      else some (s.walked instantOf sub a w (!w.more sub entities total))
  | .calibrating _ walk full =>
      some (({ s with pages := walk.pages, state := calibrate instantOf s.state answer (some walk) }.land
        full).ended sub none)
  | _ => none

/-- The wake every refresh ends with: the walk is asked for, and the wake is armed. -/
def arm (s : Poller) : Poller := { s with dirty := true, armed := true, wake := true }

/-- One event. -/
def step (s : Poller) : PollerEvent → Option Poller
  | .begin =>
      match s.point with
      | .head => some ({ s with dirty := false, cycles := s.cycles + 1 }.startAttempt sub ⟨s.dirty, false⟩)
      | _ => none
  | .page entities total => s.paged instantOf sub entities total
  | .entity =>
      match s.point with
      | .fetching _ => some (s.ended sub none)
      | _ => none
  | .failed e =>
      match s.point with
      | .fetching a | .probing a | .walking a _ | .calibrating a _ _ => some (s.failed sub a e)
      | _ => none
  | .rest =>
      match s.point with
      | .waiting =>
          if s.interval = 0 ∨ s.stop = true ∨ sub.pausable = true ∧ s.idle = true then
            some { s with point := .parked }
          else some { s with point := .sleeping }
      | _ => none
  | .elapsed =>
      match s.point with
      | .sleeping =>
          if sub.pausable = true ∧ s.idle = true then some { s with point := .waiting }
          else some { s with point := .head }
      | _ => none
  | .woken =>
      match s.point with
      | .parked | .sleeping =>
          if !s.wake then none
          else if s.armed then some { s with wake := false, armed := false, point := .head }
          else some { s with wake := false, point := .waiting }
      | _ => none
  | .refresh =>
      match s.point with
      | .finished =>
          -- a task that has returned is spawned again, unless it was to run once
          if sub.once then some { s.arm with stop := false, owed := true }
          else some { s with dirty := true, armed := true, stop := false, owed := true, point := .head }
      | _ => some { s.arm with stop := false, owed := true }
  | .refreshAll => if s.interval = 0 then some s else some { s.arm with owed := true }
  | .setInterval every =>
      match every with
      | none => some { s with interval := 0, stop := false, wake := true }
      | some n => some { s.arm with interval := max n 1, stop := false }
  | .stop =>
      match s.point with
      | .finished => none
      | _ => some { s with stop := true }
  | .setIdle idle => some { s with idle }

/-- A subscription that has just been made. -/
def start (every : ℕ) : Poller := { interval := max every 1 }

/-! ### What a step can do -/

/-- The answer read off a page, when it is the answer of a probe. -/
def answerOf (sub : Polled) (entities : List Entity) (total : Option ℕ) : ProbeAnswer :=
  .of (sub.key.kind.probeBy.getD "") entities total

/-- What each event does, and where it can happen. -/
inductive Step (s : Poller) : PollerEvent → Poller → Prop where
  | begin (hpoint : s.point = .head) :
      Step s .begin
        ({ s with dirty := false, cycles := s.cycles + 1 }.startAttempt sub ⟨s.dirty, false⟩)
  | skip {a : Attempt} {entities : List Entity} {total : Option ℕ} (hpoint : s.point = .probing a)
      (hdec : probeDecision s.state (answerOf sub entities total) a.dirty = .skip) :
      Step s (.page entities total) ({ s with state := s.state.skipped }.ended sub none)
  | change {a : Attempt} {entities : List Entity} {total : Option ℕ} (hpoint : s.point = .probing a)
      (hdec : probeDecision s.state (answerOf sub entities total) a.dirty = .walk) :
      Step s (.page entities total)
        (s.ask (.walking a { purpose := .changed (answerOf sub entities total) }))
  | turn {a : Attempt} {w : Paging} {entities : List Entity} {total : Option ℕ}
      (hpoint : s.point = .walking a w) (hmore : (w.read instantOf entities).more sub entities total = true)
      (hstop : s.stop = false) :
      Step s (.page entities total)
        (s.ask (.walking a
          { w.read instantOf entities with page := (w.read instantOf entities).page + 1 }))
  | walked {a : Attempt} {w : Paging} {entities : List Entity} {total : Option ℕ}
      (hpoint : s.point = .walking a w)
      (hlast : ((w.read instantOf entities).more sub entities total && !s.stop) = false) :
      Step s (.page entities total)
        (s.walked instantOf sub a (w.read instantOf entities)
          (!(w.read instantOf entities).more sub entities total))
  | calibrated {a : Attempt} {walk : Walk} {full : Bool} {entities : List Entity} {total : Option ℕ}
      (hpoint : s.point = .calibrating a walk full) :
      Step s (.page entities total)
        (({ s with
          pages := walk.pages
          state := calibrate instantOf s.state (answerOf sub entities total) (some walk) }.land full).ended
            sub none)
  | entity {a : Attempt} (hpoint : s.point = .fetching a) : Step s .entity (s.ended sub none)
  | failed {a : Attempt} (e : PrismError) (hpoint : s.point.attempt = some a) :
      Step s (.failed e) (s.failed sub a e)
  | park (hpoint : s.point = .waiting)
      (hrest : s.interval = 0 ∨ s.stop = true ∨ sub.pausable = true ∧ s.idle = true) :
      Step s .rest { s with point := .parked }
  | sleep (hpoint : s.point = .waiting)
      (hrest : ¬ (s.interval = 0 ∨ s.stop = true ∨ sub.pausable = true ∧ s.idle = true)) :
      Step s .rest { s with point := .sleeping }
  | doze (hpoint : s.point = .sleeping) (hidle : sub.pausable = true ∧ s.idle = true) :
      Step s .elapsed { s with point := .waiting }
  | due (hpoint : s.point = .sleeping) (hidle : ¬ (sub.pausable = true ∧ s.idle = true)) :
      Step s .elapsed { s with point := .head }
  | wake (hpoint : s.point = .parked ∨ s.point = .sleeping) (hwake : s.wake = true) (harmed : s.armed = true) :
      Step s .woken { s with wake := false, armed := false, point := .head }
  | stir (hpoint : s.point = .parked ∨ s.point = .sleeping) (hwake : s.wake = true) (harmed : s.armed = false) :
      Step s .woken { s with wake := false, point := .waiting }
  | respawn (hpoint : s.point = .finished) (honce : ¬ sub.once = true) :
      Step s .refresh
        { s with dirty := true, armed := true, stop := false, owed := true, point := .head }
  | refresh (hlives : s.point = .finished → sub.once = true) :
      Step s .refresh { s.arm with stop := false, owed := true }
  | passed (hinterval : s.interval = 0) : Step s .refreshAll s
  | refreshAll (hinterval : s.interval ≠ 0) : Step s .refreshAll { s.arm with owed := true }
  | off : Step s (.setInterval none) { s with interval := 0, stop := false, wake := true }
  | every (n : ℕ) : Step s (.setInterval (some n)) { s.arm with interval := max n 1, stop := false }
  | stop (hlives : s.point ≠ .finished) : Step s .stop { s with stop := true }
  | setIdle (idle : Bool) : Step s (.setIdle idle) { s with idle }

variable {instantOf sub} {s t : Poller} {e : PollerEvent}

/-- A page answered, by where the task is. -/
theorem step_of_paged {entities : List Entity} {total : Option ℕ}
    (h : s.paged instantOf sub entities total = some t) : Step instantOf sub s (.page entities total) t := by
  simp only [paged] at h
  split at h
  · next a hpoint =>
      split at h
      · next hdec =>
          obtain rfl := Option.some.inj h
          exact .skip hpoint hdec
      · next hdec =>
          obtain rfl := Option.some.inj h
          exact .change hpoint hdec
  · next a w hpoint =>
      split at h
      · next hmore =>
          obtain rfl := Option.some.inj h
          rw [Bool.and_eq_true, Bool.not_eq_true'] at hmore
          exact .turn hpoint hmore.1 hmore.2
      · next hlast =>
          obtain rfl := Option.some.inj h
          exact .walked hpoint (eq_false_of_ne_true hlast)
  · next a walk full hpoint =>
      obtain rfl := Option.some.inj h
      exact .calibrated hpoint
  · cases h

/-- **Everything a step can do.** -/
theorem step_cases (h : s.step instantOf sub e = some t) : Step instantOf sub s e t := by
  cases e with
  | begin =>
      simp only [step] at h
      split at h
      · next hpoint =>
          obtain rfl := Option.some.inj h
          exact .begin hpoint
      · cases h
  | page entities total => exact step_of_paged h
  | entity =>
      simp only [step] at h
      split at h
      · next hpoint =>
          obtain rfl := Option.some.inj h
          exact .entity hpoint
      · cases h
  | failed err =>
      simp only [step] at h
      split at h
      · next hpoint => exact Option.some.inj h ▸ .failed err (by rw [hpoint]; rfl)
      · next hpoint => exact Option.some.inj h ▸ .failed err (by rw [hpoint]; rfl)
      · next hpoint => exact Option.some.inj h ▸ .failed err (by rw [hpoint]; rfl)
      · next hpoint => exact Option.some.inj h ▸ .failed err (by rw [hpoint]; rfl)
      · cases h
  | rest =>
      simp only [step] at h
      split at h
      · next hpoint =>
          split at h
          · next hrest => exact Option.some.inj h ▸ .park hpoint hrest
          · next hrest => exact Option.some.inj h ▸ .sleep hpoint hrest
      · cases h
  | elapsed =>
      simp only [step] at h
      split at h
      · next hpoint =>
          split at h
          · next hidle => exact Option.some.inj h ▸ .doze hpoint hidle
          · next hidle => exact Option.some.inj h ▸ .due hpoint hidle
      · cases h
  | woken =>
      have hwoken : (s.point = .parked ∨ s.point = .sleeping) →
          (if !s.wake then none
            else if s.armed then some { s with wake := false, armed := false, point := .head }
            else some { s with wake := false, point := .waiting }) = some t →
          Step instantOf sub s .woken t := by
        intro hpoint h
        split at h
        · cases h
        · next hwake =>
            rw [Bool.not_eq_true, Bool.not_eq_false'] at hwake
            split at h
            · next harmed => exact Option.some.inj h ▸ .wake hpoint hwake harmed
            · next harmed =>
                exact Option.some.inj h ▸ .stir hpoint hwake (eq_false_of_ne_true harmed)
      simp only [step] at h
      split at h
      · next hpoint => exact hwoken (.inl hpoint) h
      · next hpoint => exact hwoken (.inr hpoint) h
      · cases h
  | refresh =>
      simp only [step] at h
      split at h
      · next hpoint =>
          split at h
          · next honce => exact Option.some.inj h ▸ .refresh fun _ => honce
          · next honce => exact Option.some.inj h ▸ .respawn hpoint honce
      · next hpoint => exact Option.some.inj h ▸ .refresh fun heq => (hpoint heq).elim
  | refreshAll =>
      simp only [step] at h
      split at h
      · next hinterval => exact Option.some.inj h ▸ .passed hinterval
      · next hinterval => exact Option.some.inj h ▸ .refreshAll hinterval
  | setInterval every =>
      cases every with
      | none => exact Option.some.inj h ▸ .off
      | some n => exact Option.some.inj h ▸ .every n
  | stop =>
      simp only [step] at h
      split at h
      · cases h
      · next hpoint => exact Option.some.inj h ▸ .stop hpoint
  | setIdle idle => exact Option.some.inj h ▸ .setIdle idle

end Poller

end Nutsh.Polls
