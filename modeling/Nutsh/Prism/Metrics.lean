/-
The request meter.

Five counters are kept for each of the last sixty seconds, in a ring whose slots are cleared when they are written
to again.  The meter is the sums over the last ten and the last sixty of them.  The counters are `u64`s, and so
are their sums.

* `Counter`, `Metrics` — what is counted, and the ring with the instant its seconds start at;
* `Metrics.record`, `Metrics.sum`, `Metrics.snapshot` — counting, the sum over some seconds, and the meter;
* `Metrics.sum_run` — a sum over some seconds is what was counted in them, and so the meter tells of the last ten
  and the last sixty.
-/
import Mathlib.Data.UInt
import Nutsh.Lib.LazyRing
import Nutsh.Prism.Bucket

set_option relaxedAutoImplicit false
set_option autoImplicit false

namespace Nutsh.Prism

/-- One-second buckets in the ring. -/
def BUCKETS : ℕ := 60

/-- The buckets the rate averages over. -/
def RATE_BUCKETS : ℕ := 10

instance : NeZero BUCKETS := ⟨by decide⟩

/-- What is counted. -/
inductive Counter where
  /-- Requests that went out. -/
  | made
  /-- Requests a cache spared. -/
  | avoided
  /-- Requests that went out and a cache could have spared. -/
  | avoidableMade
  /-- The budget slept, or a response drained it. -/
  | throttled
  /-- The pipe failed. -/
  | failed
  deriving DecidableEq, Repr

/-- One second's counts. -/
abbrev Counts := Counter → UInt64

/-- The ring, and the instant its seconds are counted from. -/
structure Metrics where
  origin : ℕ
  ring : Fin BUCKETS → LazyRing.Slot Counts

namespace Metrics

/-- A meter with nothing counted; its slots are of a second that never comes. -/
def since (origin : ℕ) : Metrics := { origin := origin, ring := LazyRing.empty fun _ => 2 ^ 64 - 1 }

/-- Whole seconds from the origin, none before it. -/
def second (m : Metrics) (now : ℕ) : ℕ := (now - m.origin) / Prism.second

/-- Counts `n` of something at an instant. -/
def record (m : Metrics) (counter : Counter) (now : ℕ) (n : UInt64) : Metrics :=
  { m with ring := LazyRing.record m.ring (m.second now) (Pi.single counter n) }

def recordStarted (m : Metrics) (now : ℕ) : Metrics := m.record .made now 1

def recordFailed (m : Metrics) (now : ℕ) : Metrics := m.record .failed now 1

def recordThrottled (m : Metrics) (now : ℕ) : Metrics := m.record .throttled now 1

def recordRateLimited (m : Metrics) (now : ℕ) : Metrics := m.record .throttled now 1

def recordAvoided (m : Metrics) (now : ℕ) (n : UInt64) : Metrics := m.record .avoided now n

def recordAvoidable (m : Metrics) (now : ℕ) (n : UInt64) : Metrics := m.record .avoidableMade now n

/-- The sum of the `window` seconds that end with that of an instant. -/
def sum (m : Metrics) (now window : ℕ) : Counts := LazyRing.sum m.ring (m.second now) window

/-- What the status line draws: the requests the rate is of, those a cache spared out of those it could have, and
whether something slept or failed. -/
structure Meter where
  made : UInt64
  cached : Option (UInt64 × UInt64)
  throttled : Bool
  failed : Bool

/-- The meter of the sums over a short and a long window. -/
def Meter.ofSums (short long : Counts) : Meter :=
  let denominator := long .avoided + long .avoidableMade
  { made := short .made
    cached := if denominator > 0 then some (long .avoided, denominator) else none
    throttled := short .throttled > 0
    failed := short .failed > 0 }

def snapshot (m : Metrics) (now : ℕ) : Meter := .ofSums (m.sum now RATE_BUCKETS) (m.sum now BUCKETS)

/-! ### Runs -/

/-- What a client tells its meter. -/
inductive Event where
  | started
  | failed
  | throttled
  | rateLimited
  | avoided (n : UInt64)
  | avoidable (n : UInt64)

/-- The counter an event goes to. -/
def Event.counter : Event → Counter
  | .started => .made
  | .failed => .failed
  | .throttled => .throttled
  | .rateLimited => .throttled
  | .avoided _ => .avoided
  | .avoidable _ => .avoidableMade

/-- What it counts for. -/
def Event.count : Event → UInt64
  | .avoided n => n
  | .avoidable n => n
  | _ => 1

def tell (m : Metrics) (now : ℕ) : Event → Metrics
  | .started => m.recordStarted now
  | .failed => m.recordFailed now
  | .throttled => m.recordThrottled now
  | .rateLimited => m.recordRateLimited now
  | .avoided n => m.recordAvoided now n
  | .avoidable n => m.recordAvoidable now n

/-- The meter after some events, each at its instant. -/
def run (origin : ℕ) (events : List (ℕ × Event)) : Metrics :=
  events.foldl (fun m e => m.tell e.1 e.2) (since origin)

/-- What was counted by a counter in some seconds. -/
def counted (origin : ℕ) (events : List (ℕ × Event)) (counter : Counter) (seconds : ℕ → Bool) : UInt64 :=
  ((events.filter fun e => e.2.counter == counter && seconds ((since origin).second e.1)).map fun e => e.2.count).sum

theorem tell_eq (m : Metrics) (now : ℕ) (e : Event) : m.tell now e = m.record e.counter now e.count := by
  cases e <;> rfl

/-- An event as the ring records it. -/
def recorded (origin : ℕ) (e : ℕ × Event) : ℕ × Counts :=
  ((since origin).second e.1, Pi.single e.2.counter e.2.count)

theorem run_eq (origin : ℕ) (events : List (ℕ × Event)) :
    run origin events =
      { origin := origin
        ring := LazyRing.run (LazyRing.empty fun _ => 2 ^ 64 - 1) (events.map (recorded origin)) } := by
  induction events using List.reverseRecOn with
  | nil => rfl
  | append_singleton events e ih =>
      rw [run, List.foldl_append, ← run, ih, List.map_append, List.map_singleton, LazyRing.run_concat]
      exact tell_eq ..

theorem second_mono (m : Metrics) {now later : ℕ} (h : now ≤ later) : m.second now ≤ m.second later :=
  Nat.div_le_div_right (Nat.sub_le_sub_right h m.origin)

theorem total_recorded (origin : ℕ) (events : List (ℕ × Event)) (counter : Counter) (seconds : ℕ → Bool) :
    LazyRing.total (events.map (recorded origin)) seconds counter = counted origin events counter seconds := by
  induction events with
  | nil => rfl
  | cons e events ih =>
      rw [List.map_cons, LazyRing.total_cons, Pi.add_apply, ih, counted, counted, List.filter_cons]
      cases hin : seconds ((since origin).second e.1) with
      | false => simp [recorded, hin]
      | true =>
          by_cases hcounter : e.2.counter = counter
          · subst hcounter
            simp [recorded, hin]
          · simp [recorded, hin, hcounter, Ne.symm hcounter]

/-- The counts of the `window` seconds that end with that of an instant. -/
def countedLast (origin : ℕ) (events : List (ℕ × Event)) (now window : ℕ) : Counts := fun counter =>
  counted origin events counter fun t => decide ((since origin).second now < t + window)

/-- **The sums over some seconds** are what was counted in them, and the meter is of the last ten and sixty. -/
theorem sum_run (origin : ℕ) {events : List (ℕ × Event)} (hsorted : events.Pairwise fun e e' => e.1 ≤ e'.1) {now : ℕ}
    (hnow : ∀ e ∈ events, e.1 ≤ now) :
    (∀ window, 1 ≤ window → window ≤ BUCKETS →
      (run origin events).sum now window = countedLast origin events now window) ∧
    (run origin events).snapshot now =
      .ofSums (countedLast origin events now RATE_BUCKETS) (countedLast origin events now BUCKETS) := by
  have hsum (window : ℕ) (hwindow : 1 ≤ window ∧ window ≤ BUCKETS) :
      (run origin events).sum now window = countedLast origin events now window := by
    funext counter
    rw [run_eq, sum, countedLast, ← total_recorded]
    refine congrFun (LazyRing.sum_window _ ?_ ?_ hwindow) counter
    · exact List.pairwise_map.2 (hsorted.imp fun hle => second_mono _ hle)
    · exact List.forall_mem_map.2 fun e he => second_mono _ (hnow e he)
  refine ⟨fun window hpos hle => hsum window ⟨hpos, hle⟩, ?_⟩
  rw [snapshot, hsum RATE_BUCKETS (by decide), hsum BUCKETS (by decide)]

/-- Sixty seconds after a request its slot is that of another second. -/
theorem sum_run_wrapped :
    (run 0 [(0, .started), (60 * Prism.second, .avoided 3)]).sum (60 * Prism.second) 60 =
      countedLast 0 [(0, .started), (60 * Prism.second, .avoided 3)] (60 * Prism.second) 60 :=
  (sum_run 0 (by simp) (by simp)).1 60 (by decide) (by decide)

end Metrics

end Nutsh.Prism
