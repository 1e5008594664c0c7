/-
A rate budget, and what a Prism Central says about its own.

A bucket remembers its takes for the period of its limit and refuses the take that would exceed the
count.  A 429 holds it empty until an instant, and past that instant the takes it remembered are
forgotten.  A response states a limit, which replaces the one in force for the host up to a ceiling, and
a longer budget, which brakes and then holds.  Instants and durations are in nanoseconds.

* `RateLimit`, `Bucket` — a budget and the takes spent from it;
* `Advertised` — the limits one response states;
* `RateLimit.Within` — a limit that allows at most what another does.
-/
import Mathlib.Tactic.Ring
import Nutsh.Body
import Nutsh.Lib.Window

set_option relaxedAutoImplicit false
set_option autoImplicit false

namespace Nutsh.Prism

/-- The nanoseconds of a second. -/
def second : ℕ := 1000000000

/-- A count of requests in a period of seconds. -/
structure RateLimit where
  count : ℕ
  perSecs : ℕ
  deriving DecidableEq, Repr

namespace RateLimit

/-- The budget of an operation whose spec declares none. -/
def default : RateLimit := { count := 5, perSecs := 1 }

/-- Whether a limit allows fewer requests a second than another. -/
def tighterThan (a b : RateLimit) : Bool := decide (a.count * b.perSecs < b.count * a.perSecs)

/-- The limit a bucket runs at, neither of its numbers below one. -/
def clamped (limit : RateLimit) : RateLimit :=
  { count := max limit.count 1, perSecs := max limit.perSecs 1 }

end RateLimit

/-- The most a client allows itself against one Prism Central. -/
def hostCeiling : RateLimit := { count := 30, perSecs := 1 }

/-- What a client allows itself before any Prism Central has said otherwise. -/
def hostStart : RateLimit := { count := 3, perSecs := 1 }

/-- The longest a client waits because it was asked to. -/
def maxRetryAfter : ℕ := 60 * second

/-! ### The bucket -/

structure Bucket where
  limit : RateLimit
  /-- The takes remembered, oldest first. -/
  taken : List ℕ := []
  /-- Until when a 429 holds the bucket empty. -/
  blockedUntil : Option ℕ := none
  deriving DecidableEq, Repr

namespace Bucket

/-- The limit in force replaced; the takes stay. -/
def relimit (b : Bucket) (limit : RateLimit) : Bucket := { b with limit := limit.clamped }

def new (limit : RateLimit) : Bucket := ({ limit } : Bucket).relimit limit

def per (b : Bucket) : ℕ := b.limit.perSecs * second

/-- The takes still inside the period. -/
def live (b : Bucket) (now : ℕ) : List ℕ := b.taken.filter fun t => decide (now - t < b.per)

/-- How long a take would have to wait, `none` when it would not. -/
def peek (b : Bucket) (now : ℕ) : Option ℕ :=
  match b.blockedUntil with
  | some until_ => if now < until_ then some (until_ - now) else none
  | none =>
      let live := b.live now
      if live.length < b.limit.count then none
      else live[live.length - b.limit.count]?.map fun freed => b.per - (now - freed)

/-- A take, or how long to wait for one. -/
def take (b : Bucket) (now : ℕ) : Bucket × Option ℕ :=
  match b.peek now with
  | some wait => (b, some wait)
  | none =>
      let taken := if b.blockedUntil.isSome then [] else b.taken
      let kept := taken.dropWhile fun t => decide (b.per ≤ now - t)
      ({ b with blockedUntil := none, taken := kept ++ [now] }, none)

/-- A 429 arrived: the bucket is held empty, the later of two holds winning. -/
def drain (b : Bucket) (now retryAfter : ℕ) : Bucket :=
  let until_ := now + retryAfter
  { b with
    taken := List.replicate b.limit.count now,
    blockedUntil := some ((b.blockedUntil.map fun held => max held until_).getD until_) }

end Bucket

/-! ### What a response says -/

/-- The headers of a response whose values are texts. -/
abbrev Headers := String → Option String

/-- A header as a number. -/
def number (headers : Headers) (name : String) : Option ℕ :=
  (headers name).bind fun value => parseU64 (Text.trim value)

/-- How long the server asked for, five seconds when it did not say. -/
def retryAfter (headers : Headers) : ℕ :=
  min ((number headers "retry-after").getD 5 * second) maxRetryAfter

/-- A budget over a window no header gives. -/
structure Budget where
  limit : ℕ
  remaining : ℕ
  /-- When the window ends, if the far end said so. -/
  reset : Option ℕ
  deriving DecidableEq, Repr

/-- The rate limits one response states. -/
structure Advertised where
  tier : Option RateLimit
  budget : Option Budget
  deriving DecidableEq, Repr

/-- The share of the longer budget below which a client goes to a crawl. -/
def reserve : ℕ := 10

/-- The longest period a client adopts, in seconds. -/
def maxRefreshPeriod : ℕ := 3600

def u32Max : ℕ := 2 ^ 32 - 1

namespace Advertised

def read (headers : Headers) : Advertised :=
  let tier :=
    match number headers "x-api-ratelimit-limit",
      number headers "x-api-ratelimit-refresh-period-seconds" with
    | some count, some perSecs =>
        some { count := min count u32Max, perSecs := min perSecs maxRefreshPeriod }
    | _, _ => none
  let budget :=
    match number headers "x-ratelimit-limit", number headers "x-ratelimit-remaining" with
    | some limit, some remaining =>
        some {
          limit, remaining,
          reset := ((number headers "x-ratelimit-reset").filter fun s => decide (0 < s)).map fun s =>
            min (s * second) maxRetryAfter }
    | _, _ => none
  { tier, budget }

/-- Whether the longer budget is down to its last tenth. -/
def nearlySpent (a : Advertised) : Bool :=
  a.budget.any fun b =>
    decide (0 < b.limit ∧ 0 < b.remaining ∧ b.remaining ≤ max (b.limit / reserve) 1)

/-- The limit to run at from now on: the one stated, else the current one, up to the ceiling, and one
request a period while the longer budget is nearly spent. -/
def ceiling (a : Advertised) (current : RateLimit) : RateLimit :=
  let stated := a.tier.getD current
  let tier := if hostCeiling.tighterThan stated then hostCeiling else stated
  if a.nearlySpent then { count := 1, perSecs := max tier.perSecs 1 } else tier

/-- How long to hold every request because the longer budget is spent. -/
def hold (a : Advertised) (current : RateLimit) : Option ℕ :=
  (a.budget.filter fun b => b.remaining == 0).map fun b =>
    min (b.reset.getD (max current.perSecs 1 * second)) maxRetryAfter

end Advertised

/-! ### Limits compared -/

namespace RateLimit

/-- Whether a limit allows at most what another does, on the average. -/
def Within (a b : RateLimit) : Prop := a.count * b.perSecs ≤ b.count * a.perSecs

instance (a b : RateLimit) : Decidable (a.Within b) := by
  unfold Within
  infer_instance

variable {a b c : RateLimit}

theorem Within.trans (hpos : 0 < b.perSecs) (hab : a.Within b) (hbc : b.Within c) : a.Within c := by
  have h₁ : a.count * b.perSecs * c.perSecs ≤ b.count * a.perSecs * c.perSecs :=
    Nat.mul_le_mul_right _ hab
  have h₂ : b.count * c.perSecs * a.perSecs ≤ c.count * b.perSecs * a.perSecs :=
    Nat.mul_le_mul_right _ hbc
  have h : a.count * c.perSecs * b.perSecs ≤ c.count * a.perSecs * b.perSecs := by
    calc a.count * c.perSecs * b.perSecs = a.count * b.perSecs * c.perSecs := by ring
      _ ≤ b.count * a.perSecs * c.perSecs := h₁
      _ = b.count * c.perSecs * a.perSecs := by ring
      _ ≤ c.count * b.perSecs * a.perSecs := h₂
      _ = c.count * a.perSecs * b.perSecs := by ring
  exact Nat.le_of_mul_le_mul_right h hpos

theorem within_of_tighterThan (h : a.tighterThan b = true) : a.Within b := by
  unfold tighterThan at h
  exact le_of_lt (of_decide_eq_true h)

/-- Clamping changes only a zero. -/
theorem clamped_of_pos (hc : 0 < a.count) (hp : 0 < a.perSecs) : a.clamped = a := by
  unfold clamped
  rw [max_eq_left hc, max_eq_left hp]

theorem one_le_perSecs_clamped (a : RateLimit) : 1 ≤ a.clamped.perSecs := le_max_right _ _

theorem one_le_count_clamped (a : RateLimit) : 1 ≤ a.clamped.count := le_max_right _ _

end RateLimit

end Nutsh.Prism
