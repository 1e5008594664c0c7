/-
One bucket and the takes it grants.

Takes are asked for at readings of a clock that does not go back; in between the count of the limit may be
replaced and a 429 may hold the bucket.  Without a hold the bucket grants exactly the takes its limit
allows, though it forgets its takes one period at a time, and a refused take is told the very instant from
which it would be granted.  A hold makes the bucket forget all its takes, those of the last period too, so
with holds the limit is kept as long as each outlasts the takes before it.

Main definitions:

* `Spending`, `Spending.step` — a bucket, the takes it granted and the deadlines it was given;
* `Spending.Exact` — a take is granted when it may be, and refused for as long as it must be;
* `Spending.Outlasts` — a take that ends a hold finds the takes before the hold a period old;
* `Spending.Keeps` — no take comes before a deadline, and no window holds more takes than the limit.

Main results:

* `Spending.exact_along` — without a hold every take is exact;
* `Spending.keeps_along` — where every hold outlasts the takes before it, the limit is kept.
-/
import Mathlib.Order.Bounds.Basic
import Mathlib.Tactic.FinCases
import Nutsh.Lib.Run
import Nutsh.Prism.Pacing

set_option relaxedAutoImplicit false
set_option autoImplicit false

namespace Nutsh.Prism

/-! ### The run -/

structure Spending where
  bucket : Bucket
  clock : ℕ := 0
  /-- When a take was granted, oldest first. -/
  granted : List ℕ := []
  /-- The deadlines the holds were given. -/
  deadlines : List ℕ := []

/-- What is done to the bucket, at a reading of the clock. -/
inductive SpendingEvent where
  | take
  /-- The count of the limit is replaced, the period stays. -/
  | relimit (count : ℕ)
  /-- A 429 with what it asks for. -/
  | drain (retryAfter : ℕ)

namespace Spending

/-- How long a 429 holds a bucket: what it asks for, unless no clock tells that instant. -/
def heldFor (horizon now retryAfter : ℕ) : ℕ := if now + retryAfter ≤ horizon then retryAfter else maxRetryAfter

variable (horizon : ℕ)

def handle (s : Spending) (now : ℕ) : SpendingEvent → Spending
  | .take =>
      { s with
        bucket := (s.bucket.take now).1, clock := now
        granted := if (s.bucket.take now).2.isNone then s.granted ++ [now] else s.granted }
  | .relimit count => { s with bucket := s.bucket.relimit { s.bucket.limit with count }, clock := now }
  | .drain retryAfter =>
      { s with
        bucket := s.bucket.drain now (heldFor horizon now retryAfter), clock := now
        deadlines := (now + heldFor horizon now retryAfter) :: s.deadlines }

/-- One event; the clock does not go back. -/
def step (s : Spending) (e : SpendingEvent × ℕ) : Option Spending :=
  if e.2 < s.clock then none else some (s.handle horizon e.2 e.1)

/-- A bucket that has just been made. -/
def init (limit : RateLimit) : Spending := { bucket := .new limit }

/-- A take is granted exactly when fewer than the count were granted within the period, and a refused one
is told the least wait after which it would be granted. -/
def Exact (s : Spending) (now : ℕ) : Prop :=
  ((s.bucket.take now).2 = none ↔
    (Window.recent s.bucket.per now s.granted).length < s.bucket.limit.count) ∧
  ∀ wait, (s.bucket.take now).2 = some wait →
    0 < wait ∧ IsLeast {d | (s.bucket.take (now + d)).2 = none} wait

/-- A take that ends a hold comes when all takes granted before are a period old. -/
def Outlasts (s : Spending) : SpendingEvent × ℕ → Prop
  | (.take, now) =>
      s.bucket.blockedUntil.isSome = true → (s.bucket.take now).2 = none → ∀ t ∈ s.granted, t + s.bucket.per ≤ now
  | _ => True

/-- A take granted comes before no deadline, and no window of a period holds more takes than the limit. -/
def Keeps (s : Spending) (e : SpendingEvent × ℕ) : Prop :=
  ∀ t, s.step horizon e = some t →
    (t.granted ≠ s.granted → ∀ d ∈ s.deadlines, d ≤ e.2) ∧
      Window.Paced t.bucket.limit.count t.bucket.per t.granted

end Spending

/-! ### The takes remembered -/

namespace Bucket

variable {b : Bucket} {now : ℕ}

theorem take_snd (b : Bucket) (now : ℕ) : (b.take now).2 = b.peek now := by
  rw [take]
  cases b.peek now <;> rfl

theorem take_of_some {wait : ℕ} (h : b.peek now = some wait) : (b.take now).1 = b := by
  rw [take, h]

/-- The live takes are the recent ones. -/
theorem live_eq_recent (hpast : ∀ t ∈ b.taken, t ≤ now) :
    b.live now = Window.recent b.per now b.taken := by
  refine List.filter_congr fun t ht => ?_
  have hle := hpast t ht
  rw [decide_eq_decide]
  omega

theorem per_pos (h : 1 ≤ b.limit.perSecs) : 0 < b.per := Nat.mul_pos h (by decide)

end Bucket

namespace Spending

variable {horizon : ℕ} {s t : Spending} {e : SpendingEvent × ℕ} {now : ℕ}

/-- What a bucket remembers, outside a hold, are the takes of the last period. -/
structure Remembers (s : Spending) : Prop where
  split : s.bucket.blockedUntil = none →
    ∃ old, s.granted = old ++ s.bucket.taken ∧ ∀ t ∈ old, t + s.bucket.per ≤ s.clock
  sorted : s.granted.Pairwise (· ≤ ·)
  past : ∀ t ∈ s.granted, t ≤ s.clock
  count : 1 ≤ s.bucket.limit.count
  perSecs : 1 ≤ s.bucket.limit.perSecs

namespace Remembers

/-- The takes granted within the period are those the bucket has live. -/
theorem recent_eq (hs : s.Remembers) (hfree : s.bucket.blockedUntil = none) (hclock : s.clock ≤ now) :
    Window.recent s.bucket.per now s.granted = Window.recent s.bucket.per now s.bucket.taken ∧
      s.bucket.live now = Window.recent s.bucket.per now s.bucket.taken := by
  obtain ⟨old, hgranted, hold⟩ := hs.split hfree
  constructor
  · rw [hgranted]
    exact Window.recent_append_of_old fun u hu => (hold u hu).trans hclock
  · refine Bucket.live_eq_recent fun u hu => ?_
    have hle := hs.past u (by rw [hgranted]; exact List.mem_append_right old hu)
    exact hle.trans hclock

/-- Outside a hold a take is granted where there is room. -/
theorem peek_eq_none (hs : s.Remembers) (hfree : s.bucket.blockedUntil = none) (hclock : s.clock ≤ now) :
    s.bucket.peek now = none ↔
      (Window.recent s.bucket.per now s.bucket.taken).length < s.bucket.limit.count := by
  rw [← (hs.recent_eq hfree hclock).2]
  constructor
  · exact Bucket.length_live_lt_of_peek hs.count hfree
  · intro hroom
    rw [Bucket.peek, hfree]
    exact if_pos hroom

/-- The takes remembered are in order. -/
theorem sorted_taken (hs : s.Remembers) (hfree : s.bucket.blockedUntil = none) :
    s.bucket.taken.Pairwise (· ≤ ·) := by
  obtain ⟨old, hgranted, -⟩ := hs.split hfree
  have hsorted := hs.sorted
  rw [hgranted] at hsorted
  exact (List.pairwise_append.1 hsorted).2.1

/-- A take that is not granted is told the least wait. -/
theorem isLeast_wait (hs : s.Remembers) (hfree : s.bucket.blockedUntil = none) (hclock : s.clock ≤ now)
    {wait : ℕ} (hpeek : s.bucket.peek now = some wait) :
    0 < wait ∧ IsLeast {d | s.bucket.peek (now + d) = none} wait := by
  have hlive := (hs.recent_eq hfree hclock).2
  have hfull : ¬ (Window.recent s.bucket.per now s.bucket.taken).length < s.bucket.limit.count := by
    rw [← hs.peek_eq_none hfree hclock, hpeek]
    exact Option.some_ne_none wait
  rw [Bucket.peek, hfree] at hpeek
  simp only [hlive] at hpeek
  rw [if_neg hfull, Option.map_eq_some_iff] at hpeek
  obtain ⟨freed, hfreed, rfl⟩ := hpeek
  have hin : now < freed + s.bucket.per := by
    have hmem := (List.mem_filter.1 (List.mem_of_getElem? hfreed)).2
    simpa using hmem
  have hroom : ∀ d, s.bucket.peek (now + d) = none ↔ freed + s.bucket.per ≤ now + d := by
    intro d
    rw [hs.peek_eq_none hfree (hclock.trans (Nat.le_add_right now d)), ← Window.recent_recent (Nat.le_add_right now d)]
    exact Window.length_recent_lt_iff ((hs.sorted_taken hfree).filter _) hs.count (not_lt.1 hfull) hfreed
  have hpast : freed ≤ now := by
    obtain ⟨old, hgranted, -⟩ := hs.split hfree
    have hmem := (List.mem_filter.1 (List.mem_of_getElem? hfreed)).1
    exact (hs.past freed (by rw [hgranted]; exact List.mem_append_right old hmem)).trans hclock
  refine ⟨by omega, ?_, ?_⟩
  · rw [Set.mem_ofPred_eq, hroom]
    omega
  · intro d hd
    rw [Set.mem_ofPred_eq, hroom] at hd
    omega

/-- A take granted is remembered, and what was granted before is either remembered too or old. -/
theorem grant (hs : s.Remembers) (hclock : s.clock ≤ now) (hpeek : s.bucket.peek now = none)
    (hout : s.bucket.blockedUntil.isSome = true → ∀ t ∈ s.granted, t + s.bucket.per ≤ now) :
    Remembers { s with
      bucket := (s.bucket.take now).1, clock := now, granted := s.granted ++ [now] } := by
  obtain ⟨gone, kept, hsplit, hgone, htake⟩ := Bucket.take_of_peek hpeek
  have hper : (s.bucket.take now).1.per = s.bucket.per := by rw [htake]; rfl
  refine ⟨fun _ => ?_, ?_, ?_, ?_, ?_⟩
  · cases hblocked : s.bucket.blockedUntil with
    | none =>
        obtain ⟨old, hgranted, hold⟩ := hs.split hblocked
        simp only [hblocked, Option.isSome_none, Bool.false_eq_true, if_false] at hsplit
        refine ⟨old ++ gone, ?_, ?_⟩
        · simp only [htake, hgranted, hsplit, List.append_assoc]
        · intro u hu
          simp only [hper]
          obtain hu | hu := List.mem_append.1 hu
          · exact (hold u hu).trans hclock
          · have hage := hgone u hu
            have hpast := hs.past u (by rw [hgranted, hsplit]; simp [hu])
            have hpos := Bucket.per_pos hs.perSecs
            omega
    | some held =>
        simp only [hblocked, Option.isSome_some, if_true] at hsplit
        obtain ⟨rfl, rfl⟩ := List.append_eq_nil_iff.1 hsplit.symm
        refine ⟨s.granted, ?_, ?_⟩
        · simp only [htake, List.nil_append]
        · intro u hu
          simp only [hper]
          exact hout (by rw [hblocked]; rfl) u hu
  · rw [List.pairwise_append]
    refine ⟨hs.sorted, List.pairwise_singleton _ _, fun u hu v hv => ?_⟩
    rw [List.mem_singleton] at hv
    exact hv ▸ (hs.past u hu).trans hclock
  · intro u hu
    obtain hu | hu := List.mem_append.1 hu
    · exact (hs.past u hu).trans hclock
    · rw [List.mem_singleton] at hu
      exact hu.le
  · rw [Bucket.limit_take]
    exact hs.count
  · rw [Bucket.limit_take]
    exact hs.perSecs

/-- Time goes by. -/
theorem later (hs : s.Remembers) (hclock : s.clock ≤ now) : Remembers { s with clock := now } where
  split hfree := by
    obtain ⟨old, hgranted, hold⟩ := hs.split hfree
    exact ⟨old, hgranted, fun u hu => (hold u hu).trans hclock⟩
  sorted := hs.sorted
  past u hu := (hs.past u hu).trans hclock
  count := hs.count
  perSecs := hs.perSecs

/-- The count replaced. -/
theorem relimit (hs : s.Remembers) (count : ℕ) :
    Remembers { s with bucket := s.bucket.relimit { s.bucket.limit with count } } := by
  have hper : (s.bucket.relimit { s.bucket.limit with count }).per = s.bucket.per := by
    rw [Bucket.per, Bucket.per]
    exact congrArg (· * second) (max_eq_left hs.perSecs)
  refine ⟨fun hfree => ?_, hs.sorted, hs.past, le_max_right _ _, le_max_right _ _⟩
  obtain ⟨old, hgranted, hold⟩ := hs.split hfree
  refine ⟨old, hgranted, fun u hu => ?_⟩
  simp only [hper]
  exact hold u hu

/-- A hold. -/
theorem drain (hs : s.Remembers) (retryAfter : ℕ) (deadlines : List ℕ) :
    Remembers { s with bucket := s.bucket.drain now retryAfter, deadlines } :=
  ⟨fun hfree => absurd hfree (Option.some_ne_none _), hs.sorted, hs.past, hs.count, hs.perSecs⟩

end Remembers

theorem remembers_init (limit : RateLimit) : (init limit).Remembers :=
  ⟨fun _ => ⟨[], rfl, fun _ h => absurd h List.not_mem_nil⟩, List.Pairwise.nil, fun _ h => absurd h List.not_mem_nil,
    limit.one_le_count_clamped, limit.one_le_perSecs_clamped⟩

theorem step_eq_some : s.step horizon e = some t ↔ s.clock ≤ e.2 ∧ s.handle horizon e.2 e.1 = t := by
  rw [step]
  split
  · next hlt => exact ⟨nofun, fun h => absurd hlt (not_lt.2 h.1)⟩
  · next hle => rw [Option.some.injEq, and_iff_right (not_lt.1 hle)]

/-- What a step keeps, a take that ends a hold being late enough. -/
theorem remembers_step (hs : s.Remembers) (hout : s.Outlasts e) (h : s.step horizon e = some t) : t.Remembers := by
  obtain ⟨hclock, rfl⟩ := step_eq_some.1 h
  obtain ⟨e, now⟩ := e
  cases e with
  | take =>
      cases hpeek : s.bucket.peek now with
      | none =>
          rw [Outlasts, Bucket.take_snd, hpeek] at hout
          have hgrant := hs.grant hclock hpeek fun hblocked => hout hblocked rfl
          simpa [handle, Bucket.take_snd, hpeek] using hgrant
      | some wait =>
          have hlater := hs.later hclock
          simpa [handle, Bucket.take_snd, hpeek, Bucket.take_of_some hpeek] using hlater
  | relimit count => exact (hs.relimit count).later hclock
  | drain retryAfter => exact (hs.drain _ _).later hclock

/-! ### Without a hold -/

/-- No 429 comes. -/
def Undrained (es : List (SpendingEvent × ℕ)) : Prop := ∀ e ∈ es, ∀ retryAfter, e.1 ≠ .drain retryAfter

theorem free_step (hfree : s.bucket.blockedUntil = none) (hdrain : ∀ retryAfter, e.1 ≠ .drain retryAfter)
    (h : s.step horizon e = some t) : t.bucket.blockedUntil = none := by
  obtain ⟨-, rfl⟩ := step_eq_some.1 h
  obtain ⟨e, now⟩ := e
  cases e with
  | take =>
      cases hpeek : s.bucket.peek now with
      | none =>
          obtain ⟨gone, kept, -, -, htake⟩ := Bucket.take_of_peek hpeek
          simp only [handle, htake]
      | some wait =>
          simp only [handle, Bucket.take_of_some hpeek]
          exact hfree
  | relimit count => exact hfree
  | drain retryAfter => exact absurd rfl (hdrain retryAfter)

/-- In a run without a hold every take is exact: granted where there is room, and refused for the least
time otherwise. -/
theorem exact_along (horizon : ℕ) (limit : RateLimit) (es : List (SpendingEvent × ℕ)) (hes : Undrained es) :
    Run.Along (step horizon) (fun s e => s.clock ≤ e.2 → e.1 = .take → s.Exact e.2) (init limit) es := by
  have hall : ∀ (es : List (SpendingEvent × ℕ)) (s : Spending), Undrained es → s.Remembers →
      s.bucket.blockedUntil = none →
      Run.Along (step horizon) (fun s e => s.clock ≤ e.2 → e.1 = .take → s.Exact e.2) s es := by
    intro es
    induction es with
    | nil => exact fun _ _ _ _ => trivial
    | cons e es ih =>
        intro s hes hs hfree
        refine ⟨fun hclock _ => ?_, fun t ht => ?_⟩
        · simp only [Exact, Bucket.take_snd]
          rw [hs.peek_eq_none hfree hclock, (hs.recent_eq hfree hclock).1]
          exact ⟨Iff.rfl, fun wait hwait => hs.isLeast_wait hfree hclock hwait⟩
        · refine ih t (fun e' he' => hes e' (List.mem_cons_of_mem _ he')) (remembers_step hs ?_ ht)
            (free_step hfree (hes e List.mem_cons_self) ht)
          obtain ⟨e, now⟩ := e
          cases e with
          | take => exact fun hblocked => by rw [hfree] at hblocked; cases hblocked
          | relimit count => trivial
          | drain retryAfter => trivial
  exact hall es _ hes (remembers_init limit) rfl

/-- Two takes a second: the third is refused for half a second. -/
theorem exact_along_third :
    Run.Along (step 0) (fun s e => s.clock ≤ e.2 → e.1 = .take → s.Exact e.2) (init ⟨2, 1⟩)
      [(.take, 0), (.take, 0), (.take, second / 2)] :=
  exact_along 0 ⟨2, 1⟩ _ (by
    intro e he retryAfter
    fin_cases he <;> exact nofun)

/-! ### With holds -/

/-- No limit is replaced. -/
def Unlimited (es : List (SpendingEvent × ℕ)) : Prop := ∀ e ∈ es, ∀ count, e.1 ≠ .relimit count

/-- The deadlines are the bucket's, or past. -/
def Honours (s : Spending) : Prop := ∀ d ∈ s.deadlines, d ≤ s.bucket.blockedUntil.getD s.clock

/-- A take is granted only past every deadline. -/
theorem deadline_le_of_peek (hs : s.Honours) (hclock : s.clock ≤ now) (hpeek : s.bucket.peek now = none)
    {d : ℕ} (hd : d ∈ s.deadlines) : d ≤ now := by
  have hle := hs d hd
  cases hblocked : s.bucket.blockedUntil with
  | none =>
      rw [hblocked] at hle
      exact hle.trans hclock
  | some held =>
      rw [hblocked] at hle
      rw [Bucket.peek, hblocked] at hpeek
      have hpast : ¬ now < held := fun hlt => by simp [hlt] at hpeek
      exact hle.trans (not_lt.1 hpast)

theorem honours_step (hs : s.Honours) (h : s.step horizon e = some t) : t.Honours := by
  obtain ⟨hclock, rfl⟩ := step_eq_some.1 h
  obtain ⟨e, now⟩ := e
  have hlater : ∀ d ∈ s.deadlines, d ≤ s.bucket.blockedUntil.getD now := by
    intro d hd
    have hle := hs d hd
    cases hblocked : s.bucket.blockedUntil with
    | none =>
        rw [hblocked] at hle
        exact hle.trans hclock
    | some held =>
        rw [hblocked] at hle
        exact hle
  cases e with
  | take =>
      intro d hd
      cases hpeek : s.bucket.peek now with
      | none =>
          obtain ⟨gone, kept, -, -, htake⟩ := Bucket.take_of_peek hpeek
          have hfree : (s.bucket.take now).1.blockedUntil = none := by rw [htake]
          simp only [handle, hfree, Option.getD_none]
          exact deadline_le_of_peek hs hclock hpeek hd
      | some wait =>
          simp only [handle, Bucket.take_of_some hpeek]
          exact hlater d hd
  | relimit count => exact hlater
  | drain retryAfter =>
      intro d hd
      simp only [handle, Bucket.drain, Option.getD_some]
      cases hblocked : s.bucket.blockedUntil with
      | none =>
          rw [Option.map_none, Option.getD_none]
          obtain rfl | hd := List.mem_cons.1 hd
          · exact le_rfl
          · have hle := hlater d hd
            rw [hblocked, Option.getD_none] at hle
            exact hle.trans (Nat.le_add_right _ _)
      | some held =>
          rw [Option.map_some, Option.getD_some]
          obtain rfl | hd := List.mem_cons.1 hd
          · exact le_max_right _ _
          · have hle := hlater d hd
            rw [hblocked, Option.getD_some] at hle
            exact hle.trans (le_max_left _ _)

/-- A bucket of the limit, within which it granted its takes. -/
structure Within (limit : RateLimit) (s : Spending) : Prop where
  inForce : s.bucket.limit = limit.clamped
  paced : Window.Paced limit.clamped.count (limit.clamped.perSecs * second) s.granted

theorem within_step {limit : RateLimit} (hs : s.Remembers) (hw : Within limit s) (hout : s.Outlasts e)
    (hlimit : ∀ count, e.1 ≠ .relimit count) (h : s.step horizon e = some t) : Within limit t := by
  obtain ⟨hclock, rfl⟩ := step_eq_some.1 h
  obtain ⟨e, now⟩ := e
  cases e with
  | take =>
      refine ⟨(Bucket.limit_take _ _).trans hw.inForce, ?_⟩
      cases hpeek : s.bucket.peek now with
      | some wait =>
          simp only [handle, Bucket.take_snd, hpeek, Option.isNone_some, Bool.false_eq_true, if_false]
          exact hw.paced
      | none =>
          simp only [handle, Bucket.take_snd, hpeek, Option.isNone_none, if_true]
          refine hw.paced.snoc ?_
          have hper : limit.clamped.perSecs * second = s.bucket.per := by rw [Bucket.per, hw.inForce]
          rw [hper, ← hw.inForce]
          cases hblocked : s.bucket.blockedUntil with
          | none =>
              rw [(hs.recent_eq hblocked hclock).1]
              exact (hs.peek_eq_none hblocked hclock).1 hpeek
          | some held =>
              -- nothing that the hold makes the bucket forget is recent
              rw [Outlasts, Bucket.take_snd, hpeek, hblocked] at hout
              have hnone : Window.recent s.bucket.per now s.granted = [] := by
                have happ := @Window.recent_append_of_old s.bucket.per now [] s.granted (hout rfl rfl)
                rwa [List.append_nil] at happ
              rw [hnone]
              exact hs.count
  | relimit count => exact absurd rfl (hlimit count)
  | drain retryAfter => exact ⟨hw.inForce, hw.paced⟩

/-- Where every hold outlasts the takes before it, no take comes before a deadline and no window holds more
takes than the limit. -/
theorem keeps_along {limit : RateLimit} {es : List (SpendingEvent × ℕ)} (hes : Unlimited es)
    (hout : Run.Along (step horizon) Outlasts (init limit) es) :
    Run.Along (step horizon) (Keeps horizon) (init limit) es := by
  have hall : ∀ (es : List (SpendingEvent × ℕ)) (s : Spending), Unlimited es → s.Remembers → s.Honours →
      Within limit s → Run.Along (step horizon) Outlasts s es → Run.Along (step horizon) (Keeps horizon) s es := by
    intro es
    induction es with
    | nil => exact fun _ _ _ _ _ _ => trivial
    | cons e es ih =>
        intro s hes hs hhonours hw hout
        have hlimit := hes e List.mem_cons_self
        refine ⟨fun t ht => ?_, fun t ht => ?_⟩
        · have hwt := within_step hs hw hout.1 hlimit ht
          refine ⟨fun hgranted d hd => ?_, ?_⟩
          · obtain ⟨hclock, rfl⟩ := step_eq_some.1 ht
            obtain ⟨e, now⟩ := e
            cases e with
            | take =>
                cases hpeek : s.bucket.peek now with
                | none => exact deadline_le_of_peek hhonours hclock hpeek hd
                | some wait => exact absurd (by simp [handle, Bucket.take_snd, hpeek]) hgranted
            | relimit count => exact absurd rfl hgranted
            | drain retryAfter => exact absurd rfl hgranted
          · rw [Bucket.per, hwt.inForce]
            exact hwt.paced
        · exact ih t (fun e' he' => hes e' (List.mem_cons_of_mem _ he')) (remembers_step hs hout.1 ht)
            (honours_step hhonours ht) (within_step hs hw hout.1 hlimit ht) (hout.2 t ht)
  exact hall es _ hes (remembers_init limit) (fun d hd => absurd hd List.not_mem_nil)
    ⟨rfl, Window.paced_nil _ _⟩ hout

instance decidableOutlasts (s : Spending) : (e : SpendingEvent × ℕ) → Decidable (s.Outlasts e)
  | (.take, _) => inferInstanceAs (Decidable (_ → _ → _))
  | (.relimit _, _) => isTrue trivial
  | (.drain _, _) => isTrue trivial

/-- A hold of a second outlasts the takes of a bucket that counts by the second. -/
theorem keeps_along_held :
    Run.Along (step (60 * second)) (Keeps (60 * second)) (init ⟨2, 1⟩)
      [(.take, 0), (.take, 0), (.drain second, 0), (.take, second), (.take, second)] :=
  keeps_along (by
    intro e he count
    fin_cases he <;> exact nofun) (by decide +kernel)

/-- A hold of no time makes the bucket forget a take of the same instant. -/
theorem not_keeps_along : ¬ ∀ (horizon : ℕ) (limit : RateLimit) (es : List (SpendingEvent × ℕ)), Unlimited es →
    Run.Along (step horizon) (Keeps horizon) (init limit) es := by
  intro hall
  have hrun := hall 0 ⟨1, 1⟩ [(.take, 0), (.drain 0, 0), (.take, 0)] (by
    intro e he count
    fin_cases he <;> exact nofun)
  have hpaced := (((hrun.2 _ rfl).2 _ rfl).1 _ rfl).2
  exact absurd (hpaced 0) (by decide)

end Spending

end Nutsh.Prism
