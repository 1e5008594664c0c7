/-
The pacing of a client: the host bucket, a bucket for each operation, and what responses do to them.

Any number of requests take from the buckets, each at some reading of a clock that never goes back;
responses arrive with whatever headers, and are answered 429 whenever.  The takes granted by the host
bucket are remembered beside it.

* `Buckets.acquire`, `Buckets.observeLimits`, `Buckets.drainBucket` — the three things that change them;
* `Pacing`, `Pacing.step` — the run;
* `Pacing.paced_exec` — the host bucket stays under the ceiling as long as no count above it is in force
  and no hold ends before the takes it forgets are old;
* `Pacing.along_narrow_iff` — the limits of the operations stay within the catalog's exactly when no
  zero is clamped above them.
-/
import Mathlib.Data.List.TakeWhile
import Mathlib.Logic.Function.Basic
import Nutsh.Catalog
import Nutsh.Lib.Run
import Nutsh.Prism.Bucket

set_option relaxedAutoImplicit false
set_option autoImplicit false

namespace Nutsh.Prism

/-- An operation: its method and the template of its path. -/
abbrev Operation := Method × String

/-- The host bucket, and one for each operation that was used. -/
structure Buckets where
  host : Bucket := Bucket.new hostStart
  perOp : Operation → Option Bucket := fun _ => none

/-- The longer of two waits, none when neither has to wait. -/
def longer : Option ℕ → Option ℕ → Option ℕ
  | some a, some b => some (max a b)
  | a, b => a.or b

namespace Buckets

/-- The bucket of an operation, made with a limit at its first use. -/
def entry (b : Buckets) (op : Operation) (limit : RateLimit) : Bucket :=
  (b.perOp op).getD (Bucket.new limit)

/-- One try to take from the host and from an operation: from both, or how long to wait. -/
def acquire (b : Buckets) (op : Operation) (limit : RateLimit) (now : ℕ) : Buckets × Option ℕ :=
  let own := b.entry op limit
  match longer (b.host.peek now) (own.peek now) with
  | none =>
      ({ host := (b.host.take now).1, perOp := Function.update b.perOp op (some (own.take now).1) },
        none)
  | some wait => ({ b with perOp := Function.update b.perOp op (some own) }, some wait)

/-- A 429 arrived for an operation. -/
def drainBucket (b : Buckets) (op : Operation) (headers : Headers) (now : ℕ) : Buckets :=
  let wait := retryAfter headers
  { host := b.host.drain now wait,
    perOp := Function.update b.perOp op ((b.perOp op).map fun own => own.drain now wait) }

/-- The limit of an operation after a response stated one: the tighter of the two. -/
def adopt (stated : Option RateLimit) (own : Bucket) : Bucket :=
  match stated with
  | some stated => if stated.tighterThan own.limit then own.relimit stated else own
  | none => own

/-- What one response says about the limits, taken up. -/
def observeLimits (b : Buckets) (op : Operation) (headers : Headers) (now : ℕ) : Buckets :=
  let advertised := Advertised.read headers
  let after := advertised.ceiling b.host.limit
  let host := if after ≠ b.host.limit then b.host.relimit after else b.host
  { host := match advertised.hold after with
      | some hold => host.drain now hold
      | none => host
    perOp := Function.update b.perOp op ((b.perOp op).map (adopt advertised.tier)) }

end Buckets

/-! ### The run -/

structure Pacing where
  buckets : Buckets := {}
  clock : ℕ := 0
  /-- When the host bucket granted a take, oldest first. -/
  granted : List ℕ := []

/-- What happens to the buckets, at a reading of the clock. -/
inductive PacingEvent where
  | acquire (op : Operation)
  | response (op : Operation) (headers : Headers)
  | limited (op : Operation) (headers : Headers)

namespace Pacing

variable (declared : Operation → RateLimit)

/-- What an event does, the catalog declaring a limit for each operation. -/
def handle (s : Pacing) (now : ℕ) : PacingEvent → Pacing
  | .acquire op =>
      let (buckets, wait) := s.buckets.acquire op (declared op) now
      { buckets, clock := now, granted := if wait.isNone then s.granted ++ [now] else s.granted }
  | .response op headers =>
      { s with buckets := s.buckets.observeLimits op headers now, clock := now }
  | .limited op headers =>
      { s with buckets := s.buckets.drainBucket op headers now, clock := now }

/-- One event; the clock does not go back. -/
def step (s : Pacing) (e : PacingEvent × ℕ) : Option Pacing :=
  if e.2 < s.clock then none else some (s.handle declared e.2 e.1)

/-- The client as it connects. -/
def init : Pacing := {}

end Pacing

/-! ### A take granted -/

namespace Bucket

variable {b : Bucket} {now : ℕ}

/-- A take granted forgets what is a whole period old, and everything at the end of a hold. -/
theorem take_of_peek (h : b.peek now = none) :
    ∃ old kept, (if b.blockedUntil.isSome then [] else b.taken) = old ++ kept ∧
      (∀ t ∈ old, b.per ≤ now - t) ∧
      (b.take now).1 = { b with blockedUntil := none, taken := kept ++ [now] } := by
  let gone := fun t => decide (b.per ≤ now - t)
  let taken := if b.blockedUntil.isSome then [] else b.taken
  refine ⟨taken.takeWhile gone, taken.dropWhile gone, List.takeWhile_append_dropWhile.symm, ?_, ?_⟩
  · intro t ht
    have hgone : gone t = true := List.mem_takeWhile_imp ht
    exact of_decide_eq_true hgone
  · unfold take
    rw [h]

theorem limit_take (b : Bucket) (now : ℕ) : (b.take now).1.limit = b.limit := by
  unfold take
  split <;> rfl

/-- A take is granted outside a hold only where fewer than the count are remembered. -/
theorem length_live_lt_of_peek (hcount : 1 ≤ b.limit.count) (hblocked : b.blockedUntil = none)
    (h : b.peek now = none) : (b.live now).length < b.limit.count := by
  by_contra hge
  unfold peek at h
  rw [hblocked] at h
  dsimp only at h
  rw [if_neg hge, Option.map_eq_none_iff, List.getElem?_eq_none_iff] at h
  omega

/-- The takes of the last second are remembered by a bucket of any period. -/
theorem length_recent_le_live (hper : 1 ≤ b.limit.perSecs) :
    (Window.recent second now b.taken).length ≤ (b.live now).length := by
  have hle : second ≤ b.per := Nat.le_mul_of_pos_left _ hper
  have himp : ∀ u : ℕ, decide (now < u + second) = true → decide (now - u < b.per) = true := by
    intro u hu
    have hpos : 0 < second := by decide
    simp only [decide_eq_true_eq] at hu ⊢
    omega
  exact (List.monotone_filter_right b.taken himp).length_le

end Bucket

namespace Buckets

variable {b : Buckets} {op : Operation} {limit : RateLimit} {now : ℕ}

/-- A try takes from the host exactly when it has not to wait. -/
theorem host_acquire (b : Buckets) (op : Operation) (limit : RateLimit) (now : ℕ) :
    ((b.acquire op limit now).2 = none ∧ b.host.peek now = none ∧
      (b.acquire op limit now).1.host = (b.host.take now).1) ∨
    (b.acquire op limit now).2.isNone = false ∧ (b.acquire op limit now).1.host = b.host := by
  unfold acquire
  cases hlonger : longer (b.host.peek now) ((b.entry op limit).peek now) with
  | none =>
      left
      have hpeek : b.host.peek now = none := by
        cases hp : b.host.peek now with
        | none => rfl
        | some wait =>
            rw [hp] at hlonger
            cases hq : (b.entry op limit).peek now <;> rw [hq] at hlonger <;> cases hlonger
      exact ⟨by simp only [hlonger], hpeek, by simp only [hlonger]⟩
  | some wait =>
      right
      exact ⟨by simp only [hlonger]; rfl, by simp only [hlonger]⟩

/-- A response replaces the limit of the host by one with no zero, and leaves its takes outside a
hold. -/
theorem host_observeLimits (b : Buckets) (op : Operation) (headers : Headers) (now : ℕ) :
    ((b.observeLimits op headers now).host.limit = b.host.limit ∨
      ∃ limit : RateLimit, (b.observeLimits op headers now).host.limit = limit.clamped) ∧
    ((b.observeLimits op headers now).host.blockedUntil = none →
      b.host.blockedUntil = none ∧ (b.observeLimits op headers now).host.taken = b.host.taken) := by
  have hsame : ∀ after : RateLimit, ∀ host,
      host = (if after ≠ b.host.limit then b.host.relimit after else b.host) →
      (host.limit = b.host.limit ∨ ∃ limit : RateLimit, host.limit = limit.clamped) ∧
        host.blockedUntil = b.host.blockedUntil ∧ host.taken = b.host.taken := by
    intro after host hhost
    split at hhost
    · rw [hhost]
      exact ⟨Or.inr ⟨after, rfl⟩, rfl, rfl⟩
    · rw [hhost]
      exact ⟨Or.inl rfl, rfl, rfl⟩
  obtain ⟨hlimit, hblocked, htaken⟩ := hsame _ _ rfl
  unfold observeLimits
  dsimp only
  split
  · exact ⟨hlimit, fun h => absurd h (Option.some_ne_none _)⟩
  · exact ⟨hlimit, fun h => ⟨hblocked ▸ h, htaken⟩⟩

/-- The bucket of an operation after a try: the one it had, or a new one, at its limit. -/
theorem perOp_acquire (b : Buckets) (op : Operation) (limit : RateLimit) (now : ℕ) (op' : Operation) :
    ((b.acquire op limit now).1.perOp op').map Bucket.limit =
      if op' = op then some (b.entry op limit).limit else (b.perOp op').map Bucket.limit := by
  have hlimit : ∃ own, own.limit = (b.entry op limit).limit ∧
      (b.acquire op limit now).1.perOp = Function.update b.perOp op (some own) := by
    unfold acquire
    dsimp only
    split
    · exact ⟨_, Bucket.limit_take _ now, rfl⟩
    · exact ⟨_, rfl, rfl⟩
  obtain ⟨own, hown, hperOp⟩ := hlimit
  rw [hperOp]
  split
  · rename_i h
    rw [h, Function.update_self, Option.map_some, hown]
  · rename_i h
    rw [Function.update_of_ne h]

end Buckets

namespace Pacing

variable {declared : Operation → RateLimit} {s t : Pacing} {e : PacingEvent × ℕ}

/-! ### The host under the ceiling -/

/-- No second has more takes granted than the ceiling allows. -/
def Paced (s : Pacing) : Prop :=
  Window.Paced hostCeiling.count (hostCeiling.perSecs * second) s.granted

/-- The condition on a take that the host would grant: no count above the ceiling's is in force, and
if it ends a hold, the takes it forgets are a second old. -/
def Moderate (s : Pacing) : PacingEvent × ℕ → Prop
  | (.acquire _, now) =>
      s.buckets.host.peek now = none →
        s.buckets.host.limit.count ≤ hostCeiling.count ∧
          (s.buckets.host.blockedUntil.isSome = true → ∀ u ∈ s.granted, u + second ≤ now)
  | _ => True

instance (s : Pacing) (e : PacingEvent × ℕ) : Decidable (s.Moderate e) := by
  obtain ⟨e, now⟩ := e
  cases e <;> unfold Moderate <;> infer_instance

/-- What the host bucket remembers: outside a hold, every take granted within the second. -/
structure Remembers (s : Pacing) : Prop where
  count : 1 ≤ s.buckets.host.limit.count
  perSecs : 1 ≤ s.buckets.host.limit.perSecs
  taken : s.buckets.host.blockedUntil = none →
    ∃ old, s.granted = old ++ s.buckets.host.taken ∧ ∀ u ∈ old, u + second ≤ s.clock
  paced : s.Paced

/-- A limit replaced and a hold set leave what is remembered. -/
theorem Remembers.same {buckets : Buckets} {now : ℕ} (hs : s.Remembers) (hclock : s.clock ≤ now)
    (hcount : 1 ≤ buckets.host.limit.count) (hper : 1 ≤ buckets.host.limit.perSecs)
    (htaken : buckets.host.blockedUntil = none →
      s.buckets.host.blockedUntil = none ∧ buckets.host.taken = s.buckets.host.taken) :
    Remembers { s with buckets, clock := now } := by
  refine ⟨hcount, hper, ?_, hs.paced⟩
  intro hblocked
  obtain ⟨hblocked', hsame⟩ := htaken hblocked
  obtain ⟨old, hgranted, hold⟩ := hs.taken hblocked'
  refine ⟨old, ?_, ?_⟩
  · rw [hsame]
    exact hgranted
  · intro u hu
    exact (hold u hu).trans hclock

/-- A take granted under the condition is remembered, and keeps to the ceiling. -/
theorem Remembers.granted {buckets : Buckets} {now : ℕ} (hs : s.Remembers) (hclock : s.clock ≤ now)
    (hpeek : s.buckets.host.peek now = none) (hhost : buckets.host = (s.buckets.host.take now).1)
    (hcount : s.buckets.host.limit.count ≤ hostCeiling.count)
    (hforgets : s.buckets.host.blockedUntil.isSome = true → ∀ u ∈ s.granted, u + second ≤ now) :
    Remembers { buckets, clock := now, granted := s.granted ++ [now] } := by
  obtain ⟨old, kept, hkept, hold, htake⟩ := Bucket.take_of_peek hpeek
  have hlimit : buckets.host.limit = s.buckets.host.limit := by rw [hhost, Bucket.limit_take]
  have hpos : 0 < second := by decide
  have hper : second ≤ s.buckets.host.per := Nat.le_mul_of_pos_left _ hs.perSecs
  -- the takes granted are old ones, those the bucket forgets now, and those it keeps
  obtain ⟨past, hgranted, hpast⟩ : ∃ past, s.granted = past ++ kept ∧ ∀ u ∈ past, u + second ≤ now := by
    cases hblocked : s.buckets.host.blockedUntil with
    | some until_ =>
        rw [hblocked] at hkept
        have hnil : kept = [] := (List.append_eq_nil_iff.1 hkept.symm).2
        refine ⟨s.granted, by rw [hnil, List.append_nil], ?_⟩
        exact hforgets (by rw [hblocked]; rfl)
    | none =>
        rw [hblocked] at hkept
        obtain ⟨older, hgranted, holder⟩ := hs.taken hblocked
        have htaken : s.buckets.host.taken = old ++ kept := hkept
        refine ⟨older ++ old, by rw [hgranted, htaken, List.append_assoc], ?_⟩
        intro u hu
        rcases List.mem_append.1 hu with hu | hu
        · have := holder u hu
          omega
        · have := hold u hu
          omega
  refine ⟨hlimit ▸ hs.count, hlimit ▸ hs.perSecs, ?_, ?_⟩
  · intro _
    refine ⟨past, ?_, hpast⟩
    change s.granted ++ [now] = past ++ buckets.host.taken
    rw [hhost, htake, hgranted, List.append_assoc]
  · have hfew : (Window.recent second now s.granted).length < hostCeiling.count := by
      rw [hgranted, Window.recent_append_of_old hpast]
      cases hblocked : s.buckets.host.blockedUntil with
      | some until_ =>
          rw [hblocked] at hkept
          have hnil : kept = [] := (List.append_eq_nil_iff.1 hkept.symm).2
          rw [hnil]
          exact Nat.succ_pos _
      | none =>
          rw [hblocked] at hkept
          have htaken : s.buckets.host.taken = old ++ kept := hkept
          have hlive := Bucket.length_live_lt_of_peek hs.count hblocked hpeek
          have hrecent := @Bucket.length_recent_le_live _ now hs.perSecs
          have hsub : (Window.recent second now kept).length ≤
              (Window.recent second now s.buckets.host.taken).length := by
            rw [htaken]
            exact ((List.sublist_append_right old kept).filter _).length_le
          omega
    exact Window.Paced.snoc hs.paced hfew

theorem step_eq_some : s.step declared e = some t ↔ s.clock ≤ e.2 ∧ s.handle declared e.2 e.1 = t := by
  unfold step
  by_cases hclock : e.2 < s.clock
  · simp [hclock, not_le.2 hclock]
  · simp [hclock, not_lt.1 hclock]

theorem remembers_step (s : Pacing) (e : PacingEvent × ℕ) (t : Pacing) (hs : s.Remembers)
    (hP : s.Moderate e) (h : s.step declared e = some t) : t.Remembers := by
  obtain ⟨hclock, rfl⟩ := step_eq_some.1 h
  obtain ⟨e, now⟩ := e
  cases e with
  | acquire op =>
      dsimp only [handle]
      rcases Buckets.host_acquire s.buckets op (declared op) now with ⟨hwait, hpeek, hhost⟩ | ⟨hwait, hhost⟩
      · obtain ⟨hcount, hforgets⟩ := hP hpeek
        rw [hwait, Option.isNone_none, if_pos rfl]
        exact hs.granted hclock hpeek hhost hcount hforgets
      · rw [hwait, if_neg Bool.false_ne_true]
        refine hs.same hclock (hhost ▸ hs.count) (hhost ▸ hs.perSecs) ?_
        rw [hhost]
        exact fun hblocked => ⟨hblocked, rfl⟩
  | response op headers =>
      obtain ⟨hlimit, htaken⟩ := Buckets.host_observeLimits s.buckets op headers now
      have hpos : 1 ≤ (s.buckets.observeLimits op headers now).host.limit.count ∧
          1 ≤ (s.buckets.observeLimits op headers now).host.limit.perSecs := by
        rcases hlimit with hlimit | ⟨limit, hlimit⟩
        · rw [hlimit]
          exact ⟨hs.count, hs.perSecs⟩
        · rw [hlimit]
          exact ⟨limit.one_le_count_clamped, limit.one_le_perSecs_clamped⟩
      exact hs.same hclock hpos.1 hpos.2 htaken
  | limited op headers =>
      exact hs.same hclock hs.count hs.perSecs fun hblocked => absurd hblocked (Option.some_ne_none _)

/-- **The host stays under the ceiling**: in every run whose granted takes meet the condition, no
window of a second holds more takes than the ceiling counts. -/
theorem paced_exec (declared : Operation → RateLimit) {es : List (PacingEvent × ℕ)}
    (hP : Run.Along (step declared) Moderate init es) (hrun : Run.exec (step declared) init es = some t) :
    t.Paced := by
  have hinit : init.Remembers :=
    ⟨by decide, by decide, fun _ => ⟨[], rfl, fun _ h => nomatch h⟩, Window.paced_nil _ _⟩
  exact (Run.exec_inv_along remembers_step hinit hP hrun).paced

/-- The headers that state a limit for every request. -/
def stating (count perSecs : String) : Headers := fun name =>
  if name = "x-api-ratelimit-limit" then some count
  else if name = "x-api-ratelimit-refresh-period-seconds" then some perSecs
  else none

/-- An operation of a budget of its own above the ceiling. -/
def batch : Operation := (.post, "/prism/v4.0/operations/batch")

/-- Three takes, a 429, and three more after its hold. -/
theorem paced_exec_held : ∃ t, Run.exec (step fun _ => ⟨40, 1⟩) init
      ([(.response batch (stating "3" "1"), 0)] ++ List.replicate 3 (.acquire batch, 1) ++
        [(.limited batch fun _ => none, 2)] ++ List.replicate 3 (.acquire batch, 2 + 5 * second)) = some t ∧
    t.granted.length = 6 ∧ t.Paced := by
  have hrun : ∃ t ∈ Run.exec (step fun _ => ⟨40, 1⟩) init
      ([(.response batch (stating "3" "1"), 0)] ++ List.replicate 3 (.acquire batch, 1) ++
        [(.limited batch fun _ => none, 2)] ++ List.replicate 3 (.acquire batch, 2 + 5 * second)),
      t.granted.length = 6 := by decide
  obtain ⟨t, ht, hlength⟩ := hrun
  exact ⟨t, ht, hlength, paced_exec _ (by decide) ht⟩

/-- A limit of sixty a minute lets sixty through at once. -/
theorem not_paced_exec : ¬ ∀ (declared : Operation → RateLimit) (es : List (PacingEvent × ℕ)) (t : Pacing),
    Run.exec (step declared) init es = some t → t.Paced := by
  intro h
  have hrun : ∃ t ∈ Run.exec (step fun _ => ⟨40, 1⟩) init
      ((.response batch (stating "60" "60"), 0) :: List.replicate 31 (.acquire batch, 0)),
      ¬ (Window.inside second 0 t.granted).length ≤ 30 := by decide
  obtain ⟨t, ht, hmany⟩ := hrun
  exact hmany (h _ _ t ht 0)

/-! ### The operations within the catalog -/

/-- No operation runs at a limit above the one the catalog declares for it. -/
def Narrow (declared : Operation → RateLimit) (s : Pacing) : Prop :=
  ∀ op, ∀ own ∈ s.buckets.perOp op, own.limit.Within (declared op)

/-- A step after which no operation runs at a limit above the one declared. -/
def Keeps (declared : Operation → RateLimit) (s : Pacing) (e : PacingEvent × ℕ) : Prop :=
  ∀ t ∈ s.step declared e, t.Narrow declared

/-- The condition on the zeros: the catalog declares no count of zero in a period, and a response that
states one to an operation in use states it for a period in which the catalog declares one request. -/
def Zeros (declared : Operation → RateLimit) (s : Pacing) : PacingEvent × ℕ → Prop
  | (.acquire op, now) =>
      s.clock ≤ now → s.buckets.perOp op = none → (declared op).count = 0 → (declared op).perSecs = 0
  | (.response op headers, now) =>
      s.clock ≤ now → (s.buckets.perOp op).isSome = true →
        ∀ stated ∈ (Advertised.read headers).tier, stated.count = 0 → stated.perSecs ≠ 0 →
          (declared op).perSecs ≤ (declared op).count * stated.perSecs
  | _ => True

/-- The limit an operation in use runs at. -/
def limitOf (s : Pacing) (op : Operation) : Option RateLimit := (s.buckets.perOp op).map Bucket.limit

/-- The limits of the operations have no zero. -/
def Positive (s : Pacing) : Prop := ∀ op, ∀ l ∈ s.limitOf op, 1 ≤ l.count ∧ 1 ≤ l.perSecs

theorem narrow_iff : s.Narrow declared ↔ ∀ op, ∀ l ∈ s.limitOf op, l.Within (declared op) := by
  constructor
  · intro h op l hl
    obtain ⟨own, hown, rfl⟩ := Option.map_eq_some_iff.1 hl
    exact h op own hown
  · intro h op own hown
    exact h op own.limit (Option.mem_map_of_mem _ hown)

/-- A new bucket runs within the limit it was made with exactly when that has no zero count in a
period. -/
theorem within_clamped_iff (limit : RateLimit) :
    limit.clamped.Within limit ↔ (limit.count = 0 → limit.perSecs = 0) := by
  unfold RateLimit.Within RateLimit.clamped
  dsimp only
  constructor
  · intro h hcount
    rw [hcount] at h
    simpa using h
  · intro h
    rcases Nat.eq_zero_or_pos limit.count with hcount | hcount
    · rw [h hcount, hcount]
      simp
    · rw [max_eq_left hcount]
      exact Nat.mul_le_mul_left _ (le_max_left _ _)


/-- The limit of an operation after a response is within the one declared exactly when a count of zero
stated for a period is not clamped above it. -/
theorem within_adopt_iff {declared : RateLimit} {own : Bucket} (hcount : 1 ≤ own.limit.count)
    (hper : 1 ≤ own.limit.perSecs) (hown : own.limit.Within declared) (tier : Option RateLimit) :
    (Buckets.adopt tier own).limit.Within declared ↔
      ∀ stated ∈ tier, stated.count = 0 → stated.perSecs ≠ 0 →
        declared.perSecs ≤ declared.count * stated.perSecs := by
  cases tier with
  | none => simp [Buckets.adopt, hown]
  | some stated =>
      simp only [Option.mem_def, Option.some.injEq, forall_eq']
      rcases Nat.eq_zero_or_pos stated.count with hzero | hpos
      · rcases Nat.eq_zero_or_pos stated.perSecs with hp | hp
        · have hloose : stated.tighterThan own.limit = false := by
            simp [RateLimit.tighterThan, hzero, hp]
          simp [Buckets.adopt, hloose, hown, hp]
        · have htight : stated.tighterThan own.limit = true := by
            unfold RateLimit.tighterThan
            rw [hzero, Nat.zero_mul]
            exact decide_eq_true (Nat.mul_pos hcount hp)
          have hclamped : stated.clamped = { count := 1, perSecs := stated.perSecs } := by
            unfold RateLimit.clamped
            rw [hzero, max_eq_left (show 1 ≤ stated.perSecs from hp)]
            rfl
          have hne : stated.perSecs ≠ 0 := Nat.pos_iff_ne_zero.1 hp
          simp [Buckets.adopt, htight, Bucket.relimit, hclamped, RateLimit.Within, hzero, hne]
      · have hwithin : (Buckets.adopt (some stated) own).limit.Within declared := by
          unfold Buckets.adopt
          dsimp only
          split
          · rename_i htight
            have hp : 0 < stated.perSecs := by
              by_contra hp
              have hp' : stated.perSecs = 0 := by omega
              simp [RateLimit.tighterThan, hp'] at htight
            have hclamped : (own.relimit stated).limit = stated := RateLimit.clamped_of_pos hpos hp
            rw [hclamped]
            exact (RateLimit.within_of_tighterThan htight).trans hper hown
          · exact hown
        have hne : stated.count ≠ 0 := Nat.pos_iff_ne_zero.1 hpos
        exact ⟨fun _ hzero => absurd hzero hne, fun _ => hwithin⟩

/-- The limits after a step: the operation tried has one, a response may replace that of its own, and
the others stay. -/
theorem limitOf_handle (s : Pacing) (e : PacingEvent) (now : ℕ) (op' : Operation) :
    (s.handle declared now e).limitOf op' =
      match e with
      | .acquire op =>
          if op' = op then some ((s.limitOf op).getD (declared op).clamped) else s.limitOf op'
      | .response op headers =>
          if op' = op then
            (s.buckets.perOp op).map fun own =>
              (Buckets.adopt (Advertised.read headers).tier own).limit
          else s.limitOf op'
      | .limited _ _ => s.limitOf op' := by
  cases e with
  | acquire op =>
      have hentry : (s.buckets.entry op (declared op)).limit =
          (s.limitOf op).getD (declared op).clamped := by
        unfold Buckets.entry limitOf
        cases s.buckets.perOp op <;> rfl
      dsimp only
      rw [← hentry]
      exact Buckets.perOp_acquire s.buckets op (declared op) now op'
  | response op headers =>
      dsimp only [limitOf, handle, Buckets.observeLimits]
      split
      · rename_i h
        rw [h, Function.update_self, Option.map_map]
        rfl
      · rename_i h
        rw [Function.update_of_ne h]
  | limited op headers =>
      dsimp only [limitOf, handle, Buckets.drainBucket]
      by_cases h : op' = op
      · rw [h, Function.update_self, Option.map_map]
        rfl
      · rw [Function.update_of_ne h]

theorem positive_step (hs : s.Positive) (h : s.step declared e = some t) : t.Positive := by
  obtain ⟨-, rfl⟩ := step_eq_some.1 h
  obtain ⟨e, now⟩ := e
  intro op' l hl
  rw [Option.mem_def, limitOf_handle] at hl
  cases e with
  | acquire op =>
      dsimp only at hl
      split at hl
      · obtain rfl := Option.some.inj hl
        cases hlimit : s.limitOf op with
        | none => exact ⟨RateLimit.one_le_count_clamped _, RateLimit.one_le_perSecs_clamped _⟩
        | some l => exact hs op l hlimit
      · exact hs op' l hl
  | response op headers =>
      dsimp only at hl
      split at hl
      · obtain ⟨own, hown, rfl⟩ := Option.map_eq_some_iff.1 hl
        have hpos := hs op own.limit (Option.mem_map_of_mem _ hown)
        unfold Buckets.adopt
        split
        · split
          · exact ⟨RateLimit.one_le_count_clamped _, RateLimit.one_le_perSecs_clamped _⟩
          · exact hpos
        · exact hpos
      · exact hs op' l hl
  | limited op headers => exact hs op' l hl

/-- From limits within the catalog's, a step keeps them there exactly when it meets the condition. -/
theorem keeps_iff_zeros (hpos : s.Positive) (hs : s.Narrow declared) :
    Keeps declared s e ↔ Zeros declared s e := by
  obtain ⟨e, now⟩ := e
  have hkeeps : Keeps declared s (e, now) ↔ (s.clock ≤ now →
      ∀ op, ∀ l ∈ (s.handle declared now e).limitOf op, l.Within (declared op)) := by
    constructor
    · intro h hclock
      exact narrow_iff.1 (h _ (step_eq_some.2 ⟨hclock, rfl⟩))
    · intro h t ht
      obtain ⟨hclock, rfl⟩ := step_eq_some.1 ht
      exact narrow_iff.2 (h hclock)
  rw [hkeeps]
  have hs' := narrow_iff.1 hs
  cases e with
  | acquire op =>
      simp only [limitOf_handle]
      refine forall_congr' fun _ => ?_
      constructor
      · intro h hnew
        have hlimit : s.limitOf op = none := by rw [limitOf, hnew, Option.map_none]
        refine (within_clamped_iff _).1 (h op _ ?_)
        rw [if_pos rfl, hlimit]
        rfl
      · intro h op' l hl
        split at hl
        · rename_i hop
          obtain rfl := Option.some.inj hl
          rw [hop]
          cases hlimit : s.limitOf op with
          | none => exact (within_clamped_iff _).2 (h (Option.map_eq_none_iff.1 hlimit))
          | some l => exact hs' op l hlimit
        · exact hs' op' l hl
  | response op headers =>
      simp only [limitOf_handle]
      refine forall_congr' fun _ => ?_
      constructor
      · intro h hused stated hstated
        obtain ⟨own, hown⟩ := Option.isSome_iff_exists.1 hused
        obtain ⟨hcount, hper⟩ := hpos op own.limit (Option.mem_map_of_mem _ hown)
        refine (within_adopt_iff hcount hper (hs op own hown) _).1 (h op _ ?_) stated hstated
        rw [if_pos rfl, hown]
        rfl
      · intro h op' l hl
        split at hl
        · rename_i hop
          obtain ⟨own, hown, rfl⟩ := Option.map_eq_some_iff.1 hl
          obtain ⟨hcount, hper⟩ := hpos op own.limit (Option.mem_map_of_mem _ hown)
          rw [hop]
          exact (within_adopt_iff hcount hper (hs op own hown) _).2 (h (by rw [hown]; rfl))
        · exact hs' op' l hl
  | limited op headers =>
      simp only [limitOf_handle]
      exact ⟨fun _ => trivial, fun _ _ => hs'⟩

/-- **The operations stay within the catalog**: in every run, no operation ever runs at a limit above
the one declared exactly when every step meets the condition on the zeros. -/
theorem along_narrow_iff (declared : Operation → RateLimit) (es : List (PacingEvent × ℕ)) :
    Run.Along (step declared) (Keeps declared) init es ↔
      Run.Along (step declared) (Zeros declared) init es := by
  have hinit : init.Positive ∧ init.Narrow declared := by
    constructor
    · intro op l hl
      cases hl
    · intro op own hown
      cases hown
  constructor
  · intro h
    refine Run.Along.imp (I := fun s => s.Positive ∧ s.Narrow declared) ?_ ?_ hinit h
    · intro s e t hs hP hstep
      exact ⟨positive_step hs.1 hstep, hP t hstep⟩
    · intro s e hs hP
      exact (keeps_iff_zeros hs.1 hs.2).1 hP
  · intro h
    refine Run.Along.imp (I := fun s => s.Positive ∧ s.Narrow declared) ?_ ?_ hinit h
    · intro s e t hs hP hstep
      exact ⟨positive_step hs.1 hstep, (keeps_iff_zeros hs.1 hs.2).2 hP t hstep⟩
    · intro s e hs hP
      exact (keeps_iff_zeros hs.1 hs.2).2 hP

/-- A stated count of zero a second is taken up as one a second, where ten a minute are declared. -/
theorem not_along_narrow : ¬ ∀ (declared : Operation → RateLimit) (es : List (PacingEvent × ℕ)),
    Run.Along (step declared) (Keeps declared) init es := by
  intro h
  have hrun : ∃ s ∈ Run.exec (step fun _ => ⟨10, 60⟩) init [(.acquire batch, 0)],
      ∃ t ∈ s.step (fun _ => ⟨10, 60⟩) (.response batch (stating "0" "1"), 0),
      ∃ own ∈ t.buckets.perOp batch, ¬ own.limit.Within ⟨10, 60⟩ := by decide
  obtain ⟨s, hs, t, ht, own, hown, hwide⟩ := hrun
  have hkeeps := (Run.along_append.1 (h (fun _ => ⟨10, 60⟩)
    ([(.acquire batch, 0)] ++ [(.response batch (stating "0" "1"), 0)]))).2 s hs
  exact hwide (hkeeps.1 t ht batch own hown)

end Pacing

end Nutsh.Prism
