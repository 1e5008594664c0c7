/-
The brake on the host bucket.

A response that says its longer budget is nearly spent puts the host at a crawl, one request a period.
The crawl is written over the tier it slows down, so a later response that says nothing of a tier finds
only the crawl: it ends with the next tier that is stated, not with the next response that no longer
brakes.

Main definitions:

* `lastTier`, `braking` — the last tier the responses stated, and whether the last one brakes;
* `inForce` — the limit that these two name;
* `Braked`, `Lingers` — a brake since the last tier, and one that outlives its response.

Main results:

* `Pacing.learned_exec` — the limit of the host at the end of a run, from what the responses said;
* `Pacing.limit_eq_inForce_iff` — it is the one in force exactly when no brake lingers.
-/
import Mathlib.Data.List.Induction
import Nutsh.Prism.Pacing

set_option relaxedAutoImplicit false
set_option autoImplicit false

namespace Nutsh.Prism

/-! ### A limit stated -/

namespace RateLimit

/-- A limit up to the ceiling. -/
def capped (a : RateLimit) : RateLimit := if hostCeiling.tighterThan a then hostCeiling else a

/-- The limit the host runs at once a tier was stated. -/
def settled (a : RateLimit) : RateLimit := a.capped.clamped

/-- The limit the host runs at while the longer budget is nearly spent. -/
def crawl (a : RateLimit) : RateLimit := { count := 1, perSecs := a.settled.perSecs }

theorem capped_of_le {a : RateLimit} (h : a.count ≤ 30 * a.perSecs) : a.capped = a := by
  have hslow : hostCeiling.tighterThan a = false := by
    simp only [tighterThan, hostCeiling, mul_one, decide_eq_false_iff_not, not_lt]
    exact h
  rw [capped, hslow]
  rfl

theorem settled_le (a : RateLimit) : a.settled.count ≤ 30 * a.settled.perSecs := by
  have hle : a.capped.count ≤ 30 * a.capped.perSecs := by
    unfold capped
    split
    · decide
    case isFalse h =>
      simp only [tighterThan, hostCeiling, mul_one, decide_eq_true_eq, not_lt] at h
      exact h
  show max a.capped.count 1 ≤ 30 * max a.capped.perSecs 1
  omega

@[simp] theorem capped_settled (a : RateLimit) : a.settled.capped = a.settled :=
  capped_of_le (settled_le a)

@[simp] theorem capped_crawl (a : RateLimit) : a.crawl.capped = a.crawl := by
  have hper : 1 ≤ a.settled.perSecs := one_le_perSecs_clamped _
  refine capped_of_le ?_
  show 1 ≤ 30 * a.settled.perSecs
  omega

@[simp] theorem clamped_settled (a : RateLimit) : a.settled.clamped = a.settled :=
  clamped_of_pos (one_le_count_clamped _) (one_le_perSecs_clamped _)

@[simp] theorem clamped_crawl (a : RateLimit) : a.crawl.clamped = a.crawl :=
  clamped_of_pos Nat.one_pos (one_le_perSecs_clamped a.capped)

end RateLimit

/-! ### What the responses said -/

/-- The last tier that was stated, or the limit a client starts with. -/
def lastTier (said : List Advertised) : RateLimit := (said.filterMap Advertised.tier).getLast?.getD hostStart

/-- Whether the last response says its longer budget is nearly spent. -/
def braking (said : List Advertised) : Bool := said.getLast?.any Advertised.nearlySpent

/-- The limit these two name. -/
def inForce (said : List Advertised) : RateLimit :=
  if braking said then (lastTier said).crawl else (lastTier said).settled

/-- Some response braked, and none after it stated a tier. -/
def Braked (said : List Advertised) : Prop :=
  ∃ before a after, said = before ++ a :: after ∧ a.nearlySpent = true ∧ ∀ x ∈ after, x.tier = none

/-- The last response brakes no more, a brake since the last tier did, and the tier allows more than a
crawl. -/
def Lingers (said : List Advertised) : Prop :=
  braking said = false ∧ Braked said ∧ 1 < (lastTier said).settled.count

theorem not_braked_nil : ¬ Braked [] := by
  rintro ⟨before, a, after, h, -⟩
  cases before <;> cases h

theorem braked_snoc {said : List Advertised} {a : Advertised} :
    Braked (said ++ [a]) ↔ a.nearlySpent = true ∨ Braked said ∧ a.tier = none := by
  constructor
  · rintro ⟨before, b, after, h, hb, hafter⟩
    induction after using List.reverseRecOn with
    | nil =>
        obtain ⟨-, hlast⟩ := List.append_inj' h rfl
        cases hlast
        exact Or.inl hb
    | append_singleton after x _ =>
        rw [← List.cons_append, ← List.append_assoc] at h
        obtain ⟨hsaid, hlast⟩ := List.append_inj' h rfl
        cases hlast
        refine Or.inr ⟨⟨before, b, after, hsaid, hb, fun y hy => ?_⟩, ?_⟩
        · exact hafter y (List.mem_append_left _ hy)
        · exact hafter a (List.mem_append_right _ (List.mem_singleton_self a))
  · rintro (ha | ⟨⟨before, b, after, rfl, hb, hafter⟩, ha⟩)
    · exact ⟨said, a, [], rfl, ha, nofun⟩
    · refine ⟨before, b, after ++ [a], by simp, hb, fun y hy => ?_⟩
      rcases List.mem_append.1 hy with hy | hy
      · exact hafter y hy
      · rw [List.mem_singleton.1 hy]
        exact ha

theorem lastTier_snoc (said : List Advertised) (a : Advertised) :
    lastTier (said ++ [a]) = a.tier.getD (lastTier said) := by
  unfold lastTier
  cases ha : a.tier <;> simp [List.filterMap_append, ha]

theorem braking_snoc (said : List Advertised) (a : Advertised) : braking (said ++ [a]) = a.nearlySpent := by
  simp [braking]

/-- What brakes now has braked since the last tier. -/
theorem braked_of_braking {said : List Advertised} (h : braking said = true) : Braked said := by
  induction said using List.reverseRecOn with
  | nil => cases h
  | append_singleton said a _ =>
      rw [braking_snoc] at h
      exact braked_snoc.2 (Or.inl h)

/-! ### The limit of the host -/

/-- The limit the host runs at after the responses: the crawl is kept until a tier is stated. -/
def Learned (said : List Advertised) (limit : RateLimit) : Prop :=
  (Braked said → limit = (lastTier said).crawl) ∧ (¬ Braked said → limit = (lastTier said).settled)

theorem Learned.fixed {said : List Advertised} {limit : RateLimit} (h : Learned said limit) :
    limit.capped = limit ∧ limit.clamped = limit ∧ limit.perSecs = (lastTier said).settled.perSecs := by
  by_cases hbraked : Braked said
  · rw [h.1 hbraked]
    exact ⟨RateLimit.capped_crawl _, RateLimit.clamped_crawl _, rfl⟩
  · rw [h.2 hbraked]
    exact ⟨RateLimit.capped_settled _, RateLimit.clamped_settled _, rfl⟩

/-- What one response makes of it. -/
theorem Learned.snoc {said : List Advertised} {limit : RateLimit} (h : Learned said limit) (a : Advertised) :
    Learned (said ++ [a]) (a.ceiling limit).clamped := by
  obtain ⟨hcapped, hclamped, hper⟩ := h.fixed
  have hceiling : a.ceiling limit = if a.nearlySpent then
      { count := 1, perSecs := max (a.tier.getD limit).capped.perSecs 1 }
      else (a.tier.getD limit).capped := rfl
  rw [hceiling, Learned, lastTier_snoc]
  cases hbrakes : a.nearlySpent with
  | true =>
      -- the period of the crawl is that of the last tier, stated now or before
      have hperiod : max (a.tier.getD limit).capped.perSecs 1 =
          (a.tier.getD (lastTier said)).settled.perSecs := by
        cases a.tier with
        | some stated => rfl
        | none =>
            have hone : 1 ≤ (lastTier said).settled.perSecs := RateLimit.one_le_perSecs_clamped _
            show max limit.capped.perSecs 1 = (lastTier said).settled.perSecs
            rw [hcapped, hper, max_eq_left hone]
      refine ⟨fun _ => ?_, fun hnot => absurd (braked_snoc.2 (Or.inl hbrakes)) hnot⟩
      rw [if_pos rfl, hperiod]
      exact RateLimit.clamped_crawl _
  | false =>
      rw [if_neg Bool.false_ne_true]
      cases htier : a.tier with
      | some stated =>
          have hnot : ¬ Braked (said ++ [a]) := by
            rw [braked_snoc, hbrakes, htier]
            rintro (h | ⟨-, h⟩) <;> cases h
          exact ⟨fun hbraked => absurd hbraked hnot, fun _ => rfl⟩
      | none =>
          have hsame : Braked (said ++ [a]) ↔ Braked said := by
            rw [braked_snoc, hbrakes, htier]
            simp
          rw [Option.getD_none, Option.getD_none, hcapped, hclamped, hsame]
          exact h

/-- The limit learned is the one in force unless a brake lingers. -/
theorem Learned.eq_inForce_iff {said : List Advertised} {limit : RateLimit} (h : Learned said limit) :
    limit = inForce said ↔ ¬ Lingers said := by
  unfold inForce Lingers
  cases hbraking : braking said with
  | true =>
      rw [if_pos rfl, h.1 (braked_of_braking hbraking)]
      simp
  | false =>
      rw [if_neg Bool.false_ne_true]
      by_cases hbraked : Braked said
      · have hone : 1 ≤ (lastTier said).settled.count := RateLimit.one_le_count_clamped _
        rw [h.1 hbraked]
        constructor
        · rintro heq ⟨-, -, hmany⟩
          rw [← heq] at hmany
          exact absurd hmany (lt_irrefl 1)
        · intro hnot
          have hcount : (lastTier said).settled.count = 1 := by
            by_contra hne
            exact hnot ⟨rfl, hbraked, by omega⟩
          unfold RateLimit.crawl
          rw [← hcount]
      · rw [h.2 hbraked]
        simp [hbraked]

/-! ### The run -/

namespace Pacing

variable {declared : Operation → RateLimit} {s t : Pacing}

/-- What the responses of a run said. -/
def said (es : List (PacingEvent × ℕ)) : List Advertised :=
  es.filterMap fun
    | (.response _ headers, _) => some (Advertised.read headers)
    | _ => none

theorem limit_observeLimits (b : Buckets) (op : Operation) (headers : Headers) (now : ℕ)
    (hclamped : b.host.limit.clamped = b.host.limit) :
    (b.observeLimits op headers now).host.limit =
      ((Advertised.read headers).ceiling b.host.limit).clamped := by
  have hrelimit : (if (Advertised.read headers).ceiling b.host.limit ≠ b.host.limit then
      b.host.relimit ((Advertised.read headers).ceiling b.host.limit) else b.host).limit =
        ((Advertised.read headers).ceiling b.host.limit).clamped := by
    split
    · rfl
    case isFalse hsame =>
      rw [not_ne_iff.1 hsame]
      exact hclamped.symm
  unfold Buckets.observeLimits
  dsimp only
  split
  · exact hrelimit
  · exact hrelimit

/-- Every event but a response leaves the limit of the host. -/
theorem learned_step {es : List (PacingEvent × ℕ)} {e : PacingEvent × ℕ}
    (hs : Learned (said es) s.buckets.host.limit) (h : s.step declared e = some t) :
    Learned (said (es ++ [e])) t.buckets.host.limit := by
  obtain ⟨-, rfl⟩ := step_eq_some.1 h
  obtain ⟨e, now⟩ := e
  have hsaid : said (es ++ [(e, now)]) = said es ++ said [(e, now)] := List.filterMap_append
  rw [hsaid]
  cases e with
  | acquire op =>
      have hlimit : (s.buckets.acquire op (declared op) now).1.host.limit = s.buckets.host.limit := by
        rcases Buckets.host_acquire s.buckets op (declared op) now with ⟨-, -, hhost⟩ | ⟨-, hhost⟩
        · rw [hhost]
          exact Bucket.limit_take _ now
        · rw [hhost]
      show Learned (said es ++ []) (s.buckets.acquire op (declared op) now).1.host.limit
      rw [List.append_nil, hlimit]
      exact hs
  | response op headers =>
      show Learned (said es ++ [Advertised.read headers]) (s.buckets.observeLimits op headers now).host.limit
      rw [limit_observeLimits s.buckets op headers now hs.fixed.2.1]
      exact hs.snoc _
  | limited op headers =>
      show Learned (said es ++ []) s.buckets.host.limit
      rw [List.append_nil]
      exact hs

/-- The limit of the host at the end of a run. -/
theorem learned_exec {es : List (PacingEvent × ℕ)} (hrun : Run.exec (step declared) init es = some t) :
    Learned (said es) t.buckets.host.limit := by
  induction es using List.reverseRecOn generalizing t with
  | nil =>
      cases hrun
      exact ⟨fun h => absurd h not_braked_nil, fun _ => rfl⟩
  | append_singleton es e ih =>
      obtain ⟨u, hu, he⟩ := Run.exec_append_eq_some.1 hrun
      obtain ⟨v, hv, hnil⟩ := Run.exec_cons_eq_some.1 he
      cases hnil
      exact learned_step (ih hu) hv

/-- **The limit of the host is the one the last tier and the last response name**, after every run of
takes, 429s and responses, exactly when no brake lingers. -/
theorem limit_eq_inForce_iff {es : List (PacingEvent × ℕ)}
    (hrun : Run.exec (step declared) init es = some t) :
    t.buckets.host.limit = inForce (said es) ↔ ¬ Lingers (said es) :=
  (learned_exec hrun).eq_inForce_iff

/-- The headers that state eighty requests over a window no header gives, and how many are left. -/
def leaving (remaining : String) : Headers := fun name =>
  if name = "x-ratelimit-limit" then some "80"
  else if name = "x-ratelimit-remaining" then some remaining
  else none

/-- A tier stated, its budget nearly spent, and a tier stated again. -/
def restatedRun : List (PacingEvent × ℕ) :=
  [(.response batch (stating "3" "1"), 0), (.response batch (leaving "5"), 1),
    (.response batch (stating "5" "1"), 2)]

theorem limit_eq_inForce_iff_restated :
    ∃ t, Run.exec (step fun _ => ⟨40, 1⟩) init restatedRun = some t ∧
      t.buckets.host.limit = ⟨5, 1⟩ ∧ t.buckets.host.limit = inForce (said restatedRun) := by
  have hrun : ∃ t ∈ Run.exec (step fun _ => ⟨40, 1⟩) init restatedRun,
      t.buckets.host.limit = ⟨5, 1⟩ := by decide
  obtain ⟨t, ht, hlimit⟩ := hrun
  have hstated : said restatedRun =
      [Advertised.read (stating "3" "1"), Advertised.read (leaving "5")] ++
        [Advertised.read (stating "5" "1")] := rfl
  refine ⟨t, ht, hlimit, (limit_eq_inForce_iff ht).2 fun hlingers => ?_⟩
  rw [hstated, Lingers, braked_snoc] at hlingers
  obtain ⟨-, hbrakes | ⟨-, hnone⟩, -⟩ := hlingers
  · exact absurd hbrakes (by decide)
  · exact absurd hnone (by decide)

/-- The budget nearly spent for one response in between. -/
def brakedRun (between : List (PacingEvent × ℕ)) : List (PacingEvent × ℕ) :=
  (.response batch (stating "3" "1"), 0) :: between ++ [(.response batch (leaving "79"), 1)]

/-- The same tier was stated last, the last response does not brake, and the limits differ. -/
theorem not_limit_of_last : ¬ ∃ limitOf : RateLimit → Bool → RateLimit,
    ∀ (declared : Operation → RateLimit) (es : List (PacingEvent × ℕ)) (t : Pacing),
      Run.exec (step declared) init es = some t →
        t.buckets.host.limit = limitOf (lastTier (said es)) (braking (said es)) := by
  rintro ⟨limitOf, h⟩
  have hfree : ∃ t ∈ Run.exec (step fun _ => ⟨40, 1⟩) init (brakedRun []),
      t.buckets.host.limit = ⟨3, 1⟩ := by decide
  have hbraked : ∃ t ∈ Run.exec (step fun _ => ⟨40, 1⟩) init
      (brakedRun [(.response batch (leaving "5"), 0)]), t.buckets.host.limit = ⟨1, 1⟩ := by decide
  obtain ⟨t, ht, hlimit⟩ := hfree
  obtain ⟨u, hu, hcrawl⟩ := hbraked
  have htold : lastTier (said (brakedRun [])) =
        lastTier (said (brakedRun [(.response batch (leaving "5"), 0)])) ∧
      braking (said (brakedRun [])) =
        braking (said (brakedRun [(.response batch (leaving "5"), 0)])) := by decide
  have hsame : t.buckets.host.limit = u.buckets.host.limit := by
    rw [h _ _ t ht, h _ _ u hu, htold.1, htold.2]
  rw [hlimit, hcrawl] at hsame
  cases hsame

end Pacing

end Nutsh.Prism
