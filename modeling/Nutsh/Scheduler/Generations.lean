/-
Generations across the schedulers of a context.

The store drops what is older than the last completed generation of a table, or than what is staged
of it, and keeps both for the whole session; a context that is joined again draws its generations
from one anew.  While every walk draws a number past what the table remembers, and no two walks of
the key overlap, nothing a live walk sends is stale: the channel delivers the generations in order,
each above the completed one.

Main definitions:

* `Table.Below` — every number a walk still has under way is past what the table remembers;
* `Polling.Stale` — the store drops the update for its generation;
* `Polling.Ordered` — the invariant;
* `Polling.CaughtUp` — the condition on a walk that draws its generation;
* `Polling.Heard` — no page and no `complete` of a live walk is dropped as stale, and what is staged
  of it lands.

Main results:

* `Polling.ordered_step` — the events keep the order;
* `Polling.heard_exec` — in a run whose walks are caught up, every live walk is heard;
* `Polling.not_heard_exec` — a context dropped and joined again is not.
-/
import Nutsh.Scheduler
import Nutsh.Store.Walk

set_option relaxedAutoImplicit false
set_option autoImplicit false

namespace Nutsh

/-- The table remembers nothing at or past `g`, but for what may be staged of `g` itself. -/
def Table.Below (t : Table) (g : ℕ) : Prop :=
  t.generation < g ∧ ∀ st, t.staging = some st → st.generation ≤ g

/-- An update that stages nothing past `g`, and completes nothing staged but what is below it,
leaves the table below `g`. -/
theorem Table.Below.apply {t : Table} {g : ℕ} (h : t.Below g) (now : ℕ) {u : Update}
    (hpage : ∀ k es total, u = .page k es total → k ≤ g)
    (hcomplete : ∀ k, u = .complete k → t.replaces k = true → k < g) :
    (t.apply now u).Below g := by
  obtain ⟨hgen, hst⟩ := h
  cases u with
  | started k => exact ⟨by simpa using hgen, by simpa using hst⟩
  | page k es total =>
      rcases onPage_cases t k es total with ⟨he, -⟩ | ⟨-, -, he⟩
      · rw [apply_page, he]
        exact ⟨hgen, hst⟩
      · refine ⟨by simpa using hgen, fun st hs => ?_⟩
        rw [apply_page, he, Option.some.injEq] at hs
        exact hs ▸ hpage k es total rfl
  | complete k =>
      rcases onComplete_cases t now k with ⟨hr, hk, hs, -⟩ | ⟨-, hk, hs, -⟩
      · refine ⟨?_, fun st hst' => ?_⟩
        · rw [apply_complete, hk]
          exact hcomplete k rfl hr
        · rw [apply_complete, hs] at hst'
          cases hst'
      · rw [Table.Below, apply_complete, hk, hs]
        exact ⟨hgen, hst⟩
  | entity k e => exact ⟨by simpa using hgen, by simpa using hst⟩
  | error k error =>
      refine ⟨by simpa using hgen, fun st hs => ?_⟩
      rw [apply_error, staging_onError] at hs
      split at hs
      · exact hst st hs
      · exact hst st (Option.filter_eq_some_iff.1 hs).1

namespace Polling

variable {s s' : Polling} {e : PollEvent}

/-- The store drops the update for its generation: that is completed, or newer pages are staged. -/
def Stale (t : Table) : Update → Prop
  | .page g _ _ => t.Superseded g
  | .complete g => g < t.generation ∨ ∃ st ∈ t.staging, g < st.generation
  | _ => False

theorem not_stale {t : Table} {u : Update} (h : t.Below u.generation) : ¬ Stale t u := by
  obtain ⟨hgen, hst⟩ := h
  cases u with
  | page g es total =>
      rintro (hle | ⟨st, hs, hlt⟩)
      · exact absurd hgen (Nat.not_lt.2 hle)
      · exact absurd (hst st hs) (Nat.not_le.2 hlt)
  | complete g =>
      rintro (hlt | ⟨st, hs, hlt⟩)
      · exact absurd hgen (Nat.lt_asymm hlt)
      · exact absurd (hst st hs) (Nat.not_le.2 hlt)
  | _ => exact id

/-! ### The invariant -/

/-- The kind of a live subscription. -/
def kindOf (s : Polling) (id : ℕ) : Option SubKind := (s.subs id).map Sub.kind

/-- The generation of the cycle a live subscription is in. -/
def cycleOf (s : Polling) (id : ℕ) : Option ℕ := (s.subs id).bind Sub.cycle

/-- The number of the counter, nought while the context is not joined. -/
def counter (s : Polling) : ℕ := s.generations.getD 0

/-- A generation some live subscription, listing or not, has under way: its task is in that cycle, or
a message of it is in the channel. -/
def UnderWay (s : Polling) (lists : Bool) (g : ℕ) : Prop :=
  ∃ id k, s.kindOf id = some k ∧ (k == .list) = lists ∧
    (s.cycleOf id = some g ∨ ∃ u, (id, u) ∈ s.queue ∧ u.generation = g)

/-- A message of a list may precede one of a generation: it is not newer, and older if it ends a
walk. -/
def Precedes (u : Update) (g : ℕ) : Prop :=
  u.generation ≤ g ∧ ∀ k, u = .complete k → k < g

/-- **The invariant**: the generations under way are drawn from the counter, no number serves a walk
and a single read, those of the walks are past what the table remembers and leave the channel in
order, and one walk at most is in its cycle. -/
structure Ordered (s : Polling) : Prop where
  known : ∀ m ∈ s.queue, m.1 < s.nextSub
  ids : ∀ id k, s.kindOf id = some k → id < s.nextSub
  drawn : ∀ lists g, s.UnderWay lists g → g ≤ s.counter
  apart : ∀ g, s.UnderWay true g → ¬ s.UnderWay false g
  below : ∀ g, s.UnderWay true g → s.table.Below g
  pages : ∀ id u, (id, u) ∈ s.queue → ∀ k, s.kindOf id = some k → k ≠ .list →
    ∀ g es total, u ≠ .page g es total
  sorted : s.queue.Pairwise fun m n =>
    s.kindOf m.1 = some .list → s.kindOf n.1 = some .list → Precedes m.2 n.2.generation
  last : ∀ id u id' g, (id, u) ∈ s.queue → s.kindOf id = some .list →
    s.kindOf id' = some .list → s.cycleOf id' = some g → Precedes u g
  alone : ∀ id id' g g', s.kindOf id = some .list → s.kindOf id' = some .list →
    s.cycleOf id = some g → s.cycleOf id' = some g' → id = id'

/-! ### What a part of the state leaves under way -/

/-- Nothing is under way where nothing is subscribed. -/
theorem ordered_of_no_subs (hq : ∀ m ∈ s.queue, m.1 < s.nextSub) (hs : ∀ id, s.subs id = none) :
    Ordered s := by
  have hk : ∀ id k, s.kindOf id ≠ some k := fun id k h => by simp [kindOf, hs id] at h
  exact {
    known := hq
    ids := fun id k h => absurd h (hk id k)
    drawn := fun lists g ⟨id, k, h, _⟩ => absurd h (hk id k)
    apart := fun g ⟨id, k, h, _⟩ => absurd h (hk id k)
    below := fun g ⟨id, k, h, _⟩ => absurd h (hk id k)
    pages := fun id u _ k h => absurd h (hk id k)
    sorted := List.pairwise_of_forall fun m n h => absurd h (hk m.1 _)
    last := fun id u id' g _ h => absurd h (hk id _)
    alone := fun id id' g g' h => absurd h (hk id _) }

/-- One state is part of another: less is queued, fewer are subscribed, and the table remembers
nothing more of the walks under way. -/
structure Part (s' s : Polling) : Prop where
  queue : s'.queue.Sublist s.queue
  kinds : ∀ m ∈ s'.queue, ∀ k, s'.kindOf m.1 = some k → s.kindOf m.1 = some k
  cycles : ∀ id g, s'.cycleOf id = some g → s.cycleOf id = some g ∧ s'.kindOf id = s.kindOf id
  ids : ∀ id k, s'.kindOf id = some k → s.kindOf id = some k ∨ id < s'.nextSub
  next : s.nextSub ≤ s'.nextSub
  counter : s.counter ≤ s'.counter
  table : ∀ g, s'.UnderWay true g → s.table.Below g → s'.table.Below g

theorem Part.underWay (h : Part s' s) {lists : Bool} {g : ℕ} (hu : s'.UnderWay lists g) :
    s.UnderWay lists g := by
  obtain ⟨id, k, hk, hl, hc | ⟨u, hu, hg⟩⟩ := hu
  · obtain ⟨hc, hkk⟩ := h.cycles id g hc
    exact ⟨id, k, hkk ▸ hk, hl, Or.inl hc⟩
  · exact ⟨id, k, h.kinds _ hu k hk, hl, Or.inr ⟨u, h.queue.subset hu, hg⟩⟩

/-- A part of an ordered state is ordered. -/
theorem Ordered.part (h : Ordered s) (hp : Part s' s) : Ordered s' where
  known m hm := Nat.lt_of_lt_of_le (h.known m (hp.queue.subset hm)) hp.next
  ids id k hk := by
    rcases hp.ids id k hk with hk | hlt
    · exact Nat.lt_of_lt_of_le (h.ids id k hk) hp.next
    · exact hlt
  drawn lists g hu := Nat.le_trans (h.drawn lists g (hp.underWay hu)) hp.counter
  apart g hu hv := h.apart g (hp.underWay hu) (hp.underWay hv)
  below g hu := hp.table g hu (h.below g (hp.underWay hu))
  pages id u hm k hk hne := h.pages id u (hp.queue.subset hm) k (hp.kinds _ hm k hk) hne
  sorted := by
    refine (h.sorted.sublist hp.queue).imp_of_mem fun {m n} hm hn hmn hkm hkn => ?_
    exact hmn (hp.kinds m hm _ hkm) (hp.kinds n hn _ hkn)
  last id u id' g hm hk hk' hc := by
    obtain ⟨hc, hkk⟩ := hp.cycles id' g hc
    exact h.last id u id' g (hp.queue.subset hm) (hp.kinds _ hm _ hk) (hkk ▸ hk') hc
  alone id id' g g' hk hk' hc hc' := by
    obtain ⟨hc, hkk⟩ := hp.cycles id g hc
    obtain ⟨hc', hkk'⟩ := hp.cycles id' g' hc'
    exact h.alone id id' g g' (hkk ▸ hk) (hkk' ▸ hk') hc hc'

/-! ### Sending and drawing -/

/-- What a message needs to be sent: its number was drawn, a list's is past all that is queued of
lists and unknown to the single reads, and a single read's is unknown to the lists. -/
structure Sendable (s : Polling) (id : ℕ) (k : SubKind) (u : Update) : Prop where
  kind : s.kindOf id = some k
  drawn : u.generation ≤ s.counter
  below : k = .list → s.table.Below u.generation
  apart : ¬ s.UnderWay (k != .list) u.generation
  pages : k ≠ .list → ∀ g es total, u ≠ .page g es total
  sorted : k = .list → ∀ m ∈ s.queue, s.kindOf m.1 = some .list → Precedes m.2 u.generation
  last : k = .list → ∀ id' g, s.kindOf id' = some .list → s.cycleOf id' = some g → Precedes u g

theorem underWay_send {id : ℕ} {u : Update} {k : SubKind} (hk : s.kindOf id = some k)
    {lists : Bool} {g : ℕ} (h : (s.send id u).UnderWay lists g) :
    s.UnderWay lists g ∨ ((k == .list) = lists ∧ u.generation = g) := by
  obtain ⟨id', k', hk', hl, hc | ⟨v, hv, hg⟩⟩ := h
  · exact Or.inl ⟨id', k', hk', hl, Or.inl hc⟩
  · rcases List.mem_append.1 hv with hv | hv
    · exact Or.inl ⟨id', k', hk', hl, Or.inr ⟨v, hv, hg⟩⟩
    · rw [List.mem_singleton, Prod.mk.injEq] at hv
      obtain ⟨rfl, rfl⟩ := hv
      have hkk : k' = k := Option.some.inj (hk'.symm.trans hk)
      exact Or.inr ⟨hkk ▸ hl, hg⟩

/-- A sendable message keeps the order. -/
theorem Ordered.send (h : Ordered s) {id : ℕ} {k : SubKind} {u : Update}
    (hs : Sendable s id k u) : Ordered (s.send id u) where
  known m hm := by
    rcases List.mem_append.1 hm with hm | hm
    · exact h.known m hm
    · rw [List.mem_singleton.1 hm]
      exact h.ids id k hs.kind
  ids := h.ids
  drawn lists g hu := by
    rcases underWay_send hs.kind hu with hu | ⟨-, rfl⟩
    · exact h.drawn lists g hu
    · exact hs.drawn
  apart g hu hv := by
    rcases underWay_send hs.kind hu with hu | ⟨hl, rfl⟩ <;>
      rcases underWay_send hs.kind hv with hv | ⟨hl', hg⟩
    · exact h.apart g hu hv
    · exact hs.apart (by simpa [bne, hl', hg] using hu)
    · exact hs.apart (by simpa [bne, hl] using hv)
    · rw [hl] at hl'
      cases hl'
  below g hu := by
    rcases underWay_send hs.kind hu with hu | ⟨hl, rfl⟩
    · exact h.below g hu
    · exact hs.below (by simpa using hl)
  pages id' v hm k' hk' hne := by
    rcases List.mem_append.1 hm with hm | hm
    · exact h.pages id' v hm k' hk' hne
    · rw [List.mem_singleton, Prod.mk.injEq] at hm
      obtain ⟨rfl, rfl⟩ := hm
      have hkk : k' = k := Option.some.inj (hk'.symm.trans hs.kind)
      exact hs.pages (hkk ▸ hne)
  sorted := by
    refine List.pairwise_append.2 ⟨h.sorted, List.pairwise_singleton _ _, fun m hm n hn => ?_⟩
    rw [List.mem_singleton.1 hn]
    intro hkm hkn
    exact hs.sorted (Option.some.inj (hs.kind.symm.trans hkn)) m hm hkm
  last id' v id'' g hm hk' hk'' hc := by
    rcases List.mem_append.1 hm with hm | hm
    · exact h.last id' v id'' g hm hk' hk'' hc
    · rw [List.mem_singleton, Prod.mk.injEq] at hm
      obtain ⟨rfl, rfl⟩ := hm
      exact hs.last (Option.some.inj (hs.kind.symm.trans hk')) id'' g hk'' hc
  alone := h.alone

theorem kindOf_setCycle {id : ℕ} {sub : Sub} (hs : s.subs id = some sub) (cycle : Option ℕ)
    (id' : ℕ) : (s.setCycle id sub cycle).kindOf id' = s.kindOf id' := by
  by_cases h : id' = id
  · subst h
    simp [kindOf, setCycle, hs]
  · simp [kindOf, setCycle, h]

theorem cycleOf_setCycle (s : Polling) (id : ℕ) (sub : Sub) (cycle : Option ℕ) (id' : ℕ) :
    (s.setCycle id sub cycle).cycleOf id' = if id' = id then cycle else s.cycleOf id' := by
  by_cases h : id' = id
  · simp [cycleOf, setCycle, h]
  · simp [cycleOf, setCycle, h]

/-- A task that is done with its cycle leaves the rest as it was. -/
theorem part_setCycle_none {id : ℕ} {sub : Sub} (hs : s.subs id = some sub) :
    Part (s.setCycle id sub none) s where
  queue := List.Sublist.refl _
  kinds m _ k hk := by rwa [kindOf_setCycle hs] at hk
  cycles id' g hc := by
    rw [cycleOf_setCycle] at hc
    split at hc
    · cases hc
    · exact ⟨hc, kindOf_setCycle hs none id'⟩
  ids id' k hk := Or.inl (by rwa [kindOf_setCycle hs] at hk)
  next := Nat.le_refl _
  counter := Nat.le_refl _
  table _ _ ht := ht

/-- A task that draws the next number of the counter keeps the order: a listing one when the table
remembers nothing past the counter and no other listing task is in its cycle. -/
theorem Ordered.setCycle (h : Ordered s) {id c : ℕ} {sub : Sub} (hs : s.subs id = some sub)
    (hc : s.generations = some c)
    (hlist : sub.kind = .list → s.table.Below (c + 1) ∧
      ∀ id' g, s.kindOf id' = some .list → s.cycleOf id' = some g → id' = id) :
    Ordered ({ s with generations := some (c + 1) }.setCycle id sub (some (c + 1))) := by
  have hcount : s.counter = c := by simp [counter, hc]
  have hkid : s.kindOf id = some sub.kind := by simp [kindOf, hs]
  have hkind : ∀ id', ({ s with generations := some (c + 1) }.setCycle id sub
      (some (c + 1))).kindOf id' = s.kindOf id' := fun id' => kindOf_setCycle hs _ id'
  have hcyc : ∀ id', ({ s with generations := some (c + 1) }.setCycle id sub
      (some (c + 1))).cycleOf id' = if id' = id then some (c + 1) else s.cycleOf id' :=
    fun id' => cycleOf_setCycle _ id sub _ id'
  -- what is under way is what was, and the number just drawn
  have hway : ∀ lists g, ({ s with generations := some (c + 1) }.setCycle id sub
      (some (c + 1))).UnderWay lists g →
      s.UnderWay lists g ∨ ((sub.kind == .list) = lists ∧ g = c + 1) := by
    rintro lists g ⟨id', k, hk, hl, hw⟩
    rw [hkind] at hk
    rw [hcyc] at hw
    rcases hw with hw | ⟨u, hu, hg⟩
    · split at hw
      · rename_i he
        subst he
        rw [hkid, Option.some.injEq] at hk
        exact Or.inr ⟨hk ▸ hl, (Option.some.inj hw).symm⟩
      · exact Or.inl ⟨id', k, hk, hl, Or.inl hw⟩
    · exact Or.inl ⟨id', k, hk, hl, Or.inr ⟨u, hu, hg⟩⟩
  have hold : ∀ lists g, s.UnderWay lists g → g ≤ c := fun lists g hu =>
    hcount ▸ h.drawn lists g hu
  constructor
  · exact h.known
  · exact fun id' k hk => h.ids id' k (hkind id' ▸ hk)
  · intro lists g hu
    change g ≤ c + 1
    rcases hway lists g hu with hu | ⟨-, rfl⟩
    · exact Nat.le_succ_of_le (hold lists g hu)
    · exact Nat.le_refl _
  · intro g hu hv
    rcases hway _ g hu with hu | ⟨hl, hg⟩ <;> rcases hway _ g hv with hv | ⟨hl', hg'⟩
    · exact h.apart g hu hv
    · have := hold _ g hu
      omega
    · have := hold _ g hv
      omega
    · rw [hl] at hl'
      cases hl'
  · intro g hu
    rcases hway _ g hu with hu | ⟨hl, rfl⟩
    · exact h.below g hu
    · exact (hlist (by simpa using hl)).1
  · exact fun id' u hm k hk hne => h.pages id' u hm k (hkind id' ▸ hk) hne
  · exact h.sorted.imp fun {m n} hmn hm hn => hmn (hkind m.1 ▸ hm) (hkind n.1 ▸ hn)
  · intro id' u id'' g hm hk' hk'' hw
    rw [hkind] at hk' hk''
    rw [hcyc] at hw
    split at hw
    · have hle := hold true u.generation ⟨id', .list, hk', rfl, Or.inr ⟨u, hm, rfl⟩⟩
      rw [← Option.some.inj hw]
      refine ⟨Nat.le_succ_of_le hle, fun k hku => ?_⟩
      subst hku
      exact Nat.lt_succ_of_le hle
    · exact h.last id' u id'' g hm hk' hk'' hw
  · intro a b g g' ha hb hw hw'
    rw [hkind] at ha hb
    rw [hcyc] at hw hw'
    split at hw <;> split at hw'
    · rename_i hae hbe
      rw [hae, hbe]
    · rename_i hae _
      subst hae
      rw [hkid, Option.some.injEq] at ha
      exact ((hlist ha).2 b g' hb hw').symm
    · rename_i _ hbe
      subst hbe
      rw [hkid, Option.some.injEq] at hb
      exact (hlist hb).2 a g ha hw
    · exact h.alone a b g g' ha hb hw hw'

/-- A task begins a cycle, or tries its listing once more: it draws, and announces a listing. -/
theorem Ordered.draw (h : Ordered s) {id c : ℕ} {sub : Sub} (hs : s.subs id = some sub)
    (hc : s.generations = some c)
    (hlist : sub.kind = .list → s.table.Below (c + 1) ∧
      ∀ id' g, s.kindOf id' = some .list → s.cycleOf id' = some g → id' = id) :
    Ordered (s.draw id sub c) := by
  have hset := h.setCycle hs hc hlist
  unfold Polling.draw
  cases hk : sub.kind with
  | list =>
      have hcyc : ∀ id', ({ s with generations := some (c + 1) }.setCycle id sub
          (some (c + 1))).cycleOf id' = if id' = id then some (c + 1) else s.cycleOf id' :=
        fun id' => cycleOf_setCycle _ id sub _ id'
      have hkid : ({ s with generations := some (c + 1) }.setCycle id sub
          (some (c + 1))).kindOf id = some .list :=
        (kindOf_setCycle hs _ id).trans (by simp [kindOf, hs, hk])
      have hcid := hcyc id
      rw [if_pos rfl] at hcid
      have hway : ({ s with generations := some (c + 1) }.setCycle id sub
          (some (c + 1))).UnderWay true (c + 1) := ⟨id, .list, hkid, rfl, Or.inl hcid⟩
      refine hset.send ⟨hkid, ?_, ?_, ?_, ?_, ?_, ?_⟩
      · exact Nat.le_refl _
      · exact fun _ => hset.below _ hway
      · exact hset.apart _ hway
      · exact fun hne => absurd rfl hne
      · exact fun _ m hm hm' => hset.last m.1 m.2 id (c + 1) hm hm' hkid hcid
      · intro _ id' g hk' hc'
        have he : id' = id := hset.alone id' id g (c + 1) hk' hkid hc' hcid
        rw [he, hcid] at hc'
        rw [← Option.some.inj hc']
        exact ⟨Nat.le_refl _, fun k hk => by cases hk⟩
  | detail => exact hset
  | once => exact hset

/-! ### The steps -/

/-- The condition on the events: a walk draws a number past what the table remembers, while no other
walk of the key is in its cycle. -/
def CaughtUp (s : Polling) : PollEvent → Prop
  | .attempt id =>
      s.kindOf id = some .list →
        s.table.generation ≤ s.counter ∧ (∀ st ∈ s.table.staging, st.generation ≤ s.counter) ∧
          ∀ id' < s.nextSub, s.kindOf id' = some .list → s.cycleOf id' = none
  | _ => True

instance decidableCaughtUp (s : Polling) (e : PollEvent) : Decidable (CaughtUp s e) := by
  cases e <;> unfold CaughtUp <;> infer_instance

/-- A message of the cycle a task is in can be sent, if it does not end it. -/
theorem Ordered.sendable (h : Ordered s) {id g : ℕ} {k : SubKind} {u : Update}
    (hk : s.kindOf id = some k) (hc : s.cycleOf id = some g) (hg : u.generation = g)
    (hend : ∀ j, u ≠ .complete j) (hpage : k ≠ .list → ∀ g es total, u ≠ .page g es total) :
    Sendable s id k u := by
  subst hg
  have hway : s.UnderWay (k == .list) u.generation := ⟨id, k, hk, rfl, Or.inl hc⟩
  refine ⟨hk, h.drawn _ _ hway, fun hl => ?_, fun hv => ?_, hpage, fun hl m hm hm' => ?_,
    fun hl id' g' hk' hc' => ?_⟩
  · subst hl
    exact h.below _ hway
  · cases k with
    | list => exact h.apart _ hway hv
    | detail => exact h.apart _ hv hway
    | once => exact h.apart _ hv hway
  · subst hl
    exact h.last m.1 m.2 id _ hm hm' hk hc
  · subst hl
    have he := h.alone id' id g' _ hk' hk hc' hc
    rw [he, hc] at hc'
    rw [← Option.some.inj hc']
    exact ⟨Nat.le_refl _, fun j hj => absurd hj (hend j)⟩

/-- The end of a cycle can be sent once the task is out of it. -/
theorem Ordered.sendable_end (h : Ordered s) {id g : ℕ} {sub : Sub} {u : Update}
    (hs : s.subs id = some sub) (hc : sub.cycle = some g) (hg : u.generation = g)
    (hpage : ∀ g es total, u ≠ .page g es total) :
    Sendable (s.setCycle id sub none) id sub.kind u := by
  subst hg
  have hp := part_setCycle_none hs
  have hk : s.kindOf id = some sub.kind := by simp [kindOf, hs]
  have hcyc : s.cycleOf id = some u.generation := by simp [cycleOf, hs, hc]
  have hway : s.UnderWay (sub.kind == .list) u.generation := ⟨id, sub.kind, hk, rfl, Or.inl hcyc⟩
  refine ⟨(kindOf_setCycle hs none id).trans hk, h.drawn _ _ hway, fun hl => ?_, fun hv => ?_,
    fun _ => hpage, fun hl m hm hm' => ?_, fun hl id' g' hk' hc' => ?_⟩
  · rw [hl] at hway
    exact h.below _ hway
  · have hv := hp.underWay hv
    cases hkind : sub.kind <;> rw [hkind] at hway hv
    · exact h.apart _ hway hv
    · exact h.apart _ hv hway
    · exact h.apart _ hv hway
  · rw [kindOf_setCycle hs] at hm'
    exact h.last m.1 m.2 id _ hm hm' (hl ▸ hk) hcyc
  · -- no other walk is in its cycle, and this one no longer is
    rw [kindOf_setCycle hs] at hk'
    rw [cycleOf_setCycle] at hc'
    split at hc'
    · cases hc'
    · rename_i hne
      exact absurd (h.alone id' id g' _ hk' (hl ▸ hk) hc' hcyc) hne

/-- The receiver takes the oldest message: what it makes the table remember is below every walk
still under way. -/
theorem Ordered.deliver (h : Ordered s) {now id : ℕ} {u : Update} {queue : List (ℕ × Update)}
    (hq : s.queue = (id, u) :: queue) : Ordered ({ s with queue }.receive now id u) := by
  have hrest : Part { s with queue } s :=
    { queue := hq ▸ List.sublist_cons_self _ _
      kinds := fun _ _ _ hk => hk
      cycles := fun _ _ hc => ⟨hc, rfl⟩
      ids := fun _ _ hk => Or.inl hk
      next := Nat.le_refl _
      counter := Nat.le_refl _
      table := fun _ _ ht => ht }
  have hmem : (id, u) ∈ s.queue := hq ▸ List.mem_cons_self
  unfold receive
  cases hs : s.subs id with
  | none => exact h.part hrest
  | some sub =>
      have hk : s.kindOf id = some sub.kind := by simp [kindOf, hs]
      dsimp only
      split
      swap
      · exact h.part hrest
      refine h.part ⟨hrest.queue, hrest.kinds, hrest.cycles, hrest.ids, hrest.next, hrest.counter,
        fun g hg ht => ?_⟩
      -- a message of a list precedes every walk still under way
      have hprec : sub.kind = .list → Precedes u g := by
        intro hl
        obtain ⟨id', k', hk', hl', hw⟩ := hg
        have hk'l : s.kindOf id' = some .list := by
          have : k' = .list := by simpa using hl'
          exact this ▸ hk'
        rcases hw with hc | ⟨v, hv, rfl⟩
        · exact h.last id u id' g hmem (hl ▸ hk) hk'l hc
        · have hsort := h.sorted
          rw [hq] at hsort
          exact (List.pairwise_cons.1 hsort).1 (id', v) hv (hl ▸ hk) hk'l
      refine ht.apply now (fun k es total hu => ?_) (fun k hu hr => ?_)
      · by_cases hl : sub.kind = .list
        · have := (hprec hl).1
          rwa [hu] at this
        · exact absurd hu (h.pages id u hmem sub.kind hk hl k es total)
      · by_cases hl : sub.kind = .list
        · exact (hprec hl).2 k hu
        · -- a single read completes a number of its own, at most what is staged
          simp only [Table.replaces, Bool.and_eq_true, Option.isSome_iff_exists] at hr
          obtain ⟨-, st, hst⟩ := hr
          obtain ⟨hst, hsk⟩ := Table.staging_of_takes hst
          have hle : k ≤ g := hsk ▸ ht.2 st hst
          have hne : k ≠ g := fun he => by
            have hsingle : s.UnderWay false g :=
              ⟨id, sub.kind, hk, by simpa using hl, Or.inr ⟨u, hmem, by rw [hu, ← he]; rfl⟩⟩
            obtain ⟨id', k', hk', hl', hw⟩ := hg
            refine h.apart g ⟨id', k', hk', hl', ?_⟩ hsingle
            exact hw.imp (fun hc => hc) fun ⟨v, hv, hvg⟩ => ⟨v, hq ▸ List.mem_cons_of_mem _ hv, hvg⟩
          exact Nat.lt_of_le_of_ne hle hne

theorem part_subscribe (h : Ordered s) (kind : SubKind) :
    Part { s with
      subs := Function.update s.subs s.nextSub (some { kind }), nextSub := s.nextSub + 1 } s where
  queue := List.Sublist.refl _
  kinds m hm k hk := by
    have hne : m.1 ≠ s.nextSub := Nat.ne_of_lt (h.known m hm)
    simpa [kindOf, hne] using hk
  cycles id g hc := by
    by_cases he : id = s.nextSub
    · simp [cycleOf, he] at hc
    · simpa [cycleOf, kindOf, he] using hc
  ids id k hk := by
    by_cases he : id = s.nextSub
    · exact Or.inr (he ▸ Nat.lt_succ_self _)
    · exact Or.inl (by simpa [kindOf, he] using hk)
  next := Nat.le_succ _
  counter := Nat.le_refl _
  table _ _ ht := ht

theorem part_unsubscribe (s : Polling) (id : ℕ) :
    Part { s with subs := Function.update s.subs id none } s where
  queue := List.Sublist.refl _
  kinds m _ k hk := by
    by_cases he : m.1 = id
    · simp [kindOf, he] at hk
    · simpa [kindOf, he] using hk
  cycles id' g hc := by
    by_cases he : id' = id
    · simp [cycleOf, he] at hc
    · simpa [cycleOf, kindOf, he] using hc
  ids id' k hk := by
    by_cases he : id' = id
    · simp [kindOf, he] at hk
    · exact Or.inl (by simpa [kindOf, he] using hk)
  next := Nat.le_refl _
  counter := Nat.le_refl _
  table _ _ ht := ht

/-- The events keep the order. -/
theorem ordered_step (h : Ordered s) (hc : CaughtUp s e) (hstep : s.step e = some s') :
    Ordered s' := by
  cases e with
  | joined | forgetPeer =>
      rw [step, Option.some.injEq] at hstep
      exact hstep ▸ ordered_of_no_subs h.known fun _ => rfl
  | subscribe kind =>
      rw [step] at hstep
      split at hstep
      · exact Option.some.inj hstep ▸ h.part (part_subscribe h kind)
      · cases hstep
  | unsubscribe id =>
      rw [step, Option.some.injEq] at hstep
      exact hstep ▸ h.part (part_unsubscribe s id)
  | abandon =>
      rw [step, Option.some.injEq] at hstep
      subst hstep
      refine h.part ⟨List.Sublist.refl _, fun _ _ _ hk => hk, fun _ _ hg => ⟨hg, rfl⟩,
        fun _ _ hk => Or.inl hk, Nat.le_refl _, Nat.le_refl _, fun g _ ht => ?_⟩
      exact ⟨ht.1, fun st hst => by cases hst⟩
  | otherCycle =>
      obtain ⟨c, hg, rfl⟩ := Option.map_eq_some_iff.1 hstep
      have hcount : s.counter ≤ c + 1 := by simp [counter, hg]
      exact h.part ⟨List.Sublist.refl _, fun _ _ _ hk => hk, fun _ _ hg => ⟨hg, rfl⟩,
        fun _ _ hk => Or.inl hk, Nat.le_refl _, hcount, fun _ _ ht => ht⟩
  | attempt id =>
      rw [step] at hstep
      split at hstep
      · rename_i kind c hs hg
        refine Option.some.inj hstep ▸ h.draw hs hg fun hl => ?_
        obtain ⟨hgen, hst, hothers⟩ := hc (by simpa [kindOf, hs] using hl)
        have hcount : s.counter = c := by simp [counter, hg]
        rw [hcount] at hgen hst
        refine ⟨⟨Nat.lt_succ_of_le hgen, fun st hs => Nat.le_succ_of_le (hst st hs)⟩, ?_⟩
        intro id' g hk' hc'
        rw [hothers id' (h.ids id' _ hk') hk'] at hc'
        cases hc'
      · cases hstep
  | secondAttempt id =>
      rw [step] at hstep
      split at hstep
      · rename_i g c hs hg
        refine Option.some.inj hstep ▸ h.draw hs hg fun _ => ?_
        -- the cycle it is in is past what the table remembers, and the only one
        have hk : s.kindOf id = some .list := by simp [kindOf, hs]
        have hcyc : s.cycleOf id = some g := by simp [cycleOf, hs]
        have hway : s.UnderWay true g := ⟨id, .list, hk, rfl, Or.inl hcyc⟩
        have hle : g ≤ c := by simpa [counter, hg] using h.drawn _ _ hway
        obtain ⟨hgen, hst⟩ := h.below g hway
        refine ⟨⟨by omega, fun st hs => ?_⟩, fun id' g' hk' hc' => h.alone _ _ g' g hk' hk hc' hcyc⟩
        have := hst st hs
        omega
      · cases hstep
  | page id es total =>
      rw [step] at hstep
      split at hstep
      · rename_i g hs
        have hk : s.kindOf id = some .list := by simp [kindOf, hs]
        have hcyc : s.cycleOf id = some g := by simp [cycleOf, hs]
        exact Option.some.inj hstep ▸
          h.send (h.sendable hk hcyc rfl (by simp) fun hne => absurd rfl hne)
      · cases hstep
  | entity id entity =>
      rw [step] at hstep
      split at hstep
      · rename_i g hs
        have hk : s.kindOf id = some .detail := by simp [kindOf, hs]
        have hcyc : s.cycleOf id = some g := by simp [cycleOf, hs]
        exact Option.some.inj hstep ▸ h.send (h.sendable hk hcyc rfl (by simp) (by simp))
      · rename_i g hs
        have hk : s.kindOf id = some .once := by simp [kindOf, hs]
        have hcyc : s.cycleOf id = some g := by simp [cycleOf, hs]
        exact Option.some.inj hstep ▸ h.send (h.sendable hk hcyc rfl (by simp) (by simp))
      · cases hstep
  | finish id failure =>
      rw [step] at hstep
      split at hstep
      · rename_i kind g hs
        have hset := h.part (part_setCycle_none hs)
        rw [Option.some.injEq] at hstep
        subst hstep
        cases failure with
        | none => exact hset.send (h.sendable_end hs rfl rfl (by simp))
        | some f => exact hset.send (h.sendable_end hs rfl rfl (by simp))
      · cases hstep
  | deliver now =>
      rw [step] at hstep
      split at hstep
      · cases hstep
      · rename_i id u queue hq
        exact Option.some.inj hstep ▸ h.deliver hq

theorem ordered_init : Ordered {} :=
  ordered_of_no_subs (fun m hm => by cases hm) fun _ => rfl

/-! ### Every live walk is heard -/

/-- Of a walk with pages staged, the `complete` installs them. -/
def Lands (t : Table) : Update → Prop
  | .complete g => (t.takes g).isSome = true → t.replaces g = true
  | _ => True

/-- A page or a `complete` that comes out of the channel for a live list is not dropped as stale,
and what its walk has staged lands. -/
def Heard (s : Polling) : PollEvent → Prop
  | .deliver _ =>
      ∀ m ∈ s.queue.head?, s.kindOf m.1 = some .list → ¬ Stale s.table m.2 ∧ Lands s.table m.2
  | _ => True

instance decidableStale (t : Table) (u : Update) : Decidable (Stale t u) := by
  cases u <;> unfold Stale <;> infer_instance

instance decidableLands (t : Table) (u : Update) : Decidable (Lands t u) := by
  cases u <;> unfold Lands <;> infer_instance

instance decidableHeard (s : Polling) (e : PollEvent) : Decidable (Heard s e) := by
  cases e <;> unfold Heard <;> infer_instance

theorem lands {t : Table} {u : Update} (h : t.Below u.generation) : Lands t u := by
  cases u with
  | complete g =>
      intro ht
      have hle : t.generation ≤ g := Nat.le_of_lt h.1
      simp [Table.replaces, ht, hle]
  | _ => trivial

theorem Ordered.heard (h : Ordered s) (e : PollEvent) : Heard s e := by
  cases e with
  | deliver now =>
      intro m hm hk
      have hmem : m ∈ s.queue := List.mem_of_head? hm
      have hbelow := h.below _ ⟨m.1, .list, hk, rfl, Or.inr ⟨m.2, hmem, rfl⟩⟩
      exact ⟨not_stale hbelow, lands hbelow⟩
  | _ => trivial

/-- **Every live walk is heard** in a run whose walks draw their numbers past what the table
remembers, one at a time. -/
theorem heard_exec {es : List PollEvent} (h : Run.Along step CaughtUp {} es) :
    Run.Along step Heard {} es :=
  h.imp (I := Ordered) (fun _ _ _ ho hc hs => ordered_step ho hc hs)
    (fun _ e ho _ => ho.heard e) ordered_init

/-- A context dropped after one walk is heard again once other lists of it have been read. -/
theorem heard_exec_rejoined :
    Run.Along step Heard {}
      [.joined, .subscribe .list, .attempt 1, .page 1 [vm "a" "A"] none, .finish 1 none,
        .deliver 0, .deliver 1, .deliver 2, .forgetPeer, .joined, .otherCycle, .subscribe .list,
        .attempt 2, .page 2 [vm "b" "B"] none, .finish 2 none, .deliver 3, .deliver 4,
        .deliver 5] :=
  heard_exec (by decide)

/-- A context dropped after two walks and joined again begins anew at one: the page of its first
walk is stale. -/
theorem not_heard_exec : ¬ ∀ es : List PollEvent, Run.Along step Heard {} es := by
  intro h
  have hrun := h [.joined, .subscribe .list, .attempt 1, .page 1 [vm "a" "A"] none,
    .finish 1 none, .attempt 1, .page 1 [vm "a" "A"] none, .finish 1 none, .deliver 0, .deliver 1,
    .deliver 2, .deliver 3, .deliver 4, .deliver 5, .forgetPeer, .joined, .subscribe .list,
    .attempt 2, .page 2 [vm "b" "B"] none, .deliver 6, .deliver 7]
  exact absurd hrun (by decide)

end Polling

end Nutsh
