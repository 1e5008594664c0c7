/-
The clock of the cycle in flight.

A table shows how long the listing cycle in flight has been running.  The clock is set by the beginning of
a cycle and cleared by the end of that same cycle, but an end whose generation the table is past is dropped
whole, the clock included.  So it runs on forever for a cycle whose rows were overtaken while the clock was
its own.

Main definitions:

* `CycleEvent` — an update of some cycle, or the end of cycles nobody waits for;
* `CycleEvent.InOrder` — the updates of each cycle come in order;
* `Table.Timely` — no cycle installs its rows under the clock of an older one.

Main results:

* `Table.clocked_step` — the clock is that of a cycle that runs and is not overtaken;
* `Table.cycleStarted_eq_none` — once every cycle has ended no clock runs;
* `Table.not_cycleStarted_eq_none` — cycles that begin out of order leave a clock behind.
-/
import Nutsh.Lib.Run
import Nutsh.Store.Walk

set_option relaxedAutoImplicit false
set_option autoImplicit false

namespace Nutsh

/-- What happens to a table: an update of a cycle, or the subscriptions of some cycles go. -/
inductive CycleEvent where
  | update (now : ℕ) (u : Update)
  | abandon (cycles : List ℕ)

namespace CycleEvent

/-- The event is an update of the cycle. -/
def Of (g : ℕ) : CycleEvent → Prop
  | update _ u => u.generation = g
  | abandon _ => False

/-- The cycle begins. -/
def Starts (g : ℕ) : CycleEvent → Prop
  | update _ (.started g') => g' = g
  | _ => False

/-- The cycle ends: it completes or fails, or nobody waits for it any more. -/
def Ends (g : ℕ) : CycleEvent → Prop
  | update _ (.complete g') => g' = g
  | update _ (.error g' _) => g' = g
  | update _ _ => False
  | abandon cycles => g ∈ cycles

/-- The updates of each cycle come in order: nothing of it before it begins or after it ended. -/
def InOrder (es : List CycleEvent) : Prop :=
  es.Pairwise fun a b => ∀ g, (a.Ends g → ¬ b.Of g) ∧ (a.Of g → ¬ b.Starts g)

end CycleEvent

namespace Table

/-- One event on a table. -/
def cycle (t : Table) : CycleEvent → Table
  | .update now u => t.apply now u
  | .abandon _ => { t with cycleStarted := none, staging := none }

def cycleStep (t : Table) (e : CycleEvent) : Option Table := some (t.cycle e)

/-- No cycle installs its rows while the clock is that of an older one. -/
def Timely (t : Table) : CycleEvent → Prop
  | .update _ (.complete g) => t.replaces g = true → ∀ c, t.cycleStarted = some c → g ≤ c.1
  | _ => True

variable {t t' : Table} {e : CycleEvent} {past es : List CycleEvent}

/-! ### What each arm does to the clock -/

theorem cycleStarted_onStarted (t : Table) (now g : ℕ) :
    (t.onStarted now g).cycleStarted = t.cycleStarted ∨
      t.generation < g ∧ (t.onStarted now g).cycleStarted = some (g, now) := by
  rw [onStarted]
  split
  · exact .inl rfl
  case isFalse hg =>
    split
    · exact .inl rfl
    · exact .inr ⟨Nat.lt_of_not_le hg, rfl⟩

theorem cycleStarted_onPage (t : Table) (g : ℕ) (entities : List Entity) (total : Option ℕ) :
    (t.onPage g entities total).cycleStarted = t.cycleStarted := by
  rw [onPage]
  split
  · rfl
  · split <;> rfl

theorem cycleStarted_onComplete (t : Table) (now g : ℕ) :
    (t.onComplete now g).cycleStarted = if g < t.generation then t.cycleStarted else t.endClock g := by
  rw [onComplete]
  split
  · rfl
  · dsimp only
    split <;> rfl

theorem cycleStarted_onEntity (t : Table) (g : ℕ) (e : Entity) :
    (t.onEntity g e).cycleStarted = t.cycleStarted := by
  rw [onEntity]
  split <;> rfl

theorem cycleStarted_onError (t : Table) (g : ℕ) (error : Failure) :
    (t.onError g error).cycleStarted = if g < t.generation then t.cycleStarted else t.endClock g := by
  rw [onError]
  split <;> rfl

theorem of_endClock {g : ℕ} {c : ℕ × ℕ} (h : t.endClock g = some c) : t.cycleStarted = some c ∧ c.1 ≠ g := by
  obtain ⟨hc, hne⟩ := Option.filter_eq_some_iff.1 h
  exact ⟨hc, by simpa using hne⟩

/-! ### The clock is that of a cycle that runs -/

/-- The clock of a table after some events is that of a cycle that began and has not ended, and whose
generation the table is not past. -/
def Clocked (past : List CycleEvent) (t : Table) : Prop :=
  ∀ c, t.cycleStarted = some c →
    t.generation < c.1 ∧ (∃ e ∈ past, e.Starts c.1) ∧ ∀ e ∈ past, ¬ e.Ends c.1

/-- A clock that goes on running is still one of a running cycle, when the event ends another cycle and
takes the table no further than it. -/
theorem Clocked.keep (h : Clocked past t) (hclock : ∀ c, t'.cycleStarted = some c →
      t.cycleStarted = some c ∧ ¬ e.Ends c.1 ∧ t'.generation < c.1) : Clocked (past ++ [e]) t' := by
  intro c hc
  obtain ⟨hold, hends, hgeneration⟩ := hclock c hc
  obtain ⟨-, ⟨s, hs, hstarts⟩, hnone⟩ := h c hold
  refine ⟨hgeneration, ⟨s, List.mem_append_left _ hs, hstarts⟩, ?_⟩
  rw [List.forall_mem_append]
  exact ⟨hnone, by simpa using hends⟩

/-- **The step.**  An event that comes in order and is timely leaves a clock of a running cycle. -/
theorem clocked_step (h : Clocked past t) (horder : CycleEvent.InOrder (past ++ [e])) (htimely : t.Timely e) :
    Clocked (past ++ [e]) (t.cycle e) := by
  have hbefore : ∀ a ∈ past, ∀ g, a.Ends g → ¬ e.Of g := fun a ha g =>
    ((List.pairwise_append.1 horder).2.2 a ha e List.mem_cons_self g).1
  match e with
  | .abandon cycles =>
      intro c hc
      cases hc
  | .update now (.started g) =>
      rcases t.cycleStarted_onStarted now g with hsame | ⟨hnew, hset⟩
      · refine h.keep fun c hc => ?_
        have hold : t.cycleStarted = some c := hsame.symm.trans hc
        exact ⟨hold, id, by simpa [cycle] using (h c hold).1⟩
      · -- The clock is set for the cycle that begins, which therefore has not ended.
        intro c hc
        obtain rfl : (g, now) = c := Option.some.inj (hset.symm.trans hc)
        refine ⟨by simpa [cycle] using hnew, ⟨_, List.mem_append_right _ List.mem_cons_self, rfl⟩, ?_⟩
        rw [List.forall_mem_append]
        exact ⟨fun a ha hends => hbefore a ha g hends rfl, by simp [CycleEvent.Ends]⟩
  | .update now (.page g entities total) =>
      refine h.keep fun c hc => ?_
      have hold : t.cycleStarted = some c := (t.cycleStarted_onPage g entities total).symm.trans hc
      exact ⟨hold, id, by simpa [cycle] using (h c hold).1⟩
  | .update now (.entity g entity) =>
      refine h.keep fun c hc => ?_
      have hold : t.cycleStarted = some c := (t.cycleStarted_onEntity g entity).symm.trans hc
      exact ⟨hold, id, by simpa [cycle] using (h c hold).1⟩
  | .update now (.error g error) =>
      refine h.keep fun c hc => ?_
      have hclock := (t.cycleStarted_onError g error).symm.trans hc
      have hgeneration : (t.cycle (.update now (.error g error))).generation = t.generation := by simp [cycle]
      rw [hgeneration]
      split at hclock
      case isTrue hstale =>
        -- A stale end is that of a cycle older than the clock's.
        have hlt := (h c hclock).1
        refine ⟨hclock, ?_, hlt⟩
        show g ≠ c.1
        omega
      · obtain ⟨hold, hne⟩ := of_endClock hclock
        exact ⟨hold, Ne.symm hne, (h c hold).1⟩
  | .update now (.complete g) =>
      refine h.keep fun c hc => ?_
      have hclock := (t.cycleStarted_onComplete now g).symm.trans hc
      have hgeneration : (t.cycle (.update now (.complete g))).generation =
          (t.onComplete now g).generation := rfl
      rw [hgeneration]
      split at hclock
      case isTrue hstale =>
        have hlt := (h c hclock).1
        have hsame : (t.onComplete now g).generation = t.generation := by
          rw [onComplete, if_pos hstale]
        refine ⟨hclock, ?_, hsame ▸ hlt⟩
        show g ≠ c.1
        omega
      · obtain ⟨hold, hne⟩ := of_endClock hclock
        refine ⟨hold, Ne.symm hne, ?_⟩
        rcases t.onComplete_cases now g with ⟨hreplaces, hg, -, -⟩ | ⟨-, hg, -, -⟩
        · -- The rows are installed, and the clock is of no older cycle.
          have hle := htimely hreplaces c hold
          rw [hg]
          omega
        · rw [hg]
          exact (h c hold).1

theorem clocked_exec (h : Clocked past t) (horder : CycleEvent.InOrder (past ++ es))
    (htimely : Run.Along cycleStep Timely t es) (hrun : Run.exec cycleStep t es = some t') :
    Clocked (past ++ es) t' := by
  induction es generalizing past t with
  | nil =>
      rw [List.append_nil, ← Option.some.inj hrun]
      exact h
  | cons e es ih =>
      obtain ⟨u, hu, hrun⟩ := Run.exec_cons_eq_some.1 hrun
      obtain rfl : t.cycle e = u := Option.some.inj hu
      rw [← List.singleton_append, ← List.append_assoc] at horder ⊢
      have hbegins : CycleEvent.InOrder (past ++ [e]) := (List.pairwise_append.1 horder).1
      exact ih (clocked_step h hbegins htimely.1) horder (htimely.2 _ rfl) hrun

/-- **No refresh is shown forever.**  In whatever order the updates of the cycles of a table come, each
cycle's in order, once every cycle that began has ended no clock runs, while no cycle installs its rows
under the clock of an older one. -/
theorem cycleStarted_eq_none (horder : CycleEvent.InOrder es) (htimely : Run.Along cycleStep Timely fresh es)
    (hrun : Run.exec cycleStep fresh es = some t')
    (hended : ∀ g, (∃ e ∈ es, e.Starts g) → ∃ e ∈ es, e.Ends g) : t'.cycleStarted = none := by
  have hclocked : Clocked ([] ++ es) t' := clocked_exec (by intro c hc; cases hc) horder htimely hrun
  cases hclock : t'.cycleStarted with
  | none => rfl
  | some c =>
      obtain ⟨-, hstarted, hnone⟩ := hclocked c hclock
      obtain ⟨e, he, hends⟩ := hended c.1 hstarted
      exact absurd hends (hnone e he)

/-- Two walks and a skipping cycle, the oldest of which is late to say that it began. -/
def lateStart : List CycleEvent :=
  [.update 0 (.started 2), .update 1 (.started 3), .update 2 (.complete 3), .update 3 (.started 1),
   .update 4 (.page 2 [vm "a" "web-01"] (some 1)), .update 5 (.complete 2),
   .update 6 (.page 1 [vm "a" "web-01"] (some 1)), .update 7 (.complete 1)]

theorem inOrder_lateStart : CycleEvent.InOrder lateStart := by
  simp only [CycleEvent.InOrder, lateStart, List.pairwise_cons, List.mem_cons, List.not_mem_nil, or_false,
    forall_eq_or_imp, forall_eq, CycleEvent.Ends, CycleEvent.Of, CycleEvent.Starts, Update.generation]
  simp

/-- Cycles that begin out of order leave the clock of one that has ended running. -/
theorem not_cycleStarted_eq_none :
    ¬ ∀ es t', CycleEvent.InOrder es → Run.exec cycleStep fresh es = some t' →
      (∀ g, (∃ e ∈ es, e.Starts g) → ∃ e ∈ es, e.Ends g) → t'.cycleStarted = none := by
  intro h
  have hended : ∀ g, (∃ e ∈ lateStart, e.Starts g) → ∃ e ∈ lateStart, e.Ends g := by
    intro g hstarted
    simp [lateStart, CycleEvent.Starts, CycleEvent.Ends] at hstarted ⊢
    omega
  have hclock := h lateStart _ inOrder_lateStart rfl hended
  cases hclock

/-- A cycle that begins, reads a page and completes. -/
def oneWalk : List CycleEvent :=
  [.update 0 (.started 1), .update 1 (.page 1 [vm "a" "web-01"] none), .update 2 (.complete 1)]

theorem cycleStarted_oneWalk :
    ((Run.exec cycleStep fresh oneWalk).map cycleStarted) = some none := by
  refine congrArg some (cycleStarted_eq_none ?_ ?_ (rfl : Run.exec cycleStep fresh oneWalk = some _) ?_)
  · simp [CycleEvent.InOrder, oneWalk, CycleEvent.Ends, CycleEvent.Of, CycleEvent.Starts]
  · refine ⟨trivial, fun t ht => ⟨trivial, fun u hu => ⟨fun _ c hc => ?_, fun _ _ => trivial⟩⟩⟩
    obtain rfl := Option.some.inj ht
    obtain rfl := Option.some.inj hu
    obtain rfl : (1, 0) = c := Option.some.inj hc
    exact le_rfl
  · intro g hstarted
    simpa [oneWalk, CycleEvent.Starts, CycleEvent.Ends] using hstarted

end Table

end Nutsh
