/-
What a walk delivers.

A walk asks for page after page until one of four things ends it: an empty or short page, the total that
the server reports, the row budget, and the most pages one cycle walks.  Answered by a server whose rows
stay in their order, it delivers the first rows, each once, up to the end of the page at which the budget
is reached.

Main definitions:

* `answerWalk` — a walk answered by a server, with the rows delivered;
* `walkCap` — the rows the pages of one walk hold at most.

Main results:

* `more_iff` — when a walk goes on;
* `answerWalk_eq_take` — what a walk delivers, and that it ends.
-/
import Nutsh.Lib.Pages
import Nutsh.Scheduler.Unchanged

set_option relaxedAutoImplicit false
set_option autoImplicit false

namespace Nutsh.Polls

namespace Poller

variable (instantOf : String → Option ℤ) (sub : Polled)

/-- A walk answered page by page, for at most a number of pages: the pages it was handed, and the task
after them. -/
def answerWalk (server : ℕ → List Entity) (total : Option ℕ) : ℕ → Poller → List (List Entity) × Poller
  | 0, s => ([], s)
  | n + 1, s =>
      match s.point with
      | .walking _ w =>
          match s.step instantOf sub (.page (server w.page) total) with
          | some t =>
              let (rest, u) := answerWalk server total n t
              (server w.page :: rest, u)
          | none => ([], s)
      | _ => ([], s)

/-- The rows of a page at most. -/
def rowsOfPage : ℕ := min (max sub.pageSize 1) PAGE_LIMIT

/-- The rows the pages of one walk hold at most: those of the pages the budget takes, and of the pages one
cycle walks. -/
def walkCap : ℕ :=
  match sub.maxRows with
  | none => MAX_PAGES * rowsOfPage sub
  | some budget => min ((budget + (rowsOfPage sub - 1)) / rowsOfPage sub * rowsOfPage sub) (MAX_PAGES * rowsOfPage sub)

end Poller

/-! ### When a walk goes on -/

variable {instantOf : String → Option ℤ} {sub : Polled} {rows : List Entity} {s : Poller} {a : Attempt} {w : Paging}

namespace Paging

theorem fetched_see (field : String) (w : Paging) (e : Entity) :
    (w.see instantOf field e).fetched = w.fetched ∧ (w.see instantOf field e).page = w.page := by
  rw [see]
  split
  · exact ⟨rfl, rfl⟩
  · split <;> exact ⟨rfl, rfl⟩

theorem fetched_read (w : Paging) (entities : List Entity) :
    (w.read instantOf entities).fetched = w.fetched + entities.length ∧
      (w.read instantOf entities).page = w.page := by
  have hfold : ∀ (field : String) (es : List Entity) (w : Paging),
      (es.foldl (see instantOf field) w).fetched = w.fetched ∧ (es.foldl (see instantOf field) w).page = w.page := by
    intro field es
    induction es with
    | nil => exact fun _ => ⟨rfl, rfl⟩
    | cons e es ih =>
        intro w
        obtain ⟨hfetched, hpage⟩ := ih (w.see instantOf field e)
        obtain ⟨hfetched', hpage'⟩ := @fetched_see instantOf field w e
        exact ⟨hfetched.trans hfetched', hpage.trans hpage'⟩
  rw [read.eq_def]
  simp only
  split
  · exact hfold _ _ _
  · exact ⟨rfl, rfl⟩

end Paging

theorem rowsOfPage_pos (sub : Polled) : 0 < Poller.rowsOfPage sub := by
  have h : 0 < PAGE_LIMIT := by decide
  rw [Poller.rowsOfPage]
  omega

/-- A page before the budget is one of those the budget takes. -/
theorem lt_ceil_iff {l b p : ℕ} (hl : 0 < l) : p < (b + (l - 1)) / l ↔ p * l < b := by
  rw [Nat.lt_iff_add_one_le, Nat.le_div_iff_mul_le hl, Nat.succ_mul]
  omega

/-- The pages a walk may ask for. -/
def Allowed (sub : Polled) (p : ℕ) : Prop := p < MAX_PAGES ∧ ∀ b ∈ sub.maxRows, p * Poller.rowsOfPage sub < b

/-- The pages allowed lie below the cap. -/
theorem le_walkCap {p : ℕ} (h : Allowed sub p) : (p + 1) * Poller.rowsOfPage sub ≤ Poller.walkCap sub := by
  have hl := rowsOfPage_pos sub
  have hmax : (p + 1) * Poller.rowsOfPage sub ≤ MAX_PAGES * Poller.rowsOfPage sub := Nat.mul_le_mul_right _ h.1
  rw [Poller.walkCap]
  cases hb : sub.maxRows with
  | none => exact hmax
  | some b =>
      have hceil : p < (b + (Poller.rowsOfPage sub - 1)) / Poller.rowsOfPage sub := (lt_ceil_iff hl).2 (h.2 b hb)
      exact le_min (Nat.mul_le_mul_right _ hceil) hmax

/-- The page behind the last one allowed begins at the cap. -/
theorem walkCap_eq {p : ℕ} (h : Allowed sub p) (hnot : ¬ Allowed sub (p + 1)) :
    Poller.walkCap sub = (p + 1) * Poller.rowsOfPage sub := by
  have hl := rowsOfPage_pos sub
  refine le_antisymm ?_ (le_walkCap h)
  rw [Poller.walkCap]
  cases hb : sub.maxRows with
  | none =>
      have hmax : MAX_PAGES ≤ p + 1 := by
        by_contra hlt
        exact hnot ⟨not_le.1 hlt, fun b hb' => by rw [hb] at hb'; cases hb'⟩
      exact Nat.mul_le_mul_right _ hmax
  | some b =>
      by_cases hmax : p + 1 < MAX_PAGES
      · have hbudget : ¬ (p + 1) * Poller.rowsOfPage sub < b := by
          intro hlt
          refine hnot ⟨hmax, fun b' hb' => ?_⟩
          rw [hb, Option.mem_some_iff] at hb'
          exact hb' ▸ hlt
        rw [← lt_ceil_iff hl] at hbudget
        exact (min_le_left _ _).trans (Nat.mul_le_mul_right _ (not_lt.1 hbudget))
      · exact (min_le_right _ _).trans (Nat.mul_le_mul_right _ (not_lt.1 hmax))

/-- After a page a walk goes on exactly when the page was full, rows may follow it, and the next one is
allowed. -/
theorem more_iff (hpages : sub.key.kind.page = true) {total : Option ℕ}
    (htotal : total = none ∨ total = some rows.length) {p : ℕ} (hpage : w.page = p)
    (hfetched : w.fetched = p * Poller.rowsOfPage sub) (hfull : p * Poller.rowsOfPage sub ≤ rows.length)  :
    ((w.read instantOf (Pages.page (Poller.rowsOfPage sub) p rows)).more sub
        (Pages.page (Poller.rowsOfPage sub) p rows) total = true ↔
      (p + 1) * Poller.rowsOfPage sub ≤ rows.length ∧ Allowed sub (p + 1) ∧
        (total.isSome = true → (p + 1) * Poller.rowsOfPage sub < rows.length)) := by
  have hl := rowsOfPage_pos sub
  obtain ⟨hread, hreadPage⟩ := @Paging.fetched_read instantOf w (Pages.page (Poller.rowsOfPage sub) p rows)
  have hcount := Pages.length_page (Poller.rowsOfPage sub) p rows
  have hsucc : (p + 1) * Poller.rowsOfPage sub = p * Poller.rowsOfPage sub + Poller.rowsOfPage sub :=
    Nat.succ_mul _ _
  rw [Paging.more, morePages.eq_def, hread, hreadPage, hpage, hfetched, hpages, hcount]
  simp only [Bool.true_and, Bool.and_eq_true, decide_eq_true_eq, Allowed, hsucc]
  constructor
  · rintro ⟨⟨⟨hpos, hmax⟩, hbudget⟩, hmore⟩
    -- a page after which there is more is full
    have hwhole : p * Poller.rowsOfPage sub + Poller.rowsOfPage sub ≤ rows.length := by
      obtain rfl | rfl := htotal
      · have heq : min (Poller.rowsOfPage sub) (rows.length - p * Poller.rowsOfPage sub) = Poller.rowsOfPage sub := by
          simpa [Poller.rowsOfPage] using hmore
        omega
      · have hlt : p * Poller.rowsOfPage sub +
            min (Poller.rowsOfPage sub) (rows.length - p * Poller.rowsOfPage sub) < rows.length := by simpa using hmore
        omega
    have hmin : min (Poller.rowsOfPage sub) (rows.length - p * Poller.rowsOfPage sub) = Poller.rowsOfPage sub := by
      omega
    refine ⟨hwhole, ⟨hmax, fun b hb => ?_⟩, fun hsome => ?_⟩
    · rw [hb, Option.all_some, decide_eq_true_eq, hmin] at hbudget
      exact hbudget
    · obtain rfl | rfl := htotal
      · cases hsome
      · rw [hmin] at hmore
        simpa using hmore
  · rintro ⟨hwhole, ⟨hmax, hbudget⟩, hmore⟩
    have hmin : min (Poller.rowsOfPage sub) (rows.length - p * Poller.rowsOfPage sub) = Poller.rowsOfPage sub := by
      omega
    rw [hmin]
    refine ⟨⟨⟨hl, hmax⟩, ?_⟩, ?_⟩
    · cases hb : sub.maxRows with
      | none => rfl
      | some b =>
          rw [Option.all_some, decide_eq_true_eq]
          exact hbudget b hb
    · obtain rfl | rfl := htotal
      · simp [Poller.rowsOfPage]
      · simpa using hmore rfl

/-! ### The walk -/

/-- A walk from a page on delivers the rows up to the cap, and ends. -/
theorem answerWalk_from (hpages : sub.key.kind.page = true) {total : Option ℕ}
    (htotal : total = none ∨ total = some rows.length) (n : ℕ) {p : ℕ} (hn : MAX_PAGES ≤ p + n)
    (hpoint : s.point = .walking a w) (hstop : s.stop = false) (hpage : w.page = p)
    (hfetched : w.fetched = p * Poller.rowsOfPage sub) (hfull : p * Poller.rowsOfPage sub ≤ rows.length)
    (hallowed : Allowed sub p) :
    rows.take (p * Poller.rowsOfPage sub) ++
        (s.answerWalk instantOf sub (fun q => Pages.page (Poller.rowsOfPage sub) q rows) total n).1.flatten =
      rows.take (Poller.walkCap sub) ∧
    (s.answerWalk instantOf sub (fun q => Pages.page (Poller.rowsOfPage sub) q rows) total n).2.point.isWalking =
      false := by
  induction n generalizing s w p with
  | zero =>
      have hlt := hallowed.1
      omega
  | succ n ih =>
      let entities := Pages.page (Poller.rowsOfPage sub) p rows
      have hmore := @more_iff instantOf sub rows w hpages total htotal p hpage hfetched hfull
      have htake := Pages.take_succ_mul (Poller.rowsOfPage sub) p rows
      obtain ⟨hread, hreadPage⟩ := @Paging.fetched_read instantOf w entities
      simp only [Poller.answerWalk, hpoint, hpage]
      cases hm : (w.read instantOf entities).more sub entities total with
      | true =>
          -- the walk goes on at the next page
          obtain ⟨hwhole, hnext, -⟩ := hmore.1 hm
          have hstep : s.step instantOf sub (.page entities total) =
              some (s.ask (.walking a
                { w.read instantOf entities with page := (w.read instantOf entities).page + 1 })) := by
            simp only [Poller.step, Poller.paged, hpoint, hm, hstop, Bool.not_false, Bool.and_self, if_true]
          have hlen : entities.length = Poller.rowsOfPage sub := by
            rw [Pages.length_page]
            rw [Nat.succ_mul] at hwhole
            omega
          obtain ⟨hrest, hends⟩ := @ih (s.ask (.walking a
            { w.read instantOf entities with page := (w.read instantOf entities).page + 1 }))
            { w.read instantOf entities with page := (w.read instantOf entities).page + 1 } (p + 1)
            (by omega) rfl hstop (by rw [hreadPage, hpage])
            (by rw [hread, hfetched, hlen, Nat.succ_mul]) hwhole hnext
          rw [hstep]
          refine ⟨?_, hends⟩
          rw [List.flatten_cons, ← List.append_assoc, ← htake]
          exact hrest
      | false =>
          have hnot : ¬ ((p + 1) * Poller.rowsOfPage sub ≤ rows.length ∧ Allowed sub (p + 1) ∧
              (total.isSome = true → (p + 1) * Poller.rowsOfPage sub < rows.length)) := by
            rw [← hmore]
            exact ne_true_of_eq_false hm
          have hstep : s.step instantOf sub (.page entities total) =
              some (s.walked instantOf sub a (w.read instantOf entities) true) := by
            simp only [Poller.step, Poller.paged, hpoint, hm, Bool.false_and, Bool.false_eq_true, if_false,
              Bool.not_false]
          have hends : (s.walked instantOf sub a (w.read instantOf entities) true).point.isWalking = false := by
            rw [Poller.walked]
            split
            · exact quiet_isWalking (quiet_ended _ none)
            · rfl
            · exact quiet_isWalking (quiet_ended _ none)
          have hdone : ∀ m u, u = s.walked instantOf sub a (w.read instantOf entities) true →
              Poller.answerWalk instantOf sub (fun q => Pages.page (Poller.rowsOfPage sub) q rows) total m u =
                ([], u) := by
            intro m u hu
            cases m with
            | zero => rfl
            | succ m =>
                rw [Poller.answerWalk]
                split
                · next a' w' hwalking =>
                    rw [← hu, hwalking] at hends
                    cases hends
                · rfl
          rw [hstep]
          simp only [hdone n _ rfl]
          refine ⟨?_, hends⟩
          rw [List.flatten_cons, List.flatten_nil, List.append_nil, ← htake]
          -- all rows are delivered, or the page ends at the cap
          have hcap := le_walkCap hallowed
          by_cases hwhole : (p + 1) * Poller.rowsOfPage sub ≤ rows.length ∧ Allowed sub (p + 1)
          · have hlast : rows.length ≤ (p + 1) * Poller.rowsOfPage sub := by
              by_contra hlt
              exact hnot ⟨hwhole.1, hwhole.2, fun _ => not_le.1 hlt⟩
            rw [List.take_of_length_le hlast, List.take_of_length_le (hlast.trans hcap)]
          · by_cases hle : (p + 1) * Poller.rowsOfPage sub ≤ rows.length
            · rw [walkCap_eq hallowed fun hnext => hwhole ⟨hle, hnext⟩]
            · have hlast := (not_le.1 hle).le
              rw [List.take_of_length_le hlast, List.take_of_length_le (hlast.trans hcap)]

/-- **What a walk delivers**: of a list that pages, from its first page on and not stopped, the first rows
up to the cap, each once and in order, and after at most the pages of one cycle it has ended. -/
theorem answerWalk_eq_take (hpages : sub.key.kind.page = true) (hbudget : ∀ b ∈ sub.maxRows, 1 ≤ b)
    (reports : Bool) {purpose : Purpose} (hpoint : s.point = .walking a { purpose }) (hstop : s.stop = false) :
    (s.answerWalk instantOf sub (fun q => Pages.page (Poller.rowsOfPage sub) q rows)
        (if reports then some rows.length else none) MAX_PAGES).1.flatten = rows.take (Poller.walkCap sub) ∧
      (s.answerWalk instantOf sub (fun q => Pages.page (Poller.rowsOfPage sub) q rows)
        (if reports then some rows.length else none) MAX_PAGES).2.point.isWalking = false := by
  have htotal : (if reports then some rows.length else none) = none ∨
      (if reports then some rows.length else none) = some rows.length := by
    cases reports with
    | true => exact .inr rfl
    | false => exact .inl rfl
  have hallowed : Allowed sub 0 := by
    refine ⟨by decide, fun b hb => ?_⟩
    rw [Nat.zero_mul]
    exact hbudget b hb
  have hwalk := @answerWalk_from instantOf sub rows s a { purpose } hpages _ htotal MAX_PAGES 0
    (Nat.zero_add _).ge hpoint hstop rfl (Nat.zero_mul _).symm (by rw [Nat.zero_mul]; exact Nat.zero_le _) hallowed
  rw [Nat.zero_mul, List.take_zero, List.nil_append] at hwalk
  exact hwalk

/-- Three rows at one a page, two of them within the budget. -/
theorem answerWalk_eq_take_two :
    let sub : Polled := { Poller.tasksSub with maxRows := some 2 }
    let rows := [Poller.stampedRow "a" "", Poller.stampedRow "b" "", Poller.stampedRow "c" ""]
    let s : Poller := { interval := 30, point := .walking ⟨false, false⟩ { purpose := .plain } }
    (s.answerWalk Poller.instantOfDay sub (fun q => Pages.page (Poller.rowsOfPage sub) q rows)
        (if false then some rows.length else none) MAX_PAGES).1.flatten = rows.take (Poller.walkCap sub) ∧
      (s.answerWalk Poller.instantOfDay sub (fun q => Pages.page (Poller.rowsOfPage sub) q rows)
        (if false then some rows.length else none) MAX_PAGES).2.point.isWalking = false :=
  answerWalk_eq_take rfl (by decide) false rfl rfl

end Nutsh.Polls
