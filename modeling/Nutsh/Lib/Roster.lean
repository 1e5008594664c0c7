/-
A roster of running tasks and of who holds them.

Tasks are started at a site under numbers that are never given twice.  The number of a task is held
by an owner, who ends the task when it lets go of the number; a task that is lent is held by nobody
and ends by itself.  A site that leaves takes its tasks with it, and an owner that stands on a site
must not come to hold a dead number when the site joins again.  An owner can also forget the number
it holds, and then the task runs on for nobody.

Main definitions:

* `Roster` — the tasks that run, the numbers that are held, and the sites;
* `Roster.Move`, `Roster.move` — what can happen to it;
* `Roster.Fitting` — numbers are not given twice, and an owner holds what it may hold;
* `Roster.Sound` — moreover every number is held at most once, every task that is not lent is held,
  and what stands on a joined site runs;
* `Roster.Every`, `Roster.Move.Starts` — what every running task is, and the moves that keep it;
* `Roster.Move.Orderly`, `Roster.Reaches` — the moves that forget nothing, and rosters they lead to.

Main results:

* `Roster.Fitting.move`, `Roster.Sound.move` — the moves that keep them;
* `Roster.Sound.exists_unique` — in a sound roster a running task has exactly one owner;
* `Roster.Sound.reaches`, `Roster.Every.reaches` — the rules for any number of orderly moves.
-/
import Mathlib.Data.Set.Basic

set_option relaxedAutoImplicit false
set_option autoImplicit false

/-- The tasks that run, by site and number; the numbers that are held; those whose owner stands on a
site, with the site; the joined sites; and the numbers that were not given yet. -/
@[ext] structure Roster (γ κ ω : Type*) where
  running : Set (γ × ℕ × κ)
  held : Set (ω × ℕ)
  needed : Set (ω × γ × ℕ)
  joined : Set γ
  next : ℕ

namespace Roster

variable {γ κ ω : Type*}

/-- What holds of tasks and owners: which tasks are lent, which tasks of which sites an owner may hold,
and which owners stand on a site. -/
structure Rules (γ κ ω : Type*) where
  lent : κ → Prop
  fits : ω → γ → κ → Prop
  stands : ω → Prop

inductive Move (γ κ ω : Type*) where
  /-- A task started for an owner, who may stand on its site. -/
  | acquire (o : ω) (stands : Bool) (c : γ) (k : κ)
  | lend (c : γ) (k : κ)
  /-- A number given to no task. -/
  | skip
  /-- Some owners end what they hold. -/
  | release (owners : Set ω)
  /-- A task that was lent is over. -/
  | reap (id : ℕ)
  | join (c : γ)
  /-- A site is gone, and some owners let go of what they held there. -/
  | leave (c : γ) (owners : Set ω)
  /-- An owner forgets what it holds. -/
  | abandon (o : ω)
  /-- Every running task is changed. -/
  | revise (f : ℕ → κ → κ)
  /-- Everything is ended; one site is left. -/
  | reset (c : γ)

section

variable (r : Rules γ κ ω)

def move (l : Roster γ κ ω) : Move γ κ ω → Roster γ κ ω
  | .acquire o stands c k =>
      { l with
        running := {t | t ∈ l.running ∨ t = (c, l.next, k)}
        held := {h | h ∈ l.held ∨ h = (o, l.next)}
        needed := {n | n ∈ l.needed ∨ stands = true ∧ n = (o, c, l.next)}
        next := l.next + 1 }
  | .lend c k =>
      { l with running := {t | t ∈ l.running ∨ t = (c, l.next, k)}, next := l.next + 1 }
  | .skip => { l with next := l.next + 1 }
  | .release owners =>
      { l with
        running := {t | t ∈ l.running ∧ ∀ o ∈ owners, (o, t.2.1) ∉ l.held}
        held := {h | h ∈ l.held ∧ h.1 ∉ owners}
        needed := {n | n ∈ l.needed ∧ n.1 ∉ owners} }
  | .reap id => { l with running := {t | t ∈ l.running ∧ (r.lent t.2.2 → t.2.1 ≠ id)} }
  | .join c => { l with joined := {d | d ∈ l.joined ∨ d = c} }
  | .leave c owners =>
      { l with
        running := {t | t ∈ l.running ∧ t.1 ≠ c}
        held := {h | h ∈ l.held ∧ h.1 ∉ owners}
        joined := {d | d ∈ l.joined ∧ d ≠ c} }
  | .abandon o => { l with held := {h | h ∈ l.held ∧ h.1 ≠ o} }
  | .revise f => { l with running := {t | ∃ k, (t.1, t.2.1, k) ∈ l.running ∧ t.2.2 = f t.2.1 k} }
  | .reset c => { running := ∅, held := ∅, needed := ∅, joined := {d | d = c}, next := l.next }

/-- A number that was not given yet is nobody's, and an owner holds what it may hold. -/
structure Fitting (l : Roster γ κ ω) : Prop where
  running_lt : ∀ c id k, (c, id, k) ∈ l.running → id < l.next
  held_lt : ∀ o id, (o, id) ∈ l.held → id < l.next
  fit : ∀ o c id k, (o, id) ∈ l.held → (c, id, k) ∈ l.running → r.fits o c k

/-- No number is held twice, a task that is not lent is held, and what stands on a joined site
runs. -/
structure Sound (l : Roster γ κ ω) : Prop extends Fitting r l where
  owned : ∀ c id k, (c, id, k) ∈ l.running → ¬ r.lent k → ∃ o, (o, id) ∈ l.held
  unique : ∀ o o' id, (o, id) ∈ l.held → (o', id) ∈ l.held → o = o'
  standing : ∀ o c id, (o, c, id) ∈ l.needed → r.stands o ∧ (o, id) ∈ l.held
  served : ∀ o c id, (o, c, id) ∈ l.needed → c ∈ l.joined →
    ∃ k, (c, id, k) ∈ l.running ∧ ¬ r.lent k

/-- What every running task is. -/
def Every (P : γ → κ → Prop) (l : Roster γ κ ω) : Prop := ∀ c id k, (c, id, k) ∈ l.running → P c k

/-- The moves that give an owner what it may hold. -/
def Fits : Move γ κ ω → Prop
  | .acquire o _ c k => r.fits o c k
  | .revise f => ∀ o c id k, r.fits o c k → r.fits o c (f id k)
  | _ => True

/-- The moves that keep a roster sound. -/
def Safe (l : Roster γ κ ω) : Move γ κ ω → Prop
  | .acquire o stands c k => ¬ r.lent k ∧ r.fits o c k ∧ (stands = true → r.stands o)
  | .lend _ k => r.lent k
  | .join c => ∀ o id, (o, c, id) ∉ l.needed
  | .leave c owners => ∀ o ∈ owners, ¬ r.stands o ∧ ∀ d k, r.fits o d k → d = c
  | .abandon o =>
      ¬ r.stands o ∧ ∀ c id k, (o, id) ∈ l.held → (c, id, k) ∈ l.running → r.lent k
  | .revise f =>
      (∀ id k, r.lent (f id k) ↔ r.lent k) ∧ ∀ o c id k, r.fits o c k → r.fits o c (f id k)
  | _ => True

end

variable {r : Rules γ κ ω} {l l' : Roster γ κ ω}

theorem Safe.fits {m : Move γ κ ω} (h : Safe r l m) : Fits r m := by
  cases m with
  | acquire o stands c k => exact h.2.1
  | revise f => exact h.2
  | _ => exact trivial

/-- Numbers are not given twice, and what an owner is given it may hold. -/
theorem Fitting.move (h : Fitting r l) {m : Move γ κ ω} (hm : Fits r m) : Fitting r (l.move r m) := by
  cases m with
  | acquire o stands c k =>
      refine ⟨?_, ?_, ?_⟩
      · rintro c' id k' (ht | ht)
        · exact Nat.lt_succ_of_lt (h.running_lt c' id k' ht)
        · cases ht
          exact Nat.lt_succ_self _
      · rintro o' id (ho | ho)
        · exact Nat.lt_succ_of_lt (h.held_lt o' id ho)
        · cases ho
          exact Nat.lt_succ_self _
      · -- the new number is neither held nor running before
        rintro o' c' id k' (ho | ho) (ht | ht)
        · exact h.fit o' c' id k' ho ht
        · cases ht
          exact absurd (h.held_lt o' _ ho) (lt_irrefl _)
        · cases ho
          exact absurd (h.running_lt c' _ k' ht) (lt_irrefl _)
        · cases ho
          cases ht
          exact hm
  | lend c k =>
      refine ⟨?_, fun o id ho => Nat.lt_succ_of_lt (h.held_lt o id ho), ?_⟩
      · rintro c' id k' (ht | ht)
        · exact Nat.lt_succ_of_lt (h.running_lt c' id k' ht)
        · cases ht
          exact Nat.lt_succ_self _
      · rintro o c' id k' ho (ht | ht)
        · exact h.fit o c' id k' ho ht
        · cases ht
          exact absurd (h.held_lt o _ ho) (lt_irrefl _)
  | skip =>
      exact ⟨fun c id k ht => Nat.lt_succ_of_lt (h.running_lt c id k ht),
        fun o id ho => Nat.lt_succ_of_lt (h.held_lt o id ho), h.fit⟩
  | release owners =>
      exact ⟨fun c id k ht => h.running_lt c id k ht.1, fun o id ho => h.held_lt o id ho.1,
        fun o c id k ho ht => h.fit o c id k ho.1 ht.1⟩
  | reap i =>
      exact ⟨fun c id k ht => h.running_lt c id k ht.1, h.held_lt,
        fun o c id k ho ht => h.fit o c id k ho ht.1⟩
  | join c => exact ⟨h.running_lt, h.held_lt, h.fit⟩
  | leave c owners =>
      exact ⟨fun d id k ht => h.running_lt d id k ht.1, fun o id ho => h.held_lt o id ho.1,
        fun o d id k ho ht => h.fit o d id k ho.1 ht.1⟩
  | abandon o =>
      exact ⟨h.running_lt, fun o' id ho => h.held_lt o' id ho.1,
        fun o' c id k ho ht => h.fit o' c id k ho.1 ht⟩
  | revise f =>
      refine ⟨?_, h.held_lt, ?_⟩
      · rintro c id k ⟨k', ht, -⟩
        exact h.running_lt c id k' ht
      · rintro o c id k ho ⟨k', ht, hk : k = f id k'⟩
        exact hk ▸ hm o c id k' (h.fit o c id k' ho ht)
  | reset c => exact ⟨fun _ _ _ ht => ht.elim, fun _ _ ho => ho.elim, fun _ _ _ _ ho => ho.elim⟩

namespace Sound

theorem acquire (h : Sound r l) {o : ω} {stands : Bool} {c : γ} {k : κ}
    (hm : Safe r l (.acquire o stands c k)) : Sound r (l.move r (.acquire o stands c k)) := by
  refine { h.toFitting.move hm.fits with owned := ?_, unique := ?_, standing := ?_, served := ?_ }
  · rintro c' id k' (ht | ht) hlent
    · obtain ⟨o', ho'⟩ := h.owned c' id k' ht hlent
      exact ⟨o', Or.inl ho'⟩
    · cases ht
      exact ⟨o, Or.inr rfl⟩
  · rintro o₁ o₂ id (h₁ | h₁) (h₂ | h₂)
    · exact h.unique o₁ o₂ id h₁ h₂
    · cases h₂
      exact absurd (h.held_lt o₁ _ h₁) (lt_irrefl _)
    · cases h₁
      exact absurd (h.held_lt o₂ _ h₂) (lt_irrefl _)
    · cases h₁
      cases h₂
      rfl
  · rintro o' c' id (hn | ⟨hs, hn⟩)
    · exact ⟨(h.standing o' c' id hn).1, Or.inl (h.standing o' c' id hn).2⟩
    · cases hn
      exact ⟨hm.2.2 hs, Or.inr rfl⟩
  · rintro o' c' id (hn | ⟨-, hn⟩) hc
    · obtain ⟨k', ht, hk'⟩ := h.served o' c' id hn hc
      exact ⟨k', Or.inl ht, hk'⟩
    · cases hn
      exact ⟨k, Or.inr rfl, hm.1⟩

theorem lend (h : Sound r l) {c : γ} {k : κ} (hk : r.lent k) : Sound r (l.move r (.lend c k)) := by
  refine { h.toFitting.move (m := .lend c k) trivial with
    owned := ?_, unique := h.unique, standing := h.standing, served := ?_ }
  · rintro c' id k' (ht | ht) hlent
    · exact h.owned c' id k' ht hlent
    · cases ht
      exact absurd hk hlent
  · intro o c' id hn hc
    obtain ⟨k', ht, hk'⟩ := h.served o c' id hn hc
    exact ⟨k', Or.inl ht, hk'⟩

theorem release (h : Sound r l) (owners : Set ω) : Sound r (l.move r (.release owners)) := by
  refine { h.toFitting.move (m := .release owners) trivial with
    owned := ?_, unique := fun o o' id ho ho' => h.unique o o' id ho.1 ho'.1, standing := ?_,
    served := ?_ }
  · rintro c id k ⟨ht, hends⟩ hlent
    obtain ⟨o, ho⟩ := h.owned c id k ht hlent
    exact ⟨o, ho, fun hmem => hends o hmem ho⟩
  · rintro o c id ⟨hn, hmem⟩
    exact ⟨(h.standing o c id hn).1, (h.standing o c id hn).2, hmem⟩
  · -- the number of an owner that stays is held by none of those that go
    rintro o c id ⟨hn, hmem⟩ hc
    obtain ⟨k, ht, hk⟩ := h.served o c id hn hc
    refine ⟨k, ⟨ht, fun o' ho' hheld => hmem ?_⟩, hk⟩
    rw [h.unique o o' id (h.standing o c id hn).2 hheld]
    exact ho'

theorem reap (h : Sound r l) (id : ℕ) : Sound r (l.move r (.reap id)) := by
  refine { h.toFitting.move (m := .reap id) trivial with
    owned := fun c i k ht hk => h.owned c i k ht.1 hk, unique := h.unique, standing := h.standing,
    served := ?_ }
  intro o c i hn hc
  obtain ⟨k, ht, hk⟩ := h.served o c i hn hc
  exact ⟨k, ⟨ht, fun hlent => absurd hlent hk⟩, hk⟩

theorem leave (h : Sound r l) {c : γ} {owners : Set ω} (hm : Safe r l (.leave c owners)) :
    Sound r (l.move r (.leave c owners)) := by
  refine { h.toFitting.move hm.fits with
    owned := ?_, unique := fun o o' id ho ho' => h.unique o o' id ho.1 ho'.1, standing := ?_,
    served := ?_ }
  · -- an owner that lets go held only tasks of the site that is gone
    rintro d id k ⟨ht, hd⟩ hlent
    obtain ⟨o, ho⟩ := h.owned d id k ht hlent
    exact ⟨o, ho, fun hmem => hd ((hm o hmem).2 d k (h.fit o d id k ho ht))⟩
  · intro o d id hn
    obtain ⟨hs, ho⟩ := h.standing o d id hn
    exact ⟨hs, ho, fun hmem => (hm o hmem).1 hs⟩
  · rintro o d id hn ⟨hd, hne⟩
    obtain ⟨k, ht, hk⟩ := h.served o d id hn hd
    exact ⟨k, ⟨ht, hne⟩, hk⟩

theorem abandon (h : Sound r l) {o : ω} (hm : Safe r l (.abandon o)) :
    Sound r (l.move r (.abandon o)) := by
  refine { h.toFitting.move hm.fits with
    owned := ?_, unique := fun o₁ o₂ id h₁ h₂ => h.unique o₁ o₂ id h₁.1 h₂.1, standing := ?_,
    served := h.served }
  · intro c id k ht hlent
    obtain ⟨o', ho'⟩ := h.owned c id k ht hlent
    refine ⟨o', ho', ?_⟩
    rintro rfl
    exact hlent (hm.2 c id k ho' ht)
  · intro o' c id hn
    obtain ⟨hs, ho'⟩ := h.standing o' c id hn
    refine ⟨hs, ho', ?_⟩
    rintro rfl
    exact hm.1 hs

theorem revise (h : Sound r l) {f : ℕ → κ → κ} (hm : Safe r l (.revise f)) :
    Sound r (l.move r (.revise f)) := by
  refine { h.toFitting.move hm.fits with
    owned := ?_, unique := h.unique, standing := h.standing, served := ?_ }
  · rintro c id k ⟨k', ht, hk : k = f id k'⟩ hlent
    exact h.owned c id k' ht fun hk' => hlent (hk ▸ (hm.1 id k').2 hk')
  · intro o c id hn hc
    obtain ⟨k, ht, hk⟩ := h.served o c id hn hc
    exact ⟨f id k, ⟨k, ht, rfl⟩, fun hlent => hk ((hm.1 id k).1 hlent)⟩

/-- The safe moves keep a roster sound. -/
theorem move (h : Sound r l) {m : Move γ κ ω} (hm : Safe r l m) : Sound r (l.move r m) := by
  cases m with
  | acquire o stands c k => exact h.acquire hm
  | lend c k => exact h.lend hm
  | skip => exact { h.toFitting.move hm.fits with
      owned := h.owned, unique := h.unique, standing := h.standing, served := h.served }
  | release owners => exact h.release owners
  | reap id => exact h.reap id
  | join c =>
      refine { h with served := ?_ }
      rintro o d id hn (hd | rfl)
      · exact h.served o d id hn hd
      · exact absurd hn (hm o id)
  | leave c owners => exact h.leave hm
  | abandon o => exact h.abandon hm
  | revise f => exact h.revise hm
  | reset c => exact { h.toFitting.move hm.fits with
      owned := fun _ _ _ ht => ht.elim, unique := fun _ _ _ ho => ho.elim,
      standing := fun _ _ _ hn => hn.elim, served := fun _ _ _ hn => hn.elim }

/-- A running task that is not lent has exactly one owner. -/
theorem exists_unique (h : Sound r l) {c : γ} {id : ℕ} {k : κ} (ht : (c, id, k) ∈ l.running)
    (hk : ¬ r.lent k) : ∃! o, (o, id) ∈ l.held := by
  obtain ⟨o, ho⟩ := h.owned c id k ht hk
  exact ⟨o, ho, fun o' ho' => h.unique o' o id ho' ho⟩

end Sound

/-! ### Orderly moves -/

/-- The moves that forget nothing and start only tasks of a kind. -/
def Move.Orderly (r : Rules γ κ ω) (start : γ → κ → Prop) : Move γ κ ω → Prop
  | .acquire o stands c k =>
      ¬ r.lent k ∧ r.fits o c k ∧ (stands = true → r.stands o) ∧ start c k
  | .lend c k => r.lent k ∧ start c k
  | .join _ => False
  | .leave c owners => ∀ o ∈ owners, ¬ r.stands o ∧ ∀ d k, r.fits o d k → d = c
  | .abandon _ => False
  | .revise _ => False
  | _ => True

theorem Move.Orderly.imp {start start' : γ → κ → Prop} (h : ∀ c k, start c k → start' c k)
    {m : Move γ κ ω} (hm : m.Orderly r start) : m.Orderly r start' := by
  cases m with
  | acquire o stands c k => exact ⟨hm.1, hm.2.1, hm.2.2.1, h c k hm.2.2.2⟩
  | lend c k => exact ⟨hm.1, h c k hm.2⟩
  | _ => exact hm

theorem Move.Orderly.safe {start : γ → κ → Prop} {m : Move γ κ ω} (hm : m.Orderly r start) :
    Safe r l m := by
  cases m with
  | acquire o stands c k => exact ⟨hm.1, hm.2.1, hm.2.2.1⟩
  | lend c k => exact hm.1
  | join c => exact hm.elim
  | abandon o => exact hm.elim
  | revise f => exact hm.elim
  | leave c owners => exact hm
  | _ => exact trivial

/-- The moves that start, and leave, only tasks of a kind. -/
def Move.Starts (P : γ → κ → Prop) : Move γ κ ω → Prop
  | .acquire _ _ c k => P c k
  | .lend c k => P c k
  | .revise f => ∀ c id k, P c k → P c (f id k)
  | _ => True

theorem Move.Orderly.starts {P : γ → κ → Prop} {m : Move γ κ ω} (hm : m.Orderly r P) :
    m.Starts P := by
  cases m with
  | acquire o stands c k => exact hm.2.2.2
  | lend c k => exact hm.2
  | revise f => exact hm.elim
  | _ => exact trivial

theorem Every.move {P : γ → κ → Prop} (h : Every P l) {m : Move γ κ ω} (hm : m.Starts P) :
    Every P (l.move r m) := by
  cases m with
  | acquire o stands c k =>
      rintro c' id k' (ht | ht)
      · exact h c' id k' ht
      · cases ht
        exact hm
  | lend c k =>
      rintro c' id k' (ht | ht)
      · exact h c' id k' ht
      · cases ht
        exact hm
  | release owners => exact fun c id k ht => h c id k ht.1
  | reap i => exact fun c id k ht => h c id k ht.1
  | leave d owners => exact fun c id k ht => h c id k ht.1
  | revise f =>
      rintro c id k ⟨k', ht, hk : k = f id k'⟩
      exact hk ▸ hm c id k' (h c id k' ht)
  | reset d => exact fun c id k ht => ht.elim
  | skip | join c | abandon o => exact h

/-- Moves that are safe wherever they are made. -/
theorem Sound.foldl (h : Sound r l) {ms : List (Move γ κ ω)}
    (hms : ∀ m ∈ ms, ∀ l : Roster γ κ ω, Safe r l m) : Sound r (ms.foldl (Roster.move r) l) := by
  induction ms generalizing l with
  | nil => exact h
  | cons m ms ih =>
      exact ih (h.move (hms m List.mem_cons_self l)) fun m' hm' => hms m' (List.mem_cons_of_mem m hm')

theorem Fitting.foldl (h : Fitting r l) {ms : List (Move γ κ ω)} (hms : ∀ m ∈ ms, Fits r m) :
    Fitting r (ms.foldl (Roster.move r) l) := by
  induction ms generalizing l with
  | nil => exact h
  | cons m ms ih =>
      exact ih (h.move (hms m List.mem_cons_self)) fun m' hm' => hms m' (List.mem_cons_of_mem m hm')

theorem Every.foldl {P : γ → κ → Prop} (h : Every P l) {ms : List (Move γ κ ω)}
    (hms : ∀ m ∈ ms, m.Starts P) : Every P (ms.foldl (Roster.move r) l) := by
  induction ms generalizing l with
  | nil => exact h
  | cons m ms ih =>
      exact ih (h.move (hms m List.mem_cons_self)) fun m' hm' => hms m' (List.mem_cons_of_mem m hm')

/-- A later roster: what runs there under a number that was given before ran before. -/
structure Later (l l' : Roster γ κ ω) : Prop where
  next : l.next ≤ l'.next
  running : ∀ c id k, (c, id, k) ∈ l'.running → id < l.next → ∃ k', (c, id, k') ∈ l.running

theorem Later.refl (l : Roster γ κ ω) : Later l l := ⟨le_rfl, fun _ _ k ht _ => ⟨k, ht⟩⟩

theorem Later.trans {l'' : Roster γ κ ω} (h : Later l l') (h' : Later l' l'') : Later l l'' where
  next := h.next.trans h'.next
  running := by
    intro c id k ht hid
    obtain ⟨k', ht'⟩ := h'.running c id k ht (hid.trans_le h.next)
    exact h.running c id k' ht' hid

theorem later_move (l : Roster γ κ ω) (m : Move γ κ ω) : Later l (l.move r m) := by
  cases m with
  | acquire o stands c k =>
      refine ⟨Nat.le_succ _, ?_⟩
      rintro c' id k' (ht | ht) hid
      · exact ⟨k', ht⟩
      · cases ht
        exact absurd hid (lt_irrefl _)
  | lend c k =>
      refine ⟨Nat.le_succ _, ?_⟩
      rintro c' id k' (ht | ht) hid
      · exact ⟨k', ht⟩
      · cases ht
        exact absurd hid (lt_irrefl _)
  | skip => exact ⟨Nat.le_succ _, fun _ _ k ht _ => ⟨k, ht⟩⟩
  | release owners => exact ⟨le_rfl, fun _ _ k ht _ => ⟨k, ht.1⟩⟩
  | reap i => exact ⟨le_rfl, fun _ _ k ht _ => ⟨k, ht.1⟩⟩
  | leave d owners => exact ⟨le_rfl, fun _ _ k ht _ => ⟨k, ht.1⟩⟩
  | revise f => exact ⟨le_rfl, fun _ _ _ ⟨k', ht, _⟩ _ => ⟨k', ht⟩⟩
  | reset d => exact ⟨le_rfl, fun _ _ _ ht => ht.elim⟩
  | join c | abandon o => exact ⟨le_rfl, fun _ _ k ht _ => ⟨k, ht⟩⟩

theorem later_foldl (l : Roster γ κ ω) (ms : List (Move γ κ ω)) :
    Later l (ms.foldl (Roster.move r) l) := by
  induction ms generalizing l with
  | nil => exact Later.refl l
  | cons m ms ih => exact (later_move l m).trans (ih (l.move r m))

/-- The rosters that orderly moves lead to. -/
inductive Reaches (r : Rules γ κ ω) (start : γ → κ → Prop) (l : Roster γ κ ω) :
    Roster γ κ ω → Prop
  | refl : Reaches r start l l
  | tail {l' : Roster γ κ ω} {m : Move γ κ ω} :
      Reaches r start l l' → m.Orderly r start → Reaches r start l (l'.move r m)

namespace Reaches

variable {start start' : γ → κ → Prop}

theorem single {m : Move γ κ ω} (hm : m.Orderly r start) : Reaches r start l (l.move r m) :=
  .tail .refl hm

theorem of_eq (h : l = l') : Reaches r start l l' := h ▸ .refl

theorem trans {l'' : Roster γ κ ω} (h : Reaches r start l l') (h' : Reaches r start l' l'') :
    Reaches r start l l'' := by
  induction h' with
  | refl => exact h
  | tail _ hm ih => exact .tail ih hm

theorem imp (hstart : ∀ c k, start c k → start' c k) (h : Reaches r start l l') :
    Reaches r start' l l' := by
  induction h with
  | refl => exact .refl
  | tail _ hm ih => exact .tail ih (hm.imp hstart)

end Reaches

theorem Fitting.reaches {start : γ → κ → Prop} (h : Fitting r l) (hr : Reaches r start l l') :
    Fitting r l' := by
  induction hr with
  | refl => exact h
  | @tail l' m _ hm ih => exact ih.move (hm.safe (l := l')).fits

theorem Reaches.later {start : γ → κ → Prop} (hr : Reaches r start l l') : Later l l' := by
  induction hr with
  | refl => exact Later.refl l
  | tail _ _ ih => exact ih.trans (later_move _ _)

/-- **Orderly moves keep a roster sound.** -/
theorem Sound.reaches {start : γ → κ → Prop} (h : Sound r l) (hr : Reaches r start l l') :
    Sound r l' := by
  induction hr with
  | refl => exact h
  | tail _ hm ih => exact ih.move hm.safe

/-- **What every task that is started is, every running task goes on being.** -/
theorem Every.reaches {P : γ → κ → Prop} (h : Every P l) (hr : Reaches r P l l') : Every P l' := by
  induction hr with
  | refl => exact h
  | tail _ hm ih => exact ih.move hm.starts

end Roster
