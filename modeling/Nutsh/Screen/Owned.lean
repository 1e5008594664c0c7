/-
Every poll has one owner.

What is polled and does not end by itself belongs to one view of the stack, to one pane of a page, to the
pane that the body shows or to the watch of one task; and a table view on a joined context polls.  Four
steps break that: a form cancelled over a pane and a connect that fails under one leave the pane behind, a
task watched anew forgets the watch it had, and a context joined again does not poll for the views that
stand on it.

* `Screen.Owns`, `Screen.Accounted` — who owns a poll, and polling accounted for;
* `Screen.leaks` — the steps that break it;
* `Screen.accounted_exec` — runs without them.
-/
import Nutsh.Screen.Modals

set_option relaxedAutoImplicit false
set_option autoImplicit false

namespace Nutsh

theorem Live.anyLive_iff {live : Live} {sub : ℕ} :
    live.anyLive sub = true ↔ ∃ c k, (c, sub, k) ∈ live.polls := by
  simp only [anyLive, schedulers, List.any_cons, List.any_map, Scheduler.isLive, Bool.or_eq_true,
    List.any_eq_true, Function.comp_apply, beq_iff_eq, mem_polls]
  constructor
  · rintro (⟨⟨id, k⟩, ht, rfl⟩ | ⟨p, hp, ⟨id, k⟩, ht, rfl⟩)
    · exact ⟨none, k, Or.inl ⟨rfl, ht⟩⟩
    · exact ⟨some p.name, k, Or.inr ⟨p, hp, rfl, ht⟩⟩
  · rintro ⟨c, k, ⟨-, ht⟩ | ⟨p, hp, -, ht⟩⟩
    · exact Or.inl ⟨_, ht, rfl⟩
    · exact Or.inr ⟨p, hp, _, ht, rfl⟩

namespace Screen

variable {env : Env} {evidence : Evidence} {s t : Screen} {e : Event}

/-- The subscription of the pane. -/
def paneSub (s : Screen) : Option ℕ := s.app.detail.bind Detail.sub

/-- Who owns a poll: the pane only while the body shows it. -/
def Owns (s : Screen) (live : Live) (o : Owner) (id : ℕ) : Prop :=
  live.Holds (if s.backgroundMode = .detail then s.paneSub else none) o id

/-- Polling is accounted for. -/
structure Accounted (s : Screen) : Prop where
  owned : ∀ live, s.app.live = some live → ∀ c id k, (c, id, k) ∈ live.polls → k.once = false →
    ∃! o, s.Owns live o id
  served : ∀ live, s.app.live = some live → ∀ view, View.table view ∈ live.stack →
    (live.schedulerFor view.key.context).isSome = true →
      ∃ k, (view.key.context, view.sub, k) ∈ live.polls ∧ k.once = false

/-- Whether the row of the pane is polled. -/
def paneRuns (s : Screen) : Bool := s.app.live.any fun live => s.paneSub.any live.anyLive

/-- A table view stands on a context. -/
def standsOn (live : Live) (name : String) : Bool :=
  live.stack.any fun
    | .table view => view.key.context == some name
    | .page _ => false

/-- The steps that leave a poll without an owner, or a view without its poll. -/
def leaks (s : Screen) : Event → Bool
  | .esc => s.mode == .fields && !s.picking && s.paneRuns
  | .connectFailed => s.paneRuns
  | .acted i (.started task) =>
      match s.sys.flying[i]?, s.app.live with
      | some f, some live =>
          (live.schedulerFor (App.siteOf live f.request.journal)).isSome &&
            (live.tasks.subOf task).any live.anyLive
      | _, _ => false
  | .joined session => s.app.live.any fun live => standsOn live session.name
  | _ => false

/-! ### The pane -/

theorem running_roster (s : Screen) {c : Option String} {id : ℕ} {k : Subscription} :
    (c, id, k) ∈ s.roster.running ↔ ∃ live, s.app.live = some live ∧ (c, id, k) ∈ live.polls := by
  unfold roster App.roster
  cases s.app.live with
  | none => simp
  | some live =>
      constructor
      · exact fun h => ⟨live, rfl, h⟩
      · rintro ⟨_, hlive, h⟩
        cases hlive
        exact h

theorem paneRuns_iff : s.paneRuns = true ↔ ∃ id, s.paneSub = some id ∧ ∃ c k, (c, id, k) ∈ s.roster.running := by
  simp only [paneRuns, Option.any_eq_true, Live.anyLive_iff, running_roster]
  constructor
  · rintro ⟨live, hlive, id, hid, c, k, h⟩
    exact ⟨id, hid, c, k, live, hlive, h⟩
  · rintro ⟨id, hid, c, k, live, hlive, h⟩
    exact ⟨live, hlive, id, hid, c, k, h⟩

theorem held_detail (s : Screen) (id : ℕ) : (Owner.detail, id) ∈ s.roster.held ↔ s.paneSub = some id := by
  unfold roster App.roster
  cases s.app.live with
  | none => exact and_iff_right rfl
  | some live => exact Iff.rfl

/-- A pane that is polled later with the same subscription was polled before. -/
theorem paneRuns_of_later (hs : Roster.Fitting rules s.roster) (hlater : Roster.Later s.roster t.roster)
    (hsame : t.paneSub = s.paneSub) (h : t.paneRuns = true) : s.paneRuns = true := by
  obtain ⟨id, hid, c, k, hk⟩ := paneRuns_iff.1 h
  rw [hsame] at hid
  obtain ⟨k', hk'⟩ := hlater.running c id k hk (hs.held_lt _ id ((held_detail s id).2 hid))
  exact paneRuns_iff.2 ⟨id, hid, c, k', hk'⟩

/-- What is polled has one owner, and a pane that is polled is shown. -/
structure Tended (env : Env) (s : Screen) : Prop where
  sound : Roster.Sound rules s.roster
  cataloged : s.app.Cataloged env.catalog
  ways : s.face.Ways
  pane : s.paneRuns = true → s.backgroundMode = .detail

/-- What is forgotten before a step was not polled. -/
theorem sound_abandon {l : Roster (Option String) Subscription Owner} (hl : Roster.Sound rules l)
    {o : Owner} (ho : ∀ h, o ≠ .view h) (hends : ∀ c id k, (o, id) ∈ l.held → (c, id, k) ∉ l.running) :
    Roster.Sound rules (l.move rules (.abandon o)) :=
  hl.abandon ⟨fun ⟨h, hview⟩ => ho h hview, fun c id k hheld hrun => absurd hrun (hends c id k hheld)⟩

theorem sound_abandon_detail (hs : Tended env s) (hmode : s.mode = .table) :
    Roster.Sound rules (s.roster.move rules (.abandon .detail)) := by
  refine sound_abandon hs.sound nofun fun c id k hheld hrun => ?_
  have hback := hs.pane (paneRuns_iff.2 ⟨id, (held_detail s id).1 hheld, c, k, hrun⟩)
  simp only [backgroundMode, hmode] at hback
  cases hback

/-- A task started is watched anew where its watch polls nothing any more. -/
theorem sound_abandon_watch (hs : Tended env s) {live : Live} (hlive : s.app.live = some live) {task : String}
    (hdead : (live.tasks.subOf task).any live.anyLive = false) :
    Roster.Sound rules (s.roster.move rules (.abandon (.watch task))) := by
  refine sound_abandon hs.sound nofun fun c id k hheld hrun => ?_
  rw [roster, App.roster_of_live hlive] at hheld hrun
  have hsub : live.tasks.subOf task = some id := hheld
  have hruns : live.anyLive id = true := Live.anyLive_iff.2 ⟨c, k, hrun⟩
  rw [hsub, Option.any_some, hruns] at hdead
  cases hdead

/-- A context joined that no view stands on. -/
theorem sound_joining (hs : Tended env s) {live : Live} (hlive : s.app.live = some live) {name : String}
    (hstands : standsOn live name = false) :
    Roster.Sound rules ((App.joining name).foldl (Roster.move rules) s.roster) := by
  have hleft : Roster.Sound rules (s.roster.move rules (Live.leaving name)) :=
    hs.sound.move (@Live.orderly_leaving [] name).safe
  refine hleft.move (m := .join (some name)) fun o id hneeded => ?_
  rw [roster, App.roster_of_live hlive] at hneeded
  obtain ⟨i, -, view, hview, hat⟩ := exists_of_onStack (P := fun h v => v.Stands h o (some name) id) hneeded
  cases view with
  | page page => exact hat.elim
  | table view =>
      have hany : standsOn live name = true := by
        unfold standsOn
        exact List.any_eq_true.2 ⟨_, hview, beq_iff_eq.2 hat.2.1⟩
      rw [hany] at hstands
      cases hstands

/-- What a step does first keeps what is polled owned. -/
theorem sound_prelude (hs : Tended env s) (hguard : s.leaks e = false)
    (h : s.step env evidence e = some t) :
    Roster.Sound rules ((s.prelude env e).foldl (Roster.move rules) s.roster) := by
  cases e with
  | openDetail served =>
      obtain ⟨s', hwithin, -⟩ := Option.map_eq_some_iff.1 h
      obtain ⟨sys, hsys, -⟩ := Option.map_eq_some_iff.1 hwithin
      simp only [System.step, Option.ite_none_right_eq_some] at hsys
      dsimp only [prelude]
      split
      · exact sound_abandon_detail hs (mode_of_app hsys.1)
      · exact hs.sound
  | openPicker served =>
      obtain ⟨s', hwithin, -⟩ := Option.map_eq_some_iff.1 h
      obtain ⟨sys, hsys, -⟩ := Option.map_eq_some_iff.1 hwithin
      simp only [System.step, Option.ite_none_right_eq_some] at hsys
      dsimp only [prelude]
      split
      · exact sound_abandon_detail hs (mode_of_app hsys.1)
      · exact hs.sound
  | acted i outcome =>
      dsimp only [prelude]
      cases hf : s.sys.flying[i]? with
      | none => exact hs.sound
      | some f =>
          cases outcome with
          | started task =>
              dsimp only [App.watching]
              split
              case isTrue hsite =>
                obtain ⟨live, hlive, hsite⟩ := (Option.any_eq_true _ _).1 hsite
                simp only [leaks, hf, hlive, hsite, Bool.true_and] at hguard
                exact sound_abandon_watch hs hlive hguard
              case isFalse => exact hs.sound
          | _ => exact hs.sound
  | joined session =>
      dsimp only [prelude]
      cases hlive : s.app.live with
      | none => exact hs.sound
      | some live =>
          simp only [leaks, hlive, Option.any_some] at hguard
          exact sound_joining hs hlive hguard
  | _ =>
      refine hs.sound.foldl fun m hm l => ?_
      rcases prelude_cases hm with ⟨hforgets, -⟩ | ⟨session, hjoined, -⟩ | ⟨f, rfl⟩
      · cases hforgets
      · cases hjoined
      · exact ⟨fun _ _ => Iff.rfl, fun _ _ _ _ hfits => hfits⟩

/-! ### The run -/

theorem paneRuns_of_no_detail (h : t.app.detail = none) : t.paneRuns = false := by
  unfold paneRuns paneSub
  rw [h]
  cases t.app.live <;> rfl

/-- What is polled keeps one owner through every step that leaks nothing. -/
theorem tended_step (hs : Tended env s) (hguard : s.leaks e = false)
    (h : s.step env evidence e = some t) : Tended env t := by
  have hreach := (does_step h).reach hs.cataloged
  -- what the pane polls after the step it polled before
  have hlater : Roster.Later s.roster t.roster :=
    (Roster.later_foldl s.roster (s.prelude env e)).trans hreach.later
  have hbefore : t.paneRuns = true → t.app.detail = s.app.detail → s.paneRuns = true := fun hruns hdetail =>
    paneRuns_of_later hs.sound.toFitting hlater (by rw [paneSub, paneSub, hdetail]) hruns
  refine ⟨(sound_prelude hs hguard h).reaches hreach, (does_step h).cataloged hs.cataloged,
    ways_step hs.ways h, fun hruns => ?_⟩
  rcases turns_step hs.ways h with hturns | ⟨rfl, hmode, hpicking, hface⟩ | ⟨rfl, m, -, hface⟩
  · rcases Face.pane_turns hs.ways hturns with hnone | hshown | ⟨hsame, hhidden⟩
    · rw [paneRuns_of_no_detail hnone] at hruns
      cases hruns
    · exact (backgroundMode_eq t).trans hshown
    · exact absurd ((backgroundMode_eq s).symm.trans (hs.pane (hbefore hruns hsame))) hhidden
  · simp [leaks, hmode, hpicking, hbefore hruns (congrArg Face.detail hface)] at hguard
  · simp [leaks, hbefore hruns (congrArg Face.detail hface)] at hguard

theorem tended_init (guardrails : Guardrails) (refreshCfg : Refresh) :
    Tended env (init guardrails refreshCfg) where
  sound := by
    refine ⟨⟨?_, ?_, ?_⟩, ?_, ?_, ?_, ?_⟩
    · exact fun _ _ _ h => h.elim
    · rintro o id ⟨-, h⟩
      cases h
    · exact fun _ _ _ _ _ h => h.elim
    · exact fun _ _ _ h => h.elim
    · rintro o o' id ⟨-, h⟩
      cases h
    · exact fun _ _ _ h => h.elim
    · exact fun _ _ _ h => h.elim
  cataloged := .of_bare rfl rfl
  ways b := by
    show Mode.box .contexts ∈ b.overs
    cases b <;> decide
  pane h := by cases h

theorem owns_iff (hs : Tended env s) {live : Live} (hlive : s.app.live = some live) {c : Option String}
    {id : ℕ} {k : Subscription} (hk : (c, id, k) ∈ live.polls) (o : Owner) :
    s.Owns live o id ↔ (o, id) ∈ s.roster.held := by
  rw [roster, App.roster_of_live hlive]
  show live.Holds _ o id ↔ live.Holds s.paneSub o id
  cases o with
  | detail =>
      show (if s.backgroundMode = .detail then s.paneSub else none) = some id ↔ s.paneSub = some id
      constructor
      · intro h
        split at h
        · exact h
        · cases h
      · intro h
        rw [if_pos (hs.pane (paneRuns_iff.2 ⟨id, h, c, k, (running_roster s).2 ⟨live, hlive, hk⟩⟩)), h]
  | _ => exact Iff.rfl

theorem stands_of_mem {view : TableView} {stack : List View} (h : View.table view ∈ stack) :
    ∃ i, onStack (fun h v => v.Stands h (.view i) view.key.context view.sub) stack := by
  induction stack with
  | nil => cases h
  | cons v rest ih =>
      rcases List.mem_cons.1 h with rfl | h
      · exact ⟨rest.length, Or.inl ⟨rfl, rfl, rfl⟩⟩
      · obtain ⟨i, hi⟩ := ih h
        exact ⟨i, Or.inr hi⟩

theorem accounted_of_tended (hs : Tended env s) : s.Accounted where
  owned live hlive c id k hk honce := by
    have hrun : (c, id, k) ∈ s.roster.running := (running_roster s).2 ⟨live, hlive, hk⟩
    have hone := hs.sound.exists_unique hrun (Bool.eq_false_iff.1 honce)
    exact (existsUnique_congr fun o => owns_iff hs hlive hk o).2 hone
  served live hlive view hview hjoined := by
    have hroster : s.roster = live.roster s.paneSub s.app.nextSub := App.roster_of_live hlive
    obtain ⟨i, hi⟩ := stands_of_mem hview
    have hneeded : (Owner.view i, view.key.context, view.sub) ∈ s.roster.needed := hroster ▸ hi
    obtain ⟨k, hk, honce⟩ := hs.sound.served _ _ _ hneeded (hroster ▸ hjoined)
    rw [hroster] at hk
    exact ⟨k, hk, Bool.eq_false_iff.2 honce⟩

/-- **Polling is accounted for** at the end of every run in which no step leaks: every poll that does
not end by itself has one owner, and every table view on a joined context polls. -/
theorem accounted_exec {guardrails : Guardrails} {refreshCfg : Refresh} {es : List Event}
    (hguard : Run.Along (step env evidence) (fun s e => s.leaks e = false)
      (init guardrails refreshCfg) es)
    (hrun : Run.exec (step env evidence) (init guardrails refreshCfg) es = some t) : t.Accounted :=
  accounted_of_tended (Run.exec_inv_along (I := Tended env) (fun _ _ _ => tended_step)
    (tended_init guardrails refreshCfg) hguard hrun)

/-- A pane over a row of two contexts in one table. -/
def paneRun : List Event :=
  connecting labSession (.kind actedVmKind) ++ [.joined prodSession] ++ walked 1 [vm "0" "db"] ++
    [.openDetail true]

theorem accounted_exec_pane :
    ∃ t ∈ Run.exec (step vmEnv taskEvidence) (init {} {}) paneRun, (∃ live ∈ t.app.live,
      live.polls.length = 3) ∧ t.Accounted := by
  have hrun : ∃ t ∈ Run.exec (step vmEnv taskEvidence) (init {} {}) paneRun, ∃ live ∈ t.app.live,
      live.polls.length = 3 := by decide +kernel
  obtain ⟨t, ht, hpolls⟩ := hrun
  exact ⟨t, ht, hpolls, accounted_exec (by decide +kernel) ht⟩

/-- The form of an action over the pane, cancelled. -/
def cancelledRun : List Event :=
  connecting labSession (.kind actedVmKind) ++ walked 1 [vm "0" "db"] ++
    [.openDetail true, .plain .openMenu, .plain (.start updateVm), .esc]

/-- The pane that a cancelled form leaves behind polls for nobody. -/
theorem not_accounted : ¬ ∀ (env : Env) (evidence : Evidence) (guardrails : Guardrails)
    (refreshCfg : Refresh) (es : List Event) (t : Screen),
    Run.exec (step env evidence) (init guardrails refreshCfg) es = some t → t.Accounted := by
  intro h
  have hrun : ∃ t ∈ Run.exec (step vmEnv taskEvidence) (init {} {}) cancelledRun,
      t.backgroundMode ≠ .detail ∧ ∃ live ∈ t.app.live, ∃ p ∈ live.polls, p.2.2.once = false ∧
        (∀ v ∈ live.stack, p.2.1 ∉ v.subs) ∧ live.tasks.watched.entries = [] := by decide +kernel
  obtain ⟨t, ht, hback, live, hlive, ⟨c, id, k⟩, hp, honce, hviews, hwatched⟩ := hrun
  obtain ⟨o, howns, -⟩ :=
    (h vmEnv taskEvidence {} {} cancelledRun t ht).owned live hlive c id k hp honce
  rw [Owns, if_neg hback] at howns
  have hview : ∀ o, ¬ onStack (fun h v => v.Holds h o id) live.stack := by
    intro o hon
    obtain ⟨i, -, v, hv, hholds⟩ := exists_of_onStack hon
    exact hviews v hv ((View.mem_subs i id v).2 ⟨o, hholds⟩)
  cases o with
  | detail => cases howns
  | watch task =>
      have hsub : live.tasks.subOf task = some id := howns
      rw [TaskIndex.subOf, IndexMap.get?, hwatched] at hsub
      cases hsub
  | _ => exact hview _ howns

end Screen

end Nutsh
