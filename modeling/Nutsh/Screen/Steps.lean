/-
What a step of the screen does to the polls.

Every step is a chain of orderly moves of the roster after a few moves that are known before it: a pane
that is opened forgets the one that was open, a watch the one of the same task, a context that is joined
joins, and a change of the schedules changes what runs.  What a step lists is known before it too.

* `Screen.prelude`, `Screen.listed`, `Screen.asksAbroad` — what a step does first, the kinds it lists,
  and whether it asks for the evidence of a row of a joined context;
* `Screen.Still` — steps that poll nothing;
* `Screen.Does`, `Screen.does_step` — a step as moves of the roster, with the kinds it shows of the catalog.
-/
import Nutsh.Screen.Keys

set_option relaxedAutoImplicit false
set_option autoImplicit false

namespace Nutsh

namespace Screen

variable (env : Env) (evidence : Evidence)

def roster (s : Screen) : Roster (Option String) Subscription Owner := s.app.roster

/-! ### What a step lists -/

/-- The kinds a target lists at once. -/
def Target.kinds : Target → List Kind
  | .kind k => [k]
  | .page panes => (panes.filter fun d => d.reason.isNone).map PaneDef.kind

def opening (s : Screen) (t : Target) : List Kind := if s.opens env t then t.kinds else []

/-- The view in front. -/
def front (s : Screen) : Option View := s.app.live.bind fun live => live.stack.head?

/-- The kind of the focused pane, if it opens as a table. -/
def focused (s : Screen) : List Kind :=
  match s.front with
  | some (.page page) =>
      (page.panes[page.focus]?.toList.filter fun pane =>
        (pane.reason.or (pane.key.kind.reach env.catalog).reason).isNone).map fun pane => pane.key.kind
  | _ => []

/-- The panes that are polled again when the top view is closed. -/
def uncovered (s : Screen) : List Kind :=
  match s.app.live.map Live.stack with
  | some (_ :: .page page :: _) =>
      (page.panes.filter fun pane => pane.sub.isNone && pane.reason.isNone).map fun pane => pane.key.kind
  | _ => []

/-- A child of the picker, if it is not greyed and its context is joined. -/
def child (s : Screen) (child : Kind) : List Kind :=
  match s.app.picker, s.app.live with
  | some picker, some live =>
      if ((picker.children.find? fun c => c.1 == child).bind Prod.snd).isNone &&
        (live.schedulerFor (App.viewKey child (App.childParents live ++ [picker.parentExtId])
          (s.app.childContext env live)).context).isSome then [child]
      else []
  | _, _ => []

/-- The kind of the table in front, if it shows the rows of every context. -/
def merged (s : Screen) : List Kind :=
  match s.front with
  | some (.table view) => if view.key.isTop then [view.key.kind] else []
  | _ => []

/-- The panes that are drawn taller than they ask for. -/
def grown (s : Screen) (heights : List ℕ) : List Kind :=
  match s.app.live.bind fun live => (drawn heights live).stack.head? with
  | some (.page page) => (page.panes.filter Live.outgrown).map fun pane => pane.key.kind
  | _ => []

/-- The kinds a step lists, one or more panes or tables each. -/
def listed (s : Screen) : Event → List Kind
  | .plain (.browse .openFocused) => s.focused env
  | .plain (.browse .pop) => s.uncovered
  | .plain (.pickChild child) => s.child env child
  | .choose (.open t) => if s.up .command then s.opening env t else []
  | .openTarget t => s.opening env t
  | .openHit kind => s.opening env (.kind kind)
  | .connected session was home =>
      let s := s.mapApp fun app => app.attach session
      if s.opens env was then was.kinds else s.opening env home
  | .joined _ => s.merged
  | .tick heights => s.grown heights
  | _ => []

/-- Whether a pane opened now asks for the evidence of a row of a joined context. -/
def asksAt (s : Screen) (served : Bool) : Bool :=
  match s.app.live, s.app.cursor, s.app.selectedExtId env with
  | some live, some c, some id =>
      let key := App.rowKey c.key id
      served && key.context.isSome && (live.schedulerFor key.context).isSome &&
        (((live.store.table key).rows.get? (splitRowId id).2).bind evidence.asks).isSome
  | _, _, _ => false

def asksAbroad (s : Screen) : Event → Bool
  | .openDetail served => s.asksAt env evidence served
  | .openPicker served => s.app.passesPicker env && s.asksAt env evidence served
  | _ => false

/-! ### What a step does first -/

/-- A subscription at the schedule of its kind. -/
def retimed (kind : String) (every : ℕ) (k : Subscription) : Subscription :=
  if k.key.kind.id = kind ∧ k.pausable = true then { k with interval := every } else k

/-- Kinds put at their schedules, one after the other. -/
def retiming (s : Screen) (kinds : List Kind) :
    List (Roster.Move (Option String) Subscription Owner) :=
  kinds.map fun kind => .revise fun _ => retimed kind.id ((s.refreshOf kind).1.getD 0)

/-- The schedules after a step that changes them, and the kinds it retimes. -/
def reschedules (s : Screen) : Event → Option (Screen × List Kind)
  | .stepRefresh =>
      s.currentKind.map fun kind =>
        ({ s with
          refreshSession := s.refreshSession.insert kind.id (refreshStep (s.refreshOf kind).1) },
          [kind])
  | .choose (.refresh (some (v, file))) =>
      if s.up .command then
        s.currentKind.map fun kind => (s.save (.kind kind.id) v file, [kind])
      else none
  | .setting (.cycle level file) =>
      if s.up .settings then
        some (s.save level (s.nextRung env level) file, env.catalog.filter fun k => level.touches k)
      else none
  | .chooseRung v file =>
      s.ladder.map fun level => (s.save level v file, env.catalog.filter fun k => level.touches k)
  | _ => none

/-- What a step does to the roster before it starts and ends anything. -/
def prelude (s : Screen) (e : Event) : List (Roster.Move (Option String) Subscription Owner) :=
  match e with
  | .openDetail _ => if (s.app.selectedExtId env).isSome then [.abandon .detail] else []
  | .openPicker _ => if s.app.passesPicker env then [.abandon .detail] else []
  | .acted i outcome =>
      match s.sys.flying[i]? with
      | some f => s.app.watching f.request.journal outcome
      | none => []
  | .joined session => if s.app.live.isSome then App.joining session.name else []
  | .toggleWatch every =>
      match s.app.detail with
      | none => []
      | some d =>
          match d.sub with
          | none => []
          | some sub =>
              let interval := if d.watch then (d.key.map fun key => key.kind.rhythm).getD 0 else every
              [.revise fun id k => if id = sub then { k with interval } else k]
  | e =>
      match s.reschedules env e with
      | some (s', kinds) => s'.retiming kinds
      | none => []

/-- The steps that can forget a number. -/
def Event.forgets : Event → Bool
  | .openDetail _ => true
  | .openPicker _ => true
  | .acted _ _ => true
  | _ => false

/-- What a step does first: a number forgotten, a context left and joined, or rhythms changed. -/
theorem prelude_cases {env : Env} {s : Screen} {e : Event}
    {m : Roster.Move (Option String) Subscription Owner} (hm : m ∈ s.prelude env e) :
    (e.forgets = true ∧ ∃ o, m = .abandon o) ∨
      (∃ session, e = .joined session ∧ m ∈ App.joining session.name) ∨
        ∃ f : ℕ → Subscription → ℕ, m = .revise fun id k => { k with interval := f id k } := by
  have hrevise : ∀ g : ℕ → Subscription → Subscription,
      (∀ id k, g id k = { k with interval := (g id k).interval }) → m = .revise g →
        ∃ f : ℕ → Subscription → ℕ, m = .revise fun id k => { k with interval := f id k } :=
    fun g hg hm => ⟨fun id k => (g id k).interval, hm.trans (congrArg _ (funext₂ hg))⟩
  unfold prelude at hm
  split at hm
  · split at hm
    · exact Or.inl ⟨rfl, _, List.mem_singleton.1 hm⟩
    · cases hm
  · split at hm
    · exact Or.inl ⟨rfl, _, List.mem_singleton.1 hm⟩
    · cases hm
  · split at hm
    · unfold App.watching at hm
      split at hm
      · split at hm
        · exact Or.inl ⟨rfl, _, List.mem_singleton.1 hm⟩
        · cases hm
      · cases hm
    · cases hm
  · split at hm
    · exact Or.inr (Or.inl ⟨_, rfl, hm⟩)
    · cases hm
  · split at hm
    · cases hm
    · split at hm
      · cases hm
      · exact Or.inr (Or.inr (hrevise _ (fun id k => by split <;> rfl) (List.mem_singleton.1 hm)))
  · split at hm
    · obtain ⟨kind, -, rfl⟩ := List.mem_map.1 hm
      exact Or.inr (Or.inr (hrevise _ (fun id k => by unfold retimed; split <;> rfl) rfl))
    · cases hm

/-! ### Steps that poll nothing -/

/-- Only the mode of the application is changed, and the schedules are the same. -/
structure Still (s t : Screen) : Prop where
  app : ∃ mode, t.app = { s.app with mode }
  cfg : t.refreshCfg = s.refreshCfg
  session : t.refreshSession = s.refreshSession

namespace Still

variable {s t u : Screen}

theorem refl (s : Screen) : Still s s := ⟨⟨s.app.mode, rfl⟩, rfl, rfl⟩

theorem trans (h : Still s t) (h' : Still t u) : Still s u := by
  obtain ⟨m, hm⟩ := h.app
  obtain ⟨m', hm'⟩ := h'.app
  refine ⟨⟨m', ?_⟩, h'.cfg.trans h.cfg, h'.session.trans h.session⟩
  rw [hm', hm]

theorem roster (h : Still s t) : t.roster = s.roster := by
  obtain ⟨m, hm⟩ := h.app
  rw [Screen.roster, hm]
  rfl

theorem keys (h : Still s t) : t.app.keys = s.app.keys := by
  obtain ⟨m, hm⟩ := h.app
  rw [hm]
  rfl

theorem picker (h : Still s t) : t.app.picker = s.app.picker := by
  obtain ⟨m, hm⟩ := h.app
  rw [hm]

theorem live (h : Still s t) : t.app.live = s.app.live := by
  obtain ⟨m, hm⟩ := h.app
  rw [hm]

end Still

variable {env : Env} {evidence : Evidence} {s t : Screen}

theorem still_show (s : Screen) (m : Screen.Mode) : Still s (s.show m) := by
  cases m <;> exact ⟨⟨_, rfl⟩, rfl, rfl⟩

theorem Still.andShow {s' : Screen} (h : Still s s') (m : Screen.Mode) : Still s (s'.show m) :=
  h.trans (still_show s' m)

theorem still_put (s : Screen) (b : Box) (up : Bool) : Still s (s.put b up) :=
  ⟨⟨s.app.mode, rfl⟩, rfl, rfl⟩

theorem still_remember (s : Screen) (b : Option Box) (what : Shape) : Still s (s.remember b what) :=
  ⟨⟨s.app.mode, rfl⟩, rfl, rfl⟩

theorem still_closeBoxes (s : Screen) : Still s s.closeBoxes := ⟨⟨s.app.mode, rfl⟩, rfl, rfl⟩

theorem still_enter (s : Screen) (b : Box) : Still s (s.enter b) := by
  unfold enter
  refine Still.andShow ?_ _
  exact ⟨⟨s.app.mode, rfl⟩, rfl, rfl⟩

theorem still_dismiss (s : Screen) (b : Box) : Still s (s.dismiss b) := by
  unfold dismiss
  split
  · exact (still_put s b false).trans (still_show _ _)
  · exact Still.refl s

theorem still_reopenSettings (s : Screen) : Still s s.reopenSettings :=
  (still_put s .settings true).trans (still_show _ _)

theorem still_leaveSkins (s : Screen) : Still s s.leaveSkins := by
  unfold leaveSkins
  dsimp only
  split
  · exact (still_dismiss s .skins).trans (still_reopenSettings _)
  · exact still_dismiss s .skins

theorem still_escBox (s : Screen) (b : Box) : Still s (s.escBox b) := by
  unfold escBox
  split
  · split
    · exact Still.refl s
    · split
      · exact still_show s _
      · exact Still.refl s
  · split
    · exact Still.refl s
    · refine Still.andShow ?_ _
      exact ⟨⟨s.app.mode, rfl⟩, rfl, rfl⟩
  · exact still_show s _
  · exact still_leaveSkins s
  · split
    · refine Still.andShow ?_ _
      exact ⟨⟨s.app.mode, rfl⟩, rfl, rfl⟩
    · exact Still.refl s
  · exact still_dismiss s b

theorem still_over (s s' : Screen) : Still s' (s.overBody s') := by
  unfold overBody
  split
  · exact still_remember s' none s.shape
  · exact Still.refl s'

theorem still_startConnect (s : Screen) : Still s s.startConnect := by
  unfold startConnect
  refine Still.andShow ?_ _
  exact ⟨⟨s.app.mode, rfl⟩, rfl, rfl⟩

theorem still_connectFailed (s : Screen) : Still s s.connectFailed := by
  unfold connectFailed
  refine Still.andShow ?_ _
  exact ⟨⟨s.app.mode, rfl⟩, rfl, rfl⟩

/-! ### What a handler does -/

/-- What a handler comes to, the kinds it lists being given: orderly moves of the polls, views and a
picker over the catalog, and the same schedules. -/
structure Goes (env : Env) (kinds : List Kind) (s t : Screen) : Prop where
  reach : s.app.Cataloged env.catalog → Reach kinds s.roster t.roster
  cataloged : s.app.Cataloged env.catalog → t.app.Cataloged env.catalog
  cfg : t.refreshCfg = s.refreshCfg
  session : t.refreshSession = s.refreshSession

variable {kinds : List Kind}

namespace Goes

variable {u : Screen}

theorem trans (h : Goes env kinds s t) (h' : Goes env kinds t u) : Goes env kinds s u :=
  ⟨fun hc => (h.reach hc).trans (h'.reach (h.cataloged hc)), fun hc => h'.cataloged (h.cataloged hc),
    h'.cfg.trans h.cfg, h'.session.trans h.session⟩

theorem ofStill (h : Still s t) : Goes env kinds s t :=
  ⟨fun _ => h.roster ▸ .refl, fun hc => hc.same h.keys (Or.inl h.picker), h.cfg, h.session⟩

/-- A change of the application that keeps the keys of its views. -/
theorem ofApp {f : App → App} (hreach : Reach kinds s.app.roster (f s.app).roster)
    (hkeys : (f s.app).keys = s.app.keys)
    (hpicker : (f s.app).picker = s.app.picker ∨ (f s.app).picker = none) :
    Goes env kinds s (s.mapApp f) :=
  ⟨fun _ => hreach, fun hc => hc.same hkeys hpicker, rfl, rfl⟩

/-- A step of the system. -/
theorem ofSys {sys : System}
    (hreach : s.app.Cataloged env.catalog → Reach kinds s.app.roster sys.app.roster)
    (hcataloged : s.app.Cataloged env.catalog → sys.app.Cataloged env.catalog) :
    Goes env kinds s { s with sys } :=
  ⟨hreach, hcataloged, rfl, rfl⟩

/-- A step of the system that polls nothing. -/
theorem ofStep {e : Nutsh.Event}
    (hstep : ∀ sys, s.sys.step env e = some sys → sys.app.polling = s.app.polling ∧
      (sys.app.picker = s.app.picker ∨ sys.app.picker = none)) (h : s.within env e = some t) :
    Goes env kinds s t := by
  obtain ⟨sys, hsys, rfl⟩ := Option.map_eq_some_iff.1 h
  obtain ⟨hpolling, hpicker⟩ := hstep sys hsys
  refine ofSys (fun _ => ?_) fun hc => hc.same (App.keys_of_polling hpolling) hpicker
  have hroster : sys.app.roster = s.app.roster := App.roster_of_polling hpolling
  rw [hroster]
  exact .refl

/-- A change of what is not polled. -/
theorem ofPolling {f : App → App} (h : (f s.app).polling = s.app.polling)
    (hpicker : (f s.app).picker = s.app.picker ∨ (f s.app).picker = none) :
    Goes env kinds s (s.mapApp f) :=
  ofApp (App.roster_of_polling h ▸ .refl) (App.keys_of_polling h) hpicker

end Goes

theorem goes_listOnce {key : TableKey} (hcontext : key.context = none) (s : Screen) :
    Goes env kinds s (s.listOnce key) := by
  unfold listOnce
  refine Goes.ofApp ?_ ?_ (Or.inl rfl)
  · cases hlive : s.app.live with
    | none =>
        have h : ∀ app : App, app.live = none →
            Reach kinds app.roster { app with nextSub := app.nextSub + 1 }.roster := by
          intro app happ
          have hskip : { app with nextSub := app.nextSub + 1 }.roster =
              app.roster.move rules .skip := by
            simp only [App.roster, happ]
            rfl
          rw [hskip]
          exact .single trivial
        simpa only [App.mapLive, hlive, Option.map_none] using h s.app hlive
    | some live =>
        rw [App.roster_of_live hlive]
        simp only [App.mapLive, hlive, Option.map_some]
        exact Live.reaches_lend (c := none) rfl rfl hcontext
  · exact App.keys_mapLive (fun live => Live.keys_mapScheduler _ _) s.app

theorem goes_searchCommand (s : Screen) (asks : List (Kind × Option String)) :
    Goes env kinds s (s.searchCommand asks) := by
  have hfold : ∀ s : Screen, Goes env kinds s
      (asks.foldl (fun s ask => s.listOnce (TableKey.filtered ask.1 ask.2)) s) := by
    induction asks with
    | nil => exact fun s => Goes.ofStill (Still.refl s)
    | cons ask asks ih => exact fun s => (goes_listOnce rfl s).trans (ih _)
  unfold searchCommand
  split
  · exact (hfold s).trans (Goes.ofStill (still_enter _ _))
  · exact Goes.ofStill (Still.refl s)

theorem opens_kind {kind : Kind} (h : s.opens env (.kind kind) = true) :
    ∃ live, s.app.live = some live ∧ kind ∈ env.catalog ∧ (kind.reach env.catalog).reason = none ∧
      live.session.unavailable kind = none := by
  simp only [opens, Option.any_eq_true, Bool.and_eq_true, List.contains_iff_mem,
    Option.isNone_iff_eq_none] at h
  obtain ⟨live, hlive, ⟨hkind, hreach⟩, hserved⟩ := h
  exact ⟨live, hlive, hkind, hreach, hserved⟩

theorem opens_page {panes : List PaneDef} (h : s.opens env (.page panes) = true) :
    (∃ live, s.app.live = some live) ∧ ∀ d ∈ panes, d.kind ∈ env.catalog := by
  simp only [opens, Bool.and_eq_true, List.all_eq_true, List.contains_iff_mem,
    Option.isSome_iff_exists] at h
  exact h

/-- A target that is opened brings kinds of the catalog. -/
theorem goes_openRoot {t : Target} (hkinds : ∀ k ∈ s.opening env t, k ∈ kinds) :
    Goes env kinds s (s.openRoot env t) := by
  unfold openRoot
  split
  case isFalse => exact Goes.ofStill (Still.refl s)
  case isTrue hopens =>
    have hk : ∀ k ∈ t.kinds, k ∈ kinds := by
      intro k hk
      exact hkinds k (by rw [opening, if_pos hopens]; exact hk)
    refine (Goes.ofStill (still_closeBoxes s)).trans ?_
    cases t with
    | kind kind =>
        obtain ⟨live, hlive, hkind, hreach, hserved⟩ := opens_kind hopens
        refine ⟨fun _ => App.reaches_openRoot _ (hk kind (List.mem_singleton.2 rfl)), fun hc => ?_,
          rfl, rfl⟩
        have hpicker : (s.closeBoxes.app.openRoot env kind).picker = none :=
          congrArg Boxes.picker (@App.boxes_openRoot _ s.closeBoxes.app _ _ hlive hreach hserved)
        rcases App.keys_openRoot env s.closeBoxes.app kind with h | h | h
        · exact hc.same h (Or.inr hpicker)
        · exact @App.Cataloged.sub _ (s.closeBoxes.app.openRoot env kind) _ hc (h ▸ List.nil_subset _)
            (Or.inr hpicker)
        · refine @App.Cataloged.replace _ (s.closeBoxes.app.openRoot env kind) _ hc ?_ (Or.inr hpicker)
          rw [h]
          intro x hx key hkey
          rw [List.mem_singleton.1 hx] at hkey ⊢
          rw [List.mem_singleton.1 hkey]
          exact ⟨hkind, nofun⟩
    | page panes =>
        obtain ⟨⟨live, hlive⟩, hcatalog⟩ := opens_page hopens
        refine ⟨fun _ => App.reaches_openPage _ fun _ d hd hreason => ?_, fun hc => ?_, rfl, rfl⟩
        · exact hk d.kind (List.mem_map.2 ⟨d, List.mem_filter.2 ⟨hd, by rw [hreason]; rfl⟩, rfl⟩)
        · have hpicker : (s.closeBoxes.app.openPage panes).picker = none := by
            rcases App.boxes_openPage s.closeBoxes.app panes with ⟨h, -⟩ | h <;>
              exact congrArg Boxes.picker h
          rcases App.keys_openPage s.closeBoxes.app panes with h | h
          · exact hc.same h (Or.inr hpicker)
          · refine @App.Cataloged.replace _ (s.closeBoxes.app.openPage panes) _ hc ?_ (Or.inr hpicker)
            rw [h]
            intro x hx key hkey
            rw [List.mem_singleton.1 hx] at hkey ⊢
            obtain ⟨d, hd, rfl⟩ := List.mem_map.1 hkey
            exact ⟨hcatalog d hd, fun _ => rfl⟩

theorem goes_keepPeers (s : Screen) (keep : List String) : Goes env kinds s (s.keepPeers keep) :=
  Goes.ofApp (App.reaches_keepPeers s.app keep)
    (App.keys_mapLive (fun live => Live.keys_foldl_forgetPeer _ live) s.app) (Or.inl rfl)

theorem goes_onContexts (s : Screen) (b : Box) (key : ContextsKey) :
    Goes env kinds s (s.onContexts b key) := by
  unfold onContexts
  split
  · exact Goes.ofStill (Still.refl s)
  · split
    · refine Goes.ofStill (Still.andShow ?_ _)
      exact ⟨⟨s.app.mode, rfl⟩, rfl, rfl⟩
    · exact Goes.ofStill (still_startConnect s)
    · exact goes_keepPeers s _
    · split
      · exact Goes.ofStill (still_enter s _)
      · exact Goes.ofStill (Still.refl s)
    · exact Goes.ofStill (still_startConnect s)
    · exact Goes.ofStill (Still.refl s)

/-- A line of the palette, one that sets a schedule apart. -/
theorem goes_run {c : Command} (hc : ∀ v, c ≠ .refresh (some v))
    (hkinds : ∀ t, c = .open t → ∀ k ∈ s.opening env t, k ∈ kinds) :
    Goes env kinds s (s.run env c) := by
  cases c with
  | help => exact Goes.ofStill (still_enter s _)
  | «open» t => exact goes_openRoot (hkinds t rfl)
  | contexts => exact Goes.ofStill (still_show s (.box .contexts))
  | login =>
      refine Goes.ofStill (@Still.andShow _ { s with prompt := true } ?_ (.box .form))
      exact ⟨⟨s.app.mode, rfl⟩, rfl, rfl⟩
  | connect => exact Goes.ofStill (still_startConnect s)
  | keepPeers keep => exact goes_keepPeers s keep
  | skins => exact Goes.ofStill (still_enter s _)
  | journal =>
      dsimp only [run]
      split
      · exact Goes.ofStill (still_enter s _)
      · exact Goes.ofStill (Still.refl s)
  | activity =>
      dsimp only [run]
      split
      · exact Goes.ofStill (still_enter s _)
      · exact Goes.ofStill (Still.refl s)
  | search asks => exact goes_searchCommand s asks
  | settings => exact Goes.ofStill (still_enter s _)
  | refresh value =>
      cases value with
      | none =>
          dsimp only [run]
          split
          · exact Goes.ofStill (still_enter s _)
          · exact Goes.ofStill (Still.refl s)
      | some v => exact absurd rfl (hc v)
  | other => exact Goes.ofStill (Still.refl s)

theorem opens_of_still (h : Still s t) (target : Target) : t.opens env target = s.opens env target := by
  cases target <;> simp only [opens, h.live]

theorem goes_choose {c : Command} (hc : ∀ v, c ≠ .refresh (some v))
    (hkinds : s.up .command = true → ∀ t, c = .open t → ∀ k ∈ s.opening env t, k ∈ kinds) :
    Goes env kinds s (s.choose env c) := by
  unfold choose
  split
  case isTrue hup =>
    have hstill := still_dismiss s .command
    refine (Goes.ofStill hstill).trans (goes_run hc ?_)
    intro t ht k hk
    refine hkinds hup t ht k ?_
    rw [opening, opens_of_still hstill] at hk
    exact hk
  case isFalse => exact Goes.ofStill (Still.refl s)

theorem goes_setting {key : SettingsKey} (hkey : ∀ level file, key ≠ .cycle level file) :
    Goes env kinds s (s.setting env key) := by
  unfold setting
  split
  case isTrue =>
    cases key with
    | skins => exact Goes.ofStill (still_enter s _)
    | add => exact Goes.ofStill ((still_dismiss s _).trans (still_enter _ _))
    | cycle level file => exact absurd rfl (hkey level file)
    | pick level =>
        refine Goes.ofStill (Still.andShow ?_ _)
        exact ⟨⟨s.app.mode, rfl⟩, rfl, rfl⟩
    | other => exact Goes.ofStill (still_reopenSettings s)
  case isFalse => exact Goes.ofStill (Still.refl s)

theorem goes_closeRefPicker (s : Screen) (chosen : Option (ℕ × String)) :
    Goes env kinds s (s.closeRefPicker chosen) :=
  Goes.ofPolling rfl (Or.inl rfl)

theorem goes_openRefPicker (s : Screen) (kind : Kind) : Goes env kinds s (s.openRefPicker env kind) := by
  unfold openRefPicker
  split
  · split
    · exact Goes.ofStill (Still.refl s)
    · dsimp only
      refine Goes.trans (t := ite _ _ _) ?_ (Goes.ofPolling rfl (Or.inl rfl))
      split
      · exact goes_listOnce rfl s
      · exact Goes.ofStill (Still.refl s)
  · exact Goes.ofStill (Still.refl s)

theorem goes_poll (s : Screen) (sub now : ℕ) (u : Update) (refused : Kind → Option String) :
    Goes env kinds s (s.poll sub now u refused) := by
  have hpoll : Goes env kinds s (s.mapApp fun app => app.poll sub now u) :=
    Goes.ofApp (App.reaches_poll s.app sub now u) (App.keys_poll s.app sub now u)
      (Or.inl (congrArg Boxes.picker (App.boxes_poll s.app sub now u)))
  refine hpoll.trans (Goes.ofApp (App.reaches_mapLive _ fun live => ?_) (App.keys_mapLive ?_ _)
    (Or.inl rfl))
  · split
    · exact Live.reaches_regrade live refused
    · exact .refl
  · intro live
    split
    · exact Live.keys_regrade live refused
    · rfl

theorem goes_done (s : Screen) (sub : ℕ) : Goes env kinds s (s.done sub) :=
  Goes.ofApp (App.reaches_mapLive _ fun live => Live.reaches_reap live sub)
    (App.keys_mapLive (f := fun live => live.mapSchedulers _) (fun _ => rfl) _) (Or.inl rfl)

theorem polling_drawn (heights : List ℕ) (live : Live) :
    (drawn heights live).polling = live.polling := by
  refine App.polling_modifyHead (fun v => ?_) live
  cases v with
  | table t => rfl
  | page page =>
      simp only [View.bare, View.page.injEq, PageView.mk.injEq, and_true, List.map_map]
      refine List.ext_getElem? fun i => ?_
      simp only [List.getElem?_map, List.getElem?_zipIdx]
      cases page.panes[i]? <;> rfl

theorem goes_tick {heights : List ℕ} (hkinds : ∀ k ∈ s.grown heights, k ∈ kinds) :
    Goes env kinds s (s.tick heights) := by
  cases hlive : s.app.live with
  | none =>
      have hlive' : s.sys.app.live = none := hlive
      have h : s.tick heights = s := by simp only [tick, mapApp, hlive']
      rw [h]
      exact Goes.ofStill (Still.refl s)
  | some live =>
      have happ : (s.tick heights).app = { s.app with
          live := some ((drawn heights live).resize s.app.nextSub).1,
          nextSub := ((drawn heights live).resize s.app.nextSub).2 } := by
        unfold tick mapApp
        simp only [Screen.app] at hlive ⊢
        rw [hlive]
      have hkeys : (s.tick heights).app.keys = s.app.keys := by
        rw [happ, App.keys_of_live hlive]
        exact (Live.keys_resize _ _).trans (Live.keys_drawn heights live)
      refine ⟨fun hc => ?_, fun hc => hc.same hkeys (Or.inl (by rw [happ])), rfl, rfl⟩
      rw [roster, roster, happ, App.roster_of_live hlive]
      have hdrawn : (drawn heights live).roster (s.app.detail.bind Detail.sub) s.app.nextSub =
          live.roster (s.app.detail.bind Detail.sub) s.app.nextSub :=
        (Live.same_of_polling (polling_drawn heights live)).roster
      rw [← hdrawn]
      refine Live.reaches_resize fun page hpage pane hpane hout => ⟨?_, ?_⟩
      · -- the panes of a page list the session itself
        have hmem : (View.page page).keys ∈ s.app.keys := by
          rw [App.keys_of_live hlive, ← Live.keys_drawn heights live]
          exact List.mem_map.2 ⟨_, List.mem_of_mem_head? hpage, rfl⟩
        exact (hc.views _ hmem pane.key (List.mem_map.2 ⟨pane, hpane, rfl⟩)).2 rfl
      · refine hkinds _ ?_
        simp only [grown, hlive, Option.bind_some, hpage]
        exact List.mem_map.2 ⟨pane, List.mem_filter.2 ⟨hpane, hout⟩, rfl⟩

/-! ### The pipeline, and the views -/

/-- A step the system takes by itself changes no poll, or it opens a table or closes one. -/
theorem plain_cases {sys sys' : System} {e : Nutsh.Event} (he : e.plain = true)
    (h : sys.step env e = some sys') :
    (sys'.app.polling = sys.app.polling ∧
        (sys'.app.picker = sys.app.picker ∨ sys'.app.picker = none)) ∨
      (e = .browse .openFocused ∧ sys'.app = sys.app.openFocused env) ∨
      (e = .browse .pop ∧ sys'.app = sys.app.pop) ∨
      ∃ child, e = .pickChild child ∧ sys'.app = sys.app.pickChild env child := by
  cases e with
  | background b =>
      obtain rfl := Option.some.inj h
      refine Or.inl ?_
      cases b with
      | rolesResolved generation index => exact ⟨App.polling_mapLive fun _ => rfl, Or.inl rfl⟩
      | rolesRestored index => exact ⟨App.polling_mapLive fun _ => rfl, Or.inl rfl⟩
      | restored kind parents filter rows total writtenAt =>
          exact ⟨App.polling_mapLive fun _ => rfl, Or.inl rfl⟩
      | restoredNames names => exact ⟨App.polling_mapLive fun _ => rfl, Or.inl rfl⟩
      | tick now => exact ⟨rfl, Or.inl rfl⟩
      | _ => cases he
  | browse b =>
      simp only [System.step] at h
      split at h
      case isFalse => cases h
      case isTrue =>
        cases h
        by_cases hfocused : b = .openFocused
        · exact Or.inr (Or.inl ⟨by rw [hfocused], by rw [hfocused]; rfl⟩)
        by_cases hpop : b = .pop
        · exact Or.inr (Or.inr (Or.inl ⟨by rw [hpop], by rw [hpop]; rfl⟩))
        have hroot : ∀ kind, b ≠ .openRoot kind := by rintro kind rfl; cases he
        have hpage : ∀ panes, b ≠ .openPage panes := by rintro panes rfl; cases he
        have hleave : b ≠ .leave := by rintro rfl; cases he
        have hback : b ≠ .back := by rintro rfl; cases he
        exact Or.inl ⟨App.polling_browse hroot hpage hfocused hpop,
          Or.inl (congrArg Boxes.picker (App.boxes_browse env sys.app hroot hpage hleave hback))⟩
  | openMenu =>
      simp only [System.step] at h
      split at h
      case isFalse => cases h
      case isTrue =>
        cases h
        refine Or.inl ⟨App.polling_openMenu sys.app, Or.inl ?_⟩
        rcases App.boxes_openMenu env sys.app with hb | ⟨menu, hb⟩ <;> exact congrArg Boxes.picker hb
  | start action =>
      have hpicker : ∀ app : App, (app.start env action).1.picker = app.picker := by
        intro app
        rcases App.boxes_start env app action with hb | ⟨p, form, hb⟩ | hb | ⟨p, confirm, hb⟩ <;>
          exact congrArg Boxes.picker hb
      simp only [System.step] at h
      split at h
      case isFalse => cases h
      case isTrue =>
        split at h <;> cases h
        · exact Or.inl ⟨App.polling_start { sys.app with picker := none, mode := .table } action,
            Or.inr (hpicker { sys.app with picker := none, mode := .table })⟩
        · exact Or.inl ⟨App.polling_start sys.app action, Or.inl (hpicker sys.app)⟩
  | pickChild child =>
      simp only [System.step] at h
      split at h
      case isFalse => cases h
      case isTrue =>
        cases h
        exact Or.inr (Or.inr (Or.inr ⟨child, rfl, rfl⟩))
  | type field text =>
      simp only [System.step] at h
      split at h
      case isFalse => cases h
      case isTrue =>
        cases h
        exact Or.inl ⟨rfl, Or.inl rfl⟩
  | submit =>
      simp only [System.step] at h
      split at h
      case isFalse => cases h
      case isTrue =>
        cases h
        refine Or.inl ⟨App.polling_submitForm sys.app, Or.inl ?_⟩
        rcases App.boxes_submitForm env sys.app with hb | hb | ⟨p, confirm, hb⟩ <;>
          exact congrArg Boxes.picker hb
  | confirmed =>
      simp only [System.step] at h
      split at h
      case isFalse => cases h
      case isTrue =>
        cases h
        refine Or.inl ⟨App.polling_runPending sys.app, Or.inl ?_⟩
        cases hp : sys.app.pending with
        | none => simp only [System.launch, App.runPending, hp]
        | some p => exact congrArg Boxes.picker (App.boxes_runPending env hp)
  | _ => cases he

theorem mem_focused {live : Live} {page : PageView} {pane : Pane} (hlive : s.app.live = some live)
    (hpage : live.stack.head? = some (.page page)) (hpane : page.panes[page.focus]? = some pane)
    (hreason : (pane.reason.or (pane.key.kind.reach env.catalog).reason).isSome = false) :
    pane.key.kind ∈ s.focused env := by
  have hnone : (pane.reason.or (pane.key.kind.reach env.catalog).reason).isNone = true := by
    simpa using hreason
  simp only [focused, front, hlive, Option.bind_some, hpage, hpane]
  exact List.mem_map.2 ⟨pane, List.mem_filter.2 ⟨List.mem_singleton.2 rfl, hnone⟩, rfl⟩

theorem mem_uncovered {live : Live} {v : View} {page : PageView} {rest : List View} {pane : Pane}
    (hlive : s.app.live = some live) (hstack : live.stack = v :: .page page :: rest)
    (hpane : pane ∈ page.panes) (hsub : pane.sub = none) (hreason : pane.reason = none) :
    pane.key.kind ∈ s.uncovered := by
  simp only [uncovered, hlive, Option.map_some, hstack]
  exact List.mem_map.2 ⟨pane, List.mem_filter.2 ⟨hpane, by rw [hsub, hreason]; rfl⟩, rfl⟩

/-- A page in the stack lists the session itself. -/
theorem context_of_page {catalog : Catalog} (hc : s.app.Cataloged catalog) {live : Live}
    (hlive : s.app.live = some live) {page : PageView} (hpage : .page page ∈ live.stack) {pane : Pane}
    (hpane : pane ∈ page.panes) : pane.key.context = none := by
  have hmem : (View.page page).keys ∈ s.app.keys := by
    rw [App.keys_of_live hlive]
    exact List.mem_map.2 ⟨_, hpage, rfl⟩
  exact (hc.views _ hmem pane.key (List.mem_map.2 ⟨pane, hpane, rfl⟩)).2 rfl

theorem goes_plain {e : Nutsh.Event} (he : e.plain = true) (h : s.within env e = some t)
    (hkinds : ∀ k ∈ s.listed env (.plain e), k ∈ kinds) : Goes env kinds s t := by
  obtain ⟨sys, hsys, rfl⟩ := Option.map_eq_some_iff.1 h
  rcases plain_cases he hsys with ⟨hpolling, hpicker⟩ | ⟨rfl, happ⟩ | ⟨rfl, happ⟩ | ⟨child, rfl, happ⟩
  · refine Goes.ofStep (fun sys' hsys' => ?_) h
    rw [hsys, Option.some.injEq] at hsys'
    exact hsys' ▸ ⟨hpolling, hpicker⟩
  · refine Goes.ofSys (fun _ => ?_) fun hc => ?_ <;> rw [happ]
    · exact App.reaches_openFocused s.app fun live page pane hlive hpage hpane hreason =>
        hkinds _ (mem_focused hlive hpage hpane hreason)
    · have hpicker := congrArg Boxes.picker (App.boxes_openFocused env s.app)
      rcases App.keys_openFocused env s.app with h | ⟨x, hx, key, hkey, h⟩
      · exact hc.same h (Or.inl hpicker)
      · exact hc.cons (by simpa using (hc.views x hx key hkey).1) h (Or.inl hpicker)
  · refine Goes.ofSys (fun hc => ?_) fun hc => ?_ <;> rw [happ]
    · refine App.reaches_pop s.app fun live v page rest hlive hstack pane hpane hsub hreason => ⟨?_, ?_⟩
      · exact context_of_page hc hlive (by rw [hstack]; simp) hpane
      · exact hkinds _ (mem_uncovered hlive hstack hpane hsub hreason)
    · have hpicker := congrArg Boxes.picker (App.boxes_pop s.app)
      rcases App.keys_pop s.app with h | h
      · exact hc.same h (Or.inl hpicker)
      · exact hc.sub (h ▸ (List.tail_sublist _).subset) (Or.inl hpicker)
  · simp only [System.step] at hsys
    split at hsys
    case isFalse => cases hsys
    case isTrue hoffers =>
      obtain ⟨-, picker, hp, x, hx, hchild⟩ := App.picker_of_offersChild hoffers
      refine Goes.ofSys (fun _ => ?_) fun hc => ?_ <;> rw [happ]
      · refine App.reaches_pickChild s.app fun picker live hpicker hwhy hlive hjoined => hkinds _ ?_
        simp only [listed, Screen.child, hpicker, hlive, hwhy, hjoined, Option.isNone_none,
          Bool.and_self, if_true, List.mem_singleton]
      · have hnone : (s.app.pickChild env child).picker = none :=
          congrArg Boxes.picker (App.boxes_pickChild env hp child)
        rcases App.keys_pickChild env s.app child with h | ⟨parents, context, h⟩
        · exact hc.same h (Or.inr hnone)
        · refine hc.cons ?_ h (Or.inr hnone)
          rw [App.kind_of_viewKey, ← hchild]
          exact hc.picker picker hp x hx

theorem goes_closeDetail (h : s.within env .closeDetail = some t) : Goes env kinds s t := by
  obtain ⟨sys, hsys, rfl⟩ := Option.map_eq_some_iff.1 h
  simp only [System.step] at hsys
  split at hsys <;> cases hsys
  refine Goes.ofSys (fun _ => App.reaches_closeDetail s.app) fun hc => ?_
  have hkeys : s.app.closeDetail.keys = s.app.keys := by
    unfold App.closeDetail
    dsimp only
    split
    case h_1 sub _ =>
      exact App.keys_mapLive (f := fun live => live.unsubscribeAny sub) (fun _ => rfl) s.app
    case h_2 => rfl
  exact @App.Cataloged.same _ { s.app.closeDetail with mode := .table } _ hc hkeys (Or.inl rfl)

theorem goes_cancel (h : s.within env .cancel = some t) : Goes env kinds s t := by
  refine Goes.ofStep (fun sys hsys => ?_) h
  simp only [System.step] at hsys
  split at hsys
  · cases hsys
    exact ⟨rfl, Or.inl rfl⟩
  · split at hsys <;> cases hsys
    exact ⟨rfl, Or.inr rfl⟩

/-- The way out of what has the keys. -/
theorem goes_esc (h : s.esc env = some t) : Goes env kinds s t := by
  unfold esc at h
  split at h
  · cases h
  · exact goes_closeDetail h
  · exact goes_cancel h
  · exact goes_cancel h
  · split at h
    · cases h
      exact goes_closeRefPicker s none
    · refine Goes.ofStep (fun sys hsys => ?_) h
      simp only [System.step] at hsys
      split at hsys <;> cases hsys
      exact ⟨rfl, Or.inl rfl⟩
  · refine Goes.ofStep (fun sys hsys => ?_) h
    simp only [System.step] at hsys
    split at hsys <;> cases hsys
    exact ⟨rfl, Or.inl rfl⟩
  · cases h
    exact Goes.ofStill (still_escBox s _)

/-- A session replaced, and what is opened on it. -/
theorem goes_connected {session : Session} {was home : Target}
    (hkinds : ∀ k ∈ s.listed env (.connected session was home), k ∈ kinds) :
    Goes env kinds s (s.connected env session was home) := by
  let fresh : Screen := { s with pending := false, connects := s.connects - 1 }.closeBoxes.mapApp
    fun app => app.attach session
  have hfresh : Goes env kinds s { fresh with prompt := false } := by
    have hkeys : (s.app.attach session).keys = [] := rfl
    refine ⟨fun _ => App.reaches_attach s.app session, fun hc => ?_, rfl, rfl⟩
    exact @App.Cataloged.sub _ (s.app.attach session) _ hc (hkeys ▸ List.nil_subset _) (Or.inr rfl)
  have hopens : ∀ target, ({ fresh with prompt := false } : Screen).opens env target =
      (s.mapApp fun app => app.attach session).opens env target := by
    intro target
    cases target <;> rfl
  unfold connected
  dsimp only
  split
  case isTrue hwas =>
    refine hfresh.trans (goes_openRoot fun k hk => hkinds k ?_)
    have hwas' := (hopens was).symm.trans hwas
    rw [opening, if_pos hwas] at hk
    simpa only [listed, hwas', if_true] using hk
  case isFalse hwas =>
    have hwas' : (s.mapApp fun app => app.attach session).opens env was = false := by
      rw [← hopens]
      simpa using hwas
    split
    case isTrue hhome =>
      refine hfresh.trans (goes_openRoot fun k hk => hkinds k ?_)
      rw [opening, hopens] at hk
      simpa only [listed, hwas', Bool.false_eq_true, if_false, opening] using hk
    case isFalse => exact hfresh.trans (Goes.ofStill (still_show _ _))

/-! ### What a step comes to -/

/-- What a step comes to: orderly moves of the polls after its prelude, views and a picker over the
catalog, and the schedules that are in force then. -/
structure Does (env : Env) (evidence : Evidence) (s : Screen) (e : Event) (t : Screen) : Prop where
  reach : s.app.Cataloged env.catalog →
    Roster.Reaches rules (Started (s.asksAbroad env evidence e = false) (s.listed env e))
      ((s.prelude env e).foldl (Roster.move rules) s.roster) t.roster
  cataloged : s.app.Cataloged env.catalog → t.app.Cataloged env.catalog
  cfg : t.refreshCfg = ((s.reschedules env e).map fun r => r.1.refreshCfg).getD s.refreshCfg
  session :
    t.refreshSession = ((s.reschedules env e).map fun r => r.1.refreshSession).getD s.refreshSession

variable {e : Event}

theorem Does.ofGoes (h : Goes env (s.listed env e) s t) (hprelude : s.prelude env e = [])
    (hschedules : s.reschedules env e = none) : Does env evidence s e t where
  reach hc := by
    rw [hprelude]
    exact (h.reach hc).unsited _
  cataloged := h.cataloged
  cfg := by rw [hschedules]; exact h.cfg
  session := by rw [hschedules]; exact h.session

theorem Does.andStill {u : Screen} (h : Does env evidence s e t) (hs : Still t u) :
    Does env evidence s e u :=
  ⟨fun hc => hs.roster ▸ h.reach hc, fun hc => (h.cataloged hc).same hs.keys (Or.inl hs.picker),
    hs.cfg.trans h.cfg, hs.session.trans h.session⟩

/-- The evidence of a pane: a poll that runs once, under the key of no context. -/
theorem reaches_askEvidence {served : Bool} {sited : Prop}
    (hsited : sited → ∀ live d key, s.app.live = some live → s.app.detail = some d →
      d.key = some key → served = true → (live.schedulerFor key.context).isSome = true →
      (((live.store.table key).rows.get? d.extId).bind evidence.asks).isSome = true →
      key.context = none) :
    Roster.Reaches rules (Started sited kinds) s.roster (s.askEvidence evidence served).roster := by
  unfold askEvidence
  split
  case h_1 live key extId hlive hkey =>
    split
    · exact .refl
    case h_2 filter hasks =>
      split
      case isFalse => exact .refl
      case isTrue hserved =>
        obtain ⟨hserved, hjoined⟩ := Bool.and_eq_true_iff.1 hserved
        obtain ⟨d, hd, hkey⟩ := Option.bind_eq_some_iff.1 hkey
        obtain ⟨key', hkey', heq⟩ := Option.map_eq_some_iff.1 hkey
        cases heq
        let k : Subscription :=
          { key := TableKey.filtered evidence.kind (some filter), once := true, pausable := false,
            interval := 1 }
        have hlend : Roster.Reaches rules (Started sited kinds)
            (live.roster (s.app.detail.bind Detail.sub) s.app.nextSub)
            ((live.mapScheduler key.context fun scheduler => scheduler.subscribe s.app.nextSub k).roster
              (s.app.detail.bind Detail.sub) (s.app.nextSub + 1)) := by
          rw [Live.roster_lend hjoined]
          refine .single ⟨rfl, fun h => ?_, nofun⟩
          exact (hsited h live d key hlive hd hkey' hserved hjoined (by rw [hasks]; rfl)).symm
        rw [roster, App.roster_of_live hlive]
        exact hlend
  case h_2 => exact .refl

/-- A pane that was just opened is over the row that was under the cursor. -/
theorem opened_cases {sys : System} (happ : sys.app = s.app.openDetail env)
    (hid : (s.app.selectedExtId env).isSome = true) :
    ∃ live₀ live c id d, s.app.live = some live₀ ∧ s.app.cursor = some c ∧
      s.app.selectedExtId env = some id ∧ sys.app.live = some live ∧ sys.app.detail = some d ∧
      d.key = some (App.rowKey c.key id) ∧ d.extId = (splitRowId id).2 ∧ live.store = live₀.store ∧
      ∀ c, (live.schedulerFor c).isSome = (live₀.schedulerFor c).isSome := by
  rcases App.openDetail_cases env s.app with ⟨hnone, -⟩ | ⟨live, c, id, hlive, hc, hid, hopen⟩
  · rw [hnone] at hid
    cases hid
  · obtain ⟨live₀, hlive₀, rfl⟩ := Option.map_eq_some_iff.1
      (show s.app.live.map (fun live => { live with canI := live.canI.claim.1 }) = some live from hlive)
    have hcursor : s.app.cursor = some c := by
      rw [App.cursor, hlive₀]
      exact hc
    rcases hopen with ⟨-, -, hopen⟩ | hopen
    · refine ⟨live₀, _, c, id, _, hlive₀, hcursor, hid, congrArg App.live (happ.trans hopen),
        congrArg App.detail (happ.trans hopen), rfl, rfl, Live.store_mapScheduler _ _, fun c' => ?_⟩
      rw [Live.isSome_schedulerFor_congr (Live.names_mapScheduler _ _)]
      rfl
    · exact ⟨live₀, _, c, id, _, hlive₀, hcursor, hid, congrArg App.live (happ.trans hopen),
        congrArg App.detail (happ.trans hopen), rfl, rfl, rfl, fun c' => rfl⟩

/-- What a pane that was just opened asks for was known before. -/
theorem reaches_opened {served : Bool} {sys : System} (happ : sys.app = s.app.openDetail env)
    (hid : (s.app.selectedExtId env).isSome = true) :
    Roster.Reaches rules (Started (s.asksAt env evidence served = false) kinds)
      ({ s with sys } : Screen).roster
      (({ s with sys } : Screen).askEvidence evidence served).roster := by
  refine reaches_askEvidence fun hat live d key hlive hd hkey hserved hjoined hasks => ?_
  obtain ⟨live₀, live', c, id, d', hlive₀, hc, hid, hlive', hd', hkey', hextId, hstore, hscheduler⟩ :=
    opened_cases happ hid
  obtain rfl : live = live' := Option.some.inj (hlive.symm.trans hlive')
  obtain rfl : d = d' := Option.some.inj (hd.symm.trans hd')
  obtain rfl : key = App.rowKey c.key id := Option.some.inj (hkey.symm.trans hkey')
  rw [hstore, hextId] at hasks
  rw [hscheduler] at hjoined
  simpa only [asksAt, hlive₀, hc, hid, hserved, hjoined, hasks, Bool.true_and, Bool.and_true,
    Option.isSome_eq_false_iff, Option.isNone_iff_eq_none] using hat

theorem still_askEvidence (s : Screen) (served : Bool) :
    (s.askEvidence evidence served).app.keys = s.app.keys ∧
      (s.askEvidence evidence served).app.picker = s.app.picker ∧
      (s.askEvidence evidence served).refreshCfg = s.refreshCfg ∧
      (s.askEvidence evidence served).refreshSession = s.refreshSession := by
  unfold askEvidence
  split
  case h_1 live key extId hlive hkey =>
    split
    · exact ⟨rfl, rfl, rfl, rfl⟩
    · split
      · refine ⟨?_, rfl, rfl, rfl⟩
        rw [App.keys_of_live hlive]
        exact Live.keys_mapScheduler _ _
      · exact ⟨rfl, rfl, rfl, rfl⟩
  case h_2 => exact ⟨rfl, rfl, rfl, rfl⟩

/-- A step that may open a pane, and its evidence then. -/
theorem does_opened {served : Bool} {sys : System} {opens : Bool}
    (hprelude : s.prelude env e = if opens then [.abandon .detail] else [])
    (hschedules : s.reschedules env e = none)
    (hreach : Reach (s.listed env e)
      (if opens then s.app.roster.move rules (.abandon .detail) else s.app.roster) sys.app.roster)
    (hkeys : sys.app.keys = s.app.keys) (hpicker : s.app.Cataloged env.catalog →
      ∀ picker, sys.app.picker = some picker → ∀ c ∈ picker.children, c.1 ∈ env.catalog)
    (hasks : opens = true → Roster.Reaches rules
      (Started (s.asksAbroad env evidence e = false) (s.listed env e)) sys.app.roster
        (({ s with sys } : Screen).askEvidence evidence served).roster)
    (hmode : opens = false → sys.app.mode ≠ .detail) :
    Does env evidence s e (({ s with sys } : Screen).opened evidence served) := by
  have hcataloged : s.app.Cataloged env.catalog → sys.app.Cataloged env.catalog := fun hc =>
    ⟨by rw [hkeys]; exact hc.views, hpicker hc⟩
  have hstay : (({ s with sys } : Screen).opened evidence served) = { s with sys } ∨
      opens = true ∧ (({ s with sys } : Screen).opened evidence served) =
        ({ s with sys } : Screen).askEvidence evidence served := by
    unfold opened
    split
    case isTrue hdetail =>
      refine Or.inr ⟨?_, rfl⟩
      cases hopens : opens with
      | true => rfl
      | false => exact absurd hdetail (hmode hopens)
    case isFalse => exact Or.inl rfl
  have hmoves : (s.prelude env e).foldl (Roster.move rules) s.roster =
      if opens then s.app.roster.move rules (.abandon .detail) else s.app.roster := by
    rw [hprelude]
    cases opens <;> rfl
  rcases hstay with h | ⟨hopens, h⟩ <;> rw [h]
  · refine ⟨fun _ => ?_, hcataloged, by rw [hschedules]; rfl, by rw [hschedules]; rfl⟩
    rw [hmoves]
    exact hreach.unsited _
  · obtain ⟨hk, hp, hcfg, hsession⟩ := @still_askEvidence evidence
      ({ s with sys } : Screen) served
    refine ⟨fun _ => ?_, fun hc => (hcataloged hc).same hk (Or.inl hp), by rw [hschedules, hcfg]; rfl,
      by rw [hschedules, hsession]; rfl⟩
    rw [hmoves]
    exact (hreach.unsited _).trans (hasks hopens)

theorem does_openDetail {served : Bool} (h : s.step env evidence (.openDetail served) = some t) :
    Does env evidence s (.openDetail served) t := by
  obtain ⟨s', hwithin, rfl⟩ := Option.map_eq_some_iff.1 h
  obtain ⟨sys, hsys, rfl⟩ := Option.map_eq_some_iff.1 hwithin
  simp only [System.step] at hsys
  split at hsys
  case isFalse => cases hsys
  case isTrue htable =>
    have happ : sys.app = s.app.openDetail env := by
      cases hsys
      unfold System.panned
      split <;> rfl
    have hboxes := App.boxes_openDetail env s.app
    rw [← happ] at hboxes
    refine @does_opened _ _ _ _ _ _ ((s.app.selectedExtId env).isSome) rfl rfl ?_ ?_ ?_ ?_ ?_
    · rw [happ]
      exact App.reaches_openDetail s.app
    · rw [happ, App.keys_openDetail]
    · intro hc picker hpicker
      refine hc.picker picker ?_
      rcases hboxes with ⟨-, hb⟩ | ⟨-, d, -, hb⟩
      · exact (congrArg Boxes.picker hb).symm.trans hpicker
      · exact (congrArg Boxes.picker hb).symm.trans hpicker
    · exact fun hid => reaches_opened happ hid
    · intro hnone
      rcases hboxes with ⟨-, hb⟩ | ⟨hid, -⟩
      · have hmode : sys.app.mode = s.app.mode := congrArg Boxes.mode hb
        rw [hmode, show s.app.mode = .table from htable]
        decide
      · rw [hid] at hnone
        cases hnone

theorem asksAt_startCanI (s : Screen) (served : Bool) :
    (s.mapApp App.startCanI).asksAt env evidence served = s.asksAt env evidence served := by
  have hid : (s.mapApp App.startCanI).app.selectedExtId env = s.app.selectedExtId env :=
    App.selectedExtId_startCanI env s.app
  unfold asksAt
  rw [hid]
  cases hlive : s.app.live with
  | none =>
      have hlive' : (s.mapApp App.startCanI).app.live = none := by
        show s.app.live.map _ = none
        rw [hlive]
        rfl
      rw [hlive']
  | some live =>
      have hlive' : (s.mapApp App.startCanI).app.live =
          some { live with canI := live.canI.claim.1 } := by
        show s.app.live.map _ = _
        rw [hlive]
        rfl
      have hcursor : (s.mapApp App.startCanI).app.cursor = s.app.cursor := by
        rw [App.cursor, App.cursor, hlive', hlive]
        rfl
      rw [hlive', hcursor]
      cases s.app.cursor <;> cases s.app.selectedExtId env <;> rfl

theorem does_openPicker {served : Bool} (h : s.step env evidence (.openPicker served) = some t) :
    Does env evidence s (.openPicker served) t := by
  obtain ⟨s', hwithin, rfl⟩ := Option.map_eq_some_iff.1 h
  obtain ⟨sys, hsys, rfl⟩ := Option.map_eq_some_iff.1 hwithin
  simp only [System.step] at hsys
  split at hsys
  case isFalse => cases hsys
  case isTrue htable =>
    have happ : sys.app = s.app.openPicker env := by
      cases hsys
      unfold System.panned
      split <;> rfl
    refine Does.andStill ?_ (still_over s _)
    refine @does_opened _ _ _ _ _ _ (s.app.passesPicker env) rfl rfl ?_ ?_ ?_ ?_ ?_
    · rw [happ]
      exact App.reaches_openPicker s.app
    · rw [happ, App.keys_openPicker]
    · intro hc picker hpicker
      rw [happ] at hpicker
      rcases App.boxes_openPicker env s.app with hb | ⟨d, -, hb⟩ | ⟨built, hbuilt, hb⟩
      · exact hc.picker picker ((congrArg Boxes.picker hb).symm.trans hpicker)
      · exact hc.picker picker ((congrArg Boxes.picker hb).symm.trans hpicker)
      · have heq : some built = some picker := (congrArg Boxes.picker hb).symm.trans hpicker
        cases heq
        exact App.children_of_buildPicker hbuilt
    · intro hpasses
      have hopen : sys.app = (s.mapApp App.startCanI).app.openDetail env := by
        rcases App.openPicker_cases env s.app with ⟨-, h⟩ | ⟨hnot, -⟩
        · rw [happ, h]
          rfl
        · rw [hpasses] at hnot
          cases hnot
      have hid := App.selectedExtId_of_passesPicker hpasses
      rw [← App.selectedExtId_startCanI] at hid
      have hreach := @reaches_opened _ evidence (s.mapApp App.startCanI)
        (s.listed env (.openPicker served)) served _ hopen hid
      have habroad : s.asksAbroad env evidence (.openPicker served) = s.asksAt env evidence served := by
        simp only [asksAbroad, hpasses, Bool.true_and]
      rw [habroad, ← asksAt_startCanI]
      exact hreach
    · intro hnot
      have hmode : sys.app.mode = .table ∨ sys.app.mode = .picker := by
        rw [happ]
        rcases App.openPicker_cases env s.app with ⟨hpasses, -⟩ | ⟨-, h | ⟨picker, -, h⟩⟩
        · rw [hnot] at hpasses
          cases hpasses
        · exact Or.inl (by rw [h]; exact htable)
        · exact Or.inr (by rw [h])
      rcases hmode with h | h <;> rw [h] <;> decide

theorem does_acted {i : ℕ} {outcome : Outcome} (h : s.step env evidence (.acted i outcome) = some t) :
    Does env evidence s (.acted i outcome) t := by
  obtain ⟨s', hwithin, rfl⟩ := Option.map_eq_some_iff.1 h
  obtain ⟨sys, hsys, rfl⟩ := Option.map_eq_some_iff.1 hwithin
  obtain ⟨f, hf, rfl⟩ := Option.map_eq_some_iff.1 hsys
  have hmoves : s.prelude env (.acted i outcome) = s.app.watching f.request.journal outcome := by
    simp only [prelude, hf]
  have hacted : Does env evidence s (.acted i outcome) { s with sys := { s.sys with
      app := s.sys.app.acted env f.request.journal f.request.plan.toRef outcome
      flying := s.sys.flying.eraseIdx i } } := by
    refine ⟨fun _ => ?_, fun hc => hc.same (App.keys_acted ..) ?_, rfl, rfl⟩
    · rw [hmoves]
      exact (App.reaches_acted s.app _ _ _).unsited _
    · have hboxes := App.boxes_acted env s.app f.request.journal f.request.plan.toRef outcome
      cases outcome with
      | returned value =>
          cases hlive : s.app.live with
          | none =>
              rw [hlive] at hboxes
              exact Or.inl (congrArg Boxes.picker hboxes)
          | some live =>
              rw [hlive] at hboxes
              exact Or.inr (congrArg Boxes.picker hboxes)
      | _ => exact Or.inl (congrArg Boxes.picker hboxes)
  cases outcome with
  | returned value =>
      dsimp only
      split
      · exact hacted.andStill (still_closeBoxes _)
      · exact hacted
  | _ => exact hacted

theorem does_joined {session : Session} (h : s.step env evidence (.joined session) = some t) :
    Does env evidence s (.joined session) t := by
  obtain rfl := Option.some.inj h
  refine ⟨fun _ => ?_, fun hc => hc.same (App.keys_joined s.app session)
    (Or.inl (congrArg Boxes.picker (App.boxes_joined s.app session))), rfl, rfl⟩
  have hreach : Reach (s.listed env (.joined session)) _ (s.app.joined session).roster :=
    App.reaches_joined s.app session fun live view hlive hhead htop => by
      simp only [listed, merged, front, hlive, Option.bind_some, hhead, htop, if_true,
        List.mem_singleton]
  have hmoves : (s.prelude env (.joined session)).foldl (Roster.move rules) s.roster =
      if s.app.live.isSome then (App.joining session.name).foldl (Roster.move rules) s.app.roster
      else s.app.roster := by
    dsimp only [prelude]
    split <;> rfl
  rw [hmoves]
  exact hreach.unsited _

/-- A change of every scheduler that changes its tasks, as a move of the roster. -/
theorem roster_mapSchedulers {live : Live} {own : Option ℕ} {next : ℕ}
    {g : ℕ → Subscription → Subscription} {f : Scheduler → Scheduler}
    (hf : ∀ s, (f s).tasks = s.tasks.map fun t => (t.1, g t.1 t.2)) :
    (live.mapSchedulers f).roster own next = (live.roster own next).move rules (.revise g) := by
  have hnames : (live.mapSchedulers f).peers.map Peer.name = live.peers.map Peer.name := by
    simp [Live.mapSchedulers, Function.comp_def, Peer.name]
  ext1
  · exact Set.ext fun t => Live.mem_polls_of_map hf
  · exact Set.ext fun x => Live.holds_congr rfl rfl x.1 x.2
  · rfl
  · refine Set.ext fun c => ?_
    show (Live.schedulerFor _ c).isSome = true ↔ (live.schedulerFor c).isSome = true
    rw [Live.isSome_schedulerFor_congr hnames]
  · rfl

/-- Where no session runs nothing does. -/
theorem move_revise_of_none {app : App} (hlive : app.live = none) (g : ℕ → Subscription → Subscription) :
    app.roster.move rules (.revise g) = app.roster := by
  simp only [App.roster, hlive]
  ext1
  · refine Set.ext fun t => iff_of_false ?_ id
    rintro ⟨_, h, _⟩
    exact h
  all_goals rfl

theorem roster_revise (app : App) {g : ℕ → Subscription → Subscription} {f : Scheduler → Scheduler}
    (hf : ∀ s, (f s).tasks = s.tasks.map fun t => (t.1, g t.1 t.2)) :
    (app.mapLive fun live => live.mapSchedulers f).roster = app.roster.move rules (.revise g) := by
  cases hlive : app.live with
  | none =>
      rw [move_revise_of_none hlive]
      simp only [App.mapLive, App.roster, hlive, Option.map_none]
  | some live =>
      rw [App.roster_of_live hlive, ← roster_mapSchedulers hf]
      simp only [App.mapLive, App.roster, hlive, Option.map_some]

/-- The pane polls at another rhythm, if it polls. -/
theorem toggleWatch_cases (s : Screen) (every : ℕ) :
    (s.toggleWatch every = s ∧ s.prelude env (.toggleWatch every) = []) ∨
      ∃ d sub interval, s.app.detail = some d ∧ d.sub = some sub ∧
        s.toggleWatch every = s.mapApp (fun app =>
          { app.mapLive fun live =>
              live.mapSchedulers fun scheduler => scheduler.setInterval sub interval with
            detail := some { d with watch := !d.watch } }) ∧
        s.prelude env (.toggleWatch every) =
          [.revise fun id k => if id = sub then { k with interval } else k] := by
  cases hd : s.app.detail with
  | none => exact Or.inl (by simp only [toggleWatch, prelude, hd, and_self])
  | some d =>
      cases hsub : d.sub with
      | none => exact Or.inl (by simp only [toggleWatch, prelude, hd, hsub, and_self])
      | some sub =>
          refine Or.inr ⟨d, sub, if d.watch then (d.key.map fun key => key.kind.rhythm).getD 0 else every,
            rfl, hsub, ?_, ?_⟩
          · simp only [toggleWatch, hd, hsub]
          · simp only [prelude, hd, hsub]

theorem does_toggleWatch {every : ℕ} (h : s.step env evidence (.toggleWatch every) = some t) :
    Does env evidence s (.toggleWatch every) t := by
  simp only [step] at h
  split at h
  case isFalse => cases h
  case isTrue =>
    obtain rfl := Option.some.inj h
    rcases @toggleWatch_cases env s every with
      ⟨heq, hmoves⟩ | ⟨d, sub, interval, hd, hsub, heq, hmoves⟩ <;> rw [heq]
    · refine ⟨fun _ => ?_, id, rfl, rfl⟩
      rw [hmoves]
      exact .refl
    · refine ⟨fun _ => ?_, fun hc => hc.same ?_ (Or.inl rfl), rfl, rfl⟩
      · have hroster : ∀ app : App, app.detail = some d →
            App.roster { app.mapLive fun live =>
                live.mapSchedulers fun scheduler => scheduler.setInterval sub interval with
              detail := some { d with watch := !d.watch } } =
            app.roster.move rules (.revise fun id k => if id = sub then { k with interval } else k) := by
          intro app happ
          rw [← roster_revise app (f := fun scheduler => scheduler.setInterval sub interval)]
          · refine App.roster_of_polling ?_
            simp only [App.polling, App.mapLive, happ, Option.bind_some]
          · intro scheduler
            refine List.map_congr_left fun t _ => ?_
            split <;> rfl
        rw [hmoves]
        exact .of_eq (hroster s.app hd).symm
      · exact App.keys_mapLive (f := fun live => live.mapSchedulers _) (fun _ => rfl) s.app

/-- The schedules of some kinds changed. -/
theorem reaches_retiming (s : Screen) (ks : List Kind) :
    (s.retiming ks).foldl (Roster.move rules) s.roster = (ks.foldl retime s).roster := by
  induction ks generalizing s with
  | nil => rfl
  | cons kind ks ih =>
      have hretime : (s.retime kind).roster =
          s.roster.move rules (.revise fun _ => retimed kind.id ((s.refreshOf kind).1.getD 0)) := by
        refine roster_revise s.app fun scheduler => ?_
        refine List.map_congr_left fun t _ => ?_
        unfold retimed
        split <;> rfl
      rw [List.foldl_cons, ← ih (s.retime kind), hretime]
      rfl

theorem app_save (s : Screen) (level : Schedule) (v : Interval) (file : Option Refresh) :
    (s.save level v file).app = s.app := by
  unfold save
  cases level <;> cases file <;> rfl

theorem Still.save (h : Still s t) (level : Schedule) (v : Interval) (file : Option Refresh) :
    Still (s.save level v file) (t.save level v file) := by
  refine ⟨?_, ?_, ?_⟩
  · rw [app_save, app_save]
    exact h.app
  · cases level <;> cases file <;> first | exact h.cfg | rfl
  · cases level with
    | kind id => cases file <;> exact congrArg (IndexMap.erase · id) h.session
    | _ => cases file <;> exact h.session

/-- Kinds that are retimed keep the views, the picker and the schedules. -/
theorem retimes (ks : List Kind) (s : Screen) :
    (ks.foldl retime s).app.keys = s.app.keys ∧ (ks.foldl retime s).app.picker = s.app.picker ∧
      (ks.foldl retime s).refreshCfg = s.refreshCfg ∧
      (ks.foldl retime s).refreshSession = s.refreshSession := by
  induction ks generalizing s with
  | nil => exact ⟨rfl, rfl, rfl, rfl⟩
  | cons kind ks ih =>
      obtain ⟨hkeys, hpicker, hcfg, hsession⟩ := ih (s.retime kind)
      refine ⟨hkeys.trans ?_, hpicker, hcfg, hsession⟩
      exact App.keys_mapLive (f := fun live => live.mapSchedulers _) (fun _ => rfl) s.app

theorem Still.retiming (h : Still s t) (ks : List Kind) : t.retiming ks = s.retiming ks := by
  refine List.map_congr_left fun kind _ => ?_
  rw [refreshOf, refreshOf, h.cfg, h.session]

/-- A step that changes the schedules. -/
theorem does_rescheduled {a b : Screen} {ks : List Kind} (hs : s.reschedules env e = some (a, ks))
    (hmoves : s.prelude env e = a.retiming ks) (happ : a.app = s.app) (hab : Still a b)
    (ht : Still (ks.foldl retime b) t) : Does env evidence s e t := by
  obtain ⟨hkeys, hpicker, hcfg, hsession⟩ := retimes ks b
  have hbkeys : b.app.keys = s.app.keys := hab.keys.trans (by rw [happ])
  have hbpicker : b.app.picker = s.app.picker := hab.picker.trans (by rw [happ])
  refine ⟨fun _ => ?_, fun hc => ?_, ?_, ?_⟩
  · have hroster : s.roster = b.roster := by rw [hab.roster, roster, roster, happ]
    rw [hmoves, hroster, ← hab.retiming ks, reaches_retiming, ht.roster]
    exact .refl
  · exact hc.same (ht.keys.trans (hkeys.trans hbkeys))
      (Or.inl (ht.picker.trans (hpicker.trans hbpicker)))
  · rw [hs]
    exact ht.cfg.trans (hcfg.trans hab.cfg)
  · rw [hs]
    exact ht.session.trans (hsession.trans hab.session)

theorem currentKind_of_still (h : Still s t) : t.currentKind = s.currentKind := by
  obtain ⟨mode, hmode⟩ := h.app
  simp only [currentKind, hmode]
  rfl

theorem does_stepRefresh (h : s.step env evidence .stepRefresh = some t) :
    Does env evidence s .stepRefresh t := by
  simp only [step] at h
  split at h
  case isFalse => cases h
  case isTrue =>
    obtain rfl := Option.some.inj h
    cases hkind : s.currentKind with
    | none =>
        have heq : s.stepRefresh = s := by simp only [stepRefresh, hkind]
        rw [heq]
        exact Does.ofGoes (Goes.ofStill (Still.refl s)) (by simp only [prelude, reschedules, hkind]; rfl)
          (by simp only [reschedules, hkind, Option.map_none])
    | some kind =>
        let stepped : Screen := { s with
          refreshSession := s.refreshSession.insert kind.id (refreshStep (s.refreshOf kind).1) }
        have hs : s.reschedules env .stepRefresh = some (stepped, [kind]) := by
          simp only [reschedules, hkind, Option.map_some]
          rfl
        have heq : s.stepRefresh = stepped.retime kind := by
          simp only [stepRefresh, hkind]
          rfl
        rw [heq]
        exact does_rescheduled hs (by simp only [prelude, hs]) rfl (Still.refl stepped) (Still.refl _)

theorem does_choose {c : Command} (h : s.step env evidence (.choose c) = some t) :
    Does env evidence s (.choose c) t := by
  simp only [step] at h
  split at h
  case isFalse => cases h
  case isTrue =>
    obtain rfl := Option.some.inj h
    by_cases hc : ∀ v, c ≠ .refresh (some v)
    · refine Does.ofGoes (goes_choose hc ?_) ?_ ?_
      · rintro hup t rfl k hk
        simpa only [listed, hup, if_true] using hk
      · cases c with
        | refresh value => cases value with
          | none => rfl
          | some v => exact absurd rfl (hc v)
        | _ => rfl
      · cases c with
        | refresh value => cases value with
          | none => rfl
          | some v => exact absurd rfl (hc v)
        | _ => rfl
    · obtain ⟨⟨v, file⟩, rfl⟩ := not_forall_not.1 hc
      have hstill := still_dismiss s .command
      by_cases hup : s.up .command = true
      · have hchoose : s.choose env (.refresh (some (v, file))) =
            (s.dismiss .command).refreshCommand v file := by
          simp only [choose, if_pos hup]
          rfl
        rw [hchoose, refreshCommand, currentKind_of_still hstill]
        cases hkind : s.currentKind with
        | none =>
            exact Does.ofGoes (Goes.ofStill hstill)
              (by simp only [prelude, reschedules, hup, if_true, hkind, Option.map_none])
              (by simp only [reschedules, hup, if_true, hkind, Option.map_none])
        | some kind =>
            have hs : s.reschedules env (.choose (.refresh (some (v, file)))) =
                some (s.save (.kind kind.id) v file, [kind]) := by
              simp only [reschedules, hup, if_true, hkind, Option.map_some]
            exact does_rescheduled hs (by simp only [prelude, hs]) (app_save ..)
              (hstill.save (.kind kind.id) v file) (Still.refl _)
      · have hchoose : s.choose env (.refresh (some (v, file))) = s := by
          simp only [choose, if_neg hup]
        rw [hchoose]
        exact Does.ofGoes (Goes.ofStill (Still.refl s))
          (by simp only [prelude, reschedules, if_neg hup])
          (by simp only [reschedules, if_neg hup])

theorem does_setting {key : SettingsKey} (h : s.step env evidence (.setting key) = some t) :
    Does env evidence s (.setting key) t := by
  simp only [step] at h
  split at h
  case isFalse => cases h
  case isTrue =>
    obtain rfl := Option.some.inj h
    cases key with
    | cycle level file =>
        by_cases hup : s.up .settings = true
        · have heq : s.setting env (.cycle level file) =
              s.setSchedule env level (s.nextRung env level) file := by
            simp only [setting, if_pos hup]
          rw [heq]
          exact does_rescheduled (by simp only [reschedules, hup, if_true])
            (by simp only [prelude, reschedules, hup, if_true]) (app_save ..) (Still.refl _)
            (still_reopenSettings _)
        · have heq : s.setting env (.cycle level file) = s := by simp only [setting, if_neg hup]
          rw [heq]
          exact Does.ofGoes (Goes.ofStill (Still.refl s))
            (by simp only [prelude, reschedules, if_neg hup]) (by simp only [reschedules, if_neg hup])
    | _ => exact Does.ofGoes (goes_setting nofun) rfl rfl

theorem does_chooseRung {v : Interval} {file : Option Refresh}
    (h : s.step env evidence (.chooseRung v file) = some t) :
    Does env evidence s (.chooseRung v file) t := by
  simp only [step] at h
  split at h
  case isFalse => cases h
  case isTrue =>
    obtain rfl := Option.some.inj h
    cases hladder : s.ladder with
    | none =>
        have heq : s.chooseRung env v file = s := by simp only [chooseRung, hladder]
        rw [heq]
        exact Does.ofGoes (Goes.ofStill (Still.refl s))
          (by simp only [prelude, reschedules, hladder, Option.map_none])
          (by simp only [reschedules, hladder, Option.map_none])
    | some level =>
        have heq : s.chooseRung env v file =
            ({ s with ladder := none }.show (.box .settings)).setSchedule env level v file := by
          simp only [chooseRung, hladder]
        have hclosed : Still s { s with ladder := none } := ⟨⟨s.app.mode, rfl⟩, rfl, rfl⟩
        have hstill := hclosed.andShow (.box .settings)
        rw [heq]
        exact does_rescheduled (by simp only [reschedules, hladder, Option.map_some])
          (by simp only [prelude, reschedules, hladder, Option.map_some]) (app_save ..)
          (hstill.save level v file) (still_reopenSettings _)

/-- **A step of the screen is its prelude and orderly moves of the polls.** -/
theorem does_step {s t : Screen} {e : Event} (h : s.step env evidence e = some t) :
    Does env evidence s e t := by
  cases e with
  | plain e =>
      simp only [step] at h
      split at h
      case isFalse => cases h
      case isTrue he =>
        obtain ⟨s', hwithin, rfl⟩ := Option.map_eq_some_iff.1 h
        exact (Does.ofGoes (goes_plain (Bool.and_eq_true_iff.1 he).1 hwithin fun _ hk => hk) rfl rfl).andStill
          (still_over s s')
  | acted i outcome => exact does_acted h
  | esc => exact Does.ofGoes (goes_esc h) rfl rfl
  | openDetail served => exact does_openDetail h
  | openPicker served => exact does_openPicker h
  | choose c => exact does_choose h
  | setting key => exact does_setting h
  | chooseRung v file => exact does_chooseRung h
  | stepRefresh => exact does_stepRefresh h
  | toggleWatch every => exact does_toggleWatch h
  | joined session => exact does_joined h
  | help =>
      simp only [step] at h
      split at h <;> cases h
      exact Does.ofGoes (Goes.ofStill (still_enter s _)) rfl rfl
  | openPalette =>
      simp only [step] at h
      split at h <;> cases h
      exact Does.ofGoes (Goes.ofStill (still_enter s _)) rfl rfl
  | openTarget target =>
      simp only [step] at h
      split at h <;> cases h
      exact Does.ofGoes (goes_openRoot fun _ hk => hk) rfl rfl
  | showContexts =>
      simp only [step] at h
      split at h <;> cases h
      exact Does.ofGoes (Goes.ofStill (still_show s _)) rfl rfl
  | showSettings =>
      simp only [step] at h
      split at h <;> cases h
      exact Does.ofGoes (Goes.ofStill (still_enter s _)) rfl rfl
  | openHit kind =>
      simp only [step] at h
      split at h <;> cases h
      have hstill := still_dismiss s .search
      refine Does.ofGoes ((Goes.ofStill hstill).trans (goes_openRoot fun k hk => ?_)) rfl rfl
      rw [opening, opens_of_still hstill] at hk
      exact hk
  | onContexts key =>
      simp only [step] at h
      split at h <;> cases h
      exact Does.ofGoes (goes_onContexts s _ key) rfl rfl
  | openRefPicker kind =>
      simp only [step] at h
      split at h <;> cases h
      exact Does.ofGoes (goes_openRefPicker s kind) rfl rfl
  | choseRef field extId =>
      simp only [step] at h
      split at h <;> cases h
      exact Does.ofGoes (goes_closeRefPicker s _) rfl rfl
  | connected session was home =>
      simp only [step] at h
      split at h <;> cases h
      exact Does.ofGoes (goes_connected fun _ hk => hk) rfl rfl
  | connectFailed =>
      simp only [step] at h
      split at h <;> cases h
      exact Does.ofGoes (Goes.ofStill (still_connectFailed s)) rfl rfl
  | poll sub now u refused =>
      obtain rfl := Option.some.inj h
      exact Does.ofGoes (goes_poll s sub now u refused) rfl rfl
  | done sub =>
      obtain rfl := Option.some.inj h
      exact Does.ofGoes (goes_done s sub) rfl rfl
  | tick heights =>
      obtain rfl := Option.some.inj h
      exact Does.ofGoes (goes_tick fun _ hk => hk) rfl rfl

end Screen

end Nutsh
