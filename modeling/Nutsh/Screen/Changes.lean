/-
What each change of the application does to its polls.

* `App.polling`, `App.roster_of_polling` — what the roster is read from, kept by the action pipeline;
* `App.reaches_closeModals`, `App.reaches_pushView`, `App.reaches_openRoot`, `App.reaches_openPage`,
  `App.reaches_pop`, `App.reaches_pickChild` — the views;
* `App.reaches_attach`, `App.reaches_keepPeers` — the sessions;
* `App.reaches_refreshRow`, `App.reaches_poll` — what comes in.
-/
import Nutsh.Screen.Polls
import Nutsh.System.Sending

set_option relaxedAutoImplicit false
set_option autoImplicit false

namespace Nutsh

/-- What the polls of a session are read from. -/
def Live.polling (live : Live) : Scheduler × List Peer × (String → Option ℕ) × List View :=
  (live.scheduler, live.peers, live.tasks.subOf, live.stack.map View.bare)

theorem Live.same_of_polling {live live' : Live} (h : live'.polling = live.polling) :
    Live.Same live live' := by
  simp only [Live.polling, Prod.mk.injEq] at h
  obtain ⟨hscheduler, hpeers, htasks, hstack⟩ := h
  refine ⟨fun t => ?_, hstack, htasks, by rw [hpeers]⟩
  rw [Live.mem_polls, Live.mem_polls, hscheduler, hpeers]

namespace App

variable {env : Env} {app app' : App} {live : Live} {kinds : List Kind}

/-- What the polls are read from. -/
def polling (app : App) :
    Option (Scheduler × List Peer × (String → Option ℕ) × List View) × Option ℕ × ℕ :=
  (app.live.map Live.polling, app.detail.bind Detail.sub, app.nextSub)

theorem roster_of_live (h : app.live = some live) :
    app.roster = live.roster (app.detail.bind Detail.sub) app.nextSub := by
  rw [roster, h]

theorem roster_of_polling (h : app'.polling = app.polling) : app'.roster = app.roster := by
  simp only [polling, Prod.mk.injEq] at h
  obtain ⟨hlive, hdetail, hnext⟩ := h
  cases ha : app.live with
  | none =>
      rw [ha, Option.map_none, Option.map_eq_none_iff] at hlive
      rw [roster, roster, ha, hlive, hdetail, hnext]
  | some live =>
      rw [ha, Option.map_some, Option.map_eq_some_iff] at hlive
      obtain ⟨live', ha', hlive⟩ := hlive
      rw [roster_of_live ha, roster_of_live ha', hdetail, hnext]
      exact (Live.same_of_polling hlive).roster

/-! ### The pipeline -/

theorem polling_mapLive {f : Live → Live} (hf : ∀ live, (f live).polling = live.polling) :
    (app.mapLive f).polling = app.polling := by
  unfold polling mapLive
  cases app.live with
  | none => rfl
  | some live => exact congrArg (fun p => (some p, _, _)) (hf live)

/-- The views changed in what is not polled. -/
theorem polling_modifyHead {f : View → View} (hf : ∀ v, (f v).bare = v.bare) (live : Live) :
    Live.polling { live with stack := live.stack.modifyHead f } = live.polling := by
  unfold Live.polling
  cases live.stack with
  | nil => rfl
  | cons v rest => simp [List.modifyHead, hf]

@[simp] theorem polling_startCanI (app : App) : app.startCanI.polling = app.polling :=
  polling_mapLive fun _ => rfl

@[simp] theorem polling_journalRefusal (app : App) (action : Action)
    (subjects : List (String × String)) (why : String) :
    (app.journalRefusal action subjects why).polling = app.polling := by
  refine polling_mapLive fun live => ?_
  split <;> rfl

theorem polling_runPending (app : App) : (app.runPending env).1.polling = app.polling := by
  unfold runPending
  split
  · rfl
  · simp only
    split
    · rfl
    case h_2 live hlive =>
      split
      · rfl
      · have happ : app.live = some live := hlive
        simp only [polling, happ, Option.map_some]
        refine congrArg (fun p => (some p, _, _)) ?_
        split
        · refine polling_modifyHead (fun v => ?_) live
          cases v <;> rfl
        · rfl

theorem polling_confirmOrRun (app : App) : (app.confirmOrRun env).1.polling = app.polling := by
  unfold confirmOrRun
  split
  · rfl
  · split
    · exact polling_journalRefusal { app with pending := none } _ _ _
    · split
      · rfl
      · split
        · rfl
        · split
          · rfl
          · exact polling_runPending app
          · rfl

theorem polling_of_pend_ok {action : Action} (h : app.pend env action = .ok app') :
    app'.polling = app.polling := by
  obtain ⟨-, body, rfl⟩ := pend_eq_ok h
  exact polling_startCanI app

theorem polling_of_pend_error {action : Action} (h : app.pend env action = .error app') :
    app'.polling = app.polling := by
  unfold pend at h
  dsimp only at h
  split at h
  · cases h
    exact (polling_journalRefusal app.startCanI _ _ _).trans (polling_startCanI app)
  split at h
  · cases h
    exact polling_startCanI app
  split at h
  · cases h
    exact polling_startCanI app
  · cases h

theorem polling_start (app : App) (action : Action) :
    (app.start env action).1.polling = app.polling := by
  rcases start_cases env app action with ⟨app', hpend, h⟩ |
    ⟨app', p, hpend, -, ⟨-, h⟩ | ⟨-, h⟩⟩ <;> rw [h]
  · exact polling_of_pend_error hpend
  · have hform : (app'.openForm env p).polling = app'.polling := rfl
    exact hform.trans (polling_of_pend_ok hpend)
  · exact (polling_confirmOrRun app').trans (polling_of_pend_ok hpend)

theorem polling_submitForm (app : App) : (app.submitForm env).1.polling = app.polling := by
  unfold submitForm
  split
  · refine (polling_confirmOrRun app.submitted).trans ?_
    unfold submitted
    split <;> rfl
  · rfl

theorem polling_openMenu (app : App) : (app.openMenu env).polling = app.polling := by
  unfold openMenu
  dsimp only
  split
  · exact polling_startCanI app
  · split
    · exact polling_startCanI app
    · exact polling_startCanI app

/-- The keys of a table that move the cursor and change how it is drawn. -/
theorem polling_mapTop {table : TableView → TableView} {pane : Pane → Pane}
    (ht : ∀ t, (View.table (table t)).bare = (View.table t).bare)
    (hp : ∀ p, (pane p).key = p.key ∧ (pane p).sub = p.sub) (live : Live) :
    (live.mapTop table pane).polling = live.polling := by
  refine polling_modifyHead (fun v => ?_) live
  cases v with
  | table t => exact ht t
  | page page =>
      simp only [View.bare, View.page.injEq, PageView.mk.injEq, and_true]
      refine List.ext_getElem? fun i => ?_
      rw [List.getElem?_map, List.getElem?_map, List.getElem?_modify]
      cases page.panes[i]? with
      | none => rfl
      | some p => by_cases h : page.focus = i <;> simp [h, hp]

theorem polling_move (live : Live) (m : Move) : (live.move m).polling = live.polling :=
  polling_mapTop (fun _ => by rfl) (fun _ => by exact ⟨rfl, rfl⟩) live

theorem polling_clampSelection (live : Live) : live.clampSelection.polling = live.polling := by
  unfold Live.clampSelection
  split <;> simp_all [Live.polling, View.bare, Function.comp_def]

theorem polling_browse {b : Browse}
    (hroot : ∀ kind, b ≠ .openRoot kind) (hpage : ∀ panes, b ≠ .openPage panes)
    (hfocused : b ≠ .openFocused) (hpop : b ≠ .pop) : (app.browse env b).polling = app.polling := by
  cases b with
  | openRoot kind => exact absurd rfl (hroot kind)
  | openPage panes => exact absurd rfl (hpage panes)
  | openFocused => exact absurd rfl hfocused
  | pop => exact absurd rfl hpop
  | move m => exact polling_mapLive fun live => polling_move live m
  | toggleMark =>
      show (app.toggleMark env).polling = app.polling
      unfold toggleMark
      split
      · rfl
      · refine polling_mapLive fun live => (polling_move _ _).trans ?_
        exact polling_mapTop (fun _ => by rfl) (fun _ => by exact ⟨rfl, rfl⟩) live
  | clearMarks =>
      exact polling_mapLive fun live => polling_mapTop (fun _ => by rfl) (fun _ => by exact ⟨rfl, rfl⟩) live
  | filter keeps =>
      refine polling_mapLive fun live => ?_
      have h : (live.mapTop (fun view => { view with filter := keeps }) id).polling = live.polling :=
        polling_mapTop (fun _ => by rfl) (fun _ => by exact ⟨rfl, rfl⟩) live
      show Live.polling (if keeps.isSome = true then _ else _) = live.polling
      split
      · exact (polling_clampSelection _).trans h
      · exact h
  | cycleSort =>
      exact polling_mapLive fun live => polling_mapTop (fun _ => by rfl) (fun _ => by exact ⟨rfl, rfl⟩) live
  | toggleWide =>
      exact polling_mapLive fun live => polling_mapTop (fun _ => by rfl) (fun _ => by exact ⟨rfl, rfl⟩) live
  | focus pane =>
      refine polling_mapLive fun live => polling_modifyHead (fun v => ?_) live
      cases v with
      | table t => rfl
      | page page =>
          simp only
          split <;> rfl
  | leave => rfl
  | back => rfl

/-! ### The views -/

theorem reaches_closeDetail (app : App) : Reach kinds app.roster app.closeDetail.roster := by
  cases hlive : app.live with
  | none =>
      have h : app.closeDetail.roster = app.roster.move rules (.release {.detail}) := by
        have hclosed : app.closeDetail.live = none ∧ app.closeDetail.detail = none ∧
            app.closeDetail.nextSub = app.nextSub := by
          unfold closeDetail
          cases app.detail.bind Detail.sub <;> simp [hlive]
        obtain ⟨hlive', hdetail, hnext⟩ := hclosed
        rw [roster, hlive', roster, hlive]
        ext1
        · exact Set.ext fun t => iff_of_false id And.left
        · refine Set.ext fun x => iff_of_false ?_ fun h => h.2 h.1.1
          rintro ⟨-, h⟩
          rw [hdetail] at h
          cases h
        · exact Set.ext fun n => iff_of_false id And.left
        · rfl
        · exact hnext
      rw [h]
      exact .single trivial
  | some live =>
      rw [roster_of_live hlive]
      cases hsub : app.detail.bind Detail.sub with
      | none =>
          have h : app.closeDetail.roster = live.roster none app.nextSub := by
            unfold roster closeDetail
            simp [hlive, hsub]
          rw [h]
          exact .refl
      | some sub =>
          have h : app.closeDetail.roster = (live.unsubscribeAny sub).roster none app.nextSub := by
            unfold roster closeDetail
            simp [hlive, hsub]
          rw [h]
          have hended := Live.ended_unsubscribeAny [sub] live
          refine Live.reaches_release {.detail} ?_ ?_ ?_ hended.names
          · intro t
            simp [Live.Holds, eq_comm]
          · intro o id
            cases o <;> simp [Live.Holds, Live.unsubscribeAny]
          · intro o c id
            refine iff_self_and.2 fun h => ?_
            rintro rfl
            obtain ⟨i, -, -, hi⟩ := Live.height_of_stands (n := 0) h
            cases hi

theorem reaches_closeModals (app : App) : Reach kinds app.roster app.closeModals.roster :=
  reaches_closeDetail
    { app with picker := none, menu := none, confirm := none, form := none, pending := none }

@[simp] theorem detail_closeModals (app : App) : app.closeModals.detail = none := rfl

@[simp] theorem nextSub_closeModals (app : App) : app.closeModals.nextSub = app.nextSub := rfl

theorem isSome_live_closeModals (app : App) :
    app.closeModals.live.isSome = app.live.isSome := by
  unfold closeModals closeDetail
  dsimp only
  split <;> simp

@[simp] theorem kind_of_viewKey (kind : Kind) (parents : List String) (context : Option String) :
    (viewKey kind parents context).kind = kind := by
  cases context <;> rfl

/-- A table pushed over the stack, listed from its context and, if it is a top-level table, from every
context. -/
theorem reaches_pushView (app : App) (live : Live) {kind : Kind} {parents : List String}
    {context : Option String}
    (hkind : (live.schedulerFor (viewKey kind parents context).context).isSome = true → kind ∈ kinds)
    (parentName : Option String) :
    Reach kinds (live.roster (app.detail.bind Detail.sub) app.nextSub)
      (app.pushView live kind parents parentName context).roster := by
  unfold pushView
  dsimp only
  split
  · exact .refl
  · case isFalse hjoined =>
    have hc : (live.schedulerFor (viewKey kind parents context).context).isSome = true := by
      simpa [Option.isSome_iff_ne_none] using hjoined
    have hkind := hkind hc
    have hnames : (releaseTop live).peers.map Peer.name = live.peers.map Peer.name := by
      unfold releaseTop
      split
      · exact (Live.ended_unsubscribeAny _ live).names
      · rfl
    have hrelease := @Live.reaches_releaseTop (app.detail.bind Detail.sub) app.nextSub kinds live
    refine hrelease.trans ?_
    have hpush := @Live.reaches_pushTable (releaseTop live)
      ((releaseTop live).mapScheduler (viewKey kind parents context).context
        fun s => s.subscribe app.nextSub { key := viewKey kind parents context })
      (app.detail.bind Detail.sub) _ kinds
      { key := viewKey kind parents context, sub := app.nextSub, parentName }
      (fun x => Live.mem_polls_subscribe (by rw [Live.isSome_schedulerFor_congr hnames]; exact hc))
      (congrArg TaskIndex.subOf (Live.tasks_mapScheduler _ _)) (Live.names_mapScheduler _ _) rfl rfl
      (by simpa using hkind)
    rw [Live.stack_mapScheduler]
    refine hpush.trans ?_
    exact Live.reaches_subscribePeers fun view hview _ => by
      cases hview
      simpa using hkind

theorem reaches_openRoot (app : App) {kind : Kind} (hkind : kind ∈ kinds) :
    Reach kinds app.roster (app.openRoot env kind).roster := by
  unfold openRoot
  split
  · exact .refl
  · split
    · exact .refl
    · split
      · exact .refl
      case h_2 live hlive =>
        refine (reaches_closeModals app).trans ?_
        rw [roster_of_live hlive]
        exact (Live.reaches_drainStack live).trans
          (@reaches_pushView _ app.closeModals live.drainStack _ [] none (fun _ => hkind) none)

theorem reaches_openFocused (app : App)
    (hkind : ∀ live page pane, app.live = some live → live.stack.head? = some (.page page) →
      page.panes[page.focus]? = some pane →
      (pane.reason.or (pane.key.kind.reach env.catalog).reason).isSome = false →
      pane.key.kind ∈ kinds) :
    Reach kinds app.roster (app.openFocused env).roster := by
  unfold openFocused
  split
  · exact .refl
  case h_2 live hlive =>
    split
    case h_1 page hpage =>
      split
      · exact .refl
      case h_2 pane hpane =>
        split
        · exact .refl
        case isFalse hreason =>
          rw [roster_of_live hlive]
          exact reaches_pushView app live
            (fun _ => hkind live page pane hlive hpage hpane (by simpa using hreason)) _
    case h_2 => exact .refl

/-- The panes of a page as it is opened. -/
def panesOf (defs : List PaneDef) : List Pane :=
  defs.map fun d =>
    { key := TableKey.filtered d.kind d.filter, columns := d.columns, reason := d.reason }

/-- A page that does not poll on an empty stack. -/
theorem same_pushPage {own : Option ℕ} {next : ℕ} {panes : List Pane} {focus : ℕ}
    (hstack : live.stack = []) (hpanes : ∀ pane ∈ panes, pane.sub = none) :
    { live with stack := [.page { panes, focus }] }.roster own next = live.roster own next := by
  have hnone : ∀ o id, ¬ (View.page { panes, focus }).Holds 0 o id := by
    intro o id h
    cases o with
    | pane h' i =>
        obtain ⟨pane, hpane, hsub⟩ := Option.bind_eq_some_iff.1 h.2
        rw [hpanes pane (List.mem_of_getElem? hpane)] at hsub
        cases hsub
    | _ => exact h.elim
  ext1
  · rfl
  · refine Set.ext fun x => ?_
    obtain ⟨o, id⟩ := x
    show Live.Holds _ own o id ↔ live.Holds own o id
    cases o with
    | detail => exact Iff.rfl
    | watch task => exact Iff.rfl
    | _ => simp [Live.Holds, hstack, onStack, hnone]
  · refine Set.ext fun n => ?_
    show onStack _ _ ↔ onStack _ live.stack
    rw [hstack]
    simp [onStack, View.Stands]
  · rfl
  · rfl

theorem reaches_openPage (app : App) {defs : List PaneDef}
    (hkinds : app.live.isSome = true → ∀ d ∈ defs, d.reason = none → d.kind ∈ kinds) :
    Reach kinds app.roster (app.openPage defs).roster := by
  unfold openPage
  refine (reaches_closeModals app).trans ?_
  dsimp only
  split
  · exact .refl
  case h_2 live hlive =>
    have happ : app.live.isSome = true := by
      rw [← isSome_live_closeModals, hlive]
      rfl
    rw [roster_of_live hlive]
    refine (Live.reaches_drainStack live).trans ?_
    have hpanes := @Live.reaches_subscribePanes (app.closeModals.detail.bind Detail.sub) kinds
      (fun pane => pane.reason.isNone) 0 [] (panesOf defs) live.drainStack []
      app.closeModals.nextSub (by
        intro pane hpane _ hserved
        obtain ⟨d, hd, rfl⟩ := List.mem_map.1 hpane
        exact ⟨rfl, hkinds happ d hd (by simpa using hserved)⟩)
    rw [List.nil_append, same_pushPage rfl (by
      intro pane hpane
      obtain ⟨d, -, rfl⟩ := List.mem_map.1 hpane
      rfl)] at hpanes
    exact hpanes

/-- The top view closed; the panes of the page below are polled again. -/
theorem reaches_pop (app : App)
    (hkinds : ∀ live v page rest, app.live = some live → live.stack = v :: .page page :: rest →
      ∀ pane ∈ page.panes, pane.sub = none → pane.reason = none →
        pane.key.context = none ∧ pane.key.kind ∈ kinds) :
    Reach kinds app.roster app.pop.roster := by
  unfold pop
  split
  · exact .refl
  case h_2 live hlive =>
    split
    case h_1 v next rest hstack =>
      dsimp only
      have hended : Live.Ended ([v].flatMap View.subs) live
          { live with stack := [v] }.drainStack := by
        have h := Live.ended_drainViews [v] { live with stack := [v] }
        exact ⟨h.polls, h.tasks, h.names⟩
      have hdrain := @Live.reaches_drain _ _ (app.detail.bind Detail.sub) app.nextSub kinds [v]
        (next :: rest) hstack hended
      rw [roster_of_live hlive]
      refine hdrain.trans ?_
      split
      case h_1 => exact .refl
      case h_2 page =>
        have hpanes := @Live.reaches_subscribePanes (app.detail.bind Detail.sub) kinds
          (fun pane => pane.reason.isNone) page.focus rest page.panes
          { { live with stack := [v] }.drainStack with stack := .page page :: rest } [] app.nextSub
          (fun pane hpane hsub hserved =>
            hkinds live v page rest hlive hstack pane hpane hsub (by simpa using hserved))
        exact hpanes
    case h_2 => exact .refl

/-! ### The pane and the picker -/

theorem move_abandon_detail (live : Live) (own : Option ℕ) (next : ℕ) :
    (live.roster own next).move rules (.abandon .detail) = live.roster none next := by
  ext1
  · rfl
  · refine Set.ext fun x => ?_
    obtain ⟨o, id⟩ := x
    show live.Holds own o id ∧ o ≠ .detail ↔ live.Holds none o id
    cases o <;> simp [Live.Holds]
  · rfl
  · rfl
  · rfl

/-- The key of the row of an id in a view over a key. -/
def rowKey (key : TableKey) (id : String) : TableKey :=
  match (splitRowId id).1 with
  | some name => key.inContext name
  | none => key

theorem selectedExtId_startCanI (env : Env) (app : App) :
    app.startCanI.selectedExtId env = app.selectedExtId env := by
  unfold selectedExtId startCanI mapLive
  cases app.live <;> rfl

@[simp] theorem kind_rowKey (key : TableKey) (id : String) : (rowKey key id).kind = key.kind := by
  unfold rowKey
  split <;> rfl

/-- What opening a pane comes to: nothing where there is no row, else a pane that polls where its kind
has a single read and its context is joined. -/
theorem openDetail_cases (env : Env) (app : App) :
    app.selectedExtId env = none ∧ app.openDetail env = app.startCanI ∨
      ∃ live c id, app.startCanI.live = some live ∧ live.cursor = some c ∧
        app.selectedExtId env = some id ∧
        ((rowKey c.key id).kind.getPath.isSome = true ∧
            (live.schedulerFor (rowKey c.key id).context).isSome = true ∧
            app.openDetail env = { app.startCanI with
              live := some (live.mapScheduler (rowKey c.key id).context fun s =>
                s.subscribe app.nextSub
                  { key := rowKey c.key id, single := some (splitRowId id).2 }),
              nextSub := app.nextSub + 1,
              detail := some {
                key := some (rowKey c.key id), extId := (splitRowId id).2, sub := some app.nextSub },
              mode := .detail } ∨
          app.openDetail env = { app.startCanI with
            live := some live,
            detail := some { key := some (rowKey c.key id), extId := (splitRowId id).2 },
            mode := .detail }) := by
  cases hlive : app.startCanI.live with
  | none =>
      refine Or.inl ⟨?_, by simp only [openDetail, hlive]⟩
      rw [← selectedExtId_startCanI, selectedExtId, hlive]
      rfl
  | some live =>
      have hsel : app.selectedExtId env = live.selectedExtId env app.now := by
        rw [← selectedExtId_startCanI, selectedExtId, hlive]
        rfl
      cases hc : live.cursor with
      | none =>
          refine Or.inl ⟨?_, by simp only [openDetail, hlive, hc]⟩
          rw [hsel, Live.selectedExtId, hc]
          rfl
      | some c =>
          cases hid : live.selectedExtId env app.now with
          | none =>
              have hid' : live.selectedExtId env app.startCanI.now = none := hid
              exact Or.inl ⟨hsel.trans hid, by simp only [openDetail, hlive, hc, hid']⟩
          | some id =>
              have hid' : live.selectedExtId env app.startCanI.now = some id := hid
              refine Or.inr ⟨live, c, id, rfl, hc, hsel.trans hid, ?_⟩
              have hopen : app.openDetail env =
                  { app.startCanI with
                    live := some (
                      if (rowKey c.key id).kind.getPath.isSome &&
                        (live.schedulerFor (rowKey c.key id).context).isSome then
                        live.mapScheduler (rowKey c.key id).context fun s =>
                          s.subscribe app.nextSub
                            { key := rowKey c.key id, single := some (splitRowId id).2 }
                      else live),
                    nextSub :=
                      if (rowKey c.key id).kind.getPath.isSome &&
                        (live.schedulerFor (rowKey c.key id).context).isSome then app.nextSub + 1
                      else app.nextSub,
                    detail := some {
                      key := some (rowKey c.key id), extId := (splitRowId id).2,
                      sub :=
                        if (rowKey c.key id).kind.getPath.isSome &&
                          (live.schedulerFor (rowKey c.key id).context).isSome then some app.nextSub
                        else none },
                    mode := .detail } := by
                simp only [openDetail, hlive, hc, hid']
                rfl
              cases hpolls : (rowKey c.key id).kind.getPath.isSome &&
                (live.schedulerFor (rowKey c.key id).context).isSome with
              | true =>
                  obtain ⟨hget, hjoined⟩ := Bool.and_eq_true_iff.1 hpolls
                  exact Or.inl ⟨hget, hjoined, by rw [hopen, hpolls]; rfl⟩
              | false =>
                  exact Or.inr (by rw [hopen, hpolls]; rfl)

/-- A pane that is opened forgets the one that was open. -/
theorem reaches_openDetail (app : App) :
    Reach kinds
      (if (app.selectedExtId env).isSome then app.roster.move rules (.abandon .detail) else app.roster)
      (app.openDetail env).roster := by
  rw [← roster_of_polling (polling_startCanI app)]
  rcases openDetail_cases env app with ⟨hid, hopen⟩ | ⟨live, c, id, hlive, -, hid, hopen⟩
  · rw [hid, hopen]
    exact .refl
  · rw [hid, Option.isSome_some, if_pos rfl, roster_of_live hlive, move_abandon_detail]
    rcases hopen with ⟨-, hjoined, hopen⟩ | hopen
    · rw [hopen]
      refine Live.reaches_acquire (k := { key := rowKey c.key id, single := some (splitRowId id).2 })
        .detail false (fun t => Live.mem_polls_subscribe hjoined) ?_ ?_ (Live.names_mapScheduler _ _)
        ⟨nofun, rfl, nofun, fun _ => rfl, nofun⟩
      · intro o id
        cases o with
        | detail => simp [Live.Holds, startCanI, mapLive, eq_comm]
        | _ => simp [Live.Holds]
      · intro o c' id
        simp [Live.Stands]
    · rw [hopen]
      exact .refl

/-- Whether Enter opens the pane, there being nothing to pick. -/
def passesPicker (env : Env) (app : App) : Bool :=
  (app.startCanI.buildPicker env).any fun picker => picker.children.isEmpty && picker.actions.isEmpty

theorem selectedExtId_of_passesPicker {app : App} (h : app.passesPicker env = true) :
    (app.selectedExtId env).isSome = true := by
  rw [← selectedExtId_startCanI]
  unfold passesPicker buildPicker at h
  unfold selectedExtId
  cases hlive : app.startCanI.live with
  | none => rw [hlive] at h; cases h
  | some live =>
      rw [hlive] at h
      cases hid : live.selectedExtId env app.startCanI.now with
      | none => cases hc : live.cursor <;> simp [hc, hid] at h
      | some id => simp [hid]

/-- Enter on a row opens the picker or the pane. -/
theorem openPicker_cases (env : Env) (app : App) :
    (app.passesPicker env = true ∧ app.openPicker env = app.startCanI.openDetail env) ∨
      (app.passesPicker env = false ∧
        (app.openPicker env = app.startCanI ∨
          ∃ picker, app.startCanI.buildPicker env = some picker ∧
            app.openPicker env = { app.startCanI with picker := some picker, mode := .picker })) := by
  cases hpicker : app.startCanI.buildPicker env with
  | none =>
      exact Or.inr ⟨by simp only [passesPicker, hpicker, Option.any_none],
        Or.inl (by simp only [openPicker, hpicker])⟩
  | some picker =>
      cases hempty : picker.children.isEmpty && picker.actions.isEmpty with
      | true =>
          exact Or.inl ⟨by simp only [passesPicker, hpicker, Option.any_some, hempty],
            by simp only [openPicker, hpicker, hempty, if_true]⟩
      | false =>
          refine Or.inr ⟨by simp only [passesPicker, hpicker, Option.any_some, hempty],
            Or.inr ⟨picker, rfl, ?_⟩⟩
          simp only [openPicker, hpicker, hempty, Bool.false_eq_true, if_false]

theorem reaches_openPicker (app : App) :
    Reach kinds
      (if app.passesPicker env then app.roster.move rules (.abandon .detail) else app.roster)
      (app.openPicker env).roster := by
  have hstart : app.startCanI.roster = app.roster := roster_of_polling (polling_startCanI app)
  rcases openPicker_cases env app with ⟨hpasses, hopen⟩ | ⟨hpasses, hopen | ⟨picker, -, hopen⟩⟩
  · have h := @reaches_openDetail env kinds app.startCanI
    rw [selectedExtId_startCanI, selectedExtId_of_passesPicker hpasses, if_pos rfl, hstart] at h
    rw [hpasses, if_pos rfl, hopen]
    exact h
  · rw [hpasses, hopen, hstart]
    exact .refl
  · rw [hpasses, hopen]
    exact hstart ▸ .refl

/-- A child listed under the row of the picker. -/
theorem reaches_pickChild (app : App) {child : Kind}
    (hkind : ∀ picker live, app.picker = some picker →
      (picker.children.find? fun c => c.1 == child).bind Prod.snd = none → app.live = some live →
      (live.schedulerFor (viewKey child (childParents live ++ [picker.parentExtId])
        (app.childContext env live)).context).isSome = true → child ∈ kinds) :
    Reach kinds app.roster (app.pickChild env child).roster := by
  unfold pickChild
  split
  · exact .refl
  case h_2 picker hpicker =>
    dsimp only
    split
    · exact .refl
    case h_2 hwhy =>
      split
      · exact .refl
      case h_2 live hlive =>
        rw [roster_of_live hlive]
        exact reaches_pushView { app with picker := none, mode := .table } live
          (hkind picker live hpicker hwhy hlive) _

/-! ### The sessions -/

theorem reaches_attach (app : App) (session : Session) :
    Reach kinds app.roster (app.attach session).roster := by
  refine (reaches_closeModals app).trans ?_
  have hmove : (app.attach session).roster =
      app.closeModals.roster.move rules (.reset none) := by
    have hnext : app.closeModals.roster.next = app.nextSub := by
      unfold roster
      split <;> rfl
    ext1
    · refine Set.ext fun t => iff_of_false ?_ id
      intro ht
      rcases Live.mem_polls.1 (show t ∈ Live.polls _ from ht) with ⟨-, h⟩ | ⟨p, hp, -⟩
      · cases h
      · cases hp
    · refine Set.ext fun x => iff_of_false ?_ id
      obtain ⟨o, id⟩ := x
      cases o <;> exact nofun
    · exact Set.ext fun n => iff_of_false (by exact nofun) id
    · refine Set.ext fun c => ?_
      cases c <;> simp [attach, roster, Live.roster, Live.schedulerFor, Live.peer, Roster.move]
    · exact hnext.symm
  rw [hmove]
  exact .single trivial

/-- A change of the session that is one of its polls. -/
theorem reaches_mapLive {f : Live → Live} (app : App)
    (hf : ∀ live, Reach kinds (live.roster (app.detail.bind Detail.sub) app.nextSub)
      ((f live).roster (app.detail.bind Detail.sub) app.nextSub)) :
    Reach kinds app.roster (app.mapLive f).roster := by
  unfold roster mapLive
  cases app.live with
  | none => exact .refl
  | some live => exact hf live

theorem reaches_keepPeers (app : App) (keep : List String) :
    Reach kinds app.roster (app.keepPeers keep).roster := by
  refine reaches_mapLive app fun live => ?_
  generalize (live.peers.map Peer.name).filter (fun name => !keep.contains name) = names
  induction names generalizing live with
  | nil => exact .refl
  | cons name names ih => exact (Live.reaches_forgetPeer live name).trans (ih (live.forgetPeer name))

/-- What joining a context does before it lists anything: the one of the name is forgotten. -/
def joining (name : String) : List (Roster.Move (Option String) Subscription Owner) :=
  [Live.leaving name, .join (some name)]

theorem reaches_joined (app : App) (session : Session)
    (hkind : ∀ live view, app.live = some live → live.stack.head? = some (.table view) →
      view.key.isTop = true → view.key.kind ∈ kinds) :
    Reach kinds
      (if app.live.isSome then (joining session.name).foldl (Roster.move rules) app.roster
        else app.roster)
      (app.joined session).roster := by
  cases hlive : app.live with
  | none =>
      have h : app.joined session = app := by simp only [joined, hlive]
      rw [h]
      exact .refl
  | some live =>
      let p : Peer := { session, scheduler := { epoch := app.nextEpoch } }
      have h : (app.joined session).roster = Live.roster
          ({ live.forgetPeer p.name with
            peers := (live.forgetPeer p.name).peers ++ [p] }.subscribePeers app.nextSub).1
          (app.detail.bind Detail.sub) (Live.subscribePeers { live.forgetPeer p.name with
            peers := (live.forgetPeer p.name).peers ++ [p] } app.nextSub).2 := by
        simp only [joined, hlive]
        rfl
      rw [h, Option.isSome_some, if_pos rfl, roster_of_live hlive]
      have hmoves : (joining session.name).foldl (Roster.move rules)
          (live.roster (app.detail.bind Detail.sub) app.nextSub) =
          { live.forgetPeer p.name with peers := (live.forgetPeer p.name).peers ++ [p] }.roster
            (app.detail.bind Detail.sub) app.nextSub := by
        rw [Live.roster_join _ rfl, Live.roster_forgetPeer]
        rfl
      rw [hmoves]
      refine Live.reaches_subscribePeers fun view hview htop => ?_
      -- a view keeps its key when a context is forgotten
      have hview' : (live.stack.map (Live.forgetView p.name)).head? = some (.table view) := hview
      rw [List.head?_map, Option.map_eq_some_iff] at hview'
      obtain ⟨v, hv, hforget⟩ := hview'
      cases v with
      | page page => cases hforget
      | table t =>
          cases hforget
          exact hkind live t hlive hv htop

/-! ### What comes in -/

theorem reaches_refreshRow (app : App) (kind : Kind) (extId : String) (site : Option String) :
    Reach kinds app.roster (app.refreshRow kind extId site).roster := by
  unfold refreshRow
  split
  · exact .refl
  case h_2 live hlive =>
    split
    · split
      · exact .refl
      · dsimp only
        split
        all_goals
          split
          · exact .refl
          · case isFalse hjoined =>
            rw [roster_of_live hlive]
            exact Live.reaches_lend (by simpa [Option.isSome_iff_ne_none] using hjoined) rfl rfl
    · exact .refl

theorem subOf_insert (index : TaskIndex) (task : String) (w : TaskWatch) (name : String) :
    TaskIndex.subOf { watched := index.watched.insert task w } name =
      if name = task then some w.sub else index.subOf name := by
  simp only [TaskIndex.subOf, IndexMap.get?_insert]
  split <;> rfl

theorem subOf_erase (index : TaskIndex) (task name : String) :
    TaskIndex.subOf { watched := index.watched.erase task } name =
      if name = task then none else index.subOf name := by
  simp only [TaskIndex.subOf, IndexMap.get?_erase]
  split <;> rfl

theorem holds_eraseWatch {live' : Live} {own : Option ℕ} {task : String}
    (hstack : live'.stack = live.stack)
    (htasks : live'.tasks = { watched := live.tasks.watched.erase task }) (o : Owner) (id : ℕ) :
    live'.Holds own o id ↔ live.Holds own o id ∧ o ≠ .watch task := by
  cases o with
  | watch name =>
      by_cases hname : name = task <;> simp [Live.Holds, htasks, subOf_erase, hname]
  | _ => simp [Live.Holds, hstack]

theorem move_abandon_watch (live : Live) (own : Option ℕ) (next : ℕ) (task : String) :
    (live.roster own next).move rules (.abandon (.watch task)) =
      { live with tasks := { watched := live.tasks.watched.erase task } }.roster own next := by
  ext1
  · rfl
  · refine Set.ext fun x => Iff.symm ?_
    exact @holds_eraseWatch live { live with tasks := { watched := live.tasks.watched.erase task } } _ _
      rfl rfl x.1 x.2
  · rfl
  · rfl
  · rfl

/-- What the outcome of a request does first: a watch of the same task is forgotten. -/
def watching (app : App) (journal : ℕ) :
    Outcome → List (Roster.Move (Option String) Subscription Owner)
  | .started task =>
      if app.live.any fun live => (live.schedulerFor (siteOf live journal)).isSome then
        [.abandon (.watch task)]
      else []
  | _ => []

/-- A task watched on a scheduler, by a subscription of its own. -/
theorem reaches_watch {live : Live} {own : Option ℕ} {next : ℕ} {site : Option String} {s : Scheduler}
    (h : live.schedulerFor site = some s) (plan : PlanRef) (task : String) (journal now : ℕ) :
    Reach kinds ((live.roster own next).move rules (.abandon (.watch task)))
      ({ live.mapScheduler site fun _ =>
          (live.tasks.watch env.taskKind s next site plan task journal now).2 with
        tasks := (live.tasks.watch env.taskKind s next site plan task journal now).1 }.roster own
          (next + 1)) := by
  have hsite : (live.schedulerFor site).isSome = true := by rw [h]; rfl
  have hmap : (live.mapScheduler site fun _ =>
      (live.tasks.watch env.taskKind s next site plan task journal now).2) =
      live.mapScheduler site fun s => s.subscribe next
        { key := tasksKey env.taskKind site, single := some task, pausable := false } :=
    Live.mapScheduler_const h fun s => s.subscribe next
      { key := tasksKey env.taskKind site, single := some task, pausable := false }
  have hcontext : (tasksKey env.taskKind site).context = site := by cases site <;> rfl
  rw [hmap, move_abandon_watch]
  refine Live.reaches_acquire
    (k := { key := tasksKey env.taskKind site, single := some task, pausable := false })
    (.watch task) false (fun t => Live.mem_polls_subscribe hsite) ?_ ?_ (Live.names_mapScheduler _ _)
    ⟨nofun, trivial, nofun, fun _ => hcontext, nofun⟩
  · intro o id
    cases o with
    | watch name =>
        by_cases hname : name = task
        · simp [Live.Holds, TaskIndex.watch, subOf_insert, subOf_erase, hname, eq_comm]
        · simp [Live.Holds, TaskIndex.watch, subOf_insert, subOf_erase, hname]
    | _ => simp [Live.Holds]
  · intro o c id
    simp [Live.Stands]

theorem reaches_acted (app : App) (journal : ℕ) (plan : PlanRef) (outcome : Outcome) :
    Reach kinds ((app.watching journal outcome).foldl (Roster.move rules) app.roster)
      (app.acted env journal plan outcome).roster := by
  cases hlive : app.live with
  | none =>
      have h : app.acted env journal plan outcome = app := by simp only [acted, hlive]
      have hw : app.watching journal outcome = [] := by cases outcome <;> simp [watching, hlive]
      rw [h, hw]
      exact .refl
  | some live =>
      cases outcome with
      | started task =>
          cases hs : live.schedulerFor (siteOf live journal) with
          | none =>
              have hw : app.watching journal (.started task) = [] := by simp [watching, hlive, hs]
              rw [hw, List.foldl_nil, roster_of_live hlive]
              simp only [acted, hlive, hs]
              exact .single (m := .skip) trivial
          | some s =>
              have hw : app.watching journal (.started task) = [.abandon (.watch task)] := by
                simp [watching, hlive, hs]
              rw [hw, List.foldl_cons, List.foldl_nil, roster_of_live hlive]
              simp only [acted, hlive, hs]
              exact reaches_watch hs plan task journal app.now
      | done =>
          simp only [acted, hlive]
          have h := @reaches_refreshRow kinds
            { app with live := some { live with journal := live.journal.settle journal .succeeded none } }
            plan.rowKind plan.extId (siteOf live journal)
          rw [show app.roster = _ from roster_of_live hlive]
          exact h
      | returned value =>
          simp only [acted, hlive]
          have h := @reaches_closeModals kinds
            { app with live := some { live with journal := live.journal.settle journal .succeeded none } }
          rw [show app.roster = _ from roster_of_live hlive]
          exact h
      | failed failure forbidden =>
          rw [show app.roster = _ from roster_of_live hlive]
          simp only [acted, hlive]
          cases forbidden <;> exact .refl

/-- A watch that ended, its subscription with it. -/
theorem reaches_finished (app : App) (hlive : app.live = some live) {done : Finished} {task : String}
    (hsub : live.tasks.subOf task = some done.watch.sub) :
    Reach kinds app.roster
      (app.finished { live with tasks := { watched := live.tasks.watched.erase task } } done).roster := by
  have hended := Live.ended_unsubscribeAny [done.watch.sub] live
  let ended : Live := { { live with tasks := { watched := live.tasks.watched.erase task } }.unsubscribeAny
    done.watch.sub with
    journal := live.journal.settle done.watch.journal done.outcome (some done.watch.task) }
  have hrelease : Reach kinds app.roster { app with live := some ended }.roster := by
    rw [roster_of_live hlive]
    refine @Live.reaches_release _ ended _ _ _ _ {.watch task} ?_ ?_ ?_ hended.names
    · intro t
      refine (hended.polls t).trans (and_congr_right fun _ => ?_)
      simp [Live.Holds, hsub, eq_comm]
    · exact @holds_eraseWatch live ended _ _ rfl rfl
    · intro o c id
      refine iff_self_and.2 fun h => ?_
      rintro rfl
      obtain ⟨i, -, -, hi⟩ := Live.height_of_stands (n := 0) h
      cases hi
  refine hrelease.trans ?_
  unfold finished
  dsimp only
  split
  · exact reaches_refreshRow { app with live := some ended } _ _ _
  · exact .refl

/-- What a task entity does to the watches: one that has not ended keeps its subscription. -/
theorem subOf_apply (index : TaskIndex) (e : Entity) :
    ((index.apply e).2 = none ∧ (index.apply e).1.subOf = index.subOf) ∨
      ∃ done, (index.apply e).2 = some done ∧
        (index.apply e).1 = { watched := index.watched.erase e.extId } ∧
        index.subOf e.extId = some done.watch.sub := by
  unfold TaskIndex.apply
  cases hw : index.watched.get? e.extId with
  | none => exact Or.inl ⟨rfl, rfl⟩
  | some w =>
      dsimp only
      split
      · exact Or.inr ⟨_, rfl, rfl, by simp [TaskIndex.subOf, hw]⟩
      · refine Or.inl ⟨rfl, funext fun name => ?_⟩
        rw [subOf_insert]
        split
        case isTrue hname => simp [TaskIndex.subOf, hname, hw]
        case isFalse => rfl

theorem reaches_poll (app : App) (sub now : ℕ) (u : Update) :
    Reach kinds app.roster (app.poll sub now u).roster := by
  have hstore : ∀ (app : App) (f : Live → Store),
      (app.mapLive fun live => { live with store := f live }.clampSelection).roster = app.roster :=
    fun app f => roster_of_polling (polling_mapLive fun live => polling_clampSelection _)
  have htasks : ∀ {app : App} {live : Live} {tasks : TaskIndex}, app.live = some live →
      tasks.subOf = live.tasks.subOf → { app with live := some { live with tasks } }.roster = app.roster := by
    intro app live tasks hlive hsame
    refine roster_of_polling ?_
    simp only [polling, hlive, Option.map_some, Live.polling, hsame]
  unfold poll
  cases hlive : app.live with
  | none => exact .refl
  | some live =>
      dsimp only
      split
      · exact .refl
      split
      · split
        · rw [roster_of_live hlive]
          exact .refl
        · exact .refl
      · rw [hstore]
        cases u with
        | entity g e =>
            dsimp only
            rcases subOf_apply live.tasks e with ⟨hnone, hsame⟩ | ⟨done, hdone, herase, hsub⟩
            · rw [hnone, htasks hlive hsame]
              exact .refl
            · rw [hdone, herase]
              exact reaches_finished app hlive hsub
        | _ =>
            dsimp only
            rw [htasks hlive rfl]
            exact .refl

end App

end Nutsh
