/-
The journal of a session while it lasts.

Nothing but a new session makes the journal forget what a number stands for: every other step records
under the next number or settles in place.  So the number of a request in flight stands for that
request as long as its session is there.

* `App.Continues` — the session goes on, and its journal with it;
* `System.continues_step` — every step but the one that attaches a session continues it;
* `System.Tracked`, `System.tracked_step` — the numbers of the requests in flight.
-/
import Nutsh.System.Choice

set_option relaxedAutoImplicit false
set_option autoImplicit false

namespace Nutsh

namespace Live

variable (live : Live)

@[simp] theorem journal_mapScheduler (context : Option String) (f : Scheduler → Scheduler) :
    (live.mapScheduler context f).journal = live.journal := by
  unfold mapScheduler
  split <;> rfl

@[simp] theorem journal_subscribePeers (next : ℕ) :
    (live.subscribePeers next).1.journal = live.journal := by
  unfold subscribePeers
  split
  · split <;> rfl
  · rfl

@[simp] theorem journal_clampSelection : live.clampSelection.journal = live.journal := by
  unfold clampSelection
  split <;> rfl

/-- A fold whose steps leave the journal leaves it. -/
theorem journal_foldl {α : Type*} {f : Live → α → Live}
    (hf : ∀ live x, (f live x).journal = live.journal) (xs : List α) (live : Live) :
    (xs.foldl f live).journal = live.journal := by
  induction xs generalizing live with
  | nil => rfl
  | cons x xs ih => rw [List.foldl_cons, ih, hf]

@[simp] theorem journal_foldl_forgetPeer (names : List String) :
    (names.foldl forgetPeer live).journal = live.journal := by
  refine journal_foldl ?_ names live
  intro live name
  rfl

@[simp] theorem journal_foldl_unsubscribeAny (subs : List ℕ) :
    (subs.foldl unsubscribeAny live).journal = live.journal := by
  refine journal_foldl ?_ subs live
  intro live sub
  rfl

@[simp] theorem journal_drainStack : live.drainStack.journal = live.journal := by
  refine journal_foldl ?_ live.stack live
  intro live view
  cases view with
  | table t => exact journal_foldl_unsubscribeAny live _
  | page p => exact journal_foldl_unsubscribeAny live _

@[simp] theorem journal_subscribePanes (next : ℕ) (served : Pane → Bool) (panes : List Pane) :
    (live.subscribePanes next served panes).1.journal = live.journal := by
  suffices h : ∀ r : Live × List Pane × ℕ,
      (panes.foldl (subscribePane served) r).1.journal = r.1.journal from h (live, [], next)
  induction panes with
  | nil =>
      intro r
      rfl
  | cons pane panes ih =>
      intro r
      rw [List.foldl_cons, ih]
      unfold subscribePane
      dsimp only
      split
      · exact journal_mapScheduler r.1 none _
      · rfl

end Live

namespace App

variable {env : Env} {a a' a'' : App}

@[simp] theorem journal_releaseTop (live : Live) : (releaseTop live).journal = live.journal := by
  unfold releaseTop
  split
  · exact Live.journal_foldl_unsubscribeAny live _
  · rfl

/-- The session goes on, and its journal with it. -/
structure Continues (a a' : App) : Prop where
  generation : a'.sessionGeneration = a.sessionGeneration
  journal : ∀ live' ∈ a'.live, ∃ live ∈ a.live, live.journal.Extends live'.journal

theorem Continues.refl (a : App) : Continues a a :=
  ⟨rfl, fun live h => ⟨live, h, Journal.Extends.refl _⟩⟩

theorem Continues.trans (h : Continues a a') (h' : Continues a' a'') : Continues a a'' := by
  refine ⟨h'.generation.trans h.generation, ?_⟩
  intro live'' hlive''
  obtain ⟨live', hlive', hext'⟩ := h'.journal live'' hlive''
  obtain ⟨live, hlive, hext⟩ := h.journal live' hlive'
  exact ⟨live, hlive, hext.trans hext'⟩

/-- The session is there with the same journal. -/
theorem Continues.same (hgen : a'.sessionGeneration = a.sessionGeneration)
    (hj : a'.live.map Live.journal = a.live.map Live.journal) : Continues a a' := by
  refine ⟨hgen, ?_⟩
  intro live' hlive'
  have hj' : a.live.map Live.journal = some live'.journal := by
    rw [← hj, Option.mem_def.1 hlive']
    rfl
  obtain ⟨live, hlive, hjournal⟩ := Option.map_eq_some_iff.1 hj'
  exact ⟨live, hlive, hjournal ▸ Journal.Extends.refl _⟩

/-- The session is there with a journal that goes on. -/
theorem Continues.ofLive {live live' : Live} (hgen : a'.sessionGeneration = a.sessionGeneration)
    (hl : a.live = some live) (hl' : a'.live = some live')
    (hext : live.journal.Extends live'.journal) : Continues a a' := by
  refine ⟨hgen, ?_⟩
  intro l hl''
  rw [hl'] at hl''
  cases hl''
  exact ⟨live, hl, hext⟩

theorem Continues.ofStatus (h : Continues a a') (status : Option String) :
    Continues a { a' with status } :=
  ⟨h.generation, h.journal⟩

theorem continues_mapLive {f : Live → Live}
    (hf : ∀ live : Live, live.journal.Extends (f live).journal) (a : App) :
    Continues a (a.mapLive f) := by
  refine ⟨rfl, ?_⟩
  intro live' hlive'
  obtain ⟨live, hlive, rfl⟩ := Option.map_eq_some_iff.1 hlive'
  exact ⟨live, hlive, hf live⟩

/-- A session changed but for its journal. -/
theorem continues_mapLive_same {f : Live → Live}
    (hf : ∀ live : Live, (f live).journal = live.journal) (a : App) : Continues a (a.mapLive f) :=
  continues_mapLive (fun live => hf live ▸ Journal.Extends.refl _) a

/-! ### The pipeline -/

theorem continues_startCanI (a : App) : Continues a a.startCanI := by
  refine continues_mapLive_same ?_ a
  intro live
  rfl

theorem extends_foldl_record {α : Type*} (attempt : α → Attempt) (now : ℕ)
    (outcome : JournalOutcome) (xs : List α) (j : Journal) :
    j.Extends (xs.foldl (fun j x => (j.record (attempt x) now outcome).1) j) := by
  induction xs generalizing j with
  | nil => exact Journal.Extends.refl j
  | cons x xs ih => exact (j.extends_record (attempt x) now outcome).trans (ih _)

theorem continues_journalRefusal (a : App) (action : Action) (subjects : List (String × String))
    (why : String) : Continues a (a.journalRefusal action subjects why) := by
  refine continues_mapLive ?_ a
  intro live
  split
  · exact extends_foldl_record _ _ _ _ _
  · exact Journal.Extends.refl _

theorem continues_refusePending (a : App) (p : Pending) (why : String) :
    Continues a (a.refusePending p why) := by
  have h := continues_journalRefusal { a with pending := none } p.action p.rows why
  exact ⟨h.generation, h.journal⟩

theorem continues_runPending (env : Env) (a : App) : Continues a (a.runPending env).1 := by
  rcases runPending_cases env a with (⟨h, -⟩ | h) | ⟨live, key, p, s, hl, -, -, hsent, -, h⟩
  · rw [h]
    exact Continues.refl a
  · rw [h]
    exact Continues.same rfl rfl
  · obtain ⟨stack, status, h⟩ := h
    rw [h]
    exact Continues.ofLive rfl hl rfl hsent.continues

theorem continues_confirmOrRun (env : Env) (a : App) : Continues a (a.confirmOrRun env).1 := by
  cases hp : a.pending with
  | none =>
      simp only [confirmOrRun, hp]
      exact Continues.refl a
  | some p =>
      rcases confirmOrRun_cases env hp with ⟨why, h⟩ | ⟨h, -⟩ | ⟨live, c, k, -, -, -, -, h⟩ |
        ⟨-, h⟩ | h <;> rw [h]
      · exact continues_refusePending a p why
      · exact Continues.refl a
      · exact Continues.same rfl rfl
      · exact continues_runPending env a
      · exact Continues.same rfl rfl

theorem continues_pend {action : Action} :
    (∀ a', a.pend env action = .ok a' → Continues a a') ∧
      ∀ a', a.pend env action = .error a' → Continues a a' := by
  have hstart := continues_startCanI a
  refine ⟨?_, ?_⟩
  · intro a' h
    obtain ⟨-, body, rfl⟩ := pend_eq_ok h
    exact hstart.trans (Continues.same rfl rfl)
  · intro a' h
    unfold pend at h
    dsimp only at h
    split at h
    · cases h
      exact hstart.trans ((continues_journalRefusal _ _ _ _).trans (Continues.same rfl rfl))
    split at h
    · cases h
      exact hstart.trans (Continues.same rfl rfl)
    split at h
    · cases h
      exact hstart.trans (Continues.same rfl rfl)
    · cases h

theorem continues_start (env : Env) (a : App) (action : Action) :
    Continues a (a.start env action).1 := by
  rcases start_cases env a action with ⟨a', hpend, h⟩ |
    ⟨a', p, hpend, hp, ⟨hasks, h⟩ | ⟨hasks, h⟩⟩ <;> rw [h]
  · exact continues_pend.2 a' hpend
  · exact (continues_pend.1 a' hpend).trans (Continues.same rfl rfl)
  · exact (continues_pend.1 a' hpend).trans (continues_confirmOrRun env a')

theorem continues_submitForm (env : Env) (a : App) : Continues a (a.submitForm env).1 := by
  unfold submitForm
  split
  · refine Continues.trans ?_ (continues_confirmOrRun env a.submitted)
    unfold submitted
    split <;> exact Continues.same rfl rfl
  · exact Continues.refl a

/-! ### The surfaces -/

theorem continues_openMenu (env : Env) (a : App) : Continues a (a.openMenu env) := by
  have hstart := continues_startCanI a
  unfold openMenu
  dsimp only
  split
  · exact hstart
  · split <;> exact hstart.trans (Continues.same rfl rfl)

theorem continues_openDetail (env : Env) (a : App) : Continues a (a.openDetail env) := by
  have hstart := continues_startCanI a
  unfold openDetail
  dsimp only
  split
  · exact hstart
  · rename_i live hl
    split
    · refine hstart.trans (Continues.ofLive rfl hl rfl ?_)
      split <;> split <;> simp [Journal.Extends.refl]
    · exact hstart

theorem continues_openPicker (env : Env) (a : App) : Continues a (a.openPicker env) := by
  have hstart := continues_startCanI a
  unfold openPicker
  dsimp only
  split
  · exact hstart
  · split
    · exact hstart.trans (continues_openDetail env _)
    · exact hstart.trans (Continues.same rfl rfl)

theorem continues_closeDetail (a : App) : Continues a a.closeDetail := by
  unfold closeDetail
  refine Continues.same rfl ?_
  dsimp only
  split
  · rw [Option.map_map]
    rfl
  · rfl

theorem continues_closeModals (a : App) : Continues a a.closeModals := by
  refine Continues.trans ?_ (continues_closeDetail _)
  exact Continues.same rfl rfl

theorem continues_pushView (a : App) {live live₀ : Live} (hl : a.live = some live₀)
    (hj : live.journal = live₀.journal) (kind : Kind) (parents : List String)
    (parentName context : Option String) :
    Continues a (a.pushView live kind parents parentName context) := by
  unfold pushView
  dsimp only
  split
  · exact Continues.ofLive rfl hl rfl (hj ▸ Journal.Extends.refl _)
  · refine Continues.ofLive rfl hl rfl ?_
    simp [hj, Journal.Extends.refl]

theorem continues_pickChild (env : Env) (a : App) (child : Kind) :
    Continues a (a.pickChild env child) := by
  unfold pickChild
  split
  · exact Continues.refl a
  · dsimp only
    split
    · exact Continues.same rfl rfl
    · split
      · exact Continues.same rfl rfl
      · rename_i live hl
        have hclosed : Continues a { a with picker := none, mode := .table } :=
          Continues.same rfl rfl
        exact hclosed.trans
          (continues_pushView { a with picker := none, mode := .table } hl rfl _ _ _ _)

/-! ### What comes in -/

theorem continues_joined (a : App) (session : Session) : Continues a (a.joined session) := by
  unfold joined
  split
  · exact Continues.refl a
  · rename_i live hl
    refine Continues.ofLive rfl hl rfl ?_
    rw [Live.journal_subscribePeers]
    exact Journal.Extends.refl _

theorem continues_refreshRow (a : App) (kind : Kind) (extId : String) (site : Option String) :
    Continues a (a.refreshRow kind extId site) := by
  unfold refreshRow
  split
  · exact Continues.refl a
  · rename_i live hl
    split
    · split
      · exact Continues.refl a
      · dsimp only
        split <;> split
        · exact Continues.refl a
        · exact Continues.ofLive rfl hl rfl (by simp [Journal.Extends.refl])
        · exact Continues.refl a
        · exact Continues.ofLive rfl hl rfl (by simp [Journal.Extends.refl])
    · exact Continues.refl a

theorem continues_acted (env : Env) (a : App) (journal : ℕ) (plan : PlanRef) (outcome : Outcome) :
    Continues a (a.acted env journal plan outcome) := by
  cases hl : a.live with
  | none =>
      simp only [acted, hl]
      exact Continues.refl a
  | some live =>
      have hsettled : ∀ (o : JournalOutcome) (task : Option String), Continues a
          { a with live := some { live with journal := live.journal.settle journal o task } } :=
        fun o task => Continues.ofLive rfl hl rfl (live.journal.extends_settle journal o task)
      cases outcome with
      | started task =>
          simp only [acted, hl]
          exact Continues.ofLive rfl hl rfl (live.journal.extends_settle journal .started (some task))
      | done =>
          simp only [acted, hl]
          have hrow := (hsettled .succeeded none).trans
            (continues_refreshRow _ plan.rowKind plan.extId (siteOf live journal))
          exact ⟨hrow.generation, hrow.journal⟩
      | returned value =>
          simp only [acted, hl]
          have hclosed := (hsettled .succeeded none).trans (continues_closeModals _)
          exact ⟨hclosed.generation, hclosed.journal⟩
      | failed failure forbidden =>
          simp only [acted, hl]
          refine Continues.ofLive rfl hl rfl ?_
          split <;> exact live.journal.extends_settle journal _ none

theorem continues_finished (a : App) {live₀ live : Live} (hl : a.live = some live₀)
    (hj : live.journal = live₀.journal) (done : Finished) : Continues a (a.finished live done) := by
  unfold finished
  dsimp only
  have hext : live₀.journal.Extends
      (live.journal.settle done.watch.journal done.outcome (some done.watch.task)) := by
    rw [hj]
    exact live₀.journal.extends_settle done.watch.journal done.outcome (some done.watch.task)
  split
  · refine Continues.ofStatus (Continues.trans ?_ (continues_refreshRow _ _ _ _)) _
    exact Continues.ofLive rfl hl rfl hext
  · exact Continues.ofLive rfl hl rfl hext

theorem continues_poll (a : App) (sub now : ℕ) (u : Update) : Continues a (a.poll sub now u) := by
  unfold poll
  cases hl : a.live with
  | none => exact Continues.refl a
  | some live =>
      dsimp only
      split
      · exact Continues.refl a
      split
      · split
        · exact Continues.ofLive rfl hl rfl (Journal.Extends.refl _)
        · exact Continues.refl a
      · refine Continues.trans ?_ (continues_mapLive_same ?_ _)
        · split
          · refine continues_finished a hl ?_ _
            rfl
          · exact Continues.ofLive rfl hl rfl (Journal.Extends.refl _)
        · intro live
          rw [Live.journal_clampSelection]

/-- Whatever happens beside the user, a session attached apart, the session goes on. -/
theorem continues_background (a : App) {b : Background} (h : ∀ session, b ≠ .attach session) :
    Continues a (a.background b) := by
  cases b with
  | attach session => exact absurd rfl (h session)
  | joined session => exact continues_joined a session
  | keepPeers keep =>
      refine continues_mapLive_same ?_ a
      intro live
      exact Live.journal_foldl_forgetPeer live _
  | connectFailed => exact Continues.same rfl rfl
  | poll sub now u => exact continues_poll a sub now u
  | tick now => exact Continues.same rfl rfl
  | rolesResolved generation index =>
      refine continues_mapLive_same ?_ a
      intro live
      rfl
  | rolesRestored index =>
      refine continues_mapLive_same ?_ a
      intro live
      rfl
  | restored kind parents filter rows total writtenAt =>
      refine continues_mapLive_same ?_ a
      intro live
      rfl
  | restoredNames names =>
      refine continues_mapLive_same ?_ a
      intro live
      rfl

/-! ### The table and the page -/

theorem continues_browse (env : Env) (a : App) (b : Browse) : Continues a (a.browse env b) := by
  cases b with
  | openRoot kind =>
      simp only [browse, openRoot]
      split
      · exact Continues.refl a
      · split
        · exact Continues.refl a
        · split
          · exact Continues.refl a
          · rename_i live hl
            have hclosed := continues_closeModals a
            have hpush := continues_pushView a.closeModals hl
              (Live.journal_drainStack live) kind [] none none
            have h := hclosed.trans hpush
            exact ⟨h.generation, h.journal⟩
  | openPage panes =>
      simp only [browse, openPage]
      have hclosed := continues_closeModals a
      split
      · exact hclosed
      · rename_i live hl
        refine hclosed.trans (Continues.ofLive rfl hl rfl ?_)
        simp [Journal.Extends.refl]
  | openFocused =>
      simp only [browse, openFocused]
      split
      · exact Continues.refl a
      · rename_i live hl
        split
        · split
          · exact Continues.refl a
          · split
            · exact Continues.refl a
            · exact continues_pushView a hl rfl _ _ _ _
        · exact Continues.refl a
  | pop =>
      simp only [browse, pop]
      split
      · exact Continues.refl a
      · rename_i live hl
        split
        · split <;> refine Continues.ofLive rfl hl rfl ?_ <;> simp [Journal.Extends.refl]
        · exact Continues.refl a
  | toggleMark =>
      simp only [browse, toggleMark]
      split
      · exact Continues.refl a
      · refine continues_mapLive_same ?_ a
        intro live
        rfl
  | filter keeps =>
      refine continues_mapLive_same ?_ a
      intro live
      dsimp only
      split
      · rw [Live.journal_clampSelection]
        rfl
      · rfl
  | leave => exact Continues.same rfl rfl
  | back => exact Continues.same rfl rfl
  | move m =>
      refine continues_mapLive_same ?_ a
      intro live
      rfl
  | clearMarks =>
      refine continues_mapLive_same ?_ a
      intro live
      rfl
  | cycleSort =>
      refine continues_mapLive_same ?_ a
      intro live
      rfl
  | toggleWide =>
      refine continues_mapLive_same ?_ a
      intro live
      rfl
  | focus pane =>
      refine continues_mapLive_same ?_ a
      intro live
      rfl

/-- The journal knows every request of a run by its number. -/
theorem knows_runPending {a : App} {live' : Live} (hl' : live' ∈ (a.runPending env).1.live)
    (hnum : ∀ live ∈ a.live, live.journal.Numbered) {q : Request}
    (hq : q ∈ (a.runPending env).2) : live'.journal.Knows q.journal q.attempt := by
  rcases runPending_cases env a with (⟨h, -⟩ | h) | ⟨live, key, p, s, hl, -, -, hsent, hreq, h⟩
  · rw [h] at hq
    cases hq
  · rw [h] at hq
    cases hq
  · obtain ⟨stack, status, h⟩ := h
    rw [h] at hl'
    cases hl'
    exact hsent.knows (hnum live hl) q (hreq ▸ hq)

/-- What a pending action is sent with is sent by the run of it. -/
theorem fst_confirmOrRun_of_unasked {a : App} (h : a.unasked env = true) :
    (a.confirmOrRun env).1 = (a.runPending env).1 := by
  unfold unasked at h
  split at h
  · rename_i p live hp hl
    split at h
    · rename_i c hc
      simp only [Bool.and_eq_true, Option.isNone_iff_eq_none, beq_iff_eq] at h
      simp only [confirmOrRun, hp, hl, hc, h.1, h.2]
    · cases h
  · cases h

end App

namespace System

variable {env : Env} {s t : System} {e : Event}

/-- Every step but the one that attaches a session continues it. -/
theorem continues_step (h : s.step env e = some t)
    (he : ∀ session, e ≠ .background (.attach session)) : App.Continues s.app t.app := by
  rw [app_step h]
  cases e with
  | background b => exact App.continues_background s.app fun session hb => he session (hb ▸ rfl)
  | browse b => exact App.continues_browse env s.app b
  | acted i outcome =>
      rw [after]
      cases s.flying[i]? with
      | none => exact App.Continues.refl s.app
      | some f => exact App.continues_acted env s.app _ _ _
  | openMenu => exact App.continues_openMenu env s.app
  | openPicker => exact App.continues_openPicker env s.app
  | openDetail => exact App.continues_openDetail env s.app
  | closeDetail =>
      have hclosed := App.continues_closeDetail s.app
      exact ⟨hclosed.generation, hclosed.journal⟩
  | cancel =>
      rw [after]
      split <;> exact App.Continues.same rfl rfl
  | start action =>
      refine App.Continues.trans ?_ (App.continues_start env s.acting action)
      unfold acting
      split
      · exact App.Continues.same rfl rfl
      · exact App.Continues.refl _
  | pickChild child => exact App.continues_pickChild env s.app child
  | submit => exact App.continues_submitForm env s.app
  | confirmed => exact App.continues_runPending env s.app
  | type field text | closeForm | cancelConfirm => exact App.Continues.same rfl rfl

/-- The number of every request of the session stands for it; requests of sessions replaced are of
earlier generations. -/
structure Tracked (s : System) : Prop where
  numbered : ∀ live ∈ s.app.live, live.journal.Numbered
  past : ∀ f ∈ s.flying, f.generation ≤ s.app.sessionGeneration
  knows : ∀ f ∈ s.flying, f.generation = s.app.sessionGeneration →
    ∀ live ∈ s.app.live, live.journal.Knows f.request.journal f.request.attempt

/-- A step that sends goes on from the application it sends from, to what its run leaves. -/
theorem app_of_sending (h : s.step env e = some t) {a : App} (ha : s.sending env e = some a) :
    App.Continues s.app a ∧ t.app = (a.runPending env).1 := by
  cases e with
  | confirmed =>
      simp only [step, Option.ite_none_right_eq_some, Option.some.injEq] at h
      obtain ⟨-, rfl⟩ := h
      cases ha
      exact ⟨App.Continues.refl _, rfl⟩
  | start action =>
      obtain ⟨hdeciding, hunasked⟩ := Option.filter_eq_some_iff.1 ha
      obtain ⟨hpend, p, hp, hasks⟩ := start_of_deciding hdeciding
      obtain ⟨-, rfl⟩ := step_start h
      refine ⟨App.Continues.trans ?_ (App.continues_pend.1 a hpend), ?_⟩
      · unfold acting
        split
        · exact App.Continues.same rfl rfl
        · exact App.Continues.refl _
      · rcases App.start_cases env s.acting action with ⟨a', herror, -⟩ |
          ⟨a', p', hok, hp', ⟨hasks', -⟩ | ⟨-, hstart⟩⟩
        · rw [hpend] at herror
          cases herror
        · rw [hpend] at hok
          cases hok
          rw [hp] at hp'
          cases hp'
          rw [hasks] at hasks'
          cases hasks'
        · rw [hpend] at hok
          cases hok
          rw [hstart]
          exact App.fst_confirmOrRun_of_unasked hunasked
  | submit =>
      obtain ⟨hdeciding, hunasked⟩ := Option.filter_eq_some_iff.1 ha
      simp only [deciding, Option.ite_none_right_eq_some, Option.some.injEq] at hdeciding
      obtain ⟨hchecks, rfl⟩ := hdeciding
      simp only [step, Option.ite_none_right_eq_some, Option.some.injEq] at h
      obtain ⟨-, rfl⟩ := h
      refine ⟨?_, ?_⟩
      · unfold App.submitted
        split <;> exact App.Continues.same rfl rfl
      · simp only [launch, App.submitForm, hchecks, if_true]
        exact App.fst_confirmOrRun_of_unasked hunasked
  | _ => cases ha

theorem tracked_init (g : Guardrails) : (init g).Tracked :=
  ⟨(fun _ h => nomatch h), (fun _ h => nomatch h), (fun _ h => nomatch h)⟩

/-- **The numbers of the requests in flight** stand for them as long as their session is there. -/
theorem tracked_step (s : System) (e : Event) (t : System) (hs : s.Tracked)
    (h : s.step env e = some t) : t.Tracked := by
  by_cases hattach : ∃ session, e = .background (.attach session)
  · obtain ⟨session, rfl⟩ := hattach
    cases h
    refine ⟨?_, ?_, ?_⟩
    · intro live hlive
      cases hlive
      intro e he
      cases he
    · intro f hf
      exact (hs.past f hf).trans (Nat.le_succ _)
    · intro f hf hgen
      have hpast := hs.past f hf
      have hnew : f.generation = s.app.sessionGeneration + 1 := hgen
      omega
  · have hcont : App.Continues s.app t.app :=
      continues_step h fun session he => hattach ⟨session, he⟩
    refine ⟨?_, ?_, ?_⟩
    · intro live' hlive'
      obtain ⟨live, hlive, hext⟩ := hcont.journal live' hlive'
      exact hext.numbered (hs.numbered live hlive)
    · intro f hf
      rw [hcont.generation]
      rcases mem_flying_step h hf with hf | ⟨a, -, -, hgen, -⟩
      · exact hs.past f hf
      · exact hgen.le
    · intro f hf hgen live' hlive'
      rw [hcont.generation] at hgen
      rcases mem_flying_step h hf with hf | ⟨a, ha, hq, -⟩
      · obtain ⟨live, hlive, hext⟩ := hcont.journal live' hlive'
        exact hext.knows (hs.knows f hf hgen live hlive)
      · obtain ⟨hcont', happ⟩ := app_of_sending h ha
        rw [happ] at hlive'
        refine App.knows_runPending hlive' ?_ hq
        intro live hlive
        obtain ⟨live₀, hlive₀, hext⟩ := hcont'.journal live hlive
        exact hext.numbered (hs.numbered live₀ hlive₀)

end System

end Nutsh
