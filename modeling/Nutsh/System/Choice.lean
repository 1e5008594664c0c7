/-
The pending action between its choice and its sending.

While the form or the dialog of an action is open, the rows and the action are those chosen, over the
same table of the same session; what the dialog asks is what the ruling demanded.  So every request is
for a row that was on screen when the action was chosen.

* `App.SameChoice` — two moments of one pending action;
* `App.Listed` — the pending rows are rows of the view;
* `App.Passes` — a pending action that was not refused, and the confirmation it needs;
* `System.Remembers`, `System.remembers_step` — the invariant, with whatever held where the action was
  judged;
* `System.sending_spec` — what it gives of a step that sends.
-/
import Nutsh.System.Sending

set_option relaxedAutoImplicit false
set_option autoImplicit false

namespace Nutsh

namespace App

variable {env : Env} {a a' a'' : App}

/-- Two moments of one pending action. -/
structure SameChoice (a a' : App) : Prop where
  rows : a'.pending.map Pending.rows = a.pending.map Pending.rows
  action : a'.pending.map Pending.action = a.pending.map Pending.action
  key : a'.topKey = a.topKey
  name : a'.live.map Live.primaryName = a.live.map Live.primaryName

theorem SameChoice.refl (a : App) : SameChoice a a := ⟨rfl, rfl, rfl, rfl⟩

theorem SameChoice.trans (h : SameChoice a a') (h' : SameChoice a' a'') : SameChoice a a'' :=
  ⟨h'.rows.trans h.rows, h'.action.trans h.action, h'.key.trans h.key, h'.name.trans h.name⟩

theorem Kept.sameChoice (h : Kept a a') : SameChoice a a' :=
  ⟨by rw [h.pending], by rw [h.pending], h.key, h.name⟩

theorem sameChoice_submitted (a : App) : SameChoice a a.submitted := by
  unfold submitted
  split
  · rename_i pending form hp hf
    exact ⟨by simp [hp], by simp [hp], rfl, rfl⟩
  · exact SameChoice.refl a

/-- Every pending row is one the view draws. -/
def Listed (a : App) : Prop :=
  ∀ live ∈ a.live, ∀ key ∈ a.topKey, ∀ p ∈ a.pending, ∀ r ∈ p.rows,
    ((live.merged key).rows.get? r.1).isSome = true

theorem listed_subjects {live : Live} {key : TableKey} (hkey : live.topKey = some key)
    {now : ℕ} {r : String × String} (hr : r ∈ live.subjects env now) :
    ((live.merged key).rows.get? r.1).isSome = true := by
  obtain ⟨c, hc, rfl⟩ := Live.cursor_of_topKey hkey
  simp only [Live.subjects, hc, List.mem_filterMap] at hr
  obtain ⟨id, -, hid⟩ := hr
  obtain ⟨e, he, rfl⟩ := Option.map_eq_some_iff.1 hid
  simp [he]

/-- An action is pended over rows the view draws. -/
theorem listed_of_pend {action : Action} (h : a.pend env action = .ok a') : a'.Listed := by
  obtain ⟨-, body, rfl⟩ := pend_eq_ok h
  intro live hlive key hkey p hp r hr
  cases hp
  have hl : a.startCanI.live = some live := hlive
  have hk : live.topKey = some key := by
    have hk : a.startCanI.live.bind Live.topKey = some key := hkey
    rwa [hl] at hk
  simp only [subjects, hl, Option.map_some, Option.getD_some] at hr
  exact listed_subjects hk hr

/-- An action is pended in a table. -/
theorem topKey_of_pend {action : Action} (h : a.pend env action = .ok a') :
    a'.topKey.isSome = true := by
  obtain ⟨hne, body, rfl⟩ := pend_eq_ok h
  change (a.startCanI.live.bind Live.topKey).isSome = true
  cases hl : a.startCanI.live with
  | none => simp [subjects, hl] at hne
  | some live =>
      cases hc : live.cursor with
      | none => simp [subjects, hl, Live.subjects, hc] at hne
      | some c => simp [Live.topKey_of_cursor hc]

/-- A form is sent on with an action that is pending in a table. -/
theorem pending_of_formChecks (h : a.formChecks env = true) :
    a.submitted.pending.isSome = true ∧ a.submitted.topKey.isSome = true := by
  unfold formChecks at h
  split at h
  · rename_i pending form live hp hf hl
    split at h
    · rename_i view hv
      simp only [submitted, hp, hf]
      exact ⟨rfl, by simp [topKey, hl, Live.topKey, hv, View.key]⟩
    · cases h
  · cases h

/-- An action that is not pended leaves the mode. -/
theorem mode_of_pend_error {action : Action} (h : a.pend env action = .error a') :
    a'.mode = a.mode := by
  unfold pend at h
  dsimp only at h
  split at h
  · cases h
    rfl
  split at h
  · cases h
    rfl
  split at h
  · cases h
    rfl
  · cases h

/-- Whether the dialog answered, if one was, is of a strength: none for no confirmation, and one that
has a text typed exactly for the strongest. -/
def Gives : Option Confirm → ConfirmKind → Prop
  | none, k => k = .none
  | some box, k => k ≠ .none ∧ (box.expect.isSome = true ↔ k = .typeName)

instance (box : Option Confirm) (k : ConfirmKind) : Decidable (Gives box k) := by
  cases box <;> unfold Gives <;> infer_instance

/-- A pending action that was not refused: the ruling lets it through with the confirmation the
dialog gives. -/
def Passes (env : Env) (d : App) (box : Option Confirm) : Prop :=
  ∃ live c p, d.live = some live ∧ live.cursor = some c ∧ d.pending = some p ∧
    d.refusal env p.action (max p.rows.length 1) = none ∧
    (d.ruling live c.key p).passes = true ∧
    Gives box (d.guardrails.floor live.primaryName c.key.kind p.action)

theorem expect_open (k : ConfirmKind) (label display : String) (names : List String)
    (site : Option String) :
    (Confirm.open k label display names site).expect.isSome = true ↔ k = .typeName := by
  unfold Confirm.open
  split <;> simp_all

theorem passes_of_unasked (h : a.unasked env = true) : a.Passes env none := by
  unfold unasked at h
  split at h
  · rename_i p live hp hl
    split at h
    · rename_i c hc
      simp only [Bool.and_eq_true, Option.isNone_iff_eq_none, beq_iff_eq] at h
      exact ⟨live, c, p, hl, hc, hp, h.1, by rw [h.2]; rfl, Guardrails.verdict_eq_allow h.2⟩
    · cases h
  · cases h

/-- The dialog of a ruling that demands a confirmation. -/
theorem passes_of_dialog {live : Live} {c : Live.Cursor} {p : Pending} {k : ConfirmKind}
    (hl : a.live = some live) (hc : live.cursor = some c) (hp : a.pending = some p)
    (hr : a.refusal env p.action (max p.rows.length 1) = none)
    (hk : a.ruling live c.key p = .confirm k) :
    a.Passes env (some (a.dialog live c.key p k)) := by
  obtain ⟨hfloor, hne⟩ := Guardrails.verdict_eq_confirm hk
  refine ⟨live, c, p, hl, hc, hp, hr, by rw [hk]; rfl, ?_⟩
  rw [hfloor]
  exact ⟨hne, expect_open k _ _ _ _⟩

end App

namespace System

variable {env : Env} {P : App → App → Prop} {s t : System} {e : Event}

/-- What the run remembers of the pending action: what was chosen in the form, and in the dialog also
where it was judged and what the dialog asks. -/
structure Remembers (env : Env) (P : App → App → Prop) (s : System) : Prop where
  listed : ∀ a ∈ s.chosen, a.Listed
  fields : s.app.mode = .fields → ∃ a ∈ s.chosen, a.SameChoice s.app
  confirm : s.app.mode = .confirm → ∃ a ∈ s.chosen, ∃ d ∈ s.judged,
    a.SameChoice d ∧ d.SameChoice s.app ∧ d.Passes env s.app.confirm ∧ P a d

/-- The application where the rows of the pending action were taken, as of a step that judges it. -/
def choosing (env : Env) (s : System) : Event → Option App
  | .start action => s.deciding env (.start action)
  | _ => s.chosen

/-- The application where the pending action was judged, as of a step that sends it. -/
def judging (env : Env) (s : System) : Event → Option App
  | .confirmed => s.judged
  | e => s.deciding env e

/-- A condition on where the pending action was chosen and where it is judged, at a step. -/
def Decides (env : Env) (P : App → App → Prop) (s : System) (e : Event) : Prop :=
  ∀ d ∈ s.deciding env e, ∀ a ∈ s.choosing env e, P a d

/-- A system whose box is not that of a pending action has nothing to remember but the rows. -/
theorem remembers_of_mode (hlisted : ∀ a ∈ s.chosen, a.Listed) (hfields : s.app.mode ≠ .fields)
    (hconfirm : s.app.mode ≠ .confirm) : Remembers env P s :=
  ⟨hlisted, fun h => absurd h hfields, fun h => absurd h hconfirm⟩

/-- What keeps an open form or dialog keeps what is remembered. -/
theorem Remembers.kept (hs : Remembers env P s) (hchosen : t.chosen = s.chosen)
    (hjudged : t.judged = s.judged)
    (hkept : t.app.mode = .fields ∨ t.app.mode = .confirm →
      t.app.mode = s.app.mode ∧ s.app.SameChoice t.app ∧ t.app.confirm = s.app.confirm) :
    Remembers env P t := by
  refine ⟨hchosen ▸ hs.listed, ?_, ?_⟩
  · intro hmode
    obtain ⟨hsame, hchoice, -⟩ := hkept (Or.inl hmode)
    obtain ⟨a, ha, hchoice'⟩ := hs.fields (hsame.symm.trans hmode)
    exact ⟨a, hchosen ▸ ha, hchoice'.trans hchoice⟩
  · intro hmode
    obtain ⟨hsame, hchoice, hbox⟩ := hkept (Or.inr hmode)
    obtain ⟨a, ha, d, hd, had, hchoice', hpasses, hP⟩ := hs.confirm (hsame.symm.trans hmode)
    exact ⟨a, hchosen ▸ ha, d, hjudged ▸ hd, had, hchoice'.trans hchoice, hbox ▸ hpasses, hP⟩

/-- A pending action that is judged is remembered: it is in the dialog that gives the confirmation
demanded, or no longer pending. -/
theorem remembers_confirmOrRun {a d : App} (happ : t.app = (d.confirmOrRun env).1)
    (hchosen : t.chosen = some a) (hjudged : t.judged = some d) (hlisted : a.Listed)
    (hsame : a.SameChoice d) (hp : d.pending.isSome = true) (hkey : d.topKey.isSome = true)
    (hP : P a d) : Remembers env P t := by
  obtain ⟨p, hp⟩ := Option.isSome_iff_exists.1 hp
  have hlisted' : ∀ b ∈ t.chosen, b.Listed := by
    intro b hb
    rw [hchosen] at hb
    exact Option.some.inj hb ▸ hlisted
  have hclosed : t.app.mode = d.actingFrom → Remembers env P t := by
    intro hmode
    have hacting := Mode.waits_of_isBox (App.isBox_actingFrom d)
    refine remembers_of_mode hlisted' ?_ ?_ <;> intro h <;> rw [← hmode, h] at hacting <;>
      cases hacting
  rcases App.confirmOrRun_cases env hp with ⟨why, h⟩ | ⟨-, h⟩ | ⟨live, c, k, hl, hc, hr, hk, h⟩ |
    ⟨-, h⟩ | h
  · exact hclosed (by rw [happ, h]; rfl)
  · rw [h] at hkey
    cases hkey
  · rw [h] at happ
    refine ⟨hlisted', ?_, ?_⟩
    · intro hmode
      rw [happ] at hmode
      cases hmode
    · intro _
      refine ⟨a, hchosen, d, hjudged, hsame, ?_, ?_, hP⟩
      · rw [happ]
        exact ⟨rfl, rfl, rfl, rfl⟩
      · rw [happ]
        exact App.passes_of_dialog hl hc hp hr hk
  · rw [h] at happ
    rcases App.runPending_cases env d with (⟨-, hnone⟩ | h) | ⟨live, key, p', s, -, -, -, -, -, h⟩
    · rw [hp] at hnone
      cases hnone
    · exact hclosed (by rw [happ, h]; rfl)
    · obtain ⟨stack, status, h⟩ := h
      exact hclosed (by rw [happ, h]; rfl)
  · exact hclosed (by rw [happ, h]; rfl)

/-- A step that sends nothing keeps what is remembered. -/
theorem remembers_quiet (hs : Remembers env P s) (he : sends e = false)
    (h : s.step env e = some t) : Remembers env P t := by
  obtain ⟨hchosen, hjudged, -⟩ := step_quiet he h
  refine hs.kept hchosen hjudged ?_
  intro hmode
  have hkept : ∀ {a : App}, App.Kept s.app a →
      a.mode = s.app.mode ∧ s.app.SameChoice a ∧ a.confirm = s.app.confirm :=
    fun hk => ⟨hk.mode, hk.sameChoice, hk.confirm⟩
  have hbox : t.app.mode.isBox = true := by
    rcases hmode with hmode | hmode <;> rw [hmode] <;> rfl
  have hwaits : t.app.mode.waits = true := by
    rcases hmode with hmode | hmode <;> rw [hmode] <;> rfl
  cases e with
  | start action => cases he
  | submit => cases he
  | confirmed => cases he
  | background b =>
      cases h
      exact hkept (App.kept_background s.app b hbox)
  | acted i outcome =>
      obtain ⟨f, hf, rfl⟩ := Option.map_eq_some_iff.1 h
      exact hkept (App.kept_acted env s.app _ _ _ hbox)
  | type field text =>
      simp only [step, Option.ite_none_right_eq_some, Option.some.injEq] at h
      obtain ⟨-, rfl⟩ := h
      exact ⟨rfl, ⟨rfl, rfl, rfl, rfl⟩, rfl⟩
  -- after every other step the form and the dialog are closed
  | browse b =>
      simp only [step, Option.ite_none_right_eq_some, Option.some.injEq] at h
      obtain ⟨htaken, rfl⟩ := h
      rw [Mode.waits_of_isBox (App.isBox_browse env s.app htaken)] at hwaits
      cases hwaits
  | openMenu =>
      simp only [step, Option.ite_none_right_eq_some, Option.some.injEq] at h
      obtain ⟨htaken, rfl⟩ := h
      rcases App.mode_openMenu env s.app with hm | hm
      · rcases htaken with htaken | htaken <;> simp [hm, htaken, Mode.waits] at hwaits
      · simp [hm, Mode.waits] at hwaits
  | openPicker =>
      simp only [step, Option.ite_none_right_eq_some, Option.some.injEq] at h
      obtain ⟨htaken, rfl⟩ := h
      rw [app_panned] at hwaits
      rcases App.mode_openPicker env s.app with hm | hm | hm <;>
        simp [hm, htaken, Mode.waits] at hwaits
  | openDetail =>
      simp only [step, Option.ite_none_right_eq_some, Option.some.injEq] at h
      obtain ⟨htaken, rfl⟩ := h
      rw [app_panned] at hwaits
      rcases App.mode_openDetail env s.app with hm | hm <;> simp [hm, htaken, Mode.waits] at hwaits
  | closeDetail =>
      simp only [step, Option.ite_none_right_eq_some, Option.some.injEq] at h
      obtain ⟨-, rfl⟩ := h
      cases hwaits
  | cancel =>
      simp only [step] at h
      split at h
      · cases h
        rw [Mode.waits_of_isBox (App.isBox_actingFrom _)] at hwaits
        cases hwaits
      · split at h
        · cases h
          cases hwaits
        · cases h
  | pickChild child =>
      simp only [step, Option.ite_none_right_eq_some, Option.some.injEq] at h
      obtain ⟨hoffers, rfl⟩ := h
      obtain ⟨-, picker, hp, -⟩ := App.picker_of_offersChild hoffers
      rw [App.mode_pickChild env hp] at hwaits
      cases hwaits
  | closeForm =>
      simp only [step, Option.ite_none_right_eq_some, Option.some.injEq] at h
      obtain ⟨-, rfl⟩ := h
      cases hwaits
  | cancelConfirm =>
      simp only [step, Option.ite_none_right_eq_some, Option.some.injEq] at h
      obtain ⟨-, rfl⟩ := h
      rw [App.cancelConfirm, App.dropPending, Mode.waits_of_isBox (App.isBox_actingFrom _)] at hwaits
      cases hwaits

theorem waits_acting {action : Action} (h : s.app.offers env action = true) :
    s.acting.mode.waits = false := by
  unfold acting
  split
  · rfl
  · rename_i hpicker
    unfold App.offers at h
    cases hmode : s.app.mode <;> simp_all [Mode.waits]

theorem remember_error {a a' : App} {action : Action} (h : a.pend env action = .error a') :
    s.remember env a action = s := by
  simp only [remember, h]

theorem remember_asks {a a' : App} {action : Action} {p : Pending}
    (h : a.pend env action = .ok a') (hp : a'.pending = some p) (hasks : p.asks = true) :
    s.remember env a action = { s with chosen := some a' } := by
  simp [remember, h, hp, Option.filter_some, hasks]

theorem remember_judged {a a' : App} {action : Action} {p : Pending}
    (h : a.pend env action = .ok a') (hp : a'.pending = some p) (hasks : p.asks = false) :
    s.remember env a action = { s with chosen := some a', judged := some a' } := by
  simp [remember, h, hp, Option.filter_some, hasks]

/-- Starting an action keeps what is remembered. -/
theorem remembers_start (hs : Remembers env P s) {action : Action}
    (hP : Decides env P s (.start action)) (h : s.step env (.start action) = some t) :
    Remembers env P t := by
  obtain ⟨hoffers, rfl⟩ := step_start h
  rcases App.start_cases env s.acting action with ⟨a, hpend, hstart⟩ |
    ⟨a, p, hpend, hp, ⟨hasks, hstart⟩ | ⟨hasks, hstart⟩⟩
  · rw [remember_error hpend, hstart]
    have hmode : a.mode.waits = false := by
      rw [App.mode_of_pend_error hpend]
      exact waits_acting hoffers
    refine remembers_of_mode hs.listed ?_ ?_ <;> intro h <;> rw [show a.mode = _ from h] at hmode <;>
      cases hmode
  · rw [remember_asks hpend hp hasks, hstart]
    have hlisted := App.listed_of_pend hpend
    refine ⟨fun b hb => Option.some.inj hb ▸ hlisted, fun _ => ⟨a, rfl, ?_⟩, ?_⟩
    · exact ⟨rfl, rfl, rfl, rfl⟩
    · intro hmode
      cases hmode
  · rw [remember_judged hpend hp hasks, hstart]
    have hdeciding : s.deciding env (.start action) = some a := by
      simp [deciding, hpend, hp, hasks]
    have hsome : a.pending.isSome = true := by rw [hp]; rfl
    exact remembers_confirmOrRun rfl rfl rfl (App.listed_of_pend hpend) (App.SameChoice.refl a)
      hsome (App.topKey_of_pend hpend) (hP a hdeciding a hdeciding)

/-- Sending the form on keeps what is remembered. -/
theorem remembers_submit (hs : Remembers env P s) (hP : Decides env P s .submit)
    (h : s.step env .submit = some t) : Remembers env P t := by
  simp only [step, Option.ite_none_right_eq_some, Option.some.injEq] at h
  obtain ⟨hmode, rfl⟩ := h
  cases hchecks : s.app.formChecks env with
  | true =>
      obtain ⟨a, ha, hsame⟩ := hs.fields hmode
      obtain ⟨hp, hkey⟩ := App.pending_of_formChecks hchecks
      have hdeciding : s.deciding env .submit = some s.app.submitted := by
        simp [deciding, hchecks]
      refine remembers_confirmOrRun (a := a) (d := s.app.submitted) ?_ ?_ ?_ (hs.listed a ha)
        (hsame.trans (App.sameChoice_submitted s.app)) hp hkey (hP _ hdeciding a ha)
      · simp [launch, App.submitForm, hchecks]
      · simpa [launch] using ha
      · simp [launch]
  | false =>
      simp only [App.submitForm, hchecks, Bool.false_eq_true, if_false]
      exact ⟨hs.listed, hs.fields, hs.confirm⟩

/-- A confirmed action is no longer pending. -/
theorem remembers_confirmed (hs : Remembers env P s) (h : s.step env .confirmed = some t) :
    Remembers env P t := by
  simp only [step, Option.ite_none_right_eq_some, Option.some.injEq] at h
  obtain ⟨hmode, rfl⟩ := h
  obtain ⟨a, ha, d, -, -, hsame, hpasses, -⟩ := hs.confirm hmode
  have hclosed : ∀ u : System, u.chosen = s.chosen → u.app.mode = s.app.actingFrom →
      Remembers env P u := by
    intro u hchosen hmode
    have hacting := Mode.waits_of_isBox (App.isBox_actingFrom s.app)
    refine remembers_of_mode (hchosen ▸ hs.listed) ?_ ?_ <;> intro h <;>
      rw [← hmode, h] at hacting <;> cases hacting
  rcases App.runPending_cases env s.app with (⟨-, hnone⟩ | h) | ⟨live, key, p, s', -, -, -, -, -, h⟩
  · obtain ⟨live, c, p, -, -, hp, -⟩ := hpasses
    have hrows := hsame.rows
    rw [hp, hnone] at hrows
    cases hrows
  · exact hclosed _ rfl (by rw [h]; rfl)
  · obtain ⟨stack, status, h⟩ := h
    exact hclosed _ rfl (by simp [launch, h, App.dropPending])

/-- **The pending action is remembered along every run** whose decisions meet the condition. -/
theorem remembers_step (s : System) (e : Event) (t : System) (hs : Remembers env P s)
    (hP : Decides env P s e) (h : s.step env e = some t) : Remembers env P t := by
  cases hsends : sends e with
  | false => exact remembers_quiet hs hsends h
  | true =>
      cases e with
      | start action => exact remembers_start hs hP h
      | submit => exact remembers_submit hs hP h
      | confirmed => exact remembers_confirmed hs h
      | _ => cases hsends

theorem remembers_init (g : Guardrails) : Remembers env P (init g) :=
  remembers_of_mode (fun _ h => nomatch h) (fun h => nomatch h) (fun h => nomatch h)

/-- A pended action that asks for no body is judged where it is started. -/
theorem start_of_deciding {action : Action} {d : App}
    (h : s.deciding env (.start action) = some d) :
    s.acting.pend env action = .ok d ∧ ∃ p, d.pending = some p ∧ p.asks = false := by
  unfold deciding at h
  dsimp only at h
  split at h
  · cases h
  · rename_i a hpend
    obtain ⟨-, body, ha⟩ := App.pend_eq_ok hpend
    split at h
    · cases h
    · rename_i hasks
      cases h
      refine ⟨hpend, _, by rw [ha], ?_⟩
      rw [ha] at hasks
      simpa using hasks

/-- What a step that sends goes by: rows listed where they were chosen, an action that passed where
it was judged, and the same choice where it is sent. -/
theorem sending_spec (hs : Remembers env P s) (hP : Decides env P s e) (h : s.step env e = some t)
    {a' : App} (ha' : s.sending env e = some a') :
    ∃ a ∈ t.chosen, ∃ d ∈ t.judged, s.choosing env e = some a ∧ s.judging env e = some d ∧
      a.Listed ∧ a.SameChoice d ∧ d.SameChoice a' ∧ d.Passes env (s.answered e) ∧ P a d := by
  cases e with
  | confirmed =>
      simp only [step, Option.ite_none_right_eq_some, Option.some.injEq] at h
      obtain ⟨hmode, rfl⟩ := h
      cases ha'
      obtain ⟨a, ha, d, hd, hsame, hsame', hpasses, hPad⟩ := hs.confirm hmode
      exact ⟨a, ha, d, hd, ha, hd, hs.listed a ha, hsame, hsame', hpasses, hPad⟩
  | start action =>
      obtain ⟨hdeciding, hunasked⟩ := Option.filter_eq_some_iff.1 ha'
      obtain ⟨hpend, p, hp, hasks⟩ := start_of_deciding hdeciding
      obtain ⟨-, rfl⟩ := step_start h
      rw [remember_judged hpend hp hasks]
      exact ⟨a', rfl, a', rfl, hdeciding, hdeciding, App.listed_of_pend hpend, App.SameChoice.refl a',
        App.SameChoice.refl a', App.passes_of_unasked hunasked, hP a' hdeciding a' hdeciding⟩
  | submit =>
      obtain ⟨hdeciding, hunasked⟩ := Option.filter_eq_some_iff.1 ha'
      have hd := hdeciding
      simp only [deciding, Option.ite_none_right_eq_some, Option.some.injEq] at hd
      obtain ⟨hchecks, rfl⟩ := hd
      simp only [step, Option.ite_none_right_eq_some, Option.some.injEq, hchecks, if_true] at h
      obtain ⟨hmode, rfl⟩ := h
      obtain ⟨a, ha, hsame⟩ := hs.fields hmode
      exact ⟨a, ha, _, rfl, ha, hdeciding, hs.listed a ha, hsame.trans (App.sameChoice_submitted s.app),
        App.SameChoice.refl _, App.passes_of_unasked hunasked, hP _ hdeciding a ha⟩
  | _ => cases ha'

end System

end Nutsh
