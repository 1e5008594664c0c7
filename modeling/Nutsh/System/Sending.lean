/-
What is sent, and under which number.

A request is made for a pending row by the application whose pending action is run; it is recorded
against the context it goes to, under the next number of the journal of its session.

* `App.unasked`, `System.deciding`, `System.sending` — the application a step decides or sends from;
* `App.makes_of_mem_runPending` — what is known of a request;
* `System.after`, `System.app_step` — what a step does to the application;
* `System.mem_flying_step` — where a request in flight comes from.
-/
import Nutsh.System.Kept

set_option relaxedAutoImplicit false
set_option autoImplicit false

namespace Nutsh

/-! ### What a request is made of -/

/-- What the journal records of a request. -/
def Request.attempt (q : Request) : Attempt :=
  { context := q.context, kind := q.plan.rowKind, extId := q.plan.extId, name := q.plan.name,
    action := q.plan.action.name }

theorem plan_eq_ok {catalog : Catalog} {kind : Kind} {entity : Entity} {action : Action}
    {parents : List String} {body : Option Json} {p : Plan}
    (h : plan catalog kind entity action parents body = .ok p) :
    p.rowKind = kind ∧ p.action = action := by
  unfold plan at h
  split at h
  · cases h
  split at h
  · cases h
  · cases h
    exact ⟨rfl, rfl⟩

namespace App

variable {env : Env} {a : App} {live : Live} {key : TableKey} {p : Pending}

/-- A row is planned for the context it is found in. -/
theorem planRow_eq_ok {id : String} {session : Session} {context : String} {plan : Plan}
    (h : a.planRow env live key p id = some (.ok (session, context, plan))) :
    ∃ site e, live.findRow key id = some (site, e) ∧ session = live.sessionFor site ∧
      context = site.getD live.primaryName ∧ plan.rowKind = key.kind ∧ plan.action = p.action := by
  unfold planRow at h
  obtain ⟨⟨site, e⟩, hrow, hplan⟩ := Option.map_eq_some_iff.1 h
  refine ⟨site, e, hrow, ?_⟩
  cases hbody : a.bodyFor env p e with
  | error why => simp [hbody, bind, Except.bind] at hplan
  | ok body =>
      cases hp : Nutsh.plan env.catalog key.kind e p.action key.parents body with
      | error why => simp [hbody, hp, bind, Except.bind] at hplan
      | ok plan' =>
          simp only [hbody, hp, bind, Except.bind] at hplan
          cases hplan
          obtain ⟨hkind, haction⟩ := plan_eq_ok hp
          exact ⟨rfl, rfl, hkind, haction⟩

/-- A request for a row of the pending action, made from a session under a key. -/
def Makes (live : Live) (key : TableKey) (p : Pending) (q : Request) : Prop :=
  ∃ row ∈ p.rows, ∃ site e, live.findRow key row.1 = some (site, e) ∧ q.row = row.1 ∧
    q.session = live.sessionFor site ∧ q.context = site.getD live.primaryName ∧
    q.plan.action = p.action

/-- The requests made so far are for pending rows, and the journal knows them. -/
structure Sent (live : Live) (key : TableKey) (p : Pending) (s : Sending) : Prop where
  continues : live.journal.Extends s.journal
  makes : ∀ q ∈ s.requests, Makes live key p q
  knows : live.journal.Numbered → ∀ q ∈ s.requests, s.journal.Knows q.journal q.attempt

theorem sent_sendRow {s : Sending} {row : String × String} (hrow : row ∈ p.rows)
    (hs : Sent live key p s) : Sent live key p (a.sendRow env live key p s row) := by
  unfold sendRow
  split
  · exact hs
  · exact ⟨hs.continues, hs.makes, hs.knows⟩
  · rename_i session context plan hplan
    obtain ⟨site, e, hfound, hsession, hcontext, hkind, haction⟩ := planRow_eq_ok hplan
    have hext := s.journal.extends_record
      { context, kind := key.kind, extId := plan.extId, name := plan.name, action := p.action.name }
      a.now .started
    refine ⟨hs.continues.trans hext, ?_, ?_⟩
    · intro q hq
      rcases List.mem_append.1 hq with hq | hq
      · exact hs.makes q hq
      · rw [List.mem_singleton] at hq
        subst hq
        exact ⟨row, hrow, site, e, hfound, rfl, hsession, hcontext, haction⟩
    · intro hnum q hq
      rcases List.mem_append.1 hq with hq | hq
      · exact hext.knows (hs.knows hnum q hq)
      · rw [List.mem_singleton] at hq
        subst hq
        have hknows := Journal.knows_record (hs.continues.numbered hnum)
          { context, kind := key.kind, extId := plan.extId, name := plan.name,
            action := p.action.name } a.now .started
        simpa [Request.attempt, hkind, haction] using hknows

theorem sent_foldl (rows : List (String × String)) (hrows : rows ⊆ p.rows) {s : Sending}
    (hs : Sent live key p s) : Sent live key p (rows.foldl (a.sendRow env live key p) s) := by
  induction rows generalizing s with
  | nil => exact hs
  | cons row rows ih =>
      obtain ⟨hrow, hrows⟩ := List.cons_subset.1 hrows
      exact ih hrows (sent_sendRow hrow hs)

/-- What running the pending action comes to: nothing, or the requests made and recorded. -/
theorem runPending_cases (env : Env) (a : App) :
    (a.runPending env = (a, []) ∧ a.pending = none ∨ a.runPending env = (a.dropPending, [])) ∨
    ∃ live key p s, a.live = some live ∧ a.topKey = some key ∧ a.pending = some p ∧
      Sent live key p s ∧ (a.runPending env).2 = s.requests ∧
      ∃ stack status, (a.runPending env).1 =
        { a.dropPending with live := some { live with journal := s.journal, stack }, status } := by
  cases hp : a.pending with
  | none =>
      left
      left
      exact ⟨by simp only [runPending, hp], rfl⟩
  | some p =>
      cases hl : a.live with
      | none =>
          left
          right
          simp only [runPending, hp, hl, dropPending]
      | some live =>
          cases hc : live.cursor with
          | none =>
              left
              right
              simp only [runPending, hp, hl, hc, dropPending]
          | some c =>
              right
              have hkey : a.topKey = some c.key := by simp [topKey, hl, Live.topKey_of_cursor hc]
              have hstart : Sent live c.key p { journal := live.journal } :=
                ⟨Journal.Extends.refl _, by simp, by simp⟩
              have hsent : Sent live c.key p
                  (p.rows.foldl (a.dropPending.sendRow env live c.key p) { journal := live.journal }) :=
                sent_foldl p.rows (List.Subset.refl _) hstart
              refine ⟨live, c.key, p, _, rfl, hkey, rfl, hsent, ?_⟩
              simp only [runPending, hp, hl, hc, dropPending]
              exact ⟨trivial, _, _, rfl⟩

/-- The requests of a run are for pending rows found under the key of the view. -/
theorem makes_of_mem_runPending {q : Request} (hq : q ∈ (a.runPending env).2) :
    ∃ live key p, a.live = some live ∧ a.topKey = some key ∧ a.pending = some p ∧
      Makes live key p q := by
  rcases runPending_cases env a with (⟨h, -⟩ | h) | ⟨live, key, p, s, hl, hkey, hp, hsent, h, -⟩
  · rw [h] at hq
    cases hq
  · rw [h] at hq
    cases hq
  · exact ⟨live, key, p, hl, hkey, hp, hsent.makes q (h ▸ hq)⟩

/-! ### What is decided -/

/-- Whether the pending action, judged now, is sent without a confirmation. -/
def unasked (env : Env) (app : App) : Bool :=
  match app.pending, app.live with
  | some pending, some live =>
      match live.cursor with
      | some c =>
          (app.refusal env pending.action (max pending.rows.length 1)).isNone &&
            app.ruling live c.key pending == .allow
      | none => false
  | _, _ => false

/-- What confirming or running a pending action comes to. -/
theorem confirmOrRun_cases (env : Env) {a : App} {p : Pending} (hp : a.pending = some p) :
    (∃ why, a.confirmOrRun env = (a.refusePending p why, [])) ∨
    a.confirmOrRun env = (a, []) ∧ a.topKey = none ∨
    (∃ live c k, a.live = some live ∧ live.cursor = some c ∧
      a.refusal env p.action (max p.rows.length 1) = none ∧ a.ruling live c.key p = .confirm k ∧
      a.confirmOrRun env =
        ({ a with confirm := some (a.dialog live c.key p k), mode := .confirm }, [])) ∨
    (a.unasked env = true ∧ a.confirmOrRun env = a.runPending env) ∨
    a.confirmOrRun env = (a.dropPending, []) := by
  cases hr : a.refusal env p.action (max p.rows.length 1) with
  | some why =>
      left
      exact ⟨why, by simp only [confirmOrRun, hp, hr]⟩
  | none =>
      right
      cases hl : a.live with
      | none =>
          left
          exact ⟨by simp only [confirmOrRun, hp, hr, hl], by simp [topKey, hl]⟩
      | some live =>
          cases hc : live.cursor with
          | none =>
              left
              refine ⟨by simp only [confirmOrRun, hp, hr, hl, hc], ?_⟩
              simp [topKey, hl, ← Live.map_key_cursor, hc]
          | some c =>
              right
              cases hv : a.ruling live c.key p with
              | confirm k =>
                  left
                  exact ⟨live, c, k, rfl, hc, rfl, hv, by simp only [confirmOrRun, hp, hr, hl, hc, hv]⟩
              | allow =>
                  right
                  left
                  refine ⟨?_, by simp only [confirmOrRun, hp, hr, hl, hc, hv]⟩
                  simp [unasked, hp, hl, hc, hr, hv]
              | readOnly | deny | notPermitted | tooMany =>
                  right
                  right
                  simp only [confirmOrRun, hp, hr, hl, hc, hv]

/-- Requests come of a confirmation or of a run without one. -/
theorem mem_confirmOrRun {q : Request} (hq : q ∈ (a.confirmOrRun env).2) :
    a.unasked env = true ∧ q ∈ (a.runPending env).2 := by
  cases hp : a.pending with
  | none => simp [confirmOrRun, hp] at hq
  | some p =>
      rcases confirmOrRun_cases env hp with ⟨why, h⟩ | ⟨h, -⟩ | ⟨live, c, k, -, -, -, -, h⟩ |
        ⟨hu, h⟩ | h
      · rw [h] at hq
        cases hq
      · rw [h] at hq
        cases hq
      · rw [h] at hq
        cases hq
      · exact ⟨hu, h ▸ hq⟩
      · rw [h] at hq
        cases hq

/-- An action that is pended applies to the rows of the moment. -/
theorem pend_eq_ok {action : Action} {a' : App} (h : a.pend env action = .ok a') :
    a.startCanI.subjects env ≠ [] ∧ ∃ body, a' = { a.startCanI with
      pending := some { action, rows := a.startCanI.subjects env, body } } := by
  unfold pend at h
  dsimp only at h
  split at h
  · cases h
  split at h
  · cases h
  rename_i hne
  split at h
  · cases h
  · cases h
    refine ⟨?_, _, rfl⟩
    intro hnil
    simp [hnil] at hne

/-- What starting an action comes to. -/
theorem start_cases (env : Env) (a : App) (action : Action) :
    (∃ a', a.pend env action = .error a' ∧ a.start env action = (a', [])) ∨
    ∃ a' p, a.pend env action = .ok a' ∧ a'.pending = some p ∧
      (p.asks = true ∧ a.start env action = (a'.openForm env p, []) ∨
        p.asks = false ∧ a.start env action = a'.confirmOrRun env) := by
  cases h : a.pend env action with
  | error a' =>
      left
      exact ⟨a', rfl, by simp only [start, h]⟩
  | ok a' =>
      right
      obtain ⟨-, body, ha'⟩ := pend_eq_ok h
      obtain ⟨p, hp⟩ : ∃ p, a'.pending = some p := ⟨_, by rw [ha']⟩
      refine ⟨a', p, rfl, hp, ?_⟩
      cases hasks : p.asks with
      | true =>
          left
          exact ⟨rfl, by simp [start, h, hp, Option.filter_some, hasks]⟩
      | false =>
          right
          exact ⟨rfl, by simp [start, h, hp, Option.filter_some, hasks]⟩

end App

namespace System

variable (env : Env)

/-- The application an action is started from: the picker is closed first. -/
def acting (s : System) : App :=
  if s.app.mode = .picker then { s.app with picker := none, mode := .table } else s.app

/-- The application a step judges a pending action in. -/
def deciding (s : System) : Event → Option App
  | .start action =>
      match s.acting.pend env action with
      | .error _ => none
      | .ok app => if app.pending.any Pending.asks then none else some app
  | .submit => if s.app.formChecks env then some s.app.submitted else none
  | _ => none

/-- The application a step sends the pending action from. -/
def sending (s : System) : Event → Option App
  | .confirmed => some s.app
  | e => (s.deciding env e).filter fun app => app.unasked env

/-- The application once an event was taken. -/
def after (s : System) : Event → App
  | .background b => s.app.background b
  | .browse b => s.app.browse env b
  | .acted i outcome =>
      ((s.flying[i]?).map fun f =>
        s.app.acted env f.request.journal f.request.plan.toRef outcome).getD s.app
  | .openMenu => s.app.openMenu env
  | .openPicker => s.app.openPicker env
  | .openDetail => s.app.openDetail env
  | .closeDetail => { s.app.closeDetail with mode := .table }
  | .cancel =>
      if s.app.mode = .menu then { s.app with menu := none, mode := s.app.actingFrom }
      else { s.app with picker := none, mode := .table }
  | .start action => (s.acting.start env action).1
  | .pickChild child => s.app.pickChild env child
  | .type field text =>
      { s.app with form := s.app.form.map fun form => { form with values := form.values.set field text } }
  | .submit => (s.app.submitForm env).1
  | .closeForm => s.app.closeForm
  | .confirmed => (s.app.runPending env).1
  | .cancelConfirm => s.app.cancelConfirm

variable {env}

/-- Starting an action is the same in the picker and elsewhere, from the application it starts in. -/
theorem step_start {s t : System} {action : Action} (h : s.step env (.start action) = some t) :
    s.app.offers env action = true ∧
      t = (s.remember env s.acting action).launch none (s.acting.start env action) := by
  by_cases ho : s.app.offers env action = true
  · refine ⟨ho, ?_⟩
    simp only [step, ho, if_true] at h
    unfold acting
    split at h
    · rename_i hmode
      rw [if_pos hmode]
      exact (Option.some.inj h).symm
    · rename_i hmode
      rw [if_neg hmode]
      exact (Option.some.inj h).symm
  · simp [step, ho] at h

@[simp] theorem flying_remember (s : System) (a : App) (action : Action) :
    (s.remember env a action).flying = s.flying := by
  unfold remember
  split
  · rfl
  · split <;> rfl

@[simp] theorem app_remember (s : System) (a : App) (action : Action) :
    (s.remember env a action).app = s.app := by
  unfold remember
  split
  · rfl
  · split <;> rfl

@[simp] theorem app_panned (s : System) (a : App) : (s.panned env a).app = a := by
  unfold panned
  split <;> rfl

/-- **What a step does to the application**, whatever else it remembers. -/
theorem app_step {s t : System} {e : Event} (h : s.step env e = some t) : t.app = s.after env e := by
  cases e with
  | background b =>
      cases h
      rfl
  | acted i outcome =>
      obtain ⟨f, hf, rfl⟩ := Option.map_eq_some_iff.1 h
      rw [after, hf]
      rfl
  | start action =>
      obtain ⟨-, rfl⟩ := step_start h
      rfl
  | cancel =>
      simp only [step] at h
      split at h
      · rename_i hmenu
        cases h
        rw [after, if_pos hmenu]
      · rename_i hmenu
        rw [Option.ite_none_right_eq_some] at h
        obtain ⟨-, h⟩ := h
        cases h
        rw [after, if_neg hmenu]
  | openPicker | openDetail =>
      simp only [step, Option.ite_none_right_eq_some, Option.some.injEq] at h
      obtain ⟨-, rfl⟩ := h
      exact app_panned _ _
  | browse b | openMenu | closeDetail | pickChild child | type field text | submit | closeForm | confirmed
  | cancelConfirm =>
      simp only [step, Option.ite_none_right_eq_some, Option.some.injEq] at h
      obtain ⟨-, rfl⟩ := h
      rfl

theorem mem_flying_launch {s : System} {given : Option Confirm} {r : App × List Request} {f : Flight}
    (hf : f ∈ (s.launch given r).flying) :
    f ∈ s.flying ∨ f.request ∈ r.2 ∧ f.generation = s.app.sessionGeneration ∧
      f.chosen = s.chosen ∧ f.judged = s.judged ∧ f.given = given := by
  rcases List.mem_append.1 hf with hf | hf
  · exact Or.inl hf
  · obtain ⟨q, hq, rfl⟩ := List.mem_map.1 hf
    exact Or.inr ⟨hq, rfl, rfl, rfl, rfl⟩

/-- The dialog a step that sends answers. -/
def answered (s : System) : Event → Option Confirm
  | .confirmed => s.app.confirm
  | _ => none

/-- Whether a step may send. -/
def sends : Event → Bool
  | .start _ => true
  | .submit => true
  | .confirmed => true
  | _ => false

/-- A step that sends nothing takes no rows, judges nothing, and only lands requests. -/
theorem step_quiet {s t : System} {e : Event} (he : sends e = false) (h : s.step env e = some t) :
    t.chosen = s.chosen ∧ t.judged = s.judged ∧ t.flying ⊆ s.flying := by
  cases e with
  | start action => cases he
  | submit => cases he
  | confirmed => cases he
  | acted i outcome =>
      obtain ⟨g, hg, rfl⟩ := Option.map_eq_some_iff.1 h
      exact ⟨rfl, rfl, fun f hf => List.mem_of_mem_eraseIdx hf⟩
  | background b =>
      cases h
      exact ⟨rfl, rfl, List.Subset.refl _⟩
  | openPicker | openDetail =>
      simp only [step, Option.ite_none_right_eq_some, Option.some.injEq] at h
      obtain ⟨-, rfl⟩ := h
      unfold panned
      split <;> exact ⟨rfl, rfl, List.Subset.refl _⟩
  | cancel =>
      simp only [step] at h
      split at h
      · cases h
        exact ⟨rfl, rfl, List.Subset.refl _⟩
      · split at h
        · cases h
          exact ⟨rfl, rfl, List.Subset.refl _⟩
        · cases h
  | browse b | openMenu | closeDetail | pickChild child | type field text | closeForm
  | cancelConfirm =>
      simp only [step, Option.ite_none_right_eq_some, Option.some.injEq] at h
      obtain ⟨-, rfl⟩ := h
      exact ⟨rfl, rfl, List.Subset.refl _⟩

/-- A request in flight was in flight before, or is one the step sends. -/
theorem mem_flying_step {s t : System} {e : Event} (h : s.step env e = some t) {f : Flight}
    (hf : f ∈ t.flying) :
    f ∈ s.flying ∨ ∃ a, s.sending env e = some a ∧ f.request ∈ (a.runPending env).2 ∧
      f.generation = s.app.sessionGeneration ∧ f.chosen = t.chosen ∧ f.judged = t.judged ∧
      f.given = s.answered e := by
  cases hsends : sends e with
  | false => exact Or.inl ((step_quiet hsends h).2.2 hf)
  | true =>
      cases e with
      | start action =>
          obtain ⟨-, rfl⟩ := step_start h
          rcases mem_flying_launch hf with hf | ⟨hq, hgen, hchosen, hjudged, hgiven⟩
          · exact Or.inl (by simpa using hf)
          right
          rcases App.start_cases env s.acting action with ⟨a, -, hstart⟩ |
            ⟨a, p, hpend, hp, ⟨hasks, hstart⟩ | ⟨hasks, hstart⟩⟩
          · rw [hstart] at hq
            cases hq
          · rw [hstart] at hq
            cases hq
          · rw [hstart] at hq
            obtain ⟨hu, hq⟩ := App.mem_confirmOrRun hq
            refine ⟨a, ?_, hq, by simpa using hgen, hchosen, hjudged, hgiven⟩
            simp [sending, deciding, hpend, hp, hasks, hu]
      | submit =>
          simp only [step, Option.ite_none_right_eq_some, Option.some.injEq] at h
          obtain ⟨-, rfl⟩ := h
          rcases mem_flying_launch hf with hf | ⟨hq, hgen, hchosen, hjudged, hgiven⟩
          · left
            split at hf <;> exact hf
          right
          unfold App.submitForm at hq
          split at hq
          · rename_i hchecks
            rw [if_pos hchecks] at hgen
            obtain ⟨hu, hq⟩ := App.mem_confirmOrRun hq
            refine ⟨_, ?_, hq, hgen, hchosen, hjudged, hgiven⟩
            simp [sending, deciding, hchecks, hu]
          · cases hq
      | confirmed =>
          simp only [step, Option.ite_none_right_eq_some, Option.some.injEq] at h
          obtain ⟨-, rfl⟩ := h
          rcases mem_flying_launch hf with hf | ⟨hq, hgen, hchosen, hjudged, hgiven⟩
          · exact Or.inl hf
          · exact Or.inr ⟨_, rfl, hq, hgen, hchosen, hjudged, hgiven⟩
      | _ => cases hsends

end System

end Nutsh
