/-
Who judges a request.

An action is refused or let through by the row under the cursor, and confirmed by the rules under the
name of the session, whatever the rows it runs on.  A request is allowed by its own context when
whatever forbids the action there forbids it under the cursor too, and confirmed as its own context
demands when the rules demand the same under the name of the session.

* `App.Milder` — what forbids the action on a row by its own context forbids it under the cursor;
* `App.ownDemand` — the strongest confirmation the rows demand by their own contexts;
* `App.Uniform`, `System.Judicious` — the condition on the steps that judge and that send;
* `Flight.Allowed`, `System.allowed_exec` — every request is allowed, and confirmed, by its own context.
-/
import Nutsh.System.Prefill

set_option relaxedAutoImplicit false
set_option autoImplicit false

namespace Nutsh

namespace App

variable {env : Env} {a d : App} {live : Live} {c : Live.Cursor} {p : Pending}

/-- The number of rows an action is judged for. -/
def countOf (p : Pending) : ℕ := max p.rows.length 1

/-- Whether a context allows the action on a row of its own. -/
def allows (env : Env) (d : App) (live : Live) (key : TableKey) (p : Pending)
    (o : Option String × String) : Prop :=
  reason env.catalog (d.policyFor live (Live.siteOf key o)) key.kind p.action key.parents
    (live.documentAt key o) (countOf p) = none

/-- What forbids the action on a row by its own context forbids it on the row under the cursor, by the
context of that one. -/
structure Milder (env : Env) (d : App) (live : Live) (c : Live.Cursor) (p : Pending)
    (o : Option String × String) : Prop where
  readonly : (live.sessionFor (Live.siteOf c.key o)).readonly = true →
    (live.sessionFor (d.cursorSite env live c)).readonly = true
  served :
    ((live.sessionFor (Live.siteOf c.key o)).unavailable
      (c.key.kind.actionTarget env.catalog)).isSome = true →
    ((live.sessionFor (d.cursorSite env live c)).unavailable
      (c.key.kind.actionTarget env.catalog)).isSome = true
  cancelable : c.key.kind.id = taskKindId → p.action.name = "cancel" →
    cancelable (d.selectedEntity env) = true → cancelable (live.documentAt c.key o) = true
  supplied : supplied c.key.kind c.key.parents (d.selectedEntity env) = p.action.parentsNeeded →
    supplied c.key.kind c.key.parents (live.documentAt c.key o) = p.action.parentsNeeded
  denies :
    d.guardrails.denies (live.sessionFor (Live.siteOf c.key o)).name c.key.kind p.action = true →
    d.guardrails.denies (live.sessionFor (d.cursorSite env live c)).name c.key.kind p.action = true
  cap :
    d.guardrails.cap (live.sessionFor (Live.siteOf c.key o)).name c.key.kind p.action < countOf p →
    d.guardrails.cap (live.sessionFor (d.cursorSite env live c)).name c.key.kind p.action < countOf p
  roles : ((canIFor live (Live.siteOf c.key o)).can p.action).isNo = true →
    ((canIFor live (d.cursorSite env live c)).can p.action).isNo = true

instance (env : Env) (d : App) (live : Live) (key : TableKey) (p : Pending)
    (o : Option String × String) : Decidable (d.allows env live key p o) := by
  unfold allows
  infer_instance

instance (env : Env) (d : App) (live : Live) (c : Live.Cursor) (p : Pending)
    (o : Option String × String) : Decidable (Milder env d live c p o) :=
  decidable_of_iff (_ ∧ _ ∧ _ ∧ _ ∧ _ ∧ _ ∧ _)
    ⟨fun ⟨h₁, h₂, h₃, h₄, h₅, h₆, h₇⟩ => ⟨h₁, h₂, h₃, h₄, h₅, h₆, h₇⟩,
      fun h => ⟨h.readonly, h.served, h.cancelable, h.supplied, h.denies, h.cap, h.roles⟩⟩

/-- A row of a context milder than the cursor's is allowed by it when the cursor's is let through. -/
theorem allows_of_milder {o : Option String × String} (hm : Milder env d live c p o)
    (hl : d.live = some live) (hc : live.cursor = some c)
    (h : d.refusal env p.action (countOf p) = none) : d.allows env live c.key p o := by
  have hcursor : reason env.catalog (d.policyFor live (d.cursorSite env live c)) c.key.kind p.action
      c.key.parents (d.selectedEntity env) (countOf p) = none := by
    simpa [refusal, refusalFor, hl, hc] using h
  obtain ⟨hro, hserved, hcancel, hparents, hbody, hverdict⟩ := reason_eq_none_iff.1 hcursor
  obtain ⟨hg, hdenies, hroles, hcap⟩ := Guardrails.passes_verdict_iff.1 hverdict
  refine reason_eq_none_iff.2 ⟨?_, ?_, ?_, ?_, hbody, ?_⟩
  · by_contra hown
    have hcur := hm.readonly (by simpa [policyFor] using hown)
    simp only [policyFor] at hro
    rw [hcur] at hro
    cases hro
  · by_contra hown
    have hcur := hm.served (Option.isSome_iff_ne_none.2 hown)
    simp only [policyFor] at hserved
    rw [hserved] at hcur
    cases hcur
  · intro hkind hname
    exact hm.cancelable hkind hname (hcancel hkind hname)
  · exact hm.supplied hparents
  · refine Guardrails.passes_verdict_iff.2 ⟨hg, ?_, ?_, ?_⟩
    · by_contra hown
      have hcur := hm.denies (by simpa [policyFor] using hown)
      simp only [policyFor] at hdenies
      rw [hcur] at hdenies
      cases hdenies
    · by_contra hown
      have hcur := hm.roles (by simpa [policyFor] using hown)
      simp only [policyFor] at hroles
      rw [hcur] at hroles
      cases hroles
    · by_contra hown
      have hcur := hm.cap (by simpa [policyFor] using hown)
      simp only [policyFor] at hcap
      omega

/-- The strongest confirmation the rules demand for any row of the batch, each by the name of its own
context. -/
def ownDemand (g : Guardrails) (live₀ live : Live) (key : TableKey) (p : Pending) : ConfirmKind :=
  (p.rows.map fun r =>
    g.floor (live.nameOf ((live₀.origin key r.1).bind (Live.siteOf key))) key.kind
      p.action).foldr max .none

/-- The rows of a pending action, listed where it was chosen, are of contexts that forbid no more than
the cursor's does, and demand together what the name of the session demands; unless the action is not
let through. -/
def Uniform (env : Env) (a d : App) : Prop :=
  ∀ live ∈ d.live, ∀ c ∈ live.cursor, ∀ p ∈ d.pending, ∀ live₀ ∈ a.live,
    d.refusal env p.action (countOf p) = none → (d.ruling live c.key p).passes = true →
    (∀ r ∈ p.rows, ∀ o ∈ live₀.origin c.key r.1, live.Joined (Live.siteOf c.key o) →
      Milder env d live c p o) ∧
    ownDemand d.guardrails live₀ live c.key p =
      d.guardrails.floor live.primaryName c.key.kind p.action

instance (env : Env) (a d : App) : Decidable (Uniform env a d) := by
  unfold Uniform
  infer_instance

/-- A pending row that is found where it is sent is of a context joined where it was judged. -/
def Seen (a d a' : App) : Prop :=
  ∀ live' ∈ a'.live, ∀ key ∈ a'.topKey, ∀ p ∈ a'.pending, ∀ live₀ ∈ a.live, ∀ live ∈ d.live,
    ∀ r ∈ p.rows, ∀ o ∈ live₀.origin key r.1, (live'.findRow key r.1).isSome = true →
      live.Joined (Live.siteOf key o)

instance (a d a' : App) : Decidable (Seen a d a') := by
  unfold Seen
  infer_instance

end App

/-- A request was allowed by the context of its row when it was judged, and the confirmation given for
the batch is the strongest any of its rows demands by its own context. -/
def Flight.Allowed (env : Env) (f : Flight) : Prop :=
  ∃ a ∈ f.chosen, ∃ d ∈ f.judged, ∃ live₀ ∈ a.live, ∃ live ∈ d.live, ∃ key ∈ d.topKey,
    ∃ p ∈ d.pending, p.action = f.request.plan.action ∧ (∃ r ∈ p.rows, r.1 = f.request.row) ∧
      (∃ o ∈ live₀.origin key f.request.row, live.Joined (Live.siteOf key o) ∧
        d.allows env live key p o) ∧
      App.Gives f.given (App.ownDemand d.guardrails live₀ live key p)

instance (env : Env) (f : Flight) : Decidable (f.Allowed env) := by
  unfold Flight.Allowed
  infer_instance

namespace System

variable {env : Env}

/-- The condition on a step that sends: a row that is found is of a context joined when it was
judged. -/
def Seen (env : Env) (s : System) (e : Event) : Prop :=
  ∀ a' ∈ s.sending env e, ∀ a ∈ s.choosing env e, ∀ d ∈ s.judging env e, App.Seen a d a'

/-- The condition on the steps that judge and that send. -/
def Judicious (env : Env) (s : System) (e : Event) : Prop :=
  s.Decides env (App.Uniform env) e ∧ s.Seen env e

instance (env : Env) (s : System) (e : Event) : Decidable (s.Seen env e) := by
  unfold Seen
  infer_instance

instance (env : Env) (s : System) (e : Event) : Decidable (s.Judicious env e) := by
  unfold Judicious Decides
  infer_instance

theorem allowed_of_sending {s t : System} {e : Event} (hs : s.Remembers env (App.Uniform env))
    (hP : s.Judicious env e) (h : s.step env e = some t) {a' : App}
    (ha' : s.sending env e = some a') {f : Flight} (hq : f.request ∈ (a'.runPending env).2)
    (hchosen : f.chosen = t.chosen) (hjudged : f.judged = t.judged)
    (hgiven : f.given = s.answered e) : f.Allowed env := by
  obtain ⟨a, ha, d, hd, hchoosing, hjudging, hlisted, hsame, hsame', hpasses, huniform⟩ :=
    sending_spec hs hP.1 h ha'
  obtain ⟨live, c, p, hl, hc, hp, hrefusal, hruling, hgives⟩ := hpasses
  obtain ⟨live', key, p', hlive', hkey', hp', row, hrow, site, e', hfound, hid, -, -, haction⟩ :=
    App.makes_of_mem_runPending hq
  -- the rows, the action and the table are those of the ruling
  have hdkey : d.topKey = some c.key := by simp [App.topKey, hl, Live.topKey_of_cursor hc]
  obtain rfl : key = c.key := by
    have hk := hsame'.key
    rw [hkey', hdkey] at hk
    exact Option.some.inj hk
  have hrows : p'.rows = p.rows := by
    have hr := hsame'.rows
    rw [hp', hp] at hr
    exact Option.some.inj hr
  have haction' : p'.action = p.action := by
    have hact := hsame'.action
    rw [hp', hp] at hact
    exact Option.some.inj hact
  -- the row is listed where it was chosen
  obtain ⟨live₀, hl₀⟩ : ∃ live₀, a.live = some live₀ := by
    have hname := hsame.name
    rw [hl] at hname
    obtain ⟨live₀, hl₀, -⟩ := Option.map_eq_some_iff.1 hname.symm
    exact ⟨live₀, hl₀⟩
  obtain ⟨p₀, hp₀, hrows₀⟩ : ∃ p₀, a.pending = some p₀ ∧ p₀.rows = p.rows := by
    have hr := hsame.rows
    rw [hp] at hr
    exact Option.map_eq_some_iff.1 hr.symm
  have hdrawn := hlisted live₀ hl₀ c.key (hsame.key ▸ hdkey) p₀ hp₀ row
    (by rw [hrows₀, ← hrows]; exact hrow)
  obtain ⟨o, ho⟩ := Option.isSome_iff_exists.1 (Live.origin_isSome hdrawn)
  have hjoined := hP.2 a' ha' a hchoosing d hjudging live' hlive' c.key hkey' p' hp' live₀ hl₀ live hl
    row hrow o ho (by rw [hfound]; rfl)
  obtain ⟨hmilder, hdemand⟩ := huniform live hl c hc p hp live₀ hl₀ hrefusal hruling
  have hallows := App.allows_of_milder (hmilder row (hrows ▸ hrow) o ho hjoined) hl hc hrefusal
  refine ⟨a, hchosen ▸ ha, d, hjudged ▸ hd, live₀, hl₀, live, hl, c.key, hdkey, p, hp, ?_,
    ⟨row, hrows ▸ hrow, hid.symm⟩, ⟨o, by rw [hid]; exact ho, hjoined, hallows⟩, ?_⟩
  · rw [haction, haction']
  · rw [hgiven, hdemand]
    exact hgives

/-- What holds along the runs whose steps that judge and that send meet the condition. -/
structure Lawful (env : Env) (s : System) : Prop where
  remembers : s.Remembers env (App.Uniform env)
  allowed : ∀ f ∈ s.flying, f.Allowed env

theorem lawful_step (s : System) (e : Event) (t : System) (hs : s.Lawful env)
    (hP : s.Judicious env e) (h : s.step env e = some t) : t.Lawful env := by
  refine ⟨remembers_step s e t hs.remembers hP.1 h, ?_⟩
  intro f hf
  rcases mem_flying_step h hf with hf | ⟨a', ha', hq, -, hchosen, hjudged, hgiven⟩
  · exact hs.allowed f hf
  · exact allowed_of_sending hs.remembers hP h ha' hq hchosen hjudged hgiven

/-- **Requests are allowed by their own context**: in every run whose steps that judge and that send meet
the condition, every request was allowed by the context of its row when it was judged, and confirmed
as strongly as any row of its batch demands by its own context. -/
theorem allowed_exec (g : Guardrails) {es : List Event} {t : System}
    (hP : Run.Along (step env) (Judicious env) (init g) es)
    (hrun : Run.exec (step env) (init g) es = some t) : ∀ f ∈ t.flying, f.Allowed env :=
  (Run.exec_inv_along lawful_step ⟨remembers_init g, fun _ h => nomatch h⟩ hP hrun).allowed

/-- Two rows of two contexts that forbid alike are confirmed and sent. -/
theorem allowed_exec_merged : ∃ t, Run.exec (step vmEnv) (init {})
      (merging prodSession [vm "0" "db"] [vm "1" "web"] ++ [.browse .toggleMark,
        .browse .toggleMark, .start deleteVm, .confirmed]) = some t ∧
    t.flying.map (fun f => f.given.map Confirm.expect) = [some (some "DELETE 2"),
      some (some "DELETE 2")] ∧ ∀ f ∈ t.flying, f.Allowed vmEnv := by
  have hrun : ∃ t ∈ Run.exec (step vmEnv) (init {})
      (merging prodSession [vm "0" "db"] [vm "1" "web"] ++ [.browse .toggleMark,
        .browse .toggleMark, .start deleteVm, .confirmed]),
      t.flying.map (fun f => f.given.map Confirm.expect) = [some (some "DELETE 2"),
        some (some "DELETE 2")] := by decide +kernel
  obtain ⟨t, ht, hgiven⟩ := hrun
  exact ⟨t, ht, hgiven, allowed_exec {} (by decide +kernel) ht⟩

/-- The joined context is read-only, and the cursor is on a row of the session's own: the marked row of
the joined context is acted on. -/
theorem not_allowed_exec : ¬ ∀ (env : Env) (g : Guardrails) (es : List Event) (t : System),
    Run.exec (step env) (init g) es = some t → ∀ f ∈ t.flying, f.Allowed env := by
  intro h
  have hrun : ∃ t ∈ Run.exec (step vmEnv) (init {})
      (merging { prodSession with readonly := true } [vm "0" "db"] [vm "1" "web"] ++
        [.browse .toggleMark, .browse .toggleMark, .browse (.move .up), .start powerOn]),
      ∃ f ∈ t.flying, ¬ f.Allowed vmEnv := by decide +kernel
  obtain ⟨t, ht, f, hf, hallowed⟩ := hrun
  exact hallowed (h vmEnv {} _ t ht f hf)

end System

end Nutsh
