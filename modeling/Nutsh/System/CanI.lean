/-
What `:can-i` says, and what the surfaces say.

The palette is asked whether an action can run on a kind, and answers for the row under the cursor when
the kind is the one in view.  The menu, the picker and the detail grey the same action, and its key
refuses it.  They ask the same question of different policies: the palette that of the session and of one
row, the surfaces that of the context the row is from and of the rows marked.

Main definitions:

* `App.canIReason`, `App.canICommand` — what the palette finds, and what it says;
* `App.keyRefusal` — why the key of an action refuses it;
* `App.Agrees` — the palette and the surfaces find the same;
* `App.JudgedAlike` — the two policies judge alike;
* `Availability` — what a client answers about a kind.

Main results:

* `reason_eq` — a refusal is the first of what the session, the row and the guardrails say;
* `barLike_bars`, `not_barLike_misfit`, `not_barLike_words` — no session speaks as a row or a guardrail
  does;
* `App.agrees_iff` — the palette and the surfaces agree exactly when the policies judge alike.
-/
import Nutsh.Lookup
import Nutsh.System.Surfaces

set_option relaxedAutoImplicit false
set_option autoImplicit false

namespace Nutsh

/-! ### The parts of a refusal -/

/-- What a client answers about a kind. -/
inductive Availability where
  | served
  | namespaceUnavailable (detail : String)
  /-- The kind is younger than the version of its namespace that is spoken. -/
  | notServedAtPin («namespace» since pinned : String)
  | listNotFound
  deriving DecidableEq, Repr

/-- Why a kind cannot be served. -/
def Availability.reason : Availability → Option String
  | served => none
  | namespaceUnavailable _ => some "namespace not served"
  | notServedAtPin ns since pinned => some s!"needs {ns} {since} (this PC pinned {pinned})"
  | listNotFound => some "not served by this Prism Central (HTTP 404)"

/-- Whatever a session says of a kind is what its client answers. -/
def Session.Speaks (s : Session) : Prop := ∀ kind, ∃ a : Availability, s.unavailable kind = a.reason

/-- What the session says, whatever the row. -/
def Policy.bars (p : Policy) (target : Kind) : Option String :=
  if p.session.readonly || p.guardrails.readonly then some readOnlySession
  else p.session.unavailable target

/-- What the row says, whoever asks. -/
def misfit (kind : Kind) (action : Action) (tableParents : List String) (entity : Option Entity) :
    Option String :=
  if kind.id == taskKindId && action.name == "cancel" && !cancelable entity then some notCancelable
  else if supplied kind tableParents entity ≠ action.parentsNeeded then some noParent
  else if action.needsBody && action.form.isEmpty && action.body.isNone then
    some "needs a request body this catalog cannot describe"
  else none

/-- What the guardrails say. -/
def Policy.words (p : Policy) (kind : Kind) (action : Action) (count : ℕ) : Option String :=
  wording count (p.guardrails.verdict p.session.name kind action count (p.canI.can action))

/-- A refusal is the first of what the session, the row and the guardrails say. -/
theorem reason_eq {catalog : Catalog} {p : Policy} {kind : Kind} {action : Action}
    {tableParents : List String} {entity : Option Entity} {count : ℕ} :
    reason catalog p kind action tableParents entity count =
      (p.bars (kind.actionTarget catalog)).or
        ((misfit kind action tableParents entity).or (p.words kind action count)) := by
  rw [reason, Policy.bars, misfit, Policy.words]
  split
  · rfl
  cases p.session.unavailable (kind.actionTarget catalog) with
  | some why => rfl
  | none =>
      dsimp only
      split
      · rfl
      split
      · rfl
      split <;> rfl

/-! ### No session speaks as a row does -/

/-- A text ends and begins as the words of a session do. -/
def BarLike (s : String) : Prop :=
  (s.toList.getLast? = some 'n' ∨ s.toList.getLast? = some 'd' ∨ s.toList.getLast? = some ')') ∧
    (s.toList.take 5 = "read-".toList ∨ s.toList.take 5 = "names".toList ∨
      s.toList.take 5 = "needs".toList ∨ s.toList.take 5 = "not s".toList)

instance (s : String) : Decidable (BarLike s) := inferInstanceAs (Decidable (_ ∧ _))

theorem last_append {s t : String} (h : t.toList ≠ []) :
    (s ++ t).toList.getLast? = t.toList.getLast? := by
  rw [String.toList_append, List.getLast?_append_of_ne_nil _ h]

theorem barLike_reason {a : Availability} {s : String} (h : a.reason = some s) : BarLike s := by
  cases a with
  | served => cases h
  | namespaceUnavailable detail =>
      cases h
      decide +kernel
  | listNotFound =>
      cases h
      decide +kernel
  | notServedAtPin ns since pinned =>
      cases h
      refine ⟨.inr (.inr ?_), .inr (.inr (.inl ?_))⟩
      · exact last_append (t := ")") (by decide)
      · have hhead : ("needs " : String).toList = "needs".toList ++ [' '] := rfl
        simp [toString, String.toList_append, hhead]

theorem barLike_bars {p : Policy} (hspeaks : p.session.Speaks) {target : Kind} {s : String}
    (h : p.bars target = some s) : BarLike s := by
  rw [Policy.bars] at h
  split at h
  · cases h
    decide +kernel
  · obtain ⟨a, ha⟩ := hspeaks target
    exact barLike_reason (ha.symm.trans h)

theorem not_barLike_misfit {kind : Kind} {action : Action} {tableParents : List String}
    {entity : Option Entity} {s : String} (h : misfit kind action tableParents entity = some s) :
    ¬ BarLike s := by
  rw [misfit] at h
  split at h
  · cases h
    decide +kernel
  split at h
  · cases h
    decide +kernel
  split at h
  · cases h
    decide +kernel
  · cases h

theorem verdict_ne_readOnly {g : Guardrails} (hro : g.readonly = false) {context : String} {kind : Kind}
    {action : Action} {count : ℕ} {canI : CanI} : g.verdict context kind action count canI ≠ .readOnly := by
  intro h
  unfold Guardrails.verdict at h
  split at h
  case isTrue hro' =>
    rw [hro] at hro'
    cases hro'
  split at h
  · cases h
  split at h
  · cases h
  split at h
  · cases h
  split at h
  · cases h
  · cases h

/-- The words of a guardrail are no session's, unless the guardrails themselves are read-only. -/
theorem not_barLike_words {p : Policy} (hro : p.guardrails.readonly = false) {kind : Kind} {action : Action}
    {count : ℕ} {s : String} (h : p.words kind action count = some s) : ¬ BarLike s := by
  rintro ⟨hlast, hhead⟩
  rw [Policy.words] at h
  cases hverdict : p.guardrails.verdict p.session.name kind action count (p.canI.can action) with
  | allow =>
      rw [hverdict] at h
      cases h
  | confirm kind =>
      rw [hverdict] at h
      cases h
  | readOnly =>
      exact absurd hverdict (verdict_ne_readOnly hro)
  | deny why =>
      rw [hverdict] at h
      cases why with
      | none =>
          cases h
          revert hlast
          decide +kernel
      | some why =>
          cases h
          have hdenied : ("denied: " : String).toList = "denie".toList ++ "d: ".toList := rfl
          simp [toString, String.toList_append, hdenied] at hhead
  | notPermitted roles =>
      rw [hverdict] at h
      cases h
      have hpermitted : ("not permitted: needs " : String).toList =
          "not p".toList ++ "ermitted: needs ".toList := rfl
      simp [toString, String.toList_append, hpermitted] at hhead
  | tooMany cap =>
      rw [hverdict] at h
      cases h
      have htime : (s!"{count} marked, this guardrail allows {cap} at a time" : String).toList.getLast? =
          some 'e' := last_append (t := " at a time") (by decide)
      rw [htime] at hlast
      revert hlast
      decide

/-- **Two refusals of one row.**  They are the same exactly when the sessions say the same and, unless one
of them or the row refuses already, so do the guardrails. -/
theorem refusals_eq_iff (p p' : Policy) (hp : p.session.Speaks) (hp' : p'.session.Speaks)
    {target : Kind} {row : Option String} (hrow : ∀ s, row = some s → ¬ BarLike s) {kind : Kind}
    {action : Action} {n n' : ℕ} :
    (p.bars target).or (row.or (p.words kind action n)) =
        (p'.bars target).or (row.or (p'.words kind action n')) ↔
      p.bars target = p'.bars target ∧
        (p.bars target = none → row = none → p.words kind action n = p'.words kind action n') := by
  -- What is left once a session says nothing is no session's text.
  have hrest : ∀ {q : Policy} {m : ℕ} {s : String}, q.bars target = none →
      row.or (q.words kind action m) = some s → ¬ BarLike s := by
    intro q m s hnone hsome
    have hro : q.guardrails.readonly = false := by
      rw [Policy.bars] at hnone
      split at hnone
      · cases hnone
      case isFalse hro => exact (Bool.or_eq_false_iff.1 (Bool.not_eq_true _ ▸ hro)).2
    cases hr : row with
    | some r =>
        rw [hr] at hsome
        exact hrow s (hr.trans hsome)
    | none =>
        rw [hr] at hsome
        exact not_barLike_words hro hsome
  cases hbar : p.bars target with
  | some s =>
      cases hbar' : p'.bars target with
      | some s' => simp
      | none =>
          refine iff_of_false (fun h => ?_) (fun h => nomatch h.1)
          exact hrest hbar' h.symm (barLike_bars hp hbar)
  | none =>
      cases hbar' : p'.bars target with
      | some s' =>
          refine iff_of_false (fun h => ?_) (fun h => nomatch h.1)
          exact hrest hbar h (barLike_bars hp' hbar')
      | none =>
          cases row with
          | some r => simp
          | none => simp

/-! ### The palette and the surfaces -/

namespace App

variable (env : Env)

/-- What the palette finds of an action of a kind.  The row under the cursor answers when the kind is the
one in view. -/
def canIReason (app : App) (live : Live) (kind : Kind) (action : Action) : Option String :=
  let asked : List String × Option Entity :=
    match live.cursor with
    | some c => if c.key.kind.id == kind.id then (c.key.parents, app.selectedEntity env) else ([], none)
    | none => ([], none)
  Nutsh.reason env.catalog
    { session := live.session, guardrails := app.guardrails, canI := live.canI.index }
    kind action asked.1 asked.2 1

/-- The answer of the palette, worded. -/
def canIText (canI : CanI) : Option String → String
  | some why => why
  | none =>
      match canI with
      | .yes via => s!"allowed (via {via})"
      | .unknown why => s!"unknown - {why}"
      | .no missing =>
          let roles := ", ".intercalate missing
          s!"not permitted: needs {roles}"

def canISentence (action display text : String) : String := s!"{action} on {display}: {text}"

/-- `:can-i` with its arguments. -/
def canICommand (app : App) (args : List String) : App :=
  let app := app.startCanI
  match args with
  | [actionName, kindTerm] =>
      match (env.catalog.lookup kindTerm).head? with
      | none => { app with status := some s!"no kind matching {kindTerm}" }
      | some kind =>
          let display := kind.display
          match (kind.actionTarget env.catalog).action actionName with
          | none => { app with status := some s!"no action {actionName} on {display}" }
          | some action =>
              match app.live with
              | none => { app with status := some "not connected" }
              | some live =>
                  let text := canIText (live.canI.index.can action) (app.canIReason env live kind action)
                  { app with status := some (canISentence actionName display text) }
  | _ => { app with status := some ":can-i takes an action and a kind" }

/-- Why the key of an action refuses it. -/
def keyRefusal (app : App) (action : Action) : Option String :=
  app.startCanI.refusal env action (max (app.startCanI.subjects env).length 1)

/-- The palette finds what the rows of the surfaces are greyed with, and what the key refuses with. -/
def Agrees (app : App) (live : Live) (kind : Kind) (action : Action) : Prop :=
  (∀ row ∈ app.actionRows env, row.action = action → row.reason = app.canIReason env live kind action) ∧
    app.keyRefusal env action = app.canIReason env live kind action

/-- The policy of the palette. -/
def ownPolicy (app : App) (live : Live) : Policy :=
  { session := live.session, guardrails := app.guardrails, canI := live.canI.index }

/-- The session and the context of the row under the cursor say the same, and so do the guardrails of one
row of the session and of the rows marked, unless a session or the row refuses already. -/
def JudgedAlike (app : App) (live : Live) (c : Live.Cursor) (action : Action) : Prop :=
  let own := app.ownPolicy live
  let row := app.policyFor live (app.cursorSite env live c)
  let target := c.key.kind.actionTarget env.catalog
  own.bars target = row.bars target ∧
    (own.bars target = none →
      misfit c.key.kind action c.key.parents (app.selectedEntity env) = none →
        own.words c.key.kind action 1 =
          row.words c.key.kind action (max (app.subjects env).length 1))

variable {env : Env} {app : App} {live : Live} {c : Live.Cursor} {action : Action} {term : String}

/-- A key that refuses records its reason and says it. -/
theorem pend_of_keyRefusal {why : String} (h : app.keyRefusal env action = some why) :
    app.pend env action =
      .error { app.startCanI.journalRefusal action (app.startCanI.subjects env) why with
        status := some why } := by
  rw [keyRefusal] at h
  simp only [pend, h]

theorem canIReason_eq (hc : live.cursor = some c) :
    app.canIReason env live c.key.kind action =
      Nutsh.reason env.catalog (app.ownPolicy live) c.key.kind action c.key.parents
        (app.selectedEntity env) 1 := by
  simp only [canIReason, hc, beq_self_eq_true, if_true]
  rfl

theorem refusalFor_eq (hl : app.live = some live) (hc : live.cursor = some c) (n : ℕ) (e : Option Entity) :
    app.refusalFor env action n e =
      Nutsh.reason env.catalog (app.policyFor live (app.cursorSite env live c)) c.key.kind action
        c.key.parents e n := by
  simp only [refusalFor, hl, hc]

theorem keyRefusal_eq (app : App) (action : Action) :
    app.keyRefusal env action = app.refusalFor env action (max (app.subjects env).length 1)
      (app.selectedEntity env) := by
  rw [keyRefusal, refusal_startCanI, subjects_startCanI, refusal]

theorem speaks_sessionFor (hown : live.session.Speaks) (hpeers : ∀ p ∈ live.peers, p.session.Speaks)
    (site : Option String) : (live.sessionFor site).Speaks := by
  rw [Live.sessionFor]
  cases hpeer : site.bind live.peer with
  | none => exact hown
  | some p =>
      obtain ⟨name, -, hname⟩ := Option.bind_eq_some_iff.1 hpeer
      exact hpeers p (List.mem_of_find?_eq_some hname)

/-- The palette answers a question about an action of the kind in view with what it finds. -/
theorem status_canICommand (hl : app.live = some live)
    (hkind : (env.catalog.lookup term).head? = some c.key.kind)
    (haction : (c.key.kind.actionTarget env.catalog).action action.name = some action) :
    (app.canICommand env [action.name, term]).status =
      some (canISentence action.name c.key.kind.display (canIText (live.canI.index.can action)
        (app.canIReason env live c.key.kind action))) := by
  have hindex : live.canI.claim.1.index = live.canI.index := by
    unfold CanICell.claim
    split <;> rfl
  have hentity : app.startCanI.selectedEntity env = app.selectedEntity env :=
    selectedEntity_pended app app.pending
  have hlive : app.startCanI.live = some { live with canI := live.canI.claim.1 } := by
    simp [startCanI, mapLive, hl]
  have hreason : app.startCanI.canIReason env { live with canI := live.canI.claim.1 } c.key.kind action =
      app.canIReason env live c.key.kind action := by
    simp only [canIReason, hentity, hindex]
    rfl
  simp only [canICommand, hkind, haction, hlive, hindex, hreason]

theorem agrees_iff (hl : app.live = some live) (hc : live.cursor = some c)
    (hown : live.session.Speaks) (hpeers : ∀ p ∈ live.peers, p.session.Speaks) :
    app.Agrees env live c.key.kind action ↔ app.JudgedAlike env live c action := by
  have hkey : app.keyRefusal env action = app.canIReason env live c.key.kind action ↔
      app.JudgedAlike env live c action := by
    rw [keyRefusal_eq, refusalFor_eq hl hc, canIReason_eq hc, reason_eq, reason_eq]
    exact eq_comm.trans (refusals_eq_iff (app.ownPolicy live) (app.policyFor live _) hown
      (speaks_sessionFor hown hpeers _) fun s hs => not_barLike_misfit hs)
  rw [← hkey]
  refine ⟨And.right, fun h => ⟨fun row hrow haction => ?_, h⟩⟩
  -- A row of the menu is greyed with what the key refuses with.
  have hcursor : app.cursor = some c := by
    rw [cursor, hl]
    exact hc
  rw [actionRows, hcursor] at hrow
  obtain ⟨a, -, rfl⟩ := List.mem_map.1 hrow
  rw [← h, keyRefusal_eq]
  exact haction ▸ rfl

/-- **The palette and the surfaces.**  Asked about an action of the kind in view the palette answers what
it finds, and that is what the menu, the picker and the detail grey the action with and what its key
refuses it with, exactly when the policies judge alike. -/
theorem canI_agrees_iff (hl : app.live = some live) (hc : live.cursor = some c)
    (hkind : (env.catalog.lookup term).head? = some c.key.kind)
    (haction : (c.key.kind.actionTarget env.catalog).action action.name = some action)
    (hown : live.session.Speaks) (hpeers : ∀ p ∈ live.peers, p.session.Speaks) :
    (app.canICommand env [action.name, term]).status =
        some (canISentence action.name c.key.kind.display (canIText (live.canI.index.can action)
          (app.canIReason env live c.key.kind action))) ∧
      (app.Agrees env live c.key.kind action ↔ app.JudgedAlike env live c action) :=
  ⟨status_canICommand hl hkind haction, agrees_iff hl hc hown hpeers⟩

/-- One table of the session's own, with no row. -/
def vmLive : Live :=
  { session := labSession, scheduler := { epoch := 1 },
    stack := [.table { key := TableKey.top actedVmKind, sub := 1 }] }

def vmApp : App := { live := some vmLive }

theorem canI_agrees_iff_own :
    (vmApp.canICommand vmEnv ["power-on", "vmm.ahv.config.Vm"]).status =
        some (canISentence "power-on" "VMs" (canIText (vmLive.canI.index.can powerOn)
          (vmApp.canIReason vmEnv vmLive actedVmKind powerOn))) ∧
      (vmApp.Agrees vmEnv vmLive actedVmKind powerOn ↔
        vmApp.JudgedAlike vmEnv vmLive
          { key := TableKey.top actedVmKind, selected := 0, columns := [], marks := some [] } powerOn) := by
  have hnamed : (vmEnv.catalog.filterMap fun k =>
      (Catalog.rank "vmm.ahv.config.Vm" k).map fun r => (r, k)) = [(0, actedVmKind)] := by decide +kernel
  have hkind : (vmEnv.catalog.lookup "vmm.ahv.config.Vm").head? = some actedVmKind := by
    rw [Catalog.lookup, hnamed, List.mergeSort_singleton]
    rfl
  have hown : vmLive.session.Speaks := fun _ => ⟨.served, rfl⟩
  have hpeers : ∀ p ∈ vmLive.peers, p.session.Speaks := fun _ hp => nomatch hp
  have haction : (actedVmKind.actionTarget vmEnv.catalog).action powerOn.name = some powerOn := rfl
  have hl : vmApp.live = some vmLive := rfl
  exact canI_agrees_iff hl rfl hkind haction hown hpeers

/-- The cursor is on a row of a joined context that is read-only: the menu greys every action, and the
palette finds nothing against it. -/
theorem not_agrees : ¬ ∀ (env : Env) (g : Guardrails) (es : List Event) (t : System),
    Run.exec (System.step env) (System.init g) es = some t →
      ∀ (live : Live) (c : Live.Cursor) (action : Action), t.app.live = some live → live.cursor = some c →
        action ∈ (c.key.kind.actionTarget env.catalog).actions →
          t.app.Agrees env live c.key.kind action := by
  intro h
  have hrun : ∃ t ∈ Run.exec (System.step vmEnv) (System.init {})
      (merging { prodSession with readonly := true } [vm "0" "db"] [vm "1" "web"] ++
        [.browse (.move .down)]),
      (t.app.live.any fun live => live.cursor.any fun c =>
        (c.key.kind.actionTarget vmEnv.catalog).actions.contains powerOn &&
          t.app.keyRefusal vmEnv powerOn != t.app.canIReason vmEnv live c.key.kind powerOn) = true := by
    decide +kernel
  obtain ⟨t, ht, hdiffer⟩ := hrun
  cases hl : t.app.live with
  | none =>
      rw [hl] at hdiffer
      cases hdiffer
  | some live =>
      rw [hl, Option.any_some] at hdiffer
      cases hc : live.cursor with
      | none =>
          rw [hc] at hdiffer
          cases hdiffer
      | some c =>
          rw [hc, Option.any_some, Bool.and_eq_true] at hdiffer
          obtain ⟨hoffered, hdiffer⟩ := hdiffer
          have hagrees := h vmEnv {} _ t ht live c powerOn hl hc (List.contains_iff_mem.1 hoffered)
          exact bne_iff_ne.1 hdiffer hagrees.2

end App

end Nutsh
