/-
One path from a row to a mutation.

`plan` resolves what to send for a row, `reason` says why an action cannot run, and what comes back
of a request is an `Outcome`.  Both take the ids a table cannot supply out of the row.

* `Session` — a connected Prism Central, as far as an action depends on it;
* `plan`, `Plan`, `PlanRef` — what is sent, and what of it comes back with the outcome;
* `reason` — the one refusal;
* `reason_eq_none_iff` — what it takes not to be refused.
-/
import Nutsh.Body
import Nutsh.Guardrails
import Nutsh.Store

set_option relaxedAutoImplicit false
set_option autoImplicit false

namespace Nutsh

/-- Whether a context may be called so. -/
def validName (name : String) : Bool :=
  name != "" && name.toList.all fun c => c.isAlphanum || c == '.' || c == '_' || c == '-'

/-- The name of a configured context. -/
abbrev ContextName := { name : String // validName name = true }

/-- A connected Prism Central: the context it was connected as, whether it may be written to, and
what its client answers about a kind it cannot serve. -/
structure Session where
  context : Option ContextName := none
  readonly : Bool := false
  username : String := ""
  unavailable : Kind → Option String := fun _ => none

/-- The name of the context, as the screen spells it. -/
def Session.name (s : Session) : String := (s.context.map Subtype.val).getD "(env)"

/-- No name of a context carries a tab. -/
theorem Session.tab_notMem_name (s : Session) : '\t' ∉ s.name.toList := by
  intro h
  unfold name at h
  cases hc : s.context with
  | none =>
      rw [hc] at h
      exact absurd h (by decide)
  | some c =>
      rw [hc] at h
      obtain ⟨name, hv⟩ := c
      simp only [validName, Bool.and_eq_true, List.all_eq_true] at hv
      exact absurd (hv.2 _ h) (by decide)

/-! ### What to send -/

structure Plan where
  kind : Kind
  extId : String
  name : String
  action : Action
  body : Option Json
  parents : List String
  /-- The kind of the row, which a refresh is issued against. -/
  rowKind : Kind

/-- The part of a plan that travels with the outcome. -/
structure PlanRef where
  kind : Kind
  extId : String
  name : String
  action : Action
  rowKind : Kind
  deriving DecidableEq

def Plan.toRef (p : Plan) : PlanRef :=
  { kind := p.kind, extId := p.extId, name := p.name, action := p.action, rowKind := p.rowKind }

/-- What came of a request. -/
inductive Outcome where
  /-- The id of the task that was started. -/
  | started (task : String)
  | done
  | returned (value : Json)
  | failed (failure : Failure) (forbidden : Bool)

def noParent : String := "needs a parent this table cannot supply"

def readOnlySession : String := "read-only session"

def taskKindId : String := "prism.config.Task"

def notCancelable : String := "not cancelable"

/-- The id at a path of a row. -/
def parentAt (entity : Entity) (path : String) : Option String :=
  (Path.first entity.raw path).bind Json.asStr

/-- The request for a row: against the kind whose actions it borrows, under the parents of the table
and those read out of the row. -/
def plan (catalog : Catalog) (kind : Kind) (entity : Entity) (action : Action)
    (tableParents : List String) (body : Option Json) : Except String Plan :=
  match kind.actionParents.mapM (parentAt entity) with
  | none => .error noParent
  | some own =>
      if (tableParents ++ own).length ≠ action.parentsNeeded then .error noParent
      else
        .ok {
          kind := kind.actionTarget catalog, extId := entity.extId, name := entity.name, action,
          body, parents := tableParents ++ own, rowKind := kind }

/-! ### Why an action cannot run -/

/-- What of the session a refusal depends on. -/
structure Policy where
  session : Session
  guardrails : Guardrails
  canI : CanIndex

/-- Whether a task row may be cancelled; no row is no refusal. -/
def cancelable : Option Entity → Bool
  | none => true
  | some e => (e.raw.get "isCancelable").bind Json.asBool == some true

/-- The number of parents the table and the row supply. -/
def supplied (kind : Kind) (tableParents : List String) (entity : Option Entity) : ℕ :=
  tableParents.length +
    (kind.actionParents.filter fun p => entity.any fun e => (parentAt e p).isSome).length

/-- The verdict of the guardrails, worded. -/
def wording (count : ℕ) : Verdict → Option String
  | .readOnly => some readOnlySession
  | .deny none => some "denied by a guardrail"
  | .deny (some why) => some s!"denied: {why}"
  | .notPermitted roles =>
      let roles := ", ".intercalate roles
      some s!"not permitted: needs {roles}"
  | .tooMany cap => some s!"{count} marked, this guardrail allows {cap} at a time"
  | .confirm _ => none
  | .allow => none

/-- Why an action cannot run on a row of a kind, `none` when it can. -/
def reason (catalog : Catalog) (policy : Policy) (kind : Kind) (action : Action)
    (tableParents : List String) (entity : Option Entity) (count : ℕ) : Option String :=
  if policy.session.readonly || policy.guardrails.readonly then some readOnlySession
  else
    match policy.session.unavailable (kind.actionTarget catalog) with
    | some why => some why
    | none =>
        if kind.id == taskKindId && action.name == "cancel" && !cancelable entity then
          some notCancelable
        else if supplied kind tableParents entity ≠ action.parentsNeeded then some noParent
        else if action.needsBody && action.form.isEmpty && action.body.isNone then
          some "needs a request body this catalog cannot describe"
        else
          wording count (policy.guardrails.verdict policy.session.name kind action count
            (policy.canI.can action))

theorem wording_eq_none_iff {count : ℕ} {v : Verdict} : wording count v = none ↔ v.passes = true := by
  cases v with
  | deny why => cases why <;> simp [wording, Verdict.passes]
  | allow | confirm | readOnly | notPermitted | tooMany => simp [wording, Verdict.passes]

/-- What it takes not to be refused. -/
theorem reason_eq_none_iff {catalog : Catalog} {policy : Policy} {kind : Kind} {action : Action}
    {tableParents : List String} {entity : Option Entity} {count : ℕ} :
    reason catalog policy kind action tableParents entity count = none ↔
      policy.session.readonly = false ∧
      policy.session.unavailable (kind.actionTarget catalog) = none ∧
      (kind.id = taskKindId → action.name = "cancel" → cancelable entity = true) ∧
      supplied kind tableParents entity = action.parentsNeeded ∧
      (action.needsBody && action.form.isEmpty && action.body.isNone) = false ∧
      (policy.guardrails.verdict policy.session.name kind action count
        (policy.canI.can action)).passes = true := by
  have hcancel : (kind.id == taskKindId && action.name == "cancel" && !cancelable entity) = false ↔
      (kind.id = taskKindId → action.name = "cancel" → cancelable entity = true) := by
    by_cases hkind : kind.id = taskKindId <;> by_cases hname : action.name = "cancel" <;>
      simp [hkind, hname]
  have hreadonly : (policy.guardrails.verdict policy.session.name kind action count
      (policy.canI.can action)).passes = true → policy.guardrails.readonly = false := by
    intro h
    exact (Guardrails.passes_verdict_iff.1 h).1
  constructor
  · intro h
    unfold reason at h
    split at h
    · cases h
    rename_i hro
    split at h
    · cases h
    rename_i hserved
    split at h
    · cases h
    rename_i hc
    split at h
    · cases h
    rename_i hparents
    split at h
    · cases h
    rename_i hbody
    rw [Bool.not_eq_true, Bool.or_eq_false_iff] at hro
    rw [Bool.not_eq_true] at hc hbody
    exact ⟨hro.1, hserved, hcancel.1 hc, not_not.1 hparents, hbody, wording_eq_none_iff.1 h⟩
  · rintro ⟨hro, hserved, hc, hparents, hbody, hverdict⟩
    unfold reason
    rw [hro, hreadonly hverdict, hserved]
    simp only [Bool.or_self, Bool.false_eq_true, if_false, hcancel.2 hc, hparents, hbody, ne_eq,
      not_true_eq_false]
    exact wording_eq_none_iff.2 hverdict

end Nutsh
