/-
The local rules that can refuse a mutation, and whether the account may perform it.

A rule names contexts, kinds and actions by globs and denies what it matches, sets the confirmation
it demands, or caps how many rows may be acted on at once.  The verdict is taken in a fixed order:
read-only, the first denying rule, the roles of the account, the cap, the confirmation.

* `CanIndex.can` — what the roles of an account say about an action, unknown until they are resolved;
* `CanICell` — the answer of a session, with the generation a resolution was claimed under;
* `glob` — the matcher of the rules;
* `Guardrails.verdict` — the verdict;
* `Guardrails.passes_verdict_iff` — what it takes to be let through.
-/
import Nutsh.Catalog

set_option relaxedAutoImplicit false
set_option autoImplicit false

namespace Nutsh

/-! ### The roles of the account -/

/-- Whether the account may perform an action. -/
inductive CanI where
  | yes (via : String)
  | no (missing : List String)
  | unknown (why : String)
  deriving DecidableEq, Repr

/-- The roles a session resolved, or why it could not. -/
structure CanIndex where
  roles : Option (List String) := none
  why : Option String := none
  deriving DecidableEq, Repr

def CanI.isNo : CanI → Bool
  | no _ => true
  | _ => false

namespace CanIndex

def withRoles (roles : List String) : CanIndex := { roles := some roles }

def unknown (why : String) : CanIndex := { why := some why }

/-- What the index says about an action: only resolved roles ever say no. -/
def can (index : CanIndex) (action : Action) : CanI :=
  match index.roles with
  | none => .unknown (index.why.getD "resolving authorization policies")
  | some roles =>
      if action.roles.isEmpty then .unknown "the spec lists no roles for this operation"
      else
        match roles.find? fun mine => action.roles.any fun r => Text.lower r == Text.lower mine with
        | some via => .yes via
        | none => .no action.roles

end CanIndex

/-- The answer of a session, resolved in the background. -/
structure CanICell where
  index : CanIndex := {}
  claimed : Bool := false
  generation : ℕ := 0
  deriving DecidableEq, Repr

namespace CanICell

/-- The generation to resolve for, to the first caller only. -/
def claim (c : CanICell) : CanICell × Option ℕ :=
  if c.claimed then (c, none) else ({ c with claimed := true }, some c.generation)

/-- A resolution that comes back; one of an invalidated generation is dropped. -/
def set (c : CanICell) (generation : ℕ) (index : CanIndex) : CanICell :=
  if c.generation = generation then { c with index } else c

/-- The roles the cache held, until someone claims the resolution. -/
def restore (c : CanICell) (index : CanIndex) : CanICell :=
  if c.claimed then c else { c with index }

/-- A 403: the next caller resolves anew. -/
def invalidate (c : CanICell) : CanICell := { generation := c.generation + 1 }

end CanICell

/-! ### The rules -/

inductive Verdict where
  | allow
  | confirm (kind : ConfirmKind)
  | readOnly
  | deny (reason : Option String)
  | notPermitted (missing : List String)
  | tooMany (max : ℕ)
  deriving DecidableEq, Repr

/-- Whether a verdict lets an action through, confirmed or not. -/
def Verdict.passes : Verdict → Bool
  | allow => true
  | confirm _ => true
  | _ => false

structure Rule where
  contexts : List String := []
  kinds : List String := []
  actions : List String := []
  deny : Bool := false
  reason : Option String := none
  confirm : Option ConfirmKind := none
  maxBulk : Option ℕ := none
  deriving DecidableEq, Repr

/-- The UTF-8 bytes of a text. -/
def utf8 (s : String) : List UInt8 := s.toList.flatMap String.utf8EncodeChar

/-- An ASCII letter in lower case, any other byte as it is. -/
def lowerByte (b : UInt8) : UInt8 := if 65 ≤ b ∧ b ≤ 90 then b + 32 else b

/-- The loop of `glob`: what is left of the pattern and of the text, and, after a `*`, the pattern
behind it and the text from where it stopped swallowing.  The fuel bounds the iterations. -/
def globFrom : ℕ → List UInt8 → List UInt8 → Option (List UInt8 × List UInt8) → Bool
  | 0, _, _, _ => false
  -- the text is used up, and trailing stars match nothing
  | _ + 1, p, [], _ => p.all (· == 42)
  | fuel + 1, p, c :: t, star =>
      -- the last `*` swallows one more byte
      let again :=
        match star with
        | some (after, _ :: rest) => globFrom fuel after rest (some (after, rest))
        | _ => false
      match p with
      | [] => again
      | b :: p =>
          if b = 42 then globFrom fuel p (c :: t) (some (p, c :: t))
          else if b = 63 then globFrom fuel p t star
          else if lowerByte b = lowerByte c then globFrom fuel p t star
          else again

/-- `*` and `?` over bytes, letters compared without their case.  Between two bytes swallowed by the
last `*` the pattern and the text are walked once, which the fuel leaves room for. -/
def glob (pattern text : String) : Bool :=
  let p := utf8 pattern
  let t := utf8 text
  globFrom ((t.length + 1) * (p.length + t.length + 1) + 1) p t none

/-- Whether one of the globs accepts; an absent list accepts everything. -/
def anyGlob (globs : List String) (f : String → Bool) : Bool := globs.isEmpty || globs.any f

/-- Whether a rule is about an action of a kind in a context. -/
def Rule.isAbout (r : Rule) (context : String) (kind : Kind) (action : Action) : Bool :=
  (anyGlob r.contexts fun g => glob g context) &&
    (anyGlob r.kinds fun g =>
      glob g kind.id || glob g kind.display || kind.aliases.any fun a => glob g a) &&
    (anyGlob r.actions fun g => glob g action.name)

/-- Marked rows one action may touch at once when no rule says otherwise. -/
def defaultMaxBulk : ℕ := 5

/-- The rules every configuration ends with. -/
def builtIn : List Rule :=
  [{ actions := ["delete"], confirm := some .typeName },
    { actions := ["power-off", "power-cycle", "reset", "reboot", "shutdown", "guest-shutdown",
        "guest-reboot", "revert", "enter-host-maintenance"],
      confirm := some .yes },
    { maxBulk := some defaultMaxBulk }]

structure Guardrails where
  readonly : Bool := false
  rules : List Rule := builtIn
  deriving DecidableEq, Repr

namespace Guardrails

/-- The rules about an action of a kind in a context, in their order. -/
def matching (g : Guardrails) (context : String) (kind : Kind) (action : Action) : List Rule :=
  g.rules.filter fun r => r.isAbout context kind action

/-- The confirmation the rules demand, never less than the action's own. -/
def floor (g : Guardrails) (context : String) (kind : Kind) (action : Action) : ConfirmKind :=
  max (((g.matching context kind action).findSome? Rule.confirm).getD .none) action.confirm

/-- How many rows the rules allow an action at once. -/
def cap (g : Guardrails) (context : String) (kind : Kind) (action : Action) : ℕ :=
  ((g.matching context kind action).findSome? Rule.maxBulk).getD defaultMaxBulk

/-- The verdict on an action of a kind over a number of rows of a context. -/
def verdict (g : Guardrails) (context : String) (kind : Kind) (action : Action) (count : ℕ)
    (canI : CanI) : Verdict :=
  if g.readonly then .readOnly
  else
    match (g.matching context kind action).find? Rule.deny with
    | some denied => .deny denied.reason
    | none =>
        match canI with
        | .no missing => .notPermitted missing
        | _ =>
            if g.cap context kind action < count then .tooMany (g.cap context kind action)
            else
              match g.floor context kind action with
              | .none => .allow
              | k => .confirm k

/-- Whether a rule denies an action of a kind in a context. -/
def denies (g : Guardrails) (context : String) (kind : Kind) (action : Action) : Bool :=
  (g.matching context kind action).any Rule.deny

/-- A verdict lets an action through when nothing forbids it: the whole configuration, a rule, the
roles, or the number of rows. -/
theorem passes_verdict_iff {g : Guardrails} {context : String} {kind : Kind} {action : Action}
    {count : ℕ} {canI : CanI} :
    (g.verdict context kind action count canI).passes = true ↔
      g.readonly = false ∧ g.denies context kind action = false ∧ canI.isNo = false ∧
        count ≤ g.cap context kind action := by
  have hdenies : g.denies context kind action =
      ((g.matching context kind action).find? Rule.deny).isSome := by
    rw [Bool.eq_iff_iff, denies, List.any_eq_true, List.find?_isSome]
  unfold verdict
  cases hr : g.readonly with
  | true => simp [Verdict.passes]
  | false =>
      cases hd : (g.matching context kind action).find? Rule.deny with
      | some denied => simp [hdenies, hd, Verdict.passes]
      | none =>
          cases canI with
          | no missing => simp [Verdict.passes, CanI.isNo]
          | yes | unknown =>
              simp only [hdenies, hd, Option.isSome_none, CanI.isNo, true_and, if_false,
                Bool.false_eq_true]
              by_cases hcap : g.cap context kind action < count
              · simp [hcap, Verdict.passes]
              · simp only [hcap, if_false]
                cases g.floor context kind action <;> simp [Verdict.passes] <;> omega

/-- A verdict that lets an action through demands the confirmation of the rules. -/
theorem verdict_eq_confirm {g : Guardrails} {context : String} {kind : Kind} {action : Action}
    {count : ℕ} {canI : CanI} {k : ConfirmKind}
    (h : g.verdict context kind action count canI = .confirm k) :
    g.floor context kind action = k ∧ k ≠ .none := by
  unfold verdict at h
  split at h
  · cases h
  split at h
  · cases h
  split at h
  · cases h
  split at h
  · cases h
  split at h
  · cases h
  · rename_i hne
    have hk := Verdict.confirm.inj h
    exact ⟨hk, hk ▸ hne⟩

theorem verdict_eq_allow {g : Guardrails} {context : String} {kind : Kind} {action : Action}
    {count : ℕ} {canI : CanI} (h : g.verdict context kind action count canI = .allow) :
    g.floor context kind action = .none := by
  unfold verdict at h
  split at h
  · cases h
  split at h
  · cases h
  split at h
  · cases h
  split at h
  · cases h
  split at h
  · assumption
  · cases h

end Guardrails

end Nutsh
