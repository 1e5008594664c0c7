/-
Contexts removed and replaced.

The config file names the contexts; a password is kept under the account of its context, which is the
user, the host and the port, and not under the context's name.  Removing a context saves the file and
then deletes the password of its account; replacing one does so when the new entry is of another account.
Another context may be of the same account.

* `Context`, `Config`, `Saved` — the file, and what is kept beside it;
* `Add`, `remove`, `add`, `Edit.run` — the two ways a password is deleted;
* `Edit.dropped` — the key an edit deletes;
* `leavesOthers_iff` — when an edit leaves every other context as reachable as it was.
-/
import Nutsh.Actions
import Nutsh.Secrets

set_option relaxedAutoImplicit false
set_option autoImplicit false

namespace Nutsh.Contexts

/-! ### The file -/

/-- One Prism Central, and whether it may be written to. -/
structure Context where
  host : String
  port : UInt16 := 9440
  username : String
  verifyTls : Bool := true
  caBundle : Option String := none
  cluster : Option String := none
  readonly : Bool := false
  skin : Option String := none
  deriving DecidableEq

/-- The account a password is kept under. -/
def secretKey (username host : String) (port : UInt16) : String := s!"{username}@{host}:{port}"

def Context.secretKey (c : Context) : String := Contexts.secretKey c.username c.host c.port

/-- What the file says about contexts. -/
structure Config where
  currentContext : Option String := none
  contexts : IndexMap String Context := IndexMap.empty

namespace Config

/-- The names of the contexts, as an error lists them. -/
def known (cfg : Config) : String :=
  if cfg.contexts.isEmpty then "(none)" else ", ".intercalate cfg.contexts.keys

def get (cfg : Config) (name : String) : Except String Context :=
  match cfg.contexts.get? name with
  | some c => .ok c
  | none =>
      let known := cfg.known
      .error s!"unknown context {name}; known: {known}"

end Config

/-- What the config file loads as, and the passwords. -/
structure Saved where
  config : Except String Config
  secrets : Secrets

/-- The context of a name. -/
def Saved.context (s : Saved) (name : String) : Option Context :=
  s.config.toOption.bind fun cfg => cfg.contexts.get? name

/-- What comes of saving the file: a failure may come before the file was replaced or behind it. -/
inductive Save where
  | saved
  | failed (replaced : Bool) (why : String)
  deriving DecidableEq

/-- The file after a save. -/
def Saved.replaced (s : Saved) (cfg : Config) : Save → Saved
  | .saved => { s with config := .ok cfg }
  | .failed true _ => { s with config := .ok cfg }
  | .failed false _ => s

/-! ### The edits -/

/-- The row of the environment, which is in no file. -/
def envRow : String := "(env)"

/-- A context deleted, and then the password of its account. -/
def remove (name : String) (save : Save) (s : Saved) : Saved × Except String (List String) :=
  if name = envRow then
    (s, .error "the environment target is not saved and cannot be removed")
  else
    match s.config with
    | .error why => (s, .error why)
    | .ok cfg =>
        match cfg.get name with
        | .error why => (s, .error why)
        | .ok ctx =>
            let cfg := { cfg with
              contexts := cfg.contexts.erase name
              currentContext := if cfg.currentContext = some name then none else cfg.currentContext }
            match save with
            | .failed _ why => (s.replaced cfg save, .error why)
            | .saved =>
                let deleted := match s.secrets.deleted ctx.secretKey with
                  | .ok warnings => warnings
                  | .error why => [s!"could not delete the stored password: {why}"]
                ({ config := .ok cfg, secrets := s.secrets.delete ctx.secretKey }, .ok deleted)

/-- The arguments of `ctx add`. -/
structure Add where
  name : String
  host : String
  port : UInt16 := 9440
  username : String
  cluster : Option String := none
  insecure : Bool := false
  caBundle : Option String := none
  readonly : Bool := false
  write : Bool := false
  force : Bool := false
  deriving DecidableEq

/-- The entry a context gets; one that is replaced keeps whether it may be written to. -/
def Add.entry (a : Add) (cfg : Config) : Context :=
  { host := a.host, port := a.port, username := a.username, verifyTls := !a.insecure,
    caBundle := a.caBundle, cluster := a.cluster,
    readonly :=
      if a.readonly then true
      else if a.write then false
      else ((cfg.contexts.get? a.name).map Context.readonly).getD true }

/-- The account the context had, when the new entry is of another. -/
def Add.orphan (a : Add) (cfg : Config) : Option String :=
  ((cfg.contexts.get? a.name).map Context.secretKey).filter fun old => old != (a.entry cfg).secretKey

/-- The file with the context in it. -/
def Add.apply (a : Add) (cfg : Config) : Config :=
  { currentContext := if cfg.contexts.isEmpty then some a.name else cfg.currentContext
    contexts := cfg.contexts.insert a.name (a.entry cfg) }

/-- What is printed about a password that could not be deleted. -/
def orphanWarnings : Except String (List String) → List String
  | .ok warnings => warnings.map fun w => s!"warning: {w}; a stored password may remain there"
  | .error why =>
      [s!"warning: no secret store could be reached ({why}); a stored password may remain there"]

/-- A context added or replaced, and then the password of the account it had, once the line that says so
is out. -/
def add (a : Add) (save : Save) (printed : Except String Unit) (s : Saved) :
    Saved × Except String (List String) :=
  match s.config with
  | .error why => (s, .error why)
  | .ok cfg =>
      if !validName a.name then
        (s, .error s!"invalid context name {repr a.name}: use letters, digits, '.', '_' or '-'")
      else if (cfg.contexts.get? a.name).isSome && !a.force then
        let name := a.name
        (s, .error s!"context {name} already exists; pass --force to overwrite")
      else
        match save with
        | .failed _ why => (s.replaced (a.apply cfg) save, .error why)
        | .saved =>
            match printed, a.orphan cfg with
            | .error why, _ => ({ s with config := .ok (a.apply cfg) }, .error why)
            | .ok _, none => ({ s with config := .ok (a.apply cfg) }, .ok [])
            | .ok _, some old =>
                ({ config := .ok (a.apply cfg), secrets := s.secrets.delete old },
                  .ok (orphanWarnings (s.secrets.deleted old)))

/-- An edit of the file that may delete a password. -/
inductive Edit where
  | remove (name : String)
  | add (args : Add)

namespace Edit

/-- The context that is edited. -/
def name : Edit → String
  | remove name => name
  | add args => args.name

/-- What an edit leaves, given how the save went and whether its line could be printed. -/
def run (save : Save) (printed : Except String Unit) (s : Saved) :
    Edit → Saved × Except String (List String)
  | remove name => Contexts.remove name save s
  | add args => Contexts.add args save printed s

/-- The key whose password an edit deletes, given a file, how the save went and whether the line could be
printed. -/
def dropped (save : Save) (printed : Except String Unit) (cfg : Config) : Edit → Option String
  | remove name =>
      if save = .saved ∧ name ≠ envRow then (cfg.contexts.get? name).map Context.secretKey else none
  | add args =>
      if save = .saved ∧ printed.isOk ∧ validName args.name ∧ args.force then args.orphan cfg
      else none

/-- The key whose password an edit deletes, if it comes to that. -/
def deletes (save : Save) (printed : Except String Unit) (s : Saved) (edit : Edit) : Option String :=
  s.config.toOption.bind fun cfg => edit.dropped save printed cfg

end Edit

/-! ### What an edit leaves -/

/-- Whether every other context is as it was, and the lookup of its password answers what it did. -/
def Saved.LeavesOthers (name : String) (s s' : Saved) : Prop :=
  ∀ n ≠ name, s'.context n = s.context n ∧
    ∀ c, s.context n = some c → s'.secrets.get c.secretKey = s.secrets.get c.secretKey

namespace Edit

variable {save : Save} {printed : Except String Unit} {s : Saved}

/-- An edit deletes the password of one key, or of none. -/
theorem secrets_run (edit : Edit) :
    (edit.run save printed s).1.secrets =
      match edit.deletes save printed s with
      | some key => s.secrets.delete key
      | none => s.secrets := by
  obtain ⟨config, secrets⟩ := s
  cases config with
  | error why =>
      cases edit with
      | add args => rfl
      | remove name =>
          simp only [run, Contexts.remove]
          split <;> rfl
  | ok cfg =>
      cases edit with
      | remove name =>
          simp only [run, Contexts.remove, deletes, dropped, Config.get, Except.toOption,
            Option.bind_some]
          by_cases henv : name = envRow
          · simp [henv]
          · cases hctx : cfg.contexts.get? name with
            | none => simp [henv]
            | some ctx =>
                cases save with
                | saved => simp [henv]
                | failed replaced why => cases replaced <;> simp [henv, Saved.replaced]
      | add args =>
          simp only [run, Contexts.add, deletes, dropped, Except.toOption, Option.bind_some]
          cases hvalid : validName args.name with
          | false => simp
          | true =>
              cases hforce : args.force with
              | false =>
                  cases hctx : cfg.contexts.get? args.name with
                  | some ctx => simp
                  | none =>
                      -- a context that is new has no account to delete the password of
                      have horphan : args.orphan cfg = none := by simp [Add.orphan, hctx]
                      cases save with
                      | failed replaced why => cases replaced <;> simp [Saved.replaced]
                      | saved => cases printed <;> simp [horphan]
              | true =>
                  cases save with
                  | failed replaced why => cases replaced <;> simp [Saved.replaced]
                  | saved =>
                      cases printed with
                      | error why => simp [Except.isOk, Except.toBool]
                      | ok =>
                          cases horphan : args.orphan cfg with
                          | none => simp [Except.isOk, Except.toBool]
                          | some old => simp [Except.isOk, Except.toBool]

/-- No other context is touched. -/
theorem context_run (edit : Edit) {n : String} (h : n ≠ edit.name) :
    (edit.run save printed s).1.context n = s.context n := by
  obtain ⟨config, secrets⟩ := s
  cases config with
  | error why =>
      cases edit with
      | add args => rfl
      | remove name =>
          simp only [run, Contexts.remove]
          split <;> rfl
  | ok cfg =>
      cases edit with
      | remove name =>
          have herase : (cfg.contexts.erase name).get? n = cfg.contexts.get? n := by
            rw [IndexMap.get?_erase, if_neg (show n ≠ name from h)]
          simp only [run, Contexts.remove, Config.get]
          by_cases henv : name = envRow
          · simp [henv]
          · cases hctx : cfg.contexts.get? name with
            | none => simp [henv]
            | some ctx =>
                cases save with
                | saved => simp [henv, Saved.context, Except.toOption, herase]
                | failed replaced why =>
                    cases replaced <;>
                      simp [henv, Saved.replaced, Saved.context, Except.toOption, herase]
      | add args =>
          have hinsert : (args.apply cfg).contexts.get? n = cfg.contexts.get? n :=
            IndexMap.get?_insert_ne h
          simp only [run, Contexts.add]
          split_ifs
          · rfl
          · rfl
          · cases save with
            | failed replaced why =>
                cases replaced <;> simp [Saved.replaced, Saved.context, Except.toOption, hinsert]
            | saved =>
                cases printed <;> cases args.orphan cfg <;>
                  simp [Saved.context, Except.toOption, hinsert]

end Edit

/-- Whether no other context reads its password where an edit deletes one. -/
def Edit.Spares (edit : Edit) (save : Save) (printed : Except String Unit) (s : Saved) : Prop :=
  ∀ key ∈ edit.deletes save printed s, ∀ n ≠ edit.name, ∀ c ∈ s.context n,
    ∀ b ∈ s.secrets.deciding c.secretKey, b.drops key c.secretKey = false

/-- **An edit leaves the others reachable**: every other context keeps its password, and a save that
failed deletes nothing, if and only if no other context's lookup rests on a backend that deletes, for the
key the edit deletes, what it files for that context. -/
theorem leavesOthers_iff (edit : Edit) (save : Save) (printed : Except String Unit) (s : Saved) :
    (s.LeavesOthers edit.name (edit.run save printed s).1 ∧
      (save ≠ .saved → (edit.run save printed s).1.secrets = s.secrets)) ↔
    edit.Spares save printed s := by
  have hfailed (hsave : save ≠ .saved) : edit.deletes save printed s = none := by
    rw [Edit.deletes]
    cases s.config.toOption with
    | none => rfl
    | some cfg => cases edit <;> simp [Edit.dropped, hsave]
  have hsecrets := @Edit.secrets_run save printed s edit
  cases hdeletes : edit.deletes save printed s with
  | none =>
      replace hsecrets : (edit.run save printed s).1.secrets = s.secrets := by rw [hsecrets, hdeletes]
      constructor
      · intro _ key hkey
        rw [hdeletes] at hkey
        cases hkey
      · intro _
        exact ⟨fun n hn => ⟨edit.context_run hn, fun c _ => by rw [hsecrets]⟩, fun _ => hsecrets⟩
  | some key =>
      replace hsecrets : (edit.run save printed s).1.secrets = s.secrets.delete key := by rw [hsecrets, hdeletes]
      have hsaved : save = .saved := by
        by_contra hsave
        rw [hfailed hsave] at hdeletes
        cases hdeletes
      constructor
      · rintro ⟨hothers, -⟩ key' hkey' n hn c hc
        obtain rfl : key = key' := Option.some.inj (hdeletes.symm.trans hkey')
        rw [← Secrets.get_delete_iff, ← hsecrets]
        exact (hothers n hn).2 c hc
      · intro hspares
        refine ⟨fun n hn => ⟨edit.context_run hn, fun c hc => ?_⟩,
          fun hsave => absurd hsaved hsave⟩
        rw [hsecrets, Secrets.get_delete_iff]
        exact hspares key hdeletes n hn c hc

/-! ### Two contexts of one account -/

/-- A cluster to work on, and the same one to look at. -/
def labConfig : Config :=
  { contexts := IndexMap.ofList
      [("lab", { host := "pc.lab", username := "admin" }),
        ("lab-ro", { host := "pc.lab", username := "admin", readonly := true })] }

/-- The password of the account both are of, in the keyring. -/
def labSecrets : Secrets :=
  ⟨[keyringStore [("admin@pc.lab:9440", .ok "hunter2")], fileStore []], by decide⟩

/-- The context to look at is removed, and the password of the other with it. -/
theorem not_leavesOthers : ¬ ∀ (edit : Edit) (save : Save) (printed : Except String Unit) (s : Saved),
    s.LeavesOthers edit.name (edit.run save printed s).1 ∧
      (save ≠ .saved → (edit.run save printed s).1.secrets = s.secrets) := by
  intro h
  have hothers := (h (.remove "lab-ro") .saved (.ok ()) ⟨.ok labConfig, labSecrets⟩).1
  have hlab := (hothers "lab" (by decide)).2 { host := "pc.lab", username := "admin" } (by decide)
  have hbefore : labSecrets.get "admin@pc.lab:9440" = .ok (some ("keyring", "hunter2")) := by
    decide
  have hafter : (labSecrets.delete "admin@pc.lab:9440").get "admin@pc.lab:9440" = .ok none := by
    decide
  exact absurd (hafter.symm.trans (hlab.trans hbefore)) (by decide)

end Nutsh.Contexts
