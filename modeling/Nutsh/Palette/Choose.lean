/-
What `enter` does in the palette.

The row under the selection is chosen with the words typed after the head.  A row of a command runs the
command with those words; a completed argument runs the command it belongs to with itself alone.  First
the words are counted, for the rows whose command is known there.

* `Entry.counted`, `Entry.call` — the command whose words are counted, and the call a row makes;
* `Interval.parse`, `LogLevel.parse`, `Format.parse`, `Stock.canonical`, `Stock.navId` — what the commands
  read their arguments with;
* `run`, `choose` — what a command does with its words, and what a row does with them.
-/
import Nutsh.Palette

set_option relaxedAutoImplicit false
set_option autoImplicit false

namespace Nutsh.Palette

/-! ### The arguments of the commands -/

namespace Stock

variable (stock : Stock)

/-- The text without the white space at either end. -/
def trim (s : String) : String :=
  String.ofList ((s.toList.dropWhile stock.white).reverse.dropWhile stock.white).reverse

/-- The name of a skin as it is listed. -/
def canonical (name : String) : Option String :=
  let key := Text.lower (stock.trim name)
  (stock.skins.find? fun n => n == key) <|> ((stock.aliases.find? fun a => a.1 == key).map Prod.snd)

/-- The kind, the page or the group an entry of the menu's hidden list names. -/
def navId (entry : String) : Option String :=
  ((stock.catalog.kind entry).map Kind.id) <|>
    ((stock.pages.find? fun p => p.id == entry).map PageDef.id) <|>
    ((stock.nav.find? fun g => g.name == entry).map NavGroup.name) <|>
    ((stock.nav.find? fun g => eqIgnoreCase g.name entry).map NavGroup.name)

end Stock

/-- A number of 32 bits, with or without a sign before it. -/
def parseU32 (digits : List Char) : Option ℕ :=
  let digits := match digits with
    | '+' :: ds => ds
    | ds => ds
  if digits ≠ [] ∧ digits.all Char.isDigit then
    let n := digits.foldl (fun n c => 10 * n + (c.toNat - '0'.toNat)) 0
    if n < 2 ^ 32 then some n else none
  else none

/-- A length of time: a number of seconds, of minutes or of hours. -/
def parseSecs (word : String) : Option ℕ :=
  let (digits, mult) := match Text.stripSuffix "h" word with
    | some d => (d, 3600)
    | none =>
        match Text.stripSuffix "m" word with
        | some d => (d, 60)
        | none => ((Text.stripSuffix "s" word).getD word, 1)
  (parseU32 digits.toList).map fun n => min (n * mult) (2 ^ 32 - 1)

/-- The rung a word names: `auto`, `off`, or a length of time from the floor on. -/
def Stock.parseInterval (stock : Stock) (word : String) : Option Interval :=
  let word := stock.trim word
  if word = "auto" then some .auto
  else if word = "off" then some .off
  else (parseSecs word).bind fun secs => if secs < 1 then none else some (.secs secs)

/-- The level a word names. -/
def LogLevel.parse (word : String) : Option LogLevel :=
  [LogLevel.off, .error, .warn, .info, .debug, .trace].find? fun l => eqIgnoreCase l.word word

/-- The format a word names. -/
def Format.parse (word : String) : Except String Format :=
  if Text.lower word = "csv" then .ok .csv
  else if Text.lower word = "json" then .ok .json
  else .error s!"{Text.lower word} is not a format; csv or json"

/-- The format and the path the words of an export name, after those read already. -/
def exportArgs : Format → Option String → List String → Except String (Format × Option String)
  | format, path, [] => .ok (format, path)
  | format, none, word :: words =>
      match Format.parse word with
      | .ok format => exportArgs format none words
      | .error why =>
          -- a bare word that is no format is a typo, not a file of that name
          if !word.toList.contains '/' && !word.toList.contains '.' then .error s!"export: {why}"
          else exportArgs format (some word) words
  | _, some _, _ :: _ => .error "export: [csv|json] [path], nothing more"

/-- The words of a rest of line as the one name they spell. -/
def joined (args : List String) : Option String :=
  if args.isEmpty then none else some (" ".intercalate args)

/-! ### What is done -/

/-- What `enter` does. -/
inductive Act where
  /-- The words are more than the command takes, and the status says how many it takes. -/
  | refused (status : String)
  /-- The command says in the status what it was not given. -/
  | answered (status : String)
  /-- Nothing, and nothing is said. -/
  | nothing
  | quit
  | help
  | contexts
  | connect (session : String) (peers : List String)
  | skins
  | skin (name : String)
  | journal
  | activity
  | search (term : String)
  | «export» (format : Format) (path : Option String)
  | canI (action kind : String)
  | tryKind (term : String)
  | mouse
  | header
  | log (level : Option String)
  | settings
  /-- The palette opens again on the rungs. -/
  | ladder
  | refresh (k : Kind) (rung : String)
  | all
  | nav (name : Option String) (hide : Bool)
  /-- A kind is opened, or the reason why it is not is said. -/
  | kind (k : Kind) (reason : Option String)
  | page (p : PageDef)
  | missing (item : NavItem)
  deriving DecidableEq

/-- What a command does with its words; `view` is the kind in view. -/
def run (view : Option Kind) : Command → List String → Act
  | .quit, _ => .quit
  | .help, _ => .help
  | .ctx, [] => .contexts
  | .ctx, name :: names => .connect name (names.filter (· ≠ name))
  | .skin, args => (args.head?.map Act.skin).getD .skins
  | .journal, _ => .journal
  | .activity, _ => .activity
  | .search, args => .search (" ".intercalate args)
  | .export, args =>
      match exportArgs .csv none args with
      | .ok (format, path) => .export format path
      | .error why => .answered why
  | .canI, [action, kind] => .canI action kind
  | .canI, _ => .answered ":can-i takes an action and a kind"
  | .try, args => (args.head?.map Act.tryKind).getD (.answered ":try takes a kind")
  | .mouse, _ => .mouse
  | .header, _ => .header
  | .log, args => .log args.head?
  | .settings, _ => .settings
  | .refresh, args =>
      match view with
      | none => .nothing
      | some kind => (args.head?.map (Act.refresh kind)).getD .ladder
  | .all, _ => .all
  | .hide, args => .nav (joined args) true
  | .show, args => .nav (joined args) false

/-- The command a completed argument belongs to. -/
def Tag.command : Tag → Command
  | context => .ctx
  | skin => .skin
  | nav hide => if hide then .hide else .show
  | interval => .refresh
  | level => .log
  | format => .export

namespace Entry

/-- The command whose words are counted before a row runs; a rung, a level and a format have none. -/
def counted : Entry → Option Command
  | .command c => some c
  | .value _ .context => some .ctx
  | .value _ .skin => some .skin
  | .value _ (.nav hide) => some (if hide then .hide else .show)
  | _ => none

/-- The call a row makes: a command with the words typed, an argument with itself. -/
def call (args : List String) : Entry → Option (Command × List String)
  | .command c => some (c, args)
  | .value text tag => some (tag.command, [text])
  | _ => none

end Entry

/-- The words are more than a command takes. -/
def Command.overflows (c : Command) (args : List String) : Bool :=
  decide (c.slots.length < args.length) && !c.restOfLine

def arityRefusal (c : Command) (slots : ℕ) : String :=
  match slots with
  | 0 => s!":{c.label} takes no argument"
  | 1 => s!":{c.label} takes one name"
  | 2 => s!":{c.label} takes two arguments"
  | n => s!":{c.label} takes {n} arguments"

/-- The words are counted for this row, and they are too many. -/
def Entry.overflows (args : List String) (e : Entry) : Bool := e.counted.any fun c => c.overflows args

/-- What `enter` does with a row and the words after the head. -/
def choose (view : Option Kind) (e : Entry) (args : List String) : Act :=
  match e.counted.filter fun c => c.overflows args with
  | some c => .refused (arityRefusal c c.slots.length)
  | none =>
      match e with
      | .command c => run view c args
      | .value text tag => run view tag.command [text]
      | .kind k reason => .kind k reason
      | .page p => .page p
      | .missing item => .missing item

section
variable {view : Option Kind} {e : Entry} {args : List String}

theorem choose_of_overflows (h : e.overflows args = true) : ∃ status, choose view e args = .refused status := by
  obtain ⟨c, hc, hover⟩ := (Option.any_eq_true _ _).1 h
  exact ⟨arityRefusal c c.slots.length, by simp [choose, Option.filter, hc, hover]⟩

/-- A row whose words are not too many makes its call. -/
theorem choose_of_call (h : e.overflows args = false) {c : Command} {args' : List String}
    (hcall : e.call args = some (c, args')) : choose view e args = run view c args' := by
  have hnone : (e.counted.filter fun c => c.overflows args) = none := by
    cases hc : e.counted with
    | none => rfl
    | some c => simpa [Entry.overflows, hc, Option.filter] using h
  simp only [choose, hnone]
  cases e with
  | command c' =>
      obtain ⟨rfl, rfl⟩ := Prod.mk.inj (Option.some.inj hcall)
      rfl
  | value text tag =>
      obtain ⟨rfl, rfl⟩ := Prod.mk.inj (Option.some.inj hcall)
      rfl
  | kind k reason => cases hcall
  | page p => cases hcall
  | missing item => cases hcall

/-- No command refuses its words for their number once they have been counted. -/
theorem run_ne_refused (c : Command) (status : String) : run view c args ≠ .refused status := by
  intro h
  cases c <;> simp only [run] at h
  case ctx => cases args <;> simp at h
  case skin => cases args <;> simp at h
  case «export» => split at h <;> simp at h
  case canI =>
    split at h <;> simp_all
  case «try» => cases args <;> simp at h
  case refresh =>
    cases view <;> cases args <;> simp at h
  all_goals simp at h

end

end Nutsh.Palette
