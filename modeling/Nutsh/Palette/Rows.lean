/-
The rows of the command palette.

The word under the cursor decides what the list is drawn from: at the head of the line the commands, the
kinds, the pages and the items of the menu are ranked together; behind a command it is what the slot at
that position offers, filtered by the word.

* `Command`, `Slot`, `Entry` — what is typed, what an argument is drawn from, and the rows;
* `Stock`, `Vocabulary` — what the rows are made from, for good and at a keystroke;
* `Stock.vocabulary`, `Stock.headRanking` — the rows of a slot, and those of the head;
* `Stock.mem_rows` — what a word matches at the head.
-/
import Mathlib.Data.List.Sort
import Nutsh.Lookup
import Nutsh.Refresh
import Nutsh.Search

set_option relaxedAutoImplicit false
set_option autoImplicit false

namespace Nutsh.Palette

/-- A text begins with another, letters compared without their case. -/
def startsCi (haystack needle : String) : Bool :=
  Text.startsWith (Text.lower needle) (Text.lower haystack)

/-- A text contains another, letters compared without their case. -/
def containsCi (haystack needle : String) : Bool :=
  Text.contains (Text.lower needle) (Text.lower haystack)

/-! ### Commands and slots -/

/-- What an argument is drawn from. -/
inductive Slot where
  | contexts
  | skins
  | actions
  | kinds
  /-- A kind, a page or a group of the menu. -/
  | hide
  | intervals
  | levels
  | formats
  /-- The same as `hide`, of what is hidden. -/
  | «show»
  deriving DecidableEq, Repr

/-- The entries of the palette that are not kinds. -/
inductive Command where
  | ctx
  | quit
  | help
  | skin
  | journal
  | activity
  | search
  | «export»
  | canI
  | «try»
  | mouse
  | header
  | log
  | settings
  | refresh
  | all
  | hide
  | «show»
  deriving DecidableEq, Repr

namespace Command

/-- What is typed and read. -/
def label : Command → String
  | ctx => "ctx"
  | quit => "quit"
  | help => "help"
  | skin => "skin"
  | journal => "journal"
  | activity => "activity"
  | search => "search"
  | .export => "export"
  | canI => "can-i"
  | .try => "try"
  | mouse => "mouse"
  | header => "header"
  | log => "log"
  | settings => "settings"
  | refresh => "refresh"
  | all => "all"
  | hide => "hide"
  | .show => "show"

/-- Whether its last slot takes every remaining word. -/
def restOfLine : Command → Bool
  | hide | .show | search | .export | ctx => true
  | _ => false

/-- One slot for each argument. -/
def slots : Command → List Slot
  | ctx => [.contexts]
  | skin => [.skins]
  | canI => [.actions, .kinds]
  | .try => [.kinds]
  | hide => [.hide]
  | .show => [.show]
  | refresh => [.intervals]
  | log => [.levels]
  | .export => [.formats]
  | quit | help | journal | activity | search | mouse | header | settings | all => []

end Command

/-- The commands, in the order an empty line lists them. -/
def COMMANDS : List Command :=
  [.ctx, .quit, .help, .skin, .journal, .activity, .search, .export, .canI, .try, .mouse, .header, .log,
    .settings, .refresh, .all, .hide, .show]

/-- The command a head word names. -/
def headCommand (headWord : String) : Option Command :=
  COMMANDS.find? fun c => eqIgnoreCase c.label headWord

/-! ### Rows -/

/-- A page, as the palette names it. -/
structure PageDef where
  id : String
  title : String
  deriving DecidableEq, Repr

/-- An item of the menu. -/
structure NavItem where
  label : String
  target : NavTarget
  note : Option String := none
  deriving DecidableEq, Repr

/-- A group of the menu. -/
structure NavGroup where
  name : String
  items : List NavItem := []
  deriving DecidableEq, Repr

/-- What a completed argument is. -/
inductive Tag where
  | context
  | skin
  | nav (hide : Bool)
  | interval
  | level
  | format
  deriving DecidableEq, Repr

/-- A row of the palette. -/
inductive Entry where
  /-- A kind, with why it cannot be opened from here. -/
  | kind (k : Kind) (reason : Option String)
  | command (c : Command)
  | page (p : PageDef)
  /-- An argument for the command typed. -/
  | value (text : String) (tag : Tag)
  /-- An item of the menu with nothing behind it. -/
  | missing (item : NavItem)
  deriving DecidableEq, Repr

/-- How much a session writes down. -/
inductive LogLevel where
  | off
  | error
  | warn
  | info
  | debug
  | trace
  deriving DecidableEq, Repr

def LogLevel.word : LogLevel → String
  | off => "off"
  | error => "error"
  | warn => "warn"
  | info => "info"
  | debug => "debug"
  | trace => "trace"

/-- What a table is written as. -/
inductive Format where
  | csv
  | json
  deriving DecidableEq, Repr

def Format.word : Format → String
  | csv => "csv"
  | json => "json"

/-- A length of time, spelled. -/
def span (secs : ℕ) : String :=
  if secs < 60 then s!"{secs}s"
  else if secs < 3600 then s!"{secs / 60}m"
  else if secs < 86400 then s!"{secs / 3600}h"
  else if secs < 31536000 then s!"{secs / 86400}d"
  else s!"{secs / 31536000}y"

/-- How a rung is drawn. -/
def shown : Interval → String
  | .auto => "auto"
  | .off => "off"
  | .secs n => span n

/-- What the rows are made from, whatever the session. -/
structure Stock where
  catalog : Catalog := []
  pages : List PageDef := []
  nav : List NavGroup := []
  skins : List String :=
    ["catppuccin-mocha", "catppuccin-latte", "catppuccin-frappe", "catppuccin-macchiato", "gruvbox-dark",
      "gruvbox-light", "nord", "dracula", "solarized-dark", "solarized-light", "tokyo-night", "one-dark",
      "rose-pine", "rose-pine-dawn", "monokai", "flexoki-dark", "flexoki-light"]
  /-- The other names a skin is typed as, each with its own. -/
  aliases : List (String × String) :=
    [("flexoki", "flexoki-dark"), ("frappe", "catppuccin-frappe"), ("gruvbox", "gruvbox-dark"),
      ("latte", "catppuccin-latte"), ("macchiato", "catppuccin-macchiato"), ("mocha", "catppuccin-mocha"),
      ("onedark", "one-dark"), ("rosepine", "rose-pine"), ("rosepinedawn", "rose-pine-dawn"),
      ("solarized", "solarized-dark"), ("tokyonight", "tokyo-night")]
  ladder : List Interval := Nutsh.ladder
  levels : List LogLevel := [.off, .error, .warn, .info, .debug, .trace]
  formats : List Format := [.csv, .json]
  /-- The characters words are made of, and those that stand between them. -/
  alphanumeric : Char → Bool := Char.isAlphanum
  white : Char → Bool := Char.isWhitespace
  /-- The characters that take a cell of their own. -/
  wide : Char → Bool := fun _ => true

/-- What the session offers, read anew at every keystroke. -/
structure Vocabulary where
  /-- The reason of the session for a kind that is not served. -/
  unavailable : Kind → Option String := fun _ => none
  contexts : List String := []
  actions : List String := []
  hidden : List String := []

/-- The members of a set that contain what was typed. -/
def values (all : List String) (typed : String) (tag : Tag) : List Entry :=
  (all.filter fun v => containsCi v typed).map fun v => .value v tag

/-- Never hidden, whatever is typed. -/
def protectedId (id : String) : Bool := id == "Dashboard" || id == "dashboard"

namespace Stock

variable (stock : Stock)

/-- The skins whose name or other name contains what was typed. -/
def skinRows (typed : String) : List Entry :=
  (stock.skins.filter fun name =>
    containsCi name typed ||
      stock.aliases.any fun a => a.2 == name && containsCi a.1 typed).map fun name => .value name .skin

/-- The rungs that begin with what was typed. -/
def intervalRows (typed : String) : List Entry :=
  ((stock.ladder.map shown).filter fun v =>
    Text.startsWith (Text.lower typed) (Text.lower v)).map fun v => .value v .interval

/-- The levels that begin with what was typed. -/
def levelRows (typed : String) : List Entry :=
  ((stock.levels.map LogLevel.word).filter fun w =>
    Text.startsWith (Text.lower typed) w).map fun w => .value w .level

/-- What the menu draws, each with its label: every group, then the pages and the kinds behind its items. -/
def navNames : List (String × String) :=
  stock.nav.flatMap fun group =>
    (group.name, group.name) :: group.items.filterMap fun i =>
      match i.target with
      | .kind id | .page id => some (id, i.label)
      | .contexts | .settings | .missing => none

/-- The names that can be hidden, each once. -/
def hideNames : List String → List (String × String) → List (String × String)
  | _, [] => []
  | seen, (id, label) :: names =>
      if protectedId id || seen.contains id then hideNames seen names
      else (id, label) :: hideNames (id :: seen) names

/-- The names that can be hidden whose id or label contains what was typed. -/
def hideable (typed : String) : List Entry :=
  ((hideNames [] stock.navNames).filter fun n => containsCi n.1 typed || containsCi n.2 typed).map fun n =>
    .value n.1 (.nav true)

/-- The rows a slot offers for a word. -/
def vocabulary (slot : Slot) (word : String) (vocab : Vocabulary) : List Entry :=
  match slot with
  | .contexts => values vocab.contexts word .context
  | .skins => stock.skinRows word
  | .hide => stock.hideable word
  | .show => values vocab.hidden word (.nav false)
  | .intervals => stock.intervalRows word
  | .levels => stock.levelRows word
  | .formats => values (stock.formats.map Format.word) word .format
  | .actions | .kinds => []

end Stock

/-! ### The ranking of the head -/

/-- A row before the sort: how well it matches, how far it sinks, what it is, by which way it was found,
and the place among the commands. -/
structure Row where
  rank : ℕ
  sink : ℕ
  «class» : ℕ
  route : ℕ
  seq : ℕ
  key : String
  entry : Entry
  deriving DecidableEq, Repr

namespace Row

/-- The place of a row that is no command among the commands. -/
def SEQ_NONE : ℕ := 65535

/-- The kinds that are listed at once. -/
def MAX_KINDS : ℕ := 30

def place (r : Row) : ℕ ×ₗ ℕ ×ₗ ℕ ×ₗ ℕ ×ₗ ℕ ×ₗ String :=
  toLex (r.rank, toLex (r.sink, toLex (r.class, toLex (r.route, toLex (r.seq, r.key)))))

/-- What a row resolves to. -/
def target (r : Row) : ℕ × String :=
  match r.entry with
  | .command c => (0, c.label)
  | .kind k _ => (2, k.id)
  | .page p => (3, p.id)
  | .missing item => (4, item.label)
  | .value _ _ => (1, r.key)

def ofCommand (c : Command) (rank route : ℕ) : Row :=
  { rank, sink := 0, «class» := 0, route, seq := (COMMANDS.idxOf? c).getD SEQ_NONE, key := c.label,
    entry := .command c }

def ofKind (catalog : Catalog) (kind : Kind) (rank route : ℕ) : Row :=
  { rank, «class» := 2, route, seq := SEQ_NONE, key := kind.id, entry := .kind kind none
    sink := match kind.reach catalog with
      | .direct => 0
      | .fromParent _ => 1
      | .needsParameter => 2 }

def ofPage (page : PageDef) (rank route : ℕ) : Row :=
  { rank, sink := 0, «class» := 3, route, seq := SEQ_NONE, key := page.id, entry := .page page }

def ofMissing (item : NavItem) (rank route : ℕ) : Row :=
  { rank, sink := 3, «class» := 3, route, seq := SEQ_NONE, key := item.label, entry := .missing item }

end Row

namespace Stock

variable (stock : Stock)

/-- How a label of the menu matches, and by which of its tests. -/
def navRank (label word : String) : Option (ℕ × ℕ) :=
  if eqIgnoreCase label word then some (0, 1)
  else if startsCi label word then some (3, 1)
  else if ((label.toList.splitOnP fun c => !stock.alphanumeric c).map String.ofList).any fun w =>
      w != "" && startsCi w word then some (3, 2)
  else if containsCi label word then some (4, 2)
  else none

/-- The commands that begin with the word. -/
def commandRows (word : String) : List Row :=
  COMMANDS.filterMap fun c =>
    if eqIgnoreCase c.label word then some (Row.ofCommand c 0 0)
    else if word = "" ∨ startsCi c.label word then some (Row.ofCommand c 3 0)
    else none

def kindRows (word : String) : List Row :=
  (stock.catalog.lookup word).map fun kind =>
    Row.ofKind stock.catalog kind ((Catalog.rank word kind).getD 255) 0

def pageRows (word : String) : List Row :=
  stock.pages.filterMap fun p =>
    if startsCi p.title word || startsCi p.id word then some (Row.ofPage p 3 0)
    else if containsCi p.title word || containsCi p.id word then some (Row.ofPage p 4 0)
    else none

/-- The row of an item of the menu whose label matches. -/
def navRow (word : String) (item : NavItem) : Option Row :=
  (stock.navRank item.label word).bind fun r =>
    match item.target with
    | .kind id => (stock.catalog.kind id).map fun k => Row.ofKind stock.catalog k r.1 r.2
    | .page id => (stock.pages.find? fun p => p.id == id).map fun p => Row.ofPage p r.1 r.2
    | .contexts => some (Row.ofCommand .ctx r.1 r.2)
    | .settings => some (Row.ofCommand .settings r.1 r.2)
    | .missing => some (Row.ofMissing item r.1 r.2)

/-- Everything a word matches at the head of a line. -/
def rows (word : String) : List Row :=
  commandRows word ++
    if word = "" then []
    else stock.kindRows word ++ stock.pageRows word ++
      (stock.nav.flatMap NavGroup.items).filterMap (stock.navRow word)

/-- What is matched at the head: a command by its label or by the beginning of it, a kind, a page, or what
an item of the menu resolves to. -/
inductive Matched (word : String) : Row → Prop where
  | label (c : Command) (h : eqIgnoreCase c.label word = true) : Matched word (.ofCommand c 0 0)
  | start (c : Command) : Matched word (.ofCommand c 3 0)
  | kind (k : Kind) (rank route : ℕ) : Matched word (.ofKind stock.catalog k rank route)
  | page (p : PageDef) (rank route : ℕ) : Matched word (.ofPage p rank route)
  | nav (c : Command) (rank route : ℕ) (h : route ≠ 0) : Matched word (.ofCommand c rank route)
  | missing (item : NavItem) (rank route : ℕ) : Matched word (.ofMissing item rank route)

/-- The rows that are listed: each target once, and so many kinds, each with why it is greyed. -/
def listed (unavailable : Kind → Option String) : List (ℕ × String) → ℕ → List Row → List Entry
  | _, _, [] => []
  | seen, kinds, row :: rows =>
      if seen.contains row.target then listed unavailable seen kinds rows
      else
        match row.entry with
        | .kind k _ =>
            if Row.MAX_KINDS < kinds + 1 then listed unavailable (row.target :: seen) (kinds + 1) rows
            else .kind k ((k.reach stock.catalog).reason <|> unavailable k) ::
              listed unavailable (row.target :: seen) (kinds + 1) rows
        | entry => entry :: listed unavailable (row.target :: seen) kinds rows

/-- The ranking of the head: everything it matches, merged, sorted and each target once. -/
def headRanking (word : String) (vocab : Vocabulary) : List Entry :=
  stock.listed vocab.unavailable [] 0 ((stock.rows word).insertionSort fun a b => a.place ≤ b.place)

section
variable {stock : Stock} {word label : String} {r : Row} {m : ℕ × ℕ}

theorem route_of_navRank (h : stock.navRank label word = some m) : m.2 ≠ 0 := by
  intro hm
  rw [navRank] at h
  split at h
  · simp [← Option.some.inj h] at hm
  · split at h
    · simp [← Option.some.inj h] at hm
    · split at h
      · simp [← Option.some.inj h] at hm
      · split at h
        · simp [← Option.some.inj h] at hm
        · cases h

theorem matched_of_mem_commandRows (h : r ∈ commandRows word) : stock.Matched word r := by
  obtain ⟨c, -, hc⟩ := List.mem_filterMap.1 h
  split at hc
  · next hlabel => exact Option.some.inj hc ▸ .label c hlabel
  · split at hc
    · exact Option.some.inj hc ▸ .start c
    · cases hc

theorem matched_of_mem_pageRows (h : r ∈ stock.pageRows word) : stock.Matched word r := by
  obtain ⟨p, -, hp⟩ := List.mem_filterMap.1 h
  split at hp
  · exact Option.some.inj hp ▸ .page p 3 0
  · split at hp
    · exact Option.some.inj hp ▸ .page p 4 0
    · cases hp

theorem matched_of_navRow {item : NavItem} (h : stock.navRow word item = some r) : stock.Matched word r := by
  obtain ⟨m, hm, hrow⟩ := Option.bind_eq_some_iff.1 h
  split at hrow
  · obtain ⟨k, -, rfl⟩ := Option.map_eq_some_iff.1 hrow
    exact .kind k m.1 m.2
  · obtain ⟨p, -, rfl⟩ := Option.map_eq_some_iff.1 hrow
    exact .page p m.1 m.2
  · exact Option.some.inj hrow ▸ .nav .ctx m.1 m.2 (route_of_navRank hm)
  · exact Option.some.inj hrow ▸ .nav .settings m.1 m.2 (route_of_navRank hm)
  · exact Option.some.inj hrow ▸ .missing item m.1 m.2

theorem mem_rows (h : r ∈ stock.rows word) : stock.Matched word r := by
  rw [rows, List.mem_append] at h
  obtain h | h := h
  · exact matched_of_mem_commandRows h
  · split at h
    · cases h
    · rw [List.mem_append, List.mem_append] at h
      obtain (h | h) | h := h
      · obtain ⟨k, -, rfl⟩ := List.mem_map.1 h
        exact .kind k _ 0
      · exact matched_of_mem_pageRows h
      · obtain ⟨item, -, hitem⟩ := List.mem_filterMap.1 h
        exact matched_of_navRow hitem

/-- No completed argument is matched at the head. -/
theorem Matched.not_value (h : stock.Matched word r) (text : String) (tag : Tag) : r.entry ≠ .value text tag := by
  cases h <;> exact fun h => Entry.noConfusion h

end

end Stock

end Nutsh.Palette
