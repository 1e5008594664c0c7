/-
The raw view: a document as YAML.

Objects and arrays are written in blocks, two blanks a level, a key before its value, a dash before an item.  A
string is put in quotes when it looks as if it would be read as something else; a key never is.

Main definitions:

* `looksLikeOtherType`, `startsBadly`, `containsBadly` — what is put in quotes;
* `quoteIfNeeded` — a string as it is written;
* `scalar`, `write`, `render` — a value as it is written.
-/
import Nutsh.Cell.Status
import Nutsh.Lib.JsonText
import Nutsh.Lib.Yaml.Layout

set_option relaxedAutoImplicit false
set_option autoImplicit false

namespace Nutsh.YamlText

/-! ### Strings -/

/-- A control character of Unicode. -/
def isControl (c : Char) : Bool := c.toNat < 0x20 || (0x7F ≤ c.toNat && c.toNat ≤ 0x9F)

/-- What is read as a double. -/
def parsesF64 (s : String) : Bool :=
  Numeral.isNumber s.toList ||
    ["inf", "infinity", "nan"].contains (Text.lower (String.ofList (Numeral.unsigned s.toList)))

def looksLikeOtherType (s : String) : Bool :=
  s == "" ||
    ["true", "false", "null", "~", "yes", "no", "on", "off", ".inf", "-.inf", "+.inf", ".nan"].contains
      (Text.lower s) ||
    parsesF64 s || Text.startsWith "0x" s || Text.startsWith "0o" s || Text.startsWith "0b" s ||
    s != Cell.trim s

def startsBadly (s : String) : Bool :=
  s.toList.head?.any fun c =>
    ['-', '*', '&', '!', '%', '@', '\x60', '[', ']', '\x7b', '\x7d', '|', '>', '\'', '"', ' '].contains c

def containsBadly (s : String) : Bool :=
  Text.contains ": " s || Text.contains " #" s || Text.startsWith "#" s || s.toList.any isControl ||
    s.toList.contains '"' || Text.endsWith ":" s || Text.contains ":\t" s

def needsQuotes (s : String) : Bool := looksLikeOtherType s || startsBadly s || containsBadly s

/-- A text with a character written another way. -/
def replaceChar (c : Char) (new : List Char) (cs : List Char) : List Char :=
  cs.flatMap fun d => if d = c then new else [d]

/-- The characters of a string between its quotes. -/
def escapeAll (cs : List Char) : List Char :=
  replaceChar '\t' ['\\', 't'] <| replaceChar '\r' ['\\', 'r'] <| replaceChar '\n' ['\\', 'n'] <|
    replaceChar '"' ['\\', '"'] <| replaceChar '\\' ['\\', '\\'] cs

def quoteIfNeeded (s : String) : String :=
  if needsQuotes s then String.ofList ('"' :: (escapeAll s.toList ++ ['"'])) else s

/-! ### Lines -/

section
/- The text of a double. -/
variable (float : UInt64 → String)

/-- A value on the line of its key. -/
def scalar : Json → String
  | .str s => quoteIfNeeded s
  | .obj _ => "\x7b\x7d"
  | .arr _ => "[]"
  | other => other.text float

/-- A line, without its end. -/
def line (indent : ℕ) (text : String) : String := String.ofList (List.replicate (2 * indent) ' ') ++ text

mutual

/-- The lines of a value. -/
def write (indent : ℕ) : Json → List String
  | .obj (m :: members) => writeMembers indent (indent + 1) "" "" (m :: members)
  | .arr (v :: items) => writeItems indent (v :: items)
  | v => [line indent (scalar float v)]

/-- The lines of some members: the first one behind `front`, the others behind `next`, and what is in them
`deeper`. -/
def writeMembers (indent deeper : ℕ) (front next : String) : List (String × Json) → List String
  | [] => []
  | (key, child) :: members =>
      (if Yaml.isInline child then [line indent (front ++ key ++ ": " ++ scalar float child)]
        else line indent (front ++ key ++ ":") :: write deeper child) ++
        writeMembers indent deeper next next members

/-- The lines of some items: the first pair of an object goes behind the dash. -/
def writeItems (indent : ℕ) : List Json → List String
  | [] => []
  | .obj (m :: members) :: items =>
      writeMembers indent (indent + 2) "- " "  " (m :: members) ++ writeItems indent items
  | .arr (v :: inner) :: items =>
      line indent "-" :: (writeItems (indent + 1) (v :: inner) ++ writeItems indent items)
  | v :: items => line indent ("- " ++ scalar float v) :: writeItems indent items

end

/-- A value as YAML. -/
def render (v : Json) : String := String.join ((write float 0 v).map fun l => l ++ "\n")

end

end Nutsh.YamlText
