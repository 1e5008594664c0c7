/-
Reading YAML 1.2.

The block style of the language, under its core schema, as far as a document of one-line scalars needs it.  A
line is read into tokens, each with its column: a dash, a key with what may follow it on the line, a scalar.  The
tokens are then put together by their columns.  What is read has the shape of a JSON value: a key is a string,
and no mapping has a key twice.

What is not read at all: scalars over several lines, block and single-quoted scalars, flow collections with
anything in them, anchors, tags, directives, and more than one document.

Main definitions:

* `Yaml.isPlain` — a plain scalar, by the productions of the language;
* `Yaml.unquote` — a double-quoted scalar;
* `Yaml.resolve` — the value of a plain scalar under the core schema;
* `Yaml.Token`, `Yaml.tokens` — the tokens of a line;
* `Yaml.node` — what some tokens make;
* `Yaml.read` — the value of a document.
-/
import Mathlib.Data.List.Basic
import Mathlib.Data.List.Nodup
import Nutsh.Lib.Json
import Nutsh.Lib.Text

set_option relaxedAutoImplicit false
set_option autoImplicit false

/-! ### Numbers -/

namespace Numeral

def isDigits (cs : List Char) : Bool := !cs.isEmpty && cs.all Char.isDigit

/-- What stands behind a sign, if there is one. -/
def unsigned : List Char → List Char
  | '+' :: cs => cs
  | '-' :: cs => cs
  | cs => cs

/-- Digits, with a point at most, and one digit at least. -/
def isMantissa (cs : List Char) : Bool :=
  let whole := cs.takeWhile (· != '.')
  let fraction := (cs.dropWhile (· != '.')).tail
  whole.all Char.isDigit && fraction.all Char.isDigit && !(whole.isEmpty && fraction.isEmpty)

def isExponent (c : Char) : Bool := c == 'e' || c == 'E'

/-- A decimal number: a sign, a mantissa, an exponent. -/
def isNumber (cs : List Char) : Bool :=
  let mantissa := (unsigned cs).takeWhile fun c => !isExponent c
  let exponent := (unsigned cs).dropWhile fun c => !isExponent c
  isMantissa mantissa && (exponent.isEmpty || isDigits (unsigned exponent.tail))

def isInteger (cs : List Char) : Bool := isDigits (unsigned cs)

/-- The value of an integer. -/
def integer : List Char → ℤ
  | '-' :: cs => -(Nat.ofDigitChars 10 cs 0 : ℤ)
  | cs => (Nat.ofDigitChars 10 (unsigned cs) 0 : ℤ)

def isOctal (c : Char) : Bool := '0' ≤ c && c ≤ '7'

def hexDigit (c : Char) : Option ℕ :=
  if '0' ≤ c ∧ c ≤ '9' then some (c.toNat - 48)
  else if 'a' ≤ c ∧ c ≤ 'f' then some (c.toNat - 87)
  else if 'A' ≤ c ∧ c ≤ 'F' then some (c.toNat - 55)
  else none

/-- The value of some hexadecimal digits. -/
def hex (cs : List Char) : Option ℕ :=
  cs.foldl (fun n c => n.bind fun n => (hexDigit c).map fun d => 16 * n + d) (some 0)

end Numeral

namespace Yaml

/-! ### Characters -/

def printable (c : Char) : Bool :=
  c == '\t' || c == '\n' || c == '\r' || (0x20 ≤ c.toNat && c.toNat ≤ 0x7E) || c.toNat == 0x85 ||
    (0xA0 ≤ c.toNat && c.toNat ≤ 0xD7FF) || (0xE000 ≤ c.toNat && c.toNat ≤ 0xFFFD) || 0x10000 ≤ c.toNat

def isBreak (c : Char) : Bool := c == '\n' || c == '\r'

def isWhite (c : Char) : Bool := c == ' ' || c == '\t'

/-- A printable character that neither breaks a line nor marks the order of bytes. -/
def nb (c : Char) : Bool := printable c && !isBreak c && c.toNat != 0xFEFF

/-- One that is no blank either. -/
def ns (c : Char) : Bool := nb c && !isWhite c

/-- A character that may stand in quotes. -/
def nbJson (c : Char) : Bool := c == '\t' || 0x20 ≤ c.toNat

def indicators : List Char :=
  ['-', '?', ':', ',', '[', ']', '\x7b', '\x7d', '#', '&', '*', '!', '|', '>', '\'', '"', '%', '@', '\x60']

/-! ### Scalars -/

/-- The first character of a plain scalar, and the one behind it. -/
def plainFirst (c : Char) (next : Option Char) : Bool :=
  ns c && (!indicators.contains c || ((c == '-' || c == '?' || c == ':') && next.any ns))

/-- Another character of a plain scalar, between two. -/
def plainChar (before c : Char) (next : Option Char) : Bool :=
  if c = '#' then !isWhite before
  else if c = ':' then next.any ns
  else nb c

def plainRest (after : Option Char) : Char → List Char → Bool
  | _, [] => true
  | before, c :: cs => plainChar before c (cs.head?.or after) && plainRest after c cs

/-- A plain scalar; `after` is the character behind it, if it does not end the line. -/
def isPlain (after : Option Char) : List Char → Bool
  | [] => false
  | c :: cs =>
      plainFirst c (cs.head?.or after) && plainRest after c cs && !((c :: cs).getLast?.any isWhite)

/-- The character an escape stands for. -/
def escaped : Char → Option Char
  | '0' => some '\x00'
  | 'a' => some '\x07'
  | 'b' => some '\x08'
  | 't' => some '\t'
  | '\t' => some '\t'
  | 'n' => some '\n'
  | 'v' => some '\x0b'
  | 'f' => some '\x0c'
  | 'r' => some '\r'
  | 'e' => some '\x1b'
  | ' ' => some ' '
  | '"' => some '"'
  | '/' => some '/'
  | '\\' => some '\\'
  | 'N' => some '\u0085'
  | '_' => some '\u00a0'
  | 'L' => some '\u2028'
  | 'P' => some '\u2029'
  | _ => none

/-- The character of a number. -/
def codePoint (n : ℕ) : Option Char := if n.isValidChar then some (Char.ofNat n) else none

/-- What stands behind a backslash: a character, and how many characters spell it. -/
def escape (cs : List Char) : Option (Char × ℕ) :=
  match cs with
  | [] => none
  | c :: ds =>
      let digits := if c = 'x' then 2 else if c = 'u' then 4 else if c = 'U' then 8 else 0
      if digits = 0 then (escaped c).map (·, 1)
      else if (ds.take digits).length = digits then
        ((Numeral.hex (ds.take digits)).bind codePoint).map (·, digits + 1)
      else none

/-- The text up to the closing quote, and what is behind it; `skip` characters of an escape are still to be
passed over. -/
def unquote : ℕ → List Char → Option (List Char × List Char)
  | _, [] => none
  | skip + 1, _ :: cs => unquote skip cs
  | 0, c :: cs =>
      if c = '"' then some ([], cs)
      else if c = '\\' then
        (escape cs).bind fun e => (unquote e.2 cs).map fun p => (e.1 :: p.1, p.2)
      else if nbJson c then (unquote 0 cs).map fun p => (c :: p.1, p.2)
      else none

def nulls : List String := ["", "~", "null", "Null", "NULL"]

def trues : List String := ["true", "True", "TRUE"]

def falses : List String := ["false", "False", "FALSE"]

def isOctal : List Char → Bool
  | '0' :: 'o' :: digits => !digits.isEmpty && digits.all Numeral.isOctal
  | _ => false

def isHex : List Char → Bool
  | '0' :: 'x' :: digits => !digits.isEmpty && (Numeral.hex digits).isSome
  | _ => false

/-- A number with a point or an exponent, an infinity, or no number. -/
def isReal (s : String) : Bool :=
  Numeral.isNumber s.toList || [".inf", ".Inf", ".INF"].contains (String.ofList (Numeral.unsigned s.toList)) ||
    [".nan", ".NaN", ".NAN"].contains s

/-- What is no string under the core schema. -/
def isTyped (s : String) : Bool :=
  nulls.contains s || trues.contains s || falses.contains s || Numeral.isInteger s.toList || isOctal s.toList ||
    isHex s.toList || isReal s

section
/- The double a decimal number is read as. -/
variable (float : String → UInt64)

/-- The value of a plain scalar under the core schema. -/
def resolve (s : String) : Json :=
  if nulls.contains s then .null
  else if trues.contains s then .bool true
  else if falses.contains s then .bool false
  else if Numeral.isInteger s.toList then .num (.int (Numeral.integer s.toList))
  else if isOctal s.toList then .num (.int (Nat.ofDigitChars 8 (s.toList.drop 2) 0))
  else if isHex s.toList then .num (.int ((Numeral.hex (s.toList.drop 2)).getD 0))
  else if isReal s then .num (.float (float s))
  else .str s

/-- A scalar, or a collection with nothing in it. -/
def scalar (cs : List Char) : Option Json :=
  match cs with
  | ['\x7b', '\x7d'] => some (.obj [])
  | ['[', ']'] => some (.arr [])
  | '"' :: rest =>
      match unquote 0 rest with
      | some (t, []) => some (.str (String.ofList t))
      | _ => none
  | _ => if isPlain none cs then some (resolve float (String.ofList cs)) else none

end

/-! ### Tokens -/

/-- A piece of a line. -/
inductive Token where
  | dash
  /-- A key, and the value behind it on the line. -/
  | entry (key : String) (value : Option Json)
  | scalar (value : Json)

/-- A key on a line has no more characters than this. -/
def KEY_MAX : ℕ := 1024

/-- What stands before and after the first `:` with a blank or nothing behind it. -/
def breakKey : List Char → Option (List Char × List Char)
  | [] => none
  | c :: cs =>
      if c = ':' && cs.head?.all isWhite then some ([], cs)
      else (breakKey cs).map fun p => (c :: p.1, p.2)

section
variable (float : String → UInt64)

/-- A key with what is behind its `:`. -/
def entry (key : String) (after : List Char) : Option Token :=
  match after.dropWhile isWhite with
  | [] => some (.entry key none)
  | text => (scalar float text).map fun v => .entry key (some v)

/-- A key on a line: a plain scalar, of no more characters than a key may have, that is a string. -/
def isKey (cs : List Char) : Bool :=
  isPlain (some ':') cs && cs.length ≤ KEY_MAX && (resolve float (String.ofList cs)).asStr.isSome

/-- The one piece that is left of a line when its dashes are read. -/
def piece (cs : List Char) : Option Token :=
  match cs with
  | '"' :: rest =>
      match unquote 0 rest with
      | some (t, []) => some (.scalar (.str (String.ofList t)))
      | some (t, ':' :: after) =>
          if after.head?.all isWhite && rest.length - after.length ≤ KEY_MAX then entry float (String.ofList t) after
          else none
      | _ => none
  | _ =>
      match breakKey cs with
      | none => (scalar float cs).map Token.scalar
      | some (key, after) => if isKey float key then entry float (String.ofList key) after else none

/-- The tokens of a line from a column on. -/
def tokens (column : ℕ) : List Char → Option (List (ℕ × Token))
  | [] => some []
  | c :: cs =>
      if c = ' ' then tokens (column + 1) cs
      else if c = '#' then some []
      else if c = '-' && cs.head?.all (· == ' ') then
        (tokens (column + 1) cs).map fun rest => (column, .dash) :: rest
      else (piece float (c :: cs)).map fun t => [(column, t)]

end

/-! ### Structure -/

/-- Where the value behind a key begins at least: a sequence may stand at the column of the key. -/
def least (column : ℕ) : List (ℕ × Token) → ℕ
  | (c, .dash) :: _ => if c = column then column else column + 1
  | _ => column + 1

mutual

/-- The value of the tokens from a column on, and what is left of them. -/
def node : ℕ → ℕ → List (ℕ × Token) → Option (Json × List (ℕ × Token))
  | 0, _, _ => none
  | _ + 1, _, [] => some (.null, [])
  | fuel + 1, first, (column, t) :: rest =>
      if column < first then some (.null, (column, t) :: rest)
      else
        match t with
        | .scalar v => some (v, rest)
        | .dash => (items fuel column ((column, t) :: rest)).map fun p => (.arr p.1, p.2)
        | .entry _ _ =>
            (entries fuel column ((column, t) :: rest)).bind fun p =>
              if (p.1.map Prod.fst).Nodup then some (.obj p.1, p.2) else none

/-- The items of a sequence at a column. -/
def items : ℕ → ℕ → List (ℕ × Token) → Option (List Json × List (ℕ × Token))
  | 0, _, _ => none
  | _ + 1, _, [] => some ([], [])
  | fuel + 1, column, (c, t) :: rest =>
      if column < c then none
      else if c < column then some ([], (c, t) :: rest)
      else
        match t with
        | .dash =>
            (node fuel (column + 1) rest).bind fun p => (items fuel column p.2).map fun q => (p.1 :: q.1, q.2)
        | .entry _ _ => some ([], (c, t) :: rest)
        | .scalar _ => some ([], (c, t) :: rest)

/-- The members of a mapping at a column. -/
def entries : ℕ → ℕ → List (ℕ × Token) → Option (List (String × Json) × List (ℕ × Token))
  | 0, _, _ => none
  | _ + 1, _, [] => some ([], [])
  | fuel + 1, column, (c, t) :: rest =>
      if column < c then none
      else if c < column then some ([], (c, t) :: rest)
      else
        match t with
        | .entry key (some v) => (entries fuel column rest).map fun q => ((key, v) :: q.1, q.2)
        | .entry key none =>
            (node fuel (least column rest) rest).bind fun p =>
              (entries fuel column p.2).map fun q => ((key, p.1) :: q.1, q.2)
        | .dash => some ([], (c, t) :: rest)
        | .scalar _ => some ([], (c, t) :: rest)

end

/-! ### Documents -/

/-- A line that marks the beginning or the end of a document. -/
def isMarker (line : List Char) : Bool :=
  (line.take 3 == ['-', '-', '-'] || line.take 3 == ['.', '.', '.']) && (line.drop 3).head?.all isWhite

/-- The value that all of the tokens make. -/
def document (found : List (ℕ × Token)) : Option Json :=
  match node (2 * found.length + 2) 0 found with
  | some (v, []) => some v
  | _ => none

/-- The value of a document. -/
def read (float : String → UInt64) (text : String) : Option Json :=
  let lines := text.toList.splitOn '\n'
  if lines.any isMarker then none
  else (lines.mapM (tokens float 0)).bind fun found => document found.flatten

end Yaml
