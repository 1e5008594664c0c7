/-
How a recorded text is masked and hashed.

An address that stands alone is moved into the documentation ranges, an address in a longer text is
replaced by one of them, and so is an e-mail.  A text under a key that names somebody is replaced by the
key and half of its hash.  The expressions an address is searched with are deterministic where they are
used, so each is a function from what stands before a place and after it to the length of its match.

* `IpAddr`, `parseIp` — addresses, read the way the standard library reads them;
* `Classes`, `replaceMatches`, `ipv4InText`, `macInText`, `emailInText` — the searches in a text;
* `maskString` — a text without addresses, e-mails and the recorded host;
* `hashed` — a text as its key and its hash.
-/
import Nutsh.Lib.Replace

set_option relaxedAutoImplicit false
set_option autoImplicit false

namespace Nutsh.Recorder

/-! ### Addresses -/

/-- An address: the four numbers of one kind, and that it is of the other. -/
inductive IpAddr where
  | v4 (octets : List ℕ)
  | v6

/-- The digit a character is in base ten or sixteen. -/
def toDigit (radix : ℕ) (c : Char) : Option ℕ :=
  let value :=
    if '0' ≤ c ∧ c ≤ '9' then c.toNat - '0'.toNat
    else if 'a' ≤ c ∧ c ≤ 'f' then c.toNat - 'a'.toNat + 10
    else if 'A' ≤ c ∧ c ≤ 'F' then c.toNat - 'A'.toNat + 10
    else 16
  if value < radix then some value else none

/-- A number of at most `maxDigits` digits below `bound`, and what follows it. -/
def readNumber (radix maxDigits bound : ℕ) (allowZeroPrefix : Bool) (cs : List Char) :
    Option (ℕ × List Char) :=
  let digits := cs.takeWhile fun c => (toDigit radix c).isSome
  let n := (digits.filterMap (toDigit radix)).foldl (fun n d => n * radix + d) 0
  if digits.isEmpty || maxDigits < digits.length then none
  else if !allowZeroPrefix && digits.head? == some '0' && 1 < digits.length then none
  else if bound ≤ n then none
  else some (n, cs.drop digits.length)

/-- What follows a character the text has to begin with. -/
def readGivenChar (c : Char) : List Char → Option (List Char)
  | [] => none
  | d :: cs => if d = c then some cs else none

/-- Four numbers between dots, and what follows them. -/
def readIpv4 (cs : List Char) : Option (List ℕ × List Char) := do
  let octet := readNumber 10 3 256 false
  let (a, cs) ← octet cs
  let (b, cs) ← octet (← readGivenChar '.' cs)
  let (c, cs) ← octet (← readGivenChar '.' cs)
  let (d, cs) ← octet (← readGivenChar '.' cs)
  return ([a, b, c, d], cs)

/-- Up to `left` groups between colons, the last two of them possibly as an address of the other kind: how
many were read, whether the last two were such an address, and what follows. -/
def readGroups : (left : ℕ) → (first : Bool) → List Char → ℕ × Bool × List Char
  | 0, _, cs => (0, false, cs)
  | left + 1, first, cs =>
      let cs' := if first then some cs else readGivenChar ':' cs
      match if left = 0 then none else cs'.bind readIpv4 with
      | some (_, rest) => (2, true, rest)
      | none =>
          match cs'.bind (readNumber 16 4 0x10000 true) with
          | none => (0, false, cs)
          | some (_, rest) =>
              let (n, v4, rest) := readGroups left false rest
              (n + 1, v4, rest)

/-- Eight groups, or fewer about a pair of colons; and what follows. -/
def readIpv6 (cs : List Char) : Option (List Char) :=
  let (n, v4, rest) := readGroups 8 true cs
  if n = 8 then some rest
  else if v4 then none
  else do
    let rest ← readGivenChar ':' (← readGivenChar ':' rest)
    return (readGroups (8 - (n + 1)) true rest).2.2

def parseIpv4 (s : String) : Option (List ℕ) :=
  match readIpv4 s.toList with
  | some (octets, []) => some octets
  | _ => none

def parseIp (s : String) : Option IpAddr :=
  match readIpv4 s.toList with
  | some (octets, rest) => if rest.isEmpty then some (.v4 octets) else none
  | none =>
      match readIpv6 s.toList with
      | some [] => some .v6
      | _ => none

def isHexDigit (c : Char) : Bool := (toDigit 16 c).isSome

def isMac (s : String) : Bool :=
  let parts := Text.splitChar ':' s
  s.utf8ByteSize == 17 && parts.length == 6 &&
    parts.all fun p => p.utf8ByteSize == 2 && p.toList.all isHexDigit

/-- The ranges that are kept for documentation. -/
def IPV4_DOC : List (List ℕ) := [[192, 0, 2], [198, 51, 100], [203, 0, 113]]

def IPV6_DOC_PREFIX : String := "2001:db8:"

def MAC_DOC_PREFIX : String := "00:00:5e:00:53:"

def MASKED_IPV4 : String := "203.0.113.1"

def MASKED_MAC : String := "00:00:5e:00:53:01"

def MASKED_EMAIL : String := "user@example.invalid"

def isDocIpv4 (octets : List ℕ) : Bool := IPV4_DOC.contains (octets.take 3)

/-- Whether a text is an address of the documentation ranges. -/
def isDocAddress (s : String) : Bool :=
  match parseIp s with
  | some (.v4 octets) => isDocIpv4 octets
  | some .v6 => Text.startsWith IPV6_DOC_PREFIX (Text.lower s)
  | none => isMac s && Text.startsWith MAC_DOC_PREFIX (Text.lower s)

/-! ### Searches in a text -/

/-- The digits and the word characters of the regular expressions. -/
structure Classes where
  digit : Char → Bool
  word : Char → Bool

/-- A text with each match replaced, the leftmost first; `skip` characters of a match are still to be
passed over, and `before` stands in front of what is left. -/
def replaceMatches (match? : Option Char → List Char → Option ℕ) (f : String → String) :
    (skip : ℕ) → (before : Option Char) → List Char → List Char
  | _, _, [] => []
  | skip + 1, _, c :: cs => replaceMatches match? f skip (some c) cs
  | 0, before, c :: cs =>
      match match? before (c :: cs) with
      | some n =>
          (f (String.ofList ((c :: cs).take n))).toList ++
            replaceMatches match? f (n - 1) (some c) cs
      | none => c :: replaceMatches match? f 0 (some c) cs

def replaceAll (match? : Option Char → List Char → Option ℕ) (f : String → String) (s : String) :
    String :=
  String.ofList (replaceMatches match? f 0 none s.toList)

namespace Classes

variable (cls : Classes)

/-- `dots` times one to three digits and a dot, and one to three digits. -/
def octetsInText : (dots : ℕ) → List Char → Option ℕ
  | 0, cs =>
      let n := ((cs.take 3).takeWhile cls.digit).length
      if n = 0 then none else some n
  | dots + 1, cs =>
      let n := ((cs.take 3).takeWhile cls.digit).length
      if n = 0 then none
      else
        match cs.drop n with
        | '.' :: cs => (octetsInText dots cs).map fun m => n + 1 + m
        | _ => none

/-- `(?:\d{1,3}\.){3}\d{1,3}` -/
def ipv4InText (_before : Option Char) (cs : List Char) : Option ℕ := octetsInText cls 3 cs

/-- Whether a word begins or ends between two characters. -/
def boundary (before after : Option Char) : Bool := before.any cls.word != after.any cls.word

/-- `\b(?:[0-9a-fA-F]{2}:){5}[0-9a-fA-F]{2}\b` -/
def macInText (before : Option Char) (cs : List Char) : Option ℕ :=
  let found := cs.take 17
  if found.length = 17 && cls.boundary before cs.head? &&
      (found.zipIdx.all fun (c, i) => if i % 3 = 2 then c == ':' else isHexDigit c) &&
      cls.boundary found.getLast? (cs.drop 17).head? then some 17
  else none

/-- `(\.[\w-]+)*`, given how many characters there are to read. -/
def labelsInText : (fuel : ℕ) → List Char → ℕ
  | fuel + 1, '.' :: cs =>
      let n := (cs.takeWhile fun c => cls.word c || c == '-').length
      if n = 0 then 0 else n + 1 + labelsInText fuel (cs.drop n)
  | _, _ => 0

/-- `[\w.+-]+@[\w-]+(\.[\w-]+)+` -/
def emailInText (_before : Option Char) (cs : List Char) : Option ℕ :=
  let user := (cs.takeWhile fun c => cls.word c || ['.', '+', '-'].contains c).length
  match cs.drop user with
  | '@' :: rest =>
      let domain := (rest.takeWhile fun c => cls.word c || c == '-').length
      let labels := cls.labelsInText rest.length (rest.drop domain)
      if user = 0 || domain = 0 || labels = 0 then none else some (user + 1 + domain + labels)
  | _ => none

end Classes

/-! ### Hashes -/

/-- FNV-1a of 64 bits over the bytes of a text. -/
def hash64 (s : String) : ℕ :=
  (s.toList.flatMap String.utf8EncodeChar).foldl
    (fun h b => (h ^^^ b.toNat) * 0x100000001b3 % 2 ^ 64) 0xcbf29ce484222325

/-- A number in lower-case hexadecimal digits, at least `width` of them. -/
def hex (width n : ℕ) : String :=
  let digits := Nat.toDigits 16 n
  String.ofList (List.replicate (width - digits.length) '0' ++ digits)

/-- What a secret is replaced by. -/
def REDACTED : String := "[redacted]"

/-- Whether a text is a key, a dash and eight hexadecimal digits. -/
def isHashedAs (key s : String) : Bool :=
  let rest := s.toList.drop key.length
  Text.startsWith key s && rest.head? == some '-' && rest.length == 9 &&
    rest.tail.all fun c => '0' ≤ c && c ≤ '9' || 'a' ≤ c && c ≤ 'f'

/-- A text as its key and its hash, unless it was hashed for that key or redacted before. -/
def hashed (key s : String) : String :=
  if s = REDACTED ∨ isHashedAs key s = true then s else key ++ "-" ++ hex 8 (hash64 s % 2 ^ 32)

/-! ### Masks -/

/-- A text without addresses, e-mails and the recorded host. -/
def maskString (cls : Classes) (host s : String) : String :=
  if isDocAddress s then s
  else
    match parseIp s with
    | some (.v4 _) =>
        let h := hash64 s
        if h % 2 = 0 then s!"203.0.113.{h % 254 + 1}" else s!"198.51.100.{h % 254 + 1}"
    | some .v6 => "2001:db8::" ++ hex 0 (hash64 s % 65535 + 1)
    | none =>
        if isMac s then MASKED_MAC
        else
          let s := replaceAll cls.ipv4InText (fun found =>
            if (parseIpv4 found).any isDocIpv4 then found else MASKED_IPV4) s
          let s := replaceAll cls.macInText (fun found =>
            if Text.startsWith MAC_DOC_PREFIX (Text.lower found) then found else MASKED_MAC) s
          let s := replaceAll cls.emailInText (fun _ => MASKED_EMAIL) s
          if host.isEmpty then s else Text.replace host (hashed "host" host) s

/-- The classes for texts of ASCII characters. -/
def ascii : Classes := { digit := Char.isDigit, word := fun c => c.isAlphanum || c == '_' }

end Nutsh.Recorder
