/-
The recorder's two passes over a document.

The first pass goes by the keys: what a key names as a secret is redacted, what it names as somebody's is
hashed, everything else is masked, and what stands under a key that begins with a dollar sign stays.  It
notes what it hashed.  The second pass puts each of these values, if it is long enough, out of every text
of the document, the longest first.

* `PairRule`, `pairRule` — what a key says of its value;
* `redactValue`, `hashUnder`, `redactWrappedMembers`, `redactSecretItems` — the first pass;
* `substitutable`, `substitute` — the second;
* `redactFrom`, `redact` — both.
-/
import Nutsh.Cache.Scrub
import Nutsh.Recorder.Mask
import Mathlib.Data.List.Sort
import Mathlib.Data.List.Destutter
import Mathlib.Data.Prod.Lex

set_option relaxedAutoImplicit false
set_option autoImplicit false

namespace Nutsh.Recorder

open Nutsh.Cache (OPAQUE_KEY isSecretName isKeyMaterial)

/-! ### Keys -/

/-- Lower-case names whose value is hashed. -/
def HASHED_KEYS : List String :=
  ["description", "endpoint", "fqdn", "hostname", "username", "emailid", "createdby", "lastupdatedby",
    "ownedby", "owner", "serviceaccount", "firstname", "lastname", "paramvalue", "vmcategories"]

/-- A name that contains one of these has its value hashed. -/
def HASHED_KEY_MARKERS : List String := ["serial"]

def isHashedKey (lower : String) : Bool :=
  Text.endsWith "name" lower || (HASHED_KEY_MARKERS.any fun m => Text.contains m lower) ||
    HASHED_KEYS.contains lower

/-- A name that ends in one of these carries the name of a host. -/
def HOST_KEY_SUFFIXES : List String :=
  ["url", "urls", "uri", "uris", "domain", "domains", "server", "servers", "address", "addresses"]

def isHostKey (lower : String) : Bool := HOST_KEY_SUFFIXES.any fun s => Text.endsWith s lower

/-- Whether a key carries the text of a wrapper object. -/
def isWrappedPayload (k : String) : Bool := Text.endsWith "value" (Text.lower k)

def isUuid (s : String) : Bool :=
  s.utf8ByteSize == 36 &&
    s.toList.zipIdx.all fun (c, i) =>
      if i = 8 ∨ i = 13 ∨ i = 18 ∨ i = 23 then c == '-' else isHexDigit c

/-- What becomes of the value under a key. -/
inductive PairRule where
  | keep
  | redacted
  | secretList
  | hashed
  | walked
  deriving DecidableEq

/-- What a key says of its value. -/
def pairRule (k : String) (v : Json) : PairRule :=
  if Text.startsWith "$" k then .keep
  else
    let lower := Text.lower k
    if k = OPAQUE_KEY then .redacted
    else if isSecretName lower then
      if v.asArray.isSome then .secretList else .redacted
    else if k = "key" ∧ v.asStr.any isKeyMaterial then .redacted
    else if Text.endsWith "version" lower ∧ v.asStr.isSome then .keep
    else if isHashedKey lower || isHostKey lower then .hashed
    else .walked

/-- What a wrapper object hashes for its own key: its text, unless that is a reference. -/
def payload (k : String) (v : Json) : Option String :=
  v.asStr.filter fun s => !Text.startsWith "$" k && isWrappedPayload k && !isUuid s

/-! ### The first pass -/

/-- What was hashed, and what replaced it. -/
abbrev Subs := List (String × String)

def hashInto (key s : String) : String × Subs :=
  let out := hashed key s
  (out, if out = s then [] else [(s, out)])

section

variable (cls : Classes) (host : String)

/-- An address is masked, everything else hashed. -/
def hashOrMask (key s : String) : String × Subs :=
  if (parseIp s).isSome || isMac s then (maskString cls host s, []) else hashInto key s

/-- One key and what it carries, given what the passes over secret lists, over hashed values and over
other values make of it. -/
def redactPair (k : String) (v : Json) (secrets under value : Json × Subs) : Json × Subs :=
  match pairRule k v with
  | .keep => (v, [])
  | .redacted => (.str REDACTED, [])
  | .secretList => secrets
  | .hashed => under
  | .walked => value

mutual

def redactValue : Json → Json × Subs
  | .obj members =>
      let (members, subs) := redactMembers members
      (.obj members, subs)
  | .arr items =>
      let (items, subs) := redactItems items
      (.arr items, subs)
  | .str s => (.str (maskString cls host s), [])
  | v => (v, [])

def redactMembers : List (String × Json) → List (String × Json) × Subs
  | [] => ([], [])
  | (k, v) :: members =>
      let (rest, subs') := redactMembers members
      if k = "$reserved" then (rest, subs')
      else
        let (v, subs) := redactPair k v (redactSecretList v) (hashUnder k v) (redactValue v)
        ((k, v) :: rest, subs ++ subs')

def redactItems : List Json → List Json × Subs
  | [] => ([], [])
  | v :: items =>
      let (v, subs) := redactValue v
      let (rest, subs') := redactItems items
      (v :: rest, subs ++ subs')

/-- A list under a secret key: its texts are secrets, its objects are walked. -/
def redactSecretList : Json → Json × Subs
  | .arr items =>
      let (items, subs) := redactSecretItems items
      (.arr items, subs)
  | .str _ => (.str REDACTED, [])
  | .obj members =>
      let (members, subs) := redactMembers members
      (.obj members, subs)
  | v => (v, [])

def redactSecretItems : List Json → List Json × Subs
  | [] => ([], [])
  | v :: items =>
      let (v, subs) := redactSecretList v
      let (rest, subs') := redactSecretItems items
      (v :: rest, subs ++ subs')

/-- What a hashed key carries: a text, a list of them, or the payload of a wrapper object. -/
def hashUnder (key : String) : Json → Json × Subs
  | .str s =>
      let (s, subs) := hashOrMask cls host key s
      (.str s, subs)
  | .arr items =>
      let (items, subs) := hashItems key items
      (.arr items, subs)
  | .obj members =>
      let (members, subs) := redactWrappedMembers members
      (.obj members, subs)
  | v => (v, [])

def hashItems (key : String) : List Json → List Json × Subs
  | [] => ([], [])
  | v :: items =>
      let (v, subs) := hashUnder key v
      let (rest, subs') := hashItems key items
      (v :: rest, subs ++ subs')

def redactWrappedMembers : List (String × Json) → List (String × Json) × Subs
  | [] => ([], [])
  | (k, v) :: members =>
      let (rest, subs') := redactWrappedMembers members
      if k = "$reserved" then (rest, subs')
      else
        let (v, subs) :=
          match payload k v with
          | some s =>
              let (s, subs) := hashOrMask cls host k s
              (.str s, subs)
          | none => redactPair k v (redactSecretList v) (hashUnder k v) (redactValue v)
        ((k, v) :: rest, subs ++ subs')

end

end

/-! ### The second pass -/

/-- A value shorter than this is not substituted. -/
def SUBSTITUTABLE_MIN : ℕ := 6

/-- The longest first, then by what is replaced and by what replaces it. -/
def subOrder (p : String × String) : ℕᵒᵈ ×ₗ String ×ₗ String :=
  toLex (OrderDual.toDual p.1.utf8ByteSize, toLex p)

/-- The replacements of the second pass. -/
def substitutable (subs : Subs) : Subs :=
  ((subs.filter fun p => SUBSTITUTABLE_MIN ≤ p.1.length).insertionSort
    fun p q => subOrder p ≤ subOrder q).destutter (· ≠ ·)

mutual

def substitute (pairs : Subs) : Json → Json
  | .obj members => .obj (substituteMembers pairs members)
  | .arr items => .arr (substituteItems pairs items)
  | .str s => .str (Text.replaceEach pairs s)
  | v => v

def substituteMembers (pairs : Subs) : List (String × Json) → List (String × Json)
  | [] => []
  | (k, v) :: members =>
      (k, if Text.startsWith "$" k then v else substitute pairs v) :: substituteMembers pairs members

def substituteItems (pairs : Subs) : List Json → List Json
  | [] => []
  | v :: items => substitute pairs v :: substituteItems pairs items

end

def substituteAll (v : Json) (subs : Subs) : Json :=
  if substitutable subs = [] then v else substitute (substitutable subs) v

/-- Both passes over a document, for a recorded host. -/
def redactFrom (cls : Classes) (v : Json) (host : String) : Json :=
  let (v, subs) := redactValue cls host v
  substituteAll v subs

def redact (cls : Classes) (v : Json) : Json := redactFrom cls v ""

end Nutsh.Recorder
