/-
The names of secrets, and documents without them.

A property is secret by its name: one of the markers stands in it, in any case, or it ends in `script`,
and it is not one of the names that only describe a secret.  A guest customization is opaque and goes
whole; a bare `key` goes when its value has the shape of key material.  The names that begin with a
dollar sign carry the schema and always stay.

Main definitions:

* `isSecretName`, `isKeyMaterial`, `hides` — what a document is scrubbed of;
* `scrub` — a document without it, at every depth.
-/
import Nutsh.Lib.Json
import Nutsh.Lib.Text

set_option relaxedAutoImplicit false
set_option autoImplicit false

namespace Nutsh.Cache

/-- A name that contains one of these is secret. -/
def SECRET_KEY_MARKERS : List String :=
  ["password", "secret", "token", "privatekey", "apikey", "sshkey", "publickey", "credential",
    "passphrase", "accessinformation", "cookie", "authorization", "certificate", "licensekey",
    "accesskey", "encryptionkey", "cloudinit", "sysprep", "unattend", "userdata"]

/-- A name that ends in one of these is secret. -/
def SECRET_KEY_SUFFIXES : List String := ["script"]

/-- The names that a marker catches though they only describe a secret. -/
def SECRET_KEY_KEEP : List String :=
  ["hasprivatekey", "shouldvalidateadcredential", "isforceresetpasswordenabled", "bucketsaccesskeys",
    "claimtokenextid", "accesskeyname", "apicredentialstatus", "credentialissuer",
    "authorizationpolicytype"]

/-- The subtree that goes whole. -/
def OPAQUE_KEY : String := "guestCustomization"

/-- Whether a property name names a credential, in any case. -/
def isSecretName (name : String) : Bool :=
  let lower := Text.lower name
  !SECRET_KEY_KEEP.contains lower &&
    (SECRET_KEY_MARKERS.any (fun m => Text.contains m lower) ||
      SECRET_KEY_SUFFIXES.any fun s => Text.endsWith s lower)

/-- Whether a text has the shape of a key. -/
def isKeyMaterial (s : String) : Bool :=
  Text.startsWith "ssh-" s || Text.startsWith "ecdsa-" s || Text.startsWith "sk-" s ||
    Text.startsWith "-----BEGIN" s || 100 < s.utf8ByteSize

/-- Whether a member of an object is taken out. -/
def hides (k : String) (v : Json) : Bool :=
  !Text.startsWith "$" k &&
    (Text.lower k == Text.lower OPAQUE_KEY || isSecretName k ||
      (k == "key" && v.asStr.any isKeyMaterial))

mutual

/-- A document without its secret members. -/
def scrub : Json → Json
  | .obj members => .obj (scrubMembers members)
  | .arr items => .arr (scrubItems items)
  | v => v

def scrubMembers : List (String × Json) → List (String × Json)
  | [] => []
  | (k, v) :: ms => if hides k v then scrubMembers ms else (k, scrub v) :: scrubMembers ms

def scrubItems : List Json → List Json
  | [] => []
  | v :: vs => scrub v :: scrubItems vs

end

end Nutsh.Cache
