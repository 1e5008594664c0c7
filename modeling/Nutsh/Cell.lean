/-
One cell of a table.

A cell is the values at a path of a row, each written by the kind of the column: a size with its unit, a date
as an age, a flag as a mark, an enumeration word recased, a reference as the name of what it refers to, and
everything else as it stands, a string without the characters that turn the direction of the line.

Main definitions:

* `Formats` — the formats of dates and of doubles, which other libraries read and write;
* `Cell.plain`, `Cell.withoutBidi` — a value as it stands;
* `Cell.bytes`, `Cell.span`, `Cell.age` — sizes and lengths of time;
* `Cell.shout`, `Cell.sentence`, `Cell.reference` — words and references;
* `Cell.scalar`, `Cell.render` — one value, and a whole cell.
-/
import Nutsh.Lib.JsonText
import Nutsh.Lookup
import Nutsh.Search.Filter
import Nutsh.Select

set_option relaxedAutoImplicit false
set_option autoImplicit false

namespace Nutsh

/-- The formats that other libraries read and write: the instant a date names, in seconds since 1970, and the
text of a double.  A text that is read as a date has a digit in it, and a double is written in ASCII, with a
digit. -/
structure Formats where
  rfc3339 : String → Option ℤ
  float : UInt64 → String
  digit_of_rfc3339 : ∀ {s : String} {t : ℤ}, rfc3339 s = some t → ∃ c ∈ s.toList, c.isDigit = true
  digit_of_float : ∀ bits, ∃ c ∈ (float bits).toList, c.isDigit = true
  ascii_of_float : ∀ bits, ∀ c ∈ (float bits).toList, c.toNat < 128

namespace Cell

/-! ### Numbers -/

/-- A quotient rounded to the nearest number, to the even one when two are as near. -/
def roundHalfEven (n d : ℕ) : ℕ :=
  if d < 2 * (n % d) ∨ 2 * (n % d) = d ∧ n / d % 2 = 1 then n / d + 1 else n / d

/-- The double nearest to a natural number. -/
def toDouble (n : ℕ) : ℕ :=
  if n < 2 ^ 53 then n
  else roundHalfEven n (2 ^ (Nat.log2 n - 52)) * 2 ^ (Nat.log2 n - 52)

/-- The bits of a double, rounded to a whole number. -/
def wholeText (bits : UInt64) : String :=
  let exponent := bits.toNat / 2 ^ 52 % 2 ^ 11
  let fraction := bits.toNat % 2 ^ 52
  let mantissa := if exponent = 0 then fraction else fraction + 2 ^ 52
  let power := max exponent 1
  let rounded :=
    if 1075 ≤ power then mantissa * 2 ^ (power - 1075) else roundHalfEven mantissa (2 ^ (1075 - power))
  (if bits.toNat / 2 ^ 63 = 1 then "-" else "") ++ rounded.repr

def asU64 : Json → Option ℕ
  | .num (.int n) => if 0 ≤ n ∧ n < 2 ^ 64 then some n.toNat else none
  | _ => none

def asI64 : Json → Option ℤ
  | .num (.int n) => if -2 ^ 63 ≤ n ∧ n < 2 ^ 63 then some n else none
  | _ => none

/-- A number as a double, written without a fraction. -/
def asF64Whole : Json → Option String
  | .num (.int n) => some ((if n < 0 then "-" else "") ++ (toDouble n.natAbs).repr)
  | .num (.float bits) => some (wholeText bits)
  | _ => none

/-! ### Sizes and lengths of time -/

def UNITS : List String := ["B", "KiB", "MiB", "GiB", "TiB", "PiB", "EiB"]

/-- The unit a size is written in, `left` units being left behind this one.  The bound is the double nearest to
1023.95: what would be rounded to 1024.0 is written in the next unit. -/
def unitOf (size : ℕ) : ℕ → ℕ → ℕ
  | 0, unit => unit
  | left + 1, unit =>
      if 4503379725044941 * 1024 ^ unit ≤ size * 2 ^ 42 then unitOf size left (unit + 1) else unit

/-- A size, in binary units with one decimal, `.0` dropped. -/
def bytes (n : ℕ) : String :=
  let unit := unitOf (toDouble n) (UNITS.length - 1) 0
  if unit = 0 then n.repr ++ " B"
  else
    let tenths := roundHalfEven (toDouble n * 10) (1024 ^ unit)
    (tenths / 10).repr ++ (if tenths % 10 = 0 then "" else "." ++ (tenths % 10).repr) ++ " " ++
      UNITS.getD unit ""

/-- A length of time in seconds. -/
def span (secs : ℕ) : String :=
  if secs < 60 then secs.repr ++ "s"
  else if secs < 3600 then (secs / 60).repr ++ "m"
  else if secs < 86400 then (secs / 3600).repr ++ "h"
  else if secs < 31536000 then (secs / 86400).repr ++ "d"
  else (secs / 31536000).repr ++ "y"

/-- How long ago an instant is, none at all when it is yet to come; both are in nanoseconds. -/
def age (t now : ℤ) : String := span ((now - t).toNat / 10 ^ 9)

/-! ### Words -/

/-- The characters that turn the direction of what follows them. -/
def isBidi (c : Char) : Bool :=
  ('\u202A' ≤ c && c ≤ '\u202E') || ('\u2066' ≤ c && c ≤ '\u2069')

def withoutBidi (s : String) : String := String.ofList (s.toList.filter fun c => !isBidi c)

/-- A value as it stands. -/
def plain (f : Formats) : Json → String
  | .str s => withoutBidi s
  | .null => "-"
  | other => other.text f.float

/-- A word of letters, digits, `_` and `$`. -/
def isToken (s : String) : Bool := s != "" && s.toList.all fun c => c.isAlphanum || c == '_' || c == '$'

/-- A word without a `$` in front of it. -/
def stripDollar (word : String) : String :=
  match word.toList with
  | '$' :: rest => String.ofList rest
  | _ => word

/-- A status word: without its `$`, its `_` blanks, in capitals. -/
def shout (word : String) : String :=
  if isToken word then
    String.ofList ((stripDollar word).toList.map fun c => if c = '_' then ' ' else c.toUpper)
  else word

/-- Machine casing and the casing a person writes. -/
def ACRONYMS : List (String × String) :=
  [("Vm", "VM"), ("Vms", "VMs"), ("Ip", "IP"), ("Ips", "IPs"), ("Vpc", "VPC"), ("Vpcs", "VPCs"),
    ("Vpn", "VPN"), ("Vpns", "VPNs"), ("Saml", "SAML"), ("Iscsi", "iSCSI"), ("Nic", "NIC"),
    ("Nics", "NICs"), ("Gpu", "GPU"), ("Gpus", "GPUs"), ("Cpu", "CPU"), ("Cpus", "CPUs"), ("Ssl", "SSL"),
    ("Ssh", "SSH"), ("Ldap", "LDAP"), ("Dns", "DNS"), ("Ntp", "NTP"), ("Smtp", "SMTP"), ("Snmp", "SNMP"),
    ("Ncc", "NCC"), ("Lcm", "LCM"), ("Pcie", "PCIe"), ("Bgp", "BGP"), ("Ospf", "OSPF"), ("Nfs", "NFS"),
    ("Smb", "SMB"), ("Cvm", "CVM"), ("Cvms", "CVMs"), ("Ahv", "AHV"), ("Esxi", "ESXi"), ("Api", "API"),
    ("Id", "ID"), ("Ids", "IDs"), ("Uuid", "UUID"), ("Mac", "MAC"), ("Vlan", "VLAN"), ("Vlans", "VLANs"),
    ("Nat", "NAT"), ("Bmc", "BMC"), ("Ipmi", "IPMI"), ("Tls", "TLS"), ("Oidc", "OIDC"), ("Iam", "IAM"),
    ("Pc", "PC"), ("Pe", "PE"), ("Ipv4", "IPv4"), ("Ipv6", "IPv6"), ("Kms", "KMS"), ("Vtep", "VTEP"),
    ("Pd", "PD"), ("Iso", "ISO"), ("Ova", "OVA"), ("Mst", "MST"), ("Ssd", "SSD"), ("Scsi", "SCSI"),
    ("Sata", "SATA"), ("Nvme", "NVMe"), ("Das", "DAS"), ("Sriov", "SR-IOV"), ("Dp", "DP")]

def capitalize (s : String) : String :=
  match s.toList with
  | first :: rest => String.ofList (first.toUpper :: rest)
  | [] => ""

/-- A word of a token, the first one with a capital; an acronym keeps its casing. -/
def recased (token : String) (i : ℕ) : String :=
  match ACRONYMS.find? fun a => eqIgnoreCase a.1 token with
  | some a => a.2
  | none => if i = 0 then capitalize (Text.lower token) else Text.lower token

/-- The words between the `_` of a token, with blanks between them. -/
def sentenceCase (word : String) : String :=
  " ".intercalate
    (((Text.splitChar '_' word).filter (· != "")).zipIdx.map fun token => recased token.1 token.2)

/-- Any other enumeration word: in sentence case. -/
def sentence (word : String) : String := if isToken word then sentenceCase (stripDollar word) else word

/-! ### References -/

/-- What stands for no project and no owner. -/
def NIL_UUID : String := "00000000-0000-0000-0000-000000000000"

def isUuid (s : String) : Bool :=
  let parts := Text.splitChar '-' s
  parts.map String.utf8ByteSize == [8, 4, 4, 4, 12] && parts.all fun p => p.toList.all Search.isHexDigit

/-- The name of what is referred to, when it is known, else the beginning of an identifier, or what else the
value is. -/
def reference (f : Formats) (names : IndexMap String String) (v : Json) : Rendered :=
  let id := plain f v
  if id = NIL_UUID then .empty
  else
    match names.get? id with
    | some name => { text := name, dim := false }
    | none =>
        if isUuid id then { text := String.ofList (id.toList.take 8), dim := true }
        else { text := id, dim := false }

/-! ### Cells -/

/-- One value of a column; `now` is in nanoseconds. -/
def scalar (f : Formats) (names : IndexMap String String) (now : ℤ) (kind : ColumnKind) (v : Json) :
    Rendered :=
  match kind with
  | .bytes => { text := ((asU64 v).map bytes).getD (plain f v), dim := false }
  | .duration =>
      match asU64 v with
      | some secs => { text := span secs, dim := false }
      | none => .empty
  | .timestamp =>
      { text := ((v.asStr.bind f.rfc3339).map fun t => age (t * 10 ^ 9) now).getD (plain f v), dim := true }
  | .micros => { text := ((asU64 v).map fun (us : ℕ) => age (us * 1000) now).getD "-", dim := true }
  | .percent =>
      { text := (((asI64 v).map fun n => n.repr ++ "%").or ((asF64Whole v).map (· ++ "%"))).getD (plain f v)
        dim := false }
  | .bool =>
      { text := match v.asBool with
          | some true => "✓"
          | some false => "✗"
          | none => plain f v
        dim := false }
  | .status => { text := shout (plain f v), dim := false }
  | .enum => { text := sentence (plain f v), dim := false }
  | .reference => reference f names v
  | .ip => { text := plain f v, dim := false }
  | .text => { text := plain f v, dim := false }
  -- a count is told before any value is written
  | .count => .empty

section
variable {f : Formats} {names : IndexMap String String} {now : ℤ} {v : Json}

theorem scalar_bytes {n : ℕ} (h : asU64 v = some n) : (scalar f names now .bytes v).text = bytes n := by
  rw [scalar, h, Option.map_some, Option.getD_some]

theorem scalar_bytes_plain (h : asU64 v = none) : (scalar f names now .bytes v).text = plain f v := by
  rw [scalar, h, Option.map_none, Option.getD_none]

theorem scalar_timestamp {t : ℤ} (h : v.asStr.bind f.rfc3339 = some t) :
    (scalar f names now .timestamp v).text = age (t * 10 ^ 9) now := by
  rw [scalar, h, Option.map_some, Option.getD_some]

theorem scalar_timestamp_plain (h : v.asStr.bind f.rfc3339 = none) :
    (scalar f names now .timestamp v).text = plain f v := by
  rw [scalar, h, Option.map_none, Option.getD_none]

theorem scalar_micros {n : ℕ} (h : asU64 v = some n) :
    (scalar f names now .micros v).text = age (n * 1000) now := by
  rw [scalar, h, Option.map_some, Option.getD_some]

theorem scalar_micros_none (h : asU64 v = none) : (scalar f names now .micros v).text = "-" := by
  rw [scalar, h, Option.map_none, Option.getD_none]

theorem scalar_percent {n : ℤ} (h : asI64 v = some n) :
    (scalar f names now .percent v).text = n.repr ++ "%" := by
  rw [scalar, h, Option.map_some, Option.some_or, Option.getD_some]

theorem scalar_percent_double {t : String} (h : asI64 v = none) (ht : asF64Whole v = some t) :
    (scalar f names now .percent v).text = t ++ "%" := by
  rw [scalar, h, ht, Option.map_none, Option.map_some, Option.none_or, Option.getD_some]

theorem scalar_percent_plain (h : asI64 v = none) (ht : asF64Whole v = none) :
    (scalar f names now .percent v).text = plain f v := by
  rw [scalar, h, ht, Option.map_none, Option.map_none, Option.none_or, Option.getD_none]

end

/-- The cell of a path of a row. -/
def render (f : Formats) (names : IndexMap String String) (now : ℤ) (path : String) (kind : ColumnKind)
    (raw : Json) : Rendered :=
  renderJson (scalar f names now) path kind raw

example : bytes 1536 = "1.5 KiB" ∧ bytes 1048575 = "1 MiB" ∧ bytes (2 ^ 64 - 1) = "16 EiB" := by decide +kernel

example : sentence "$VM_ANTI_AFFINITY" = "VM anti affinity" ∧ shout "$POWERED_OFF" = "POWERED OFF" := by
  decide +kernel

end Cell

end Nutsh
