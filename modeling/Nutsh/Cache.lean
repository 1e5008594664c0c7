/-
What the last run knew, on disk: a directory for each context, with `meta.json` and a file for each
table.

A document is written and read as serde derives it for the records below.  The directory is the texts of
its files by their names.  A write puts the table files first, then `meta.json`, and then removes the
table files that it does not name; a read checks the directory against the build and the target, and each
table file against its record, and drops what does not pass.

Main definitions:

* `Meta`, `TableFile`, `Snapshot`, `Restored` — the two documents, what a write is handed and what a read
  gives back;
* `Build` — what the program is built with;
* `scrub` — a document without its secret members;
* `Build.write`, `Build.read`, `Build.sweep` — the three operations on the cache;
* `Build.Newer` — a directory that reads as one of a newer format.
-/
import Nutsh.Body
import Nutsh.Cache.Scrub
import Nutsh.Entity
import Nutsh.Lib.Serde

set_option relaxedAutoImplicit false
set_option autoImplicit false

namespace Nutsh.Cache

/-! ### Constants -/

/-- The format on disk; a newer one is left alone. -/
def FORMAT : UInt32 := 1

/-- The age of a whole directory, in seconds, at which it is discarded. -/
def MAX_AGE : ℕ := 7 * 24 * 60 * 60

/-- How old a restored namespace status may be to be adopted. -/
def NAMESPACE_TTL : ℕ := 24 * 60 * 60

/-- How old the restored roles may be to be adopted. -/
def CAN_I_TTL : ℕ := 60 * 60

def MAX_ROWS_PER_TABLE : ℕ := 2000

/-- A table whose text is longer is skipped. -/
def MAX_TABLE_BYTES : ℕ := 2 * 1024 * 1024

/-- Over this, tables are evicted, the oldest first. -/
def MAX_DIR_BYTES : ℕ := 16 * 1024 * 1024

def MAX_NAMES : ℕ := 20000

/-- The directories a sweep leaves. -/
def MAX_CONTEXT_DIRS : ℕ := 8

/-! ### The records -/

/-- The Prism Central, the account and the version that wrote a directory. -/
structure Identity where
  host : String
  port : UInt16
  username : String
  domainManager : Option String := none
  pcVersion : Option String := none
  deriving DecidableEq, Repr

/-- Whether two identities are of one target, the half known before a request. -/
def Identity.sameTarget (a b : Identity) : Bool :=
  a.host == b.host && a.port == b.port && a.username == b.username

structure NamespaceRecord where
  name : String
  version : String
  pinned : Option String
  ok : Bool
  detail : String
  «at» : UInt64
  deriving DecidableEq, Repr

structure ClusterRecord where
  extId : String
  name : String
  deriving DecidableEq, Repr

/-- The counters of the header. -/
structure StatsRecord where
  clusters : Option UInt64
  hosts : Option UInt64
  vms : Option UInt64
  vmsOn : Option UInt64
  alertsCritical : Option UInt64
  alertsWarning : Option UInt64
  tasksRunning : Option UInt64
  «at» : UInt64
  deriving DecidableEq, Repr

/-- The last result of the sampler. -/
structure SampleRecord where
  policies : Option UInt64
  plans : Option UInt64
  recoveryPoints : Option UInt64
  jobs : Option UInt64
  sampled : UInt64
  inSync : UInt64
  syncing : UInt64
  outOfSync : UInt64
  available : Bool
  «at» : UInt64
  deriving DecidableEq, Repr

/-- The roles of an account. -/
structure CanIRecord where
  username : String
  «at» : UInt64
  roles : List String
  deriving DecidableEq, Repr

/-- The entry of one table file in `meta.json`. -/
structure TableRecord where
  file : String
  kind : String
  parents : List String
  filter : Option String
  select : Option String
  rows : UInt64
  total : Option UInt64
  bytes : UInt64
  «at» : UInt64
  deriving DecidableEq, Repr

/-- The document of `meta.json`. -/
structure Meta where
  format : UInt32
  /-- Seconds since the epoch. -/
  written : UInt64
  /-- The process that wrote it. -/
  session : String
  appVersion : String
  identity : Identity
  pins : IndexMap String String
  namespaces : List NamespaceRecord
  cluster : Option ClusterRecord
  names : List (String × String)
  stats : Option StatsRecord
  sample : Option SampleRecord
  canI : Option CanIRecord
  tables : List TableRecord

/-- The document of a table file. -/
structure TableFile where
  format : UInt32
  session : String
  kind : String
  parents : List String
  filter : Option String
  select : Option String
  total : Option UInt64
  «at» : UInt64
  rows : List Json

/-! ### Their JSON -/

open Serde (record str bool uint16 uint32 uint64 neverNull_str neverNull_uint64
  neverNull_record)

namespace Identity

def serde : Serde Identity :=
  record (.cons "host" (.required str) <| .cons "port" (.required uint16) <|
      .cons "username" (.required str) <| .cons "domain_manager" (.defaulted str neverNull_str) <|
      .cons "pc_version" (.defaulted str neverNull_str) .nil) (by decide)
    (fun a => (a.host, a.port, a.username, a.domainManager, a.pcVersion, ()))
    (fun (host, port, username, domainManager, pcVersion, _) =>
      { host, port, username, domainManager, pcVersion })
    fun _ => rfl

end Identity

namespace NamespaceRecord

def serde : Serde NamespaceRecord :=
  record (.cons "name" (.required str) <| .cons "version" (.required str) <|
      .cons "pinned" (.optional str neverNull_str) <| .cons "ok" (.required bool) <|
      .cons "detail" (.required str) <| .cons "at" (.required uint64) .nil) (by decide)
    (fun a => (a.name, a.version, a.pinned, a.ok, a.detail, a.at, ()))
    (fun (name, version, pinned, ok, detail, t, _) => ⟨name, version, pinned, ok, detail, t⟩)
    fun _ => rfl

end NamespaceRecord

namespace ClusterRecord

def serde : Serde ClusterRecord :=
  record (.cons "ext_id" (.required str) <| .cons "name" (.required str) .nil) (by decide)
    (fun a => (a.extId, a.name, ())) (fun (extId, name, _) => ⟨extId, name⟩) fun _ => rfl

end ClusterRecord

/-- A counter that may be unknown. -/
def counter : Serde.Field (Option UInt64) := .optional uint64 neverNull_uint64

namespace StatsRecord

def serde : Serde StatsRecord :=
  record (.cons "clusters" counter <| .cons "hosts" counter <| .cons "vms" counter <|
      .cons "vms_on" counter <| .cons "alerts_critical" counter <| .cons "alerts_warning" counter <|
      .cons "tasks_running" counter <| .cons "at" (.required uint64) .nil) (by decide)
    (fun a => (a.clusters, a.hosts, a.vms, a.vmsOn, a.alertsCritical, a.alertsWarning, a.tasksRunning,
      a.at, ()))
    (fun (clusters, hosts, vms, vmsOn, alertsCritical, alertsWarning, tasksRunning, t, _) =>
      ⟨clusters, hosts, vms, vmsOn, alertsCritical, alertsWarning, tasksRunning, t⟩)
    fun _ => rfl

end StatsRecord

namespace SampleRecord

def serde : Serde SampleRecord :=
  record (.cons "policies" counter <| .cons "plans" counter <| .cons "recovery_points" counter <|
      .cons "jobs" counter <| .cons "sampled" (.required uint64) <| .cons "in_sync" (.required uint64) <|
      .cons "syncing" (.required uint64) <| .cons "out_of_sync" (.required uint64) <|
      .cons "available" (.required bool) <| .cons "at" (.required uint64) .nil) (by decide)
    (fun a => (a.policies, a.plans, a.recoveryPoints, a.jobs, a.sampled, a.inSync, a.syncing,
      a.outOfSync, a.available, a.at, ()))
    (fun (policies, plans, recoveryPoints, jobs, sampled, inSync, syncing, outOfSync, available, t, _) =>
      ⟨policies, plans, recoveryPoints, jobs, sampled, inSync, syncing, outOfSync, available, t⟩)
    fun _ => rfl

end SampleRecord

namespace CanIRecord

def serde : Serde CanIRecord :=
  record (.cons "username" (.required str) <| .cons "at" (.required uint64) <|
      .cons "roles" (.required (.list str)) .nil) (by decide)
    (fun a => (a.username, a.at, a.roles, ())) (fun (username, t, roles, _) => ⟨username, t, roles⟩)
    fun _ => rfl

end CanIRecord

namespace TableRecord

def serde : Serde TableRecord :=
  record (.cons "file" (.required str) <| .cons "kind" (.required str) <|
      .cons "parents" (.required (.list str)) <| .cons "filter" (.optional str neverNull_str) <|
      .cons "select" (.optional str neverNull_str) <| .cons "rows" (.required uint64) <|
      .cons "total" counter <| .cons "bytes" (.required uint64) <| .cons "at" (.required uint64) .nil)
    (by decide)
    (fun a => (a.file, a.kind, a.parents, a.filter, a.select, a.rows, a.total, a.bytes, a.at, ()))
    (fun (file, kind, parents, filter, select, rows, total, bytes, t, _) =>
      ⟨file, kind, parents, filter, select, rows, total, bytes, t⟩)
    fun _ => rfl

end TableRecord

namespace Meta

def serde : Serde Meta :=
  record (.cons "format" (.required uint32) <| .cons "written" (.required uint64) <|
      .cons "session" (.required str) <| .cons "app_version" (.required str) <|
      .cons "identity" (.required Identity.serde) <| .cons "pins" (.required .texts) <|
      .cons "namespaces" (.required (.list NamespaceRecord.serde)) <|
      .cons "cluster" (.optional ClusterRecord.serde neverNull_record) <|
      .cons "names" (.required (.list (.pair str str))) <|
      .cons "stats" (.optional StatsRecord.serde neverNull_record) <|
      .cons "sample" (.optional SampleRecord.serde neverNull_record) <|
      .cons "can_i" (.optional CanIRecord.serde neverNull_record) <|
      .cons "tables" (.required (.list TableRecord.serde)) .nil) (by decide)
    (fun a => (a.format, a.written, a.session, a.appVersion, a.identity, a.pins, a.namespaces, a.cluster,
      a.names, a.stats, a.sample, a.canI, a.tables, ()))
    (fun (format, written, session, appVersion, identity, pins, namespaces, cluster, names, stats, sample,
        canI, tables, _) =>
      { format, written, session, appVersion, identity, pins, namespaces, cluster, names, stats, sample,
        canI, tables })
    fun _ => rfl

end Meta

namespace TableFile

def serde : Serde TableFile :=
  record (.cons "format" (.required uint32) <| .cons "session" (.required str) <|
      .cons "kind" (.required str) <| .cons "parents" (.required (.list str)) <|
      .cons "filter" (.optional str neverNull_str) <| .cons "select" (.optional str neverNull_str) <|
      .cons "total" counter <| .cons "at" (.required uint64) <|
      .cons "rows" (.required (.list .value)) .nil) (by decide)
    (fun a => (a.format, a.session, a.kind, a.parents, a.filter, a.select, a.total, a.at, a.rows, ()))
    (fun (format, session, kind, parents, filter, select, total, t, rows, _) =>
      ⟨format, session, kind, parents, filter, select, total, t, rows⟩)
    fun _ => rfl

end TableFile

/-! ### Names of files -/

/-- FNV-1a of 64 bits over the bytes of a text. -/
def fnv1a64 (s : String) : UInt64 :=
  s.toUTF8.toList.foldl (fun hash b => (hash ^^^ b.toUInt64) * 0x100000001b3) 0xcbf29ce484222325

/-- Sixteen hexadecimal digits. -/
def hex16 (n : UInt64) : String :=
  String.ofList ((List.range 16).map fun i => Nat.digitChar (n.toNat / 16 ^ (15 - i) % 16))

def metaName : String := "meta.json"

/-- The history of the palette, which shares the directory. -/
def historyName : String := "history.json"

/-- Whether a name is one of a table file. -/
def isTableFile (name : String) : Bool := Text.startsWith "t-" name && Text.endsWith ".json" name

/-! ### What is written and what is read -/

/-- A table as the store has it. -/
structure TableSnapshot where
  kind : String
  parents : List String := []
  filter : Option String := none
  select : Option String := none
  total : Option UInt64 := none
  «at» : UInt64
  rows : List Json := []

/-- What a write is handed. -/
structure Snapshot where
  identity : Identity
  pins : IndexMap String String := .empty
  namespaces : List NamespaceRecord := []
  cluster : Option ClusterRecord := none
  names : List (String × String) := []
  stats : Option StatsRecord := none
  sample : Option SampleRecord := none
  canI : Option CanIRecord := none
  tables : List TableSnapshot := []

/-- A table of the catalog with the rows that were on disk. -/
structure RestoredTable where
  kind : Kind
  parents : List String
  filter : Option String
  rows : List Json
  total : Option UInt64
  «at» : UInt64

/-- What a directory gave back. -/
structure Restored where
  written : UInt64
  identity : Identity
  pins : IndexMap String String
  namespaces : List NamespaceRecord
  cluster : Option ClusterRecord
  names : List (String × String)
  stats : Option StatsRecord
  sample : Option SampleRecord
  canI : Option CanIRecord
  tables : List RestoredTable

/-- The texts of the files of a directory. -/
abbrev Dir := IndexMap String String

/-- The directories of the cache. -/
abbrev Root := IndexMap String Dir

/-- What the program is built with. -/
structure Build where
  codec : Codec
  catalog : Catalog
  /-- The filters the panes of the pages declare. -/
  filters : List String := []
  version : String
  hash : String → UInt64 := fnv1a64

namespace Build

variable (b : Build)

/-- The name of the file of a table. -/
def tableFileName (kind : String) (parents : List String) (filter : Option String) : String :=
  "t-" ++ hex16 (b.hash (kind ++ "\x00" ++ toString parents.length ++ "\x00" ++
    String.intercalate "\x00" parents ++ "\x00" ++ filter.getD "")) ++ ".json"

/-- The filter of a page that a stored one names. -/
def staticFilter (filter : String) : Option String := b.filters.find? (· == filter)

/-- A document of a text. -/
def document {α : Type} (s : Serde α) (text : String) : Option α :=
  (b.codec.parse text).toOption.bind s.de

def readMeta (d : Dir) : Option Meta := (d.get? metaName).bind (b.document Meta.serde)

/-- The directory reads as one of a newer format. -/
def Newer (d : Dir) : Prop := ∃ m, b.readMeta d = some m ∧ FORMAT < m.format

theorem newer_iff {d : Dir} : ((b.readMeta d).any fun m => FORMAT < m.format) = true ↔ b.Newer d := by
  simp [Newer, Option.any_eq_true]

/-! ### The write -/

/-- The file of a table: its first rows, scrubbed. -/
def payload (session : String) (t : TableSnapshot) : TableFile :=
  { format := FORMAT, session, kind := t.kind, parents := t.parents, filter := t.filter,
    select := t.select, total := t.total, «at» := t.at,
    rows := (t.rows.take MAX_ROWS_PER_TABLE).map scrub }

/-- The text of a table, and the entry it gets. -/
def entry (session : String) (t : TableSnapshot) : String × TableRecord :=
  let file := payload session t
  let text := b.codec.print (TableFile.serde.ser file)
  (text, { file := b.tableFileName t.kind t.parents t.filter, kind := t.kind, parents := t.parents,
           filter := t.filter, select := t.select, rows := .ofNat file.rows.length, total := t.total,
           bytes := .ofNat text.utf8ByteSize, «at» := t.at })

/-- A table written, one that is too large skipped. -/
def writeTable (session : String) (w : Dir × List TableRecord) (t : TableSnapshot) :
    Dir × List TableRecord :=
  let (text, record) := b.entry session t
  if MAX_TABLE_BYTES < text.utf8ByteSize then w else (w.1.insert record.file text, w.2 ++ [record])

/-- An entry kept while there is room, its file removed otherwise. -/
def evict (w : Dir × ℕ × List TableRecord) (r : TableRecord) : Dir × ℕ × List TableRecord :=
  let (d, total, kept) := w
  if MAX_DIR_BYTES < total + r.bytes.toNat then (d.erase r.file, total, kept)
  else (d, total + r.bytes.toNat, kept ++ [r])

/-- The document of `meta.json`. -/
def metaOf (session : String) (snap : Snapshot) (now : UInt64) (tables : List TableRecord) : Meta :=
  { format := FORMAT, written := now, session, appVersion := b.version, identity := snap.identity,
    pins := snap.pins, namespaces := snap.namespaces.filter NamespaceRecord.ok, cluster := snap.cluster,
    names := snap.names.take MAX_NAMES, stats := snap.stats, sample := snap.sample, canI := snap.canI,
    tables }

/-- Writes a snapshot into a directory; one of a newer format is left alone. -/
def write (session : String) (d : Dir) (snap : Snapshot) (now : UInt64) : Dir :=
  if (b.readMeta d).any fun m => FORMAT < m.format then d
  else
    let (d, records) := snap.tables.foldl (b.writeTable session) (d, [])
    let (d, _, kept) := (records.mergeSort fun r s => s.at ≤ r.at).foldl evict (d, 0, [])
    let tables := kept.mergeSort fun r s => r.file ≤ s.file
    let d := d.insert metaName (b.codec.print (Meta.serde.ser (b.metaOf session snap now tables)))
    d.keep fun name => !(isTableFile name && !tables.any fun r => r.file == name)

/-! ### The read -/

/-- What becomes of one entry of `meta.json`. -/
inductive Verdict where
  | use (table : RestoredTable)
  /-- Its file is not there. -/
  | absent
  /-- Its file is removed. -/
  | drop

/-- The table of an entry: of the catalog, by the fields of its file, under this build's `$select` and a
filter that some page declares. -/
def readTable (m : Meta) (d : Dir) (record : TableRecord) : Verdict :=
  match b.catalog.kind record.kind with
  | none => .drop
  | some kind =>
      match d.get? record.file with
      | none => .absent
      | some text =>
          match b.document TableFile.serde text with
          | none => .drop
          | some file =>
              -- The fields and not the name of the file: two tables may share that.
              if file.format ≠ FORMAT ∨ file.session ≠ m.session ∨ file.kind ≠ record.kind ∨
                  file.parents ≠ record.parents ∨ file.filter ≠ record.filter then .drop
              else if file.select ≠ kind.select then .drop
              else
                match file.filter.map b.staticFilter with
                | some none => .drop
                | filter =>
                    .use { kind, parents := file.parents, filter := filter.join, total := file.total,
                           «at» := file.at,
                           rows := file.rows.filter fun v =>
                             ((v.get kind.extIdKey).bind Json.asStr).any fun id => id ≠ "" }

/-- One entry on the way through `meta.json`. -/
def readEntry (m : Meta) (w : Dir × List RestoredTable) (record : TableRecord) :
    Dir × List RestoredTable :=
  match b.readTable m w.1 record with
  | .use t => (w.1, w.2 ++ [t])
  | .absent => w
  | .drop => (w.1.erase record.file, w.2)

/-- The directory without what the cache wrote. -/
def discard (d : Dir) : Dir := d.keep (· == historyName)

/-- What is usable in a directory, and what is left of it. -/
def read (d : Dir) (target : Identity) (now : UInt64) (maxAge : ℕ) : Option Restored × Dir :=
  match b.readMeta d with
  | none => (none, discard d)
  | some m =>
      if FORMAT < m.format then (none, d)
      else if m.format ≠ FORMAT ∨ m.appVersion ≠ b.version ∨ !m.identity.sameTarget target ∨
          maxAge < now.toNat - m.written.toNat then (none, discard d)
      else
        let (d, tables) := m.tables.foldl (b.readEntry m) (d, [])
        (some { written := m.written, identity := m.identity, pins := m.pins, namespaces := m.namespaces,
                cluster := m.cluster, names := m.names, stats := m.stats, sample := m.sample,
                canI := m.canI, tables }, d)

/-! ### The sweep -/

/-- When a directory was written, nought when its `meta.json` does not read; `none` for one of a newer
format. -/
def writtenAt (d : Dir) : Option ℕ :=
  match b.readMeta d with
  | some m => if FORMAT < m.format then none else some m.written.toNat
  | none => some 0

/-- Removes all directories but those written last. -/
def sweep (root : Root) : Root :=
  let dirs := root.entries.filterMap fun e => (b.writtenAt e.2).map fun written => (written, e.1)
  ((dirs.mergeSort fun x y => y.1 ≤ x.1).drop MAX_CONTEXT_DIRS).foldl (fun root x => root.erase x.2) root

end Build

end Nutsh.Cache
