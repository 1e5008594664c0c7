/-
What a session hands to the cache, and what it takes back from it.

On its way out a session writes what it holds: the verdicts on the namespaces, the roles of the account
and the tables that were polled, all under the time of the writing.  The next session adopts of it what is
young enough, and marks what it adopted, so that a screen can say that no live answer stands behind it.

Main definitions:

* `Held` — what a session holds that the cache is concerned with;
* `adoptable`, `recorded` — a verdict read out of the cache, and one on its way into it;
* `connect`, `Held.enableCache` — the verdicts a session starts with, and what is painted of a cache;
* `cacheSnapshot` — what a session hands to the cache.
-/
import Nutsh.Cache
import Nutsh.Guardrails
import Nutsh.Prism.Negotiate
import Nutsh.Store

set_option relaxedAutoImplicit false
set_option autoImplicit false

namespace Nutsh.Cache

open Prism (NamespaceStatus Routing PrismError Listing)

/-! ### What is held -/

/-- The counters of the header. -/
structure Stats where
  clusters : Option UInt64 := none
  hosts : Option UInt64 := none
  vms : Option UInt64 := none
  vmsOn : Option UInt64 := none
  alertsCritical : Option UInt64 := none
  alertsWarning : Option UInt64 := none
  tasksRunning : Option UInt64 := none
  stale : Bool := false
  deriving DecidableEq, Repr

/-- The last result of the sampler. -/
structure ProtectionSample where
  policies : Option UInt64 := none
  plans : Option UInt64 := none
  recoveryPoints : Option UInt64 := none
  jobs : Option UInt64 := none
  sampled : UInt64 := 0
  inSync : UInt64 := 0
  syncing : UInt64 := 0
  outOfSync : UInt64 := 0
  available : Bool := false
  deriving DecidableEq, Repr

/-- What a session holds that the cache is concerned with. -/
structure Held where
  identity : Identity
  cluster : Option ClusterRecord := none
  routing : Routing := {}
  store : Store := {}
  stats : Stats := {}
  sample : ProtectionSample := {}
  canI : CanICell := {}

/-! ### Into the cache -/

/-- A verdict as `meta.json` keeps it. -/
def recorded (status : NamespaceStatus) (now : UInt64) : NamespaceRecord :=
  { name := status.name, version := status.version, pinned := status.pinned, ok := status.ok,
    detail := status.detail, «at» := now }

/-- A table is written once it was polled, when it has rows, is no peer's and no search's. -/
def isWritten (filters : List String) (key : TableKey) (t : Table) : Bool :=
  t.lastPoll.isSome && !t.rows.isEmpty && key.context.isNone && key.filter.all filters.contains

def tableSnapshot (key : TableKey) (t : Table) (now : UInt64) : TableSnapshot :=
  { kind := key.kind.id, parents := key.parents, filter := key.filter, select := key.kind.select,
    total := t.total.map UInt64.ofNat, «at» := now, rows := t.rows.values.map Entity.raw }

/-- What a session hands to the cache; `filters` are those the panes of the pages declare. -/
def cacheSnapshot (filters : List String) (h : Held) (now : UInt64) : Snapshot :=
  { identity := h.identity
    pins := .ofList (h.routing.statuses.filterMap fun n => n.pinned.map fun p => (n.name, p))
    namespaces := h.routing.statuses.map (recorded · now)
    cluster := h.cluster
    names := h.store.names.entries
    stats := some { clusters := h.stats.clusters, hosts := h.stats.hosts, vms := h.stats.vms,
                    vmsOn := h.stats.vmsOn, alertsCritical := h.stats.alertsCritical,
                    alertsWarning := h.stats.alertsWarning, tasksRunning := h.stats.tasksRunning,
                    «at» := now }
    sample := some { policies := h.sample.policies, plans := h.sample.plans,
                     recoveryPoints := h.sample.recoveryPoints, jobs := h.sample.jobs,
                     sampled := h.sample.sampled, inSync := h.sample.inSync, syncing := h.sample.syncing,
                     outOfSync := h.sample.outOfSync, available := h.sample.available, «at» := now }
    canI := h.canI.index.roles.map fun roles => { username := h.identity.username, «at» := now, roles }
    tables := (h.store.tables.values.filter fun x => isWritten filters x.1 x.2).map fun x =>
      tableSnapshot x.1 x.2 now }

/-! ### Out of the cache -/

/-- The verdicts a run adopts: the good ones of the day, of namespaces the catalog has. -/
def adoptable (namespaces : List Namespace) (r : Restored) (now : UInt64) : List NamespaceStatus :=
  (r.namespaces.filter fun n => n.ok && now.toNat - n.at.toNat ≤ NAMESPACE_TTL).filterMap fun n =>
    (namespaces.find? fun ns => ns.name == n.name).map fun ns =>
      { name := ns.name, version := ns.version, pinned := n.pinned.filter ns.versions.contains, ok := true,
        detail := Text.trimStartMatches "restored: " n.detail, restored := true }

/-- What became of the cache of a session. -/
inductive CacheOutcome where
  | notOffered
  | adopted
  /-- A different Prism Central answered. -/
  | rejected
  deriving DecidableEq, Repr

/-- Only an identity that answered and differs invalidates. -/
def verdict (answered stored : Option String) : CacheOutcome :=
  match answered, stored with
  | some a, some s => if a ≠ s then .rejected else .adopted
  | _, _ => .adopted

/-- The routing a session starts with: what the last run negotiated, or a negotiation of its own, when it
is offered none or the one of a different Prism Central. -/
def connect (kinds : Catalog) (namespaces : List Namespace) (ask : Kind → String → Listing)
    (answered : Option String) (restored : Option Restored) (now : UInt64) :
    Except PrismError (Routing × CacheOutcome) :=
  match restored with
  | none => (Prism.negotiate kinds namespaces ask {}).1.map fun _ =>
      ((Prism.negotiate kinds namespaces ask {}).2, .notOffered)
  | some r =>
      let adopted := Routing.adoptPins namespaces r.pins.entries (adoptable namespaces r now)
      match verdict answered r.identity.domainManager with
      | .rejected => (Prism.negotiate kinds namespaces ask adopted).1.map fun _ =>
          ((Prism.negotiate kinds namespaces ask adopted).2, .rejected)
      | outcome => .ok (adopted, outcome)

namespace Held

variable (h : Held)

/-- One table painted from the cache. -/
def paint (t : RestoredTable) : Held :=
  let key : TableKey := { kind := t.kind, parents := t.parents, filter := t.filter }
  { h with store := (h.store.restore key (t.rows.map fun v => Entity.new t.kind v none)
      (t.total.map UInt64.toNat) t.at.toNat).1 }

/-- What the cache held, painted unless it is the one of a different Prism Central. -/
def enableCache (restored : Option Restored) (outcome : CacheOutcome) (now : UInt64) : Held :=
  match restored.filter fun _ => outcome != .rejected with
  | none => h
  | some r =>
      let h := { h with store := h.store.applyNames r.names }
      let h := match r.stats with
        | none => h
        | some s => { h with stats := { clusters := s.clusters, hosts := s.hosts, vms := s.vms,
                                        vmsOn := s.vmsOn, alertsCritical := s.alertsCritical,
                                        alertsWarning := s.alertsWarning, tasksRunning := s.tasksRunning,
                                        stale := true } }
      let h := match r.sample with
        | none => h
        | some s => { h with sample := { policies := s.policies, plans := s.plans,
                                         recoveryPoints := s.recoveryPoints, jobs := s.jobs,
                                         sampled := s.sampled, inSync := s.inSync, syncing := s.syncing,
                                         outOfSync := s.outOfSync, available := s.available } }
      let h := match r.canI.filter fun c => c.username == h.identity.username &&
          now.toNat - c.at.toNat ≤ CAN_I_TTL with
        | none => h
        | some c => { h with canI := h.canI.restore (.withRoles c.roles) }
      r.tables.foldl paint h

end Held

end Nutsh.Cache
