/-
The cluster a session is pinned to, found on a list or kept from the cache.

A name is looked up among the clusters exactly, and without the case of its letters only when no cluster is
named exactly so; there must be one match.  A session that adopts its cache keeps the stored cluster without
asking, on a comparison of that one name, so nothing tells it that another cluster is named as exactly or
nearly so.  Hence the two decide alike as long as the stored cluster is alone with its name.

Main definitions:

* `resolveCluster` — the cluster of a name, out of what the listing gave;
* `keptCluster`, `sessionCluster` — the cluster that is kept, and the one a session starts with;
* `Alone` — a cluster is the only one of the list with the name that is asked for.

Main results:

* `resolveCluster_eq_ok_iff` — what is resolved is the one cluster that matches;
* `keepsResolved_iff` — what is kept is what would have been resolved exactly when it is alone;
* `sessionCluster_extId` — a session whose cache does so starts as it would have without one.
-/
import Nutsh.Cache.Snapshot
import Nutsh.Lookup

set_option relaxedAutoImplicit false
set_option autoImplicit false

namespace Nutsh.Cache

open Prism (PrismError)

/-- A cluster a session is pinned to. -/
structure ClusterRef where
  extId : String
  name : String
  deriving DecidableEq, Repr

/-! ### On a list -/

/-- The clusters as an error lists them. -/
def nameAndId (clusters : List Entity) : String :=
  let listed := String.intercalate ", " (clusters.map fun c => c.name ++ " (" ++ c.extId ++ ")")
  if listed.isEmpty then "(none)" else listed

/-- The clusters a name stands for: those named exactly so, else those that differ in case at most. -/
def matching (name : String) (clusters : List Entity) : List Entity :=
  let exact := clusters.filter fun c => c.name == name
  if exact.isEmpty then clusters.filter fun c => eqIgnoreCase c.name name else exact

/-- The cluster of a name, out of what the listing of the clusters gave. -/
def resolveCluster (listed : Except PrismError (List Entity)) (name : String) :
    Except PrismError ClusterRef :=
  match listed with
  | .error e => .error e
  | .ok clusters =>
      match matching name clusters with
      | [one] => .ok { extId := one.extId, name := one.name }
      | [] => .error (.unresolved ("cluster " ++ name.quote ++ " not found; known: " ++ nameAndId clusters))
      | many => .error (.ambiguous ("cluster " ++ name.quote ++ " is ambiguous: " ++ nameAndId many))

/-! ### At the start of a session -/

/-- The cluster of the cache, where the cache was adopted and stores the one that is asked for. -/
def keptCluster (restored : Option Restored) (outcome : CacheOutcome) (asked : String) : Option ClusterRef :=
  let stored := (restored.filter fun _ => outcome == .adopted).bind Restored.cluster
  (stored.filter fun c => eqIgnoreCase c.name asked).map fun c => { extId := c.extId, name := c.name }

/-- Why a session could not start. -/
inductive ConnectError where
  | negotiate (error : PrismError)
  | cluster (name : String) (error : PrismError)
  deriving DecidableEq, Repr

/-- The cluster a session starts with; the clusters are listed when none is kept only. -/
def sessionCluster (asked : Option String) (restored : Option Restored) (outcome : CacheOutcome)
    (listed : Except PrismError (List Entity)) : Except ConnectError (Option ClusterRef) :=
  match asked with
  | none => .ok none
  | some name =>
      match keptCluster restored outcome name with
      | some c => .ok (some c)
      | none =>
          match resolveCluster listed name with
          | .ok c => .ok (some c)
          | .error error => .error (.cluster name error)

/-! ### What is kept, and what would be resolved -/

variable {clusters : List Entity} {asked : String}

/-- Only the cluster of the id is named so: exactly, or up to the case of its letters with no other named
exactly so. -/
def Alone (clusters : List Entity) (asked extId : String) : Prop :=
  (clusters.countP (fun e => e.name == asked) = 1 ∧ ∃ e ∈ clusters, e.name = asked ∧ e.extId = extId) ∨
    (clusters.countP (fun e => e.name == asked) = 0 ∧
      clusters.countP (fun e => eqIgnoreCase e.name asked) = 1 ∧
      ∃ e ∈ clusters, eqIgnoreCase e.name asked = true ∧ e.extId = extId)

/-- A cluster that is kept while it is on the list is the one that would have been resolved. -/
def KeepsResolved (clusters : List Entity) (asked : String) (restored : Option Restored)
    (outcome : CacheOutcome) : Prop :=
  ∀ c ∈ keptCluster restored outcome asked, (∃ e ∈ clusters, e.extId = c.extId) →
    ∃ r, resolveCluster (.ok clusters) asked = .ok r ∧ r.extId = c.extId

theorem resolveCluster_eq_ok_iff {r : ClusterRef} : resolveCluster (.ok clusters) asked = .ok r ↔
    ∃ e, matching asked clusters = [e] ∧ r = { extId := e.extId, name := e.name } := by
  rw [resolveCluster]
  match h : matching asked clusters with
  | [one] =>
      constructor
      · intro hr
        exact ⟨one, rfl, by simpa using hr.symm⟩
      · rintro ⟨e, he, rfl⟩
        obtain rfl : one = e := by simpa using he
        rfl
  | [] => simp
  | _ :: _ :: _ => simp

/-- A filter that leaves one element leaves the one that passes it. -/
theorem filter_eq_singleton_iff {p : Entity → Bool} {extId : String} :
    (∃ e, clusters.filter p = [e] ∧ e.extId = extId) ↔
      clusters.countP p = 1 ∧ ∃ e ∈ clusters, p e = true ∧ e.extId = extId := by
  rw [List.countP_eq_length_filter]
  constructor
  · rintro ⟨e, he, hid⟩
    have hmem : e ∈ clusters.filter p := by simp [he]
    obtain ⟨hmem, hp⟩ := List.mem_filter.1 hmem
    exact ⟨by simp [he], e, hmem, hp, hid⟩
  · rintro ⟨hlength, e, hmem, hp, hid⟩
    obtain ⟨x, hx⟩ := List.length_eq_one_iff.1 hlength
    have : e ∈ clusters.filter p := List.mem_filter.2 ⟨hmem, hp⟩
    obtain rfl : e = x := by simpa [hx] using this
    exact ⟨e, hx, hid⟩

theorem matching_eq_singleton_iff {extId : String} :
    (∃ e, matching asked clusters = [e] ∧ e.extId = extId) ↔ Alone clusters asked extId := by
  have hcount : (clusters.filter fun c => c.name == asked).isEmpty = true ↔
      clusters.countP (fun e => e.name == asked) = 0 := by
    rw [List.countP_eq_length_filter, List.isEmpty_iff_length_eq_zero]
  simp only [matching]
  split
  · rename_i hempty
    rw [filter_eq_singleton_iff]
    have hzero := hcount.1 hempty
    constructor
    · rintro ⟨hone, he⟩
      exact .inr ⟨hzero, hone, he⟩
    · rintro (⟨hone, -⟩ | ⟨-, hone, he⟩)
      · omega
      · exact ⟨hone, he⟩
  · rename_i hsome
    rw [filter_eq_singleton_iff]
    have hzero : clusters.countP (fun e => e.name == asked) ≠ 0 := fun h => hsome (hcount.2 h)
    constructor
    · rintro ⟨hone, e, hmem, hname, hid⟩
      exact .inl ⟨hone, e, hmem, by simpa using hname, hid⟩
    · rintro (⟨hone, e, hmem, hname, hid⟩ | ⟨hnone, -⟩)
      · exact ⟨hone, e, hmem, by simpa using hname, hid⟩
      · exact absurd hnone hzero

theorem mem_keptCluster_iff {restored : Option Restored} {outcome : CacheOutcome} {c : ClusterRef} :
    c ∈ keptCluster restored outcome asked ↔ outcome = .adopted ∧
      ∃ s ∈ restored.bind Restored.cluster, eqIgnoreCase s.name asked = true ∧
        c = { extId := s.extId, name := s.name } := by
  simp only [keptCluster, Option.mem_def, Option.map_eq_some_iff, Option.filter_eq_some_iff,
    Option.bind_eq_some_iff, beq_iff_eq]
  constructor
  · rintro ⟨s, ⟨⟨r, ⟨hr, hadopted⟩, hs⟩, hname⟩, rfl⟩
    exact ⟨hadopted, s, ⟨r, hr, hs⟩, hname, rfl⟩
  · rintro ⟨hadopted, s, ⟨r, hr, hs⟩, hname, rfl⟩
    exact ⟨s, ⟨⟨r, ⟨hr, hadopted⟩, hs⟩, hname⟩, rfl⟩

/-- **What is kept is what would have been resolved** exactly when it is alone with its name. -/
theorem keepsResolved_iff (clusters : List Entity) (asked : String) (restored : Option Restored)
    (outcome : CacheOutcome) : KeepsResolved clusters asked restored outcome ↔
      (outcome = .adopted → ∀ s ∈ restored.bind Restored.cluster, eqIgnoreCase s.name asked = true →
        (∃ e ∈ clusters, e.extId = s.extId) → Alone clusters asked s.extId) := by
  have halone (c : ClusterRef) :
      (∃ r, resolveCluster (.ok clusters) asked = .ok r ∧ r.extId = c.extId) ↔
        Alone clusters asked c.extId := by
    rw [← matching_eq_singleton_iff]
    constructor
    · rintro ⟨r, hr, hid⟩
      obtain ⟨e, he, rfl⟩ := resolveCluster_eq_ok_iff.1 hr
      exact ⟨e, he, hid⟩
    · rintro ⟨e, he, hid⟩
      exact ⟨_, resolveCluster_eq_ok_iff.2 ⟨e, he, rfl⟩, hid⟩
  constructor
  · intro h hadopted s hs hname hlisted
    have hkept := mem_keptCluster_iff.2 ⟨hadopted, s, hs, hname, rfl⟩
    exact (halone _).1 (h _ hkept hlisted)
  · intro h c hkept hlisted
    obtain ⟨hadopted, s, hs, hname, rfl⟩ := mem_keptCluster_iff.1 hkept
    exact (halone _).2 (h hadopted s hs hname hlisted)

/-- A session that keeps only what would have been resolved starts with the cluster it would have without a
cache. -/
theorem sessionCluster_extId {restored : Option Restored} {outcome : CacheOutcome}
    (h : KeepsResolved clusters asked restored outcome)
    (hlisted : ∀ c ∈ keptCluster restored outcome asked, ∃ e ∈ clusters, e.extId = c.extId) :
    (sessionCluster (some asked) restored outcome (.ok clusters)).map (Option.map ClusterRef.extId) =
      (sessionCluster (some asked) none .notOffered (.ok clusters)).map (Option.map ClusterRef.extId) := by
  have hnone : keptCluster none .notOffered asked = none := rfl
  cases hkept : keptCluster restored outcome asked with
  | none => simp [sessionCluster, hkept, hnone]
  | some c =>
      obtain ⟨r, hr, hid⟩ := h c hkept (hlisted c hkept)
      simp [sessionCluster, hkept, hnone, hr, hid, Except.map]

/-! ### Two clusters whose names differ in case -/

/-- The kind of clusters. -/
def clusterKind : Kind :=
  { id := "clustermgmt.config.Cluster", «namespace» := "clustermgmt", display := "Clusters",
    listPath := "/clustermgmt/v4.0/config/clusters", getPath := some "/clustermgmt/v4.0/config/clusters/{extId}" }

/-- A cluster of an id and a name. -/
def cluster (extId name : String) : Entity :=
  Entity.new clusterKind (.obj [("extId", .str extId), ("name", .str name)]) none

/-- A cache that stores the cluster `LAB`. -/
def storedLab : Restored :=
  { written := 0, identity := { host := "pc", port := 9440, username := "admin", domainManager := none },
    pins := .ofList [], namespaces := [], cluster := some { extId := "c1", name := "LAB" }, names := [],
    stats := none, sample := none, canI := none, tables := [] }

/-- A session that asks for `lab` keeps `LAB`, and the list resolves it to `lab`. -/
theorem not_keepsResolved : ¬ ∀ (clusters : List Entity) (asked : String) (restored : Option Restored)
    (outcome : CacheOutcome), KeepsResolved clusters asked restored outcome := by
  intro h
  obtain ⟨r, hr, hid⟩ := h [cluster "c1" "LAB", cluster "c2" "lab"] "lab" (some storedLab) .adopted
    { extId := "c1", name := "LAB" } (by decide +kernel) ⟨cluster "c1" "LAB", by simp, by decide +kernel⟩
  have hlab : resolveCluster (.ok [cluster "c1" "LAB", cluster "c2" "lab"]) "lab" =
      .ok { extId := "c2", name := "lab" } := by
    decide +kernel
  obtain rfl : { extId := "c2", name := "lab" } = r := by simpa [hlab] using hr
  simp at hid

end Nutsh.Cache
