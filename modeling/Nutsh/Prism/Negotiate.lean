/-
What a Prism Central serves, and at which version.

A namespace of the API may be served at one of several versions.  The catalog gives them newest first;
at each a few lists of the namespace are asked for one row, and the first answer that shows the version
to be there pins it for every later request.  A list that is absent says nothing yet, a failure of the
service says that it is down at that version, and a failure of the host ends the negotiation.

Main definitions:

* `PrismError`, `PrismError.hostWide` — what a request fails with, and what is about the host;
* `probeCandidates`, `probeNamespace` — the lists asked at a version, and the verdict on a namespace;
* `Routing`, `negotiateNamespace`, `negotiate` — the pins and the verdicts, and what writes them;
* `newestAnswering`, `HostFails` — the newest version that was answered for, and a host that failed
  before the namespace was settled;
* `Negotiates` — the right version is pinned, and the right verdict recorded.

Main results:

* `probeNamespace_of_hostFails`, `probeNamespace_of_not_hostFails` — the verdict, from the answers;
* `negotiates_iff` — it is right exactly when no refusal of one endpoint stands alone.
-/
import Nutsh.Body

set_option relaxedAutoImplicit false
set_option autoImplicit false

namespace Nutsh

/-! ### Versions -/

/-- A namespace of the API, with the versions it may be served at, newest first. -/
structure Namespace where
  name : String
  /-- The version the kinds were generated from. -/
  version : String
  versions : List String
  deriving DecidableEq, Repr

/-- The rank of a released version, above every alpha and beta. -/
def GA_RANK : ℕ := 2

/-- The place of a version in the order: major, minor, stage and number. -/
def versionKey (version : String) : List ℕ :=
  let bare := match version.toList with
    | 'v' :: cs => String.ofList cs
    | _ => version
  let parts := Text.splitChar '.' bare
  let major := ((parts[0]?).bind parseU64).getD 0
  let minor := ((parts[1]?).bind parseU64).getD 0
  match parts[2]? with
  | some stage =>
      let rank := match stage.toList.head? with
        | some 'a' => 0
        | some 'b' => 1
        | _ => GA_RANK
      [major, minor, rank, (parseU64 (String.ofList stage.toList.tail)).getD 0]
  | none => [major, minor, GA_RANK, 0]

/-- Whether a Prism Central pinned at `pinned` has the lists of the kind. -/
def Kind.servedAt (k : Kind) (pinned : String) : Bool := versionKey k.since ≤ versionKey pinned

/-- The path with its version segment replaced. -/
def withVersion (path version : String) : String :=
  let segments := Text.splitChar '/' path
  if segments.length < 3 || !Text.startsWith "/" path then path
  else "/".intercalate (segments.set 2 version)

namespace Prism

/-! ### Errors -/

/-- Why a certificate was rejected. -/
inductive CertificateReason where
  | unknownIssuer
  | caUsedAsEndEntity
  | notValidForName
  | expired
  | other (reason : String)
  deriving DecidableEq, Repr

def CertificateReason.text : CertificateReason → String
  | unknownIssuer => "its issuer is not trusted"
  | caUsedAsEndEntity =>
      "the server presented a CA certificate as its own (Prism Central's default self-signed certificate "
        ++ "does this)"
  | notValidForName => "it is not valid for this host name"
  | expired => "it has expired"
  | other reason => reason

/-- What a request fails with; the waits are in seconds. -/
inductive PrismError where
  | tls (message : String)
  | certificate (host : String) (reason : CertificateReason)
  | connect (host message : String)
  | auth
  /-- A 401 of one endpoint while the session it rode still answers elsewhere. -/
  | denied (path : String)
  | forbidden (message : String)
  | notFound (message : String)
  | ambiguous (message : String)
  | unresolved (message : String)
  | conflict (kind extId action : String)
  | rateLimited (retryAfter : ℕ)
  /-- Any other status. -/
  | api (status : ℕ) (message : String) (retryAfter : Option ℕ)
  | decode (message : String)
  | catalog (message : String)
  | transport (message : String)
  deriving DecidableEq, Repr

namespace PrismError

def text : PrismError → String
  | tls message => "TLS configuration error: " ++ message
  | certificate host reason => "TLS certificate of " ++ host ++ " rejected: " ++ reason.text
  | connect host message => "cannot connect to " ++ host ++ ": " ++ message
  | auth => "authentication failed (HTTP 401)"
  | denied path => "not permitted (HTTP 401): " ++ path
  | forbidden message => "forbidden (HTTP 403): " ++ message
  | notFound message => "not found (HTTP 404): " ++ message
  | ambiguous message | unresolved message => message
  | conflict kind extId action =>
      "precondition failed (HTTP 412): " ++ kind ++ " " ++ extId ++
        " changed since it was loaded (action " ++ action ++ ")"
  | rateLimited retryAfter => "rate limited (HTTP 429), retry after " ++ toString retryAfter ++ "s"
  | api status message _ => "HTTP " ++ toString status ++ ": " ++ message
  | decode message => "cannot decode response: " ++ message
  | catalog message => "catalog: " ++ message
  | transport message => "request failed: " ++ message

/-- The failures that are about the host rather than about one request. -/
def hostWide : PrismError → Bool
  | auth | certificate _ _ | tls _ | connect _ _ | transport _ | rateLimited _ => true
  | _ => false

/-- Whether a failed list says that the pin is wrong. -/
def worthRepairing : PrismError → Bool
  | notFound _ => true
  | api status _ _ => 500 ≤ status
  | _ => false

end PrismError

/-- What a list is answered with: its rows, or a failure. -/
abbrev Listing := Except PrismError (List Json)

/-! ### The probe of a namespace -/

/-- The verdict on a namespace. -/
structure NamespaceStatus where
  name : String
  /-- The catalog's version of the namespace. -/
  version : String
  /-- The version it answered at. -/
  pinned : Option String
  ok : Bool
  detail : String
  /-- The verdict is the one of the last run. -/
  restored : Bool := false
  deriving DecidableEq, Repr

namespace NamespaceStatus

def served (ns : Namespace) (version detail : String) : NamespaceStatus :=
  { name := ns.name, version := ns.version, pinned := some version, ok := true, detail }

/-- The version is there but the service behind it is not. -/
def down (ns : Namespace) (version detail : String) : NamespaceStatus :=
  { name := ns.name, version := ns.version, pinned := some version, ok := false, detail }

def notServed (ns : Namespace) (detail : String) : NamespaceStatus :=
  { name := ns.name, version := ns.version, pinned := none, ok := false, detail }

end NamespaceStatus

def PROBE_CANDIDATES : ℕ := 3

/-- The probed path, then the error, unless the error names the path. -/
def downDetail (path : String) (e : PrismError) : String :=
  if Text.contains path e.text then e.text else path ++ ": " ++ e.text

/-- The lists asked at a version: top-level, pageable, free of parameters, known there, and the
shortest paths first. -/
def probeCandidates (kinds : Catalog) (ns : Namespace) (version : String) : List Kind :=
  ((kinds.filter fun k => k.namespace == ns.name && k.isTopLevel && k.limit && !k.required &&
      k.servedAt version).mergeSort fun a b =>
        a.listPath.utf8ByteSize < b.listPath.utf8ByteSize ||
          a.listPath.utf8ByteSize == b.listPath.utf8ByteSize && a.listPath ≤ b.listPath).take
    PROBE_CANDIDATES

/-- The candidates of a version asked one after the other: the verdict they come to, none when all of
them are absent.  `detail` is the first reason for which the version is down. -/
def probeVersion (ns : Namespace) (version : String) (ask : Kind → Listing) :
    Option String → List Kind → Except PrismError (Option NamespaceStatus)
  | detail, [] => .ok (detail.map (.down ns version))
  | detail, k :: ks =>
      let path := withVersion k.listPath version
      match ask k with
      | .ok _ => .ok (some (.served ns version ("probed " ++ path)))
      | .error e =>
        match e with
        | .forbidden _ =>
            .ok (some (.served ns version ("reachable (" ++ path ++ ": not permitted for this account)")))
        | .notFound _ => probeVersion ns version ask detail ks
        | .api status message _ =>
            if status < 500 then
              .ok (some (.served ns version
                ("reachable (" ++ path ++ ": HTTP " ++ toString status ++ ": " ++ message ++ ")")))
            else probeVersion ns version ask (some (detail.getD (downDetail path e))) ks
        | .auth | .connect _ _ | .tls _ | .certificate _ _ | .rateLimited _ | .transport _ => .error e
        | _ => probeVersion ns version ask (some (detail.getD (downDetail path e))) ks

/-- The verdict on a namespace: its versions newest first, the first that is there. -/
def probeNamespace (kinds : Catalog) (ns : Namespace) (ask : Kind → String → Listing) :
    Except PrismError NamespaceStatus :=
  go false ns.versions
where
  go : Bool → List String → Except PrismError NamespaceStatus
    | probedAny, [] =>
        .ok (.notServed ns (if probedAny then "not served at " ++ ", ".intercalate ns.versions
          else "no listable kind in catalog"))
    | probedAny, version :: versions =>
        match probeVersion ns version (ask · version) none (probeCandidates kinds ns version) with
        | .error e => .error e
        | .ok (some status) => .ok status
        | .ok none => go (probedAny || !(probeCandidates kinds ns version).isEmpty) versions

/-! ### The routing -/

/-- What a client knows of the versions: where each namespace is routed, the verdicts, and the
namespaces whose routing no probe of this session came to. -/
structure Routing where
  pins : String → Option String := fun _ => none
  statuses : List NamespaceStatus := []
  adopted : String → Bool := fun _ => false

/-- Whether a namespace can be listed. -/
inductive Availability where
  | served
  | namespaceUnavailable (detail : String)
  deriving DecidableEq, Repr

namespace Routing

variable (r : Routing)

/-- Whether the namespace is reachable: it answered at some version, and that version is pinned. -/
def namespaceAvailability (name : String) : Availability :=
  match r.statuses.find? fun s => s.name == name with
  | some status =>
      if status.pinned.isSome && status.ok then .served else .namespaceUnavailable status.detail
  | none => if r.adopted name then .served else .namespaceUnavailable "not negotiated"

/-- The pin of a verdict is written, or taken away with a namespace that stopped answering. -/
def pin (status : NamespaceStatus) : Routing :=
  { r with pins := Function.update r.pins status.name status.pinned }

/-- The verdict is written in the place of the old one. -/
def record (status : NamespaceStatus) : Routing :=
  { r with statuses := (r.statuses.filter fun s => s.name != status.name) ++ [status] }

/-- The routing of the namespace came from a probe. -/
def settle (name : String) : Routing := { r with adopted := Function.update r.adopted name false }

/-- The pins of all verdicts are written in the place of the old ones. -/
def pinAll (statuses : List NamespaceStatus) : Routing :=
  { r with pins := statuses.foldl (fun pins s =>
      match s.pinned with
      | some version => Function.update pins s.name (some version)
      | none => pins) fun _ => none }

def recordAll (statuses : List NamespaceStatus) : Routing := { r with statuses := statuses }

def settleAll : Routing := { r with adopted := fun _ => false }

/-- The routing of the last run: its pins that the catalog knows and its positive verdicts. -/
def adoptPins (namespaces : List Namespace) (pins : List (String × String))
    (statuses : List NamespaceStatus) : Routing :=
  let resolved := fun name => (pins.lookup name).filter fun version =>
    (namespaces.find? fun ns => ns.name == name).any fun ns => ns.versions.contains version
  let statuses := statuses.filter (·.ok)
  { pins := resolved, statuses
    adopted := fun name => namespaces.any (fun ns => ns.name == name) &&
      ((resolved name).isSome || !statuses.any fun s => s.name == name) }

end Routing

/-- Every namespace negotiated. -/
def negotiate (kinds : Catalog) (namespaces : List Namespace) (ask : Kind → String → Listing)
    (r : Routing) : Except PrismError (List NamespaceStatus) × Routing :=
  match namespaces.mapM fun ns => probeNamespace kinds ns ask with
  | .error e => (.error e, r)
  | .ok statuses => (.ok statuses, ((r.pinAll statuses).recordAll statuses).settleAll)

/-- One namespace negotiated. -/
def negotiateNamespace (kinds : Catalog) (namespaces : List Namespace) (ask : Kind → String → Listing)
    (name : String) (r : Routing) : Except PrismError NamespaceStatus × Routing :=
  match namespaces.find? fun ns => ns.name == name with
  | none => (.error (.catalog ("no namespace " ++ name)), r)
  | some ns =>
      match probeNamespace kinds ns ask with
      | .error e => (.error e, r)
      | .ok status => (.ok status, ((r.pin status).record status).settle ns.name)

/-! ### What was answered -/

attribute [local simp] probeVersion probeNamespace.go

namespace Listing

/-- A 404. -/
def absent : Listing → Bool
  | .error (.notFound _) => true
  | _ => false

/-- A 401 of the endpoint alone. -/
def denied : Listing → Bool
  | .error (.denied _) => true
  | _ => false

/-- A list, a 403 or another 4xx. -/
def listed : Listing → Bool
  | .ok _ => true
  | .error (.forbidden _) => true
  | .error (.api status _ _) => 400 ≤ status && status < 500
  | _ => false

/-- A status below the 4xx that is no list, such as a redirection. -/
def redirected : Listing → Bool
  | .error (.api status _ _) => status < 400
  | _ => false

/-- The failure of the host that an answer is. -/
def hostError : Listing → Option PrismError
  | .error e => if e.hostWide then some e else none
  | .ok _ => none

/-- The answers after which no other candidate is asked. -/
def settles (a : Listing) : Bool := a.listed || a.redirected || a.hostError.isSome

end Listing

variable (kinds : Catalog) (ns : Namespace) (ask : Kind → String → Listing)

/-- Some candidate of the version answers with anything but a 404. -/
def answeredAt (version : String) : Bool :=
  (probeCandidates kinds ns version).any fun k => !(ask k version).absent

/-- The newest version at which some candidate answers with anything but a 404. -/
def newestAnswering : Option String := ns.versions.find? (answeredAt kinds ns ask)

/-- The host failed: of the candidates asked in their order, all absent at the newer versions, the first
whose answer settles anything answered with a failure of the host. -/
def HostFails (e : PrismError) : Prop :=
  ∃ version k, newestAnswering kinds ns ask = some version ∧
    (probeCandidates kinds ns version).find? (fun k => (ask k version).settles) = some k ∧
    (ask k version).hostError = some e

/-- Some candidate answers so at the version. -/
def SomeAnswers (version : String) (p : Listing → Bool) : Prop :=
  ∃ k ∈ probeCandidates kinds ns version, p (ask k version) = true

/-- A negotiation of the namespace does what it is for.  A failure of the host is returned and leaves the
routing as it is.  Otherwise the newest version that some candidate answered for is pinned, and the
namespace is available exactly when some candidate answered there with a list, a 403, a 401 of its own
or another 4xx. -/
def Negotiates (namespaces : List Namespace) (r : Routing) : Prop :=
  (∀ e, HostFails kinds ns ask e →
    negotiateNamespace kinds namespaces ask ns.name r = (.error e, r)) ∧
  ((∀ e, ¬ HostFails kinds ns ask e) →
    ∃ status r', negotiateNamespace kinds namespaces ask ns.name r = (.ok status, r') ∧
      r'.pins ns.name = newestAnswering kinds ns ask ∧
      (r'.namespaceAvailability ns.name = .served ↔
        ∃ version, newestAnswering kinds ns ask = some version ∧
          SomeAnswers kinds ns ask version fun a => a.listed || a.denied))

/-! ### One version -/

section Version

variable {ns} {version : String} {ask : Kind → Listing} {k : Kind} {ks : List Kind}
  {detail : Option String} {e : PrismError}

theorem Listing.settles_of_absent {a : Listing} (h : a.absent = true) : a.settles = false := by
  rcases a with e | _
  · cases e <;> first | rfl | cases h
  · cases h

theorem probeVersion_absent (h : (ask k).absent = true) :
    probeVersion ns version ask detail (k :: ks) = probeVersion ns version ask detail ks := by
  rw [probeVersion]
  generalize ask k = a at h
  rcases a with e | _
  · cases e <;> first | rfl | cases h
  · cases h

theorem probeVersion_hostError (h : (ask k).hostError = some e) :
    probeVersion ns version ask detail (k :: ks) = .error e := by
  rw [probeVersion]
  generalize ask k = a at h
  rcases a with e' | _
  · cases e' <;> first | cases h; rfl | cases h
  · cases h

theorem probeVersion_serves (h : ((ask k).listed || (ask k).redirected) = true) :
    ∃ text, probeVersion ns version ask detail (k :: ks) = .ok (some (.served ns version text)) := by
  rw [probeVersion]
  generalize ask k = a at h
  rcases a with e | _
  · cases e with
    | forbidden message => exact ⟨_, rfl⟩
    | api status message retryAfter =>
        have hlt : status < 500 := by
          simp only [Listing.listed, Listing.redirected, Bool.or_eq_true, Bool.and_eq_true,
            decide_eq_true_eq] at h
          omega
        exact ⟨_, if_pos hlt⟩
    | _ => cases h
  · exact ⟨_, rfl⟩

theorem probeVersion_down (hsettles : (ask k).settles = false) (habsent : (ask k).absent = false) :
    ∃ text, probeVersion ns version ask detail (k :: ks) =
      probeVersion ns version ask (some text) ks := by
  rw [probeVersion]
  generalize ask k = a at hsettles habsent
  rcases a with e | _
  · cases e with
    | api status message retryAfter =>
        have hge : ¬ status < 500 := by
          simp only [Listing.settles, Listing.listed, Listing.redirected, Bool.or_eq_false_iff,
            Bool.and_eq_false_iff, decide_eq_false_iff_not] at hsettles
          omega
        exact ⟨_, if_neg hge⟩
    | notFound message => cases habsent
    | _ => first | exact ⟨_, rfl⟩ | cases hsettles
  · cases hsettles

/-- The first answer that settles anything is the verdict. -/
theorem probeVersion_of_find (h : ks.find? (fun k => (ask k).settles) = some k) :
    (∀ e, (ask k).hostError = some e → probeVersion ns version ask detail ks = .error e) ∧
      ((ask k).hostError = none →
        ∃ text, probeVersion ns version ask detail ks = .ok (some (.served ns version text))) := by
  induction ks generalizing detail with
  | nil => cases h
  | cons j ks ih =>
      cases hj : (ask j).settles with
      | true =>
          obtain rfl : j = k := by simpa only [List.find?_cons, hj, Option.some.injEq] using h
          refine ⟨fun e he => probeVersion_hostError he, fun hnone => probeVersion_serves ?_⟩
          simpa [Listing.settles, hnone] using hj
      | false =>
          simp only [List.find?_cons, hj] at h
          cases habsent : (ask j).absent with
          | true =>
              rw [probeVersion_absent habsent]
              exact ih h
          | false =>
              obtain ⟨text, heq⟩ := @probeVersion_down ns version ask j ks detail hj habsent
              rw [heq]
              exact ih h

/-- When nothing settles it the version is down, unless all its candidates are absent. -/
theorem probeVersion_of_find_none (h : ks.find? (fun k => (ask k).settles) = none) :
    ∃ text : Option String, probeVersion ns version ask detail ks = .ok (text.map (.down ns version)) ∧
      text.isSome = (detail.isSome || ks.any fun k => !(ask k).absent) := by
  induction ks generalizing detail with
  | nil => exact ⟨detail, rfl, by simp⟩
  | cons j ks ih =>
      rw [List.find?_eq_none] at h
      have hj : (ask j).settles = false := Bool.eq_false_iff.2 (h j List.mem_cons_self)
      have hks : ks.find? (fun k => (ask k).settles) = none :=
        List.find?_eq_none.2 fun k hk => h k (List.mem_cons_of_mem _ hk)
      cases habsent : (ask j).absent with
      | true =>
          rw [probeVersion_absent habsent]
          obtain ⟨text, heq, hsome⟩ := @ih detail hks
          exact ⟨text, heq, by simp [hsome, habsent]⟩
      | false =>
          obtain ⟨reason, heq⟩ := @probeVersion_down ns version ask j ks detail hj habsent
          obtain ⟨text, heq', hsome⟩ := @ih (some reason) hks
          exact ⟨text, heq.trans heq', by simp [hsome, habsent]⟩

end Version

/-! ### The verdict -/

section Verdict

variable {kinds ns ask}

/-- A version that is not answered for comes to no verdict. -/
theorem probeVersion_of_not_answeredAt {version : String} (h : answeredAt kinds ns ask version = false) :
    probeVersion ns version (ask · version) none (probeCandidates kinds ns version) = .ok none := by
  have hnone : (probeCandidates kinds ns version).find? (fun k => (ask k version).settles) = none := by
    refine List.find?_eq_none.2 fun k hk => ?_
    have habsent : (ask k version).absent = true := by
      simpa using List.any_eq_false.1 h k hk
    simp [Listing.settles_of_absent habsent]
  obtain ⟨text, heq, hsome⟩ := @probeVersion_of_find_none ns version (ask · version) _ none hnone
  obtain rfl : text = none := Option.isSome_eq_false_iff.1 (hsome.trans h) |> Option.isNone_iff_eq_none.1
  exact heq

/-- The versions that are not answered for are passed over. -/
theorem go_of_find_none {versions : List String} (probedAny : Bool)
    (h : versions.find? (answeredAt kinds ns ask) = none) :
    ∃ text, probeNamespace.go kinds ns ask probedAny versions = .ok (.notServed ns text) := by
  induction versions generalizing probedAny with
  | nil => exact ⟨_, rfl⟩
  | cons version versions ih =>
      cases hv : answeredAt kinds ns ask version with
      | true => simp [hv] at h
      | false =>
          simp only [List.find?_cons, hv] at h
          rw [probeNamespace.go, probeVersion_of_not_answeredAt hv]
          exact ih _ h

/-- The newest version that is answered for gives the verdict, whether a failure or a status. -/
theorem go_of_find {versions : List String} {version : String} (probedAny : Bool)
    (h : versions.find? (answeredAt kinds ns ask) = some version)
    {verdict : Except PrismError NamespaceStatus}
    (hverdict : probeVersion ns version (ask · version) none (probeCandidates kinds ns version) =
      verdict.map some) :
    probeNamespace.go kinds ns ask probedAny versions = verdict := by
  induction versions generalizing probedAny with
  | nil => cases h
  | cons v versions ih =>
      cases hv : answeredAt kinds ns ask v with
      | true =>
          obtain rfl : v = version := by simpa only [List.find?_cons, hv, Option.some.injEq] using h
          rw [probeNamespace.go, hverdict]
          cases verdict <;> rfl
      | false =>
          simp only [List.find?_cons, hv] at h
          rw [probeNamespace.go, probeVersion_of_not_answeredAt hv]
          exact ih _ h

/-- A host that failed ends the probe. -/
theorem probeNamespace_of_hostFails {e : PrismError} (h : HostFails kinds ns ask e) :
    probeNamespace kinds ns ask = .error e := by
  obtain ⟨version, k, hnewest, hfind, herror⟩ := h
  exact go_of_find false hnewest ((@probeVersion_of_find ns version (ask · version) k _ none hfind).1 e herror)

/-- While the host answers, the newest version that is answered for is pinned, and the namespace is
available when some candidate there answers with a list, a 403, another 4xx or a redirection. -/
theorem probeNamespace_of_not_hostFails (h : ∀ e, ¬ HostFails kinds ns ask e) :
    ∃ status, probeNamespace kinds ns ask = .ok status ∧ status.name = ns.name ∧
      status.pinned = newestAnswering kinds ns ask ∧
      (status.ok = true ↔ ∃ version, newestAnswering kinds ns ask = some version ∧
        SomeAnswers kinds ns ask version fun a => a.listed || a.redirected) := by
  cases hnewest : newestAnswering kinds ns ask with
  | none =>
      obtain ⟨text, heq⟩ := go_of_find_none false hnewest
      exact ⟨_, heq, rfl, rfl, by simp [NamespaceStatus.notServed]⟩
  | some version =>
      cases hfind : (probeCandidates kinds ns version).find? (fun k => (ask k version).settles) with
      | some k =>
          have herror : (ask k version).hostError = none := by
            cases he : (ask k version).hostError with
            | none => rfl
            | some e => exact absurd ⟨version, k, hnewest, hfind, he⟩ (h e)
          obtain ⟨text, heq⟩ :=
            (@probeVersion_of_find ns version (ask · version) k _ none hfind).2 herror
          refine ⟨_, go_of_find false hnewest heq, rfl, rfl, ?_⟩
          have hsettles : (ask k version).settles = true :=
            @List.find?_some _ (fun k => (ask k version).settles) _ _ hfind
          refine iff_of_true rfl ⟨version, rfl, k, List.mem_of_find?_eq_some hfind, ?_⟩
          simpa [Listing.settles, herror] using hsettles
      | none =>
          -- Something answers, and nothing settles it: the version is down.
          obtain ⟨text, heq, hsome⟩ :=
            @probeVersion_of_find_none ns version (ask · version) _ none hfind
          have hanswered : answeredAt kinds ns ask version = true := List.find?_some hnewest
          obtain ⟨reason, rfl⟩ := Option.isSome_iff_exists.1 (hsome.trans hanswered)
          refine ⟨_, go_of_find false hnewest heq, rfl, rfl, ?_⟩
          refine iff_of_false (by simp [NamespaceStatus.down]) ?_
          rintro ⟨v, hv, k, hk, hlisted⟩
          obtain rfl := Option.some.inj hv
          have hsettles := List.find?_eq_none.1 hfind k hk
          exact hsettles (by simp only [Listing.settles, hlisted, Bool.true_or])

end Verdict

/-! ### What is written -/

@[simp] theorem Routing.statuses_settle (r : Routing) (name : String) :
    (r.settle name).statuses = r.statuses := rfl

@[simp] theorem Routing.pins_settle (r : Routing) (name : String) : (r.settle name).pins = r.pins := rfl

@[simp] theorem Routing.pins_record (r : Routing) (status : NamespaceStatus) :
    (r.record status).pins = r.pins := rfl

/-- The verdict that was written last is the one found. -/
theorem Routing.find?_record (r : Routing) (status : NamespaceStatus) :
    (r.record status).statuses.find? (fun s => s.name == status.name) = some status := by
  have hgone : (r.statuses.filter fun s => s.name != status.name).find? (fun s => s.name == status.name) =
      none := by
    refine List.find?_eq_none.2 fun s hs => ?_
    have hne := (List.mem_filter.1 hs).2
    simpa using hne
  simp [Routing.record, List.find?_append, hgone]

/-- The namespace is available when the verdict written is a good one at some version. -/
theorem Routing.namespaceAvailability_record (r : Routing) (status : NamespaceStatus) (name : String) :
    (((r.pin status).record status).settle name).namespaceAvailability status.name = .served ↔
      status.pinned.isSome = true ∧ status.ok = true := by
  simp only [namespaceAvailability, statuses_settle, find?_record]
  split <;> simp_all

variable {kinds ns ask} {namespaces : List Namespace} {r : Routing}

theorem someAnswers_or {version : String} {p q : Listing → Bool} :
    SomeAnswers kinds ns ask version (fun a => p a || q a) ↔
      SomeAnswers kinds ns ask version p ∨ SomeAnswers kinds ns ask version q := by
  simp only [SomeAnswers, Bool.or_eq_true, and_or_left, exists_or]

theorem negotiateNamespace_error {e : PrismError} (h : namespaces.find? (fun n => n.name == ns.name) = some ns)
    (he : probeNamespace kinds ns ask = .error e) :
    negotiateNamespace kinds namespaces ask ns.name r = (.error e, r) := by
  simp only [negotiateNamespace, h, he]

theorem negotiateNamespace_ok {status : NamespaceStatus}
    (h : namespaces.find? (fun n => n.name == ns.name) = some ns)
    (hok : probeNamespace kinds ns ask = .ok status) :
    negotiateNamespace kinds namespaces ask ns.name r =
      (.ok status, ((r.pin status).record status).settle ns.name) := by
  simp only [negotiateNamespace, h, hok]

/-- **The verdict on a namespace.**  It is the right one exactly when the host failed, when some candidate
of the newest version that was answered for answered with a list, a 403 or another 4xx, or when those of
them that refused the account alone are matched by a redirection. -/
theorem negotiates_iff (h : namespaces.find? (fun n => n.name == ns.name) = some ns) :
    Negotiates kinds ns ask namespaces r ↔ (∃ e, HostFails kinds ns ask e) ∨
      ∀ version, newestAnswering kinds ns ask = some version →
        SomeAnswers kinds ns ask version Listing.listed ∨
          (SomeAnswers kinds ns ask version Listing.denied ↔
            SomeAnswers kinds ns ask version Listing.redirected) := by
  by_cases hfails : ∃ e, HostFails kinds ns ask e
  · refine iff_of_true ⟨fun e he => negotiateNamespace_error h (probeNamespace_of_hostFails he), ?_⟩
      (.inl hfails)
    obtain ⟨e, he⟩ := hfails
    exact fun hnone => absurd he (hnone e)
  · have hnone : ∀ e, ¬ HostFails kinds ns ask e := not_exists.1 hfails
    obtain ⟨status, hok, hname, hpinned, havailable⟩ := probeNamespace_of_not_hostFails hnone
    have hserved : (((r.pin status).record status).settle ns.name).namespaceAvailability ns.name = .served ↔
        ∃ version, newestAnswering kinds ns ask = some version ∧
          SomeAnswers kinds ns ask version fun a => a.listed || a.redirected := by
      rw [← havailable, ← hname, Routing.namespaceAvailability_record, and_iff_right_iff_imp]
      intro hstatus
      obtain ⟨version, hversion, -⟩ := havailable.1 hstatus
      rw [hpinned, hversion, Option.isSome_some]
    have hpins : (((r.pin status).record status).settle ns.name).pins ns.name =
        newestAnswering kinds ns ask := by
      rw [← hpinned, ← hname]
      exact Function.update_self ..
    constructor
    · rintro ⟨-, hright⟩
      obtain ⟨status', r', heq, -, hiff⟩ := hright hnone
      obtain ⟨-, rfl⟩ := Prod.mk.inj ((negotiateNamespace_ok h hok).symm.trans heq)
      refine .inr fun version hversion => ?_
      rw [hserved] at hiff
      simp only [hversion, Option.some.injEq, exists_eq_left', someAnswers_or] at hiff
      refine or_iff_not_imp_left.2 fun hlisted => ?_
      rw [or_iff_right hlisted, or_iff_right hlisted] at hiff
      exact hiff.symm
    · rintro (hsome | hright)
      · exact absurd hsome hfails
      refine ⟨fun e he => absurd he (hnone e), fun _ => ⟨status, _, negotiateNamespace_ok h hok, hpins, ?_⟩⟩
      rw [hserved]
      refine exists_congr fun version => and_congr_right fun hversion => ?_
      rw [someAnswers_or, someAnswers_or]
      exact or_congr_right' fun hlisted => ((hright version hversion).resolve_left hlisted).symm

/-! ### A role that one list refuses -/

/-- The virtual machines, listed by one kind. -/
def vmsKind : Kind := { id := "vmm.ahv.config.Vm", «namespace» := "vmm", listPath := "/vmm/v4.3/ahv/config/vms",
                        since := "v4.0" }

def vmmNamespace : Namespace := { name := "vmm", version := "v4.3", versions := ["v4.3", "v4.0"] }

/-- The session lives, and the account may not list the virtual machines. -/
def refusesVms : Kind → String → Listing := fun _ _ => .error (.denied "/vmm/v4.3/ahv/config/vms")

/-- A namespace whose one list is refused by a 401 of its own is pinned and reported unavailable, where
the 403 of the same account would have it served. -/
theorem not_negotiates_denied :
    ¬ Negotiates [vmsKind] vmmNamespace refusesVms [vmmNamespace] {} := by
  rintro ⟨-, hright⟩
  have hnone : ∀ e, ¬ HostFails [vmsKind] vmmNamespace refusesVms e := by
    rintro e ⟨version, k, -, -, herror⟩
    cases herror
  obtain ⟨status, r', heq, -, hiff⟩ := hright hnone
  have hnewest : newestAnswering [vmsKind] vmmNamespace refusesVms = some "v4.3" := by decide +kernel
  have hasked : vmsKind ∈ probeCandidates [vmsKind] vmmNamespace "v4.3" := by decide +kernel
  have hdown : (negotiateNamespace [vmsKind] [vmmNamespace] refusesVms "vmm" {}).2.namespaceAvailability
      "vmm" ≠ .served := by decide +kernel
  have hsnd := congrArg Prod.snd heq
  refine hdown ?_
  rw [show "vmm" = vmmNamespace.name from rfl, hsnd]
  exact hiff.2 ⟨"v4.3", hnewest, vmsKind, hasked, rfl⟩

/-- Every list of the namespace is absent. -/
def absentVms : Kind → String → Listing := fun _ _ => .error (.notFound "no such list")

theorem negotiates_iff_absentVms :
    Negotiates [vmsKind] vmmNamespace absentVms [vmmNamespace] {} ↔
      (∃ e, HostFails [vmsKind] vmmNamespace absentVms e) ∨
        ∀ version, newestAnswering [vmsKind] vmmNamespace absentVms = some version →
          SomeAnswers [vmsKind] vmmNamespace absentVms version Listing.listed ∨
            (SomeAnswers [vmsKind] vmmNamespace absentVms version Listing.denied ↔
              SomeAnswers [vmsKind] vmmNamespace absentVms version Listing.redirected) :=
  negotiates_iff rfl

end Prism

end Nutsh
