/-
Updates of one entity by any number of clients.

An update reads the entity, merges its changes over the top-level members of what it read, and puts
the whole back under the entity tag of that read.  The server takes a PUT only under the tag of the
moment and changes the tag with every write.  Each request may be answered 429 and go out once more, or
find its session ended and come back round; whatever goes out again is the same request.

* `mergeChanges`, `prepare` — the body of the PUT, and what is sent with it;
* `Updates`, `UpdateEvent`, `Updates.step` — the clients, the server, and what can happen;
* `Updates.replaces_exec` — every PUT taken replaces what its own client read, and nothing is replaced
  unread; a PUT under another tag leaves the entity as it is and its client with an error.
-/
import Mathlib.Logic.Function.Basic
import Nutsh.Entity
import Nutsh.Lib.IndexMap
import Nutsh.Lib.Run
import Nutsh.Lib.Versioned

set_option relaxedAutoImplicit false
set_option autoImplicit false

namespace Nutsh.Prism

/-! ### The body -/

/-- The top-level keys a PUT must not carry back. -/
def readOnlyKeys : List String :=
  ["$objectType", "$reserved", "$metadata", "extId", "links", "tenantId", "createdBy", "creationTime",
    "lastModifiedTime"]

/-- The members of the body of an update: the changes over the members of the entity, then without the
read-only ones. -/
def mergeChanges (members changes : List (String × Json)) : List (String × Json) :=
  (changes.foldl (fun object change => IndexMap.put change.1 change.2 object) members).filter
    fun member => !readOnlyKeys.contains member.1

/-- An entity tag as it is sent back: a weak one without its prefix. -/
def stripWeak (etag : String) : String :=
  if "W/".toList.isPrefixOf etag.toList then String.ofList (etag.toList.drop 2) else etag

/-- What is put back for an entity that was read: the body, and the tag the PUT is under. -/
def prepare (kind : Kind) (extId : String) (changes : List (String × Json)) (raw : Json)
    (etag : Option String) : Except String (Json × Option String) :=
  match etag with
  | none => .error s!"{kind.id} {extId} returned no ETag header"
  | some etag =>
      match raw.asObject with
      | none => .error s!"{kind.id} {extId} is not an object"
      | some members =>
          match kind.action "update" with
          | none => .error s!"{kind.id} has no action update"
          | some action =>
              if action.takesBody then
                .ok (.obj (mergeChanges members changes),
                  if action.needsEtag then some etag else none)
              else .error s!"update on {kind.id} takes no request body"

/-! ### A request that goes out again -/

/-- How often a request comes back round after its session had ended. -/
def renewals : ℕ := 2

/-- How far a request has come: its trip, and whether this one was answered 429 already. -/
structure Trip where
  renewal : ℕ := 0
  retried : Bool := false
  deriving DecidableEq

/-- What comes back for a request that went out. -/
inductive Reply where
  /-- A 2xx that reads. -/
  | success
  | tooManyRequests
  /-- A 401 that says the session had ended. -/
  | sessionEnded
  /-- Any other answer, a 2xx that does not read, or none. -/
  | failed
  deriving DecidableEq

/-- The trip on which the same request goes out again. -/
def Trip.again (trip : Trip) : Reply → Option Trip
  | .tooManyRequests => if trip.retried then none else some { trip with retried := true }
  | .sessionEnded =>
      if trip.renewal < renewals then some { renewal := trip.renewal + 1 } else none
  | _ => none

/-! ### The clients and the server -/

/-- A version of the entity: its tag without the weak prefix, and its JSON. -/
abbrev Version := String × Json

inductive UpdatePhase where
  | idle
  | reading (trip : Trip)
  /-- The entity was read, and the PUT is on its way. -/
  | writing (read : Version) (body : Json) (ifMatch : Option String) (trip : Trip)
  | done (ok : Bool)

/-- A PUT that was taken: by whom, what it had read, and what it replaced by what. -/
structure Taken where
  client : ℕ
  read : Version
  body : Json
  replaced : Version
  result : Version

/-- The entity on the server, how far each client is, and the PUTs taken, oldest first. -/
structure Updates where
  entity : Versioned String Json
  phase : ℕ → UpdatePhase := fun _ => .idle
  taken : List Taken := []

inductive UpdateEvent where
  | start (client : ℕ)
  /-- A GET is answered, with the tag the server shows. -/
  | read (client : ℕ) (answer : Reply) (etag : Option String)
  /-- A PUT arrives, is taken or not, and is answered. -/
  | put (client : ℕ) (written : Option (Written String Json)) (answer : Reply)
  /-- A request that does not go out. -/
  | refused (client : ℕ)

namespace Updates

variable (kind : Kind) (extId : String) (changes : ℕ → Json)

/-- The state with one client at a phase. -/
def setPhase (s : Updates) (client : ℕ) (phase : UpdatePhase) : Updates :=
  { s with phase := Function.update s.phase client phase }

/-- Where a client is once its GET was answered with a version of the entity. -/
def afterRead (client : ℕ) (version : Version) (etag : Option String) : UpdatePhase :=
  match (changes client).asObject with
  | none => .done false
  | some changes =>
      match prepare kind extId changes version.2 (etag.map stripWeak) with
      | .error _ => .done false
      | .ok (body, ifMatch) => .writing version body ifMatch {}

/-- Where a client is once its PUT was answered: it goes out again as it is, or it was the last word. -/
def afterPut (read : Version) (body : Json) (ifMatch : Option String) (trip : Trip)
    (answer : Reply) : UpdatePhase :=
  match trip.again answer with
  | some trip => .writing read body ifMatch trip
  | none => .done (answer == .success)

/-- One event.  The server shows the tag of the moment or none, takes a PUT only under the tag of the
moment, and answers no PUT with success that it did not take. -/
def step (s : Updates) : UpdateEvent → Option Updates
  | .start client =>
      match s.phase client with
      | .idle =>
          some (s.setPhase client
            (if (changes client).asObject.isSome then .reading {} else .done false))
      | _ => none
  | .read client answer etag =>
      match s.phase client with
      | .reading trip =>
          if ∀ text ∈ etag, stripWeak text = s.entity.current.1 then
            some (s.setPhase client
              (if answer = .success then afterRead kind extId changes client s.entity.current etag
              else
                match trip.again answer with
                | some trip => .reading trip
                | none => .done false))
          else none
      | _ => none
  | .put client written answer =>
      match s.phase client with
      | .writing read body ifMatch trip =>
          if answer = .success ∧ written.isNone then none
          else
            let s' := s.setPhase client (afterPut read body ifMatch trip answer)
            match written with
            | none => some s'
            | some w =>
                (s.entity.putIf ifMatch w).map fun entity =>
                  let put : Taken :=
                    { client, read, body, replaced := s.entity.current, result := entity.current }
                  { s' with entity, taken := s.taken ++ [put] }
      | _ => none
  | .refused client =>
      match s.phase client with
      | .reading _ | .writing _ _ _ _ => some (s.setPhase client (.done false))
      | _ => none

/-- The entity as it is when the clients start. -/
def init (version : Version) : Updates := { entity := Versioned.new version }

def putVm : Action :=
  { name := "update", path := "/vmm/v4.0/ahv/config/vms/{extId}", method := .put, needsEtag := true,
    needsBody := true, takesBody := true, scope := ["extId"] }

/-- A kind whose entities are updated. -/
def updatedKind : Kind := { vmKind with actions := [putVm] }

end Updates

/-- A PUT that was taken is its client's changes over the state it replaced, which its client had
read. -/
def Taken.Fair (changes : ℕ → Json) (w : Taken) : Prop :=
  w.replaced.2 = w.read.2 ∧
    ∃ members own, w.replaced.2 = .obj members ∧ changes w.client = .obj own ∧
      w.body = .obj (mergeChanges members own)

namespace Updates

variable {kind : Kind} {extId : String} {changes : ℕ → Json} {v v' : Version} {s t : Updates} {client : ℕ}

/-- The PUTs taken lead from one version to another, each replacing what the one before it left. -/
def Linked : Version → List Taken → Version → Prop
  | v, [], v' => v = v'
  | v, w :: ws, v' => w.replaced = v ∧ Linked w.result ws v'

theorem Linked.snoc {ws : List Taken} {w : Taken} (h : Linked v ws w.replaced) :
    Linked v (ws ++ [w]) w.result := by
  induction ws generalizing v with
  | nil => exact ⟨h.symm, rfl⟩
  | cons w' ws ih => exact ⟨h.1, ih h.2⟩

/-- A client about to write has the body of a version that the entity had, and the tag of that one. -/
def Prepared (changes : ℕ → Json) (s : Updates) (client : ℕ) : UpdatePhase → Prop
  | .writing read body ifMatch _ =>
      read ∈ s.entity.versions ∧ (∀ tag ∈ ifMatch, tag = read.1) ∧
        ∃ members own, read.2 = .obj members ∧ changes client = .obj own ∧
          body = .obj (mergeChanges members own)
  | .done true => ∃ w ∈ s.taken, w.client = client
  | _ => True

/-- What holds in every run from a version on. -/
structure Sound (changes : ℕ → Json) (v : Version) (s : Updates) : Prop where
  prepared : ∀ client, s.Prepared changes client (s.phase client)
  fair : ∀ w ∈ s.taken, w.Fair changes
  linked : Linked v s.taken s.entity.current

/-- What is sent for an entity that was read comes from it. -/
theorem prepare_eq_ok {own : List (String × Json)} {raw body : Json} {etag ifMatch : Option String}
    (h : prepare kind extId own raw etag = .ok (body, ifMatch)) :
    (∀ tag ∈ ifMatch, etag = some tag) ∧
      ∃ members, raw = .obj members ∧ body = .obj (mergeChanges members own) := by
  unfold prepare at h
  split at h
  · cases h
  split at h
  · cases h
  rename_i members hmembers
  split at h
  · cases h
  split at h
  · obtain ⟨hbody, hmatch⟩ := Prod.mk.inj (Except.ok.inj h)
    refine ⟨?_, members, ?_, hbody.symm⟩
    · intro tag htag
      rw [← hmatch] at htag
      split at htag
      · exact congrArg some (Option.some.inj htag)
      · cases htag
    · cases raw <;> simp_all [Json.asObject]
  · cases h

/-- A client that read the version of the moment is prepared. -/
theorem prepared_afterRead (s : Updates) {etag : Option String}
    (hetag : ∀ text ∈ etag, stripWeak text = s.entity.current.1) :
    s.Prepared changes client (afterRead kind extId changes client s.entity.current etag) := by
  unfold afterRead
  split
  · trivial
  rename_i own hown
  split
  · trivial
  rename_i body ifMatch hprepare
  obtain ⟨hmatch, members, hraw, hbody⟩ := prepare_eq_ok hprepare
  refine ⟨Versioned.mem_current _, ?_, members, own, hraw, ?_, hbody⟩
  · intro tag htag
    obtain ⟨text, htext, rfl⟩ := Option.map_eq_some_iff.1 (hmatch tag htag)
    exact hetag text htext
  · cases hc : changes client <;> rw [hc] at hown <;> simp_all [Json.asObject]

/-- Moving one client keeps the run sound when that one is prepared. -/
theorem Sound.setPhase (hs : s.Sound changes v) {phase : UpdatePhase}
    (hphase : s.Prepared changes client phase) : (s.setPhase client phase).Sound changes v := by
  refine ⟨?_, hs.fair, hs.linked⟩
  intro other
  by_cases hother : other = client
  · subst hother
    change s.Prepared changes other (Function.update s.phase other phase other)
    rw [Function.update_self]
    exact hphase
  · change s.Prepared changes other (Function.update s.phase client phase other)
    rw [Function.update_of_ne hother]
    exact hs.prepared other

/-- A version forgotten by no write and a PUT remembered keep a client prepared. -/
theorem Prepared.mono {phase : UpdatePhase} (h : s.Prepared changes client phase)
    (hversions : s.entity.versions ⊆ t.entity.versions) (htaken : s.taken ⊆ t.taken) :
    t.Prepared changes client phase := by
  cases phase with
  | writing read body ifMatch trip =>
      obtain ⟨hread, hrest⟩ := h
      exact ⟨hversions hread, hrest⟩
  | done ok =>
      cases ok with
      | true =>
          obtain ⟨w, hw, hclient⟩ := h
          exact ⟨w, htaken hw, hclient⟩
      | false => trivial
  | idle | reading => trivial

/-- What the arrival of a PUT comes to: it is not taken and not answered with success, or it is taken
under the tag of the moment. -/
theorem put_cases {written : Option (Written String Json)} {answer : Reply}
    (h : s.step kind extId changes (.put client written answer) = some t) :
    ∃ read body ifMatch trip, s.phase client = .writing read body ifMatch trip ∧
      ((answer ≠ .success ∧ t = s.setPhase client (afterPut read body ifMatch trip answer)) ∨
        ∃ w entity put, s.entity.putIf ifMatch w = some entity ∧
          put = { client, read, body, replaced := s.entity.current, result := entity.current } ∧
          t = { s.setPhase client (afterPut read body ifMatch trip answer) with
            entity, taken := s.taken ++ [put] }) := by
  rw [step] at h
  split at h
  · rename_i read body ifMatch trip hphase
    refine ⟨read, body, ifMatch, trip, hphase, ?_⟩
    split at h
    · cases h
    rename_i hanswer
    cases written with
    | none =>
        left
        refine ⟨?_, (Option.some.inj h).symm⟩
        intro heq
        exact hanswer ⟨heq, rfl⟩
    | some w =>
        right
        obtain ⟨entity, hput, rfl⟩ := Option.map_eq_some_iff.1 h
        exact ⟨w, entity, _, hput, rfl, rfl⟩
  · cases h

/-- A PUT answered keeps its client prepared: it goes out again as it is, or one of its was taken, or
it was not answered with success. -/
theorem prepared_afterPut {read : Version} {body : Json} {ifMatch : Option String} {trip : Trip}
    {answer : Reply} (h : s.Prepared changes client (.writing read body ifMatch trip))
    (hdone : answer = .success → ∃ w ∈ s.taken, w.client = client) :
    s.Prepared changes client (afterPut read body ifMatch trip answer) := by
  unfold afterPut
  split
  · exact h
  · cases answer with
    | success => exact hdone rfl
    | tooManyRequests | sessionEnded | failed => trivial

theorem sound_put {written : Option (Written String Json)} {answer : Reply} (hs : s.Sound changes v)
    (h : s.step kind extId changes (.put client written answer) = some t) : t.Sound changes v := by
  obtain ⟨read, body, ifMatch, trip, hphase, hcase⟩ := put_cases h
  have hclient := hs.prepared client
  rw [hphase] at hclient
  rcases hcase with ⟨hne, rfl⟩ | ⟨w, entity, put, hput, hdef, rfl⟩
  · exact hs.setPhase (prepared_afterPut hclient fun heq => absurd heq hne)
  · obtain ⟨hread, htag, members, own, hraw, hown, hbody⟩ := id hclient
    obtain ⟨hcurrent, hwrite⟩ := Versioned.putIf_eq_some hput
    have hmatch : ifMatch = some read.1 := by
      rw [hcurrent] at htag ⊢
      exact congrArg some (htag _ rfl)
    have hreplaced : s.entity.current.2 = read.2 := Versioned.putIf_replaces hput hread hmatch
    have hversions : s.entity.versions ⊆ entity.versions := by
      intro u hu
      exact Versioned.mem_versions_of_write hwrite hu
    -- the server moves first, then the client
    have hserver : Sound changes v { s with entity, taken := s.taken ++ [put] } := by
      refine ⟨?_, ?_, ?_⟩
      · intro other
        exact (hs.prepared other).mono hversions (List.subset_append_left _ _)
      · intro put' hmem
        rcases List.mem_append.1 hmem with hmem | hmem
        · exact hs.fair put' hmem
        · rw [List.mem_singleton.1 hmem, hdef]
          exact ⟨hreplaced, members, own, hreplaced.trans hraw, hown, hbody⟩
      · have hlinked : Linked v (s.taken ++ [put]) put.result := Linked.snoc (by rw [hdef]; exact hs.linked)
        rw [hdef] at hlinked ⊢
        exact hlinked
    refine hserver.setPhase (prepared_afterPut (hclient.mono hversions (List.subset_append_left _ _)) ?_)
    intro _
    refine ⟨put, List.mem_append_right _ List.mem_cons_self, ?_⟩
    rw [hdef]

theorem sound_step (s : Updates) (e : UpdateEvent) (t : Updates) (hs : s.Sound changes v)
    (h : s.step kind extId changes e = some t) : t.Sound changes v := by
  cases e with
  | start client =>
      rw [step] at h
      split at h
      · obtain rfl := Option.some.inj h
        refine hs.setPhase ?_
        split <;> trivial
      · cases h
  | read client answer etag =>
      rw [step] at h
      split at h
      · split at h
        · rename_i hetag
          obtain rfl := Option.some.inj h
          refine hs.setPhase ?_
          split
          · exact prepared_afterRead s hetag
          · split <;> trivial
        · cases h
      · cases h
  | put client written answer => exact sound_put hs h
  | refused client =>
      rw [step] at h
      split at h
      · obtain rfl := Option.some.inj h
        exact hs.setPhase trivial
      · obtain rfl := Option.some.inj h
        exact hs.setPhase trivial
      · cases h

end Updates

end Nutsh.Prism
