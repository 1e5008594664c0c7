/-
Where a row is from, and where its request goes.

A row of a view is listed from one context: the own one of the key, or in a merged table the joined
one its id names.  A request goes to the context its row is found in when it is sent, and is recorded
against it.  The two are one as long as the lookup answers from where the row was listed.

* `Live.origin` — the context and the id a row is listed under;
* `Live.name_sessionFor_findRow` — a request is recorded against the context it goes to;
* `Live.FoundAt` — a row is found where it was listed, or not at all;
* `Flight.Placed`, `System.placed_exec` — every request goes to where its row was listed.
-/
import Nutsh.System.Record

set_option relaxedAutoImplicit false
set_option autoImplicit false

namespace Nutsh

namespace Live

variable {live live' : Live} {key : TableKey} {id : String}

/-- The rows of a view by their ids, each with the joined context, if any, and the id it is listed
under there. -/
def origins (live : Live) (key : TableKey) : List (String × Option String × String) :=
  ((live.store.table key).rows.keys.map fun id => (id, none, id)) ++
    if live.merges key then
      live.peers.flatMap fun p =>
        (live.peerTable key p.name).rows.keys.map fun id => (peerRowId p.name id, some p.name, id)
    else []

/-- Where the row of an id is listed; of two rows of one id a merged table draws the later. -/
def origin (live : Live) (key : TableKey) (id : String) : Option (Option String × String) :=
  (IndexMap.ofList (live.origins key)).get? id

/-- The context a row is of: the joined one it is listed from, else the one of the key. -/
def siteOf (key : TableKey) (o : Option String × String) : Option String := o.1.or key.context

/-- The name of a context, the session's own for none. -/
def nameOf (live : Live) (site : Option String) : String := site.getD live.primaryName

/-- Whether a context is the session's own or a joined one. -/
def Joined (live : Live) (site : Option String) : Prop :=
  ∀ name ∈ site, ∃ p ∈ live.peers, p.name = name

instance (live : Live) (site : Option String) : Decidable (live.Joined site) := by
  unfold Joined
  infer_instance

/-- A row is listed under its id, or in a merged table under the id that names its context. -/
theorem of_origin {o : Option String × String} (h : live.origin key id = some o) :
    o = (none, id) ∧ id ∈ (live.store.table key).rows.keys ∨
      live.merges key = true ∧ ∃ p ∈ live.peers, o.1 = some p.name ∧ id = peerRowId p.name o.2 := by
  rw [origin, IndexMap.get?_ofList] at h
  have hmem : (id, o) ∈ live.origins key := by
    obtain ⟨l₁, l₂, hl, -⟩ := List.lookup_eq_some_iff.1 h
    rw [← List.mem_reverse, hl]
    exact List.mem_append_right _ List.mem_cons_self
  rcases List.mem_append.1 hmem with hmem | hmem
  · left
    obtain ⟨id', hid', hid⟩ := List.mem_map.1 hmem
    cases hid
    exact ⟨rfl, hid'⟩
  · right
    split at hmem
    · rename_i hmerges
      obtain ⟨p, hp, hrow⟩ := List.mem_flatMap.1 hmem
      obtain ⟨extId, -, hid⟩ := List.mem_map.1 hrow
      cases hid
      exact ⟨hmerges, p, hp, rfl, rfl⟩
    · cases hmem

/-- Every row a view draws is listed somewhere. -/
theorem origin_isSome (h : ((live.merged key).rows.get? id).isSome = true) :
    (live.origin key id).isSome = true := by
  suffices hmem : id ∈ (live.origins key).map Prod.fst by
    rw [origin, IndexMap.get?_ofList, List.lookup_isSome_iff]
    obtain ⟨r, hr, rfl⟩ := List.mem_map.1 hmem
    exact ⟨r, List.mem_reverse.2 hr, beq_self_eq_true _⟩
  cases hm : live.merges key with
  | false =>
      rw [merged_of_not_merges hm, IndexMap.get?, List.lookup_isSome_iff] at h
      obtain ⟨r, hr, hid⟩ := h
      rw [beq_iff_eq] at hid
      subst hid
      simp only [origins, List.map_append, List.map_map]
      refine List.mem_append_left _ (List.mem_map.2 ⟨r.1, ?_, rfl⟩)
      exact List.mem_map_of_mem hr
  | true =>
      rw [rows_merged_of_merges hm, IndexMap.get?_ofList, List.lookup_isSome_iff] at h
      obtain ⟨r, hr, hid⟩ := h
      rw [beq_iff_eq] at hid
      subst hid
      have hkeys : (live.origins key).map Prod.fst = (live.allRows key).map Prod.fst := by
        simp [origins, hm, allRows, IndexMap.keys, List.map_flatMap, Function.comp_def]
      rw [hkeys]
      exact List.mem_map_of_mem (List.mem_reverse.1 hr)

/-! ### The lookup -/

/-- A table that lists an id has a document for it. -/
theorem row_isSome {t : Table} (h : id ∈ t.rows.keys) : (t.row id).isSome = true := by
  obtain ⟨r, hr, rfl⟩ := List.mem_map.1 h
  have hget : (t.rows.get? r.1).isSome = true := by
    rw [IndexMap.get?, List.lookup_isSome_iff]
    exact ⟨r, hr, beq_self_eq_true _⟩
  simp [Table.row, hget]

theorem name_of_peer {name : String} {p : Peer} (h : live.peer name = some p) :
    p ∈ live.peers ∧ p.name = name := by
  have hname := List.find?_some h
  exact ⟨List.mem_of_find?_eq_some h, by simpa using hname⟩

theorem peer_of_mem {p : Peer} (hp : p ∈ live.peers) : ∃ q, live.peer p.name = some q := by
  refine Option.isSome_iff_exists.1 ?_
  rw [peer, List.find?_isSome]
  exact ⟨p, hp, by simp⟩

/-- The session of a joined context is the one of its name. -/
theorem name_sessionFor {p : Peer} (hp : p ∈ live.peers) :
    (live.sessionFor (some p.name)).name = p.name := by
  obtain ⟨q, hq⟩ := peer_of_mem hp
  simp only [sessionFor, Option.bind_some, hq, Option.map_some, Option.getD_some]
  exact (name_of_peer hq).2

/-- A row is found in the session's own tables, or in those of a joined context. -/
theorem mem_peers_of_findRow {name : String} {e : Entity}
    (h : live.findRow key id = some (some name, e)) : ∃ p ∈ live.peers, p.name = name := by
  unfold findRow at h
  split at h
  · obtain ⟨p, hp, h⟩ := Option.bind_eq_some_iff.1 h
    obtain ⟨e', -, he⟩ := Option.map_eq_some_iff.1 h
    cases he
    exact ⟨p, (name_of_peer hp).1, rfl⟩
  · split at h
    · cases h
    · split at h
      · obtain ⟨p, hp, h⟩ := List.exists_of_findSome?_eq_some h
        obtain ⟨e', -, he⟩ := Option.map_eq_some_iff.1 h
        cases he
        exact ⟨p, hp, rfl⟩
      · cases h

/-- A request is recorded against the context it goes to. -/
theorem name_sessionFor_findRow {site : Option String} {e : Entity}
    (h : live.findRow key id = some (site, e)) :
    (live.sessionFor site).name = live.nameOf site := by
  cases site with
  | none => rfl
  | some name =>
      obtain ⟨p, hp, rfl⟩ := mem_peers_of_findRow h
      exact name_sessionFor hp

/-- A row listed at `o` is found there, or not at all: its id names a context only when it was listed
from one, and an id that names none is that of a row of the session's own, not replaced since by one
of a joined context. -/
def FoundAt (live : Live) (key : TableKey) (o : Option String × String) (id : String) : Prop :=
  match splitRowId id with
  | (some _, _) => o.1 ≠ none
  | (none, extId) =>
      if ((live.store.table key).row extId).isSome then
        live.nameOf key.context = live.primaryName
      else
        key.isTop = true → ∀ p ∈ live.peers, p.name ≠ live.primaryName →
          (live.peerTable key p.name).row extId = none

instance (live : Live) (key : TableKey) (o : Option String × String) (id : String) :
    Decidable (live.FoundAt key o id) := by
  unfold FoundAt
  split <;> infer_instance

/-- A row that is found where it was listed is found in the context it was listed from. -/
theorem nameOf_findRow {o : Option String × String} {site : Option String} {e : Entity}
    (ho : live.origin key id = some o) (hname : live'.primaryName = live.primaryName)
    (hat : live'.FoundAt key o id) (h : live'.findRow key id = some (site, e)) :
    live'.nameOf site = live.nameOf (siteOf key o) := by
  have hnames : ∀ site, live'.nameOf site = live.nameOf site := by
    intro site
    rw [nameOf, nameOf, hname]
  unfold FoundAt at hat
  unfold findRow at h
  rcases of_origin ho with ⟨rfl, -⟩ | ⟨-, p, hp, hsite, rfl⟩
  -- a row of the key's own context
  · split at hat
    · exact absurd rfl hat
    · rename_i extId hsplit
      rw [hsplit] at h
      dsimp only at h
      split at h
      · rename_i e' hrow
        cases h
        rw [hrow] at hat
        rw [← hnames]
        exact hat.symm
      · rename_i hrow
        rw [hrow] at hat
        split at h
        · rename_i htop
          obtain ⟨q, hq, h⟩ := List.exists_of_findSome?_eq_some h
          obtain ⟨e', hfound, he⟩ := Option.map_eq_some_iff.1 h
          cases he
          have hcontext : key.context = none := TableKey.context_of_isTop htop
          have hq' : q.name = live'.primaryName := by
            by_contra hne
            rw [hat htop q hq hne] at hfound
            cases hfound
          rw [siteOf, hcontext, nameOf, Option.getD_some, hq', hname]
          rfl
        · cases h
  -- a row of a joined context, under the id that names it
  · have hsplit : splitRowId (peerRowId p.name o.2) = (some p.name, o.2) :=
      splitRowId_peerRowId p.session.tab_notMem_name o.2
    rw [hsplit] at h
    obtain ⟨q, hq, h⟩ := Option.bind_eq_some_iff.1 h
    obtain ⟨e', -, he⟩ := Option.map_eq_some_iff.1 h
    cases he
    rw [siteOf, hsite, (name_of_peer hq).2, hnames]
    rfl

end Live

/-- A request goes to the context its row was listed from when it was chosen, and is recorded against
it. -/
def Flight.Placed (f : Flight) : Prop :=
  ∃ a ∈ f.chosen, ∃ live ∈ a.live, ∃ key ∈ a.topKey, ∃ o ∈ live.origin key f.request.row,
    f.request.session.name = live.nameOf (Live.siteOf key o) ∧
    f.request.context = live.nameOf (Live.siteOf key o)

instance (f : Flight) : Decidable f.Placed := by
  unfold Flight.Placed
  infer_instance

namespace System

variable {env : Env}

/-- **Every request is in its place**: it went to the context its row was listed from, and the entry
the journal of its session has for it, if the ring still holds it, names that context. -/
def Placed (s : System) : Prop :=
  ∀ f ∈ s.flying, f.Placed ∧
    (f.generation = s.app.sessionGeneration → ∀ live ∈ s.app.live, ∀ e ∈ live.journal.entries,
      e.id = f.request.journal → e.context = f.request.context)

/-- The condition on a step that sends: every pending row is found where it was listed when it was
chosen, or not at all. -/
def Anchored (env : Env) (s : System) (e : Event) : Prop :=
  ∀ a ∈ s.sending env e, ∀ live ∈ a.live, ∀ key ∈ a.topKey, ∀ p ∈ a.pending, ∀ row ∈ p.rows,
    ∀ chosen ∈ s.choosing env e, ∀ live₀ ∈ chosen.live, ∀ o ∈ live₀.origin key row.1,
      live.FoundAt key o row.1

instance (env : Env) (s : System) (e : Event) : Decidable (s.Anchored env e) := by
  unfold Anchored
  infer_instance

/-- What holds along the runs whose steps that send are anchored. -/
structure InPlace (env : Env) (s : System) : Prop where
  remembers : s.Remembers env fun _ _ => True
  tracked : s.Tracked
  placed : ∀ f ∈ s.flying, f.Placed

theorem inPlace_step (s : System) (e : Event) (t : System) (hs : s.InPlace env)
    (hP : s.Anchored env e) (h : s.step env e = some t) : t.InPlace env := by
  have hdecides : s.Decides env (fun _ _ => True) e := fun _ _ _ _ => trivial
  refine ⟨remembers_step s e t hs.remembers hdecides h, tracked_step s e t hs.tracked h, ?_⟩
  intro f hf
  rcases mem_flying_step h hf with hf | ⟨a', ha', hq, -, hchosen, -⟩
  · exact hs.placed f hf
  obtain ⟨a, ha, d, hd, hchoosing, -, hlisted, hsame, hsame', -⟩ :=
    sending_spec hs.remembers hdecides h ha'
  obtain ⟨live', key, p', hlive', hkey', hp', row, hrow, site, e', hfound, hid, hsession, hcontext, -⟩ :=
    App.makes_of_mem_runPending hq
  -- the rows, the key and the session are those of the choice
  have hchoice := hsame.trans hsame'
  obtain ⟨p, hp, hrows⟩ : ∃ p, a.pending = some p ∧ p.rows = p'.rows := by
    have hrows := hchoice.rows
    rw [hp'] at hrows
    exact Option.map_eq_some_iff.1 hrows.symm
  obtain ⟨live, hlive, hname⟩ : ∃ live, a.live = some live ∧ live.primaryName = live'.primaryName := by
    have hname := hchoice.name
    rw [hlive'] at hname
    exact Option.map_eq_some_iff.1 hname.symm
  have hkey : a.topKey = some key := hchoice.key ▸ hkey'
  have hdrawn := hlisted live hlive key hkey p hp row (hrows ▸ hrow)
  obtain ⟨o, ho⟩ := Option.isSome_iff_exists.1 (Live.origin_isSome hdrawn)
  have hat := hP a' ha' live' hlive' key hkey' p' hp' row hrow a hchoosing live hlive o ho
  have hplace := Live.nameOf_findRow ho hname.symm hat hfound
  refine ⟨a, hchosen ▸ ha, live, hlive, key, hkey, o, by rw [hid]; exact ho, ?_, ?_⟩
  · rw [hsession, Live.name_sessionFor_findRow hfound, hplace]
  · rw [hcontext]
    exact hplace

theorem inPlace_init (g : Guardrails) : (init g).InPlace env :=
  ⟨remembers_init g, tracked_init g, fun _ h => nomatch h⟩

/-- **Requests in their place**: in every run whose steps that send are anchored, every request goes to
the context its row was listed from, and its entry in the journal names that context. -/
theorem placed_exec (g : Guardrails) {es : List Event} {t : System}
    (hP : Run.Along (step env) (Anchored env) (init g) es)
    (hrun : Run.exec (step env) (init g) es = some t) : t.Placed := by
  have ht := Run.exec_inv_along inPlace_step (inPlace_init g) hP hrun
  intro f hf
  refine ⟨ht.placed f hf, ?_⟩
  intro hgen live hlive e he hid
  have hattempt := (ht.tracked.knows f hf hgen live hlive).2 e he hid
  exact congrArg Attempt.context hattempt

/-- Two rows of two contexts are sent each to its own. -/
theorem placed_exec_merged : ∃ t, Run.exec (step vmEnv) (init {})
      (merging prodSession [vm "0" "db"] [vm "1" "web"] ++ [.browse .toggleMark, .browse .toggleMark,
        .start powerOn]) = some t ∧
    t.flying.map (fun f => f.request.context) = ["lab", "prod"] ∧ t.Placed := by
  have hrun : ∃ t ∈ Run.exec (step vmEnv) (init {})
      (merging prodSession [vm "0" "db"] [vm "1" "web"] ++ [.browse .toggleMark, .browse .toggleMark,
        .start powerOn]), t.flying.map (fun f => f.request.context) = ["lab", "prod"] := by decide +kernel
  obtain ⟨t, ht, hflying⟩ := hrun
  exact ⟨t, ht, hflying, placed_exec {} (by decide +kernel) ht⟩

/-- The run that acts on a network card of a virtual machine of a joined context: the table of the
cards carries the context, the ids of its rows do not. -/
def childRun : List Event :=
  merging prodSession [] [vm "1" "web"] ++ [.openPicker, .pickChild nicKind] ++ listed 3 1 [nic "n1"] ++
    [.start detachNic]

theorem not_placed_exec : ¬ ∀ (env : Env) (g : Guardrails) (es : List Event) (t : System),
    Run.exec (step env) (init g) es = some t → t.Placed := by
  intro h
  have hrun : ∃ t ∈ Run.exec (step vmEnv) (init {}) childRun, ∃ f ∈ t.flying, ¬ f.Placed := by decide +kernel
  obtain ⟨t, ht, f, hf, hplaced⟩ := hrun
  exact hplaced (h vmEnv {} childRun t ht f hf).1

end System

end Nutsh
