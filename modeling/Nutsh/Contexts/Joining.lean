/-
Sessions switched and joined while their connects are in flight.

`:ctx a b` connects the session `a` and then joins `b` beside it.  Every connect runs off the UI thread
and its outcome comes back on one channel, any time later: a switch replaces the session, a join adds a
peer to whatever session is there then.  A connect that comes up moves the marker of the current row,
whoever asked for it, and it does so before its outcome is taken.

* `Sessions` — the session, its peers, the rows of the Contexts screen, and the connects in flight;
* `Sessions.startJoin`, `ctxCommand`, `joined`, `switchTo` — the handlers;
* `SessionEvent`, `Sessions.step` — what can happen;
* `Sessions.sound_exec` — the peers stay apart, beside the session they were joined to, and the marked row
  is the session's, as long as no outcome and no reading of the rows comes at the wrong time.
-/
import Nutsh.Contexts
import Nutsh.Lib.Run

set_option relaxedAutoImplicit false
set_option autoImplicit false

namespace Nutsh.Contexts

/-! ### The rows -/

/-- What the file says of a context, and whether its password is stored. -/
structure Entry where
  name : String
  host : String := ""
  hasPassword : Bool := true
  deriving DecidableEq

/-- What reading the file gives: the contexts and its own pointer, or why it cannot be read. -/
abbrev Listing := Except String (List Entry × Option String)

/-- A row of the Contexts screen. -/
structure Row where
  name : String
  host : String
  hasPassword : Bool
  current : Bool
  deriving DecidableEq

/-- The context marked: the one selected in this run, else the file's own pointer; none for the row of
the environment. -/
def currentContext (selected pointer : Option String) : Option String :=
  match selected with
  | some name => if name = envRow then none else some name
  | none => pointer

/-- The rows, that of the environment first. -/
def list (env : Option Entry) (selected : Option String) (file : Listing) :
    Except String (List Row) :=
  match file with
  | .error why => .error why
  | .ok (entries, pointer) =>
      let own := env.toList.map fun e =>
        { name := envRow, host := e.host, hasPassword := e.hasPassword,
          current := selected == some envRow : Row }
      .ok (own ++ entries.map fun e =>
        { name := e.name, host := e.host, hasPassword := e.hasPassword,
          current := currentContext selected pointer == some e.name })

/-! ### The sessions -/

/-- A context joined beside a session. -/
structure Peer where
  name : String
  /-- The session its connect was started beside. -/
  beside : ℕ
  deriving DecidableEq

/-- The session, and what is joined beside it. -/
structure Primary where
  context : Option String
  generation : ℕ
  peers : List Peer := []
  deriving DecidableEq

/-- The name of the session. -/
def Primary.name (p : Primary) : String := p.context.getD envRow

inductive Progress where
  | running
  | up
  | failed (why : String)
  deriving DecidableEq

/-- A connect in flight: a switch, or the join of a name. -/
structure Flight where
  id : ℕ
  peer : Option String
  /-- The context the session it opens is of. -/
  context : Option String
  beside : ℕ
  progress : Progress := .running
  deriving DecidableEq

/-- The session, the screen, and the connects on their way.  What came up last, and what was selected
at the start, are remembered to speak about the marker. -/
structure Sessions where
  env : Option Entry := none
  selected : Option String := none
  live : Option Primary := none
  generation : ℕ := 0
  rows : List Row := []
  listError : Option String := none
  message : Option String := none
  status : Option String := none
  pending : Bool := false
  pendingPeers : List String := []
  joining : List String := []
  flights : List Flight := []
  started : ℕ := 0
  chosen : Option String := none
  cameUp : Option (Option String) := none
  deriving DecidableEq

/-- The context a request by name asks for. -/
def requested (name : String) : Option String := if name = envRow then none else some name

namespace Sessions

/-- The rows read again. -/
def reload (s : Sessions) (file : Listing) : Sessions :=
  match list s.env s.selected file with
  | .ok rows => { s with rows, message := none, listError := none }
  | .error why => { s with rows := [], message := none, listError := some why }

/-- A connect on its way. -/
def launch (s : Sessions) (peer context : Option String) : Sessions :=
  { s with
    flights := s.flights ++ [{ id := s.started, peer, context, beside := s.generation }]
    started := s.started + 1 }

/-- A switch started. -/
def startConnect (s : Sessions) (context : Option String) (host : String) : Sessions :=
  { s.launch none context with pending := true, message := some s!"connecting to {host}…" }

/-- Why a name cannot be joined beside the session, before the rows are asked. -/
def refusal (s : Sessions) (name : String) : Option String :=
  if s.live.any fun p => p.name == name then some s!"{name} is the session"
  else if s.live.any fun p => p.peers.any fun q => q.name == name then
    some s!"{name} is already joined"
  else if s.joining.contains name then some s!"joining {name}…"
  else none

/-- A join started, or the status says why not. -/
def startJoin (s : Sessions) (file : Listing) (name : String) : Sessions :=
  match s.refusal name with
  | some why => { s with status := some why }
  | none =>
      let s := s.reload file
      match s.rows.find? fun r => r.name == name with
      | none => { s with status := some s!"no context named {name}" }
      | some row =>
          if row.hasPassword then
            { s.launch (some name) (requested name) with
              joining := s.joining ++ [name]
              status := some s!"joining {name}…" }
          else
            { s with
              status := some
                s!"{name}: no stored password; run \x60nutsh ctx login {name}\x60 first" }

/-- The peers of the session, those of the names kept. -/
def keepPeers (s : Sessions) (keep : List String) : Sessions :=
  { s with live := s.live.map fun p => { p with peers := p.peers.filter fun q => keep.contains q.name } }

/-- A context joined, or dropped when it is. -/
def togglePeer (s : Sessions) (file : Listing) (name : String) : Sessions :=
  match s.live with
  | none => { s with message := some "connect to a context first" }
  | some p =>
      if p.peers.any fun q => q.name == name then
        { s.keepPeers ((p.peers.map Peer.name).filter (· != name)) with
          message := some s!"{name} dropped" }
      else
        let s := s.startJoin file name
        { s with message := s.status }

/-- `:ctx`: the screen, other peers beside the same session, or a switch with the peers to join. -/
def ctxCommand (s : Sessions) (file : Listing) : List String → Sessions
  | [] => s.reload file
  | name :: names =>
      let peers := names.filter (· != name)
      if s.live.any fun p => p.context == some name then
        let s := s.keepPeers peers
        peers.foldl (fun s peer =>
          if s.live.any fun p => p.peers.any fun q => q.name == peer then s
          else s.startJoin file peer) s
      else
        let s := { s with pendingPeers := peers }.reload file
        match s.rows.find? fun r => r.name == name with
        | none => { s with pendingPeers := [], status := some s!"no context named {name}" }
        | some row =>
            -- without a password the screen asks for one
            if row.hasPassword then s.startConnect (requested name) row.host else s

/-- A peer's connect came back. -/
def joined (s : Sessions) (name : String) (beside : ℕ) (result : Except String Unit) : Sessions :=
  let s := { s with joining := s.joining.filter (· != name) }
  match s.live with
  | none => s
  | some p =>
      match result with
      | .ok _ =>
          let peers := p.peers.filter fun q => q.name != name
          { s with live := some { p with peers := peers ++ [{ name, beside }] },
                   status := some s!"joined {name}" }
      | .error why => { s with status := some s!"could not join {name}: {why}" }

/-- The session replaced: whatever was joined beside the old one goes with it. -/
def attach (s : Sessions) (context : Option String) : Sessions :=
  { s with
    generation := s.generation + 1
    live := some { context, generation := s.generation + 1 } }

/-- A switch came up: the session, the rows, what could not be done on the way, and then the peers named
after it. -/
def switchTo (s : Sessions) (context : Option String) (notes : List String) (file : Listing) :
    Sessions :=
  let s := (s.attach context).reload file
  let s := if notes.isEmpty then s else
    { s with message := some ("\n".intercalate notes), status := some ("; ".intercalate notes) }
  s.pendingPeers.foldl (fun s name => s.startJoin file name) { s with pendingPeers := [] }

/-- A switch that failed: nothing to join its peers to. -/
def connectFailed (s : Sessions) (error : String) : Sessions :=
  { s with pendingPeers := [], message := some error }

/-- An outcome taken from the channel. -/
def connectOutcome (s : Sessions) (f : Flight) (notes : List String) (file : Listing) : Sessions :=
  match f.peer, f.progress with
  | some name, .failed why => s.joined name f.beside (.error why)
  | some name, _ => s.joined name f.beside (.ok ())
  | none, .failed why => { s with pending := false }.connectFailed why
  | none, _ => { s with pending := false }.switchTo f.context notes file

/-- How a connect goes on: one that comes up moves the marker. -/
def settle (s : Sessions) (f : Flight) (result : Except String Unit) : Sessions :=
  let progress := match result with
    | .ok _ => .up
    | .error why => .failed why
  let flights := s.flights.map fun g => if g.id = f.id then { g with progress } else g
  match result with
  | .ok _ => { s with flights, selected := some (f.context.getD envRow), cameUp := some f.context }
  | .error _ => { s with flights }

end Sessions

/-- What can happen: keys, and the connects. -/
inductive SessionEvent where
  | ctx (names : List String) (file : Listing)
  | toggle (name : String) (file : Listing)
  | join (name : String) (file : Listing)
  /-- The rows read again, on a key or because a context was removed. -/
  | reload (file : Listing)
  /-- A switch to a row, or to a context that is being added. -/
  | connect (context : Option String) (host : String)
  /-- A connect comes up, or fails. -/
  | settle (id : ℕ) (result : Except String Unit)
  /-- The outcome of a connect is taken. -/
  | outcome (id : ℕ) (notes : List String) (file : Listing)

/-- The state an event leads to, `none` when it cannot happen. -/
def Sessions.step (s : Sessions) : SessionEvent → Option Sessions
  | .ctx names file => some (s.ctxCommand file names)
  | .toggle name file => some (s.togglePeer file name)
  | .join name file => some (s.startJoin file name)
  | .reload file => some (s.reload file)
  | .connect context host => some (s.startConnect context host)
  | .settle id result =>
      (s.flights.find? fun f => f.id == id && f.progress == .running).map fun f =>
        s.settle f result
  | .outcome id notes file =>
      (s.flights.find? fun f => f.id == id && f.progress != .running).map fun f =>
        { s with flights := s.flights.filter fun g => g.id != id }.connectOutcome f notes file

/-- A run that starts on a session of a context, its rows not read yet; what the command line chose, if
anything, is that context. -/
def Sessions.opened (env : Option Entry) (context : Option String) (chosen : Bool) : Sessions :=
  let selected := if chosen then some (context.getD envRow) else none
  { env, selected, chosen := selected, generation := 1, live := some { context, generation := 1 } }

/-- A run that starts on the Contexts screen. -/
def Sessions.disconnected (env : Option Entry) (selected : Option String) : Sessions :=
  { env, selected, chosen := selected }

namespace Sessions

variable {s t : Sessions}

/-! ### What is to hold -/

/-- The peers have names of their own, none is the session's, each was joined to the session it was
started beside, and the row marked is the session's. -/
structure Sound (s : Sessions) : Prop where
  apart : ∀ p ∈ s.live, (p.peers.map Peer.name).Nodup
  others : ∀ p ∈ s.live, ∀ q ∈ p.peers, q.name ≠ p.name
  beside : ∀ p ∈ s.live, ∀ q ∈ p.peers, q.beside = p.generation
  marked : ∀ p ∈ s.live, ∀ r ∈ s.rows, r.current = true → r.name = p.name

/-- The file's own pointer, if it can be read. -/
def pointerOf : Listing → Option String
  | .ok (_, pointer) => pointer
  | .error _ => none

/-- Whether the marker stands on a context: the connect that came up last is of it, or none has come up
and neither does the file, where nobody has chosen, point elsewhere. -/
def Marks (s : Sessions) (context : Option String) (file : Listing) : Prop :=
  match s.cameUp with
  | some last => last = context
  | none => s.chosen = none → pointerOf file = none ∨ pointerOf file = context

/-- Whether the rows are read beside the session there is. -/
def reads (s : Sessions) : SessionEvent → Bool
  | .ctx [] _ => true
  | .ctx (name :: names) _ =>
      if s.live.any fun p => p.context == some name then
        (names.filter (· != name)).any fun peer => (s.refusal peer).isNone
      else true
  | .toggle name _ => s.live.isSome && (s.refusal name).isNone
  | .join name _ => (s.refusal name).isNone
  | .reload _ => true
  | _ => false

/-- What an event reads of the file. -/
def fileOf : SessionEvent → Listing
  | .ctx _ file => file
  | .toggle _ file => file
  | .join _ file => file
  | .reload file => file
  | .outcome _ _ file => file
  | _ => .error ""

/-- The condition on a step: the outcome of a join is taken while the session it was started beside is
there, and whenever the rows are read the marker stands on the context of the session, which is the new
one where a switch is taken. -/
def Timely (s : Sessions) : SessionEvent → Prop
  | .outcome id _ file =>
      ∀ f ∈ s.flights, f.id = id → f.progress = .up →
        match f.peer with
        | some _ => f.beside = s.generation
        | none => s.Marks f.context file
  | e => s.reads e = true → ∀ p ∈ s.live, s.Marks p.context (fileOf e)

/-! ### What a run keeps -/

/-- What holds in every run whose steps are timely. -/
structure Kept (s : Sessions) : Prop extends Sound s where
  numbered : ∀ p ∈ s.live, p.generation = s.generation
  /-- A join on its way beside the session is of another name. -/
  joins : ∀ f ∈ s.flights, f.beside = s.generation → ∀ p ∈ s.live, f.peer ≠ some p.name
  older : ∀ f ∈ s.flights, f.beside ≤ s.generation
  selects : s.selected = match s.cameUp with
    | some last => some (last.getD envRow)
    | none => s.chosen
  upward : ∀ f ∈ s.flights, f.progress = .up → s.cameUp ≠ none
  first : s.cameUp = none → ∀ p ∈ s.live, ∀ name ∈ s.chosen, name = p.name

/-- Rows read while the marker stands on the session's context mark its row, or none. -/
theorem marked_list {file : Listing} {rows : List Row} (h : s.Kept) {p : Primary} (hp : p ∈ s.live)
    (hmarks : s.Marks p.context file) (hrows : list s.env s.selected file = .ok rows) :
    ∀ r ∈ rows, r.current = true → r.name = p.name := by
  -- the marker either stands on the session, or leaves it to the file, which points at it
  have hselected : s.selected = some p.name ∨ s.selected = none ∧
      (pointerOf file = none ∨ pointerOf file = p.context) := by
    have hselects := h.selects
    have hfirst := h.first
    rw [Marks] at hmarks
    cases hup : s.cameUp with
    | some last =>
        rw [hup] at hselects hmarks
        exact .inl (by rw [hselects, show last = p.context from hmarks, Primary.name])
    | none =>
        rw [hup] at hselects hmarks
        cases hchosen : s.chosen with
        | some name =>
            have hname : name = p.name := hfirst hup p hp name hchosen
            exact .inl (by rw [hselects, hchosen, hname])
        | none => exact .inr ⟨hselects.trans hchosen, hmarks hchosen⟩
  cases file with
  | error why => cases hrows
  | ok read =>
      obtain ⟨entries, pointer⟩ := read
      obtain rfl := Except.ok.inj hrows
      intro r hr hcurrent
      rcases List.mem_append.1 hr with hr | hr
      · obtain ⟨e, -, rfl⟩ := List.mem_map.1 hr
        have henv : s.selected = some envRow := beq_iff_eq.1 hcurrent
        obtain hsel | ⟨hsel, -⟩ := hselected
        · exact Option.some.inj (henv.symm.trans hsel)
        · rw [hsel] at henv
          cases henv
      · obtain ⟨e, -, rfl⟩ := List.mem_map.1 hr
        have hmark : currentContext s.selected pointer = some e.name := beq_iff_eq.1 hcurrent
        obtain hsel | ⟨hsel, hpointer⟩ := hselected
        · rw [hsel, currentContext] at hmark
          split at hmark
          · cases hmark
          · exact (Option.some.inj hmark).symm
        · rw [hsel] at hmark
          change pointer = none ∨ pointer = p.context at hpointer
          rw [show pointer = some e.name from hmark] at hpointer
          have hcontext : some e.name = p.context := hpointer.resolve_left (fun hnone => by cases hnone)
          rw [Primary.name, ← hcontext, Option.getD_some]

/-- The rows read while the marker stands on the session's context. -/
theorem Kept.reload (h : s.Kept) {file : Listing} (hmarks : ∀ p ∈ s.live, s.Marks p.context file) :
    (s.reload file).Kept := by
  rw [Sessions.reload]
  cases hrows : list s.env s.selected file with
  | error why =>
      exact { h with marked := fun p _ r hr => nomatch hr }
  | ok rows =>
      exact { h with marked := fun p hp => marked_list h hp (hmarks p hp) hrows }

/-! ### The handlers -/

/-- The fields the handlers of a join leave alone. -/
structure Frame (s t : Sessions) : Prop where
  live : t.live = s.live
  cameUp : t.cameUp = s.cameUp
  chosen : t.chosen = s.chosen
  joining : s.joining ⊆ t.joining

theorem Frame.refl (s : Sessions) : Frame s s := ⟨rfl, rfl, rfl, List.Subset.refl _⟩

theorem Frame.trans {u : Sessions} (h : Frame s t) (h' : Frame t u) : Frame s u :=
  ⟨h'.live.trans h.live, h'.cameUp.trans h.cameUp, h'.chosen.trans h.chosen,
    List.Subset.trans h.joining h'.joining⟩

theorem Frame.marks (h : Frame s t) {context : Option String} {file : Listing} :
    t.Marks context file ↔ s.Marks context file := by
  rw [Marks, Marks, h.cameUp, h.chosen]

theorem frame_reload (s : Sessions) (file : Listing) : Frame s (s.reload file) := by
  rw [reload]
  cases list s.env s.selected file <;> exact ⟨rfl, rfl, rfl, List.Subset.refl _⟩

theorem frame_startJoin (s : Sessions) (file : Listing) (name : String) :
    Frame s (s.startJoin file name) := by
  have hframe := frame_reload s file
  have hsame : (s.reload file).joining = s.joining := by
    rw [reload]
    cases list s.env s.selected file <;> rfl
  rw [startJoin]
  cases s.refusal name with
  | some why => exact ⟨rfl, rfl, rfl, List.Subset.refl _⟩
  | none =>
      dsimp only
      cases (s.reload file).rows.find? fun r => r.name == name with
      | none => exact hframe.trans ⟨rfl, rfl, rfl, List.Subset.refl _⟩
      | some row =>
          dsimp only
          split
          · exact hframe.trans ⟨rfl, rfl, rfl, List.subset_append_left _ _⟩
          · exact hframe.trans ⟨rfl, rfl, rfl, List.Subset.refl _⟩

/-- A connect of no join, or of one under another name than the session's. -/
theorem Kept.launch (h : s.Kept) {peer : Option String} (context : Option String)
    (hpeer : ∀ p ∈ s.live, peer ≠ some p.name) : (s.launch peer context).Kept := by
  refine { h with joins := ?_, older := ?_, upward := ?_ }
  · intro f hf hbeside p hp
    rcases List.mem_append.1 hf with hf | hf
    · exact h.joins f hf hbeside p hp
    · obtain rfl := List.mem_singleton.1 hf
      exact hpeer p hp
  · intro f hf
    rcases List.mem_append.1 hf with hf | hf
    · exact h.older f hf
    · obtain rfl := List.mem_singleton.1 hf
      exact le_rfl
  · intro f hf hup
    rcases List.mem_append.1 hf with hf | hf
    · exact h.upward f hf hup
    · obtain rfl := List.mem_singleton.1 hf
      cases hup

theorem name_ne_of_refusal {name : String} (h : s.refusal name = none) :
    ∀ p ∈ s.live, (some name : Option String) ≠ some p.name := by
  intro p hp hname
  rw [refusal, Option.mem_def.1 hp] at h
  simp [Option.some.inj hname] at h

theorem Kept.startJoin (h : s.Kept) {file : Listing} {name : String}
    (hmarks : s.refusal name = none → ∀ p ∈ s.live, s.Marks p.context file) :
    (s.startJoin file name).Kept := by
  rw [Sessions.startJoin]
  cases hrefusal : s.refusal name with
  | some why => exact { h with }
  | none =>
      have hread := h.reload (hmarks hrefusal)
      have hname : ∀ p ∈ (s.reload file).live, (some name : Option String) ≠ some p.name := by
        rw [(frame_reload s file).live]
        exact name_ne_of_refusal hrefusal
      dsimp only
      cases (s.reload file).rows.find? fun r => r.name == name with
      | none => exact { hread with }
      | some row =>
          dsimp only
          split
          · exact { hread.launch (requested name) hname with }
          · exact { hread with }

/-- A name that is not refused after some joins were started was not refused before them. -/
theorem Frame.refusal_eq_none (h : Frame s t) {name : String} (ht : t.refusal name = none) :
    s.refusal name = none := by
  rw [refusal, h.live] at ht
  rw [refusal]
  split_ifs at ht with hsession hjoined hjoining
  have hnot : ¬ s.joining.contains name = true := by
    intro hmem
    exact hjoining (List.contains_iff_mem.2 (h.joining (List.contains_iff_mem.1 hmem)))
  rw [if_neg hsession, if_neg hjoined, if_neg hnot]

/-- Joins started one after the other, some passed over: each reads the rows only if it was not refused
at first. -/
theorem Kept.foldl_startJoin (h : s.Kept) {file : Listing} {names : List String} {u : Sessions}
    (hframe : Frame u s) (skip : Sessions → String → Bool)
    (hmarks : ∀ name ∈ names, u.refusal name = none → ∀ p ∈ u.live, u.Marks p.context file) :
    (names.foldl (fun s name => if skip s name then s else s.startJoin file name) s).Kept := by
  induction names generalizing s with
  | nil => exact h
  | cons name names ih =>
      obtain ⟨hname, hnames⟩ := List.forall_mem_cons.1 hmarks
      rw [List.foldl_cons]
      split
      · exact ih h hframe hnames
      · refine ih (h.startJoin fun hrefusal p hp => ?_)
          (hframe.trans (frame_startJoin s file name)) hnames
        rw [hframe.marks]
        exact hname (hframe.refusal_eq_none hrefusal) p (hframe.live ▸ hp)

/-- The same session with other peers. -/
theorem Kept.withPeers (h : s.Kept) {p : Primary} (hp : s.live = some p) {peers : List Peer}
    (hapart : (peers.map Peer.name).Nodup) (hothers : ∀ q ∈ peers, q.name ≠ p.name)
    (hbeside : ∀ q ∈ peers, q.beside = p.generation) :
    { s with live := some { p with peers } }.Kept := by
  have hsame {P : Primary → Prop} (hP : P { p with peers }) :
      ∀ q ∈ some { p with peers }, P q := by
    intro q hq
    obtain rfl := Option.some.inj hq
    exact hP
  refine { h with apart := hsame hapart, others := hsame hothers, beside := hsame hbeside,
                  marked := hsame ?_, numbered := hsame ?_, joins := ?_, first := ?_ }
  · exact h.marked p hp
  · exact h.numbered p hp
  · exact fun f hf hgeneration => hsame (h.joins f hf hgeneration p hp)
  · exact fun hup => hsame (h.first hup p hp)

theorem Kept.keepPeers (h : s.Kept) (keep : List String) : (s.keepPeers keep).Kept := by
  rw [Sessions.keepPeers]
  cases hp : s.live with
  | none => exact { h with apart := nofun, others := nofun, beside := nofun, marked := nofun,
                           numbered := nofun, joins := nofun, first := nofun }
  | some p =>
      have hsub : (p.peers.filter fun q => keep.contains q.name).Sublist p.peers :=
        List.filter_sublist
      exact h.withPeers hp ((h.apart p hp).sublist (hsub.map Peer.name))
        (fun q hq => h.others p hp q (hsub.subset hq))
        (fun q hq => h.beside p hp q (hsub.subset hq))

/-- A peer joined beside the session it was started beside. -/
theorem Kept.joined (h : s.Kept) {name : String} {beside : ℕ} (result : Except String Unit)
    (hcame : result = .ok () → beside = s.generation ∧ ∀ p ∈ s.live, name ≠ p.name) :
    (s.joined name beside result).Kept := by
  rw [Sessions.joined]
  generalize hu : { s with joining := s.joining.filter (· != name) } = u
  have h : u.Kept := hu ▸ { h with }
  have hcame : result = .ok () → beside = u.generation ∧ ∀ p ∈ u.live, name ≠ p.name := hu ▸ hcame
  split
  · exact h
  · rename_i p hp
    split
    · obtain ⟨hbeside, hname⟩ := hcame rfl
      have hsub : (p.peers.filter fun q => q.name != name).Sublist p.peers :=
        List.filter_sublist
      have hpeers : { u with live := some { p with
          peers := (p.peers.filter fun q : Peer => q.name != name) ++ [Peer.mk name beside] } }.Kept := by
        refine h.withPeers hp ?_ ?_ ?_
        · rw [List.map_append, List.map_singleton]
          refine ((h.apart p hp).sublist (hsub.map Peer.name)).append
            (List.nodup_singleton name) (List.disjoint_singleton.2 ?_)
          intro hmem
          obtain ⟨q, hq, hqname⟩ := List.mem_map.1 hmem
          simpa [hqname] using List.of_mem_filter hq
        · intro q hq
          rcases List.mem_append.1 hq with hq | hq
          · exact h.others p hp q (hsub.subset hq)
          · obtain rfl := List.mem_singleton.1 hq
            exact hname p hp
        · intro q hq
          rcases List.mem_append.1 hq with hq | hq
          · exact h.beside p hp q (hsub.subset hq)
          · obtain rfl := List.mem_singleton.1 hq
            exact hbeside.trans (h.numbered p hp).symm
      exact { hpeers with }
    · exact { h with }

/-- The session replaced, the marker on the new one as the rows are read. -/
theorem Kept.switchTo (h : s.Kept) (hup : s.cameUp ≠ none) {context : Option String}
    {file : Listing} (hmarks : s.Marks context file) (notes : List String) :
    (s.switchTo context notes file).Kept := by
  -- the new session has no peers, and no join on its way was started beside it
  have hattach : { s.attach context with rows := [] }.Kept := by
    have hnew {P : Primary → Prop} (hP : P { context, generation := s.generation + 1 }) :
        ∀ q ∈ (s.attach context).live, P q := by
      intro q hq
      obtain rfl := Option.some.inj hq
      exact hP
    refine { h with apart := hnew List.nodup_nil, others := hnew nofun, beside := hnew nofun,
                    marked := hnew nofun, numbered := hnew rfl, joins := ?_, older := ?_,
                    first := fun hnone => absurd hnone hup }
    · intro f hf hbeside
      have hold := h.older f hf
      change f.beside = s.generation + 1 at hbeside
      omega
    · exact fun f hf => (h.older f hf).trans (Nat.le_succ _)
  have hread : ((s.attach context).reload file).Kept := by
    have hsame : (s.attach context).reload file =
        { s.attach context with rows := [] }.reload file := by
      rw [Sessions.reload, Sessions.reload]
    rw [hsame]
    refine hattach.reload fun p hp => ?_
    obtain rfl := Option.some.inj hp
    exact hmarks
  have hmarks' : ∀ p ∈ ((s.attach context).reload file).live,
      ((s.attach context).reload file).Marks p.context file := by
    intro p hp
    rw [(frame_reload _ file).live] at hp
    obtain rfl := Option.some.inj hp
    exact (frame_reload _ file).marks.2 hmarks
  rw [Sessions.switchTo]
  generalize (s.attach context).reload file = u at hread hmarks' ⊢
  have hnoted {v : Sessions} (hv : v.Kept) (hvmarks : ∀ p ∈ v.live, v.Marks p.context file) :
      (v.pendingPeers.foldl (fun (s : Sessions) name => s.startJoin file name)
        { v with pendingPeers := [] }).Kept := by
    have hstart : { v with pendingPeers := [] }.Kept := { hv with }
    exact hstart.foldl_startJoin (Frame.refl _) (fun _ _ => false) fun _ _ _ p hp => hvmarks p hp
  split
  · exact hnoted hread hmarks'
  · exact hnoted { hread with } hmarks'

/-! ### The run -/

/-- Keeping the peers of some names changes no refusal of one of them. -/
theorem refusal_keepPeers {keep : List String} {name : String} (h : name ∈ keep) :
    (s.keepPeers keep).refusal name = s.refusal name := by
  have hany (peers : List Peer) :
      ((peers.filter fun q => keep.contains q.name).any fun q => q.name == name) =
        peers.any fun q => q.name == name := by
    rw [List.any_filter]
    refine congrArg peers.any (funext fun q => ?_)
    by_cases hq : q.name = name <;> simp [hq, h]
  rw [refusal, refusal, keepPeers]
  cases s.live with
  | none => rfl
  | some p =>
      simp only [Option.map_some, Option.any_some, hany]
      rfl

theorem Kept.ctxCommand (h : s.Kept) {file : Listing} {names : List String}
    (hmarks : s.reads (.ctx names file) = true → ∀ p ∈ s.live, s.Marks p.context file) :
    (s.ctxCommand file names).Kept := by
  cases names with
  | nil => exact h.reload (hmarks rfl)
  | cons name names =>
      rw [Sessions.ctxCommand]
      rw [reads] at hmarks
      split
      · rename_i hsame
        rw [if_pos hsame] at hmarks
        refine (h.keepPeers _).foldl_startJoin (Frame.refl _) _ ?_
        intro peer hpeer hrefusal p hp
        -- a peer that is named is kept, so one that may be joined now was not joined before
        obtain ⟨p₀, hp₀, rfl⟩ := Option.map_eq_some_iff.1 hp
        refine hmarks (List.any_eq_true.2 ⟨peer, hpeer, ?_⟩) p₀ hp₀
        rw [Option.isNone_iff_eq_none]
        rw [refusal_keepPeers hpeer] at hrefusal
        exact hrefusal
      · rename_i hsame
        rw [if_neg hsame] at hmarks
        have hnamed : { s with pendingPeers := names.filter (· != name) }.Kept := { h with }
        have hread := hnamed.reload (hmarks rfl)
        generalize Sessions.reload _ file = u at hread ⊢
        dsimp only
        split
        · exact { hread with }
        · split
          · have hswitch : (u.launch none (requested name)).Kept := hread.launch _ nofun
            exact { hswitch with }
          · exact hread

theorem Kept.togglePeer (h : s.Kept) {file : Listing} {name : String}
    (hmarks : s.reads (.toggle name file) = true → ∀ p ∈ s.live, s.Marks p.context file) :
    (s.togglePeer file name).Kept := by
  rw [Sessions.togglePeer]
  split
  · exact { h with }
  · rename_i p hp
    split
    · have hkept := h.keepPeers ((p.peers.map Peer.name).filter (· != name))
      exact { hkept with }
    · have hjoin : (s.startJoin file name).Kept := by
        refine h.startJoin fun hrefusal => hmarks ?_
        rw [reads, hp, hrefusal]
        rfl
      exact { hjoin with }

/-- How a connect goes on. -/
theorem Kept.settle (h : s.Kept) {f : Flight} (result : Except String Unit) :
    (s.settle f result).Kept := by
  have hmem {g' : Flight} {progress : Progress}
      (hg' : g' ∈ s.flights.map fun g => if g.id = f.id then { g with progress } else g) :
      ∃ g ∈ s.flights, g'.peer = g.peer ∧ g'.beside = g.beside ∧
        (g'.progress = progress ∨ g'.progress = g.progress) := by
    obtain ⟨g, hg, rfl⟩ := List.mem_map.1 hg'
    refine ⟨g, hg, ?_⟩
    split <;> simp
  cases result with
  | ok =>
      refine { h with joins := ?_, older := ?_, selects := rfl, upward := fun _ _ _ => nofun,
                      first := nofun }
      · intro g' hg' hbeside p hp
        obtain ⟨g, hg, hpeer, hgbeside, -⟩ := hmem hg'
        rw [hpeer]
        exact h.joins g hg (hgbeside ▸ hbeside) p hp
      · intro g' hg'
        obtain ⟨g, hg, -, hgbeside, -⟩ := hmem hg'
        exact hgbeside ▸ h.older g hg
  | error why =>
      refine { h with joins := ?_, older := ?_, upward := ?_ }
      · intro g' hg' hbeside p hp
        obtain ⟨g, hg, hpeer, hgbeside, -⟩ := hmem hg'
        rw [hpeer]
        exact h.joins g hg (hgbeside ▸ hbeside) p hp
      · intro g' hg'
        obtain ⟨g, hg, -, hgbeside, -⟩ := hmem hg'
        exact hgbeside ▸ h.older g hg
      · intro g' hg' hup
        obtain ⟨g, hg, -, -, hprogress | hprogress⟩ := hmem hg'
        · rw [hup] at hprogress
          cases hprogress
        · exact h.upward g hg (hprogress ▸ hup)

/-- What an outcome does, the flight taken off. -/
theorem Kept.connectOutcome (h : s.Kept) {f : Flight} (hf : f ∈ s.flights)
    (hdone : f.progress ≠ .running) {notes : List String} {file : Listing}
    (htimely : s.Timely (.outcome f.id notes file)) :
    ({ s with flights := s.flights.filter fun g => g.id != f.id }.connectOutcome f notes file).Kept := by
  have hrest : { s with flights := s.flights.filter fun g => g.id != f.id }.Kept :=
    { h with joins := fun g hg => h.joins g (List.mem_of_mem_filter hg)
             older := fun g hg => h.older g (List.mem_of_mem_filter hg)
             upward := fun g hg => h.upward g (List.mem_of_mem_filter hg) }
  have hown := htimely f hf rfl
  rw [Sessions.connectOutcome]
  have hup (hnot : ∀ why, f.progress ≠ .failed why) : f.progress = .up := by
    cases hprogress : f.progress with
    | running => exact absurd hprogress hdone
    | up => rfl
    | failed why => exact absurd hprogress (hnot why)
  split
  · exact hrest.joined _ nofun
  · rename_i name hpeer hnot
    have hbeside := hown (hup hnot)
    rw [hpeer] at hbeside
    refine hrest.joined _ fun _ => ⟨hbeside, fun p hp hname => ?_⟩
    exact h.joins f hf hbeside p hp (hname ▸ hpeer)
  · exact { hrest with }
  · rename_i hpeer hnot
    have hmarks := hown (hup hnot)
    rw [hpeer] at hmarks
    have hfree : { s with flights := s.flights.filter fun g => g.id != f.id, pending := false }.Kept :=
      { hrest with }
    exact hfree.switchTo (h.upward f hf (hup hnot)) hmarks notes

/-- A timely step keeps what is to hold. -/
theorem kept_step {e : SessionEvent} (h : s.Kept) (htimely : s.Timely e)
    (hstep : s.step e = some t) : t.Kept := by
  cases e with
  | ctx names file =>
      obtain rfl := Option.some.inj hstep
      exact h.ctxCommand htimely
  | toggle name file =>
      obtain rfl := Option.some.inj hstep
      exact h.togglePeer htimely
  | join name file =>
      obtain rfl := Option.some.inj hstep
      refine h.startJoin fun hrefusal => htimely ?_
      rw [reads, hrefusal]
      rfl
  | reload file =>
      obtain rfl := Option.some.inj hstep
      exact h.reload (htimely rfl)
  | connect context host =>
      obtain rfl := Option.some.inj hstep
      have hswitch : (s.launch none context).Kept := h.launch context nofun
      exact { hswitch with }
  | settle id result =>
      obtain ⟨f, -, rfl⟩ := Option.map_eq_some_iff.1 hstep
      exact h.settle result
  | outcome id notes file =>
      obtain ⟨f, hf, rfl⟩ := Option.map_eq_some_iff.1 hstep
      have hfound := List.find?_some hf
      rw [Bool.and_eq_true, beq_iff_eq, bne_iff_ne] at hfound
      obtain ⟨rfl, hdone⟩ := hfound
      exact h.connectOutcome (List.mem_of_find?_eq_some hf) hdone htimely

/-- A run starts on a session, or on none. -/
def Starts (s : Sessions) : Prop :=
  (∃ env context chosen, s = opened env context chosen) ∨ ∃ env selected, s = disconnected env selected

theorem Starts.kept (h : s.Starts) : s.Kept := by
  obtain ⟨env, context, chosen, rfl⟩ | ⟨env, selected, rfl⟩ := h
  · have hlive {P : Primary → Prop} (hP : P { context, generation := 1 }) :
        ∀ p ∈ (opened env context chosen).live, P p := by
      intro p hp
      obtain rfl := Option.some.inj hp
      exact hP
    refine { apart := hlive List.nodup_nil, others := hlive nofun, beside := hlive nofun,
             marked := hlive nofun, numbered := hlive rfl, joins := nofun, older := nofun,
             selects := rfl, upward := nofun, first := fun _ => hlive fun name hname => ?_ }
    cases chosen with
    | true => exact (Option.some.inj hname).symm
    | false => cases hname
  · exact { apart := nofun, others := nofun, beside := nofun, marked := nofun, numbered := nofun,
            joins := nofun, older := nofun, selects := rfl, upward := nofun, first := nofun }

/-- **The sessions stay sound**: in every run whose steps are timely, in every state it comes to, the
peers have names of their own, none is the session's, each was joined to the session it was started
beside, and the row marked is the session's. -/
theorem sound_exec {es : List SessionEvent} (hstart : s.Starts)
    (htimely : Run.Along step Timely s es) (hrun : Run.exec step s es = some t) : t.Sound :=
  (Run.exec_inv_along (fun _ _ _ h htimely hstep => kept_step h htimely hstep) hstart.kept htimely
    hrun).toSound

/-! ### Runs -/

instance (s : Sessions) (context : Option String) (file : Listing) :
    Decidable (s.Marks context file) := by
  unfold Marks
  split <;> infer_instance

instance (s : Sessions) (e : SessionEvent) : Decidable (s.Timely e) := by
  unfold Timely
  split
  · refine @List.decidableBAll _ _ (fun f => ?_) _
    refine @instDecidableForall _ _ _ (@instDecidableForall _ _ _ ?_)
    split <;> infer_instance
  · infer_instance

/-- A file of three contexts. -/
def threeContexts : Listing := .ok ([{ name := "a" }, { name := "b" }, { name := "c" }], some "a")

/-- A session, a peer joined beside it, and the peer dropped again. -/
def joinedRun : List SessionEvent :=
  [.reload threeContexts, .ctx ["a", "b"] threeContexts, .settle 0 (.ok ()),
    .outcome 0 [] threeContexts, .toggle "b" threeContexts]

theorem sound_exec_joined : ∃ t, Run.exec step (opened none (some "a") false) joinedRun = some t ∧
    t.rows.map Row.current = [true, false, false] ∧ t.Sound := by
  have hrun : ∃ t ∈ Run.exec step (opened none (some "a") false) joinedRun,
      t.rows.map Row.current = [true, false, false] := by decide
  obtain ⟨t, ht, hrows⟩ := hrun
  exact ⟨t, ht, hrows, sound_exec (Or.inl ⟨none, some "a", false, rfl⟩) (by decide) ht⟩

/-- A join is started beside one session, another session replaces it, and the join is taken there. -/
def lateRun : List SessionEvent :=
  [.reload threeContexts, .ctx ["a", "b"] threeContexts, .ctx ["c"] threeContexts,
    .settle 1 (.ok ()), .outcome 1 [] threeContexts, .settle 0 (.ok ()), .outcome 0 [] threeContexts]

theorem not_sound_exec : ¬ ∀ (s t : Sessions) (es : List SessionEvent), s.Starts →
    Run.exec step s es = some t → t.Sound := by
  intro h
  have hrun : ∃ t ∈ Run.exec step (opened none (some "a") true) lateRun,
      ∃ p ∈ t.live, ∃ q ∈ p.peers, q.beside ≠ p.generation := by decide
  obtain ⟨t, ht, p, hp, q, hq, hbeside⟩ := hrun
  exact hbeside ((h _ t lateRun (Or.inl ⟨none, some "a", true, rfl⟩) ht).beside p hp q hq)

end Sessions

end Nutsh.Contexts
