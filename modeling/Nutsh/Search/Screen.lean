/-
The screen of a search.

What a search found is one list of captions and results.  The cursor is an index of it and stands on results
only: the keys step over the captions.  Every kind that answers has the list made anew, and the cursor keeps its
index, whatever now stands there.

Main definitions:

* `Row`, `Search`, `Search.refill`, `Search.key` — the list, made anew and walked;
* `Event`, `step` — searches, answers and keys;
* `Search.OnResult`, `Search.Follows` — the cursor is on a result, and after an answer on the same one;
* `Search.Steady` — where the result under the cursor stands among what an answer brings.

Main results:

* `Search.onResult_refill`, `Search.onResult_key` — the cursor never leaves the results;
* `Search.follows_refill_iff` — an answer leaves the cursor on its result exactly when that one stands well;
* `follows_iff_steady` — **so it is in every run**.
-/
import Nutsh.Lib.Run
import Nutsh.Palette.Line
import Nutsh.Search.Across

set_option relaxedAutoImplicit false
set_option autoImplicit false

namespace Nutsh.Searching

open Palette (Key)

/-- A line of the list: the caption of a kind, or a result. -/
inductive Row where
  | group (kind : Kind) (hits : ℕ)
  | hit (found : Hit)
  deriving DecidableEq

def Row.isHit : Row → Bool
  | .group _ _ => false
  | .hit _ => true

/-- What a key did. -/
inductive Action where
  | moved
  /-- A result is opened. -/
  | chose (kind : Kind) (extId : String)
  | closed
  | ignored
  deriving DecidableEq

/-- The list of what was found, the captions in it. -/
def rowsOf (found : Found) : List Row :=
  found.groups.flatMap fun g => .group g.kind g.hits.length :: g.hits.map .hit

/-- The first result, not the first row. -/
def firstHit (rows : List Row) : ℕ := (rows.findIdx? Row.isHit).getD 0

structure Search where
  term : String
  rows : List Row
  selected : ℕ
  loaded : ℕ := 0
  notLoaded : ℕ := 0
  /-- The kinds that were asked, and how many have answered. -/
  asked : ℕ := 0
  answered : ℕ := 0
  subs : List ℕ := []
  deriving DecidableEq

namespace Search

def new (term : String) (found : Found) : Search :=
  { term, rows := rowsOf found, selected := firstHit (rowsOf found), loaded := found.loaded,
    notLoaded := found.notLoaded }

/-- The list made anew, the cursor kept at its index, or put on the first result where that is none. -/
def refill (s : Search) (found : Found) : Search :=
  let rebuilt := new s.term found
  let index := min s.selected (rebuilt.rows.length - 1)
  { s with
    rows := rebuilt.rows, loaded := rebuilt.loaded, notLoaded := rebuilt.notLoaded,
    selected := if rebuilt.rows[index]?.any Row.isHit then index else firstHit rebuilt.rows }

def current (s : Search) : Option Row := s.rows[s.selected]?

/-- The first result down the rows, which begin at an index. -/
def captionsDown (selected : ℕ) : List Row → ℕ → ℕ
  | [], _ => selected
  | .hit _ :: _, index => index
  | .group _ _ :: rows, index => captionsDown selected rows (index + 1)

/-- The first result up from an index. -/
def captionsUp (rows : List Row) (selected : ℕ) : ℕ → ℕ
  | 0 =>
      match rows[0]? with
      | some (Row.hit _) => 0
      | _ => selected
  | index + 1 =>
      match rows[index + 1]? with
      | some (Row.hit _) => index + 1
      | some (Row.group _ _) => captionsUp rows selected index
      | none => selected

/-- The captions are skipped the way the cursor goes; with no result that way it stays. -/
def pastCaption (s : Search) (start : ℕ) (down : Bool) : ℕ :=
  if down then captionsDown s.selected (s.rows.drop start) start else captionsUp s.rows s.selected start

/-- Where a key takes the cursor, and which way, `none` for a key that does not move it. -/
def moves (s : Search) : Key → Option (ℕ × Bool)
  | .char 'j' | .down => some (min (s.selected + 1) (s.rows.length - 1), true)
  | .char 'k' | .up => some (s.selected - 1, false)
  | .char 'g' | .home => some (0, true)
  | .char 'G' | .end => some (s.rows.length - 1, false)
  | .pageDown => some (min (s.selected + 20) (s.rows.length - 1), true)
  | .pageUp => some (s.selected - 20, false)
  | _ => none

def key (s : Search) (k : Key) : Search × Action :=
  if k = .esc ∨ k = .char 'q' then (s, .closed)
  else if k = .enter then
    match s.current with
    | some (.hit h) => (s, .chose h.kind h.extId)
    | _ => (s, .ignored)
  else
    match s.moves k with
    | some (next, down) => ({ s with selected := s.pastCaption next down }, .moved)
    | none => (s, .ignored)

end Search

/-! ### The screen -/

inductive Event where
  /-- A term was searched for, and the kinds are asked. -/
  | search (term : String) (found : Found) (subs : List ℕ)
  /-- A kind has answered, and the store is walked again if there is a session. -/
  | answered (sub : ℕ) (found : Option Found)
  | key (k : Key)

/-- A kind that was asked has answered. -/
def Search.answer (s : Search) (sub : ℕ) (found : Option Found) : Search :=
  if s.subs.contains sub then
    let counted := { s with answered := s.answered + 1 }
    match found with
    | some found => counted.refill found
    | none => counted
  else s

/-- The screen after an event, `none` when it is closed. -/
def after (screen : Option Search) : Event → Option Search
  | .search term found subs => some { Search.new term found with subs, asked := subs.length }
  | .answered sub found => screen.map fun s => s.answer sub found
  | .key k =>
      screen.bind fun s =>
        match (s.key k).2 with
        | .moved | .ignored => some (s.key k).1
        | .closed | .chose _ _ => none

def step (screen : Option Search) (e : Event) : Option (Option Search) := some (after screen e)

/-! ### The cursor -/

namespace Search

/-- Whether a list holds a result of an entity. -/
def Holds (rows : List Row) (entity : String × String) : Prop := ∃ h, Row.hit h ∈ rows ∧ h.key = entity

/-- The entity under the cursor. -/
def entity (s : Search) : Option (String × String) :=
  match s.current with
  | some (.hit h) => some h.key
  | _ => none

/-- What `enter` opens. -/
def opens (s : Search) : Option (String × String) :=
  match (s.key .enter).2 with
  | .chose kind extId => some (kind.id, extId)
  | _ => none

/-- Whenever there is a result the cursor is on one. -/
def OnResult (s : Search) : Prop := (∃ h, Row.hit h ∈ s.rows) → s.entity.isSome

/-- What was under the cursor still is, if it is still there, and `enter` opens it. -/
def Follows (s t : Search) : Prop :=
  ∀ entity, s.entity = some entity → Holds t.rows entity → t.entity = some entity ∧ t.opens = some entity

/-- Where the result under the cursor stands in a list made anew: it is not in it, or in the same row; or in the
last one, when there are fewer; or it is the first result, and a caption stands in that row. -/
def Steady (s : Search) (rows : List Row) : Prop :=
  ∀ entity, s.entity = some entity → Holds rows entity →
    (∃ h, rows[s.selected]? = some (.hit h) ∧ h.key = entity) ∨
    (rows.length ≤ s.selected ∧ ∃ h, rows.getLast? = some (.hit h) ∧ h.key = entity) ∨
    ((∀ h, rows[min s.selected (rows.length - 1)]? ≠ some (.hit h)) ∧
      ∃ h, rows.find? Row.isHit = some (.hit h) ∧ h.key = entity)

variable {s t : Search} {rows : List Row}

theorem opens_eq (s : Search) : s.opens = s.entity := by
  rw [opens, entity, key]
  simp only [reduceCtorEq, or_self, if_false, if_true]
  cases s.current with
  | none => rfl
  | some row => cases row <;> rfl

theorem any_isHit_iff {row : Option Row} : row.any Row.isHit = true ↔ ∃ h, row = some (.hit h) := by
  cases row with
  | none => simp
  | some row => cases row <;> simp [Row.isHit]

/-- The row at the first result is the first result, when there is any. -/
theorem exists_firstHit (hany : ∃ h, Row.hit h ∈ rows) :
    ∃ h, rows[firstHit rows]? = some (.hit h) ∧ rows.find? Row.isHit = some (.hit h) := by
  obtain ⟨h, hmem⟩ := hany
  have hsome : (rows.find? Row.isHit).isSome := List.find?_isSome.2 ⟨_, hmem, rfl⟩
  obtain ⟨row, hrow⟩ := Option.isSome_iff_exists.1 hsome
  have hhit : (some row).any Row.isHit = true := List.find?_some (p := Row.isHit) hrow
  obtain ⟨first, hfirst⟩ := any_isHit_iff.1 hhit
  obtain rfl : row = .hit first := Option.some.inj hfirst
  refine ⟨first, ?_, hrow⟩
  rw [List.find?_eq_bind_findIdx?_getElem?] at hrow
  obtain ⟨i, hi, hat⟩ := Option.bind_eq_some_iff.1 hrow
  rw [firstHit, hi]
  exact hat

theorem entity_eq_some_iff {entity : String × String} :
    s.entity = some entity ↔ ∃ h, s.rows[s.selected]? = some (.hit h) ∧ h.key = entity := by
  rw [Search.entity, current]
  cases s.rows[s.selected]? with
  | none => simp
  | some row => cases row <;> simp

theorem entity_isSome_iff : s.entity.isSome ↔ ∃ h, s.rows[s.selected]? = some (.hit h) := by
  rw [Option.isSome_iff_exists]
  constructor
  · rintro ⟨entity, hentity⟩
    obtain ⟨h, hat, -⟩ := entity_eq_some_iff.1 hentity
    exact ⟨h, hat⟩
  · rintro ⟨h, hat⟩
    exact ⟨h.key, entity_eq_some_iff.2 ⟨h, hat, rfl⟩⟩

/-! ### The cursor on results -/

theorem onResult_new (term : String) (found : Found) : (new term found).OnResult := by
  intro hany
  obtain ⟨h, hat, -⟩ := exists_firstHit hany
  exact entity_isSome_iff.2 ⟨h, hat⟩

/-- What is under the cursor of a list made anew. -/
theorem entity_refill_iff (s : Search) {found : Found} {entity : String × String}
    (hany : ∃ h, Row.hit h ∈ rowsOf found) :
    (s.refill found).entity = some entity ↔
      (∃ h, (rowsOf found)[min s.selected ((rowsOf found).length - 1)]? = some (.hit h) ∧ h.key = entity) ∨
      ((∀ h, (rowsOf found)[min s.selected ((rowsOf found).length - 1)]? ≠ some (.hit h)) ∧
        ∃ h, (rowsOf found).find? Row.isHit = some (.hit h) ∧ h.key = entity) := by
  rw [entity_eq_some_iff]
  have hrows : (s.refill found).rows = rowsOf found := rfl
  have hselected : (s.refill found).selected =
      if (rowsOf found)[min s.selected ((rowsOf found).length - 1)]?.any Row.isHit then
        min s.selected ((rowsOf found).length - 1) else firstHit (rowsOf found) := rfl
  rw [hrows, hselected]
  split
  · rename_i hindex
    obtain ⟨h, hat⟩ := any_isHit_iff.1 hindex
    exact ⟨.inl, fun hcases => hcases.resolve_right fun hnone => hnone.1 h hat⟩
  · rename_i hindex
    have hnone : ∀ h, (rowsOf found)[min s.selected ((rowsOf found).length - 1)]? ≠ some (.hit h) :=
      fun h hat => hindex (any_isHit_iff.2 ⟨h, hat⟩)
    obtain ⟨first, hat, hfirst⟩ := exists_firstHit hany
    rw [hat, hfirst]
    constructor
    · exact fun hentity => .inr ⟨hnone, hentity⟩
    · rintro (⟨h, hh, -⟩ | hentity)
      · exact absurd hh (hnone h)
      · exact hentity.2

/-- **A list made anew** has the cursor on a result, whenever it has one. -/
theorem onResult_refill (s : Search) (found : Found) : (s.refill found).OnResult := by
  intro hany
  obtain ⟨first, -, hfirst⟩ := exists_firstHit hany
  rw [Option.isSome_iff_exists]
  by_cases hindex : ∃ h, (rowsOf found)[min s.selected ((rowsOf found).length - 1)]? = some (.hit h)
  · obtain ⟨h, hat⟩ := hindex
    exact ⟨h.key, (entity_refill_iff s hany).2 (.inl ⟨h, hat, rfl⟩)⟩
  · exact ⟨first.key, (entity_refill_iff s hany).2 (.inr ⟨fun h hat => hindex ⟨h, hat⟩, first, hfirst, rfl⟩)⟩

/-- **An answer leaves the cursor on its result exactly when that one stands well** in what it brings. -/
theorem follows_refill_iff (s : Search) (found : Found) : s.Follows (s.refill found) ↔ s.Steady (rowsOf found) := by
  refine forall_congr' fun entity => imp_congr_right fun hentity => imp_congr_right fun hholds => ?_
  have hany : ∃ h, Row.hit h ∈ rowsOf found := hholds.imp fun h hh => hh.1
  rw [opens_eq, and_self, entity_refill_iff s hany, ← or_assoc]
  refine or_congr_left ?_
  rcases Nat.lt_or_ge s.selected (rowsOf found).length with hlt | hge
  · rw [Nat.min_eq_left (by omega)]
    constructor
    · exact .inl
    · rintro (hrow | ⟨hge, -⟩)
      · exact hrow
      · omega
  · rw [Nat.min_eq_right (by omega), List.getLast?_eq_getElem?, List.getElem?_eq_none hge]
    simp [hge]

/-! ### The keys -/

theorem captionsDown_spec (selected : ℕ) (rows : List Row) (index : ℕ) :
    captionsDown selected rows index = selected ∨
      ∃ i h, captionsDown selected rows index = index + i ∧ rows[i]? = some (.hit h) := by
  induction rows generalizing index with
  | nil => exact .inl rfl
  | cons row rows ih =>
      cases row with
      | hit h => exact .inr ⟨0, h, rfl, rfl⟩
      | group kind hits =>
          rcases ih (index + 1) with hsame | ⟨i, h, hindex, hat⟩
          · exact .inl hsame
          · refine .inr ⟨i + 1, h, ?_, hat⟩
            rw [captionsDown, hindex]
            omega

theorem captionsUp_spec (rows : List Row) (selected index : ℕ) :
    captionsUp rows selected index = selected ∨ ∃ h, rows[captionsUp rows selected index]? = some (.hit h) := by
  induction index with
  | zero =>
      rw [captionsUp]
      split
      · exact .inr ⟨_, ‹_›⟩
      · exact .inl rfl
  | succ index ih =>
      rw [captionsUp]
      split
      · exact .inr ⟨_, ‹_›⟩
      · exact ih
      · exact .inl rfl

/-- The captions are stepped over, or the cursor stays. -/
theorem pastCaption_spec (s : Search) (start : ℕ) (down : Bool) :
    s.pastCaption start down = s.selected ∨ ∃ h, s.rows[s.pastCaption start down]? = some (.hit h) := by
  cases down with
  | false => exact captionsUp_spec s.rows s.selected start
  | true =>
      rcases captionsDown_spec s.selected (s.rows.drop start) start with hsame | ⟨i, h, hindex, hat⟩
      · exact .inl hsame
      · refine .inr ⟨h, ?_⟩
        rw [List.getElem?_drop] at hat
        exact (congrArg (s.rows[·]?) hindex).trans hat

/-- **No key takes the cursor off the results.** -/
theorem onResult_key (hs : s.OnResult) (k : Key) : (s.key k).1.OnResult := by
  rw [key]
  split
  · exact hs
  · split
    · split <;> exact hs
    · split
      · rename_i next down _
        intro hany
        rcases pastCaption_spec s next down with hsame | hhit
        · rw [hsame]
          exact hs hany
        · exact entity_isSome_iff.2 hhit
      · exact hs

theorem onResult_answer (hs : s.OnResult) (sub : ℕ) (found : Option Found) : (s.answer sub found).OnResult := by
  rw [answer]
  split
  · cases found with
    | none => exact hs
    | some found => exact onResult_refill _ found
  · exact hs

end Search

/-! ### Runs -/

/-- Whenever there is a result the cursor is on one, and an answer leaves it on the one it was on. -/
def Tracks (screen : Option Search) (e : Event) : Prop :=
  (∀ t ∈ after screen e, t.OnResult) ∧
    ∀ sub found, e = .answered sub found → ∀ s ∈ screen, ∀ t ∈ after screen e, s.Follows t

/-- The result under the cursor stands well in what an answer of a kind that was asked brings. -/
def Clear (screen : Option Search) (e : Event) : Prop :=
  ∀ sub found, e = .answered sub (some found) → ∀ s ∈ screen, sub ∈ s.subs → s.Steady (rowsOf found)

/-- From a screen with the cursor on a result every event leaves it on one. -/
theorem onResult_after {screen : Option Search} (h : ∀ s ∈ screen, s.OnResult) (e : Event) :
    ∀ t ∈ after screen e, t.OnResult := by
  intro t ht
  cases e with
  | search term found subs =>
      obtain rfl := Option.some.inj ht
      exact Search.onResult_new term found
  | answered sub found =>
      obtain ⟨s, hs, rfl⟩ := Option.map_eq_some_iff.1 ht
      exact Search.onResult_answer (h s hs) sub found
  | key k =>
      obtain ⟨s, hs, ht⟩ := Option.bind_eq_some_iff.1 ht
      split at ht
      · obtain rfl := Option.some.inj ht
        exact Search.onResult_key (h s hs) k
      · obtain rfl := Option.some.inj ht
        exact Search.onResult_key (h s hs) k
      · cases ht
      · cases ht

/-- An answer that brings nothing leaves the cursor where it is. -/
theorem Search.follows_of_rows_eq {s t : Search} (hrows : t.rows = s.rows) (hselected : t.selected = s.selected) :
    s.Follows t := by
  intro entity hentity _
  have hsame : t.entity = s.entity := by
    rw [Search.entity, Search.entity, Search.current, Search.current, hrows, hselected]
  rw [Search.opens_eq, hsame]
  exact ⟨hentity, hentity⟩

theorem follows_answer_iff (s : Search) (sub : ℕ) (found : Option Found) :
    s.Follows (s.answer sub found) ↔ ∀ f, found = some f → sub ∈ s.subs → s.Steady (rowsOf f) := by
  rw [Search.answer]
  split
  · rename_i hsub
    cases found with
    | none => exact iff_of_true (Search.follows_of_rows_eq rfl rfl) (fun f hf => by cases hf)
    | some found =>
        have hiff : s.Follows (({ s with answered := s.answered + 1 } : Search).refill found) ↔
            s.Steady (rowsOf found) :=
          Search.follows_refill_iff { s with answered := s.answered + 1 } found
        refine hiff.trans ⟨?_, fun h => h found rfl (List.contains_iff_mem.1 hsub)⟩
        rintro h f hf -
        obtain rfl := Option.some.inj hf
        exact h
  · rename_i hsub
    exact iff_of_true (Search.follows_of_rows_eq rfl rfl) fun f _ hmem => absurd (List.contains_iff_mem.2 hmem) hsub

/-- From a screen with the cursor on a result, an event is followed exactly when it is clear. -/
theorem tracks_iff {screen : Option Search} (h : ∀ s ∈ screen, s.OnResult) (e : Event) :
    Tracks screen e ↔ Clear screen e := by
  rw [Tracks, Clear, and_iff_right (onResult_after h e)]
  cases e with
  | search term found subs => simp
  | key k => simp
  | answered sub found =>
      constructor
      · rintro hall sub' found' heq s hs hsub
        obtain ⟨rfl, rfl⟩ := Event.answered.inj heq
        have hfollows := hall sub (some found') rfl s hs _ (Option.mem_map_of_mem _ hs)
        exact (follows_answer_iff s sub (some found')).1 hfollows found' rfl hsub
      · rintro hall sub' found' heq s hs t ht
        obtain ⟨rfl, rfl⟩ := Event.answered.inj heq
        obtain ⟨s', hs', rfl⟩ := Option.map_eq_some_iff.1 ht
        obtain rfl : s = s' := Option.some.inj (hs.symm.trans hs')
        refine (follows_answer_iff s sub found).2 fun f hf hsub => ?_
        exact hall sub f (by rw [hf]) s hs hsub

/-- **The cursor of a search.**  In every run of searches, answers and keys the cursor is on a result whenever
there is one; it is on the result it was on after every answer, if that one is still there, and `enter` opens
it, exactly when in every answer the result under the cursor stands well. -/
theorem follows_iff_steady (es : List Event) :
    ∃ screen, Run.exec step none es = some screen ∧ (∀ s ∈ screen, s.OnResult) ∧
      (Run.Along step Tracks none es ↔ Run.Along step Clear none es) := by
  have henabled : ∀ screen e, (∀ s ∈ screen, Search.OnResult s) → ∃ t, step screen e = some t ∧ ∀ s ∈ t, s.OnResult :=
    fun screen e h => ⟨_, rfl, onResult_after h e⟩
  have hnone : ∀ s ∈ (none : Option Search), s.OnResult := fun s hs => by cases hs
  obtain ⟨screen, hrun, honResult⟩ := Run.exists_exec henabled hnone es
  refine ⟨screen, hrun, honResult, ?_⟩
  refine Run.along_iff (I := fun screen : Option Search => ∀ s ∈ screen, s.OnResult)
    (fun screen e t h _ => tracks_iff h e) ?_ hnone hrun
  intro screen e t _ htracks hstep
  obtain rfl := Option.some.inj hstep
  exact htracks.1

/-- A machine and a cluster of one name. -/
def webHit : Hit := { kind := vmKind, extId := "7", name := "web", detail := "" }
def clusterHit : Hit :=
  { kind := { id := "clustermgmt.config.Cluster", display := "Clusters" }, extId := "1", name := "web", detail := "" }

/-- **A group that comes in above takes the cursor to another result**: the clusters stand before the machines in
the menu, and `enter` opens the cluster. -/
theorem not_follows :
    ¬ ∀ (es : List Event) (s t : Search) (sub : ℕ) (found : Option Found), Run.exec step none es = some (some s) →
      after (some s) (.answered sub found) = some t → s.Follows t := by
  intro h
  let machines : Group := { kind := vmKind, hits := [webHit] }
  let clusters : Group := { kind := clusterHit.kind, hits := [clusterHit] }
  have hfollows :=
    h [.search "web" { groups := [machines] } [0]] _ _ 0 (some { groups := [clusters, machines] }) rfl rfl
  have hopens := (hfollows webHit.key (by decide) ⟨webHit, by decide, by decide⟩).2
  exact absurd hopens (by decide)

end Nutsh.Searching
