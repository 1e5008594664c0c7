/-
The menu at the left.

The groups of the menu are flattened to rows: a header for each group that is listed, and its items if it is
open.  The curated groups come first, and between them and the generated ones a caption is put, if any of
these is listed; it says what the rows beneath are and is no place for the cursor.

Main definitions:

* `Sidebar`, `Sidebar.listed`, `Sidebar.flatten`, `Sidebar.refresh` — the menu and its rows;
* `Sidebar.pastSeparator` — the caption stepped over;
* `Sidebar.select`, `reveal`, `jump`, `key`, `setHidden` — what moves the cursor;
* `Sidebar.Event`, `Sidebar.step` — the menu from one event to the next.

Main results:

* `Sidebar.flatten_cases` — there is one caption at most, and the header of a group behind it;
* `Sidebar.group_mem_rows`, `item_mem_rows` — what the rows are;
* `Sidebar.head?_flatten` — when the caption comes first.
-/
import Nutsh.Palette.Line
import Nutsh.Palette.Rows

set_option relaxedAutoImplicit false
set_option autoImplicit false

namespace Nutsh

open Palette (Key NavGroup NavItem)

/-- A row of the menu. -/
inductive Sidebar.Row where
  | group (group : ℕ)
  | item (group item : ℕ)
  /-- The caption between the curated groups and the others. -/
  | separator
  deriving DecidableEq

/-- The menu.  Its rows are kept, and made anew whenever what they depend on changes. -/
structure Sidebar where
  selected : ℕ := 0
  /-- Whether characters go to the filter. -/
  filtering : Bool := false
  /-- What the body shows. -/
  opened : Option NavTarget := none
  collapsed : List ℕ := []
  filter : String := ""
  rows : List Sidebar.Row := []
  /-- Kinds, pages and groups that are hidden. -/
  hidden : List String := []
  /-- The items of each group that are not shown. -/
  dropped : List ℕ := []
  deriving DecidableEq

namespace Sidebar

/-- What a key did. -/
inductive Action where
  | moved
  | filtered
  | toggled
  | «open» (item : NavItem)
  | blur
  | passthrough (k : Key)
  | ignored
  deriving DecidableEq

/-! ### The rows -/

/-- The way to other contexts, the settings and what the body shows are never hidden. -/
def hides (s : Sidebar) (group : NavGroup) (item : NavItem) : Bool :=
  if s.opened == some item.target || item.target == .contexts || item.target == .settings then false
  else if s.hidden.contains group.name then true
  else
    match item.target with
    | .kind id | .page id => s.hidden.contains id
    | .contexts | .settings | .missing => false

def needle (s : Sidebar) : String := Text.lower s.filter

/-- Whether the filter keeps an item. -/
def keeps (s : Sidebar) (item : NavItem) : Bool :=
  s.needle == "" || Text.contains s.needle (Text.lower item.label)

/-- Whether a group has a header: it is not hidden whole, and the filter keeps an item of it. -/
def listed (s : Sidebar) (group : NavGroup) : Bool :=
  !(s.hidden.contains group.name && group.items.all (s.hides group) && s.needle == "") &&
    !(s.needle != "" && !group.items.any s.keeps)

/-- Whether a group is only its header; a filter opens every group. -/
def shut (s : Sidebar) (g : ℕ) : Bool := s.needle == "" && s.collapsed.contains g

/-- Whether an item of an open group has a row; a filter shows hidden ones too. -/
def shows (s : Sidebar) (group : NavGroup) (item : NavItem) : Bool :=
  s.keeps item && !(s.hides group item && s.needle == "")

def itemRows (s : Sidebar) (group : NavGroup) (g : ℕ) : List Row :=
  if s.shut g then []
  else (group.items.zipIdx.filter fun x => s.shows group x.1).map fun x => .item g x.2

section
-- how many of the groups are curated
variable (curated : ℕ)

/-- The rows of some groups, each with its index, the caption put before them or not. -/
def flatten (s : Sidebar) : Bool → List (NavGroup × ℕ) → List Row
  | _, [] => []
  | captioned, (group, g) :: groups =>
      if s.listed group then
        if curated ≤ g ∧ captioned = false then
          .separator :: .group g :: s.itemRows group g ++ flatten s true groups
        else .group g :: s.itemRows group g ++ flatten s captioned groups
      else flatten s captioned groups

/-- How many items of a listed group are hidden and not shown. -/
def droppedOf (s : Sidebar) (group : NavGroup) (g : ℕ) : ℕ :=
  if s.listed group then
    if s.shut g then group.items.countP (s.hides group)
    else group.items.countP fun item => s.keeps item && s.hides group item && s.needle == ""
  else 0

/-- The row, unless it is the caption: then the next one that way, or else the other way. -/
def pastSeparator (rows : List Row) (index : ℕ) (down : Bool) : ℕ :=
  if rows[index]? ≠ some .separator then index
  else
    let forward := min (index + 1) (rows.length - 1)
    let back := index - 1
    let (first, second) := if down then (forward, back) else (back, forward)
    if rows[first]? ≠ some .separator then first
    else if rows[second]? ≠ some .separator then second
    else index

variable (nav : List NavGroup)

/-- The rows made anew, the cursor pulled back onto them. -/
def refresh (s : Sidebar) : Sidebar :=
  let rows := s.flatten curated false nav.zipIdx
  { s with
    rows
    dropped := nav.zipIdx.map fun x => s.droppedOf x.1 x.2
    selected := pastSeparator rows (min s.selected (rows.length - 1)) false }

/-- The menu of a session that begins: every group is collapsed. -/
def default : Sidebar := refresh curated nav { collapsed := List.range nav.length }

/-! ### What moves the cursor -/

def setCollapsed (s : Sidebar) (group : ℕ) (collapsed : Bool) : Sidebar :=
  refresh curated nav
    { s with
      collapsed := if collapsed then group :: s.collapsed.filter (· != group)
        else s.collapsed.filter (· != group) }

def setFilter (s : Sidebar) (filter : String) : Sidebar := refresh curated nav { s with filter }

/-- Where a row stands. -/
def position (rows : List Row) (row : Row) : Option ℕ := rows.findIdx? (· == row)

/-- The rows made anew, the cursor on the row it was on; or on the header of its group, or on the first row. -/
def reanchor (s : Sidebar) : Sidebar :=
  let t := refresh curated nav s
  match s.rows[s.selected]? with
  | none => t
  | some was =>
      match position t.rows was with
      | some i => { t with selected := i }
      | none =>
          match was with
          | .group group | .item group _ =>
              { t with selected := (position t.rows (.group group)).getD 0 }
          | .separator => t

def setHidden (s : Sidebar) (hidden : List String) : Sidebar := reanchor curated nav { s with hidden }

def groupAt (s : Sidebar) (index : ℕ) : Option ℕ :=
  match s.rows[index]? with
  | some (.group group) | some (.item group _) => some group
  | some .separator | none => none

/-- The cursor put on a row; a click on the caption selects nothing, a notch of the wheel carries on past it. -/
def select (s : Sidebar) (index : ℕ) (carryOn : Bool) : Sidebar × Bool :=
  if s.rows.length ≤ index then (s, false)
  else if s.rows[index]? = some .separator ∧ carryOn = false then (s, false)
  else ({ s with selected := pastSeparator s.rows index (s.selected ≤ index) }, true)

/-- The first item of a target. -/
def find (target : NavTarget) : Option (ℕ × ℕ) :=
  nav.zipIdx.findSome? fun x => (x.1.items.findIdx? fun item => item.target == target).map fun i => (x.2, i)

/-- The group of a target is opened and the cursor put on it. -/
def reveal (s : Sidebar) (target : NavTarget) : Sidebar :=
  let s := { s with opened := some target }
  match find nav target with
  | none => refresh curated nav s
  | some (g, i) =>
      let t := refresh curated nav
        { s with collapsed := s.collapsed.filter (· != g), filter := "", filtering := false }
      { t with selected := (position t.rows (.item g i)).getD t.selected }

/-- A digit goes to a curated group, `0` to the first generated one. -/
def jumpsTo (digit : ℕ) : ℕ := if digit = 0 then curated else min (digit - 1) (curated - 1)

def jump (s : Sidebar) (digit : ℕ) : Sidebar :=
  { s with selected := (position s.rows (.group (jumpsTo curated digit))).getD 0 }

/-- What `enter` does, `none` where the row names no item of the menu. -/
def openSelected (s : Sidebar) : Option (Sidebar × Action) :=
  match s.rows[s.selected]? with
  | some (.group group) => some (setCollapsed curated nav s group (!s.collapsed.contains group), .toggled)
  | some (.item group item) => do
      let group ← nav[group]?
      let item ← group.items[item]?
      some (s, .open item)
  | some .separator | none => some (s, .ignored)

/-- The group under the cursor folded, the cursor then on its header. -/
def fold (s : Sidebar) (shut : Bool) : Sidebar × Action :=
  match s.groupAt s.selected with
  | none => (s, .ignored)
  | some group =>
      let t := setCollapsed curated nav s group shut
      if shut then ({ t with selected := (position t.rows (.group group)).getD 0 }, .toggled)
      else (t, .toggled)

/-- Where a key takes the cursor, and which way. -/
def moves (s : Sidebar) : Key → Option (ℕ × Bool)
  | .char 'j' | .down => some (min (s.selected + 1) (s.rows.length - 1), true)
  | .char 'k' | .up => some (s.selected - 1, false)
  | .char 'g' | .home => some (0, true)
  | .char 'G' | .end => some (s.rows.length - 1, false)
  | _ => none

def moveKey (s : Sidebar) (k : Key) : Sidebar × Action :=
  match s.moves k with
  | some (next, down) => ({ s with selected := pastSeparator s.rows next down }, .moved)
  | none => (s, .passthrough k)

/-- A key while characters go to the filter, whose edits put the cursor on the first row. -/
def filterKey (s : Sidebar) (k : Key) : Option (Sidebar × Action) :=
  match k with
  | .esc => some ({ setFilter curated nav s "" with filtering := false }, .filtered)
  | .enter => openSelected curated nav { s with filtering := false }
  | .char c => some ({ setFilter curated nav s (s.filter.push c) with selected := 0 }, .filtered)
  | .backspace =>
      some ({ setFilter curated nav s (String.ofList s.filter.toList.dropLast) with selected := 0 }, .filtered)
  | k => some (s.moveKey k)

def key (s : Sidebar) (k : Key) : Option (Sidebar × Action) :=
  if s.filtering then filterKey curated nav s k
  else
    match k with
    | .char '/' => some ({ s with filtering := true }, .filtered)
    | .tab | .esc => some (s, .blur)
    | .enter => openSelected curated nav s
    | .char 'h' | .left => some (fold curated nav s true)
    | .char 'l' | .right => some (fold curated nav s false)
    | k => some (s.moveKey k)

/-! ### Runs -/

inductive Event where
  | key (k : Key)
  /-- A click on a row, or a notch of the wheel that carries on. -/
  | select (index : ℕ) (carryOn : Bool)
  | jump (digit : ℕ)
  | reveal (target : NavTarget)
  | setHidden (hidden : List String)
  | setFilter (filter : String)
  | setCollapsed (group : ℕ) (collapsed : Bool)

def step (s : Sidebar) : Event → Option Sidebar
  | .key k => (key curated nav s k).map Prod.fst
  | .select index carryOn => some (s.select index carryOn).1
  | .jump digit => some (jump curated s digit)
  | .reveal target => some (reveal curated nav s target)
  | .setHidden hidden => some (setHidden curated nav s hidden)
  | .setFilter filter => some (setFilter curated nav s filter)
  | .setCollapsed group collapsed => some (setCollapsed curated nav s group collapsed)

end

/-! ### What the rows are -/

variable {s : Sidebar} {curated : ℕ} {groups : List (NavGroup × ℕ)}

theorem separator_not_mem_itemRows (group : NavGroup) (g : ℕ) : Row.separator ∉ s.itemRows group g := by
  rw [itemRows]
  split
  · exact List.not_mem_nil
  · simp

theorem group_not_mem_itemRows (group : NavGroup) (g g' : ℕ) : Row.group g' ∉ s.itemRows group g := by
  rw [itemRows]
  split
  · exact List.not_mem_nil
  · simp

theorem separator_not_mem_flatten : Row.separator ∉ s.flatten curated true groups := by
  induction groups with
  | nil => exact List.not_mem_nil
  | cons x groups ih =>
      obtain ⟨group, g⟩ := x
      rw [flatten]
      split
      · rw [if_neg (fun h => Bool.false_ne_true h.2.symm)]
        simp [separator_not_mem_itemRows, ih]
      · exact ih

/-- **There is one caption at most**, and the header of a group behind it. -/
theorem flatten_cases (s : Sidebar) (curated : ℕ) (groups : List (NavGroup × ℕ)) :
    ∃ before, Row.separator ∉ before ∧
      (s.flatten curated false groups = before ∨
        ∃ g after, Row.separator ∉ after ∧
          s.flatten curated false groups = before ++ .separator :: .group g :: after) := by
  induction groups with
  | nil => exact ⟨[], List.not_mem_nil, .inl rfl⟩
  | cons x groups ih =>
      obtain ⟨group, g⟩ := x
      rw [flatten]
      split
      · split
        · refine ⟨[], List.not_mem_nil, .inr ⟨g, s.itemRows group g ++ s.flatten curated true groups, ?_, rfl⟩⟩
          simp [separator_not_mem_itemRows, separator_not_mem_flatten]
        · obtain ⟨before, hbefore, h⟩ := ih
          refine ⟨.group g :: s.itemRows group g ++ before, by simp [separator_not_mem_itemRows, hbefore], ?_⟩
          rcases h with h | ⟨g', after, hafter, h⟩
          · exact .inl (by rw [h])
          · exact .inr ⟨g', after, hafter, by rw [h, List.append_assoc]⟩
      · exact ih

/-- The rows but the caption are those of the groups that are listed. -/
theorem mem_flatten {captioned : Bool} {row : Row} (hrow : row ≠ .separator) :
    row ∈ s.flatten curated captioned groups ↔
      ∃ x ∈ groups, s.listed x.1 = true ∧ (row = .group x.2 ∨ row ∈ s.itemRows x.1 x.2) := by
  induction groups generalizing captioned with
  | nil => simp [flatten]
  | cons x groups ih =>
      obtain ⟨group, g⟩ := x
      rw [List.exists_mem_cons_iff, flatten]
      split
      · rename_i hlisted
        rw [and_iff_right hlisted, or_assoc]
        split
        · rw [List.cons_append, List.cons_append, List.mem_cons, List.mem_cons, List.mem_append, ih]
          exact or_iff_right hrow
        · rw [List.cons_append, List.mem_cons, List.mem_append, ih]
      · rename_i hlisted
        rw [ih]
        exact (or_iff_right fun h => hlisted h.1).symm

section
variable {nav : List NavGroup} {g i : ℕ}

theorem mem_zipIdx_iff {α : Type*} {l : List α} {x : α} {g : ℕ} : (x, g) ∈ l.zipIdx ↔ l[g]? = some x := by
  simp [List.mem_zipIdx_iff_getElem?]

/-- Every group that is listed has its header, and no other. -/
theorem group_mem_rows :
    .group g ∈ s.flatten curated false nav.zipIdx ↔ ∃ group, nav[g]? = some group ∧ s.listed group = true := by
  rw [mem_flatten (fun h => by cases h)]
  constructor
  · rintro ⟨⟨group, g'⟩, hmem, hlisted, h | h⟩
    · obtain rfl := Row.group.inj h
      exact ⟨group, mem_zipIdx_iff.1 hmem, hlisted⟩
    · exact absurd h (group_not_mem_itemRows group g' g)
  · rintro ⟨group, hgroup, hlisted⟩
    exact ⟨(group, g), mem_zipIdx_iff.2 hgroup, hlisted, .inl rfl⟩

/-- An item that has a row is one of a group that is listed and open. -/
theorem item_mem_rows :
    .item g i ∈ s.flatten curated false nav.zipIdx ↔
      ∃ group, nav[g]? = some group ∧ s.listed group = true ∧ s.shut g = false ∧
        ∃ item, group.items[i]? = some item ∧ s.shows group item = true := by
  have hitem : ∀ group g', .item g i ∈ s.itemRows group g' ↔
      g' = g ∧ s.shut g = false ∧ ∃ item, group.items[i]? = some item ∧ s.shows group item = true := by
    intro group g'
    rw [itemRows]
    split
    · rename_i hshut
      simp only [List.not_mem_nil, false_iff, not_and]
      rintro rfl hopen
      rw [hopen] at hshut
      cases hshut
    · rename_i hopen
      constructor
      · intro h
        obtain ⟨⟨item, i'⟩, hmem, heq⟩ := List.mem_map.1 h
        obtain ⟨rfl, rfl⟩ := Row.item.inj heq
        obtain ⟨hmem, hshows⟩ := List.mem_filter.1 hmem
        exact ⟨rfl, Bool.eq_false_iff.2 hopen, item, mem_zipIdx_iff.1 hmem, hshows⟩
      · rintro ⟨rfl, -, item, hat, hshows⟩
        exact List.mem_map.2 ⟨(item, i), List.mem_filter.2 ⟨mem_zipIdx_iff.2 hat, hshows⟩, rfl⟩
  rw [mem_flatten (fun h => by cases h)]
  constructor
  · rintro ⟨⟨group, g'⟩, hmem, hlisted, h | h⟩
    · cases h
    · obtain ⟨rfl, hopen, hshown⟩ := (hitem group g').1 h
      exact ⟨group, mem_zipIdx_iff.1 hmem, hlisted, hopen, hshown⟩
  · rintro ⟨group, hgroup, hlisted, hopen, hshown⟩
    exact ⟨(group, g), mem_zipIdx_iff.2 hgroup, hlisted, .inr ((hitem group g).2 ⟨rfl, hopen, hshown⟩)⟩

end

/-- **The caption comes first** exactly when the first group that is listed is a generated one. -/
theorem head?_flatten :
    (s.flatten curated false groups).head? = some .separator ↔
      ∃ x, groups.find? (fun x => s.listed x.1) = some x ∧ curated ≤ x.2 := by
  induction groups with
  | nil => simp [flatten]
  | cons x groups ih =>
      obtain ⟨group, g⟩ := x
      rw [flatten]
      split
      · rename_i hlisted
        rw [List.find?_cons_of_pos (p := fun x : NavGroup × ℕ => s.listed x.1) hlisted]
        split
        · rename_i hcaption
          exact iff_of_true rfl ⟨_, rfl, hcaption.1⟩
        · rename_i hcaption
          refine iff_of_false (fun h => by cases h) ?_
          rintro ⟨x, hx, hgenerated⟩
          obtain rfl := Option.some.inj hx
          exact hcaption ⟨hgenerated, rfl⟩
      · rename_i hlisted
        rw [List.find?_cons_of_neg (p := fun x : NavGroup × ℕ => s.listed x.1) hlisted, ih]

/-! ### The caption stepped over -/

/-- Rows with one caption at most, and a row that is none behind it. -/
structure Captioned (rows : List Row) : Prop where
  next : ∀ i : ℕ, rows[i]? = some Row.separator → ∃ row, rows[i + 1]? = some row
  once : ∀ i j : ℕ, rows[i]? = some Row.separator → rows[j]? = some Row.separator → i = j

theorem captioned_flatten (s : Sidebar) (curated : ℕ) (groups : List (NavGroup × ℕ)) :
    Captioned (s.flatten curated false groups) := by
  obtain ⟨before, hbefore, h | ⟨g, after, hafter, h⟩⟩ := flatten_cases s curated groups
  · have hnone : ∀ i : ℕ, (s.flatten curated false groups)[i]? ≠ some Row.separator := by
      intro i hi
      rw [h] at hi
      exact hbefore (List.mem_of_getElem? hi)
    exact ⟨fun i hi => absurd hi (hnone i), fun i j hi => absurd hi (hnone i)⟩
  · have hat : ∀ i : ℕ, (s.flatten curated false groups)[i]? = some Row.separator → i = before.length := by
      intro i hi
      rw [h] at hi
      rcases Nat.lt_trichotomy i before.length with hlt | heq | hgt
      · rw [List.getElem?_append_left hlt] at hi
        exact absurd (List.mem_of_getElem? hi) hbefore
      · exact heq
      · obtain ⟨k, rfl⟩ := Nat.exists_eq_add_of_lt hgt
        rw [List.getElem?_append_right (by omega), show before.length + k + 1 - before.length = k + 1 by omega,
          List.getElem?_cons_succ] at hi
        rcases List.mem_cons.1 (List.mem_of_getElem? hi) with hi | hi
        · cases hi
        · exact absurd hi hafter
    refine ⟨fun i hi => ⟨.group g, ?_⟩, fun i j hi hj => (hat i hi).trans (hat j hj).symm⟩
    rw [hat i hi, h, List.getElem?_append_right (by omega), show before.length + 1 - before.length = 1 by omega]
    rfl

/-- **The caption is stepped over**: from any row the cursor comes to one that is none. -/
theorem Captioned.pastSeparator {rows : List Row} (h : Captioned rows) {index : ℕ} (hindex : index < rows.length)
    (down : Bool) : ∃ row, rows[pastSeparator rows index down]? = some row ∧ row ≠ .separator := by
  have hrow : ∀ i, i < rows.length → rows[i]? ≠ some .separator → ∃ row, rows[i]? = some row ∧ row ≠ .separator := by
    intro i hi hne
    exact ⟨rows[i], List.getElem?_eq_getElem hi, fun heq => hne (by rw [List.getElem?_eq_getElem hi, heq])⟩
  rw [Sidebar.pastSeparator]
  split
  · exact hrow index hindex ‹_›
  · rename_i hcaption
    have hcaption : rows[index]? = some .separator := not_not.1 hcaption
    obtain ⟨row, hnext⟩ := h.next index hcaption
    have hlt : index + 1 < rows.length := (List.getElem?_eq_some_iff.1 hnext).1
    have hforward : min (index + 1) (rows.length - 1) = index + 1 := Nat.min_eq_left (by omega)
    have hdown : rows[index + 1]? ≠ some .separator := fun hsep => by
      have := h.once _ _ hsep hcaption
      omega
    simp only [hforward]
    cases down with
    | true =>
        simp only [if_true]
        rw [if_pos hdown]
        exact hrow _ hlt hdown
    | false =>
        simp only [Bool.false_eq_true, if_false]
        split
        · exact hrow _ (by omega) ‹_›
        · exact hrow _ hlt hdown

end Sidebar

end Nutsh
