/-
The cursor of the menu.

The caption is no place to stand.  What moves the cursor steps over it or finds a header or an item by search,
except where it goes to the first row: after an edit of the filter, and when the group it looks for is not
listed.  The first row is the caption when the first group that is listed is a generated one.

Main definitions:

* `Synced`, `OnRow` — the rows are those of the menu, and the cursor is on one that is not the caption;
* `Keeps`, `Tracks` — a change of what is hidden leaves the cursor on its row, and an event on a row;
* `Generated`, `Lists`, `Clear` — when the caption comes first, and the events after which it does not matter.

Main results:

* `onRow_refresh` — rows made anew have the cursor on one of them;
* `keeps_setHidden` — the cursor stays on its row when other things are hidden;
* `exists_step` — every event leads somewhere, and to a row exactly when it is clear;
* `tracks_iff_clear` — **so it is in every run**.
-/
import Nutsh.Lib.Run
import Nutsh.Sidebar

set_option relaxedAutoImplicit false
set_option autoImplicit false

namespace Nutsh

open Palette (Key NavGroup NavItem)

namespace Sidebar

variable (curated : ℕ) (nav : List NavGroup)

/-- The rows are those of the menu as it is. -/
def Synced (s : Sidebar) : Prop := s.rows = s.flatten curated false nav.zipIdx

/-- The cursor is on a row that is not the caption, whenever there are rows. -/
def OnRow (s : Sidebar) : Prop := s.rows ≠ [] → ∃ row, s.rows[s.selected]? = some row ∧ row ≠ .separator

/-- The row that was under the cursor still is, if it is still listed. -/
def Keeps (s t : Sidebar) : Prop :=
  ∀ row, s.rows[s.selected]? = some row → row ∈ t.rows → t.rows[t.selected]? = some row

/-- What an event leads to has the cursor on a row, and what is hidden changes under it. -/
def Tracks (s : Sidebar) (e : Event) : Prop :=
  ∀ t, step curated nav s e = some t → t.OnRow ∧ ∀ hidden, e = .setHidden hidden → s.Keeps t

/-- The first group that is listed is a generated one. -/
def Generated (s : Sidebar) : Prop :=
  ∃ x, nav.zipIdx.find? (fun x => s.listed x.1) = some x ∧ curated ≤ x.2

/-- A group of the menu is listed. -/
def Lists (s : Sidebar) (g : ℕ) : Prop := ∃ group, nav[g]? = some group ∧ s.listed group = true

/-- An edit of the filter leaves a curated group first; and where the group is not listed that a digit goes to,
or that the cursor was in before other things were hidden, a curated group comes first as well. -/
def Clear (s : Sidebar) : Event → Prop
  | .key (.char c) => s.filtering = true → ¬ Generated curated nav { s with filter := s.filter.push c }
  | .key .backspace =>
      s.filtering = true → ¬ Generated curated nav { s with filter := String.ofList s.filter.toList.dropLast }
  | .jump digit => Lists nav s (jumpsTo curated digit) ∨ ¬ Generated curated nav s
  | .setHidden hidden =>
      ∀ g, s.groupAt s.selected = some g →
        Lists nav { s with hidden } g ∨ ¬ Generated curated nav { s with hidden }
  | _ => True

variable {curated nav} {s t : Sidebar}

/-! ### Rows made anew -/

/-- The rows are decided by which groups are listed and with which items. -/
theorem flatten_congr (hlisted : ∀ group, s.listed group = t.listed group)
    (hitems : ∀ group g, s.itemRows group g = t.itemRows group g) (captioned : Bool) (groups : List (NavGroup × ℕ)) :
    s.flatten curated captioned groups = t.flatten curated captioned groups := by
  induction groups generalizing captioned with
  | nil => rfl
  | cons x groups ih => rw [flatten, flatten, hlisted, hitems, ih, ih]

theorem rows_refresh (s : Sidebar) : (refresh curated nav s).rows = s.flatten curated false nav.zipIdx := rfl

/-- What is listed does not depend on the rows or on the cursor. -/
theorem Synced.of_same (h : Synced curated nav s) (hrows : t.rows = s.rows) (hlisted : t.listed = s.listed)
    (hitems : t.itemRows = s.itemRows) : Synced curated nav t := by
  rw [Synced, hrows, h]
  exact flatten_congr (fun group => by rw [hlisted]) (fun group g => by rw [hitems]) false nav.zipIdx

theorem synced_refresh (s : Sidebar) : Synced curated nav (refresh curated nav s) := by
  rw [Synced, rows_refresh]
  exact flatten_congr (s := s) (t := refresh curated nav s) (fun _ => rfl) (fun _ _ => rfl) false nav.zipIdx

theorem Synced.captioned (h : Synced curated nav s) : Captioned s.rows := h ▸ captioned_flatten s curated nav.zipIdx

theorem Captioned.onRow (h : Captioned s.rows) {index : ℕ} (hindex : s.rows ≠ [] → index < s.rows.length)
    (down : Bool) : ({ s with selected := Sidebar.pastSeparator s.rows index down } : Sidebar).OnRow :=
  fun hrows => h.pastSeparator (hindex hrows) down

/-- **Rows made anew have the cursor on one of them.** -/
theorem onRow_refresh (s : Sidebar) : (refresh curated nav s).OnRow := by
  intro hrows
  have hpos : 0 < (refresh curated nav s).rows.length := List.length_pos_of_ne_nil hrows
  exact (synced_refresh s).captioned.pastSeparator (by rw [rows_refresh] at hpos ⊢; omega) false

/-- The first row is the caption exactly when a generated group comes first. -/
theorem onRow_first_iff (h : Synced curated nav s) :
    ({ s with selected := 0 } : Sidebar).OnRow ↔ ¬ Generated curated nav s := by
  have hhead : s.rows.head? = some .separator ↔ Generated curated nav s := by
    rw [h]
    exact head?_flatten
  rw [← hhead, OnRow, List.head?_eq_getElem?]
  constructor
  · intro hrow hcaption
    obtain ⟨row, hat, hne⟩ := hrow (fun hnone => by rw [hnone] at hcaption; cases hcaption)
    exact hne (Option.some.inj (hat.symm.trans hcaption))
  · intro hcaption hrows
    have hpos : 0 < s.rows.length := List.length_pos_of_ne_nil hrows
    refine ⟨s.rows[0], List.getElem?_eq_getElem hpos, fun heq => hcaption ?_⟩
    rw [List.getElem?_eq_getElem hpos, heq]

/-! ### Rows found by search -/

theorem getElem?_position {rows : List Row} {row : Row} {i : ℕ} (h : position rows row = some i) :
    rows[i]? = some row := by
  obtain ⟨hi, hrow, -⟩ := List.findIdx?_eq_some_iff_getElem.1 h
  rw [List.getElem?_eq_getElem hi, eq_of_beq hrow]

theorem exists_position {rows : List Row} {row : Row} (h : row ∈ rows) : ∃ i, position rows row = some i := by
  refine Option.isSome_iff_exists.1 ?_
  rw [position, List.findIdx?_isSome, List.any_eq_true]
  exact ⟨row, h, beq_self_eq_true row⟩

theorem position_eq_none {rows : List Row} {row : Row} (h : row ∉ rows) : position rows row = none := by
  rw [position, List.findIdx?_eq_none_iff]
  exact fun x hx => beq_eq_false_iff_ne.2 fun heq => h (heq ▸ hx)

/-- A header that is searched for is where the cursor goes, or else to the first row. -/
theorem onRow_position_iff (h : Synced curated nav s) (g : ℕ) :
    ({ s with selected := (position s.rows (.group g)).getD 0 } : Sidebar).OnRow ↔
      Lists nav s g ∨ ¬ Generated curated nav s := by
  have hlists : .group g ∈ s.rows ↔ Lists nav s g := by
    rw [h]
    exact group_mem_rows
  by_cases hmem : Row.group g ∈ s.rows
  · obtain ⟨i, hi⟩ := exists_position hmem
    rw [hi]
    exact iff_of_true (fun _ => ⟨_, getElem?_position hi, fun heq => by cases heq⟩) (.inl (hlists.1 hmem))
  · rw [position_eq_none hmem, Option.getD_none, onRow_first_iff h]
    exact (or_iff_right fun hlisted => hmem (hlists.2 hlisted)).symm

/-- A row that is searched for is where the cursor goes, or else it stays. -/
theorem OnRow.anchored (h : s.OnRow) {row : Row} (hrow : row ≠ .separator) :
    ({ s with selected := (position s.rows row).getD s.selected } : Sidebar).OnRow := by
  cases hpos : position s.rows row with
  | none => exact h
  | some i => exact fun _ => ⟨row, getElem?_position hpos, hrow⟩

/-- The group of a row is listed. -/
theorem lists_of_groupAt (h : Synced curated nav s) {index g : ℕ} (hg : s.groupAt index = some g) :
    Lists nav s g := by
  rw [groupAt] at hg
  split at hg
  · rename_i group hat
    obtain rfl := Option.some.inj hg
    have hmem := List.mem_of_getElem? hat
    rw [h] at hmem
    exact group_mem_rows.1 hmem
  · rename_i group item hat
    obtain rfl := Option.some.inj hg
    have hmem := List.mem_of_getElem? hat
    rw [h] at hmem
    obtain ⟨group', hgroup, hlisted, -⟩ := item_mem_rows.1 hmem
    exact ⟨group', hgroup, hlisted⟩
  all_goals cases hg

/-! ### What each of the movers does -/

theorem Synced.of_selected (h : Synced curated nav s) (selected : ℕ) : Synced curated nav { s with selected } :=
  h.of_same rfl rfl rfl

/-- What `enter` opens is an item of the menu. -/
theorem exists_openSelected (h : Synced curated nav s) :
    ∃ t a, openSelected curated nav s = some (t, a) ∧ Synced curated nav t ∧ (s.OnRow → t.OnRow) := by
  rw [openSelected]
  split
  · exact ⟨_, _, rfl, synced_refresh _, fun _ => onRow_refresh _⟩
  · rename_i g i hat
    have hmem := List.mem_of_getElem? hat
    rw [h] at hmem
    obtain ⟨group, hgroup, -, -, item, hitem, -⟩ := item_mem_rows.1 hmem
    refine ⟨s, .open item, ?_, h, id⟩
    rw [hgroup, Option.bind_eq_bind, Option.bind_some, hitem, Option.bind_eq_bind, Option.bind_some]
  · exact ⟨s, .ignored, rfl, h, id⟩
  · exact ⟨s, .ignored, rfl, h, id⟩

theorem synced_select (h : Synced curated nav s) (index : ℕ) (carryOn : Bool) :
    Synced curated nav (s.select index carryOn).1 := by
  rw [select]
  split
  · exact h
  · split
    · exact h
    · exact h.of_selected _

theorem onRow_select (h : Synced curated nav s) (hrow : s.OnRow) (index : ℕ) (carryOn : Bool) :
    (s.select index carryOn).1.OnRow := by
  rw [select]
  split
  · exact hrow
  · rename_i hlt
    split
    · exact hrow
    · exact h.captioned.onRow (fun _ => by omega) _

/-- A key takes the cursor to a row. -/
theorem moves_lt (hrow : s.OnRow) {k : Key} {next : ℕ} {down : Bool} (hmoves : s.moves k = some (next, down))
    (hrows : s.rows ≠ []) : next < s.rows.length := by
  obtain ⟨row, hat, -⟩ := hrow hrows
  have hlt : s.selected < s.rows.length := (List.getElem?_eq_some_iff.1 hat).1
  unfold moves at hmoves
  split at hmoves
  all_goals cases hmoves
  all_goals omega

theorem synced_moveKey (h : Synced curated nav s) (k : Key) : Synced curated nav (s.moveKey k).1 := by
  rw [moveKey]
  split
  · exact h.of_selected _
  · exact h

theorem onRow_moveKey (h : Synced curated nav s) (hrow : s.OnRow) (k : Key) : (s.moveKey k).1.OnRow := by
  rw [moveKey]
  split
  · rename_i next down hmoves
    exact h.captioned.onRow (moves_lt hrow hmoves) down
  · exact hrow

theorem synced_fold (h : Synced curated nav s) (shut : Bool) : Synced curated nav (fold curated nav s shut).1 := by
  rw [fold]
  split
  · exact h
  · rename_i group _
    have ht : Synced curated nav (setCollapsed curated nav s group shut) := synced_refresh _
    cases shut with
    | true => exact ht.of_selected _
    | false => exact ht

/-- A group that is folded keeps its header, for its items are not what it is listed by. -/
theorem onRow_fold (h : Synced curated nav s) (hrow : s.OnRow) (shut : Bool) : (fold curated nav s shut).1.OnRow := by
  rw [fold]
  split
  · exact hrow
  · rename_i group hgroup
    have ht : Synced curated nav (setCollapsed curated nav s group shut) := synced_refresh _
    have hlists : Lists nav (setCollapsed curated nav s group shut) group := lists_of_groupAt h hgroup
    cases shut with
    | true => exact (onRow_position_iff ht group).2 (.inl hlists)
    | false => exact onRow_refresh _

theorem synced_reveal (s : Sidebar) (target : NavTarget) : Synced curated nav (reveal curated nav s target) := by
  rw [reveal]
  split
  · exact synced_refresh _
  · exact (synced_refresh _).of_selected _

theorem onRow_reveal (s : Sidebar) (target : NavTarget) : (reveal curated nav s target).OnRow := by
  rw [reveal]
  split
  · exact onRow_refresh _
  · exact (onRow_refresh _).anchored fun heq => by cases heq

/-! ### What is hidden -/

theorem rows_reanchor (s : Sidebar) : (reanchor curated nav s).rows = (refresh curated nav s).rows := by
  rw [reanchor]
  split
  · rfl
  · split
    · rfl
    · split
      · rfl
      · rfl
      · rfl

theorem synced_reanchor (s : Sidebar) : Synced curated nav (reanchor curated nav s) := by
  have ht : Synced curated nav (refresh curated nav s) := synced_refresh s
  rw [reanchor]
  split
  · exact ht
  · split
    · exact ht.of_selected _
    · split
      · exact ht.of_selected _
      · exact ht.of_selected _
      · exact ht

/-- A row that is still listed is found again. -/
theorem getElem?_reanchor {row : Row} (hat : s.rows[s.selected]? = some row)
    (hmem : row ∈ (refresh curated nav s).rows) :
    (reanchor curated nav s).rows[(reanchor curated nav s).selected]? = some row := by
  obtain ⟨i, hi⟩ := exists_position hmem
  have ht : reanchor curated nav s = { refresh curated nav s with selected := i } := by
    rw [reanchor]
    simp only [hat, hi]
  rw [ht]
  exact getElem?_position hi

/-- **The cursor stays on its row when other things are hidden**, if that row is still listed. -/
theorem keeps_setHidden (s : Sidebar) (hidden : List String) : s.Keeps (setHidden curated nav s hidden) := by
  intro row hat hmem
  rw [setHidden, rows_reanchor] at hmem
  exact getElem?_reanchor (s := { s with hidden }) hat hmem

theorem onRow_reanchor_iff (hrow : s.OnRow) :
    (reanchor curated nav s).OnRow ↔
      ∀ g, s.groupAt s.selected = some g → Lists nav s g ∨ ¬ Generated curated nav s := by
  have ht : Synced curated nav (refresh curated nav s) := synced_refresh s
  cases hat : s.rows[s.selected]? with
  | none =>
      have hstay : reanchor curated nav s = refresh curated nav s := by
        rw [reanchor]
        simp only [hat]
      rw [hstay]
      refine iff_of_true (onRow_refresh s) fun g hg => ?_
      rw [groupAt, hat] at hg
      cases hg
  | some row =>
      obtain ⟨row', hat', hne⟩ := hrow fun hnone => by
        rw [hnone] at hat
        cases hat
      obtain rfl : row = row' := Option.some.inj (hat.symm.trans hat')
      by_cases hmem : row ∈ (refresh curated nav s).rows
      · refine iff_of_true (fun _ => ⟨row, getElem?_reanchor hat hmem, hne⟩) fun g hg => .inl ?_
        obtain ⟨i, hi⟩ := List.mem_iff_getElem?.1 hmem
        have hgi : (refresh curated nav s).groupAt i = some g := by
          rw [← hg, groupAt, groupAt, hat, hi]
        exact lists_of_groupAt ht hgi
      · have hlost : position (refresh curated nav s).rows row = none := position_eq_none hmem
        -- both an item and a header that is lost send the cursor to where the header of the group is looked for
        have hheader : ∀ g, (row = .group g ∨ ∃ i, row = .item g i) →
            s.groupAt s.selected = some g ∧ reanchor curated nav s =
              { refresh curated nav s with selected := (position (refresh curated nav s).rows (.group g)).getD 0 } := by
          rintro g (rfl | ⟨i, rfl⟩)
          all_goals
            rw [groupAt, hat, reanchor]
            simp only [hat, hlost, true_and]
        have hiff : ∀ g, (row = .group g ∨ ∃ i, row = .item g i) → ((reanchor curated nav s).OnRow ↔
            ∀ g, s.groupAt s.selected = some g → Lists nav s g ∨ ¬ Generated curated nav s) := by
          intro g hof
          obtain ⟨hg, heq⟩ := hheader g hof
          rw [heq, onRow_position_iff ht g, hg]
          exact ⟨fun h g' hg' => Option.some.inj hg' ▸ h, fun h => h g rfl⟩
        cases row with
        | group g => exact hiff g (.inl rfl)
        | item g i => exact hiff g (.inr ⟨i, rfl⟩)
        | separator => exact absurd rfl hne

/-! ### Every event -/

/-- A key of the filter leads somewhere, and to a row exactly when it is clear. -/
theorem exists_filterKey (h : Synced curated nav s) (hfiltering : s.filtering = true) (k : Key) :
    ∃ t a, filterKey curated nav s k = some (t, a) ∧ Synced curated nav t ∧
      (s.OnRow → (t.OnRow ↔ Clear curated nav s (.key k))) := by
  have htyped : ∀ filter, ({ setFilter curated nav s filter with selected := 0 } : Sidebar).OnRow ↔
      ¬ Generated curated nav { s with filter } := fun _ => onRow_first_iff (synced_refresh _)
  have hmove : filterKey curated nav s k = some (s.moveKey k) → Clear curated nav s (.key k) →
      ∃ t a, filterKey curated nav s k = some (t, a) ∧ Synced curated nav t ∧
        (s.OnRow → (t.OnRow ↔ Clear curated nav s (.key k))) := fun hkey hclear =>
    ⟨_, _, hkey, synced_moveKey h k, fun hrow => iff_of_true (onRow_moveKey h hrow k) hclear⟩
  cases k with
  | char c =>
      exact ⟨_, _, rfl, (synced_refresh _).of_selected 0, fun _ => (htyped _).trans (imp_iff_right hfiltering).symm⟩
  | backspace =>
      exact ⟨_, _, rfl, (synced_refresh _).of_selected 0, fun _ => (htyped _).trans (imp_iff_right hfiltering).symm⟩
  | esc =>
      have ht : Synced curated nav (setFilter curated nav s "") := synced_refresh _
      exact ⟨_, _, rfl, ht.of_same rfl rfl rfl, fun _ => iff_of_true (onRow_refresh _) trivial⟩
  | enter =>
      have hs : Synced curated nav { s with filtering := false } := h.of_same rfl rfl rfl
      obtain ⟨t, a, hopen, ht, hrow⟩ := exists_openSelected hs
      exact ⟨t, a, hopen, ht, fun hs => iff_of_true (hrow hs) trivial⟩
  | _ => exact hmove rfl trivial

/-- A key leads somewhere, and to a row exactly when it is clear. -/
theorem exists_key (h : Synced curated nav s) (k : Key) :
    ∃ t a, key curated nav s k = some (t, a) ∧ Synced curated nav t ∧
      (s.OnRow → (t.OnRow ↔ Clear curated nav s (.key k))) := by
  unfold key
  split
  · exact exists_filterKey h ‹_› k
  · rename_i hnot
    -- outside the filter no key puts the cursor on the first row unseen
    have hclear : Clear curated nav s (.key k) := by
      cases k with
      | char c => exact fun hfiltering => absurd hfiltering hnot
      | backspace => exact fun hfiltering => absurd hfiltering hnot
      | _ => trivial
    split
    · exact ⟨_, _, rfl, h.of_same rfl rfl rfl, fun hrow => iff_of_true hrow hclear⟩
    · exact ⟨_, _, rfl, h, fun hrow => iff_of_true hrow hclear⟩
    · exact ⟨_, _, rfl, h, fun hrow => iff_of_true hrow hclear⟩
    · obtain ⟨t, a, hopen, ht, hkept⟩ := exists_openSelected h
      exact ⟨t, a, hopen, ht, fun hrow => iff_of_true (hkept hrow) hclear⟩
    · exact ⟨_, _, rfl, synced_fold h true, fun hrow => iff_of_true (onRow_fold h hrow true) hclear⟩
    · exact ⟨_, _, rfl, synced_fold h true, fun hrow => iff_of_true (onRow_fold h hrow true) hclear⟩
    · exact ⟨_, _, rfl, synced_fold h false, fun hrow => iff_of_true (onRow_fold h hrow false) hclear⟩
    · exact ⟨_, _, rfl, synced_fold h false, fun hrow => iff_of_true (onRow_fold h hrow false) hclear⟩
    · exact ⟨_, _, rfl, synced_moveKey h k, fun hrow => iff_of_true (onRow_moveKey h hrow k) hclear⟩

/-- Every event leads somewhere, and to a row exactly when it is clear. -/
theorem exists_step (h : Synced curated nav s) (e : Event) :
    ∃ t, step curated nav s e = some t ∧ Synced curated nav t ∧
      (s.OnRow → (t.OnRow ↔ Clear curated nav s e)) := by
  cases e with
  | key k =>
      obtain ⟨t, a, hkey, ht, hiff⟩ := exists_key h k
      exact ⟨t, by rw [step, hkey, Option.map_some], ht, hiff⟩
  | select index carryOn =>
      exact ⟨_, rfl, synced_select h index carryOn, fun hrow => iff_of_true (onRow_select h hrow index carryOn) trivial⟩
  | jump digit => exact ⟨_, rfl, h.of_selected _, fun _ => onRow_position_iff h (jumpsTo curated digit)⟩
  | reveal target => exact ⟨_, rfl, synced_reveal s target, fun _ => iff_of_true (onRow_reveal s target) trivial⟩
  | setHidden hidden =>
      exact ⟨_, rfl, synced_reanchor _, fun hrow => onRow_reanchor_iff (s := { s with hidden }) hrow⟩
  | setFilter filter => exact ⟨_, rfl, synced_refresh _, fun _ => iff_of_true (onRow_refresh _) trivial⟩
  | setCollapsed group collapsed =>
      exact ⟨_, rfl, synced_refresh _, fun _ => iff_of_true (onRow_refresh _) trivial⟩

/-- From a row, what an event leads to is as it is to be exactly when the event is clear. -/
theorem tracks_iff (h : Synced curated nav s) (hrow : s.OnRow) (e : Event) :
    Tracks curated nav s e ↔ Clear curated nav s e := by
  obtain ⟨t, hstep, -, hiff⟩ := exists_step h e
  rw [← hiff hrow, Tracks, hstep]
  simp only [Option.some.injEq, forall_eq']
  refine and_iff_left ?_
  rintro hidden rfl
  obtain rfl := Option.some.inj hstep
  exact keeps_setHidden s hidden

/-- **The cursor of the menu.**  Every run of events leads somewhere.  The cursor is on a row that is not the caption
after every one of them, and on the row it was on whenever what is hidden changes and that row is still listed,
exactly when every event is clear. -/
theorem tracks_iff_clear (curated : ℕ) (nav : List NavGroup) (es : List Event) :
    ∃ t, Run.exec (step curated nav) (default curated nav) es = some t ∧
      (Run.Along (step curated nav) (Tracks curated nav) (default curated nav) es ↔
        Run.Along (step curated nav) (Clear curated nav) (default curated nav) es) ∧
      (Run.Along (step curated nav) (Clear curated nav) (default curated nav) es → t.OnRow) := by
  let I : Sidebar → Prop := fun s => Synced curated nav s ∧ s.OnRow
  have hdefault : I (default curated nav) := ⟨synced_refresh _, onRow_refresh _⟩
  have hsynced : ∀ s e t, Synced curated nav s → step curated nav s e = some t → Synced curated nav t := by
    intro s e t h hstep
    obtain ⟨t', hstep', ht', -⟩ := exists_step h e
    obtain rfl := Option.some.inj (hstep.symm.trans hstep')
    exact ht'
  have henabled : ∀ s e, Synced curated nav s → ∃ t, step curated nav s e = some t ∧ Synced curated nav t := by
    intro s e h
    obtain ⟨t, hstep, ht, -⟩ := exists_step h e
    exact ⟨t, hstep, ht⟩
  have hclear : ∀ s e t, I s → Clear curated nav s e → step curated nav s e = some t → I t := by
    intro s e t h hclear hstep
    exact ⟨hsynced s e t h.1 hstep, ((tracks_iff h.1 h.2 e).2 hclear t hstep).1⟩
  obtain ⟨t, hrun, -⟩ := Run.exists_exec henabled hdefault.1 es
  refine ⟨t, hrun, ?_, fun halong => (Run.exec_inv_along hclear hdefault halong hrun).2⟩
  refine Run.along_iff (I := I) (fun s e t h _ => tracks_iff h.1 h.2 e) ?_ hdefault hrun
  intro s e t h htracks hstep
  exact ⟨hsynced s e t h.1 hstep, (htracks t hstep).1⟩

/-- A curated group and a generated one. -/
def storageGroup : NavGroup :=
  { name := "Compute & Storage", items := [{ label := "VMs", target := .kind "vmm.ahv.config.Vm" }] }
def volumesGroup : NavGroup :=
  { name := "volumes", items := [{ label := "Nvmf Clients", target := .kind "volumes.config.NvmfClient" }] }

/-- **The caption is stood on** where only generated groups have an item that the filter keeps. -/
theorem not_onRow :
    ¬ ∀ (curated : ℕ) (nav : List NavGroup) (es : List Event) (t : Sidebar),
      Run.exec (step curated nav) (default curated nav) es = some t → t.OnRow := by
  intro h
  have hrow := h 1 [storageGroup, volumesGroup] [.key (.char '/'), .key (.char 'n')] _ rfl
  obtain ⟨row, hat, hne⟩ := hrow (by decide)
  exact hne (Option.some.inj (hat.symm.trans (by decide)))

end Sidebar

end Nutsh
