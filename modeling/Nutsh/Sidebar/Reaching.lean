/-
Everything the menu has is reached by keys.

Whatever is filtered, folded or hidden, the keys that clear the filter, the label of an item, and the keys that walk
down the rows that are left come to the item, for a filter shows what is hidden and opens every group.  With the menu
the generator writes, a kind is opened by keys exactly when it is reached directly.

Main results:

* `exists_walk` — the keys `home` and `down` come to every row but the caption;
* `exists_typed` — the filter after some characters;
* `opens` — every item with a label is opened by keys;
* `opened_iff_direct` — **the kinds that are opened by keys**.
-/
import Nutsh.Generator.Menu
import Nutsh.Sidebar.Standing

set_option relaxedAutoImplicit false
set_option autoImplicit false

namespace Nutsh

open Palette (Key NavGroup NavItem)

namespace Sidebar

variable {curated : ℕ} {nav : List NavGroup} {s : Sidebar}

/-! ### Down the rows -/

theorem pastSeparator_of_ne {rows : List Row} {i : ℕ} (h : rows[i]? ≠ some .separator) (down : Bool) :
    pastSeparator rows i down = i := if_pos h

theorem Captioned.pastSeparator_down {rows : List Row} (h : Captioned rows) {i : ℕ}
    (hi : rows[i]? = some .separator) : Sidebar.pastSeparator rows i true = i + 1 := by
  obtain ⟨row, hnext⟩ := h.next i hi
  have hlt : i + 1 < rows.length := (List.getElem?_eq_some_iff.1 hnext).1
  have hforward : min (i + 1) (rows.length - 1) = i + 1 := Nat.min_eq_left (by omega)
  have hne : rows[i + 1]? ≠ some .separator := fun hsep => by
    have := h.once _ _ hsep hi
    omega
  rw [Sidebar.pastSeparator, if_neg (not_not.2 hi)]
  simp only [hforward, if_true]
  exact if_pos hne

/-- A key while characters go to the filter. -/
theorem key_of_filtering (hfiltering : s.filtering = true) (k : Key) :
    key curated nav s k = filterKey curated nav s k := by
  unfold key
  exact if_pos hfiltering

theorem step_of_filtering (hfiltering : s.filtering = true) (k : Key) :
    step curated nav s (.key k) = (filterKey curated nav s k).map Prod.fst := by
  rw [← key_of_filtering hfiltering]
  rfl

/-- The cursor one row down, while characters go to the filter. -/
theorem step_down (hfiltering : s.filtering = true) :
    step curated nav s (.key .down) =
      some { s with selected := Sidebar.pastSeparator s.rows (min (s.selected + 1) (s.rows.length - 1)) true } := by
  rw [step_of_filtering hfiltering]
  rfl

theorem step_home (hfiltering : s.filtering = true) :
    step curated nav s (.key .home) = some { s with selected := Sidebar.pastSeparator s.rows 0 true } := by
  rw [step_of_filtering hfiltering]
  rfl

/-- **The keys `home` and `down` come to every row** but the caption. -/
theorem exists_walk (curated : ℕ) (nav : List NavGroup) (hrows : Captioned s.rows) (hfiltering : s.filtering = true)
    {i : ℕ} (hi : i < s.rows.length) (hne : s.rows[i]? ≠ some .separator) :
    ∃ n, Run.exec (step curated nav) s (.key .home :: List.replicate n (.key .down)) =
      some { s with selected := i } := by
  -- one more `down`, from a row to the one the cursor comes to next
  have hdown : ∀ n j next, Run.exec (step curated nav) s (.key .home :: List.replicate n (.key .down)) =
      some { s with selected := j } → j + 1 < s.rows.length → Sidebar.pastSeparator s.rows (j + 1) true = next →
        Run.exec (step curated nav) s (.key .home :: List.replicate (n + 1) (.key .down)) =
          some { s with selected := next } := by
    intro n j next hrun hj hnext
    rw [List.replicate_succ', ← List.cons_append, Run.exec_append, hrun, Option.bind_some, Run.exec_cons]
    have hmin : min (j + 1) (s.rows.length - 1) = j + 1 := Nat.min_eq_left (by omega)
    rw [step_down (s := { s with selected := j }) hfiltering, Option.bind_some, Run.exec_nil, hmin, hnext]
  have hhome : ∀ next, Sidebar.pastSeparator s.rows 0 true = next →
      Run.exec (step curated nav) s (.key .home :: List.replicate 0 (.key .down)) =
        some { s with selected := next } := by
    intro next hnext
    rw [Run.exec_cons, step_home hfiltering, hnext]
    rfl
  induction i using Nat.strong_induction_on with
  | _ i ih =>
      cases i with
      | zero => exact ⟨0, hhome 0 (pastSeparator_of_ne hne true)⟩
      | succ j =>
          by_cases hcaption : s.rows[j]? = some .separator
          · -- the caption is between: the row before it, or the first one
            cases j with
            | zero => exact ⟨0, hhome 1 (hrows.pastSeparator_down hcaption)⟩
            | succ j =>
                have hbefore : s.rows[j]? ≠ some .separator := fun hsep => by
                  have := hrows.once _ _ hsep hcaption
                  omega
                obtain ⟨n, hn⟩ := ih j (by omega) (by omega) hbefore
                exact ⟨n + 1, hdown n j _ hn (by omega) (hrows.pastSeparator_down hcaption)⟩
          · obtain ⟨n, hn⟩ := ih j (by omega) (by omega) hcaption
            exact ⟨n + 1, hdown n j _ hn hi (pastSeparator_of_ne hne true)⟩

/-! ### The filter -/

/-- The filter is cleared, and characters go to it. -/
theorem exists_cleared (curated : ℕ) (nav : List NavGroup) (s : Sidebar) :
    ∃ t, Run.exec (step curated nav) s [.key (.char '/'), .key .esc, .key (.char '/')] = some t ∧
      t.filtering = true ∧ t.filter = "" ∧ Synced curated nav t := by
  obtain ⟨u, hu, hfiltering⟩ : ∃ u, step curated nav s (.key (.char '/')) = some u ∧ u.filtering = true := by
    by_cases hfiltering : s.filtering = true
    · rw [step_of_filtering hfiltering]
      exact ⟨_, rfl, hfiltering⟩
    · refine ⟨{ s with filtering := true }, ?_, rfl⟩
      rw [step, key, if_neg hfiltering]
      rfl
  have hesc : step curated nav u (.key .esc) = some { setFilter curated nav u "" with filtering := false } := by
    rw [step_of_filtering hfiltering]
    rfl
  refine ⟨{ setFilter curated nav u "" with filtering := true }, ?_, rfl, rfl, ?_⟩
  · rw [Run.exec_cons, hu, Option.bind_some, Run.exec_cons, hesc]
    rfl
  · exact (synced_refresh { u with filter := "" }).of_same rfl rfl rfl

/-- **Characters go to the filter**, one after the other. -/
theorem exists_typed (cs : List Char) (hs : Synced curated nav s) (hfiltering : s.filtering = true) :
    ∃ t, Run.exec (step curated nav) s (cs.map fun c => .key (.char c)) = some t ∧ t.filtering = true ∧
      t.filter = s.filter ++ String.ofList cs ∧ Synced curated nav t := by
  induction cs generalizing s with
  | nil => exact ⟨s, rfl, hfiltering, by simp, hs⟩
  | cons c cs ih =>
      have hstep : step curated nav s (.key (.char c)) =
          some { setFilter curated nav s (s.filter.push c) with selected := 0 } := by
        rw [step_of_filtering hfiltering]
        rfl
      have hsynced : Synced curated nav { setFilter curated nav s (s.filter.push c) with selected := 0 } :=
        Synced.of_selected (synced_refresh { s with filter := s.filter.push c }) 0
      obtain ⟨t, ht, htfiltering, hfilter, htsynced⟩ := ih hsynced hfiltering
      refine ⟨t, ?_, htfiltering, ?_, htsynced⟩
      · rw [List.map_cons, Run.exec_cons, hstep, Option.bind_some, ht]
      · rw [hfilter]
        refine String.toList_inj.1 ?_
        simp [setFilter, refresh]

/-! ### Items -/

theorem contains_self (s : String) : Text.contains s s = true := by
  have hself : s.toList.isPrefixOf s.toList = true := List.isPrefixOf_iff_prefix.2 List.prefix_rfl
  rw [Text.contains]
  cases hs : s.toList with
  | nil => rfl
  | cons c cs =>
      rw [hs] at hself
      rw [Text.splitOnceList, if_pos hself]
      rfl

theorem needle_ne (h : s.filter ≠ "") : s.needle ≠ "" := by
  intro hnone
  refine h (String.toList_inj.1 ?_)
  have := congrArg String.toList hnone
  simpa [needle, Text.lower] using this

/-- An item whose label is the filter has a row. -/
theorem item_mem_of_filter (hs : Synced curated nav s) {g i : ℕ} {group : NavGroup} {item : NavItem}
    (hgroup : nav[g]? = some group) (hitem : group.items[i]? = some item) (hfilter : s.filter = item.label)
    (hlabel : item.label ≠ "") : .item g i ∈ s.rows := by
  have hneedle : s.needle ≠ "" := needle_ne (hfilter ▸ hlabel)
  have hempty : (s.needle == "") = false := beq_eq_false_iff_ne.2 hneedle
  have hkeeps : s.keeps item = true := by
    rw [keeps, needle, hfilter, contains_self, Bool.or_true]
  have hany : group.items.any s.keeps = true := List.any_eq_true.2 ⟨item, List.mem_of_getElem? hitem, hkeeps⟩
  rw [hs]
  refine item_mem_rows.2 ⟨group, hgroup, ?_, ?_, item, hitem, ?_⟩
  · rw [listed, hempty, hany, Bool.and_false]
    simp
  · rw [shut, hempty, Bool.false_and]
  · rw [shows, hkeeps, hempty, Bool.and_false]
    rfl

theorem enter_of_filtering (hfiltering : s.filtering = true) :
    key curated nav s .enter = openSelected curated nav { s with filtering := false } := key_of_filtering hfiltering _

theorem openSelected_item {g i : ℕ} {group : NavGroup} {item : NavItem} (hat : s.rows[s.selected]? = some (.item g i))
    (hgroup : nav[g]? = some group) (hitem : group.items[i]? = some item) :
    openSelected curated nav s = some (s, .open item) := by
  rw [openSelected, hat]
  simp only [hgroup]
  rw [Option.bind_eq_bind, Option.bind_some, hitem]
  rfl

/-- **Every item with a label is opened by keys**, from every state of the menu, hidden or not. -/
theorem opens (curated : ℕ) (s : Sidebar) {g i : ℕ} {group : NavGroup} {item : NavItem} (hgroup : nav[g]? = some group)
    (hitem : group.items[i]? = some item) (hlabel : item.label ≠ "") :
    ∃ (ks : List Key) (t u : Sidebar), Run.exec (step curated nav) s (ks.map .key) = some t ∧
      key curated nav t .enter = some (u, .open item) := by
  obtain ⟨s₁, hclear, hfiltering₁, hfilter₁, hsynced₁⟩ := exists_cleared curated nav s
  obtain ⟨s₂, htyped, hfiltering₂, hfilter₂, hsynced₂⟩ := exists_typed item.label.toList hsynced₁ hfiltering₁
  have hfilter : s₂.filter = item.label := by
    rw [hfilter₂, hfilter₁]
    exact String.toList_inj.1 (by simp)
  have hmem := item_mem_of_filter hsynced₂ hgroup hitem hfilter hlabel
  obtain ⟨j, hj⟩ := List.getElem?_of_mem hmem
  have hne : s₂.rows[j]? ≠ some .separator := by
    rw [hj]
    exact fun heq => by cases heq
  obtain ⟨n, hwalk⟩ := exists_walk curated nav hsynced₂.captioned hfiltering₂
    (List.getElem?_eq_some_iff.1 hj).1 hne
  refine ⟨[.char '/', .esc, .char '/'] ++ item.label.toList.map .char ++ .home :: List.replicate n .down,
    { s₂ with selected := j }, { s₂ with selected := j, filtering := false }, ?_, ?_⟩
  · rw [List.map_append, List.map_append, Run.exec_append_eq_some]
    refine ⟨s₂, Run.exec_append_eq_some.2 ⟨s₁, hclear, ?_⟩, ?_⟩
    · rw [List.map_map]
      exact htyped
    · rw [List.map_cons, List.map_replicate]
      exact hwalk
  · rw [enter_of_filtering (s := { s₂ with selected := j }) hfiltering₂]
    exact openSelected_item hj hgroup hitem

/-- What is opened is an item of the menu. -/
theorem mem_of_openSelected {t : Sidebar} {item : NavItem} (h : openSelected curated nav s = some (t, .open item)) :
    item ∈ nav.flatMap NavGroup.items := by
  rw [openSelected] at h
  split at h
  · cases h
  · obtain ⟨group, hgroup, h⟩ := Option.bind_eq_some_iff.1 h
    obtain ⟨item', hitem, h⟩ := Option.bind_eq_some_iff.1 h
    cases h
    exact List.mem_flatMap.2 ⟨group, List.mem_of_getElem? hgroup, List.mem_of_getElem? hitem⟩
  all_goals cases h

theorem mem_of_enter {t : Sidebar} {item : NavItem} (h : key curated nav s .enter = some (t, .open item)) :
    item ∈ nav.flatMap NavGroup.items := by
  unfold key at h
  split at h
  · exact mem_of_openSelected h
  · exact mem_of_openSelected h

section

open Generator (GroupModel validate withNamespaceGroups writeNav)

variable {quote : String → String} {groups : List GroupModel} {kinds : List Kind} {pages : List String} {k : Kind}

/-- **The kinds that are opened by keys** are those that are reached directly: from every state of the menu the
generator writes, whatever is filtered, folded or hidden in it. -/
theorem opened_iff_direct (hok : validate quote groups kinds pages = .ok ()) (hids : (kinds.map Kind.id).Nodup)
    (hparent : ∀ k ∈ kinds, ∀ p, k.parent = some p → (Catalog.kind kinds p).isSome = true)
    (hnav : nav = writeNav (withNamespaceGroups groups kinds))
    (hlabels : ∀ group ∈ nav, ∀ item ∈ group.items, item.label ≠ "") (hk : k ∈ kinds) (s : Sidebar) :
    k.reach kinds = .direct ↔
      ∃ (ks : List Key) (t u : Sidebar) (item : NavItem), Run.exec (step curated nav) s (ks.map .key) = some t ∧
        key curated nav t .enter = some (u, .open item) ∧ item.target = .kind k.id := by
  rw [← Generator.kind_mem_targets_iff (Generator.problems_of_validate hok) hids hk (hparent k hk), ← hnav,
    Generator.targets, List.mem_map]
  constructor
  · rintro ⟨item, hitem, htarget⟩
    obtain ⟨group, hgroup, hitem⟩ := List.mem_flatMap.1 hitem
    obtain ⟨g, hg⟩ := List.getElem?_of_mem hgroup
    obtain ⟨i, hi⟩ := List.getElem?_of_mem hitem
    obtain ⟨ks, t, u, hrun, hopen⟩ := opens curated s hg hi (hlabels group hgroup item hitem)
    exact ⟨ks, t, u, item, hrun, hopen, htarget⟩
  · rintro ⟨ks, t, u, item, -, hopen, htarget⟩
    exact ⟨item, mem_of_enter hopen, htarget⟩

/-- The images are opened from the menu of a session that begins. -/
theorem opened_sample :
    ∃ (ks : List Key) (t u : Sidebar) (item : NavItem),
      Run.exec (step 1 (writeNav (withNamespaceGroups Generator.sampleGroups Generator.sample)))
        (default 1 (writeNav (withNamespaceGroups Generator.sampleGroups Generator.sample))) (ks.map .key) = some t ∧
      key 1 (writeNav (withNamespaceGroups Generator.sampleGroups Generator.sample)) t .enter =
        some (u, .open item) ∧ item.target = .kind "image" :=
  (opened_iff_direct Generator.validate_sample Generator.nodup_sample Generator.parent_sample rfl (by decide)
    (List.mem_cons_of_mem _ List.mem_cons_self) _).1 rfl

end

end Sidebar

end Nutsh
