/-
A search takes each row once, whatever order it reads the tables in.

The tables of the store stand in no order.  A search reads them one after the other, so that what it finds
of a kind is what is first of each id among the hits of all of them.  Which ids are found does not depend
on the order; in which place, and with what beside the name, does as soon as two tables of a kind disagree.

Main definitions:

* `Query.hitsOf` — what the term names of one kind among some rows;
* `Query.EachOnce` — what a search finds is each row the term names, once;
* `Query.Agree` — two tables hold the same hits as far as the shorter goes.

Main results:

* `Query.get?_foldl_look` — what is collected of one kind;
* `Query.eachOnce_across` — each row is found once;
* `Query.across_iff` — a search finds the same in any order of the tables exactly when each two of them
  agree.
-/
import Mathlib.Data.List.Dedup
import Nutsh.Lib.Firsts
import Nutsh.Search

set_option relaxedAutoImplicit false
set_option autoImplicit false

namespace Nutsh

open Firsts (firsts push Comparable)

/-- The hits of all kinds. -/
def Found.hits (f : Found) : List Hit := f.groups.flatMap Group.hits

/-- What tells the hits apart. -/
def Hit.key (h : Hit) : String × String := (h.kind.id, h.extId)

namespace Query

section
variable (lower : String → String) (q : Query)

/-- The hit a row is, none when the term does not name it. -/
def found (e : Entity) : Option Hit := (q.why lower e).map (hit e)

/-- What the term names of one kind among some rows. -/
def hitsOf (id : String) (es : List Entity) : List Hit :=
  (es.filterMap (q.found lower)).filter fun h => h.kind.id == id

/-- The rows of the tables of the session. -/
def rowsOf (s : Store) : List Entity :=
  (s.tables.values.filter fun x => x.1.context.isNone).flatMap fun x => x.2.rows.values

/-- What is found is each row the term names, once. -/
structure EachOnce (s : Store) (f : Found) : Prop where
  once : (f.hits.map Hit.key).Nodup
  named : ∀ key, key ∈ f.hits.map Hit.key ↔
    ∃ x ∈ s.tables.values, x.1.context = none ∧
      ∃ e ∈ x.2.rows.values, q.matches lower e = true ∧ (e.kind.id, e.extId) = key

/-- The hits of a kind in the one table are those in the other, as far as the shorter goes. -/
def Agree (t u : Table) : Prop :=
  ∀ id, Comparable (firsts Hit.extId (q.hitsOf lower id t.rows.values))
    (firsts Hit.extId (q.hitsOf lower id u.rows.values))

end

variable {lower : String → String} {q : Query} {nav : Nav} {id : String} {es : List Entity} {g : Group}

/-! ### One row -/

theorem found_eq_some {e : Entity} {h : Hit} (hfound : q.found lower e = some h) :
    q.matches lower e = true ∧ h.key = (e.kind.id, e.extId) := by
  obtain ⟨reason, hreason, rfl⟩ := Option.map_eq_some_iff.1 hfound
  exact ⟨by rw [«matches», hreason]; rfl, rfl⟩

theorem exists_found {e : Entity} (h : q.matches lower e = true) :
    ∃ x, q.found lower e = some x ∧ x.key = (e.kind.id, e.extId) := by
  obtain ⟨reason, hreason⟩ := Option.isSome_iff_exists.1 h
  exact ⟨hit e reason, by rw [found, hreason]; rfl, rfl⟩

/-- A row that is found is pushed behind the hits of its kind. -/
theorem look_eq (byKind : IndexMap String Group) (e : Entity) :
    q.look lower byKind e = match q.found lower e with
      | none => byKind
      | some h =>
          let group := (byKind.get? h.kind.id).getD { kind := h.kind }
          byKind.insert h.kind.id { group with hits := push Hit.extId group.hits h } := by
  rw [look, found]
  cases q.why lower e with
  | none => rfl
  | some reason =>
      simp only [Option.map_some, push, hit]
      split <;> rfl

/-! ### One kind -/

/-- The group of some hits of a kind, none without hits. -/
def groupOf (hs : List Hit) : Option Group :=
  hs.head?.map fun h => { kind := h.kind, hits := firsts Hit.extId hs }

theorem groupOf_concat (hs : List Hit) (h : Hit) :
    groupOf (hs ++ [h]) =
      some { kind := ((groupOf hs).getD { kind := h.kind }).kind
             hits := push Hit.extId ((groupOf hs).getD { kind := h.kind }).hits h } := by
  cases hs with
  | nil => rfl
  | cons h₀ hs =>
      have hfirsts : firsts Hit.extId (h₀ :: hs ++ [h]) = push Hit.extId (firsts Hit.extId (h₀ :: hs)) h :=
        Firsts.firsts_concat _ _
      exact congrArg (fun hits => some ({ kind := h₀.kind, hits } : Group)) hfirsts

theorem hitsOf_concat_none {e : Entity} (h : q.found lower e = none) :
    q.hitsOf lower id (es ++ [e]) = q.hitsOf lower id es := by
  simp [hitsOf, h]

theorem hitsOf_concat_some {e : Entity} {x : Hit} (h : q.found lower e = some x) :
    q.hitsOf lower id (es ++ [e]) =
      if x.kind.id = id then q.hitsOf lower id es ++ [x] else q.hitsOf lower id es := by
  simp only [hitsOf, List.filterMap_append, List.filterMap_cons, h, List.filterMap_nil, List.filter_append]
  by_cases hid : x.kind.id = id
  · simp [hid]
  · simp [hid]

/-- **What is collected of a kind**: the first hit of each id, under the kind of the very first. -/
theorem get?_foldl_look (es : List Entity) (id : String) :
    (es.foldl (q.look lower) IndexMap.empty).get? id = groupOf (q.hitsOf lower id es) := by
  induction es using List.reverseRecOn with
  | nil => rfl
  | append_singleton es e ih =>
      rw [List.foldl_append, List.foldl_cons, List.foldl_nil, look_eq]
      cases hfound : q.found lower e with
      | none => rw [ih, hitsOf_concat_none hfound]
      | some x =>
          rw [hitsOf_concat_some hfound]
          by_cases hid : x.kind.id = id
          · subst hid
            rw [if_pos rfl, groupOf_concat, IndexMap.get?_insert_self, ih]
          · rw [if_neg hid, IndexMap.get?_insert_ne (Ne.symm hid), ih]

theorem groupOf_hitsOf (h : groupOf (q.hitsOf lower id es) = some g) :
    g.kind.id = id ∧ g.hits = firsts Hit.extId (q.hitsOf lower id es) := by
  obtain ⟨x, hx, rfl⟩ := Option.map_eq_some_iff.1 h
  have hmem := List.mem_of_head? hx
  exact ⟨beq_iff_eq.1 (List.mem_filter.1 hmem).2, rfl⟩

theorem kind_of_mem_hitsOf {x : Hit} (h : x ∈ q.hitsOf lower id es) : x.kind.id = id :=
  beq_iff_eq.1 (List.mem_filter.1 h).2

theorem exists_groupOf (h : q.hitsOf lower id es ≠ []) :
    ∃ g, groupOf (q.hitsOf lower id es) = some g := by
  cases hhits : q.hitsOf lower id es with
  | nil => exact absurd hhits h
  | cons x hs => exact ⟨_, rfl⟩

/-! ### The groups in their order -/

theorem mem_sorted {byKind : IndexMap String Group} :
    g ∈ sorted nav byKind ↔ ∃ id, byKind.get? id = some g := by
  simp only [sorted, List.mem_mergeSort, List.mem_map]
  constructor
  · rintro ⟨e, he, rfl⟩
    exact ⟨e.1, IndexMap.mem_entries_iff.1 he⟩
  · rintro ⟨id, hid⟩
    exact ⟨(id, g), IndexMap.mem_entries_iff.2 hid, rfl⟩

theorem pairwise_byId (es : List (String × Group)) :
    (es.mergeSort fun a b => decide (a.1 ≤ b.1)).Pairwise fun a b => a.1 ≤ b.1 := by
  have hsorted : (es.mergeSort fun a b => decide (a.1 ≤ b.1)).Pairwise fun a b =>
      decide (a.1 ≤ b.1) = true := by
    refine List.pairwise_mergeSort ?_ ?_ es
    · intro a b c hab hbc
      exact decide_eq_true (le_trans (of_decide_eq_true hab) (of_decide_eq_true hbc))
    · intro a b
      simpa using le_total a.1 b.1
  exact hsorted.imp fun hle => of_decide_eq_true hle

/-- The order of the groups depends on what is collected alone. -/
theorem sorted_congr {m n : IndexMap String Group} (h : ∀ id, m.get? id = n.get? id) :
    sorted nav m = sorted nav n := by
  have hperm := IndexMap.entries_perm_of_get? h
  have hsort : (m.entries.mergeSort fun a b => decide (a.1 ≤ b.1)) =
      n.entries.mergeSort fun a b => decide (a.1 ≤ b.1) := by
    refine List.Perm.eq_of_pairwise ?_ (pairwise_byId _) (pairwise_byId _)
      (((List.mergeSort_perm _ _).trans hperm).trans (List.mergeSort_perm _ _).symm)
    -- Two pairs of one key are the same pair.
    intro a b ha hb hab hba
    have hkey : a.1 = b.1 := le_antisymm hab hba
    have ha' := IndexMap.mem_entries_iff.1 (List.mem_mergeSort.1 ha)
    have hb' := IndexMap.mem_entries_iff.1 (List.mem_mergeSort.1 hb)
    rw [h, hkey, hb'] at ha'
    exact Prod.ext hkey (Option.some.inj ha').symm
  rw [sorted, sorted, hsort]

/-- Each kind has one group. -/
theorem nodup_sorted (es : List Entity) :
    ((sorted nav (es.foldl (q.look lower) IndexMap.empty)).map fun g => g.kind.id).Nodup := by
  set m := es.foldl (q.look lower) IndexMap.empty with hm
  have hkeys : (m.entries.map Prod.snd).map (fun g => g.kind.id) = m.keys := by
    rw [List.map_map]
    refine List.map_congr_left fun e he => ?_
    have hget := IndexMap.mem_entries_iff.1 he
    rw [hm, get?_foldl_look] at hget
    exact (groupOf_hitsOf hget).1
  have hperm : (sorted nav m).Perm (m.entries.map Prod.snd) :=
    (List.mergeSort_perm _ _).trans ((List.mergeSort_perm _ _).map Prod.snd)
  refine (hperm.map fun g => g.kind.id).nodup_iff.2 ?_
  rw [hkeys]
  exact m.keys_nodup

/-! ### The whole search -/

variable {catalog : Catalog} {s : Store}

theorem groups_across :
    (q.across lower catalog nav s).groups =
      sorted nav ((rowsOf s).foldl (q.look lower) IndexMap.empty) := by
  rw [across, rowsOf, List.foldl_flatMap]

theorem mem_groups_across :
    g ∈ (q.across lower catalog nav s).groups ↔ ∃ id, groupOf (q.hitsOf lower id (rowsOf s)) = some g := by
  simp only [groups_across, mem_sorted, get?_foldl_look]

theorem mem_rowsOf {e : Entity} :
    e ∈ rowsOf s ↔ ∃ x ∈ s.tables.values, x.1.context = none ∧ e ∈ x.2.rows.values := by
  simp only [rowsOf, List.mem_flatMap, List.mem_filter, Option.isNone_iff_eq_none, and_assoc]

/-- **Each row once.**  Whatever the tables, what is found is each row of the session that the term names,
and each once. -/
theorem eachOnce_across : q.EachOnce lower s (q.across lower catalog nav s) := by
  constructor
  · rw [Found.hits, List.map_flatMap, List.nodup_flatMap]
    constructor
    · intro g hg
      obtain ⟨id, hid⟩ := mem_groups_across.1 hg
      obtain ⟨-, hhits⟩ := groupOf_hitsOf hid
      rw [hhits]
      have hnodup := @Firsts.nodup_firsts _ _ _ Hit.extId (q.hitsOf lower id (rowsOf s))
      have hsnd : ((firsts Hit.extId (q.hitsOf lower id (rowsOf s))).map Hit.key).map Prod.snd =
          (firsts Hit.extId (q.hitsOf lower id (rowsOf s))).map Hit.extId := List.map_map
      exact List.Nodup.of_map Prod.snd (hsnd ▸ hnodup)
    · -- The hits of a group are of its kind, and no two groups are of one kind.
      have hkinds : (q.across lower catalog nav s).groups.Pairwise fun a b => a.kind.id ≠ b.kind.id := by
        rw [groups_across]
        exact List.pairwise_map.1 (nodup_sorted (rowsOf s))
      have hof : ∀ g ∈ (q.across lower catalog nav s).groups, ∀ x ∈ g.hits, x.kind.id = g.kind.id := by
        intro g hg x hx
        obtain ⟨id, hid⟩ := mem_groups_across.1 hg
        obtain ⟨hkind, hhits⟩ := groupOf_hitsOf hid
        rw [hhits] at hx
        rw [hkind]
        exact kind_of_mem_hitsOf (Firsts.firsts_subset _ hx)
      refine (List.Pairwise.and_mem.1 hkinds).imp ?_
      rintro a b ⟨ha, hb, hne⟩ key hkey hkey'
      obtain ⟨x, hx, rfl⟩ := List.mem_map.1 hkey
      obtain ⟨y, hy, hsame⟩ := List.mem_map.1 hkey'
      have hid : y.kind.id = x.kind.id := congrArg Prod.fst hsame
      rw [hof a ha x hx, hof b hb y hy] at hid
      exact hne hid.symm
  · intro key
    constructor
    · intro hkey
      obtain ⟨x, hx, rfl⟩ := List.mem_map.1 hkey
      obtain ⟨g, hg, hx⟩ := List.mem_flatMap.1 hx
      obtain ⟨id, hid⟩ := mem_groups_across.1 hg
      rw [(groupOf_hitsOf hid).2] at hx
      obtain ⟨e, he, hfound⟩ := List.mem_filterMap.1 (List.mem_filter.1 (Firsts.firsts_subset _ hx)).1
      obtain ⟨t, ht, hsession, he⟩ := mem_rowsOf.1 he
      exact ⟨t, ht, hsession, e, he, (found_eq_some hfound).1, (found_eq_some hfound).2.symm⟩
    · rintro ⟨t, ht, hsession, e, he, hmatches, rfl⟩
      obtain ⟨x, hfound, hkey⟩ := exists_found hmatches
      have hmem : x ∈ q.hitsOf lower e.kind.id (rowsOf s) := by
        refine List.mem_filter.2 ⟨List.mem_filterMap.2 ⟨e, mem_rowsOf.2 ⟨t, ht, hsession, he⟩, hfound⟩, ?_⟩
        exact beq_iff_eq.2 (congrArg Prod.fst hkey)
      obtain ⟨g, hg⟩ := exists_groupOf (List.ne_nil_of_mem hmem)
      -- The id is left among the first ones, be it of this row or of another.
      have hid : x.extId ∈ (firsts Hit.extId (q.hitsOf lower e.kind.id (rowsOf s))).map Hit.extId :=
        Firsts.mem_map_firsts.2 (List.mem_map_of_mem hmem)
      obtain ⟨y, hy, hsame⟩ := List.mem_map.1 hid
      have hgroup : g ∈ (q.across lower catalog nav s).groups := mem_groups_across.2 ⟨_, hg⟩
      refine List.mem_map.2 ⟨y, List.mem_flatMap.2 ⟨g, hgroup, ?_⟩, ?_⟩
      · rw [(groupOf_hitsOf hg).2]
        exact hy
      · have hkind := kind_of_mem_hitsOf (Firsts.firsts_subset _ hy)
        have hext : x.extId = e.extId := congrArg Prod.snd hkey
        exact Prod.ext hkind (hsame.trans hext)

/-! ### The order of the tables -/

theorem hitsOf_rowsOf (s : Store) (id : String) :
    q.hitsOf lower id (rowsOf s) =
      (s.tables.entries.filter fun e => e.2.1.context.isNone).flatMap fun e =>
        q.hitsOf lower id e.2.2.rows.values := by
  rw [rowsOf, IndexMap.values, List.filter_map, List.flatMap_map, hitsOf, List.filterMap_flatMap,
    List.filter_flatMap]
  rfl

/-- What is left of the hits of each kind decides what a search finds. -/
theorem across_congr {s' : Store} (hperm : s'.tables.entries.Perm s.tables.entries)
    (h : ∀ id, groupOf (q.hitsOf lower id (rowsOf s')) = groupOf (q.hitsOf lower id (rowsOf s))) :
    q.across lower catalog nav s' = q.across lower catalog nav s := by
  have hgroups : (q.across lower catalog nav s').groups = (q.across lower catalog nav s).groups := by
    rw [groups_across, groups_across]
    refine sorted_congr fun id => ?_
    rw [get?_foldl_look, get?_foldl_look, h]
  have hsearched : (s'.tables.values.filter fun x => x.1.context.isNone).Perm
      (s.tables.values.filter fun x => x.1.context.isNone) := (hperm.map Prod.snd).filter _
  have hloaded : ((s'.tables.values.filter fun x => x.1.context.isNone).map fun x => x.1.kind.id).dedup.length =
      ((s.tables.values.filter fun x => x.1.context.isNone).map fun x => x.1.kind.id).dedup.length :=
    (hsearched.map _).dedup.length_eq
  have hacross : ∀ t : Store, q.across lower catalog nav t =
      { groups := (q.across lower catalog nav t).groups
        loaded := ((t.tables.values.filter fun x => x.1.context.isNone).map fun x =>
          x.1.kind.id).dedup.length
        notLoaded := catalog.length - ((t.tables.values.filter fun x => x.1.context.isNone).map fun x =>
          x.1.kind.id).dedup.length } := fun _ => rfl
  rw [hacross s', hacross s, hgroups, hloaded]

/-- A search that finds the same leaves the same of each kind. -/
theorem firsts_eq_of_across {s' : Store}
    (h : q.across lower catalog nav s' = q.across lower catalog nav s) (id : String) :
    firsts Hit.extId (q.hitsOf lower id (rowsOf s')) = firsts Hit.extId (q.hitsOf lower id (rowsOf s)) := by
  -- A kind with hits has its group in both, and the group is that of the kind.
  have hone : ∀ t t' : Store, q.across lower catalog nav t' = q.across lower catalog nav t →
      q.hitsOf lower id (rowsOf t') ≠ [] →
      firsts Hit.extId (q.hitsOf lower id (rowsOf t')) = firsts Hit.extId (q.hitsOf lower id (rowsOf t)) := by
    intro t t' ht hne
    obtain ⟨g, hg⟩ := exists_groupOf hne
    have hmem : g ∈ (q.across lower catalog nav t').groups := mem_groups_across.2 ⟨id, hg⟩
    rw [ht] at hmem
    obtain ⟨id', hg'⟩ := mem_groups_across.1 hmem
    have hid : id' = id := (groupOf_hitsOf hg').1.symm.trans (groupOf_hitsOf hg).1
    subst hid
    rw [← (groupOf_hitsOf hg).2, ← (groupOf_hitsOf hg').2]
  by_cases hne : q.hitsOf lower id (rowsOf s') = []
  · by_cases hne' : q.hitsOf lower id (rowsOf s) = []
    · rw [hne, hne']
    · exact (hone s' s h.symm hne').symm
  · exact hone s s' h hne

theorem groupOf_congr {hs hs' : List Hit} (h : firsts Hit.extId hs = firsts Hit.extId hs') :
    groupOf hs = groupOf hs' := by
  have hhead : ∀ l : List Hit, l.head? = (firsts Hit.extId l).head? := by
    intro l
    cases l with
    | nil => rfl
    | cons x l =>
        obtain ⟨rest, hrest⟩ := Firsts.prefix_firsts_append (f := Hit.extId) [x] l
        have hsingle : firsts Hit.extId (x :: l) = x :: rest := hrest.symm
        rw [hsingle]
        rfl
  rw [groupOf, groupOf, hhead hs, hhead hs', h]

/-- **A search in any order.**  What is found is each row that the term names, once, and the same in
whatever order the tables stand, exactly when each two tables of the session agree. -/
theorem across_iff (s : Store) :
    (q.EachOnce lower s (q.across lower catalog nav s) ∧
        ∀ s' : Store, s'.tables.entries.Perm s.tables.entries →
          q.across lower catalog nav s' = q.across lower catalog nav s) ↔
      ∀ x ∈ s.tables.values, ∀ y ∈ s.tables.values, x.1.context = none → y.1.context = none →
        q.Agree lower x.2 y.2 := by
  have hvalue : ∀ x, (x ∈ s.tables.values ∧ x.1.context = none) ↔
      ∃ e ∈ s.tables.entries.filter fun e => e.2.1.context.isNone, e.2 = x := by
    intro x
    simp only [IndexMap.values, List.mem_map, List.mem_filter, Option.isNone_iff_eq_none]
    constructor
    · rintro ⟨⟨e, he, rfl⟩, hx⟩
      exact ⟨e, ⟨he, hx⟩, rfl⟩
    · rintro ⟨e, ⟨he, hx⟩, rfl⟩
      exact ⟨⟨e, he, rfl⟩, hx⟩
  constructor
  · rintro ⟨-, horder⟩ x hx y hy hxs hys id
    obtain ⟨e, he, rfl⟩ := (hvalue x).1 ⟨hx, hxs⟩
    obtain ⟨d, hd, rfl⟩ := (hvalue y).1 ⟨hy, hys⟩
    have horders : ∀ us : List (TableKey.Ident × TableKey × Table),
        us.Perm (s.tables.entries.filter fun e => e.2.1.context.isNone) →
        firsts Hit.extId (us.flatMap fun e => q.hitsOf lower id e.2.2.rows.values) =
          firsts Hit.extId ((s.tables.entries.filter fun e => e.2.1.context.isNone).flatMap fun e =>
            q.hitsOf lower id e.2.2.rows.values) := by
      intro us hus
      -- The tables of the session in the order of `us`, and those of the joined contexts behind them.
      have hperm : (us ++ s.tables.entries.filter fun e => !e.2.1.context.isNone).Perm s.tables.entries :=
        (hus.append_right _).trans (List.filter_append_perm _ _)
      let s' : Store := { s with tables := ⟨_, (hperm.map Prod.fst).nodup_iff.2 s.tables.nodup⟩ }
      have hfirsts := firsts_eq_of_across (horder s' hperm) id
      rw [hitsOf_rowsOf, hitsOf_rowsOf] at hfirsts
      have hus' : s'.tables.entries.filter (fun e => e.2.1.context.isNone) = us := by
        show (us ++ s.tables.entries.filter fun e => !e.2.1.context.isNone).filter _ = us
        rw [List.filter_append, List.filter_filter]
        have hall : us.filter (fun e => e.2.1.context.isNone) = us :=
          List.filter_eq_self.2 fun e he => (List.mem_filter.1 (hus.mem_iff.1 he)).2
        rw [hall]
        simp
      rwa [hus'] at hfirsts
    exact Firsts.firsts_flatMap_perm_iff.1 horders e he d hd
  · intro hagree
    refine ⟨eachOnce_across, fun s' hperm => across_congr hperm fun id => groupOf_congr ?_⟩
    rw [hitsOf_rowsOf, hitsOf_rowsOf]
    have hcomparable : ∀ e ∈ s.tables.entries.filter (fun e => e.2.1.context.isNone),
        ∀ d ∈ s.tables.entries.filter (fun e => e.2.1.context.isNone),
          Comparable (firsts Hit.extId (q.hitsOf lower id e.2.2.rows.values))
            (firsts Hit.extId (q.hitsOf lower id d.2.2.rows.values)) := by
      intro e he d hd
      obtain ⟨hx, hxs⟩ := (hvalue e.2).2 ⟨e, he, rfl⟩
      obtain ⟨hy, hys⟩ := (hvalue d.2).2 ⟨d, hd, rfl⟩
      exact hagree e.2 hx d.2 hy hxs hys id
    exact (Firsts.firsts_flatMap_perm (hperm.symm.filter _) hcomparable).symm

/-- Two tables of one kind, each with a row of its own: the hits stand in the order the tables are read. -/
theorem not_across :
    ¬ ∀ (lower : String → String) (catalog : Catalog) (nav : Nav) (q : Query) (s : Store),
      q.EachOnce lower s (q.across lower catalog nav s) ∧
        ∀ s' : Store, s'.tables.entries.Perm s.tables.entries →
          q.across lower catalog nav s' = q.across lower catalog nav s := by
  intro h
  let one (id : String) : Table := { Table.fresh with rows := IndexMap.empty.insert id (vm id id) }
  let first := TableKey.top vmKind
  let second := TableKey.under vmKind ["c"]
  let s : Store :=
    { tables := (IndexMap.empty.insert first.ident (first, one "a")).insert second.ident (second, one "b") }
  let s' : Store :=
    { tables := (IndexMap.empty.insert second.ident (second, one "b")).insert first.ident (first, one "a") }
  have hsame := (h id [] [] {} s).2 s' (List.Perm.swap _ _ _)
  have hids := congrArg (List.map Hit.extId) (firsts_eq_of_across hsame vmKind.id)
  exact absurd hids (by decide)

end Query

end Nutsh
