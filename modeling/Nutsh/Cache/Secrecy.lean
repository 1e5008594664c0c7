/-
What the cache tells of the secrets of a store.

A name is learnt of a document that was read, or told by the last run, and the names are handed to the
cache as they are, beside the rows, which are scrubbed.  So two stores that differ in their secrets only
are written alike unless a name that is written was taken from key material; then some other key would
have been written in its place.

Main definitions:

* `Origin` — where a name was learnt;
* `Sourced` — a store whose names were learnt of these origins;
* `Reached` — the stores a session comes to;
* `StoresAlike` — stores that differ in their secrets only;
* `Secret` — nothing of the secrets of a store is written.

Main results:

* `Reached.sourced` — every store that is reached is sourced;
* `write_of_alike` — alike stores with the same names are written alike;
* `secret_iff` — exactly when nothing of the secrets is written.
-/
import Nutsh.Cache.Alike
import Nutsh.Cache.Formats
import Nutsh.Cache.RoundTrip
import Nutsh.Cache.Snapshot

set_option relaxedAutoImplicit false
set_option autoImplicit false

namespace Nutsh.Cache

/-! ### Where names are learnt -/

/-- Where a name was learnt. -/
inductive Origin where
  /-- The last run told it. -/
  | told (name : String)
  /-- A document of a kind was read. -/
  | read (kind : Kind) (raw : Json)

def Origin.name : Origin → String
  | .told name => name
  | .read kind raw => Entity.nameOf kind raw

/-- The name was taken from key material. -/
def Origin.Exposed : Origin → Prop
  | .told _ => False
  | .read kind raw => Cache.Exposed kind raw

/-- Whether an origin speaks of an id. -/
def Origin.Of (id : String) : Origin → Prop
  | .told _ => True
  | .read kind raw => id = Entity.extIdOf kind raw ∧ legibleKind kind = true

/-- An entity as it is read, of a kind whose id and name hide nothing. -/
structure IsRead (e : Entity) : Prop where
  read : e = Entity.new e.kind e.raw e.etag
  legible : legibleKind e.kind = true

/-- The entities a table holds. -/
def entities (t : Table) : List Entity :=
  t.rows.values ++ t.whole.toList ++ (t.staging.map Staging.entities).getD []

/-- A store whose entities were read, and whose names were learnt of these origins. -/
structure Sourced (s : Store) (origins : IndexMap String Origin) : Prop where
  read : ∀ x ∈ s.tables.values, ∀ e ∈ entities x.2, IsRead e
  names : s.names.entries = origins.entries.map fun x => (x.1, x.2.name)
  ids : ∀ x ∈ origins.entries, x.2.Of x.1

/-! ### Stores that differ in secrets -/

structure EntitiesAlike (e e' : Entity) : Prop where
  kind : e.kind = e'.kind
  etag : e.etag = e'.etag
  raw : Alike e.raw e'.raw

structure StagingsAlike (s s' : Staging) : Prop where
  generation : s.generation = s'.generation
  total : s.total = s'.total
  entities : List.Forall₂ EntitiesAlike s.entities s'.entities

/-- Tables that differ in secrets of their entities only. -/
structure TablesAlike (t t' : Table) : Prop where
  rows : List.Forall₂ (fun x y => x.1 = y.1 ∧ EntitiesAlike x.2 y.2) t.rows.entries t'.rows.entries
  whole : Option.Rel EntitiesAlike t.whole t'.whole
  staging : Option.Rel StagingsAlike t.staging t'.staging
  rest : { t with rows := t'.rows, whole := t'.whole, staging := t'.staging } = t'

inductive OriginsAlike : Origin → Origin → Prop
  | told (name : String) : OriginsAlike (.told name) (.told name)
  | read (kind : Kind) {raw raw' : Json} (h : Alike raw raw') : OriginsAlike (.read kind raw) (.read kind raw')

/-- Stores that differ in the secrets of their entities only. -/
structure StoresAlike (s : Store) (origins : IndexMap String Origin) (s' : Store)
    (origins' : IndexMap String Origin) : Prop where
  tables : List.Forall₂ (fun x y => x.1 = y.1 ∧ x.2.1 = y.2.1 ∧ TablesAlike x.2.2 y.2.2)
    s.tables.entries s'.tables.entries
  origins : List.Forall₂ (fun x y => x.1 = y.1 ∧ OriginsAlike x.2 y.2) origins.entries origins'.entries

/-- What is written of a store is what is written of every other one that differs in secrets only. -/
def Secret (b : Build) (session : String) (d : Dir) (filters : List String) (h : Held)
    (origins : IndexMap String Origin) (now : UInt64) : Prop :=
  ∀ (s' : Store) (origins' : IndexMap String Origin), Sourced s' origins' →
    StoresAlike h.store origins s' origins' →
      b.write session d (cacheSnapshot filters { h with store := s' } now) now =
        b.write session d (cacheSnapshot filters h now) now

/-! ### The stores that are reached -/

/-- The entities an update brings. -/
def brought : Update → List Entity
  | .page _ es _ => es
  | .entity _ e => [e]
  | _ => []

/-- A page of a kind that is listed for its names: the rows without an id of their own and those named by
it are left out. -/
def warmed (es : List Entity) : List Entity := es.filter fun e => e.extId != "" && e.name != e.extId

/-- The stores a session comes to, from an empty one. -/
inductive Reached : Store → Prop
  | start : Reached {}
  | update {s : Store} (h : Reached s) (key : TableKey) (now : ℕ) (u : Update)
      (hread : ∀ e ∈ brought u, IsRead e) : Reached (s.apply key now u)
  | told {s : Store} (h : Reached s) (names : List (String × String)) : Reached (s.applyNames names)
  | warm {s : Store} (h : Reached s) (es : List Entity) (hread : ∀ e ∈ es, IsRead e) :
      Reached (s.applyNames ((warmed es).map fun e => (e.extId, e.name)))
  | restore {s : Store} (h : Reached s) (key : TableKey) (rows : List Entity) (total : Option ℕ)
      (writtenAt : ℕ) (hread : ∀ e ∈ rows, IsRead e) : Reached (s.restore key rows total writtenAt).1
  | abandon {s : Store} (h : Reached s) (key : TableKey) : Reached (s.abandon key)

section

variable {κ ν μ : Type} [DecidableEq κ]

theorem put_map (f : μ → ν) (k : κ) (v : μ) (es : List (κ × μ)) :
    IndexMap.put k (f v) (es.map fun x => (x.1, f x.2)) = (IndexMap.put k v es).map fun x => (x.1, f x.2) := by
  induction es with
  | nil => rfl
  | cons e es ih =>
      simp only [List.map_cons, IndexMap.put]
      split
      · rfl
      · rw [ih, List.map_cons]

theorem eq_or_mem_of_mem_insert {m : IndexMap κ ν} {k : κ} {v : ν} {x : κ × ν}
    (h : x ∈ (m.insert k v).entries) : x = (k, v) ∨ x ∈ m.entries := by
  have hget : (m.insert k v).get? x.1 = some x.2 := IndexMap.mem_entries_iff.1 h
  rw [IndexMap.get?_insert] at hget
  split at hget
  · next heq => exact .inl (Prod.ext heq (Option.some.inj hget).symm)
  · exact .inr (IndexMap.mem_entries_iff.2 hget)

theorem eq_or_mem_of_mem_values_insert {m : IndexMap κ ν} {k : κ} {v w : ν}
    (h : w ∈ (m.insert k v).values) : w = v ∨ w ∈ m.values := by
  obtain ⟨x, hx, rfl⟩ := List.mem_map.1 h
  obtain rfl | hmem := eq_or_mem_of_mem_insert hx
  · exact .inl rfl
  · exact .inr (List.mem_map_of_mem hmem)

end

theorem mem_of_mem_index {es : List Entity} {e : Entity} (h : e ∈ (index es).values) : e ∈ es := by
  obtain ⟨x, hx, rfl⟩ := List.mem_map.1 h
  have hget : (index es).get? x.1 = some x.2 := IndexMap.mem_entries_iff.1 hx
  rw [index, IndexMap.get?_ofList] at hget
  obtain ⟨l₁, l₂, heq, -⟩ := List.lookup_eq_some_iff.1 hget
  have hmem : (x.1, x.2) ∈ (((es.filter fun e => e.extId != "").map fun e => (e.extId, e)).reverse) := by
    rw [heq]
    exact List.mem_append_right _ List.mem_cons_self
  obtain ⟨e, he, hx⟩ := List.mem_map.1 (List.mem_reverse.1 hmem)
  rw [← (Prod.mk.inj hx).2]
  exact (List.mem_filter.1 he).1

variable {s : Store} {origins : IndexMap String Origin} {t : Table} {e : Entity}

theorem mem_entities :
    e ∈ entities t ↔ e ∈ t.rows.values ∨ t.whole = some e ∨ ∃ st, t.staging = some st ∧ e ∈ st.entities := by
  rw [entities, List.mem_append, List.mem_append, Option.mem_toList, or_assoc]
  refine or_congr_right (or_congr Iff.rfl ?_)
  cases t.staging with
  | none => simp
  | some st => simp

/-- What an update leaves in a table was there or was brought. -/
theorem mem_entities_apply {now : ℕ} {u : Update} (h : e ∈ entities (t.apply now u)) :
    e ∈ entities t ∨ e ∈ brought u := by
  cases u with
  | started g =>
      rw [Table.apply_started, mem_entities, Table.rows_onStarted, Table.whole_onStarted,
        Table.staging_onStarted] at h
      exact .inl (mem_entities.2 h)
  | page g es total =>
      rw [Table.apply_page, mem_entities, Table.rows_onPage, Table.whole_onPage] at h
      obtain h | h | ⟨st, hst, h⟩ := h
      · exact .inl (mem_entities.2 (.inl h))
      · exact .inl (mem_entities.2 (.inr (.inl h)))
      · rw [Table.onPage] at hst
        split at hst
        · exact .inl (mem_entities.2 (.inr (.inr ⟨st, hst, h⟩)))
        · split at hst
          · exact .inl (mem_entities.2 (.inr (.inr ⟨st, hst, h⟩)))
          · obtain rfl := Option.some.inj hst
            obtain h | h := List.mem_append.1 h
            · cases hf : t.staging.filter fun s => !decide (s.generation < g) with
              | none =>
                  rw [hf] at h
                  cases h
              | some st =>
                  rw [hf] at h
                  exact .inl (mem_entities.2 (.inr (.inr ⟨st, (Option.filter_eq_some_iff.1 hf).1, h⟩)))
            · exact .inr h
  | complete g =>
      rw [Table.apply_complete, mem_entities, Table.whole_onComplete] at h
      refine .inl (mem_entities.2 ?_)
      rw [Table.onComplete] at h
      split at h
      · exact h
      · cases htakes : t.takes g with
        | none =>
            rw [htakes] at h
            exact h
        | some st =>
            rw [htakes] at h
            obtain h | h | ⟨_, hnone, -⟩ := h
            · exact .inr (.inr ⟨st, (Option.filter_eq_some_iff.1 htakes).1, mem_of_mem_index h⟩)
            · exact .inr (.inl h)
            · cases hnone
  | entity g e' =>
      rw [Table.apply_entity, mem_entities, Table.staging_onEntity] at h
      rw [Table.onEntity] at h
      split at h
      · exact .inl (mem_entities.2 h)
      · obtain h | h | h := h
        · obtain rfl | h := eq_or_mem_of_mem_values_insert h
          · exact .inr List.mem_cons_self
          · exact .inl (mem_entities.2 (.inl h))
        · obtain rfl := Option.some.inj h
          exact .inr List.mem_cons_self
        · exact .inl (mem_entities.2 (.inr (.inr h)))
  | error g f =>
      rw [Table.apply_error, mem_entities, Table.rows_onError, Table.whole_onError] at h
      refine .inl (mem_entities.2 (h.imp id (.imp id ?_)))
      rintro ⟨st, hst, hmem⟩
      rw [Table.onError] at hst
      split at hst
      · exact ⟨st, hst, hmem⟩
      · exact ⟨st, (Option.filter_eq_some_iff.1 hst).1, hmem⟩

/-! ### Names and their origins -/

theorem sourced_start : Sourced {} .empty where
  read x hx := by cases hx
  names := rfl
  ids x hx := by cases hx

/-- A name learnt of an origin that speaks of its id. -/
theorem Sourced.learn (h : Sourced s origins) {id : String} {o : Origin} (ho : o.Of id) :
    Sourced { s with names := s.names.insert id o.name } (origins.insert id o) where
  read := h.read
  names := by
    show IndexMap.put id o.name s.names.entries = (IndexMap.put id o origins.entries).map _
    rw [h.names, put_map Origin.name]
  ids x hx := by
    obtain rfl | hmem := eq_or_mem_of_mem_insert hx
    · exact ho
    · exact h.ids x hmem

/-- Names learnt one after the other. -/
theorem Sourced.applyNames (learnt : List (String × Origin)) :
    ∀ {s origins}, Sourced s origins → (∀ x ∈ learnt, x.2.Of x.1) →
      ∃ origins', Sourced (s.applyNames (learnt.map fun x => (x.1, x.2.name))) origins' := by
  induction learnt with
  | nil => exact fun h _ => ⟨_, h⟩
  | cons x learnt ih =>
      intro s origins h hof
      exact ih (h.learn (hof x List.mem_cons_self)) fun y hy => hof y (List.mem_cons_of_mem _ hy)

theorem Sourced.applyTold (h : Sourced s origins) (names : List (String × String)) :
    ∃ origins', Sourced (s.applyNames names) origins' := by
  have hlearnt := h.applyNames (names.map fun x => (x.1, .told x.2)) (by
    intro x hx
    obtain ⟨y, -, rfl⟩ := List.mem_map.1 hx
    exact trivial)
  rw [List.map_map] at hlearnt
  simpa [Function.comp_def, Origin.name] using hlearnt

theorem Sourced.applyRead (h : Sourced s origins) {es : List Entity} (hread : ∀ e ∈ es, IsRead e) :
    ∃ origins', Sourced (s.applyNames (es.map fun e => (e.extId, e.name))) origins' := by
  have hlearnt := h.applyNames (es.map fun e => (e.extId, .read e.kind e.raw)) (by
    intro x hx
    obtain ⟨e, he, rfl⟩ := List.mem_map.1 hx
    exact ⟨congrArg Entity.extId (hread e he).read, (hread e he).legible⟩)
  have hnames : (es.map fun e => (e.extId, Origin.read e.kind e.raw)).map (fun x => (x.1, x.2.name)) =
      es.map fun e => (e.extId, e.name) := by
    rw [List.map_map]
    refine List.map_congr_left fun e he => ?_
    exact congrArg (Prod.mk e.extId) (congrArg Entity.name (hread e he).read).symm
  rwa [hnames] at hlearnt

/-- A table of entities that were read put in place of another. -/
theorem Sourced.setTable (h : Sourced s origins) (key : TableKey) (hread : ∀ e ∈ entities t, IsRead e) :
    Sourced (s.setTable key t) origins where
  read x hx := by
    obtain rfl | hmem := eq_or_mem_of_mem_values_insert hx
    · exact hread
    · exact h.read x hmem
  names := h.names
  ids := h.ids

theorem Sourced.read_table (h : Sourced s origins) (key : TableKey) : ∀ e ∈ entities (s.table key), IsRead e := by
  rw [Store.table]
  cases hget : s.tables.get? key.ident with
  | none =>
      intro e he
      cases he
  | some x => exact h.read x (List.mem_map_of_mem (IndexMap.mem_entries_iff.2 hget))

/-- The names of an update are those of entities that were read. -/
theorem naming_read {now : ℕ} {u : Update} (ht : ∀ e ∈ entities t, IsRead e)
    (hu : ∀ e ∈ brought u, IsRead e) :
    ∃ es : List Entity, (∀ e ∈ es, IsRead e) ∧ t.naming now u = es.map fun e => (e.extId, e.name) := by
  cases u with
  | started g => exact ⟨[], by simp, rfl⟩
  | page g es total => exact ⟨[], by simp, rfl⟩
  | error g f => exact ⟨[], by simp, rfl⟩
  | complete g =>
      rw [Table.naming]
      split
      · exact ⟨[], by simp, rfl⟩
      · split
        · refine ⟨(t.onComplete now g).rows.values, fun e he => ?_, rfl⟩
          have hmem : e ∈ entities (t.apply now (.complete g)) := mem_entities.2 (.inl he)
          exact (mem_entities_apply hmem).elim (ht e) (hu e)
        · exact ⟨[], by simp, rfl⟩
  | entity g e =>
      rw [Table.naming]
      split
      · exact ⟨[], by simp, rfl⟩
      · exact ⟨[e], hu, rfl⟩

/-- Every store that is reached is sourced. -/
theorem Reached.sourced (h : Reached s) : ∃ origins, Sourced s origins := by
  induction h with
  | start => exact ⟨_, sourced_start⟩
  | @update s _ key now u hread ih =>
      obtain ⟨origins, hs⟩ := ih
      have ht := hs.read_table key
      obtain ⟨es, hes, hnaming⟩ := @naming_read _ now u ht hread
      rw [Store.apply, hnaming]
      exact (hs.setTable key fun e he => (mem_entities_apply he).elim (ht e) (hread e)).applyRead hes
  | told _ names ih =>
      obtain ⟨origins, hs⟩ := ih
      exact hs.applyTold names
  | warm _ es hread ih =>
      obtain ⟨origins, hs⟩ := ih
      exact hs.applyRead fun e he => hread e (List.mem_filter.1 he).1
  | @restore s _ key rows total writtenAt hread ih =>
      obtain ⟨origins, hs⟩ := ih
      have ht := hs.read_table key
      have hindex : ∀ e ∈ (index rows).values, IsRead e := fun e he => hread e (mem_of_mem_index he)
      simp only [Store.restore]
      split
      · exact ⟨origins, hs⟩
      · split
        · exact ⟨origins, hs.setTable key ht⟩
        · refine (hs.setTable key fun e he => ?_).applyRead hindex
          obtain he | he := mem_entities.1 he
          · exact hindex e he
          · exact ht e (mem_entities.2 (.inr he))
  | @abandon s _ key ih =>
      obtain ⟨origins, hs⟩ := ih
      rw [Store.abandon]
      split
      · refine ⟨origins, hs.setTable key fun e he => hs.read_table key e (mem_entities.2 ?_)⟩
        obtain he | he | ⟨_, hnone, -⟩ := mem_entities.1 he
        · exact .inl he
        · exact .inr (.inl he)
        · cases hnone
      · exact ⟨origins, hs⟩

/-! ### What is written of alike stores -/

variable {b : Build} {session : String} {d : Dir} {filters : List String} {h : Held} {now : UInt64}
  {s' : Store} {origins' : IndexMap String Origin}

/-- A table put on disk with its entry, one that is too large skipped. -/
def putTable (w : Dir × List TableRecord) (x : String × TableRecord) : Dir × List TableRecord :=
  if MAX_TABLE_BYTES < x.1.utf8ByteSize then w else (w.1.insert x.2.file x.1, w.2 ++ [x.2])

theorem foldl_putTable (ts : List TableSnapshot) (w : Dir × List TableRecord) :
    ts.foldl (b.writeTable session) w = (ts.map (b.entry session)).foldl putTable w := by
  rw [List.foldl_map]
  rfl

/-- A write rests on what the tables are put on disk as, and on the rest of the snapshot but for the names
there is no room for. -/
theorem write_congr {snap snap' : Snapshot}
    (htables : snap.tables.map (b.entry session) = snap'.tables.map (b.entry session))
    (hnames : snap.names.take MAX_NAMES = snap'.names.take MAX_NAMES)
    (hrest : { snap with names := [], tables := [] } = { snap' with names := [], tables := [] }) :
    b.write session d snap now = b.write session d snap' now := by
  have hmeta : ∀ tables, b.metaOf session snap now tables = b.metaOf session snap' now tables := by
    intro tables
    rw [Build.metaOf, Build.metaOf, hnames]
    have hid := congrArg Snapshot.identity hrest
    have hpins := congrArg Snapshot.pins hrest
    have hns := congrArg Snapshot.namespaces hrest
    have hcluster := congrArg Snapshot.cluster hrest
    have hstats := congrArg Snapshot.stats hrest
    have hsample := congrArg Snapshot.sample hrest
    have hcan := congrArg Snapshot.canI hrest
    simp only at hid hpins hns hcluster hstats hsample hcan
    rw [hid, hpins, hns, hcluster, hstats, hsample, hcan]
  rw [Build.write, Build.write, foldl_putTable, foldl_putTable, htables]
  simp only [hmeta]

theorem scrubbed_of_forall₂ {es es' : List (String × Entity)}
    (hrows : List.Forall₂ (fun x y => x.1 = y.1 ∧ EntitiesAlike x.2 y.2) es es') :
    ((es.map Prod.snd).map Entity.raw).map scrub = ((es'.map Prod.snd).map Entity.raw).map scrub := by
  induction hrows with
  | nil => rfl
  | cons hx _ ih =>
      simp only [List.map_cons, List.cons.injEq]
      exact ⟨scrub_of_alike _ hx.2.raw, ih⟩

/-- Alike tables of one key are put on disk as the same. -/
theorem entry_of_alike {t t' : Table} (halike : TablesAlike t t') (key : TableKey) :
    b.entry session (tableSnapshot key t now) = b.entry session (tableSnapshot key t' now) := by
  have htotal : t.total = t'.total := by rw [← halike.rest]
  have hscrub : (t.rows.values.map Entity.raw).map scrub = (t'.rows.values.map Entity.raw).map scrub :=
    scrubbed_of_forall₂ halike.rows
  have hpayload : Build.payload session (tableSnapshot key t now) =
      Build.payload session (tableSnapshot key t' now) := by
    simp only [Build.payload, tableSnapshot, htotal, List.map_take, hscrub]
  rw [Build.entry, Build.entry, hpayload]
  simp only [tableSnapshot, htotal]

theorem isWritten_of_alike {t t' : Table} (halike : TablesAlike t t') (key : TableKey) :
    isWritten filters key t = isWritten filters key t' := by
  have hpoll : t.lastPoll = t'.lastPoll := by rw [← halike.rest]
  have hempty : t.rows.isEmpty = t'.rows.isEmpty := by
    have hlen : t.rows.entries.length = t'.rows.entries.length := halike.rows.length_eq
    rw [IndexMap.isEmpty, IndexMap.isEmpty, Bool.eq_iff_iff, List.isEmpty_iff_length_eq_zero,
      List.isEmpty_iff_length_eq_zero, hlen]
  rw [isWritten, isWritten, hpoll, hempty]

theorem tables_of_forall₂ {xs ys : List (TableKey.Ident × TableKey × Table)}
    (htables : List.Forall₂ (fun x y => x.1 = y.1 ∧ x.2.1 = y.2.1 ∧ TablesAlike x.2.2 y.2.2) xs ys) :
    (((xs.map Prod.snd).filter fun x => isWritten filters x.1 x.2).map fun x =>
        tableSnapshot x.1 x.2 now).map (b.entry session) =
      (((ys.map Prod.snd).filter fun x => isWritten filters x.1 x.2).map fun x =>
        tableSnapshot x.1 x.2 now).map (b.entry session) := by
  induction htables with
  | nil => rfl
  | @cons x y _ _ hxy _ ih =>
      obtain ⟨-, hkey, ht⟩ := hxy
      simp only [List.map_cons, List.filter_cons, hkey, isWritten_of_alike ht]
      split
      · simp only [List.map_cons, hkey, entry_of_alike ht, ih]
      · exact ih

/-- Alike stores with the same names are written alike. -/
theorem write_of_alike (halike : StoresAlike h.store origins s' origins')
    (hnames : s'.names.entries.take MAX_NAMES = h.store.names.entries.take MAX_NAMES) :
    b.write session d (cacheSnapshot filters { h with store := s' } now) now =
      b.write session d (cacheSnapshot filters h now) now :=
  write_congr (tables_of_forall₂ halike.tables).symm hnames rfl

/-- Origins that are alike tell one name, unless it is key material. -/
theorem name_of_alike {id : String} {o o' : Origin} (hof : o.Of id) (halike : OriginsAlike o o')
    (hexp : ¬ o.Exposed) : o.name = o'.name := by
  cases halike with
  | told name => rfl
  | read kind hraw => exact nameOf_of_alike hof.2 hraw hexp

theorem names_of_forall₂ {xs ys : List (String × Origin)}
    (hpairs : List.Forall₂ (fun x y => x.1 = y.1 ∧ OriginsAlike x.2 y.2) xs ys)
    (hof : ∀ x ∈ xs, x.2.Of x.1) (hexp : ∀ x ∈ xs, ¬ x.2.Exposed) :
    xs.map (fun x => (x.1, x.2.name)) = ys.map fun x => (x.1, x.2.name) := by
  induction hpairs with
  | nil => rfl
  | @cons x y _ _ hxy _ ih =>
      rw [List.map_cons, List.map_cons, ← hxy.1,
        name_of_alike (hof x List.mem_cons_self) hxy.2 (hexp x List.mem_cons_self),
        ih (fun z hz => hof z (List.mem_cons_of_mem _ hz)) fun z hz => hexp z (List.mem_cons_of_mem _ hz)]

theorem names_of_alike (hs : Sourced s origins) (hs' : Sourced s' origins')
    (halike : StoresAlike s origins s' origins')
    (hexp : ∀ x ∈ origins.entries.take MAX_NAMES, ¬ x.2.Exposed) :
    s'.names.entries.take MAX_NAMES = s.names.entries.take MAX_NAMES := by
  rw [hs.names, hs'.names, ← List.map_take, ← List.map_take]
  exact (names_of_forall₂ (List.forall₂_take MAX_NAMES halike.origins)
    (fun x hx => hs.ids x (List.mem_of_mem_take hx)) hexp).symm

/-! ### The store with other keys -/

/-- The origin with another key. -/
def blurOrigin : Origin → Origin
  | .told name => .told name
  | .read kind raw => .read kind (blur raw)

theorem originsAlike_blur (o : Origin) : OriginsAlike o (blurOrigin o) := by
  cases o with
  | told name => exact .told name
  | read kind raw => exact .read kind (alike_blur raw)

theorem of_blur {id : String} {o : Origin} (h : o.Of id) : (blurOrigin o).Of id := by
  cases o with
  | told name => exact trivial
  | read kind raw => exact ⟨h.1.trans (extIdOf_of_alike h.2 (alike_blur raw)), h.2⟩

theorem name_blurOrigin {id : String} {o : Origin} (hof : o.Of id) (h : o.Exposed) :
    (blurOrigin o).name ≠ o.name := by
  cases o with
  | told name => exact h.elim
  | read kind raw => exact nameOf_blur hof.2 h

/-- The origins with other keys. -/
def blurOrigins (origins : IndexMap String Origin) : IndexMap String Origin where
  entries := origins.entries.map fun x => (x.1, blurOrigin x.2)
  nodup := by
    rw [List.map_map]
    exact origins.nodup

/-- The store whose names were learnt of the same documents with other keys. -/
def blurNames (s : Store) (origins : IndexMap String Origin) : Store where
  tables := s.tables
  names :=
    { entries := origins.entries.map fun x => (x.1, (blurOrigin x.2).name)
      nodup := by
        rw [List.map_map]
        exact origins.nodup }

theorem Sourced.blur (h : Sourced s origins) : Sourced (blurNames s origins) (blurOrigins origins) where
  read := h.read
  names := by
    rw [blurNames, blurOrigins, List.map_map]
    rfl
  ids x hx := by
    obtain ⟨y, hy, rfl⟩ := List.mem_map.1 hx
    exact of_blur (h.ids y hy)

theorem entitiesAlike_refl (e : Entity) : EntitiesAlike e e := ⟨rfl, rfl, alike_refl e.raw⟩

theorem tablesAlike_refl (t : Table) : TablesAlike t t where
  rows := List.forall₂_same.2 fun _ _ => ⟨rfl, entitiesAlike_refl _⟩
  whole := by
    cases t.whole with
    | none => exact .none
    | some e => exact .some (entitiesAlike_refl e)
  staging := by
    cases t.staging with
    | none => exact .none
    | some st => exact .some ⟨rfl, rfl, List.forall₂_same.2 fun _ _ => entitiesAlike_refl _⟩
  rest := rfl

theorem storesAlike_blur (s : Store) (origins : IndexMap String Origin) :
    StoresAlike s origins (blurNames s origins) (blurOrigins origins) where
  tables := List.forall₂_same.2 fun _ _ => ⟨rfl, rfl, tablesAlike_refl _⟩
  origins := List.forall₂_map_right_iff.2 (List.forall₂_same.2 fun x _ => ⟨rfl, originsAlike_blur x.2⟩)

/-! ### When nothing of the secrets is written -/

/-- A write that is not refused leaves the document of `meta.json`. -/
theorem get?_metaName_write {snap : Snapshot} (hnew : ¬ b.Newer d) :
    (b.write session d snap now).get? metaName = some (b.codec.print (b.metaDoc session snap now)) := by
  have hname : isTableFile metaName = false := by decide
  rw [Build.write_eq hnew, IndexMap.get?_keep, hname, Bool.false_and, Bool.not_false, if_pos rfl,
    IndexMap.get?_insert_self]

/-- The names of `meta.json` are those handed over, as many as there is room for. -/
theorem names_readMeta_write {snap : Snapshot} (hnew : ¬ b.Newer d)
    (hmeta : b.ReadsBack (b.metaDoc session snap now)) :
    (b.readMeta (b.write session d snap now)).map Meta.names = some (snap.names.take MAX_NAMES) := by
  rw [Build.readMeta_write hnew hmeta]
  rfl

/-- Nothing of the secrets of a store is written exactly when the directory is one of a newer format,
which is left alone, or none of the names that are written was taken from key material. -/
theorem secret_iff (hs : Sourced h.store origins)
    (hread : ∀ s' origins', Sourced s' origins' → StoresAlike h.store origins s' origins' →
      b.ReadsBack (b.metaDoc session (cacheSnapshot filters { h with store := s' } now) now)) :
    Secret b session d filters h origins now ↔
      b.Newer d ∨ ∀ x ∈ origins.entries.take MAX_NAMES, ¬ x.2.Exposed := by
  constructor
  · intro hsecret
    by_contra hnot
    rw [not_or] at hnot
    obtain ⟨hnew, hexp⟩ := hnot
    push Not at hexp
    obtain ⟨x, hx, hexp⟩ := hexp
    -- the store with other keys is written alike, so it has the same names
    have halike := storesAlike_blur h.store origins
    have hwrite := hsecret _ _ hs.blur halike
    have hrefl : StoresAlike h.store origins h.store origins :=
      ⟨List.forall₂_same.2 fun _ _ => ⟨rfl, rfl, tablesAlike_refl _⟩,
        List.forall₂_same.2 fun x _ => ⟨rfl, by
          cases x.2 with
          | told name => exact .told name
          | read kind raw => exact .read kind (alike_refl raw)⟩⟩
    have hnames := congrArg (fun d => (b.readMeta d).map Meta.names) hwrite
    simp only [names_readMeta_write hnew (hread _ _ hs.blur halike)] at hnames
    rw [names_readMeta_write hnew (hread _ _ hs hrefl), Option.some.injEq] at hnames
    simp only [cacheSnapshot, blurNames, hs.names, ← List.map_take] at hnames
    have hname := congrArg Prod.snd (List.map_inj_left.1 hnames x hx)
    exact name_blurOrigin (hs.ids x (List.mem_of_mem_take hx)) hexp hname
  · rintro (hnew | hexp) s' origins' hs' halike
    · rw [Build.write_of_newer hnew, Build.write_of_newer hnew]
    · exact write_of_alike halike (names_of_alike hs hs' halike hexp)

/-! ### A category -/

def categoryKind : Kind :=
  { id := "prism.config.Category", «namespace» := "prism", display := "Categories",
    listPath := "/prism/v4.0/config/categories" }

def categoryDoc (key : String) : Json := .obj [("extId", .str "1"), ("key", .str key)]

/-- What a session holds that has learnt the name of one document. -/
def heldOf (kind : Kind) (raw : Json) : Held :=
  { identity := ⟨"pc", 9440, "admin", none, none⟩
    store := { names := IndexMap.empty.insert "1" (Entity.nameOf kind raw) } }

def originsOf (kind : Kind) (raw : Json) : IndexMap String Origin :=
  IndexMap.empty.insert "1" (.read kind raw)

theorem sourced_heldOf {kind : Kind} {raw : Json} (hkind : legibleKind kind = true)
    (hid : Entity.extIdOf kind raw = "1") : Sourced (heldOf kind raw).store (originsOf kind raw) :=
  sourced_start.learn (show Origin.Of "1" (.read kind raw) from ⟨hid.symm, hkind⟩)

theorem metaDoc_heldOf (b : Build) (kind : Kind) (raw : Json) :
    b.metaDoc "s" (cacheSnapshot [] (heldOf kind raw) 5) 5 =
      Meta.serde.ser (b.metaOf "s" (cacheSnapshot [] (heldOf kind raw) 5) 5 []) := by
  have hkept : b.kept "s" (cacheSnapshot [] (heldOf kind raw) 5) = [] := by
    have htables : (cacheSnapshot [] (heldOf kind raw) 5).tables = [] := rfl
    simp [Build.kept, htables, Build.withinCap]
  rw [Build.metaDoc, hkept]
  rfl

/-- The document of a machine, and what reads its text. -/
def machineDoc : Json := .obj [("extId", .str "1"), ("name", .str "db"), ("password", .str "hunter2")]

def machineMeta : Json :=
  Meta.serde.ser ((plainBuild fun _ => .error "not asked").metaOf "s"
    (cacheSnapshot [] (heldOf vmKind machineDoc) 5) 5 [])

def machineParse (text : String) : Except String Json :=
  if text = plainPrint machineMeta then .ok machineMeta else .error "not asked"

def machineBuild : Build := plainBuild machineParse

theorem readsBack_machine {v : Json} (h : v = machineMeta) : machineBuild.ReadsBack v := by
  show machineParse (plainPrint v) = .ok v
  rw [machineParse, if_pos (congrArg plainPrint h), h]

theorem secret_machine :
    Secret machineBuild "s" .empty [] (heldOf vmKind machineDoc) (originsOf vmKind machineDoc) 5 := by
  have hexp : ∀ x ∈ (originsOf vmKind machineDoc).entries.take MAX_NAMES, ¬ x.2.Exposed := by
    intro x hx hexp
    have hx' := List.mem_of_mem_take hx
    obtain rfl := List.mem_singleton.1 (show x ∈ [("1", Origin.read vmKind machineDoc)] from hx')
    have hnone := hexp.before "name" (by decide +kernel)
    exact absurd hnone (by decide +kernel)
  have hs := sourced_heldOf (by decide +kernel) (show Entity.extIdOf vmKind machineDoc = "1" from rfl)
  refine (secret_iff hs fun s' origins' hs' halike => ?_).2 (.inr hexp)
  -- an alike store is the same one
  have htables : s'.tables = .empty := IndexMap.ext (List.forall₂_nil_left_iff.1 halike.tables)
  have hlen : s'.names.entries.length = 1 := by
    rw [hs'.names, List.length_map, ← halike.origins.length_eq]
    rfl
  have hnames : s'.names = (heldOf vmKind machineDoc).store.names := by
    have htake := names_of_alike hs hs' halike hexp
    rw [List.take_of_length_le (by rw [hlen]; decide), List.take_of_length_le (by decide)] at htake
    exact IndexMap.ext htake
  obtain ⟨tables, names⟩ := s'
  simp only at htables hnames
  subst htables hnames
  exact readsBack_machine (metaDoc_heldOf machineBuild vmKind machineDoc)

/-- A category whose key reads like key material, and the same one with another key. -/
theorem not_secret : ¬ ∀ (b : Build) (session : String) (d : Dir) (filters : List String) (h : Held)
    (origins : IndexMap String Origin) (now : UInt64), Sourced h.store origins →
      Secret b session d filters h origins now := by
  intro hall
  let b := plainBuild fun _ => .error "not asked"
  have hs : ∀ key, Sourced (heldOf categoryKind (categoryDoc key)).store
      (originsOf categoryKind (categoryDoc key)) :=
    fun key => sourced_heldOf (by decide +kernel) rfl
  have halike : StoresAlike (heldOf categoryKind (categoryDoc "sk-bratislava")).store
      (originsOf categoryKind (categoryDoc "sk-bratislava"))
      (heldOf categoryKind (categoryDoc "sk-presov")).store
      (originsOf categoryKind (categoryDoc "sk-presov")) :=
    ⟨.nil, .cons ⟨rfl, .read _ ⟨rfl, .inr ⟨by decide +kernel, (alike_scalar rfl rfl).2 rfl⟩, rfl,
      .inl ⟨by decide +kernel, by decide +kernel⟩, trivial⟩⟩ .nil⟩
  have hwrite := hall b "s" .empty [] _ _ 5 (hs "sk-bratislava") _ _ (hs "sk-presov") halike
  have hnew : ¬ b.Newer .empty := fun ⟨_, h, _⟩ => by cases h
  have htext : some (plainPrint (b.metaDoc "s"
        (cacheSnapshot [] (heldOf categoryKind (categoryDoc "sk-presov")) 5) 5)) =
      some (plainPrint (b.metaDoc "s"
        (cacheSnapshot [] (heldOf categoryKind (categoryDoc "sk-bratislava")) 5) 5)) :=
    (get?_metaName_write hnew).symm.trans
      ((congrArg (fun d => d.get? metaName) hwrite).trans (get?_metaName_write hnew))
  rw [metaDoc_heldOf, metaDoc_heldOf, Option.some.injEq] at htext
  exact absurd htext (by decide +kernel)

end Nutsh.Cache
