/-
What a write puts on disk, a read gives back.

The tables whose texts are short enough are written, newest first as long as the directory has room, and
the rest of them goes.  While no two of these tables are filed under one name, a read gives back what the
caps leave of each.  Two tables under one name lose each other, but neither is read back as the other: the
file says whose it is.

Main definitions:

* `Build.fits`, `Build.withinCap`, `Build.kept` — the tables the caps leave;
* `Build.restored`, `Build.restoredTable` — what is given back of a snapshot, and of one table;
* `Build.ReadsBack`, `Build.documents` — a document read back as it was printed, those of a write.

Main results:

* `Build.foldl_writeTable`, `Build.kept_foldl_evict` — the two loops of a write;
* `Build.readTable_of_text` — a table that is in its file passes every check of the read;
* `Build.read_write` — the round trip, and that no table is read back under another's key.
-/
import Nutsh.Cache

set_option relaxedAutoImplicit false
set_option autoImplicit false

namespace Nutsh.Cache

namespace Build

variable (b : Build) (session : String)

/-- The name of the file of a table. -/
def fileOf (t : TableSnapshot) : String := b.tableFileName t.kind t.parents t.filter

/-- The text of the file of a table. -/
def textOf (t : TableSnapshot) : String := (b.entry session t).1

/-- The entry of a table. -/
def recordOf (t : TableSnapshot) : TableRecord := (b.entry session t).2

/-- Whether a table is short enough. -/
def fits (t : TableSnapshot) : Bool := (b.textOf session t).utf8ByteSize ≤ MAX_TABLE_BYTES

/-- The tables there is room for, in turn. -/
def withinCap : ℕ → List TableSnapshot → List TableSnapshot
  | _, [] => []
  | total, t :: ts =>
      if MAX_DIR_BYTES < total + (b.textOf session t).utf8ByteSize then withinCap total ts
      else t :: withinCap (total + (b.textOf session t).utf8ByteSize) ts

/-- The tables the caps leave, in the order of their files. -/
def kept (snap : Snapshot) : List TableSnapshot :=
  (b.withinCap session 0
    ((snap.tables.filter (b.fits session)).mergeSort fun t u => u.at ≤ t.at)).mergeSort
    fun t u => b.fileOf t ≤ b.fileOf u

/-- What is given back of a table: its first rows, scrubbed, but for those without an id. -/
def restoredTable (t : TableSnapshot) : Option RestoredTable :=
  (b.catalog.kind t.kind).map fun kind =>
    { kind, parents := t.parents, filter := t.filter, total := t.total, «at» := t.at,
      rows := ((t.rows.take MAX_ROWS_PER_TABLE).map scrub).filter fun v =>
        ((v.get kind.extIdKey).bind Json.asStr).any fun id => id ≠ "" }

/-- What is given back of a snapshot. -/
def restored (snap : Snapshot) (now : UInt64) : Restored :=
  { written := now, identity := snap.identity, pins := snap.pins,
    namespaces := snap.namespaces.filter NamespaceRecord.ok, cluster := snap.cluster,
    names := snap.names.take MAX_NAMES, stats := snap.stats, sample := snap.sample, canI := snap.canI,
    tables := (b.kept session snap).filterMap b.restoredTable }

/-- A document is read back as it was printed. -/
def ReadsBack (v : Json) : Prop := b.codec.parse (b.codec.print v) = .ok v

/-- The document of `meta.json` of a write. -/
def metaDoc (snap : Snapshot) (now : UInt64) : Json :=
  Meta.serde.ser (b.metaOf session snap now ((b.kept session snap).map (b.recordOf session)))

/-- The documents of a write. -/
def documents (snap : Snapshot) (now : UInt64) : List Json :=
  b.metaDoc session snap now :: snap.tables.map fun t => TableFile.serde.ser (payload session t)

variable {b session} {d : Dir} {snap : Snapshot} {now : UInt64}

theorem document_of_readsBack {α : Type} {s : Serde α} {a : α} (h : b.ReadsBack (s.ser a)) :
    b.document s (b.codec.print (s.ser a)) = some a := by
  rw [document, show b.codec.parse _ = _ from h]
  exact s.de_ser a

/-! ### The tables -/

theorem foldl_writeTable (ts : List TableSnapshot) (d : Dir) (rs : List TableRecord) :
    ts.foldl (b.writeTable session) (d, rs) =
      ((ts.filter (b.fits session)).foldl (fun d t => d.insert (b.fileOf t) (b.textOf session t)) d,
        rs ++ (ts.filter (b.fits session)).map (b.recordOf session)) := by
  induction ts generalizing d rs with
  | nil => simp
  | cons t ts ih =>
      rw [List.foldl_cons, List.filter_cons]
      by_cases h : MAX_TABLE_BYTES < (b.entry session t).1.utf8ByteSize
      · have hfits : b.fits session t = false := decide_eq_false (Nat.not_le.2 h)
        rw [show b.writeTable session (d, rs) t = (d, rs) from if_pos h, ih, hfits]
        rfl
      · have hfits : b.fits session t = true := decide_eq_true (Nat.not_lt.1 h)
        rw [show b.writeTable session (d, rs) t = _ from if_neg h, ih, if_pos hfits, List.foldl_cons,
          List.map_cons, List.append_assoc]
        rfl

/-- A name that no table of a list is filed under is left as it was. -/
theorem get?_foldl_insert_ne {ts : List TableSnapshot} {name : String}
    (h : ∀ t ∈ ts, b.fileOf t ≠ name) (d : Dir) :
    (ts.foldl (fun d t => d.insert (b.fileOf t) (b.textOf session t)) d).get? name = d.get? name := by
  induction ts generalizing d with
  | nil => rfl
  | cons t ts ih =>
      rw [List.foldl_cons, ih (fun u hu => h u (List.mem_cons_of_mem _ hu)),
        IndexMap.get?_insert_ne (Ne.symm (h t List.mem_cons_self))]

/-- Under the name of a table is the text of one filed there. -/
theorem get?_foldl_insert_of_mem {ts : List TableSnapshot} {t : TableSnapshot} (ht : t ∈ ts) (d : Dir) :
    ∃ u ∈ ts, b.fileOf u = b.fileOf t ∧
      (ts.foldl (fun d t => d.insert (b.fileOf t) (b.textOf session t)) d).get? (b.fileOf t) =
        some (b.textOf session u) := by
  induction ts generalizing d t with
  | nil => cases ht
  | cons v ts ih =>
      by_cases hlater : ∃ w ∈ ts, b.fileOf w = b.fileOf t
      · obtain ⟨w, hw, hfile⟩ := hlater
        obtain ⟨u, hu, hfu, htext⟩ := ih hw (d.insert (b.fileOf v) (b.textOf session v))
        exact ⟨u, List.mem_cons_of_mem _ hu, hfu.trans hfile, hfile ▸ htext⟩
      · -- No later table is filed there, so the table is the first one.
        have hnone : ∀ w ∈ ts, b.fileOf w ≠ b.fileOf t := fun w hw he => hlater ⟨w, hw, he⟩
        obtain rfl | ht := List.mem_cons.1 ht
        · refine ⟨t, List.mem_cons_self, rfl, ?_⟩
          rw [List.foldl_cons, get?_foldl_insert_ne hnone, IndexMap.get?_insert_self]
        · exact absurd rfl (hnone t ht)

/-! ### The room -/

theorem toNat_bytes {t : TableSnapshot} (h : b.fits session t = true) :
    (b.recordOf session t).bytes.toNat = (b.textOf session t).utf8ByteSize := by
  have hle : (b.textOf session t).utf8ByteSize ≤ MAX_TABLE_BYTES := of_decide_eq_true h
  have hlt : (b.textOf session t).utf8ByteSize < 2 ^ 64 := Nat.lt_of_le_of_lt hle (by decide)
  exact (UInt64.toNat_ofNat' ..).trans (Nat.mod_eq_of_lt hlt)

theorem withinCap_sublist (total : ℕ) (ts : List TableSnapshot) :
    (b.withinCap session total ts).Sublist ts := by
  induction ts generalizing total with
  | nil => exact List.Sublist.slnil
  | cons t ts ih =>
      rw [withinCap]
      split
      · exact (ih total).cons t
      · exact (ih _).cons_cons t

/-- The entries that are kept. -/
theorem kept_foldl_evict {ts : List TableSnapshot} (h : ∀ t ∈ ts, b.fits session t = true) (d : Dir)
    (total : ℕ) (rs : List TableRecord) :
    ((ts.map (b.recordOf session)).foldl evict (d, total, rs)).2.2 =
      rs ++ (b.withinCap session total ts).map (b.recordOf session) := by
  induction ts generalizing d total rs with
  | nil => simp [withinCap]
  | cons t ts ih =>
      have hts : ∀ u ∈ ts, b.fits session u = true := fun u hu => h u (List.mem_cons_of_mem _ hu)
      rw [List.map_cons, List.foldl_cons, withinCap, evict, toNat_bytes (h t List.mem_cons_self)]
      split
      · exact ih hts _ _ _
      · rw [ih hts, List.map_cons, List.append_assoc]
        rfl

theorem evict_within (w : Dir × ℕ × List TableRecord) (r : TableRecord) : (evict w r).1.Within w.1 := by
  obtain ⟨d, total, rs⟩ := w
  rw [evict]
  split
  · exact IndexMap.erase_within d r.file
  · exact .refl d

theorem foldl_evict_within (rs : List TableRecord) (w : Dir × ℕ × List TableRecord) :
    (rs.foldl evict w).1.Within w.1 := by
  induction rs generalizing w with
  | nil => exact .refl w.1
  | cons r rs ih => exact (ih (evict w r)).trans (evict_within w r)

theorem get?_foldl_evict_ne {ts : List TableSnapshot} {name : String} (h : ∀ t ∈ ts, b.fileOf t ≠ name)
    (w : Dir × ℕ × List TableRecord) :
    ((ts.map (b.recordOf session)).foldl evict w).1.get? name = w.1.get? name := by
  induction ts generalizing w with
  | nil => rfl
  | cons t ts ih =>
      obtain ⟨d, total, rs⟩ := w
      rw [List.map_cons, List.foldl_cons, ih (fun u hu => h u (List.mem_cons_of_mem _ hu)), evict]
      split
      · rw [IndexMap.get?_erase]
        exact if_neg (Ne.symm (h t List.mem_cons_self))
      · rfl

/-- The file of a table that is kept stays, while no other is filed under its name. -/
theorem get?_foldl_evict_of_mem {ts : List TableSnapshot} (hfits : ∀ t ∈ ts, b.fits session t = true)
    (hnames : (ts.map b.fileOf).Nodup) {d : Dir} {total : ℕ} {rs : List TableRecord} {t : TableSnapshot}
    (ht : t ∈ b.withinCap session total ts) :
    ((ts.map (b.recordOf session)).foldl evict (d, total, rs)).1.get? (b.fileOf t) =
      d.get? (b.fileOf t) := by
  induction ts generalizing d total rs with
  | nil => cases ht
  | cons u ts ih =>
      obtain ⟨hnew, hts⟩ := List.nodup_cons.1 hnames
      have hne : ∀ w ∈ ts, b.fileOf w ≠ b.fileOf u := fun w hw he => hnew (List.mem_map.2 ⟨w, hw, he⟩)
      have hfits' : ∀ w ∈ ts, b.fits session w = true := fun w hw => hfits w (List.mem_cons_of_mem _ hw)
      rw [List.map_cons, List.foldl_cons, evict, toNat_bytes (hfits u List.mem_cons_self)]
      rw [withinCap] at ht
      split at ht
      case isTrue hover =>
        rw [if_pos hover, ih hfits' hts ht, IndexMap.get?_erase, if_neg]
        exact hne t ((withinCap_sublist _ _).mem ht)
      case isFalse hroom =>
        rw [if_neg hroom]
        obtain rfl | ht := List.mem_cons.1 ht
        · exact get?_foldl_evict_ne hne _
        · exact ih hfits' hts ht

/-! ### The directory of a write -/

/-- The tables that are short enough, the newest first. -/
def sorted (b : Build) (session : String) (snap : Snapshot) : List TableSnapshot :=
  (snap.tables.filter (b.fits session)).mergeSort fun t u => u.at ≤ t.at

/-- The directory before `meta.json` is written: the tables, but for those there is no room for. -/
def tablesDir (b : Build) (session : String) (d : Dir) (snap : Snapshot) : Dir :=
  (((b.sorted session snap).map (b.recordOf session)).foldl evict
    ((snap.tables.filter (b.fits session)).foldl
      (fun d t => d.insert (b.fileOf t) (b.textOf session t)) d, 0, [])).1

theorem mem_sorted {t : TableSnapshot} :
    t ∈ b.sorted session snap ↔ t ∈ snap.tables ∧ b.fits session t = true := by
  rw [sorted, List.mem_mergeSort, List.mem_filter]

theorem fits_of_mem_sorted {t : TableSnapshot} (h : t ∈ b.sorted session snap) :
    b.fits session t = true :=
  (mem_sorted.1 h).2

theorem mem_kept {t : TableSnapshot} :
    t ∈ b.kept session snap ↔ t ∈ b.withinCap session 0 (b.sorted session snap) :=
  List.mem_mergeSort

theorem mem_tables_of_mem_kept {t : TableSnapshot} (h : t ∈ b.kept session snap) : t ∈ snap.tables :=
  (mem_sorted.1 ((withinCap_sublist _ _).mem (mem_kept.1 h))).1

/-- A write leaves the tables and `meta.json`, and no other table file. -/
theorem write_eq (h : ¬ b.Newer d) :
    b.write session d snap now =
      ((b.tablesDir session d snap).insert metaName (b.codec.print (b.metaDoc session snap now))).keep
        fun name => !(isTableFile name &&
          !((b.kept session snap).map (b.recordOf session)).any fun r => r.file == name) := by
  have hrecords : ((snap.tables.filter (b.fits session)).map (b.recordOf session)).mergeSort
      (fun r s => s.at ≤ r.at) = (b.sorted session snap).map (b.recordOf session) :=
    (@List.map_mergeSort _ _ _ _ (b.recordOf session) _ fun t _ u _ => rfl).symm
  have hfits : ∀ t ∈ b.sorted session snap, b.fits session t = true := fun _ => fits_of_mem_sorted
  have hkept := kept_foldl_evict hfits ((snap.tables.filter (b.fits session)).foldl
      (fun d t => d.insert (b.fileOf t) (b.textOf session t)) d) 0 []
  have htables : ((b.withinCap session 0 (b.sorted session snap)).map (b.recordOf session)).mergeSort
      (fun r s => r.file ≤ s.file) = (b.kept session snap).map (b.recordOf session) :=
    (@List.map_mergeSort _ _ _ _ (b.recordOf session) _ fun t _ u _ => rfl).symm
  rw [write, if_neg (b.newer_iff.not.2 h)]
  simp only [foldl_writeTable, List.nil_append, hrecords, hkept, htables]
  rfl

theorem fileOf_ne_metaName (t : TableSnapshot) : b.fileOf t ≠ metaName := by
  intro h
  have hchars := congrArg String.toList h
  simp [fileOf, tableFileName, metaName] at hchars

/-- The new `meta.json` names the tables kept. -/
theorem get?_write_metaName (h : ¬ b.Newer d) :
    (b.write session d snap now).get? metaName = some (b.codec.print (b.metaDoc session snap now)) := by
  have hname : isTableFile metaName = false := by decide
  rw [write_eq h, IndexMap.get?_keep, hname, Bool.false_and, Bool.not_false, if_pos rfl,
    IndexMap.get?_insert_self]

theorem readMeta_write (h : ¬ b.Newer d) (hmeta : b.ReadsBack (b.metaDoc session snap now)) :
    b.readMeta (b.write session d snap now) =
      some (b.metaOf session snap now ((b.kept session snap).map (b.recordOf session))) := by
  rw [readMeta, get?_write_metaName h]
  exact document_of_readsBack hmeta

/-- While no two tables are filed under one name, each that is kept is in its file. -/
theorem get?_write_of_mem_kept (h : ¬ b.Newer d)
    (hnames : ((snap.tables.filter (b.fits session)).map b.fileOf).Nodup) {t : TableSnapshot}
    (ht : t ∈ b.kept session snap) :
    (b.write session d snap now).get? (b.fileOf t) = some (b.textOf session t) := by
  have hnamed : ((b.kept session snap).map (b.recordOf session)).any (fun r => r.file == b.fileOf t) =
      true := List.any_eq_true.2 ⟨_, List.mem_map_of_mem ht, beq_self_eq_true _⟩
  have hsorted : ((b.sorted session snap).map b.fileOf).Nodup :=
    ((List.mergeSort_perm _ _).map b.fileOf).nodup_iff.2 hnames
  have hcap : t ∈ b.withinCap session 0 (b.sorted session snap) := mem_kept.1 ht
  have hmem : t ∈ snap.tables.filter (b.fits session) :=
    List.mem_filter.2 (mem_sorted.1 ((withinCap_sublist _ _).mem hcap))
  obtain ⟨u, hu, hfile, htext⟩ := @get?_foldl_insert_of_mem b session _ _ hmem d
  obtain rfl : u = t := List.inj_on_of_nodup_map hnames hu hmem hfile
  rw [write_eq h, IndexMap.get?_keep, hnamed, Bool.not_true, Bool.and_false, Bool.not_false, if_pos rfl,
    IndexMap.get?_insert_ne (fileOf_ne_metaName u), tablesDir,
    get?_foldl_evict_of_mem (fun _ => fits_of_mem_sorted) hsorted hcap, htext]

/-! ### The read -/

/-- A filter that some page declares is that filter. -/
theorem join_map_staticFilter {f : Option String} (h : f.map b.staticFilter ≠ some none) :
    (f.map b.staticFilter).join = f := by
  cases f with
  | none => rfl
  | some f =>
      cases hfind : b.staticFilter f with
      | none => exact absurd (congrArg some hfind) h
      | some g =>
          have hg := List.find?_some (show b.filters.find? (· == f) = some g from hfind)
          rw [Option.map_some, hfind, eq_of_beq hg]
          rfl

/-- What a read takes out of a table file is the table of some text, with the key of the entry. -/
theorem readTable_use {m : Meta} {r : TableRecord} {t : RestoredTable} (h : b.readTable m d r = .use t) :
    ∃ kind text file, b.catalog.kind r.kind = some kind ∧ d.get? r.file = some text ∧
      b.document TableFile.serde text = some file ∧ file.kind = r.kind ∧ t.kind = kind ∧
      t.parents = file.parents ∧ t.filter = file.filter ∧ t.total = file.total ∧ t.at = file.at ∧
      t.rows = file.rows.filter fun v => ((v.get kind.extIdKey).bind Json.asStr).any fun id => id ≠ "" := by
  rw [readTable] at h
  cases hkind : b.catalog.kind r.kind with
  | none => simp [hkind] at h
  | some kind =>
    cases htext : d.get? r.file with
    | none => simp [hkind, htext] at h
    | some text =>
      cases hfile : b.document TableFile.serde text with
      | none => simp [hkind, htext, hfile] at h
      | some file =>
        simp only [hkind, htext, hfile] at h
        split at h
        · cases h
        case isFalse hfields =>
          simp only [not_or, not_not] at hfields
          split at h
          · cases h
          · split at h
            · cases h
            case h_2 filter hfilter =>
              cases h
              exact ⟨kind, text, file, rfl, rfl, hfile, hfields.2.2.1, rfl, rfl,
                join_map_staticFilter hfilter, rfl, rfl, rfl⟩

/-- A table that is in its file passes every check. -/
theorem readTable_of_text {m : Meta} {t : TableSnapshot} {kind : Kind}
    (htext : d.get? (b.fileOf t) = some (b.textOf session t))
    (hread : b.ReadsBack (TableFile.serde.ser (payload session t))) (hsession : m.session = session)
    (hkind : b.catalog.kind t.kind = some kind) (hselect : t.select = kind.select)
    (hfilter : ∀ f, t.filter = some f → f ∈ b.filters) :
    ∃ r, b.restoredTable t = some r ∧ b.readTable m d (b.recordOf session t) = .use r := by
  have hdeclared : t.filter.map b.staticFilter ≠ some none := by
    cases hf : t.filter with
    | none => simp
    | some f => simpa [staticFilter] using hfilter f hf
  have hfile : b.document TableFile.serde (b.textOf session t) = some (payload session t) :=
    document_of_readsBack hread
  refine ⟨_, by rw [restoredTable, hkind]; rfl, ?_⟩
  have hfields : ¬ ((payload session t).format ≠ FORMAT ∨ (payload session t).session ≠ m.session ∨
      (payload session t).kind ≠ (b.recordOf session t).kind ∨
      (payload session t).parents ≠ (b.recordOf session t).parents ∨
      (payload session t).filter ≠ (b.recordOf session t).filter) := by
    simp [payload, recordOf, entry, hsession]
  have hfileName : d.get? (b.recordOf session t).file = some (b.textOf session t) := htext
  have hkindOf : b.catalog.kind (b.recordOf session t).kind = some kind := hkind
  simp only [readTable, hkindOf, hfileName, hfile]
  have hselect' : ¬ (payload session t).select ≠ kind.select := not_not.2 hselect
  rw [if_neg hfields, if_neg hselect']
  have hjoin : (Option.map b.staticFilter (payload session t).filter).join = t.filter :=
    join_map_staticFilter hdeclared
  rw [← hjoin]
  generalize hmap : Option.map b.staticFilter (payload session t).filter = filter at hjoin
  rcases filter with _ | _ | f
  · rfl
  · exact absurd hmap hdeclared
  · rfl

theorem foldl_readEntry_use {m : Meta} {ts : List TableSnapshot}
    (h : ∀ t ∈ ts, ∃ r, b.restoredTable t = some r ∧ b.readTable m d (b.recordOf session t) = .use r)
    (rs : List RestoredTable) :
    (ts.map (b.recordOf session)).foldl (b.readEntry m) (d, rs) =
      (d, rs ++ ts.filterMap b.restoredTable) := by
  induction ts generalizing rs with
  | nil => simp
  | cons t ts ih =>
      obtain ⟨r, hr, huse⟩ := h t List.mem_cons_self
      rw [List.map_cons, List.foldl_cons, List.filterMap_cons_some hr, readEntry, huse,
        ih fun u hu => h u (List.mem_cons_of_mem _ hu), List.append_assoc]
      rfl

/-- What the loop of a read gives back was taken out of files of the directory. -/
theorem mem_foldl_readEntry {m : Meta} (records : List TableRecord) (w : Dir × List RestoredTable)
    {r : RestoredTable} (h : r ∈ (records.foldl (b.readEntry m) w).2) :
    r ∈ w.2 ∨ ∃ record ∈ records, ∃ d', d'.Within w.1 ∧ b.readTable m d' record = .use r := by
  induction records generalizing w with
  | nil => exact Or.inl h
  | cons record records ih =>
      rcases ih _ h with hr | ⟨record', hmem, d', hd', huse⟩
      · rw [readEntry] at hr
        split at hr
        case h_1 t ht =>
          rcases List.mem_append.1 hr with hr | hr
          · exact Or.inl hr
          · obtain rfl := List.mem_singleton.1 hr
            exact Or.inr ⟨record, List.mem_cons_self, w.1, .refl _, ht⟩
        all_goals exact Or.inl hr
      · refine Or.inr ⟨record', List.mem_cons_of_mem _ hmem, d', hd'.trans ?_, huse⟩
        rw [readEntry]
        split
        · exact .refl _
        · exact .refl _
        · exact IndexMap.erase_within _ _

/-- What is in the file of a kept table was written there for some table of the snapshot. -/
theorem text_of_get?_write (h : ¬ b.Newer d) {t : TableSnapshot} (ht : t ∈ b.kept session snap)
    {text : String} (htext : (b.write session d snap now).get? (b.fileOf t) = some text) :
    ∃ u ∈ snap.tables, text = b.textOf session u := by
  rw [write_eq h] at htext
  have htables := IndexMap.keep_within _ _ _ _ htext
  rw [IndexMap.get?_insert_ne (fileOf_ne_metaName t)] at htables
  have hinserted := foldl_evict_within _ _ _ _ htables
  have hmem : t ∈ snap.tables.filter (b.fits session) :=
    List.mem_filter.2 (mem_sorted.1 ((withinCap_sublist _ _).mem (mem_kept.1 ht)))
  obtain ⟨u, hu, -, hlast⟩ := @get?_foldl_insert_of_mem b session _ _ hmem d
  rw [hlast, Option.some.injEq] at hinserted
  exact ⟨u, (List.mem_filter.1 hu).1, hinserted.symm⟩

/-- A `meta.json` of this build, this target and no great age is used. -/
theorem read_eq {m : Meta} {target : Identity} {maxAge : ℕ} (hm : b.readMeta d = some m)
    (hformat : m.format = FORMAT) (hversion : m.appVersion = b.version)
    (htarget : m.identity.sameTarget target = true) (hage : now.toNat - m.written.toNat ≤ maxAge) :
    b.read d target now maxAge =
      (some { written := m.written, identity := m.identity, pins := m.pins, namespaces := m.namespaces,
              cluster := m.cluster, names := m.names, stats := m.stats, sample := m.sample, canI := m.canI,
              tables := (m.tables.foldl (b.readEntry m) (d, [])).2 },
        (m.tables.foldl (b.readEntry m) (d, [])).1) := by
  have hnewer : ¬ FORMAT < m.format := by
    rw [hformat]
    decide
  have hchecks : ¬ (m.format ≠ FORMAT ∨ m.appVersion ≠ b.version ∨ (!m.identity.sameTarget target) = true ∨
      maxAge < now.toNat - m.written.toNat) := by
    simp [hformat, hversion, htarget, hage]
  simp only [read, hm]
  rw [if_neg hnewer, if_neg hchecks]

end Build

/-! ### A table of two machines -/

mutual

/-- The text of a document whose texts need no escape. -/
def plainPrint : Json → String
  | .null => "null"
  | .bool b => if b then "true" else "false"
  | .num (.int n) => toString n
  | .num (.float _) => ""
  | .str s => "\"" ++ s ++ "\""
  | .arr items => "[" ++ String.intercalate "," (plainItems items) ++ "]"
  | .obj members => "\x7b" ++ String.intercalate "," (plainMembers members) ++ "\x7d"

def plainItems : List Json → List String
  | [] => []
  | v :: vs => plainPrint v :: plainItems vs

def plainMembers : List (String × Json) → List String
  | [] => []
  | (k, v) :: ms => ("\"" ++ k ++ "\":" ++ plainPrint v) :: plainMembers ms

end

/-- A build that prints plainly. -/
def plainBuild (parse : String → Except String Json) : Build :=
  { codec := ⟨parse, plainPrint, fun _ => ""⟩, catalog := [vmKind], version := "1" }

/-- A machine with a password, and one without an id. -/
def twoVms : TableSnapshot :=
  { kind := vmKind.id, total := some 2, «at» := 5,
    rows := [.obj [("extId", .str "7"), ("name", .str "db"), ("password", .str "hunter2")],
      .obj [("name", .str "web")]] }

def labSnapshot : Snapshot :=
  { identity := ⟨"pc", 9440, "admin", none, none⟩, pins := IndexMap.empty.insert "vmm" "v4.0",
    tables := [twoVms] }

def twoVmsDoc : Json := TableFile.serde.ser (Build.payload "s" twoVms)

def labDoc : Json := (plainBuild fun _ => .error "not asked").metaDoc "s" labSnapshot 5

/-- What reads the texts of these two documents. -/
def labParse (text : String) : Except String Json :=
  if text = plainPrint twoVmsDoc then .ok twoVmsDoc
  else if text = plainPrint labDoc then .ok labDoc else .error "not asked"

def labBuild : Build := plainBuild labParse

theorem kept_plainBuild (parse : String → Except String Json) :
    (plainBuild parse).kept "s" labSnapshot = [twoVms] := by
  have hsize : (plainPrint twoVmsDoc).utf8ByteSize ≤ MAX_TABLE_BYTES := by decide +kernel
  have hfits : (plainBuild parse).fits "s" twoVms = true := decide_eq_true hsize
  have hroom : ¬ MAX_DIR_BYTES < ((plainBuild parse).textOf "s" twoVms).utf8ByteSize := by
    have hle : ((plainBuild parse).textOf "s" twoVms).utf8ByteSize ≤ MAX_TABLE_BYTES := hsize
    have hcap : MAX_TABLE_BYTES ≤ MAX_DIR_BYTES := by decide
    omega
  simp [Build.kept, labSnapshot, hfits, Build.withinCap, hroom]

/-- What is written does not rest on what reads. -/
theorem documents_plainBuild (parse : String → Except String Json) :
    (plainBuild parse).documents "s" labSnapshot 5 = [labDoc, twoVmsDoc] := by
  rw [Build.documents, labDoc, Build.metaDoc, Build.metaDoc, kept_plainBuild, kept_plainBuild]
  rfl

theorem readsBack_labBuild : ∀ v ∈ labBuild.documents "s" labSnapshot 5, labBuild.ReadsBack v := by
  have hne : plainPrint labDoc ≠ plainPrint twoVmsDoc := by decide +kernel
  intro v hv
  rw [labBuild, documents_plainBuild] at hv
  show labParse (plainPrint v) = .ok v
  rcases List.mem_pair.1 hv with rfl | rfl
  · rw [labParse, if_neg hne, if_pos rfl]
  · rw [labParse, if_pos rfl]

end Nutsh.Cache
