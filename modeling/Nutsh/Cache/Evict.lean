/-
The tables that a write keeps.

The tables are offered to the directory newest first, and each that fits in what is left of its room is kept.  One
that does not fit is evicted, but the older ones behind it are offered nevertheless, and so the tables kept are the
newest ones only as long as none of those fits.

* `Build.bytesOf`, `Build.evicted`, `Build.NewestKept` — the sizes, the tables evicted, and that none of them is
  newer than one that is kept;
* `Build.withinCap_eq_took`, `Build.evicted_get?` — the write fills a room, and the files of the evicted are gone;
* `Build.newestKept_iff` — the tables kept fit the directory, and when they are the newest.
-/
import Nutsh.Cache.RoundTrip
import Nutsh.Lib.Greedy
import Mathlib.Tactic.Linarith

set_option relaxedAutoImplicit false
set_option autoImplicit false

namespace Nutsh.Cache

namespace Build

variable (b : Build) (session : String) (snap : Snapshot)

/-- The size of the file of a table. -/
def bytesOf (t : TableSnapshot) : ℕ := (b.textOf session t).utf8ByteSize

/-- The tables there is no room for. -/
def evicted : List TableSnapshot := Greedy.missed MAX_DIR_BYTES (b.bytesOf session) 0 (b.sorted session snap)

/-- No table that is evicted is newer than one that is kept. -/
def NewestKept : Prop := ∀ t ∈ b.evicted session snap, ∀ u ∈ b.kept session snap, t.at.toNat ≤ u.at.toNat

/-- The bytes of some tables. -/
def bytes (ts : List TableSnapshot) : ℕ := (ts.map (b.bytesOf session)).sum

/-- The bytes that tables take which are at least as new as some time. -/
def bytesSince (time : ℕ) : ℕ :=
  b.bytes session (b.withinCap session 0 ((b.sorted session snap).filter fun t => time ≤ t.at.toNat))

variable {b session snap} {d : Dir} {now : UInt64}

theorem withinCap_eq_took (total : ℕ) (ts : List TableSnapshot) :
    b.withinCap session total ts = Greedy.took MAX_DIR_BYTES (b.bytesOf session) total ts := by
  induction ts generalizing total with
  | nil => rfl
  | cons t ts ih =>
      rw [withinCap, Greedy.took, ih, ih]
      rfl

/-- The file of a table there is no room for is removed. -/
theorem get?_foldl_evict_of_missed {ts : List TableSnapshot} (hfits : ∀ t ∈ ts, b.fits session t = true)
    {t : TableSnapshot} (d : Dir) (total : ℕ) (rs : List TableRecord)
    (ht : t ∈ Greedy.missed MAX_DIR_BYTES (b.bytesOf session) total ts) :
    ((ts.map (b.recordOf session)).foldl evict (d, total, rs)).1.get? (b.fileOf t) = none := by
  induction ts generalizing d total rs with
  | nil => cases ht
  | cons u ts ih =>
      obtain ⟨hu, hfits⟩ := List.forall_mem_cons.1 hfits
      rw [List.map_cons, List.foldl_cons, evict, toNat_bytes hu]
      rw [Greedy.missed] at ht
      split at ht
      case isTrue hover =>
        rw [if_pos (show MAX_DIR_BYTES < total + (b.textOf session u).utf8ByteSize from hover)]
        rcases List.mem_cons.1 ht with rfl | ht
        · -- nothing is put there again
          have hgone : (d.erase (b.recordOf session t).file).get? (b.fileOf t) = none := by
            rw [IndexMap.get?_erase]
            exact if_pos rfl
          refine Option.eq_none_iff_forall_ne_some.2 fun text htext => ?_
          have := foldl_evict_within _ _ _ _ htext
          rw [hgone] at this
          cases this
        · exact ih hfits _ _ _ ht
      case isFalse hroom =>
        rw [if_neg (show ¬ MAX_DIR_BYTES < total + (b.textOf session u).utf8ByteSize from hroom)]
        exact ih hfits _ _ _ ht

/-- The file of an evicted table is not there after the write. -/
theorem evicted_get? (h : ¬ b.Newer d) {t : TableSnapshot} (ht : t ∈ b.evicted session snap) :
    (b.write session d snap now).get? (b.fileOf t) = none := by
  refine Option.eq_none_iff_forall_ne_some.2 fun text htext => ?_
  rw [write_eq h] at htext
  have := IndexMap.keep_within _ _ _ _ htext
  rw [IndexMap.get?_insert_ne (fileOf_ne_metaName t), tablesDir,
    get?_foldl_evict_of_missed (fun _ => fits_of_mem_sorted) _ _ _ ht] at this
  cases this

/-! ### The newest tables -/

theorem sorted_perm (hfits : ∀ t ∈ snap.tables, b.fits session t = true) :
    (b.sorted session snap).Perm snap.tables := by
  rw [sorted, List.filter_eq_self.2 hfits]
  exact List.mergeSort_perm _ _

theorem sorted_pairwise : (b.sorted session snap).Pairwise fun t u => u.at.toNat ≤ t.at.toNat := by
  have htrans (t u v : TableSnapshot) : decide (u.at ≤ t.at) = true → decide (v.at ≤ u.at) = true →
      decide (v.at ≤ t.at) = true := by
    simp only [decide_eq_true_eq, UInt64.le_iff_toNat_le]
    intro htu huv
    exact huv.trans htu
  have htotal (t u : TableSnapshot) : (decide (u.at ≤ t.at) || decide (t.at ≤ u.at)) = true := by
    simp only [Bool.or_eq_true, decide_eq_true_eq, UInt64.le_iff_toNat_le]
    exact Nat.le_total ..
  refine (List.pairwise_mergeSort htrans htotal _).imp fun h => ?_
  exact UInt64.le_iff_toNat_le.1 (of_decide_eq_true h)

theorem bytes_perm {ts us : List TableSnapshot} (h : ts.Perm us) : b.bytes session ts = b.bytes session us :=
  (h.map (b.bytesOf session)).sum_eq

theorem kept_perm : (b.kept session snap).Perm (b.withinCap session 0 (b.sorted session snap)) :=
  List.mergeSort_perm _ _

/-- **The tables kept fit the directory, and are the newest ones** exactly when, for every table, those at least as
new have room together, or no older one has room beside what is taken of them.  While no two tables are of one time,
that is to say that no older one has room beside the tables newer than the first without room. -/
theorem newestKept_iff (h : ¬ b.Newer d) (hfits : ∀ t ∈ snap.tables, b.fits session t = true) :
    (b.write session d snap now).get? metaName = some (b.codec.print (b.metaDoc session snap now)) ∧
    (∀ t ∈ b.evicted session snap, (b.write session d snap now).get? (b.fileOf t) = none) ∧
    (b.kept session snap ++ b.evicted session snap).Perm snap.tables ∧
    b.bytes session (b.kept session snap) ≤ MAX_DIR_BYTES ∧
    (b.NewestKept session snap ↔
      ∀ t ∈ snap.tables, ∀ u ∈ snap.tables, u.at.toNat < t.at.toNat →
        b.bytes session (snap.tables.filter fun v => t.at.toNat ≤ v.at.toNat) ≤ MAX_DIR_BYTES ∨
          MAX_DIR_BYTES < b.bytesSince session snap t.at.toNat + b.bytesOf session u) ∧
    ((snap.tables.map TableSnapshot.at).Nodup →
      (b.NewestKept session snap ↔
        ∀ t ∈ snap.tables, ∀ u ∈ snap.tables, u.at.toNat < t.at.toNat →
          b.bytes session (snap.tables.filter fun v => t.at.toNat < v.at.toNat) ≤ MAX_DIR_BYTES →
            MAX_DIR_BYTES <
                b.bytes session (snap.tables.filter fun v => t.at.toNat < v.at.toNat) + b.bytesOf session t →
              MAX_DIR_BYTES <
                b.bytes session (snap.tables.filter fun v => t.at.toNat < v.at.toNat) + b.bytesOf session u)) := by
  have hperm := sorted_perm hfits
  have hkept := @kept_perm b session snap
  rw [withinCap_eq_took] at hkept
  have hnewest : b.NewestKept session snap ↔
      ∀ t ∈ Greedy.missed MAX_DIR_BYTES (b.bytesOf session) 0 (b.sorted session snap),
        ∀ u ∈ Greedy.took MAX_DIR_BYTES (b.bytesOf session) 0 (b.sorted session snap), t.at.toNat ≤ u.at.toNat :=
    forall₂_congr fun t _ => forall_congr' fun u => by rw [hkept.mem_iff]
  have hsince (p : TableSnapshot → Bool) :
      b.bytes session (snap.tables.filter p) = b.bytes session ((b.sorted session snap).filter p) :=
    bytes_perm (hperm.filter p).symm
  refine ⟨get?_write_metaName h, fun t ht => evicted_get? h ht, ?_, ?_, ?_, fun hdistinct => ?_⟩
  · exact ((hkept.append_right _).trans (Greedy.took_append_missed_perm 0 _)).trans hperm
  · rw [bytes_perm hkept]
    have := @Greedy.sum_took_le _ _ (b.bytesOf session) 0 (Nat.zero_le MAX_DIR_BYTES) (b.sorted session snap)
    rwa [Nat.zero_add] at this
  · rw [hnewest, Greedy.missed_le_took_iff sorted_pairwise]
    simp only [hperm.mem_iff, hsince, bytesSince, withinCap_eq_took]
    rfl
  · have hstrict : (b.sorted session snap).Pairwise fun t u => u.at.toNat < t.at.toNat := by
      have hne := List.pairwise_map.1 ((hperm.map TableSnapshot.at).nodup_iff.2 hdistinct)
      refine (sorted_pairwise.and hne).imp fun ⟨hle, hne⟩ => ?_
      exact lt_of_le_of_ne hle fun heq => hne (UInt64.toNat_inj.1 heq.symm)
    rw [hnewest, Greedy.missed_le_took_iff_first hstrict]
    simp only [hperm.mem_iff, hsince]
    rfl

end Build

/-! ### Tables of any size -/

/-- A table of the disks of a machine: its id, the time and the length of a description. -/
structure Offer where
  vm : String
  time : UInt64
  length : ℕ
  deriving DecidableEq

def Offer.table (o : Offer) : TableSnapshot :=
  { kind := vmKind.id, parents := [o.vm], «at» := o.time,
    rows := [.obj [("extId", .str "7"), ("description", .str (String.ofList (List.replicate o.length 'x')))]] }

/-- The document of such a table. -/
def describedDoc (vm : String) (time : ℤ) (description : String) : Json :=
  .obj [("format", .num (.int 1)), ("session", .str "s"), ("kind", .str vmKind.id), ("parents", .arr [.str vm]),
    ("filter", .null), ("select", .null), ("total", .null), ("at", .num (.int time)),
    ("rows", .arr [.obj [("extId", .str "7"), ("description", .str description)]])]

theorem utf8ByteSize_replicate (n : ℕ) : (String.ofList (List.replicate n 'x')).utf8ByteSize = n := by
  induction n with
  | zero => rfl
  | succ n ih =>
      rw [List.replicate_succ', String.ofList_append, String.utf8ByteSize_append, ih]
      rfl

theorem utf8ByteSize_describedDoc (vm : String) (time : ℤ) (description : String) :
    (plainPrint (describedDoc vm time description)).utf8ByteSize =
      155 + vm.utf8ByteSize + (toString time).utf8ByteSize + description.utf8ByteSize := by
  have hshort : (plainPrint (describedDoc "" 0 "")).utf8ByteSize = 156 := by decide +kernel
  have hzero : (toString (0 : ℤ)).utf8ByteSize = 1 := by decide +kernel
  simp only [describedDoc, plainPrint, plainItems, plainMembers, String.intercalate_cons_cons,
    String.intercalate_singleton, String.utf8ByteSize_append, hzero, String.utf8ByteSize_empty] at hshort ⊢
  linarith only [hshort]

/-- A snapshot of such tables. -/
def snapshotOf (offers : List Offer) : Snapshot where
  identity := ⟨"pc", 9440, "admin", none, none⟩
  tables := offers.map Offer.table

/-- Machines of one digit, times of two, and no table over its cap. -/
def PlainOffers (offers : List Offer) : Prop :=
  ∀ o ∈ offers, o.vm.utf8ByteSize = 1 ∧ (toString (o.time.toNat : ℤ)).utf8ByteSize = 2 ∧
    158 + o.length ≤ MAX_TABLE_BYTES

section

variable (parse : String → Except String Json) {offers : List Offer} (h : PlainOffers offers)

include h

theorem bytesOf_offer {o : Offer} (ho : o ∈ offers) :
    (plainBuild parse).bytesOf "s" o.table = 158 + o.length := by
  obtain ⟨hvm, htime, -⟩ := h o ho
  have htext : (plainBuild parse).textOf "s" o.table =
      plainPrint (describedDoc o.vm o.time.toNat (String.ofList (List.replicate o.length 'x'))) := rfl
  rw [Build.bytesOf, htext, utf8ByteSize_describedDoc, utf8ByteSize_replicate, hvm, htime]

theorem fits_offers : ∀ t ∈ (snapshotOf offers).tables, (plainBuild parse).fits "s" t = true := by
  refine List.forall_mem_map.2 fun o ho => decide_eq_true ?_
  exact (bytesOf_offer parse h ho).trans_le (h o ho).2.2

theorem bytes_filter_offers (time : ℕ) :
    (plainBuild parse).bytes "s" ((snapshotOf offers).tables.filter fun t => time ≤ t.at.toNat) =
      ((offers.filter fun o => time ≤ o.time.toNat).map fun o => 158 + o.length).sum := by
  rw [snapshotOf, List.filter_map, Build.bytes, List.map_map]
  refine congrArg List.sum (List.map_congr_left fun o ho => ?_)
  exact bytesOf_offer parse h (List.mem_filter.1 ho).1

end

/-- Eight tables that nearly fill the directory, and an older one there is no room for. -/
def crowded : List Offer :=
  [⟨"1", 20, 2096894⟩, ⟨"2", 19, 2096894⟩, ⟨"3", 18, 2096894⟩, ⟨"4", 17, 2096894⟩, ⟨"5", 16, 2096894⟩,
    ⟨"6", 15, 2096894⟩, ⟨"7", 14, 2096894⟩, ⟨"8", 13, 2096894⟩, ⟨"9", 12, 1000⟩]

theorem newestKept_crowded :
    (plainBuild fun _ => .error "not asked").NewestKept "s" (snapshotOf crowded) := by
  obtain ⟨parse, hparse⟩ : ∃ parse : String → Except String Json, (fun _ => .error "not asked") = parse :=
    ⟨_, rfl⟩
  rw [hparse]
  have hplain : PlainOffers crowded := by
    rw [PlainOffers]
    decide +kernel
  have hempty : ¬ (plainBuild parse).Newer .empty := fun ⟨_, h, _⟩ => by cases h
  refine (@Build.newestKept_iff _ _ _ .empty 0 hempty (fits_offers parse hplain)).2.2.2.2.1.2 ?_
  refine List.forall_mem_map.2 fun o ho => List.forall_mem_map.2 fun o' ho' hlt => .inl ?_
  rw [bytes_filter_offers parse hplain]
  have hall : ∀ o ∈ crowded, ∀ o' ∈ crowded, o'.time.toNat < o.time.toNat →
      ((crowded.filter fun p => o.time.toNat ≤ p.time.toNat).map fun p => 158 + p.length).sum ≤ MAX_DIR_BYTES := by
    decide +kernel
  exact hall o ho o' ho' hlt

/-- The tables of a crowded directory, and one that is older still and fits. -/
theorem not_newestKept : ¬ ∀ (b : Build) (session : String) (snap : Snapshot),
    (∀ t ∈ snap.tables, b.fits session t = true) → b.NewestKept session snap := by
  intro h
  obtain ⟨offers, hoffers⟩ : ∃ offers, crowded ++ [⟨"0", 11, 0⟩] = offers := ⟨_, rfl⟩
  obtain ⟨b, hb⟩ : ∃ b, (plainBuild fun _ => .error "not asked") = b := ⟨_, rfl⟩
  have hplain : PlainOffers offers := by
    rw [PlainOffers, ← hoffers]
    decide +kernel
  have hsize : ∀ o ∈ offers, b.bytesOf "s" o.table = 158 + o.length := fun o ho => hb ▸ bytesOf_offer _ hplain ho
  have hfits : ∀ t ∈ (snapshotOf offers).tables, b.fits "s" t = true := hb ▸ fits_offers _ hplain
  have hsorted : b.sorted "s" (snapshotOf offers) = offers.map Offer.table := by
    rw [Build.sorted, List.filter_eq_self.2 hfits]
    refine List.mergeSort_of_pairwise (List.pairwise_map.2 ?_)
    rw [← hoffers]
    decide
  have hevicted : Offer.table ⟨"9", 12, 1000⟩ ∈ b.evicted "s" (snapshotOf offers) := by
    rw [Build.evicted, hsorted, Greedy.missed_map hsize, ← hoffers]
    exact List.mem_map_of_mem (by decide)
  have hkept : Offer.table ⟨"0", 11, 0⟩ ∈ b.kept "s" (snapshotOf offers) := by
    rw [Build.mem_kept, Build.withinCap_eq_took, hsorted, Greedy.took_map hsize, ← hoffers]
    exact List.mem_map_of_mem (by decide)
  exact absurd (h b "s" _ hfits _ hevicted _ hkept) (by decide)

end Nutsh.Cache
