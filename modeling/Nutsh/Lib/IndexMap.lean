/-
Maps that keep the order their keys were first inserted in.

An `IndexMap κ ν` is a list of pairs whose keys are pairwise distinct, the proof being a field of
the structure.  Inserting under a key that is there replaces the value in place, inserting under a
new key appends.

Main definitions:

* `IndexMap` — the map, with the distinctness of its keys as a field;
* `IndexMap.get?`, `IndexMap.insert`, `IndexMap.erase`, `IndexMap.keep`, `IndexMap.ofList` — its operations;
* `IndexMap.Within` — a map whose pairs are all in another.

Main results:

* `IndexMap.get?_insert` — what a lookup reads after an insertion;
* `IndexMap.get?_ofList` — a map built from a list holds the last value given for each key;
* `IndexMap.ofList_entries` — collecting the pairs of a map gives the map back.
-/
import Mathlib.Data.List.Basic
import Mathlib.Data.List.Nodup

set_option relaxedAutoImplicit false
set_option autoImplicit false

/-- A map from `κ` to `ν` in the order the keys were first inserted. -/
structure IndexMap (κ ν : Type*) where
  /-- The pairs, in insertion order. -/
  entries : List (κ × ν)
  /-- No key occurs twice. -/
  nodup : (entries.map Prod.fst).Nodup

namespace IndexMap

variable {κ ν : Type*}

/-- The keys, in insertion order. -/
def keys (m : IndexMap κ ν) : List κ := m.entries.map Prod.fst

/-- The values, in insertion order. -/
def values (m : IndexMap κ ν) : List ν := m.entries.map Prod.snd

/-- The number of keys. -/
def len (m : IndexMap κ ν) : ℕ := m.entries.length

/-- Whether the map has no key. -/
def isEmpty (m : IndexMap κ ν) : Bool := m.entries.isEmpty

/-- The map with no key. -/
def empty : IndexMap κ ν := ⟨[], List.nodup_nil⟩

instance : Inhabited (IndexMap κ ν) := ⟨empty⟩

theorem keys_nodup (m : IndexMap κ ν) : m.keys.Nodup := m.nodup

@[simp] theorem keys_empty : (empty : IndexMap κ ν).keys = [] := rfl

/-- Maps with the same pairs in the same order are equal. -/
@[ext] theorem ext {m n : IndexMap κ ν} (h : m.entries = n.entries) : m = n := by
  cases m
  cases n
  cases h
  rfl

variable [DecidableEq κ]

/-- The value under a key. -/
def get? (m : IndexMap κ ν) (k : κ) : Option ν := m.entries.lookup k

@[simp] theorem get?_empty (k : κ) : (empty : IndexMap κ ν).get? k = none := rfl

theorem lookup_eq_some_of_mem {es : List (κ × ν)} (h : (es.map Prod.fst).Nodup) {k : κ} {v : ν}
    (hm : (k, v) ∈ es) : es.lookup k = some v := by
  induction es with
  | nil => cases hm
  | cons e es ih =>
      obtain ⟨k₀, v₀⟩ := e
      obtain ⟨hnew, hes⟩ := List.nodup_cons.1 h
      rcases List.mem_cons.1 hm with he | hm
      · cases he
        simp
      · have hne : k ≠ k₀ := fun he => hnew (he ▸ List.mem_map.2 ⟨(k, v), hm, rfl⟩)
        rw [List.lookup_cons, beq_eq_false_iff_ne.2 hne, ih hes hm]

/-- Each pair is what its key reads. -/
theorem get?_of_mem {m : IndexMap κ ν} {k : κ} {v : ν} (h : (k, v) ∈ m.entries) :
    m.get? k = some v :=
  lookup_eq_some_of_mem m.nodup h

/-- The pairs of a map are what its keys read. -/
theorem mem_entries_iff {m : IndexMap κ ν} {k : κ} {v : ν} : (k, v) ∈ m.entries ↔ m.get? k = some v := by
  refine ⟨get?_of_mem, fun h => ?_⟩
  obtain ⟨before, after, hentries, -⟩ := List.lookup_eq_some_iff.1 h
  rw [hentries]
  exact List.mem_append_right _ List.mem_cons_self

/-- Maps that read the same have the same pairs, in whatever order. -/
theorem entries_perm_of_get? {m n : IndexMap κ ν} (h : ∀ k, m.get? k = n.get? k) :
    m.entries.Perm n.entries := by
  refine (List.perm_ext_iff_of_nodup m.nodup.of_map n.nodup.of_map).2 fun e => ?_
  obtain ⟨k, v⟩ := e
  rw [mem_entries_iff, mem_entries_iff, h]

/-- The pairs with `v` under `k`: in place where `k` occurs, at the end otherwise. -/
def put (k : κ) (v : ν) : List (κ × ν) → List (κ × ν)
  | [] => [(k, v)]
  | (k', v') :: es => if k' = k then (k, v) :: es else (k', v') :: put k v es

/-- Putting a key that occurs leaves the keys, putting a new one appends it. -/
theorem map_fst_put (k : κ) (v : ν) (es : List (κ × ν)) :
    (put k v es).map Prod.fst =
      if k ∈ es.map Prod.fst then es.map Prod.fst else es.map Prod.fst ++ [k] := by
  induction es with
  | nil => simp [put]
  | cons e es ih =>
      obtain ⟨k', v'⟩ := e
      by_cases h : k' = k
      · simp [put, h]
      · have h' : ¬ k = k' := fun hk => h hk.symm
        simp only [put, if_neg h, List.map_cons, ih, List.mem_cons, h', false_or]
        split <;> rfl

theorem nodup_put {k : κ} {v : ν} {es : List (κ × ν)} (h : (es.map Prod.fst).Nodup) :
    ((put k v es).map Prod.fst).Nodup := by
  rw [map_fst_put]
  split
  · exact h
  · rename_i hk
    exact h.append (List.nodup_singleton k) (List.disjoint_singleton.2 hk)

theorem lookup_put (k : κ) (v : ν) (es : List (κ × ν)) (k' : κ) :
    (put k v es).lookup k' = if k' = k then some v else es.lookup k' := by
  induction es with
  | nil => by_cases h : k' = k <;> simp [put, List.lookup_cons, h, beq_eq_false_iff_ne.2]
  | cons e es ih =>
      obtain ⟨k₀, v₀⟩ := e
      by_cases h₀ : k₀ = k
      · subst h₀
        by_cases h : k' = k₀
        · simp [put, h]
        · simp [put, List.lookup_cons, h, beq_eq_false_iff_ne.2 h]
      · by_cases h : k' = k₀
        · subst h
          simp [put, h₀]
        · simp [put, h₀, List.lookup_cons, beq_eq_false_iff_ne.2 h, ih]

/-- The map with `v` under `k`. -/
def insert (m : IndexMap κ ν) (k : κ) (v : ν) : IndexMap κ ν :=
  ⟨put k v m.entries, nodup_put m.nodup⟩

/-- A lookup after an insertion reads the inserted value under its key and what was there
elsewhere. -/
theorem get?_insert (m : IndexMap κ ν) (k : κ) (v : ν) (k' : κ) :
    (m.insert k v).get? k' = if k' = k then some v else m.get? k' :=
  lookup_put k v m.entries k'

@[simp] theorem get?_insert_self (m : IndexMap κ ν) (k : κ) (v : ν) :
    (m.insert k v).get? k = some v := by
  simp [get?_insert]

theorem get?_insert_ne {m : IndexMap κ ν} {k k' : κ} {v : ν} (h : k' ≠ k) :
    (m.insert k v).get? k' = m.get? k' := by
  simp [get?_insert, h]

/-- The map without a key. -/
def erase (m : IndexMap κ ν) (k : κ) : IndexMap κ ν :=
  ⟨m.entries.filter fun e => e.1 != k, m.nodup.sublist (List.filter_sublist.map Prod.fst)⟩

theorem lookup_filter_ne (es : List (κ × ν)) (k k' : κ) :
    (es.filter fun e => e.1 != k).lookup k' = if k' = k then none else es.lookup k' := by
  induction es with
  | nil => exact (ite_self none).symm
  | cons e es ih =>
      obtain ⟨k₀, v⟩ := e
      rw [List.filter_cons]
      by_cases h₀ : k₀ = k
      · subst h₀
        by_cases h : k' = k₀
        · simpa [h] using ih
        · simpa [h, List.lookup_cons, beq_eq_false_iff_ne.2 h] using ih
      · by_cases h : k' = k₀
        · subst h
          simp [h₀]
        · simpa [h₀, List.lookup_cons, beq_eq_false_iff_ne.2 h] using ih

/-- A lookup after a removal finds nothing under its key and what was there elsewhere. -/
theorem get?_erase (m : IndexMap κ ν) (k k' : κ) :
    (m.erase k).get? k' = if k' = k then none else m.get? k' :=
  lookup_filter_ne m.entries k k'

theorem filter_ne_of_not_mem {es : List (κ × ν)} {k : κ} (h : k ∉ es.map Prod.fst) :
    es.filter (fun e => e.1 != k) = es := by
  refine List.filter_eq_self.2 fun e he => ?_
  have hne : e.1 ≠ k := fun hk => h (hk ▸ List.mem_map_of_mem he)
  exact bne_iff_ne.2 hne

theorem erase_of_not_mem {m : IndexMap κ ν} {k : κ} (h : k ∉ m.keys) : m.erase k = m :=
  ext (filter_ne_of_not_mem h)

theorem put_of_lookup {es : List (κ × ν)} {k : κ} {v : ν} (h : es.lookup k = some v) :
    put k v es = es := by
  induction es with
  | nil => cases h
  | cons e es ih =>
      obtain ⟨k₀, v₀⟩ := e
      by_cases h₀ : k₀ = k
      · subst h₀
        have hv : v₀ = v := by simpa using h
        simp [put, hv]
      · rw [List.lookup_cons, beq_eq_false_iff_ne.2 (Ne.symm h₀)] at h
        simp [put, h₀, ih h]

/-- Inserting what is there changes nothing. -/
theorem insert_of_get? {m : IndexMap κ ν} {k : κ} {v : ν} (h : m.get? k = some v) : m.insert k v = m :=
  ext (put_of_lookup h)

theorem put_perm {es : List (κ × ν)} (h : (es.map Prod.fst).Nodup) (k : κ) (v : ν) :
    (put k v es).Perm ((k, v) :: es.filter fun e => e.1 != k) := by
  induction es with
  | nil => exact List.Perm.refl _
  | cons e es ih =>
      obtain ⟨k₀, v₀⟩ := e
      obtain ⟨hnew, hes⟩ := List.nodup_cons.1 h
      by_cases h₀ : k₀ = k
      · subst h₀
        simp [put, filter_ne_of_not_mem hnew]
      · have hrest := (ih hes).cons (k₀, v₀)
        simpa [put, h₀] using hrest.trans (.swap _ _ _)

/-- The values after an insertion are the new one and those under the other keys. -/
theorem values_insert_perm (m : IndexMap κ ν) (k : κ) (v : ν) :
    (m.insert k v).values.Perm (v :: (m.erase k).values) :=
  (put_perm m.nodup k v).map Prod.snd

/-- The values of a map are the one under a key and those under the others. -/
theorem values_perm_of_get? {m : IndexMap κ ν} {k : κ} {v : ν} (h : m.get? k = some v) :
    m.values.Perm (v :: (m.erase k).values) := by
  have hperm := values_insert_perm m k v
  rwa [insert_of_get? h] at hperm

theorem get?_eq_none_iff {m : IndexMap κ ν} {k : κ} : m.get? k = none ↔ k ∉ m.keys := by
  rw [get?, List.lookup_eq_none_iff]
  constructor
  · intro h hk
    obtain ⟨e, he, rfl⟩ := List.mem_map.1 hk
    simpa using h e he
  · intro h e he
    have hne : k ≠ e.1 := fun hk => h (hk ▸ List.mem_map_of_mem he)
    simpa using hne

/-- Every pair of the one is a pair of the other. -/
def Within (m n : IndexMap κ ν) : Prop := ∀ k v, m.get? k = some v → n.get? k = some v

theorem Within.refl (m : IndexMap κ ν) : m.Within m := fun _ _ h => h

theorem Within.trans {m n o : IndexMap κ ν} (h : m.Within n) (h' : n.Within o) : m.Within o :=
  fun k v hv => h' k v (h k v hv)

theorem erase_within (m : IndexMap κ ν) (k : κ) : (m.erase k).Within m := by
  intro k' v h
  rw [get?_erase] at h
  split at h
  · cases h
  · exact h

/-- An insertion leaves no map empty. -/
@[simp] theorem isEmpty_insert (m : IndexMap κ ν) (k : κ) (v : ν) :
    (m.insert k v).isEmpty = false := by
  obtain ⟨entries, h⟩ := m
  cases entries with
  | nil => rfl
  | cons e es =>
      simp only [insert, isEmpty, put]
      split <;> rfl

/-- The map a list of pairs collects into, the later value winning. -/
def ofList (es : List (κ × ν)) : IndexMap κ ν :=
  es.foldl (fun m e => m.insert e.1 e.2) empty

theorem get?_foldl_insert (es : List (κ × ν)) (m : IndexMap κ ν) (k : κ) :
    (es.foldl (fun m e => m.insert e.1 e.2) m).get? k =
      (es.reverse.lookup k).or (m.get? k) := by
  induction es generalizing m with
  | nil => simp
  | cons e es ih =>
      obtain ⟨k₀, v₀⟩ := e
      rw [List.foldl_cons, ih, List.reverse_cons, List.lookup_append, get?_insert, Option.or_assoc]
      congr 1
      by_cases h : k = k₀
      · simp [h]
      · simp [h, List.lookup_cons, beq_eq_false_iff_ne.2 h]

/-- A collected map holds, under each key, the last value the list gives for it. -/
theorem get?_ofList (es : List (κ × ν)) (k : κ) :
    (ofList es).get? k = es.reverse.lookup k := by
  simp [ofList, get?_foldl_insert]

/-- A key that does not occur is put at the end. -/
theorem put_of_not_mem {k : κ} {v : ν} {es : List (κ × ν)} (h : k ∉ es.map Prod.fst) :
    put k v es = es ++ [(k, v)] := by
  induction es with
  | nil => rfl
  | cons e es ih =>
      obtain ⟨hne, hrest⟩ := not_or.1 (List.mem_cons.not.1 h)
      simp [put, Ne.symm hne, ih hrest]

theorem entries_foldl_insert (es : List (κ × ν)) (m : IndexMap κ ν)
    (h : ((m.entries ++ es).map Prod.fst).Nodup) :
    (es.foldl (fun m e => m.insert e.1 e.2) m).entries = m.entries ++ es := by
  induction es generalizing m with
  | nil => simp
  | cons e es ih =>
      have hnew : e.1 ∉ m.entries.map Prod.fst := by
        rw [List.map_append, List.nodup_append] at h
        exact fun hin => h.2.2 _ hin _ List.mem_cons_self rfl
      have hentries : (m.insert e.1 e.2).entries = m.entries ++ [e] := put_of_not_mem hnew
      rw [List.foldl_cons, ih _ (by simpa [hentries] using h), hentries, List.append_assoc]
      rfl

/-- Collecting the pairs of a map gives the map back. -/
@[simp] theorem ofList_entries (m : IndexMap κ ν) : ofList m.entries = m :=
  ext (entries_foldl_insert m.entries empty m.nodup)

/-- The pairs under the keys that pass a test. -/
def keep (m : IndexMap κ ν) (p : κ → Bool) : IndexMap κ ν :=
  ⟨m.entries.filter fun e => p e.1, m.nodup.sublist (List.filter_sublist.map Prod.fst)⟩

theorem lookup_filter_fst (es : List (κ × ν)) (p : κ → Bool) (k : κ) :
    (es.filter fun e => p e.1).lookup k = if p k then es.lookup k else none := by
  induction es with
  | nil => exact (ite_self none).symm
  | cons e es ih =>
      obtain ⟨k₀, v⟩ := e
      by_cases h : k = k₀
      · subst h
        by_cases hp : p k <;> simp [hp, ih]
      · by_cases hp : p k₀ <;> simp [hp, ih, List.lookup_cons, beq_eq_false_iff_ne.2 h]

/-- A lookup among the kept pairs finds what was there under the keys that pass. -/
theorem get?_keep (m : IndexMap κ ν) (p : κ → Bool) (k : κ) :
    (m.keep p).get? k = if p k then m.get? k else none :=
  lookup_filter_fst m.entries p k

theorem keep_within (m : IndexMap κ ν) (p : κ → Bool) : (m.keep p).Within m := by
  intro k v h
  rw [get?_keep] at h
  split at h
  · exact h
  · cases h

end IndexMap
