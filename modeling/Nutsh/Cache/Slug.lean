/-
The name of the directory of a context.

A short name of harmless characters is the name of its directory.  Any other name is cut and cleaned, and the
hash of the name is put behind it.  Both kinds of names stand in one directory, and a name may be spelled as the
directory of another one: this is the only way in which two names come to one directory.

* `slug` — the name of the directory of a context;
* `SafeComponent` — a name that stays in the directory it is put in;
* `IsPlain`, `hashed`, `Lookalike` — the names kept as they are, the hashed ones, and a name spelled as one of these;
* `hex16_inj` — the digits of a hash tell it;
* `slug_safe` — a key is one safe component;
* `slug_apart_iff` — when two names have different keys.
-/
import Nutsh.Cache
import Nutsh.Cell.Status
import Nutsh.Lib.Digits

set_option relaxedAutoImplicit false
set_option autoImplicit false

namespace Nutsh.Cache

/-- The longest clean beginning that a directory name keeps before the hash. -/
def MAX_SLUG : ℕ := 40

/-- A character that is kept. -/
def isSlugChar (c : Char) : Bool := c.isAlphanum || c == '.' || c == '_' || c == '-'

/-- A name with `_` for every character that is not kept. -/
def clean (name : String) : String := String.ofList (name.toList.map fun c => if isSlugChar c then c else '_')

/-- The cleaned name, cut, with the hash of the name behind it. -/
def hashed (name : String) : String :=
  String.ofList ((clean name).toList.take MAX_SLUG) ++ "-" ++ hex16 (fnv1a64 name)

/-- The directory of a context; a session whose name has none runs without a cache. -/
def slug (name : String) : Option String :=
  let name := Cell.trim name
  if name = "" ∨ name = "." ∨ name = ".." then none
  else if clean name = name ∧ (clean name).length ≤ MAX_SLUG then some (clean name)
  else some (hashed name)

/-- A name of a file or a directory that stays where it is put. -/
structure SafeComponent (key : String) : Prop where
  not_empty : key ≠ ""
  not_here : key ≠ "."
  not_parent : key ≠ ".."
  chars : ∀ c ∈ key.toList, isSlugChar c = true
  short : key.length ≤ MAX_SLUG + 17

/-- A name that is kept as it is. -/
def IsPlain (name : String) : Prop := (∀ c ∈ name.toList, isSlugChar c = true) ∧ name.length ≤ MAX_SLUG

/-- A plain name that is spelled as the directory of a name that is not. -/
def Lookalike (name other : String) : Prop := IsPlain name ∧ ¬ IsPlain other ∧ name = hashed other

/-! ### The hash -/

theorem digitChar_inj_of_lt : ∀ i j : Fin 16, i.val.digitChar = j.val.digitChar → i = j := by decide

theorem isSlugChar_digitChar : ∀ i : Fin 16, isSlugChar i.val.digitChar = true := by decide

theorem length_hex16 (n : UInt64) : (hex16 n).toList.length = 16 := by
  rw [hex16, String.toList_ofList, List.length_map, List.length_range]

theorem isSlugChar_hex16 {n : UInt64} {c : Char} (hc : c ∈ (hex16 n).toList) : isSlugChar c = true := by
  rw [hex16, String.toList_ofList] at hc
  obtain ⟨i, -, rfl⟩ := List.mem_map.1 hc
  exact isSlugChar_digitChar ⟨n.toNat / 16 ^ (15 - i) % 16, Nat.mod_lt _ (by decide)⟩

/-- The digits of a number of 64 bits tell it. -/
theorem hex16_inj {n m : UInt64} (h : hex16 n = hex16 m) : n = m := by
  have hchars := congrArg String.toList h
  rw [hex16, hex16, String.toList_ofList, String.toList_ofList, List.map_inj_left] at hchars
  have hdigit : ∀ j < 16, n.toNat / 16 ^ j % 16 = m.toNat / 16 ^ j % 16 := by
    intro j hj
    have heq := hchars (15 - j) (List.mem_range.2 (by omega))
    rw [Nat.sub_sub_self (Nat.le_of_lt_succ hj)] at heq
    exact congrArg Fin.val (digitChar_inj_of_lt ⟨_, Nat.mod_lt _ (by decide)⟩ ⟨_, Nat.mod_lt _ (by decide)⟩ heq)
  have hmod : n.toNat % 2 ^ 64 = m.toNat % 2 ^ 64 := Digits.mod_pow_eq 16 hdigit
  have hself : ∀ k : UInt64, k.toNat % 2 ^ 64 = k.toNat := fun k => Nat.mod_eq_of_lt k.toNat_lt
  exact UInt64.toNat_inj.1 ((hself n).symm.trans (hmod.trans (hself m)))

/-! ### The bytes of a text -/

theorem loop_eq (bytes : ByteArray) (i : ℕ) (seen : List UInt8) :
    ByteArray.toList.loop bytes i seen = seen.reverse ++ bytes.data.toList.drop i := by
  induction h : bytes.size - i generalizing i seen with
  | zero =>
      rw [ByteArray.toList.loop, if_neg (by omega), List.drop_eq_nil_of_le, List.append_nil]
      rw [Array.length_toList]
      exact Nat.le_of_sub_eq_zero h
  | succ n ih =>
      have hi : i < bytes.size := by omega
      have hdrop : bytes.data.toList.drop i = bytes.data[i] :: bytes.data.toList.drop (i + 1) :=
        List.drop_eq_getElem_cons (by simpa using hi)
      have hget : bytes.get! i = bytes.data[i] := getElem!_pos bytes.data i hi
      rw [ByteArray.toList.loop, if_pos hi, ih (i + 1) _ (by omega), hdrop, hget, List.reverse_cons,
        List.append_assoc, List.singleton_append]

theorem toList_eq (bytes : ByteArray) : bytes.toList = bytes.data.toList := loop_eq bytes 0 []

/-! ### The names -/

variable {name a b key : String}

theorem isSlugChar_clean {c : Char} (hc : c ∈ (clean name).toList) : isSlugChar c = true := by
  rw [clean, String.toList_ofList] at hc
  obtain ⟨d, -, rfl⟩ := List.mem_map.1 hc
  split
  case isTrue h => exact h
  case isFalse => decide

theorem clean_eq_self_iff : clean name = name ↔ ∀ c ∈ name.toList, isSlugChar c = true := by
  constructor
  · intro h c hc
    rw [← h] at hc
    exact isSlugChar_clean hc
  · intro h
    have hmap : name.toList.map (fun c => if isSlugChar c then c else '_') = name.toList.map id :=
      List.map_congr_left fun c hc => if_pos (h c hc)
    rw [clean, hmap, List.map_id, String.ofList_toList]

/-- A name that has a directory is kept as it is, or hashed. -/
theorem slug_eq_some_iff :
    slug name = some key ↔ (Cell.trim name ≠ "" ∧ Cell.trim name ≠ "." ∧ Cell.trim name ≠ "..") ∧
      (IsPlain (Cell.trim name) ∧ key = Cell.trim name ∨
        ¬ IsPlain (Cell.trim name) ∧ key = hashed (Cell.trim name)) := by
  generalize htrim : Cell.trim name = n
  rw [slug, htrim]
  by_cases hnone : n = "" ∨ n = "." ∨ n = ".."
  · rw [if_pos hnone, ← not_or, ← not_or]
    exact iff_of_false nofun fun h => h.1 hnone
  · have hplain : (clean n = n ∧ (clean n).length ≤ MAX_SLUG) ↔ IsPlain n := by
      rw [IsPlain, ← clean_eq_self_iff]
      exact and_congr_right fun h => by rw [h]
    rw [if_neg hnone, ← not_or, ← not_or, and_iff_right hnone]
    by_cases h : IsPlain n
    · have := hplain.2 h
      rw [if_pos this, this.1, Option.some.injEq, and_iff_right h, eq_comm]
      exact ⟨.inl, fun h' => h'.resolve_right fun h'' => h''.1 h⟩
    · rw [if_neg (hplain.not.2 h), Option.some.injEq, and_iff_right h, eq_comm]
      exact ⟨.inr, fun h' => h'.resolve_left fun h'' => h h''.1⟩

theorem toList_hashed :
    (hashed name).toList = (clean name).toList.take MAX_SLUG ++ '-' :: (hex16 (fnv1a64 name)).toList := by
  rw [hashed, String.toList_append, String.toList_append, String.toList_ofList, List.append_assoc]
  rfl

theorem safe_hashed (name : String) : SafeComponent (hashed name) := by
  have hlength : (hashed name).toList.length = min MAX_SLUG (clean name).toList.length + 17 := by
    rw [toList_hashed, List.length_append, List.length_take, List.length_cons, length_hex16]
  have hne {key : String} (hkey : key.toList.length < 17) : hashed name ≠ key := by
    rintro rfl
    omega
  refine ⟨hne (by decide), hne (by decide), hne (by decide), fun c hc => ?_, ?_⟩
  · rw [toList_hashed] at hc
    rcases List.mem_append.1 hc with hc | hc
    · exact isSlugChar_clean (List.mem_of_mem_take hc)
    · rcases List.mem_cons.1 hc with rfl | hc
      · decide
      · exact isSlugChar_hex16 hc
  · rw [← String.length_toList, hlength]
    omega

/-- A key is one safe component. -/
theorem slug_safe (h : slug name = some key) : SafeComponent key := by
  obtain ⟨⟨hempty, hhere, hparent⟩, ⟨hplain, rfl⟩ | ⟨-, rfl⟩⟩ := slug_eq_some_iff.1 h
  · exact ⟨hempty, hhere, hparent, hplain.1, hplain.2.trans (by decide)⟩
  · exact safe_hashed _

/-- Names hashed to one directory have one hash. -/
theorem fnv1a64_eq_of_hashed (h : hashed a = hashed b) : fnv1a64 a = fnv1a64 b := by
  have hchars := congrArg String.toList h
  rw [toList_hashed, toList_hashed] at hchars
  have hlength : ('-' :: (hex16 (fnv1a64 a)).toList).length = ('-' :: (hex16 (fnv1a64 b)).toList).length := by
    rw [List.length_cons, List.length_cons, length_hex16, length_hex16]
  have htail := (List.append_inj' hchars hlength).2
  exact hex16_inj (String.toList_inj.1 (List.cons.inj htail).2)

/-- **Two names come to one directory** exactly when one of them is spelled as the directory of the other, as
long as the hash tells them apart; a directory is one safe component in any case. -/
theorem slug_apart_iff (hhash : fnv1a64 (Cell.trim a) = fnv1a64 (Cell.trim b) → Cell.trim a = Cell.trim b) :
    (∀ key, slug a = some key → SafeComponent key) ∧
    ((∀ key, slug a = some key → slug b = some key → Cell.trim a = Cell.trim b) ↔
      ¬ Lookalike (Cell.trim a) (Cell.trim b) ∧ ¬ Lookalike (Cell.trim b) (Cell.trim a)) := by
  refine ⟨fun key => slug_safe, ?_⟩
  -- a name that is not plain has a directory
  have hnamed {n : String} (h : ¬ IsPlain n) : n ≠ "" ∧ n ≠ "." ∧ n ≠ ".." := by
    refine ⟨?_, ?_, ?_⟩
    all_goals
      rintro rfl
      exact h ⟨List.all_eq_true.1 (by decide), by decide⟩
  -- and so has one that is spelled as a directory
  have hsafe {n m : String} (h : n = hashed m) : n ≠ "" ∧ n ≠ "." ∧ n ≠ ".." :=
    h ▸ ⟨(safe_hashed m).not_empty, (safe_hashed m).not_here, (safe_hashed m).not_parent⟩
  constructor
  · intro h
    constructor
    · rintro ⟨ha, hb, heq⟩
      have := h _ (slug_eq_some_iff.2 ⟨hsafe heq, .inl ⟨ha, rfl⟩⟩)
        (slug_eq_some_iff.2 ⟨hnamed hb, .inr ⟨hb, heq⟩⟩)
      exact hb (this ▸ ha)
    · rintro ⟨hb, ha, heq⟩
      have := h _ (slug_eq_some_iff.2 ⟨hnamed ha, .inr ⟨ha, heq⟩⟩)
        (slug_eq_some_iff.2 ⟨hsafe heq, .inl ⟨hb, rfl⟩⟩)
      exact ha (this ▸ hb)
  · rintro ⟨hab, hba⟩ key hkeyA hkeyB
    obtain ⟨-, ⟨ha, rfl⟩ | ⟨ha, rfl⟩⟩ := slug_eq_some_iff.1 hkeyA
    all_goals obtain ⟨-, ⟨hb, heq⟩ | ⟨hb, heq⟩⟩ := slug_eq_some_iff.1 hkeyB
    · exact heq
    · exact absurd ⟨ha, hb, heq⟩ hab
    · exact absurd ⟨hb, ha, heq.symm⟩ hba
    · exact hhash (fnv1a64_eq_of_hashed heq)

/-- Two contexts, one of them with a name that is hashed. -/
theorem slug_apart_lab : SafeComponent "lab" ∧ slug "lab" ≠ slug "a/b" := by
  have htrim : Cell.trim "lab" = "lab" ∧ Cell.trim "a/b" = "a/b" := by decide
  have hhash : fnv1a64 "lab" ≠ fnv1a64 "a/b" := by
    rw [fnv1a64, fnv1a64, toList_eq, toList_eq]
    decide +kernel
  have hlab : slug "lab" = some "lab" := by decide
  have hnot : "lab" ≠ hashed "a/b" := by
    rw [hashed, fnv1a64, toList_eq]
    decide +kernel
  have hslash : ¬ IsPlain "a/b" := fun h => absurd (h.1 '/' (by decide)) (by decide)
  obtain ⟨hsafe, hapart⟩ := @slug_apart_iff "lab" "a/b" (by rw [htrim.1, htrim.2]; exact fun h => absurd h hhash)
  rw [htrim.1, htrim.2] at hapart
  refine ⟨hsafe _ hlab, fun h => ?_⟩
  have heq := hapart.2 ⟨fun h => hnot h.2.2, fun h => hslash h.1⟩ "lab" hlab (h ▸ hlab)
  exact absurd heq (by decide)

/-- The session of an account at a host, and a context of the name of its directory. -/
theorem not_slug_apart : ¬ ∀ a b key : String,
    (fnv1a64 (Cell.trim a) = fnv1a64 (Cell.trim b) → Cell.trim a = Cell.trim b) →
      slug a = some key → slug b = some key → Cell.trim a = Cell.trim b := by
  intro h
  have htrim : Cell.trim "admin@10.1.2.3:9440" = "admin@10.1.2.3:9440" ∧
      Cell.trim "admin_10.1.2.3_9440-5809a2fed49a3bd2" = "admin_10.1.2.3_9440-5809a2fed49a3bd2" := by
    decide +kernel
  have hhash : fnv1a64 "admin@10.1.2.3:9440" ≠ fnv1a64 "admin_10.1.2.3_9440-5809a2fed49a3bd2" := by
    rw [fnv1a64, fnv1a64, toList_eq, toList_eq]
    decide +kernel
  have hsession : slug "admin@10.1.2.3:9440" = some "admin_10.1.2.3_9440-5809a2fed49a3bd2" := by
    simp only [slug, hashed, fnv1a64, toList_eq]
    decide +kernel
  have hcontext : slug "admin_10.1.2.3_9440-5809a2fed49a3bd2" = some "admin_10.1.2.3_9440-5809a2fed49a3bd2" := by
    simp only [slug, hashed, fnv1a64, toList_eq]
    decide +kernel
  have heq := h _ _ _ (by rw [htrim.1, htrim.2]; exact fun h => absurd h hhash) hsession hcontext
  rw [htrim.1, htrim.2] at heq
  exact absurd heq (by decide)

end Nutsh.Cache
