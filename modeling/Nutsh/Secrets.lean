/-
Where passwords live: an ordered set of backends.

A lookup asks the backends in turn and returns the first password; a backend that cannot be reached is
passed over, and only reported when none of them answered.  A deletion goes to every backend.  The file
backend files a key with its colons and slashes replaced, so two keys may be filed under one place.

* `SecretStore`, `fileStore`, `keyringStore` — one backend;
* `Secrets.get`, `Secrets.delete` — the lookup and the deletion over all of them;
* `Secrets.deciding` — the backends the answer of a lookup rests on;
* `Secrets.get_delete_iff` — when a lookup answers after a deletion what it answered before.
-/
import Nutsh.Lib.IndexMap

set_option relaxedAutoImplicit false
set_option autoImplicit false

namespace Nutsh.Contexts

/-- One backend: what is filed in it, and what of it cannot be reached. -/
structure SecretStore where
  name : String
  /-- What a key is filed under. -/
  place : String → String
  /-- What is read of a text that is filed. -/
  decode : String → String := id
  /-- The texts by place, or why one cannot be read. -/
  entries : List (String × Except String String) := []
  /-- Why nothing of the backend can be reached. -/
  down : Option String := none
  /-- The places that cannot be deleted, and why. -/
  locked : List (String × String) := []

namespace SecretStore

def get (b : SecretStore) (key : String) : Except String (Option String) :=
  match b.down with
  | some why => .error why
  | none =>
      match b.entries.lookup (b.place key) with
      | none => .ok none
      | some (.ok text) => .ok (some (b.decode text))
      | some (.error why) => .error why

/-- The backend without what it files for a key; nothing filed is no failure. -/
def delete (b : SecretStore) (key : String) : Except String SecretStore :=
  match b.down with
  | some why => .error why
  | none =>
      match b.entries.lookup (b.place key) with
      | none => .ok b
      | some _ =>
          match b.locked.lookup (b.place key) with
          | some why => .error why
          | none => .ok { b with entries := b.entries.filter fun e => e.1 != b.place key }

/-- Whether what is filed for a key can be deleted. -/
def erases (b : SecretStore) (key : String) : Bool :=
  b.down.isNone && (b.locked.lookup (b.place key)).isNone

/-- The backend after a deletion was tried. -/
def after (b : SecretStore) (key : String) : SecretStore :=
  match b.delete key with
  | .ok b' => b'
  | .error _ => b

/-- Whether the backend holds a password for a key. -/
def holds (b : SecretStore) (key : String) : Bool :=
  match b.get key with
  | .ok (some _) => true
  | _ => false

/-- Whether the backend answers for a key. -/
def serves (b : SecretStore) (key : String) : Bool :=
  match b.get key with
  | .ok _ => true
  | .error _ => false

end SecretStore

/-- A text without the newlines at its end. -/
def trimNewlines (text : String) : String :=
  String.ofList (text.toList.reverse.dropWhile fun c => c == '\n' || c == '\r').reverse

/-- Passwords as files, a key's colons and slashes replaced in the name of its file. -/
def fileStore (entries : List (String × Except String String)) : SecretStore :=
  { name := "file", place := fun key => key.map fun c => if c == ':' || c == '/' then '_' else c,
    decode := trimNewlines, entries }

/-- The keyring of the platform. -/
def keyringStore (entries : List (String × Except String String)) : SecretStore :=
  { name := "keyring", place := id, entries }

/-- The backends, in the order they are asked. -/
structure Secrets where
  stores : List SecretStore
  /-- No two of one name. -/
  nodup : (stores.map SecretStore.name).Nodup

namespace Secrets

/-- The first password of a list of backends, given whether an earlier one answered and why the first
of the earlier ones did not. -/
def getFrom (key : String) (served : Bool) (unavailable : Option String) :
    List SecretStore → Except String (Option (String × String))
  | [] =>
      match unavailable with
      | some why => if served then .ok none else .error why
      | none => .ok none
  | b :: stores =>
      match b.get key with
      | .ok (some v) => .ok (some (b.name, v))
      | .ok none => getFrom key true unavailable stores
      | .error why => getFrom key served (unavailable.or (some why)) stores

/-- The first password under a key, and the backend that has it. -/
def get (s : Secrets) (key : String) : Except String (Option (String × String)) :=
  getFrom key false none s.stores

@[simp] theorem name_after (b : SecretStore) (key : String) : (b.after key).name = b.name := by
  rw [SecretStore.after, SecretStore.delete]
  split
  · rename_i b' h
    split at h
    · cases h
    · split at h
      · cases h; rfl
      · split at h
        · cases h
        · cases h; rfl
  · rfl

/-- What a deletion answers: a warning for each backend that could not, an error when none could. -/
def deleted (s : Secrets) (key : String) : Except String (List String) :=
  let failures := s.stores.filterMap fun b =>
    match b.delete key with
    | .ok _ => none
    | .error why => some (b.name, why)
  match failures.head? with
  | some (_, why) =>
      if failures.length = s.stores.length then .error why
      else .ok (failures.map fun f => let (name, why) := f; s!"{name} unreachable: {why}")
  | none => .ok []

/-- The backends after a deletion from every one. -/
def delete (s : Secrets) (key : String) : Secrets :=
  ⟨s.stores.map fun b => b.after key, by
    rw [List.map_map]
    exact (List.map_congr_left fun b _ => name_after b key) ▸ s.nodup⟩

/-- The backends the answer of a lookup rests on: the first that holds a password, or, when none of them
answers, all. -/
def deciding (s : Secrets) (key : String) : List SecretStore :=
  match s.stores.find? fun b => b.holds key with
  | some b => [b]
  | none => if s.stores.any fun b => b.serves key then [] else s.stores

end Secrets

/-! ### A lookup after a deletion -/

namespace SecretStore

/-- Whether deleting `key` takes away what is filed for `key'`. -/
def drops (b : SecretStore) (key key' : String) : Bool :=
  b.erases key && b.place key' == b.place key

/-- After a deletion a backend has nothing where it was made, and answers as before elsewhere. -/
theorem get_after (b : SecretStore) (key key' : String) :
    (b.after key).get key' = if b.drops key key' then .ok none else b.get key' := by
  obtain ⟨name, place, decode, entries, down, locked⟩ := b
  cases down with
  | some why => rfl
  | none =>
      simp only [after, delete, drops, erases, Option.isNone_none, Bool.true_and]
      cases hentry : entries.lookup (place key) with
      | none =>
          -- nothing is filed, and nothing is what the lookup says
          by_cases hplace : place key' = place key
          · simp [get, hplace, hentry]
          · simp [hplace]
      | some filed =>
          cases hlock : locked.lookup (place key) with
          | some why => simp
          | none =>
              by_cases hplace : place key' = place key
              · simp [get, hplace, IndexMap.lookup_filter_ne]
              · simp [get, hplace, IndexMap.lookup_filter_ne]

end SecretStore

namespace Secrets

open SecretStore

attribute [local simp] getFrom

/-- The first password, from the first backend that holds one. -/
theorem getFrom_of_holds {key : String} {served : Bool} {unavailable : Option String}
    {older later : List SecretStore} {b : SecretStore} (holder : ∀ c ∈ older, c.holds key = false)
    {v : String} (hb : b.get key = .ok (some v)) :
    getFrom key served unavailable (older ++ b :: later) = .ok (some (b.name, v)) := by
  induction older generalizing served unavailable with
  | nil => rw [List.nil_append, getFrom, hb]
  | cons c older ih =>
      obtain ⟨hc, holder⟩ := List.forall_mem_cons.1 holder
      rw [List.cons_append, getFrom]
      cases hget : c.get key with
      | error why => exact ih holder
      | ok found =>
          cases found with
          | none => exact ih holder
          | some w => rw [holds, hget] at hc; cases hc

/-- Where none holds a password, the answer is that there is none, unless no backend answered. -/
theorem getFrom_of_not_holds {key : String} {served : Bool} {unavailable : Option String}
    {stores : List SecretStore} (h : ∀ c ∈ stores, c.holds key = false)
    (hserved : served = true ∨ stores.any (fun b => b.serves key) = true) :
    getFrom key served unavailable stores = .ok none := by
  induction stores generalizing served unavailable with
  | nil =>
      have hserved : served = true := hserved.resolve_right (by simp)
      cases unavailable <;> simp [getFrom, hserved]
  | cons c stores ih =>
      obtain ⟨hc, h⟩ := List.forall_mem_cons.1 h
      rw [getFrom]
      cases hget : c.get key with
      | error why =>
          refine ih h (hserved.imp_right fun hany => ?_)
          simpa [serves, hget] using hany
      | ok found =>
          cases found with
          | none => exact ih h (Or.inl rfl)
          | some w => rw [holds, hget] at hc; cases hc

/-- Where no backend answers at all, the answer is why the first of them did not. -/
theorem getFrom_of_not_serves {key : String} {unavailable : Option String}
    {stores : List SecretStore} (h : ∀ c ∈ stores, c.serves key = false) :
    (getFrom key false unavailable stores = .ok none ↔ unavailable = none ∧ stores = []) := by
  induction stores generalizing unavailable with
  | nil => cases unavailable <;> simp [getFrom]
  | cons c stores ih =>
      obtain ⟨hc, h⟩ := List.forall_mem_cons.1 h
      rw [getFrom]
      cases hget : c.get key with
      | error why =>
          rw [ih h]
          cases unavailable <;> simp
      | ok found => rw [serves, hget] at hc; cases hc

/-- A password comes from a backend that holds one. -/
theorem mem_of_getFrom {key : String} {served : Bool} {unavailable : Option String}
    {stores : List SecretStore} {name v : String}
    (h : getFrom key served unavailable stores = .ok (some (name, v))) :
    ∃ c ∈ stores, c.holds key = true ∧ c.name = name := by
  induction stores generalizing served unavailable with
  | nil => cases unavailable <;> cases served <;> cases h
  | cons c stores ih =>
      rw [getFrom] at h
      cases hget : c.get key with
      | error why =>
          rw [hget] at h
          obtain ⟨d, hd, hholds, hname⟩ := ih h
          exact ⟨d, List.mem_cons_of_mem c hd, hholds, hname⟩
      | ok found =>
          rw [hget] at h
          cases found with
          | none =>
              obtain ⟨d, hd, hholds, hname⟩ := ih h
              exact ⟨d, List.mem_cons_of_mem c hd, hholds, hname⟩
          | some w =>
              cases h
              exact ⟨c, List.mem_cons_self, by rw [holds, hget], rfl⟩

/-- Backends that answer alike, name by name, make a lookup answer alike. -/
theorem getFrom_congr {key : String} {f : SecretStore → SecretStore} {stores : List SecretStore}
    (h : ∀ b ∈ stores, (f b).get key = b.get key ∧ (f b).name = b.name) (served : Bool)
    (unavailable : Option String) :
    getFrom key served unavailable (stores.map f) = getFrom key served unavailable stores := by
  induction stores generalizing served unavailable with
  | nil => rfl
  | cons b stores ih =>
      obtain ⟨⟨hget, hname⟩, h⟩ := List.forall_mem_cons.1 h
      rw [List.map_cons, getFrom, getFrom, hget, hname]
      cases b.get key with
      | error why => exact ih h _ _
      | ok found =>
          cases found with
          | none => exact ih h _ _
          | some v => rfl

theorem get_of_holds {b : SecretStore} {key : String} (h : b.holds key = true) :
    ∃ v, b.get key = .ok (some v) := by
  rw [holds] at h
  split at h
  · exact ⟨_, ‹_›⟩
  · cases h

theorem holds_after {b : SecretStore} {key key' : String} (h : b.holds key' = false) :
    (b.after key).holds key' = false := by
  rw [holds, get_after]
  split_ifs
  · rfl
  · exact h

/-- **A lookup after a deletion** answers what it answered before if and only if the deletion takes
nothing from the backends its answer rests on. -/
theorem get_delete_iff (s : Secrets) (key key' : String) :
    (s.delete key).get key' = s.get key' ↔ ∀ b ∈ s.deciding key', b.drops key key' = false := by
  have hname (b : SecretStore) : (b.after key).name = b.name := name_after b key
  change getFrom key' false none (s.stores.map fun b => b.after key) =
    getFrom key' false none s.stores ↔ _
  rw [deciding]
  cases hfind : s.stores.find? fun b => b.holds key' with
  | some b =>
      obtain ⟨hb, older, later, hstores, holder⟩ := List.find?_eq_some_iff_append.1 hfind
      obtain ⟨v, hv⟩ := get_of_holds hb
      have hbefore : ∀ c ∈ older, c.holds key' = false := by simpa using holder
      have hafter : ∀ c ∈ older.map (fun b => b.after key), c.holds key' = false := by
        intro c hc
        obtain ⟨d, hd, rfl⟩ := List.mem_map.1 hc
        exact holds_after (hbefore d hd)
      rw [hstores, List.map_append, List.map_cons, getFrom_of_holds hbefore hv]
      simp only [List.mem_singleton, forall_eq]
      constructor
      · intro heq
        -- were it dropped, the password would come from a later backend, of another name
        by_contra hdrops
        rw [Bool.not_eq_false] at hdrops
        obtain ⟨c, hmem, hc, hcname⟩ := mem_of_getFrom heq
        rcases List.mem_append.1 hmem with hmem | hmem
        · rw [hafter c hmem] at hc
          cases hc
        rcases List.mem_cons.1 hmem with rfl | hmem
        · simp [holds, get_after, hdrops] at hc
        obtain ⟨d, hd, rfl⟩ := List.mem_map.1 hmem
        have hnodup := s.nodup
        rw [hstores, List.map_append, List.map_cons] at hnodup
        have hlater := (List.nodup_cons.1 (List.Nodup.of_append_right hnodup)).1
        exact hlater (List.mem_map.2 ⟨d, hd, (hname d).symm.trans hcname⟩)
      · intro hdrops
        have hget : (b.after key).get key' = .ok (some v) := by
          rw [get_after, hdrops]
          exact hv
        rw [getFrom_of_holds hafter hget, hname]
  | none =>
      have hnone : ∀ c ∈ s.stores, c.holds key' = false := by
        simpa using List.find?_eq_none.1 hfind
      have hafter : ∀ c ∈ s.stores.map (fun b => b.after key), c.holds key' = false := by
        intro c hc
        obtain ⟨d, hd, rfl⟩ := List.mem_map.1 hc
        exact holds_after (hnone d hd)
      cases hserved : s.stores.any fun b => b.serves key' with
      | true =>
          have hserved' : (s.stores.map fun b => b.after key).any (fun b => b.serves key') = true := by
            rw [List.any_eq_true] at hserved
            obtain ⟨b, hb, hserves⟩ := hserved
            rw [List.any_map, List.any_eq_true]
            refine ⟨b, hb, ?_⟩
            rw [Function.comp_apply, serves, get_after]
            split_ifs
            · rfl
            · exact hserves
          rw [getFrom_of_not_holds hafter (Or.inr hserved'),
            getFrom_of_not_holds hnone (Or.inr hserved)]
          simp
      | false =>
          have hsilent : ∀ b ∈ s.stores, b.serves key' = false := by simpa using hserved
          simp only [Bool.false_eq_true, if_false]
          constructor
          · intro heq b hb
            -- a backend that lost its unreadable entry answers, and the lookup with it
            by_contra hdrops
            rw [Bool.not_eq_false] at hdrops
            have hserved' : (s.stores.map fun b => b.after key).any (fun b => b.serves key') =
                true := by
              rw [List.any_map, List.any_eq_true]
              refine ⟨b, hb, ?_⟩
              rw [Function.comp_apply, serves, get_after, hdrops]
              rfl
            rw [getFrom_of_not_holds hafter (Or.inr hserved')] at heq
            have hnil := ((getFrom_of_not_serves hsilent).1 heq.symm).2
            rw [hnil] at hb
            cases hb
          · intro hdrops
            refine getFrom_congr (fun b hb => ⟨?_, hname b⟩) false none
            rw [get_after, hdrops b hb]
            rfl

end Secrets

end Nutsh.Contexts
