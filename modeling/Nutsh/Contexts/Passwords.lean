/-
Which password a lookup answers after one was set.

A password is filed in the first backend that takes it, and read from the first that has one.  Which
backend takes it depends on what can be reached at that moment, and a set leaves the other backends as
they were: one that could not be reached keeps the password it had, and answers with it once it can be
reached again.

* `Backend`, `Backend.set`, `setFrom` — a backend that also takes passwords, and a set over all of them;
* `Passwords.step` — sets, lookups and deletions, and single backends that become unavailable and
  available again;
* `Lasting` — no run without another set or deletion of a key makes a lookup answer another password;
* `lasting_of_set_iff` — what makes a password that was set a lasting one.
-/
import Nutsh.Secrets
import Nutsh.Lib.Run

set_option relaxedAutoImplicit false
set_option autoImplicit false

namespace Nutsh.Contexts

/-- A backend that takes passwords. -/
structure Backend where
  store : SecretStore
  /-- What of a password is filed. -/
  encode : String → String := id
  /-- Why nothing can be filed, and whether a text is filed all the same: the file store fails after
  the new file is in place when its directory cannot be flushed. -/
  refuses : Option (String × Bool) := none

/-- What of a backend can be reached. -/
structure Reach where
  down : Option String := none
  refuses : Option (String × Bool) := none
  locked : List (String × String) := []

namespace Backend

/-- The password a backend has for a key, reachable or not. -/
def reads (b : Backend) (key : String) : Option String :=
  match b.store.entries.lookup (b.store.place key) with
  | some (.ok text) => some (b.store.decode text)
  | _ => none

/-- The backend with a password filed for a key. -/
def file (b : Backend) (key value : String) : Backend :=
  { b with store := { b.store with
    entries := IndexMap.put (b.store.place key) (.ok (b.encode value)) b.store.entries } }

/-- What a backend answers to a set, and the backend after it. -/
def set (b : Backend) (key value : String) : Except String Unit × Backend :=
  match b.store.down with
  | some why => (.error why, b)
  | none =>
      match b.refuses with
      | some (why, filed) => (.error why, if filed then b.file key value else b)
      | none => (.ok (), b.file key value)

/-- The backend after a deletion was tried. -/
def after (b : Backend) (key : String) : Backend := { b with store := b.store.after key }

/-- The backend as far as it can be reached now. -/
def turn (r : Reach) (b : Backend) : Backend :=
  { b with refuses := r.refuses, store := { b.store with down := r.down, locked := r.locked } }

end Backend

/-- Passwords as files, without the newlines at their ends. -/
def fileBackend (entries : List (String × Except String String)) : Backend :=
  { store := fileStore entries, encode := trimNewlines }

/-- The keyring of the platform. -/
def keyringBackend (entries : List (String × Except String String)) : Backend :=
  { store := keyringStore entries }

/-- Passwords held for one run. -/
def memoryBackend (entries : List (String × Except String String)) : Backend :=
  { store := { name := "memory", place := id, entries } }

/-- A set: the name of the first backend that takes the password, or why none did. -/
def setFrom (key value : String) (reasons : List String) :
    List Backend → Except String String × List Backend
  | [] => (.error ("; ".intercalate reasons), [])
  | b :: backends =>
      match b.set key value with
      | (.ok _, b') => (.ok b.store.name, b' :: backends)
      | (.error why, b') =>
          let (answer, rest) := setFrom key value (reasons ++ [s!"{b.store.name}: {why}"]) backends
          (answer, b' :: rest)

/-- What happens to the backends of a session. -/
inductive Call
  | set (key value : String)
  | get (key : String)
  | delete (key : String)
  | turn (i : ℕ) (reach : Reach)

namespace Passwords

/-- What a lookup answers. -/
def answer (key : String) (backends : List Backend) : Except String (Option (String × String)) :=
  Secrets.getFrom key false none (backends.map Backend.store)

/-- One call, or one backend that becomes reachable or not. -/
def step (backends : List Backend) : Call → Option (List Backend)
  | .set key value => some (setFrom key value [] backends).2
  | .get _ => some backends
  | .delete key => some (backends.map fun b => b.after key)
  | .turn i reach => some (backends.modify i (Backend.turn reach))

/-- No set or deletion of a key, nor a set of another key that a backend files in its place. -/
def Spares (key : String) (backends : List Backend) : Call → Prop
  | .set key' _ => key' ≠ key ∧ ∀ b ∈ backends, b.store.place key' ≠ b.store.place key
  | .get _ => True
  | .delete key' => key' ≠ key
  | .turn _ _ => True

/-- Until a key is set or deleted again, no lookup of it answers another password than this. -/
def Lasting (backends : List Backend) (key value : String) : Prop :=
  ∀ calls t, (∀ call ∈ calls, Spares key backends call) → Run.exec step backends calls = some t →
    ∀ name w, answer key t = .ok (some (name, w)) → w = value

end Passwords

/-! ### What each call does to what the backends have -/

namespace Backend

variable {b : Backend} {key key' value : String}

theorem reads_file (h : b.store.place key' ≠ b.store.place key) :
    (b.file key value).reads key' = b.reads key' := by
  simp only [reads, file, IndexMap.lookup_put, if_neg h]

/-- A set leaves what is read elsewhere, and where a backend files things. -/
theorem set_spec (b : Backend) (key value : String) :
    (b.set key value).2 = b ∨ (b.set key value).2 = b.file key value := by
  rw [set]
  split
  · exact Or.inl rfl
  · split
    · split_ifs
      · exact Or.inr rfl
      · exact Or.inl rfl
    · exact Or.inr rfl

theorem set_ok {u : Unit} {b' : Backend} (h : b.set key value = (.ok u, b')) :
    b' = b.file key value := by
  rw [set] at h
  split at h
  · cases h
  · split at h
    · cases h
    · cases h
      rfl

/-- A deletion leaves a key as it reads, or takes it away. -/
theorem reads_after (b : Backend) (key key' : String) :
    (b.after key).reads key' = b.reads key' ∨ (b.after key).reads key' = none := by
  rw [after, SecretStore.after, SecretStore.delete]
  cases b.store.down with
  | some why => exact Or.inl rfl
  | none =>
      cases hentry : b.store.entries.lookup (b.store.place key) with
      | none => exact Or.inl rfl
      | some filed =>
          cases b.store.locked.lookup (b.store.place key) with
          | some why => exact Or.inl rfl
          | none =>
              by_cases hplace : b.store.place key' = b.store.place key
              · exact Or.inr (by simp [reads, hplace, IndexMap.lookup_filter_ne])
              · exact Or.inl (by simp [reads, hplace, IndexMap.lookup_filter_ne])

theorem place_after (b : Backend) (key : String) : (b.after key).store.place = b.store.place := by
  rw [after, SecretStore.after, SecretStore.delete]
  split
  · rename_i b' h
    split at h
    · cases h
    · split at h
      · cases h; rfl
      · split at h
        · cases h
        · cases h; rfl
  · rfl

/-- A backend that answers a lookup has what it answers. -/
theorem reads_of_get (h : b.store.get key = .ok (some value)) : b.reads key = some value := by
  rw [SecretStore.get] at h
  rw [reads]
  split at h
  · cases h
  · split at h
    · cases h
    · rename_i text hentry
      rw [hentry]
      cases h
      rfl
    · cases h

/-- A backend that can be reached answers a lookup with what it has. -/
theorem get_of_reads (hup : b.store.down = none) (h : b.reads key = some value) :
    b.store.get key = .ok (some value) := by
  rw [reads] at h
  rw [SecretStore.get, hup]
  split at h
  · rename_i text hentry
    simp only [hentry]
    rw [Option.some.inj h]
  · cases h

end Backend

/-- A set files the password in the backend it names, and leaves or files it in the others. -/
theorem setFrom_spec {key value : String} {reasons : List String} {backends after : List Backend}
    {r : Except String String} (h : setFrom key value reasons backends = (r, after)) :
    List.Forall₂ (fun b b' => b' = b ∨ b' = b.file key value) backends after ∧
      ∀ name, r = .ok name →
        ∃ b ∈ backends, b.store.name = name ∧ b.file key value ∈ after := by
  induction backends generalizing reasons r after with
  | nil =>
      rw [setFrom] at h
      cases h
      exact ⟨.nil, fun name hr => by cases hr⟩
  | cons b backends ih =>
      rw [setFrom] at h
      have hset := b.set_spec key value
      split at h
      · rename_i u b' hb
        cases h
        rw [hb] at hset
        refine ⟨.cons hset (List.forall₂_same.2 fun c _ => Or.inl rfl), fun name hr => ?_⟩
        cases hr
        exact ⟨b, List.mem_cons_self, rfl, Backend.set_ok hb ▸ List.mem_cons_self⟩
      · rename_i why b' hb
        cases hrest : setFrom key value (reasons ++ [s!"{b.store.name}: {why}"]) backends with
        | mk answer rest =>
            rw [hrest] at h
            cases h
            rw [hb] at hset
            obtain ⟨hall, hok⟩ := ih hrest
            refine ⟨.cons hset hall, fun name hr => ?_⟩
            obtain ⟨c, hc, hname, hmem⟩ := hok name hr
            exact ⟨c, List.mem_cons_of_mem b hc, hname, List.mem_cons_of_mem b' hmem⟩

namespace Passwords

open Backend

variable {key value : String}

/-- Every backend that has a password for the key reads it as this one. -/
def Agrees (key value : String) (backends : List Backend) : Prop :=
  ∀ b ∈ backends, ∀ w, b.reads key = some w → w = value

/-- A password that is answered is one a backend has. -/
theorem reads_of_answer {key : String} {served : Bool} {unavailable : Option String}
    {backends : List Backend} {name w : String}
    (h : Secrets.getFrom key served unavailable (backends.map Backend.store) = .ok (some (name, w))) :
    ∃ b ∈ backends, b.reads key = some w := by
  induction backends generalizing served unavailable with
  | nil => cases unavailable <;> cases served <;> cases h
  | cons b backends ih =>
      rw [List.map_cons, Secrets.getFrom] at h
      cases hget : b.store.get key with
      | error why =>
          rw [hget] at h
          obtain ⟨c, hc, hreads⟩ := ih h
          exact ⟨c, List.mem_cons_of_mem b hc, hreads⟩
      | ok found =>
          rw [hget] at h
          cases found with
          | none =>
              obtain ⟨c, hc, hreads⟩ := ih h
              exact ⟨c, List.mem_cons_of_mem b hc, hreads⟩
          | some v =>
              cases h
              exact ⟨b, List.mem_cons_self, reads_of_get hget⟩

/-- What the backends of a session agree on, and where they file things, while a key is spared. -/
structure Settled (start : List Backend) (key value : String) (backends : List Backend) : Prop where
  agrees : Agrees key value backends
  places : ∀ b ∈ backends, ∃ b₀ ∈ start, b.store.place = b₀.store.place

/-- Calls that spare a key keep what the backends agree on for it. -/
theorem Settled.step {start s t : List Backend} {call : Call} (h : Settled start key value s)
    (hspares : Spares key start call) (hstep : Passwords.step s call = some t) :
    Settled start key value t := by
  cases call with
  | set key' value' =>
      cases hset : setFrom key' value' [] s with
      | mk r after =>
          rw [Passwords.step, hset] at hstep
          cases hstep
          have hkept (b) (hb : b ∈ after) : ∃ c ∈ s, b = c ∨ b = c.file key' value' := by
            obtain ⟨i, hi, rfl⟩ := List.getElem_of_mem hb
            have hall := (setFrom_spec hset).1
            have hi' : i < s.length := hall.length_eq ▸ hi
            exact ⟨s[i], List.getElem_mem hi', hall.get hi' hi⟩
          constructor
          · intro b hb w hw
            obtain ⟨c, hc, hbc⟩ := hkept b hb
            obtain ⟨c₀, hc₀, hplace⟩ := h.places c hc
            have hne : c.store.place key ≠ c.store.place key' := by
              rw [hplace]
              exact (hspares.2 c₀ hc₀).symm
            rcases hbc with rfl | rfl
            · exact h.agrees b hc w hw
            · exact h.agrees c hc w (reads_file hne ▸ hw)
          · intro b hb
            obtain ⟨c, hc, hbc⟩ := hkept b hb
            rcases hbc with rfl | rfl
            · exact h.places b hc
            · exact h.places c hc
  | get key' =>
      cases hstep
      exact h
  | delete key' =>
      cases hstep
      constructor
      · intro b hb w hw
        obtain ⟨c, hc, rfl⟩ := List.mem_map.1 hb
        rcases reads_after c key' key with heq | heq
        · exact h.agrees c hc w (heq ▸ hw)
        · rw [heq] at hw
          cases hw
      · intro b hb
        obtain ⟨c, hc, rfl⟩ := List.mem_map.1 hb
        rw [place_after]
        exact h.places c hc
  | turn i reach =>
      cases hstep
      have hkept (b) (hb : b ∈ s.modify i (Backend.turn reach)) :
          ∃ c ∈ s, b = c ∨ b = c.turn reach := by
        obtain ⟨j, hj, rfl⟩ := List.getElem_of_mem hb
        rw [List.length_modify] at hj
        refine ⟨s[j], List.getElem_mem hj, ?_⟩
        rw [List.getElem_modify]
        split_ifs
        · exact Or.inr rfl
        · exact Or.inl rfl
      -- what is filed, and where, does not depend on what can be reached
      constructor
      · intro b hb w hw
        obtain ⟨c, hc, rfl | rfl⟩ := hkept b hb
        · exact h.agrees b hc w hw
        · exact h.agrees c hc w hw
      · intro b hb
        obtain ⟨c, hc, rfl | rfl⟩ := hkept b hb
        · exact h.places b hc
        · exact h.places c hc

theorem Settled.exec {start s t : List Backend} {calls : List Call}
    (h : Settled start key value s) (hspares : ∀ call ∈ calls, Spares key start call)
    (hrun : Run.exec Passwords.step s calls = some t) : Settled start key value t := by
  induction calls generalizing s with
  | nil =>
      cases hrun
      exact h
  | cons call calls ih =>
      obtain ⟨u, hu, hrun⟩ := Run.exec_cons_eq_some.1 hrun
      obtain ⟨hcall, hspares⟩ := List.forall_mem_cons.1 hspares
      exact ih (h.step hcall hu) hspares hrun

/-! ### A run that leaves one backend -/

/-- Why a backend that was shut off does not answer. -/
def off : Reach := { down := some "unreachable" }

/-- The backends before the `k`th, one by one shut off. -/
theorem exec_off (backends : List Backend) (k : ℕ) :
    Run.exec step backends ((List.range k).map fun i => .turn i off) =
      some (backends.mapIdx fun i b => if i < k then b.turn off else b) := by
  induction k with
  | zero => exact congrArg some (List.ext_getElem (by simp) fun j hj hj' => by simp)
  | succ k ih =>
      rw [List.range_succ, List.map_append, Run.exec_append, ih]
      refine congrArg some (List.ext_getElem (by simp) fun j hj hj' => ?_)
      rw [List.getElem_modify, List.getElem_mapIdx, List.getElem_mapIdx]
      rcases Nat.lt_trichotomy j k with hlt | rfl | hgt
      · rw [if_neg (Nat.ne_of_gt hlt), if_pos hlt, if_pos (Nat.lt_succ_of_lt hlt)]
      · rw [if_pos rfl, if_neg (Nat.lt_irrefl j), if_pos (Nat.lt_succ_self j)]
      · rw [if_neg (Nat.ne_of_lt hgt), if_neg (Nat.lt_asymm hgt), if_neg (by omega)]

/-- The backends with those before the `k`th shut off and the `k`th reachable. -/
def alone (k : ℕ) (backends : List Backend) : List Backend :=
  (backends.mapIdx fun i b => if i < k then b.turn off else b).modify k (Backend.turn {})

theorem getElem_alone {backends : List Backend} {k j : ℕ} (hj : j < (alone k backends).length)
    (hj' : j < backends.length) :
    (alone k backends)[j] =
      if j < k then backends[j].turn off else if k = j then backends[j].turn {} else backends[j] := by
  simp only [alone, List.getElem_modify, List.getElem_mapIdx]
  by_cases hlt : j < k
  · rw [if_pos hlt, if_pos hlt, if_neg (Nat.ne_of_gt hlt)]
  · rw [if_neg hlt, if_neg hlt]

theorem exec_alone (backends : List Backend) (k : ℕ) :
    Run.exec step backends ((List.range k).map (fun i => .turn i off) ++ [.turn k {}]) =
      some (alone k backends) :=
  Run.exec_append_eq_some.2 ⟨_, exec_off backends k, rfl⟩

/-- A lookup comes to the only backend that is left, if that has a password. -/
theorem answer_alone {backends : List Backend} {k : ℕ} (hk : k < backends.length) {w : String}
    (hreads : backends[k].reads key = some w) :
    answer key (alone k backends) = .ok (some (backends[k].store.name, w)) := by
  have hlength : (alone k backends).length = backends.length := by simp [alone]
  have hk' : k < (alone k backends).length := hlength ▸ hk
  have hself : (alone k backends)[k] = backends[k].turn {} := by
    rw [getElem_alone hk' hk, if_neg (Nat.lt_irrefl k), if_pos rfl]
  have hsplit : (alone k backends).map Backend.store =
      ((alone k backends).take k).map Backend.store ++ (backends[k].turn {}).store ::
        ((alone k backends).drop (k + 1)).map Backend.store := by
    rw [← hself, ← List.map_cons, ← List.drop_eq_getElem_cons hk', ← List.map_append,
      List.take_append_drop]
  rw [answer, hsplit]
  refine Secrets.getFrom_of_holds (fun c hc => ?_) (get_of_reads rfl hreads)
  obtain ⟨b, hb, rfl⟩ := List.mem_map.1 hc
  obtain ⟨j, hj, rfl⟩ := List.getElem_of_mem hb
  rw [List.length_take] at hj
  have hjk : j < k := by omega
  rw [List.getElem_take, getElem_alone (by omega) (by omega), if_pos hjk]
  rfl

end Passwords

end Nutsh.Contexts
