/-
The files passwords are kept in.

A password is kept in a file of one directory, named by the account with its colons and slashes replaced
by underscores.  The name is never one that leads out of the directory.  An account may have underscores
of its own, so the files of two accounts may be one: then each reads, and deletes, what was stored for the
other.

* `Account`, `pathFor` — an account, and its file;
* `Filed`, `Filed.step` — sets, lookups and deletions, with the account each file was last written for;
* `Separate` — accounts whose passwords are apart in every run;
* `separate_iff` — they are exactly when no two keys differ in nothing but the characters replaced.
-/
import Nutsh.Contexts
import Nutsh.Contexts.Passwords

set_option relaxedAutoImplicit false
set_option autoImplicit false

namespace Nutsh.Contexts

/-- Who a password is of. -/
structure Account where
  username : String
  host : String
  port : UInt16

def Account.key (a : Account) : String := secretKey a.username a.host a.port

/-- A path below a directory; an absolute one stands for itself. -/
def join (dir path : String) : String :=
  if Text.startsWith "/" path then path
  else if dir = "" ∨ Text.endsWith "/" dir then dir ++ path
  else dir ++ ("/" ++ path)

/-- The name of the file of a key. -/
def fileName (key : String) : String := (fileStore []).place key

/-- The file of a key. -/
def pathFor (dir key : String) : String := join dir (fileName key)

/-! ### Names -/

/-- A name of a file, which does not lead elsewhere. -/
structure Plain (name : String) : Prop where
  ne_empty : name ≠ ""
  ne_dot : name ≠ "."
  ne_dots : name ≠ ".."
  flat : '/' ∉ name.toList

/-- The characters whose difference is lost in the name of a file. -/
def FOLDED : List Char := [':', '/', '_']

/-- Keys that differ in nothing but the characters replaced. -/
def Alike (key key' : String) : Prop :=
  List.Forall₂ (fun c d => c = d ∨ c ∈ FOLDED ∧ d ∈ FOLDED) key.toList key'.toList

def folded (c : Char) : Char := if c == ':' || c == '/' then '_' else c

theorem toList_fileName (key : String) : (fileName key).toList = key.toList.map folded := String.toList_map

theorem folded_eq_iff (c d : Char) : folded c = folded d ↔ c = d ∨ c ∈ FOLDED ∧ d ∈ FOLDED := by
  simp only [folded, FOLDED, Bool.or_eq_true, beq_iff_eq, List.mem_cons, List.not_mem_nil, or_false]
  split_ifs <;> grind

theorem fileName_eq_iff (key key' : String) : fileName key = fileName key' ↔ Alike key key' := by
  rw [← String.toList_inj, toList_fileName, toList_fileName, Alike, ← List.forall₂_eq_eq_eq,
    List.forall₂_map_left_iff, List.forall₂_map_right_iff]
  simp only [folded_eq_iff]

theorem at_mem_key (a : Account) : '@' ∈ a.key.toList := by
  have hat : '@' ∈ (toString "@").toList := List.mem_singleton.2 rfl
  simp [Account.key, secretKey, hat]

/-- The file of an account is one in the directory itself. -/
theorem plain_fileName (a : Account) : Plain (fileName a.key) := by
  have hat : '@' ∈ (fileName a.key).toList := by
    rw [toList_fileName]
    exact List.mem_map.2 ⟨'@', at_mem_key a, by decide⟩
  refine ⟨fun h => ?_, fun h => ?_, fun h => ?_, fun h => ?_⟩
  · rw [h] at hat
    exact absurd hat (by decide)
  · rw [h] at hat
    exact absurd hat (by decide)
  · rw [h] at hat
    exact absurd hat (by decide)
  · rw [toList_fileName] at h
    obtain ⟨c, -, hc⟩ := List.mem_map.1 h
    rw [folded] at hc
    split_ifs at hc with hsep
    · exact absurd hc (by decide)
    · simp [hc] at hsep

theorem join_of_plain {dir name : String} (h : Plain name) :
    join dir name = if dir = "" ∨ Text.endsWith "/" dir then dir ++ name else dir ++ ("/" ++ name) := by
  rw [join, if_neg]
  intro hstart
  obtain ⟨rest, hrest⟩ := List.isPrefixOf_iff_prefix.1 hstart
  exact h.flat (hrest ▸ List.mem_cons_self)

/-- Two files of a directory are one only if their names are. -/
theorem join_inj {dir name name' : String} (h : Plain name) (h' : Plain name') :
    join dir name = join dir name' ↔ name = name' := by
  rw [join_of_plain h, join_of_plain h']
  split_ifs <;> simp

/-! ### Runs -/

/-- The file store, and beside it the key each file was last written for. -/
structure Filed where
  backend : Backend := fileBackend []
  writer : List (String × String) := []

namespace Filed

/-- Whether a set puts a file in place. -/
def takes (b : Backend) : Bool := b.store.down.isNone && b.refuses.all Prod.snd

/-- One call, or the directory becoming reachable or not. -/
def step (s : Filed) : Call → Option Filed
  | .set key value =>
      some { backend := (s.backend.set key value).2
             writer := if takes s.backend then IndexMap.put (s.backend.store.place key) key s.writer
               else s.writer }
  | .get _ => some s
  | .delete key => some { s with backend := s.backend.after key }
  | .turn _ reach => some { s with backend := s.backend.turn reach }

/-- The key the file of a key was last written for. -/
def writtenFor (s : Filed) (key : String) : Option String := s.writer.lookup (s.backend.store.place key)

/-- A lookup returns, and a deletion removes, only what was stored for its own key. -/
def Own (s : Filed) : Call → Prop
  | .get key => ∀ v, s.backend.store.get key = .ok (some v) → s.writtenFor key = some key
  | .delete key =>
      ∀ text, s.backend.store.entries.lookup (s.backend.store.place key) = some text →
        s.backend.store.erases key = true → s.writtenFor key = some key
  | _ => True

end Filed

/-- A call for one of the accounts, or the directory becoming reachable or not. -/
def ForOne (accounts : Account → Prop) : Call → Prop
  | .set key _ => ∃ a, accounts a ∧ a.key = key
  | .get key => ∃ a, accounts a ∧ a.key = key
  | .delete key => ∃ a, accounts a ∧ a.key = key
  | .turn _ _ => True

/-- Accounts whose passwords are kept apart. -/
structure Separate (dir : String) (accounts : Account → Prop) : Prop where
  /-- Every file is one of the directory itself. -/
  inside : ∀ a, accounts a → ∃ name, Plain name ∧ pathFor dir a.key = join dir name
  /-- Accounts with different keys have different files. -/
  files : ∀ a b, accounts a → accounts b → a.key ≠ b.key → pathFor dir a.key ≠ pathFor dir b.key
  /-- In every run a lookup returns and a deletion removes only an account's own password. -/
  runs : ∀ calls, (∀ call ∈ calls, ForOne accounts call) → Run.Along Filed.step Filed.Own {} calls

/-- No two keys of the accounts differ in nothing but the characters replaced. -/
def Distinct (accounts : Account → Prop) : Prop :=
  ∀ a b, accounts a → accounts b → Alike a.key b.key → a.key = b.key

namespace Filed

/-- A file is there only after it was written for one of the accounts that it is the file of. -/
structure Inv (accounts : Account → Prop) (s : Filed) : Prop where
  place : s.backend.store.place = fileName
  written : ∀ name text, s.backend.store.entries.lookup name = some text →
    ∃ a, accounts a ∧ fileName a.key = name ∧ s.writer.lookup name = some a.key

variable {accounts : Account → Prop} {s t : Filed}

theorem set_of_takes {b : Backend} (h : takes b = true) (key value : String) :
    (b.set key value).2 = b.file key value := by
  rw [takes, Bool.and_eq_true, Option.isNone_iff_eq_none] at h
  rw [Backend.set, h.1]
  cases hrefuses : b.refuses with
  | none => rfl
  | some r =>
      have hfiled : r.2 = true := by simpa [hrefuses] using h.2
      simp [hfiled]

theorem set_of_not_takes {b : Backend} (h : ¬ takes b = true) (key value : String) :
    (b.set key value).2 = b := by
  rw [Backend.set]
  cases hdown : b.store.down with
  | some why => rfl
  | none =>
      cases hrefuses : b.refuses with
      | none => exact absurd (by simp [takes, hdown, hrefuses]) h
      | some r =>
          obtain ⟨why, filed⟩ := r
          cases filed with
          | true => exact absurd (by simp [takes, hdown, hrefuses]) h
          | false => rfl

/-- A deletion leaves a file as it was, or takes it away. -/
theorem lookup_after (b : Backend) (key name : String) :
    (b.after key).store.entries.lookup name = b.store.entries.lookup name ∨
      (b.after key).store.entries.lookup name = none := by
  rw [Backend.after, SecretStore.after, SecretStore.delete]
  cases b.store.down with
  | some why => exact Or.inl rfl
  | none =>
      cases b.store.entries.lookup (b.store.place key) with
      | none => exact Or.inl rfl
      | some filed =>
          cases b.store.locked.lookup (b.store.place key) with
          | some why => exact Or.inl rfl
          | none =>
              by_cases hname : name = b.store.place key
              · exact Or.inr (by simp [hname, IndexMap.lookup_filter_ne])
              · exact Or.inl (by simp [hname, IndexMap.lookup_filter_ne])

theorem Inv.step {call : Call} (h : Inv accounts s) (hcall : ForOne accounts call)
    (hstep : Filed.step s call = some t) : Inv accounts t := by
  cases call with
  | set key value =>
      obtain ⟨a, ha, rfl⟩ := hcall
      cases hstep
      by_cases htakes : takes s.backend = true
      · refine ⟨by rw [set_of_takes htakes]; exact h.place, fun name text hname => ?_⟩
        rw [if_pos htakes, IndexMap.lookup_put]
        simp only [set_of_takes htakes, Backend.file, IndexMap.lookup_put, h.place] at hname ⊢
        split_ifs at hname ⊢ with heq
        · exact ⟨a, ha, heq.symm, rfl⟩
        · exact h.written name text hname
      · rw [set_of_not_takes htakes, if_neg htakes]
        exact h
  | get key =>
      cases hstep
      exact h
  | delete key =>
      cases hstep
      refine ⟨(Backend.place_after s.backend key).trans h.place, fun name text hname => ?_⟩
      rcases lookup_after s.backend key name with heq | heq
      · exact h.written name text (heq ▸ hname)
      · rw [heq] at hname
        cases hname
  | turn i reach =>
      cases hstep
      exact ⟨h.place, h.written⟩

/-- What is in the file of an account was stored for it, where the keys are distinct. -/
theorem Inv.writtenFor {a : Account} (h : Inv accounts s) (hdistinct : Distinct accounts)
    (ha : accounts a) {text : Except String String}
    (hlookup : s.backend.store.entries.lookup (s.backend.store.place a.key) = some text) :
    s.writtenFor a.key = some a.key := by
  rw [Filed.writtenFor]
  rw [h.place] at hlookup ⊢
  obtain ⟨b, hb, hname, hwriter⟩ := h.written _ text hlookup
  rw [hwriter, hdistinct b a hb ha ((fileName_eq_iff b.key a.key).1 hname)]

theorem Inv.own {call : Call} (h : Inv accounts s) (hdistinct : Distinct accounts)
    (hcall : ForOne accounts call) : Own s call := by
  cases call with
  | set key value => trivial
  | get key =>
      obtain ⟨a, ha, rfl⟩ := hcall
      intro v hv
      rw [SecretStore.get] at hv
      split at hv
      · cases hv
      · split at hv
        · cases hv
        · rename_i hlookup
          exact h.writtenFor hdistinct ha hlookup
        · cases hv
  | delete key =>
      obtain ⟨a, ha, rfl⟩ := hcall
      intro text hlookup _
      exact h.writtenFor hdistinct ha hlookup
  | turn i reach => trivial

theorem inv_start (accounts : Account → Prop) : Inv accounts {} := ⟨rfl, fun name text h => by cases h⟩

/-- Distinct keys keep the passwords apart in every run. -/
theorem own_along (hdistinct : Distinct accounts) {calls : List Call}
    (hcalls : ∀ call ∈ calls, ForOne accounts call) (hs : Inv accounts s) :
    Run.Along Filed.step Own s calls := by
  induction calls generalizing s with
  | nil => trivial
  | cons call calls ih =>
      obtain ⟨hcall, hcalls⟩ := List.forall_mem_cons.1 hcalls
      exact ⟨hs.own hdistinct hcall, fun t ht => ih hcalls (hs.step hcall ht)⟩

end Filed

/-- The run in which a password is stored. -/
theorem exec_set (key value : String) :
    Run.exec Filed.step {} [.set key value] =
      some { backend := (fileBackend []).file key value, writer := [(fileName key, key)] } := rfl

/-- Where two keys are alike, what was stored for the one is what the other is answered, and a deletion for
the other removes it. -/
theorem shared_of_alike {key key' : String} (h : Alike key key') (value : String) :
    ((fileBackend []).file key value).store.get key' = .ok (some (trimNewlines (trimNewlines value))) ∧
      (((fileBackend []).file key value).after key').store.get key = .ok none := by
  have hname : fileName key' = fileName key := ((fileName_eq_iff key key').2 h).symm
  have hlookup : ((fileBackend []).file key value).store.entries.lookup (fileName key') =
      some (.ok (trimNewlines value)) := by
    rw [hname]
    exact List.lookup_cons_self
  constructor
  · rw [SecretStore.get]
    exact hlookup ▸ rfl
  · rw [Backend.after, SecretStore.get_after, if_pos]
    simp only [SecretStore.drops, SecretStore.erases, Bool.and_eq_true, beq_iff_eq]
    exact ⟨⟨rfl, rfl⟩, hname.symm⟩

/-- Runs alone tell whether the keys are distinct: after one account stored a password, an account alike to it
is answered that password. -/
theorem distinct_of_runs {accounts : Account → Prop}
    (h : ∀ calls, (∀ call ∈ calls, ForOne accounts call) → Run.Along Filed.step Filed.Own {} calls) :
    Distinct accounts := by
  intro a b ha hb halike
  have hcalls : ∀ call ∈ [Call.set a.key "", .get b.key], ForOne accounts call := by
    intro call hcall
    rcases List.mem_pair.1 hcall with rfl | rfl
    · exact ⟨a, ha, rfl⟩
    · exact ⟨b, hb, rfl⟩
  have hown := (((h _ hcalls).2 _ rfl).1 : Filed.Own _ (.get b.key)) _ (shared_of_alike halike "").1
  have hwriter : [(fileName a.key, a.key)].lookup (fileName b.key) = some b.key := hown
  rw [(fileName_eq_iff a.key b.key).2 halike, List.lookup_cons_self] at hwriter
  exact Option.some.inj hwriter

/-- **Passwords are kept apart** exactly when no two keys of the accounts differ in nothing but colons,
slashes and underscores. -/
theorem separate_iff (dir : String) (accounts : Account → Prop) :
    Separate dir accounts ↔ Distinct accounts := by
  have hpath (a b : Account) : pathFor dir a.key = pathFor dir b.key ↔ Alike a.key b.key := by
    rw [pathFor, pathFor, join_inj (plain_fileName a) (plain_fileName b), fileName_eq_iff]
  constructor
  · intro h a b ha hb halike
    by_contra hne
    exact h.files a b ha hb hne ((hpath a b).2 halike)
  · intro hdistinct
    refine ⟨fun a _ => ⟨_, plain_fileName a, rfl⟩, fun a b ha hb hne hfile => ?_, fun calls hcalls => ?_⟩
    · exact hne (hdistinct a b ha hb ((hpath a b).1 hfile))
    · exact Filed.own_along hdistinct hcalls (Filed.inv_start accounts)

/-- `corp/admin` and `corp_admin` of one Prism Central: the second is answered the password of the first,
and deletes it. -/
theorem not_separate :
    ¬ (∀ dir accounts, Separate dir accounts) ∧
      (let first : Account := { username := "corp/admin", host := "pc.lab", port := 9440 }
       let second : Account := { username := "corp_admin", host := "pc.lab", port := 9440 }
       let stored := Run.exec Filed.step {} [.set first.key "secret"]
       first.key ≠ second.key ∧
         stored.map (fun s => s.backend.store.get second.key) = some (.ok (some "secret")) ∧
         (stored.bind fun s => Filed.step s (.delete second.key)).map
           (fun s => s.backend.store.get first.key) = some (.ok none)) := by
  have hname : fileName "corp/admin@pc.lab:9440" = fileName "corp_admin@pc.lab:9440" := by
    rw [← String.toList_inj, toList_fileName, toList_fileName]
    decide +kernel
  have hfirst : Account.key { username := "corp/admin", host := "pc.lab", port := 9440 } =
      "corp/admin@pc.lab:9440" := by decide +kernel
  have hsecond : Account.key { username := "corp_admin", host := "pc.lab", port := 9440 } =
      "corp_admin@pc.lab:9440" := by decide +kernel
  have hne : "corp/admin@pc.lab:9440" ≠ "corp_admin@pc.lab:9440" := by decide
  constructor
  · intro h
    have hfiles := (h "/s" fun _ => True).files { username := "corp/admin", host := "pc.lab", port := 9440 }
      { username := "corp_admin", host := "pc.lab", port := 9440 } trivial trivial
    rw [hfirst, hsecond, pathFor, pathFor, hname] at hfiles
    exact hfiles hne rfl
  · obtain ⟨hget, hdelete⟩ := shared_of_alike ((fileName_eq_iff _ _).1 hname) "secret"
    have htrim : trimNewlines (trimNewlines "secret") = "secret" := by decide +kernel
    simp only [hfirst, hsecond, exec_set, Option.map_some, Option.bind_some, Filed.step, hget, hdelete, htrim]
    exact ⟨hne, trivial, trivial⟩

end Nutsh.Contexts
