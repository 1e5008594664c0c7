/-
A directory of a newer format.

The three operations leave a directory alone whose `meta.json` they read as one of a newer format.  They
read the number of the format out of the whole record, so a newer `meta.json` that lacks a field of this
build, or has one of another type, does not read at all, and the directory is discarded like any that is
damaged.

Main definitions:

* `Op`, `Build.step`, `Build.run` — the operations on the cache, and a run of them;
* `isNewer` — a number past the format of this build.

Main results:

* `Build.leftAlone_of_newer` — no run touches a directory that reads as newer;
* `Build.leftAlone_iff` — no run touches a directory of a newer format exactly when its `meta.json` reads
  as a record of this build.
-/
import Nutsh.Cache

set_option relaxedAutoImplicit false
set_option autoImplicit false

namespace Nutsh.Cache

/-- What the program does to its cache. -/
inductive Op where
  | read (name : String) (target : Identity) (now : UInt64) (maxAge : ℕ)
  | write (name session : String) (snap : Snapshot) (now : UInt64)
  | sweep

/-- Whether a number is past the format of this build.  The bits of the doubles above one are in the
order of their values. -/
def isNewer : JsonNumber → Bool
  | .int n => 1 < n
  | .float bits => 0x3FF0000000000000 < bits && bits < 0x7FF0000000000000

namespace Build

variable {b : Build} {root : Root} {name : String} {d : Dir}

/-- One operation; a directory that is not there is created by a write alone. -/
def step (b : Build) (root : Root) : Op → Root
  | .read name target now maxAge =>
      match root.get? name with
      | none => root
      | some d => root.insert name (b.read d target now maxAge).2
  | .write name session snap now =>
      root.insert name (b.write session ((root.get? name).getD .empty) snap now)
  | .sweep => b.sweep root

def run (b : Build) (root : Root) (ops : List Op) : Root := ops.foldl b.step root

/-! ### A directory that reads as newer -/

theorem read_of_newer (h : b.Newer d) (target : Identity) (now : UInt64) (maxAge : ℕ) :
    b.read d target now maxAge = (none, d) := by
  obtain ⟨m, hm, hformat⟩ := h
  simp only [read, hm, if_pos hformat]

theorem write_of_newer (h : b.Newer d) (session : String) (snap : Snapshot) (now : UInt64) :
    b.write session d snap now = d :=
  if_pos (b.newer_iff.2 h)

theorem writtenAt_of_newer (h : b.Newer d) : b.writtenAt d = none := by
  obtain ⟨m, hm, hformat⟩ := h
  simp only [writtenAt, hm, if_pos hformat]

theorem get?_foldl_erase {names : List (ℕ × String)} (h : ∀ x ∈ names, x.2 ≠ name) (root : Root) :
    (names.foldl (fun root x => root.erase x.2) root).get? name = root.get? name := by
  induction names generalizing root with
  | nil => rfl
  | cons x names ih =>
      have hx : name ≠ x.2 := Ne.symm (h x List.mem_cons_self)
      rw [List.foldl_cons, ih (fun y hy => h y (List.mem_cons_of_mem _ hy)), IndexMap.get?_erase, if_neg hx]

/-- A sweep passes over a directory that reads as newer. -/
theorem get?_sweep_of_newer (hd : root.get? name = some d) (h : b.Newer d) :
    (b.sweep root).get? name = some d := by
  refine (get?_foldl_erase (fun x hx => ?_) root).trans hd
  have hmem := List.mem_mergeSort.1 (List.mem_of_mem_drop hx)
  obtain ⟨⟨n, d'⟩, he, hx⟩ := List.mem_filterMap.1 hmem
  obtain ⟨written, hwritten, rfl⟩ := Option.map_eq_some_iff.1 hx
  rintro rfl
  -- The entry would be the directory itself, which has no time it was written at.
  obtain rfl : d' = d := Option.some.inj ((IndexMap.get?_of_mem he).symm.trans hd)
  rw [writtenAt_of_newer h] at hwritten
  cases hwritten

theorem get?_step_of_newer (hd : root.get? name = some d) (h : b.Newer d) (op : Op) :
    (b.step root op).get? name = some d := by
  cases op with
  | read name' target now maxAge =>
      by_cases hname : name' = name
      · subst hname
        simp only [step, hd, read_of_newer h, IndexMap.get?_insert_self]
      · cases hd' : root.get? name' with
        | none => simpa only [step, hd'] using hd
        | some d' => simpa only [step, hd', IndexMap.get?_insert_ne (Ne.symm hname)] using hd
  | write name' session snap now =>
      by_cases hname : name' = name
      · subst hname
        simp only [step, hd, Option.getD_some, write_of_newer h, IndexMap.get?_insert_self]
      · simpa only [step, IndexMap.get?_insert_ne (Ne.symm hname)] using hd
  | sweep => exact get?_sweep_of_newer hd h

/-- **No run touches a directory that reads as one of a newer format.** -/
theorem leftAlone_of_newer (hd : root.get? name = some d) (h : b.Newer d) (ops : List Op) :
    (b.run root ops).get? name = some d := by
  induction ops generalizing root with
  | nil => exact hd
  | cons op ops ih => exact ih (get?_step_of_newer hd h op)

/-! ### A `meta.json` that does not read -/

/-- A read of a directory whose `meta.json` does not read takes it away. -/
theorem get?_read_of_unread (h : b.readMeta d = none) (target : Identity) (now : UInt64) (maxAge : ℕ) :
    (b.read d target now maxAge).2.get? metaName = none := by
  have hname : (metaName == historyName) = false := by decide
  simp only [read, h, discard, IndexMap.get?_keep, hname]
  rfl

/-! ### The number of the format -/

theorem format_of_int {n : ℤ} {k : UInt32} (h : Serde.uint32.de (.num (.int n)) = some k) :
    (k.toNat : ℤ) = n := by
  obtain ⟨i, hi, rfl⟩ := Option.map_eq_some_iff.1 h
  by_cases hn : 0 ≤ n ∧ n < UInt32.size
  · rw [Serde.natBelow, if_pos hn, Option.some.injEq] at hi
    have hlt : i < UInt32.size := by omega
    rw [UInt32.toNat_ofNat', Nat.mod_eq_of_lt hlt]
    omega
  · rw [Serde.natBelow, if_neg hn] at hi
    cases hi

/-- What is read of a document is of the format the document gives. -/
theorem format_of_de {doc : Json} {m : Meta} {n : JsonNumber} (h : Meta.serde.de doc = some m)
    (hdoc : doc.get "format" = some (.num n)) : n = .int m.format.toNat := by
  obtain ⟨slot, t, hslot, ht, rfl⟩ := Serde.record_eq_some h
  obtain ⟨hformat, -⟩ := Serde.Fields.de_cons_eq_some ht
  cases doc with
  | obj members =>
      rw [Serde.slot_of_obj hslot, show members.lookup "format" = some (.num n) from hdoc] at hformat
      cases n with
      | int n => exact congrArg JsonNumber.int (format_of_int hformat).symm
      | float bits => cases hformat
  | _ => cases hdoc

/-- **No run touches a directory of a newer format exactly when its `meta.json` reads as a record of this
build.** -/
theorem leftAlone_iff {text : String} {doc : Json} {n : JsonNumber} (hd : root.get? name = some d)
    (hmeta : d.get? metaName = some text) (hparse : b.codec.parse text = .ok doc)
    (hdoc : doc.get "format" = some (.num n)) (hnewer : isNewer n = true) :
    (∀ ops, (b.run root ops).get? name = some d) ↔ (Meta.serde.de doc).isSome = true := by
  have hread : b.readMeta d = Meta.serde.de doc := by
    simp only [readMeta, hmeta, Option.bind_some, document, hparse]
    rfl
  constructor
  · intro h
    by_contra hnone
    rw [Option.not_isSome_iff_eq_none, ← hread] at hnone
    have hrun := h [.read name ⟨"", 0, "", none, none⟩ 0 0]
    rw [run, List.foldl_cons, List.foldl_nil, step, hd] at hrun
    simp only [IndexMap.get?_insert_self, Option.some.injEq] at hrun
    have hgone := get?_read_of_unread hnone ⟨"", 0, "", none, none⟩ 0 0
    rw [hrun, hmeta] at hgone
    cases hgone
  · intro h
    obtain ⟨m, hm⟩ := Option.isSome_iff_exists.1 h
    have hformat : FORMAT < m.format := by
      have hn := format_of_de hm hdoc
      subst hn
      have hlt : (1 : ℤ) < m.format.toNat := by simpa [isNewer] using hnewer
      have hlt : 1 < m.format.toNat := by exact_mod_cast hlt
      exact UInt32.lt_iff_toNat_lt.2 hlt
    exact leftAlone_of_newer hd ⟨m, hread.trans hm, hformat⟩

/-! ### Two newer directories -/

/-- A document of format 2 with nothing else in it. -/
def bareDoc : Json := .obj [("format", .num (.int 2))]

def bareText : String := "\x7b\"format\":2\x7d"

/-- A document of format 2 with a field more than this build knows. -/
def grownDoc : Json :=
  .obj [("format", .num (.int 2)), ("written", .num (.int 5)), ("session", .str "s"),
    ("app_version", .str "9"),
    ("identity", .obj [("host", .str "pc"), ("port", .num (.int 9440)), ("username", .str "admin")]),
    ("pins", .obj []), ("namespaces", .arr []), ("names", .arr []), ("tables", .arr []),
    ("zones", .arr [])]

def grownText : String :=
  "\x7b\"format\":2,\"written\":5,\"session\":\"s\",\"app_version\":\"9\",\"identity\":" ++
    "\x7b\"host\":\"pc\",\"port\":9440,\"username\":\"admin\"\x7d,\"pins\":\x7b\x7d," ++
    "\"namespaces\":[],\"names\":[],\"tables\":[],\"zones\":[]\x7d"

/-- A codec that knows these two texts. -/
def twoTexts : Codec where
  parse text :=
    if text = bareText then .ok bareDoc else if text = grownText then .ok grownDoc else .error "not asked"
  print _ := ""
  rfc3339 _ := ""

def twoBuild : Build := { codec := twoTexts, catalog := [vmKind], version := "1" }

/-- A directory with nothing but its `meta.json`. -/
def metaDir (text : String) : Dir := IndexMap.empty.insert metaName text

theorem parse_grownText : twoTexts.parse grownText = .ok grownDoc := by
  have hne : grownText ≠ bareText := by decide +kernel
  simp only [twoTexts, if_neg hne, if_true]

theorem leftAlone_iff_grown :
    (∀ ops, (twoBuild.run (IndexMap.empty.insert "lab" (metaDir grownText)) ops).get? "lab" =
      some (metaDir grownText)) ↔ (Meta.serde.de grownDoc).isSome = true :=
  @leftAlone_iff twoBuild (IndexMap.empty.insert "lab" (metaDir grownText)) "lab" (metaDir grownText)
    grownText grownDoc (.int 2) rfl rfl parse_grownText rfl rfl

example : (Meta.serde.de grownDoc).isSome = true := by decide

/-- A directory of a format without the fields of this build is taken away by a read. -/
theorem not_leftAlone : ¬ ∀ (b : Build) (root : Root) (name : String) (d : Dir) (text : String) (doc : Json)
    (n : JsonNumber), root.get? name = some d → d.get? metaName = some text →
    b.codec.parse text = .ok doc → doc.get "format" = some (.num n) → isNewer n = true →
    ∀ ops, (b.run root ops).get? name = some d := by
  intro h
  have hrun := h twoBuild (IndexMap.empty.insert "lab" (metaDir bareText)) "lab" (metaDir bareText) bareText
    bareDoc (.int 2) rfl rfl rfl rfl rfl [.read "lab" ⟨"pc", 9440, "admin", none, none⟩ 5 MAX_AGE]
  have hgone := congrArg (fun d => d.bind fun d : Dir => d.get? metaName) hrun
  exact absurd hgone (by decide)

end Build

end Nutsh.Cache
