/-
Records written to JSON and read back.

A form pairs what writes the values of a type with what reads them, and carries the proof that what is
written is read back.  A record is written as the object of its fields.  It is read out of an object,
whose other members are passed over and in which none of its fields may stand twice, or out of an array,
its fields in their order; a field that is not there reads as nothing where the record allows that.

Main definitions:

* `Serde` — a form, with the law as a field;
* `Serde.str`, `Serde.uint64`, `Serde.list`, `Serde.texts` — the forms of the plain types;
* `Serde.Slot`, `Serde.slots` — what a document gives for the fields of a record;
* `Serde.Field`, `Serde.Fields` — one field and the fields of a record, with their laws;
* `Serde.record` — the form of a record.

Main results:

* `Serde.slots_obj` — the slots of an object whose keys are distinct;
* `Serde.record_eq_some` — what is read of a record is read out of the slots of its document.
-/
import Mathlib.Data.List.Nodup
import Nutsh.Lib.IndexMap
import Nutsh.Lib.Json

set_option relaxedAutoImplicit false
set_option autoImplicit false

/-- What writes the values of a type and what reads them. -/
structure Serde (α : Type) where
  ser : α → Json
  de : Json → Option α
  /-- What is written is read back. -/
  de_ser : ∀ a, de (ser a) = some a

namespace Serde

attribute [simp] de_ser

variable {α β : Type}

/-! ### Plain types -/

/-- A document as it is. -/
def value : Serde Json := ⟨id, some, fun _ => rfl⟩

def str : Serde String := ⟨.str, Json.asStr, fun _ => rfl⟩

def bool : Serde Bool := ⟨.bool, Json.asBool, fun _ => rfl⟩

/-- The integer of a number below a bound. -/
def natBelow (bound : ℕ) : Json → Option ℕ
  | .num (.int n) => if 0 ≤ n ∧ n < bound then some n.toNat else none
  | _ => none

theorem natBelow_int {bound n : ℕ} (h : n < bound) : natBelow bound (.num (.int n)) = some n := by
  simp [natBelow, h]

def uint16 : Serde UInt16 where
  ser n := .num (.int n.toNat)
  de v := (natBelow UInt16.size v).map UInt16.ofNat
  de_ser n := by simp [natBelow_int n.toNat_lt_size]

def uint32 : Serde UInt32 where
  ser n := .num (.int n.toNat)
  de v := (natBelow UInt32.size v).map UInt32.ofNat
  de_ser n := by simp [natBelow_int n.toNat_lt_size]

def uint64 : Serde UInt64 where
  ser n := .num (.int n.toNat)
  de v := (natBelow UInt64.size v).map UInt64.ofNat
  de_ser n := by simp [natBelow_int n.toNat_lt_size]

theorem mapM_map_ser (s : Serde α) (as : List α) : (as.map s.ser).mapM s.de = some as := by
  induction as with
  | nil => rfl
  | cons a as ih => simp [ih]

/-- An array of values of one form. -/
def list (s : Serde α) : Serde (List α) where
  ser as := .arr (as.map s.ser)
  de v := v.asArray.bind fun items => items.mapM s.de
  de_ser as := mapM_map_ser s as

/-- An array of two. -/
def pair (s : Serde α) (t : Serde β) : Serde (α × β) where
  ser p := .arr [s.ser p.1, t.ser p.2]
  de
    | .arr [v, w] => (s.de v).bind fun a => (t.de w).map fun b => (a, b)
    | _ => none
  de_ser p := by simp

theorem mapM_texts (es : List (String × String)) :
    ((es.map fun e => (e.1, Json.str e.2)).mapM fun m => m.2.asStr.map fun t => (m.1, t)) = some es := by
  induction es with
  | nil => rfl
  | cons e es ih => simp [ih]

/-- An object of texts, the last member of a name winning. -/
def texts : Serde (IndexMap String String) where
  ser m := .obj (m.entries.map fun e => (e.1, .str e.2))
  de v := (v.asObject.bind fun ms => ms.mapM fun m => m.2.asStr.map fun t => (m.1, t)).map
    IndexMap.ofList
  de_ser m := by
    have htexts := mapM_texts m.entries
    rw [List.mapM_map] at htexts
    simp [Json.asObject, Function.comp_def] at htexts ⊢
    exact ⟨m.entries, htexts, IndexMap.ofList_entries m⟩

/-- Whether a form never writes null. -/
def NeverNull (s : Serde α) : Prop := ∀ a, s.ser a ≠ .null

theorem neverNull_str : str.NeverNull := by
  intro a h
  cases h

theorem neverNull_uint64 : uint64.NeverNull := by
  intro a h
  cases h

/-! ### Fields -/

/-- What a document gives for a field: a value, nothing in an object, or nothing for an array that
ends before it. -/
inductive Slot where
  | given (v : Json)
  | missing
  | cut

/-- What writes the values of a field and what reads them out of a slot. -/
structure Field (α : Type) where
  ser : α → Json
  de : Slot → Option α
  de_ser : ∀ a, de (.given (ser a)) = some a

namespace Field

attribute [simp] de_ser

/-- A field that has to be there. -/
def required (s : Serde α) : Field α where
  ser := s.ser
  de
    | .given v => s.de v
    | _ => none
  de_ser := s.de_ser

/-- Null for no value, and for nothing in an object. -/
def optionalDe (s : Serde α) : Slot → Option (Option α)
  | .given .null => some none
  | .given v => (s.de v).map some
  | .missing => some none
  | .cut => none

def optionalSer (s : Serde α) : Option α → Json
  | none => .null
  | some a => s.ser a

theorem optionalDe_optionalSer {s : Serde α} (h : s.NeverNull) (a : Option α) :
    optionalDe s (.given (optionalSer s a)) = some a := by
  cases a with
  | none => rfl
  | some a => rw [optionalSer, optionalDe.eq_2 _ _ (h a), s.de_ser, Option.map_some]

/-- A field that may be null, and that an object may leave out. -/
def optional (s : Serde α) (h : s.NeverNull) : Field (Option α) :=
  ⟨optionalSer s, optionalDe s, optionalDe_optionalSer h⟩

/-- An optional field that an array may leave out as well. -/
def defaulted (s : Serde α) (h : s.NeverNull) : Field (Option α) where
  ser := optionalSer s
  de
    | .cut => some none
    | slot => optionalDe s slot
  de_ser := optionalDe_optionalSer h

end Field

/-- The fields of a record, in their order. -/
structure Fields (τ : Type) where
  names : List String
  ser : τ → List Json
  de : (String → Slot) → Option τ
  length_ser : ∀ t, (ser t).length = names.length
  /-- The fields are read back out of the slots that give what was written. -/
  de_ser : ∀ t slot, (∀ m ∈ names.zip (ser t), slot m.1 = .given m.2) → de slot = some t

namespace Fields

variable {τ : Type}

/-- No field. -/
def nil : Fields Unit := ⟨[], fun _ => [], fun _ => some (), fun _ => rfl, fun _ _ _ => rfl⟩

/-- A field before others. -/
def cons (name : String) (f : Field α) (fs : Fields τ) : Fields (α × τ) where
  names := name :: fs.names
  ser t := f.ser t.1 :: fs.ser t.2
  de slot := (f.de (slot name)).bind fun a => (fs.de slot).map fun t => (a, t)
  length_ser t := congrArg Nat.succ (fs.length_ser t.2)
  de_ser t slot h := by
    have hhead : slot name = .given (f.ser t.1) := h _ List.mem_cons_self
    have htail : fs.de slot = some t.2 := fs.de_ser t.2 slot fun m hm => h m (List.mem_cons_of_mem _ hm)
    simp [hhead, htail]

theorem de_cons_eq_some {name : String} {f : Field α} {fs : Fields τ} {slot : String → Slot}
    {t : α × τ} (h : (cons name f fs).de slot = some t) :
    f.de (slot name) = some t.1 ∧ fs.de slot = some t.2 := by
  obtain ⟨a, ha, h⟩ := Option.bind_eq_some_iff.1 h
  obtain ⟨r, hr, rfl⟩ := Option.map_eq_some_iff.1 h
  exact ⟨ha, hr⟩

end Fields

/-- What a document gives for the fields of a record. -/
def slots (names : List String) : Json → Option (String → Slot)
  | .obj members =>
      if names.all fun n => (members.filter fun m => m.1 == n).length ≤ 1 then
        some fun n => (members.lookup n).elim .missing .given
      else none
  | .arr items =>
      if items.length ≤ names.length then
        some fun n => items[names.idxOf n]?.elim .cut .given
      else none
  | _ => none

theorem length_filter_key_le {members : List (String × Json)} (h : (members.map Prod.fst).Nodup)
    (n : String) : (members.filter fun m => m.1 == n).length ≤ 1 := by
  have hcount : (members.map Prod.fst).count n ≤ 1 := List.nodup_iff_count_le_one.1 h n
  rwa [List.count, List.countP_map, List.countP_eq_length_filter] at hcount

/-- The slots of an object whose keys are distinct. -/
theorem slots_obj (names : List String) {members : List (String × Json)}
    (h : (members.map Prod.fst).Nodup) :
    slots names (.obj members) = some fun n => (members.lookup n).elim .missing .given :=
  if_pos (List.all_eq_true.2 fun n _ => decide_eq_true (length_filter_key_le h n))

/-- What an object gives for a field. -/
theorem slot_of_obj {names : List String} {members : List (String × Json)} {slot : String → Slot}
    (h : slots names (.obj members) = some slot) (n : String) :
    slot n = (members.lookup n).elim .missing .given := by
  rw [slots] at h
  split at h
  · cases h
    rfl
  · cases h

variable {τ : Type}

/-- A record of fields with distinct names. -/
def record (fs : Fields τ) (hnames : fs.names.Nodup) (unpack : α → τ) (pack : τ → α)
    (pack_unpack : ∀ a, pack (unpack a) = a) : Serde α where
  ser a := .obj (fs.names.zip (fs.ser (unpack a)))
  de v := ((slots fs.names v).bind fs.de).map pack
  de_ser a := by
    have hkeys : (fs.names.zip (fs.ser (unpack a))).map Prod.fst = fs.names :=
      List.map_fst_zip (Nat.le_of_eq (fs.length_ser _).symm)
    have hnodup : ((fs.names.zip (fs.ser (unpack a))).map Prod.fst).Nodup := by rwa [hkeys]
    have hread : fs.de _ = some (unpack a) := fs.de_ser (unpack a)
      (fun n => ((fs.names.zip (fs.ser (unpack a))).lookup n).elim .missing .given)
      fun m hm => by rw [IndexMap.lookup_eq_some_of_mem hnodup hm]; rfl
    rw [slots_obj _ hnodup, Option.bind_some, hread, Option.map_some, pack_unpack]

variable {fs : Fields τ} {hnames : fs.names.Nodup} {unpack : α → τ} {pack : τ → α}
  {pack_unpack : ∀ a, pack (unpack a) = a}

theorem neverNull_record : (record fs hnames unpack pack pack_unpack).NeverNull := by
  intro a h
  cases h

/-- What is read of a record is read out of the slots of its document. -/
theorem record_eq_some {v : Json} {a : α} (h : (record fs hnames unpack pack pack_unpack).de v = some a) :
    ∃ slot t, slots fs.names v = some slot ∧ fs.de slot = some t ∧ pack t = a := by
  obtain ⟨t, ht, rfl⟩ := Option.map_eq_some_iff.1 h
  obtain ⟨slot, hslot, ht⟩ := Option.bind_eq_some_iff.1 ht
  exact ⟨slot, t, hslot, ht, rfl⟩

end Serde
