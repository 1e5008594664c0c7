/-
The raw view, read back.

Every line of a document is read into the tokens its value is laid out with, if the keys and the strings in it
are read back one by one; only a first line may mark the beginning or the end of a document instead.

Main definitions:

* `Doubles` — the text of a double, and what reads it;
* `Value` — a value of a document: no object in it has a key twice, and its doubles are numbers;
* `ReadsBack` — what is shown is read back, the whole and each string of it;
* `Fits` — the values of which this holds.

Main results:

* `readLines_write` — the tokens of what is shown;
* `readsBack_iff` — what is read back.
-/
import Nutsh.YamlText.Strings

set_option relaxedAutoImplicit false
set_option autoImplicit false

namespace Nutsh.YamlText

/-! ### Doubles -/

/-- A double that is a number. -/
def isFinite (bits : UInt64) : Bool := bits.toNat / 2 ^ 52 % 2 ^ 11 != 2047

/-- The text of a double: a decimal number that is no integer, and that is read back. -/
structure Doubles where
  write : UInt64 → String
  read : String → UInt64
  isNumber_write : ∀ bits, isFinite bits = true → Numeral.isNumber (write bits).toList = true
  isInteger_write : ∀ bits, isFinite bits = true → Numeral.isInteger (write bits).toList = false
  reads : ∀ bits, isFinite bits = true → read (write bits) = bits

/-- A document has no double that is no number. -/
def IsFinite : Json → Prop
  | .num (.float bits) => isFinite bits = true
  | _ => True

/-- A value of a document. -/
structure Value where
  value : Json
  keyed : value.Keyed
  finite : Yaml.Each (fun _ => True) IsFinite value

/-! ### Reading back -/

/-- A string that is read back from where it is written. -/
def StringReadsBack (d : Doubles) : Json → Prop
  | .str s => Yaml.scalar d.read (quoteIfNeeded s).toList = some (.str s)
  | _ => True

/-- What is shown is read back: the whole, every key by itself, and every string by itself. -/
structure ReadsBack (d : Doubles) (v : Json) : Prop where
  whole : Yaml.read d.read (render d.write v) = some v
  each : Yaml.Each (fun k => Yaml.isKey d.read k.toList = true) (StringReadsBack d) v

/-- A string that is read back as it is written. -/
def StringFits : Json → Prop
  | .str s => TextFits s
  | _ => True

/-- A first line that marks neither the beginning nor the end of a document. -/
def Unmarked : Json → Prop
  | .obj members => ∀ m ∈ members, Yaml.isMarker m.1.toList = true → m.1.length = 3
  | .str s => needsQuotes s = false → Yaml.isMarker s.toList = false
  | _ => True

/-- A value whose keys and strings are all read back as they are written, and that no first line belies. -/
structure Fits (v : Json) : Prop where
  each : Yaml.Each KeyFits StringFits v
  unmarked : Unmarked v

/-! ### Scalars -/

/-- A value on a line that is read back. -/
def Reads (d : Doubles) (v : Json) : Prop := Yaml.scalar d.read (scalar d.write v).toList = some v

variable {d : Doubles} {v : Json} {indent column : ℕ} {text : String} {found : List (ℕ × Yaml.Token)}

theorem reads_num (n : ℤ) : Reads d (.num (.int n)) := by
  have htext : scalar d.write (.num (.int n)) = toString n := String.ofList_toList
  rw [Reads, htext]
  exact Yaml.scalar_integer n

theorem reads_real {bits : UInt64} (h : isFinite bits = true) : Reads d (.num (.float bits)) := by
  have htext : scalar d.write (.num (.float bits)) = d.write bits := String.ofList_toList
  rw [Reads, htext, Yaml.scalar_real (d.isNumber_write bits h) (d.isInteger_write bits h), d.reads bits h]

/-- On a line, only a string may be read as something else. -/
theorem reads_iff (hfinite : IsFinite v) (hinline : Yaml.isInline v = true) : Reads d v ↔ StringReadsBack d v := by
  have hreads {v : Json} {cs : List Char} (htext : (scalar d.write v).toList = cs)
      (h : Yaml.scalar d.read cs = some v) : Reads d v := by
    rw [Reads, htext, h]
  have harray : (scalar d.write (.arr [])).toList = ['[', ']'] := by
    rw [scalar]
    decide
  have hobject : (scalar d.write (.obj [])).toList = ['\x7b', '\x7d'] := by
    rw [scalar]
    decide
  match v with
  | .str s => exact Iff.rfl
  | .null => exact iff_of_true (hreads String.toList_ofList (by rfl)) trivial
  | .bool true => exact iff_of_true (hreads String.toList_ofList (by rfl)) trivial
  | .bool false => exact iff_of_true (hreads String.toList_ofList (by rfl)) trivial
  | .arr [] => exact iff_of_true (hreads harray (by rfl)) trivial
  | .obj [] => exact iff_of_true (hreads hobject (by rfl)) trivial
  | .num (.int n) => exact iff_of_true (reads_num n) trivial
  | .num (.float bits) => exact iff_of_true (reads_real hfinite) trivial

/-! ### Lines -/

/-- No string breaks its line. -/
theorem not_mem_quoteIfNeeded (s : String) : '\n' ∉ (quoteIfNeeded s).toList := by
  rw [quoteIfNeeded]
  split
  · rw [String.toList_ofList, escapeAll_eq]
    have hself (c : Char) : '\n' ∉ escapeAll [c] := by
      rcases spells_escapeAll c with ⟨-, hspells⟩ | ⟨hbad, hc, -⟩
      · rcases hspells with ⟨hc, hnb, -⟩ | ⟨e, hc, he⟩
        · rw [hc, List.mem_singleton]
          rintro rfl
          exact absurd hnb (by decide)
        · rw [hc]
          simp only [List.mem_cons, List.not_mem_nil, or_false, not_or]
          refine ⟨by decide, ?_⟩
          rintro rfl
          cases he
      · rw [hc, List.mem_singleton]
        rintro rfl
        exact hbad (by decide)
    simp [hself]
  · rename_i hquotes
    intro hmem
    have hcontrol := (unquoted_of_needsQuotes (by simpa using hquotes)).control _ hmem
    exact absurd hcontrol (by decide)

theorem not_mem_scalar (h : Reads d v) : '\n' ∉ (scalar d.write v).toList := by
  match v with
  | .str s => exact not_mem_quoteIfNeeded s
  | .null | .bool _ | .num _ | .arr _ | .obj _ =>
      rcases Yaml.scalar_cases h with ⟨htext, -⟩ | ⟨htext, -⟩ | ⟨_, _, -, -, hv⟩ | ⟨hplain, -⟩
      · rw [htext]
        decide
      · rw [htext]
        decide
      · cases hv
      · exact Yaml.not_mem_break (Yaml.nb_of_isPlain hplain)

theorem toList_line (indent : ℕ) (text : String) :
    (line indent text).toList = List.replicate (2 * indent) ' ' ++ text.toList := by
  rw [line, String.toList_append, String.toList_ofList]

/-- What stands before a text on its line: it is read as `first`, and the text begins at `column`. -/
structure Opens (d : Doubles) (indent column : ℕ) (front : String) (first : List (ℕ × Yaml.Token)) : Prop where
  oneLine : '\n' ∉ front.toList
  tokens : ∀ text, Yaml.tokens d.read (2 * indent) (front.toList ++ text) =
    (Yaml.tokens d.read column text).map fun found => first ++ found

theorem opens_nil (indent : ℕ) : Opens d indent (2 * indent) "" [] where
  oneLine := by decide
  tokens text := by
    show Yaml.tokens d.read (2 * indent) text = (Yaml.tokens d.read (2 * indent) text).map fun found => found
    rw [Option.map_id']

theorem opens_blanks (indent : ℕ) : Opens d indent (2 * indent + 2) "  " [] where
  oneLine := by decide
  tokens text := by
    have hblanks : Yaml.tokens d.read (2 * indent) (List.replicate 2 ' ' ++ text) =
        Yaml.tokens d.read (2 * indent + 2) text := Yaml.tokens_blanks 2
    show Yaml.tokens d.read (2 * indent) (List.replicate 2 ' ' ++ text) =
      (Yaml.tokens d.read (2 * indent + 2) text).map fun found => found
    rw [hblanks, Option.map_id']

theorem opens_dash (indent : ℕ) : Opens d indent (2 * indent + 2) "- " [(2 * indent, .dash)] where
  oneLine := by decide
  tokens _ := Yaml.tokens_dash

/-- The tokens of a line, by what it begins with. -/
theorem line_read {front : String} {first : List (ℕ × Yaml.Token)} (hopens : Opens d indent column front first)
    (hbreak : '\n' ∉ text.toList) (h : Yaml.tokens d.read column text.toList = some found) :
    Yaml.line d.read (line indent (front ++ text)).toList = some (first ++ found) := by
  have hline : '\n' ∉ (line indent (front ++ text)).toList := by
    simp [toList_line, hbreak, hopens.oneLine]
  rw [Yaml.line, if_neg hline, toList_line, Yaml.tokens_blanks, Nat.zero_add, String.toList_append, hopens.tokens, h,
    Option.map_some]

/-! ### Values -/

/-- Every key of a value and every value on a line of it is read back. -/
def EachReads (d : Doubles) : Json → Prop := Yaml.Each (fun k => Yaml.isKey d.read k.toList = true) (Reads d)

theorem not_mem_key {key : String} (hkey : Yaml.isKey d.read key.toList = true) : '\n' ∉ key.toList := by
  simp only [Yaml.isKey, Bool.and_eq_true] at hkey
  exact Yaml.not_mem_break (Yaml.nb_of_isPlain hkey.1.1)

/-- The line of a key with its value behind it. -/
theorem entry_read {front key : String} {first : List (ℕ × Yaml.Token)} (hopens : Opens d indent column front first)
    (hkey : Yaml.isKey d.read key.toList = true) (h : Reads d v) :
    Yaml.line d.read (line indent (front ++ key ++ ": " ++ scalar d.write v)).toList =
      some (first ++ [(column, .entry key (some v))]) := by
  have htext : (key ++ ": " ++ scalar d.write v).toList = key.toList ++ ':' :: ' ' :: (scalar d.write v).toList := by
    simp
  have htokens := Yaml.tokens_entry column hkey h
  rw [String.ofList_toList, ← htext] at htokens
  have hassoc : front ++ key ++ ": " ++ scalar d.write v = front ++ (key ++ ": " ++ scalar d.write v) := by
    simp only [String.append_assoc]
  rw [hassoc]
  exact line_read hopens (by simp [not_mem_key hkey, not_mem_scalar h]) htokens

/-- The line of a key alone. -/
theorem key_read {front key : String} {first : List (ℕ × Yaml.Token)} (hopens : Opens d indent column front first)
    (hkey : Yaml.isKey d.read key.toList = true) :
    Yaml.line d.read (line indent (front ++ key ++ ":")).toList = some (first ++ [(column, .entry key none)]) := by
  have htext : (key ++ ":").toList = key.toList ++ [':'] := by simp
  have htokens := Yaml.tokens_key column hkey
  rw [String.ofList_toList, ← htext] at htokens
  rw [String.append_assoc]
  exact line_read hopens (by simp [not_mem_key hkey]) htokens

theorem readLines_singleton {l : List Char} (h : Yaml.line d.read l = some found) :
    Yaml.readLines d.read [l] = some found := by
  have hread : Yaml.readLines d.read [l] = some (found ++ []) := Yaml.readLines_cons h rfl
  rwa [List.append_nil] at hread

theorem isInline_cases (v : Json) :
    Yaml.isInline v = true ∨ (∃ x items, v = .arr (x :: items)) ∨ ∃ m members, v = .obj (m :: members) := by
  match v with
  | .null | .bool _ | .num _ | .str _ | .arr [] | .obj [] => exact .inl rfl
  | .arr (x :: items) => exact .inr (.inl ⟨x, items, rfl⟩)
  | .obj (m :: members) => exact .inr (.inr ⟨m, members, rfl⟩)

theorem reads_of_each (h : EachReads d v) (hinline : Yaml.isInline v = true) : Reads d v := by
  match v with
  | .null | .bool _ | .num _ | .str _ | .arr [] | .obj [] => exact h

theorem write_of_isInline (h : Yaml.isInline v = true) :
    write d.write indent v = [line indent (scalar d.write v)] := by
  match v with
  | .null | .bool _ | .num _ | .str _ | .arr [] | .obj [] => rfl

/-- The line of a value alone. -/
theorem scalar_read {front : String} {first : List (ℕ × Yaml.Token)} (hopens : Opens d indent column front first)
    (h : Reads d v) :
    Yaml.line d.read (line indent (front ++ scalar d.write v)).toList = some (first ++ [(column, .scalar v)]) :=
  line_read hopens (not_mem_scalar h) (Yaml.tokens_scalar h)

mutual

/-- **The lines of a value** are read into the tokens it is laid out with. -/
theorem readLines_write (v : Json) (indent : ℕ) (h : EachReads d v) :
    Yaml.readLines d.read ((write d.write indent v).map String.toList) = some (Yaml.layout (2 * indent) v) := by
  match v with
  | .null | .bool _ | .num _ | .str _ | .arr [] | .obj [] =>
      have hread := readLines_singleton (scalar_read (opens_nil indent) (reads_of_each h rfl))
      rw [String.empty_append] at hread
      exact hread
  | .arr (x :: items) => exact readLines_writeItems (x :: items) indent h
  | .obj (m :: members) =>
      have hread := readLines_writeMembers (m :: members) indent indent "" "" [] (opens_nil indent) (opens_nil indent) h
      rw [write, Yaml.layout]
      simpa only [ite_self, List.nil_append] using hread

/-- The lines of some items. -/
theorem readLines_writeItems (items : List Json) (indent : ℕ)
    (h : Yaml.EachItem (fun k => Yaml.isKey d.read k.toList = true) (Reads d) items) :
    Yaml.readLines d.read ((writeItems d.write indent items).map String.toList) =
      some (Yaml.layoutItems (2 * indent) items) := by
  match items with
  | [] => rfl
  | v :: items =>
      have hitems := readLines_writeItems items indent h.2
      match v with
      | .null | .bool _ | .num _ | .str _ | .arr [] | .obj [] =>
          have hline := scalar_read (opens_dash indent) (reads_of_each h.1 rfl)
          exact Yaml.readLines_cons hline hitems
      | .arr (x :: inner) =>
          have hinner := readLines_writeItems (x :: inner) (indent + 1) h.1
          have hline : Yaml.line d.read (line indent "-").toList = some [(2 * indent, .dash)] := by
            have hread : Yaml.line d.read (line indent ("" ++ "-")).toList = some ([] ++ [(2 * indent, .dash)]) :=
              line_read (opens_nil indent) (by decide) (Yaml.tokens_dash_end (2 * indent))
            rwa [String.empty_append] at hread
          rw [writeItems, Yaml.layoutItems, List.map_cons, List.map_append]
          exact Yaml.readLines_cons hline (Yaml.readLines_append hinner hitems)
      | .obj (m :: members) =>
          have hmembers := readLines_writeMembers (m :: members) indent (indent + 1) "- " "  " _ (opens_dash indent)
            (opens_blanks indent) h.1
          rw [writeItems, Yaml.layoutItems, List.map_append]
          exact Yaml.readLines_append hmembers hitems

/-- The lines of some members, the first behind `front` and the others behind `next`. -/
theorem readLines_writeMembers (members : List (String × Json)) (indent deeper : ℕ) (front next : String)
    (first : List (ℕ × Yaml.Token)) (hfront : Opens d indent (2 * deeper) front first)
    (hnext : Opens d indent (2 * deeper) next [])
    (h : Yaml.EachMember (fun k => Yaml.isKey d.read k.toList = true) (Reads d) members) :
    Yaml.readLines d.read ((writeMembers d.write indent (deeper + 1) front next members).map String.toList) =
      some ((if members.isEmpty then [] else first) ++ Yaml.layoutMembers (2 * deeper) members) := by
  match members with
  | [] => rfl
  | (key, v) :: members =>
      have hmembers := readLines_writeMembers members indent deeper next next [] hnext hnext h.2.2
      rw [ite_self, List.nil_append] at hmembers
      rw [writeMembers, Yaml.layoutMembers, List.map_append]
      simp only [List.isEmpty_cons, Bool.false_eq_true, if_false]
      rw [← List.append_assoc]
      refine Yaml.readLines_append ?_ hmembers
      by_cases hinline : Yaml.isInline v = true
      · rw [if_pos hinline, if_pos hinline]
        exact readLines_singleton (entry_read hfront h.1 (reads_of_each h.2.1 hinline))
      · rw [if_neg hinline, if_neg hinline, List.append_cons]
        exact Yaml.readLines_cons (key_read hfront h.1) (readLines_write v (deeper + 1) h.2.1)

end

/-! ### Documents -/

/-- The lines of a value are all as far in as the value, or farther. -/
def Deep (indent : ℕ) (l : String) : Prop := ∃ n text, indent ≤ n ∧ l = line n text

theorem Deep.mono {l : String} {more : ℕ} (h : Deep more l) (hle : indent ≤ more) : Deep indent l := by
  obtain ⟨n, text, hn, rfl⟩ := h
  exact ⟨n, text, Nat.le_trans hle hn, rfl⟩

/-- What is further in than the first column marks nothing. -/
theorem isMarker_of_deep {l : String} (h : Deep (indent + 1) l) : Yaml.isMarker l.toList = false := by
  obtain ⟨n, text, hn, rfl⟩ := h
  obtain ⟨n, rfl⟩ := Nat.exists_eq_add_of_le' hn
  rw [toList_line]
  have hindent : 2 * (n + (indent + 1)) = (2 * (n + indent) + 1) + 1 := by omega
  rw [hindent, List.replicate_succ, List.cons_append]
  rfl

section
variable (float : UInt64 → String)

/-- The lines of some members begin with what is in front of them, or are lines of what is in them. -/
theorem mem_writeMembers {deeper : ℕ} {front next l : String} {members : List (String × Json)}
    (h : l ∈ writeMembers float indent deeper front next members) :
    (∃ text, l = line indent (front ++ text) ∨ l = line indent (next ++ text)) ∨
      ∃ m ∈ members, l ∈ write float deeper m.2 := by
  induction members generalizing front with
  | nil => cases h
  | cons m members ih =>
      obtain ⟨key, v⟩ := m
      rw [writeMembers, List.mem_append] at h
      rcases h with h | h
      · split at h
        · rw [List.mem_singleton] at h
          exact .inl ⟨key ++ ": " ++ scalar float v, .inl (by rw [h]; simp only [String.append_assoc])⟩
        · rcases List.mem_cons.1 h with h | h
          · exact .inl ⟨key ++ ":", .inl (by rw [h, String.append_assoc])⟩
          · exact .inr ⟨(key, v), List.mem_cons_self, h⟩
      · rcases ih h with ⟨text, htext⟩ | ⟨m, hm, hl⟩
        · exact .inl ⟨text, .inr (htext.elim id id)⟩
        · exact .inr ⟨m, List.mem_cons_of_mem _ hm, hl⟩

mutual

theorem deep_write (v : Json) (indent : ℕ) {l : String} (h : l ∈ write float indent v) : Deep indent l := by
  match v with
  | .null | .bool _ | .num _ | .str _ | .arr [] | .obj [] =>
      exact ⟨indent, _, Nat.le_refl _, List.mem_singleton.1 h⟩
  | .arr (x :: items) => exact deep_writeItems (x :: items) indent h
  | .obj (m :: members) => exact deep_writeMembers (m :: members) indent (indent + 1) "" "" (by omega) h

theorem deep_writeItems (items : List Json) (indent : ℕ) {l : String} (h : l ∈ writeItems float indent items) :
    Deep indent l := by
  match items with
  | [] => cases h
  | v :: items =>
      match v with
      | .null | .bool _ | .num _ | .str _ | .arr [] | .obj [] =>
          rcases List.mem_cons.1 h with h | h
          · exact ⟨indent, _, Nat.le_refl _, h⟩
          · exact deep_writeItems items indent h
      | .arr (x :: inner) =>
          rw [writeItems, List.mem_cons, List.mem_append] at h
          rcases h with h | h | h
          · exact ⟨indent, _, Nat.le_refl _, h⟩
          · exact (deep_writeItems (x :: inner) (indent + 1) h).mono (by omega)
          · exact deep_writeItems items indent h
      | .obj (m :: members) =>
          rw [writeItems, List.mem_append] at h
          rcases h with h | h
          · exact deep_writeMembers (m :: members) indent (indent + 2) "- " "  " (by omega) h
          · exact deep_writeItems items indent h

theorem deep_writeMembers (members : List (String × Json)) (indent deeper : ℕ) (front next : String)
    (hle : indent ≤ deeper) {l : String} (h : l ∈ writeMembers float indent deeper front next members) :
    Deep indent l := by
  match members with
  | [] => cases h
  | (key, v) :: members =>
      rw [writeMembers, List.mem_append] at h
      rcases h with h | h
      · split at h
        · exact ⟨indent, _, Nat.le_refl _, List.mem_singleton.1 h⟩
        · rcases List.mem_cons.1 h with h | h
          · exact ⟨indent, _, Nat.le_refl _, h⟩
          · exact (deep_write v deeper h).mono hle
      · exact deep_writeMembers members indent deeper next next hle h

end

/-- No line of an array marks anything. -/
theorem isMarker_writeItems {items : List Json} {l : String} (h : l ∈ writeItems float 0 items) :
    Yaml.isMarker l.toList = false := by
  have hdash (text : String) : Yaml.isMarker (line 0 ("- " ++ text)).toList = false := by
    rw [toList_line, String.toList_append]
    rfl
  have hblank (text : String) : Yaml.isMarker (line 0 ("  " ++ text)).toList = false := by
    rw [toList_line, String.toList_append]
    rfl
  have halone : Yaml.isMarker (line 0 "-").toList = false := by
    rw [toList_line]
    rfl
  induction items with
  | nil => cases h
  | cons v items ih =>
      match v with
      | .null | .bool _ | .num _ | .str _ | .arr [] | .obj [] =>
          rcases List.mem_cons.1 h with rfl | h
          · exact hdash _
          · exact ih h
      | .arr (x :: inner) =>
          rw [writeItems, List.mem_cons, List.mem_append] at h
          rcases h with rfl | h | h
          · exact halone
          · exact isMarker_of_deep (deep_writeItems float (x :: inner) 1 h)
          · exact ih h
      | .obj (m :: members) =>
          rw [writeItems, List.mem_append] at h
          rcases h with h | h
          · rcases mem_writeMembers float h with ⟨text, rfl | rfl⟩ | ⟨m, -, hl⟩
            · exact hdash text
            · exact hblank text
            · exact isMarker_of_deep (deep_write float m.2 2 hl)
          · exact ih h

end

/-- A key marks something on its line exactly when it does so by itself, with something behind the mark. -/
theorem isMarker_key_iff (k tail : List Char) :
    Yaml.isMarker (k ++ ':' :: tail) = true ↔ Yaml.isMarker k = true ∧ k.length ≠ 3 := by
  match k with
  | [] | [_] | [_, _] => simp [Yaml.isMarker]
  | [a, b, c] =>
      have hcolon : Yaml.isWhite ':' = false := by decide
      simp [Yaml.isMarker, hcolon]
  | a :: b :: c :: e :: rest => simp [Yaml.isMarker]

/-- The lines of an object mark something exactly when one of its keys does. -/
theorem isMarker_writeMembers_iff {float : UInt64 → String} {members : List (String × Json)} :
    (∃ l ∈ writeMembers float 0 1 "" "" members, Yaml.isMarker l.toList = true) ↔
      ∃ m ∈ members, Yaml.isMarker m.1.toList = true ∧ m.1.length ≠ 3 := by
  have hline (key text : String) : Yaml.isMarker (line 0 ("" ++ key ++ (":" ++ text))).toList = true ↔
      Yaml.isMarker key.toList = true ∧ key.length ≠ 3 := by
    have htext : (line 0 ("" ++ key ++ (":" ++ text))).toList = key.toList ++ ':' :: text.toList := by
      simp [toList_line]
    rw [htext, isMarker_key_iff, String.length_toList]
  induction members with
  | nil => simp [writeMembers]
  | cons m members ih =>
      obtain ⟨key, v⟩ := m
      have hdeep : ¬ ∃ l ∈ write float 1 v, Yaml.isMarker l.toList = true := by
        rintro ⟨l, hl, hmarker⟩
        rw [isMarker_of_deep (deep_write float v 1 hl)] at hmarker
        cases hmarker
      have hkey : (∃ l ∈ (if Yaml.isInline v then [line 0 ("" ++ key ++ ": " ++ scalar float v)]
            else line 0 ("" ++ key ++ ":") :: write float 1 v), Yaml.isMarker l.toList = true) ↔
          Yaml.isMarker key.toList = true ∧ key.length ≠ 3 := by
        split
        · have hassoc : "" ++ key ++ ": " ++ scalar float v = "" ++ key ++ (":" ++ (" " ++ scalar float v)) := by
            have hcolon : ": " = ":" ++ " " := by decide
            rw [hcolon]
            simp only [String.append_assoc]
          rw [hassoc]
          simp only [List.mem_singleton, exists_eq_left, hline]
        · have hempty := hline key ""
          rw [String.append_empty] at hempty
          simp only [List.mem_cons, or_and_right, exists_or, exists_eq_left, hempty, hdeep, or_false]
      rw [writeMembers]
      simp only [List.mem_append, or_and_right, exists_or, hkey, ih, List.mem_cons, exists_eq_left]

/-- A string marks something only if it is left unquoted. -/
theorem isMarker_quoteIfNeeded_iff (s : String) :
    Yaml.isMarker (quoteIfNeeded s).toList = false ↔ needsQuotes s = false → Yaml.isMarker s.toList = false := by
  rw [quoteIfNeeded]
  cases needsQuotes s with
  | true =>
      rw [if_pos rfl, String.toList_ofList]
      exact iff_of_true (by rfl) fun h => absurd h (by decide)
  | false => simp

theorem isFinite_of_each (h : Yaml.Each (fun _ => True) IsFinite v) : IsFinite v := by
  match v with
  | .null | .bool _ | .num _ | .str _ | .arr [] | .obj [] => exact h
  | .arr (_ :: _) | .obj (_ :: _) => trivial

/-- On one line, only a string may mark something. -/
theorem isMarker_scalar_iff (hfinite : IsFinite v) (hinline : Yaml.isInline v = true) :
    Yaml.isMarker (scalar d.write v).toList = false ↔ Unmarked v := by
  have htext (n : JsonNumber) : (scalar d.write (.num n)).toList = (Json.num n).chars d.write := String.toList_ofList
  match v with
  | .str s => exact isMarker_quoteIfNeeded_iff s
  | .null | .bool true | .bool false =>
      refine iff_of_true ?_ trivial
      rw [scalar, Json.text, String.toList_ofList]
      · rfl
      all_goals simp
  | .arr [] | .obj [] =>
      refine iff_of_true ?_ (by simp [Unmarked])
      rw [scalar]
      decide
  | .num (.int n) =>
      refine iff_of_true ?_ trivial
      rw [htext]
      exact Yaml.isMarker_of_isNumber (Numeral.isNumber_of_isInteger (Numeral.isInteger_toString n))
  | .num (.float bits) =>
      refine iff_of_true ?_ trivial
      rw [htext]
      exact Yaml.isMarker_of_isNumber (d.isNumber_write bits hfinite)

/-- **The first line of a document** marks nothing exactly when the value says so. -/
theorem any_isMarker_iff (d : Doubles) (v : Value) :
    ((write d.write 0 v.value).map String.toList).any Yaml.isMarker = false ↔ Unmarked v.value := by
  have hany : ((write d.write 0 v.value).map String.toList).any Yaml.isMarker = false ↔
      ¬ ∃ l ∈ write d.write 0 v.value, Yaml.isMarker l.toList = true := by
    rw [← Bool.not_eq_true, List.any_eq_true]
    simp
  rw [hany]
  rcases isInline_cases v.value with hinline | ⟨x, items, hv⟩ | ⟨m, members, hv⟩
  · rw [write_of_isInline hinline, ← isMarker_scalar_iff (d := d) (isFinite_of_each v.finite) hinline]
    have hzero (text : String) : (line 0 text).toList = text.toList := toList_line 0 text
    simp [hzero]
  · rw [hv]
    refine iff_of_true ?_ trivial
    rintro ⟨l, hl, hmarker⟩
    rw [isMarker_writeItems d.write hl] at hmarker
    cases hmarker
  · rw [hv, write, isMarker_writeMembers_iff]
    simp only [Unmarked, not_exists, not_and, not_not]

/-- The characters of a document are those of its lines. -/
theorem toList_render (d : Doubles) (v : Json) :
    (render d.write v).toList = ((write d.write 0 v).map String.toList).flatMap fun l => l ++ ['\n'] := by
  have hjoin (lines : List String) :
      (String.join (lines.map fun l => l ++ "\n")).toList = (lines.map String.toList).flatMap fun l => l ++ ['\n'] := by
    induction lines with
    | nil => rfl
    | cons l lines ih => simp [ih]
  exact hjoin _

/-- **What is shown is read back** exactly when every key and every string in it is read back as it is written
and the first line marks neither the beginning nor the end of a document. -/
theorem readsBack_iff (d : Doubles) (v : Value) : ReadsBack d v.value ↔ Fits v.value := by
  have heach : Yaml.Each (fun k => Yaml.isKey d.read k.toList = true) (StringReadsBack d) v.value ↔
      Yaml.Each KeyFits StringFits v.value := by
    refine Yaml.each_congr (fun k _ => isKey_iff) (fun w _ _ => ?_) v.value v.finite
    match w with
    | .str s => exact scalar_quoteIfNeeded_iff
    | .null | .bool _ | .num _ | .arr _ | .obj _ => exact Iff.rfl
  have hreads : EachReads d v.value ↔
      Yaml.Each (fun k => Yaml.isKey d.read k.toList = true) (StringReadsBack d) v.value :=
    Yaml.each_congr (fun _ _ => Iff.rfl) (fun w hinline hfinite => reads_iff hfinite hinline) v.value v.finite
  have hwhole (h : EachReads d v.value) :
      Yaml.read d.read (render d.write v.value) = some v.value ↔ Unmarked v.value := by
    rw [Yaml.read_lines (readLines_write v.value 0 h) _ (toList_render d v.value), Nat.mul_zero,
      Yaml.document_layout v.value v.keyed, ← any_isMarker_iff d v]
    split
    · rename_i hmarker
      simp [hmarker]
    · rename_i hmarker
      simp [hmarker]
  constructor
  · rintro ⟨h, hstrings⟩
    exact ⟨heach.1 hstrings, (hwhole (hreads.2 hstrings)).1 h⟩
  · rintro ⟨hfits, hunmarked⟩
    exact ⟨(hwhole (hreads.2 (heach.2 hfits))).2 hunmarked, heach.2 hfits⟩

/-! ### A string that is not read back -/

theorem toList_point (n : ℕ) : (n.repr ++ ".0").toList = Nat.toDigits 10 n ++ ['.', '0'] := by
  rw [String.toList_append, Nat.toList_repr]
  rfl

theorem isNumber_point (n : ℕ) : Numeral.isNumber (n.repr ++ ".0").toList = true := by
  rw [toList_point]
  refine Numeral.isNumber_of_isMantissa ?_
  rw [Numeral.unsigned_toDigits_append]
  exact Numeral.isMantissa_append (Numeral.isDigits_toDigits n) (.inr ⟨['0'], rfl, by decide⟩)

theorem isInteger_point (n : ℕ) : Numeral.isInteger (n.repr ++ ".0").toList = false := by
  have hpoint : '.' ∈ Nat.toDigits 10 n ++ ['.', '0'] := by simp
  rw [toList_point, Numeral.isInteger, Numeral.unsigned_toDigits_append, ← Bool.not_eq_true]
  simp only [Numeral.isDigits, Bool.and_eq_true, List.all_eq_true]
  exact fun h => absurd (h.2 '.' hpoint) (by decide)

/-- Doubles that are written by their bits. -/
def bitwise : Doubles where
  write bits := bits.toNat.repr ++ ".0"
  read s := UInt64.ofNat (Nat.ofDigitChars 10 (s.toList.takeWhile (· != '.')) 0)
  isNumber_write bits _ := isNumber_point bits.toNat
  isInteger_write bits _ := isInteger_point bits.toNat
  reads bits _ := by
    have hpoint : ∀ c ∈ Nat.toDigits 10 bits.toNat, (c != '.') = true := fun c hc =>
      bne_iff_ne.2 (Numeral.ne_of_isDigit (Numeral.isDigit_toDigits hc) (by decide))
    rw [toList_point, List.takeWhile_append_of_pos hpoint, List.takeWhile_cons_of_neg (by decide), List.append_nil,
      Nat.ofDigitChars_ten_toDigits, UInt64.ofNat_toNat]

/-- A description that begins with a question mark. -/
def asked : Value where
  value := .obj [("description", .str "? see the wiki")]
  keyed := Json.keyed_obj (by decide) (by simpa using Json.keyed_str _)
  finite := ⟨trivial, trivial, trivial⟩

/-- A string with a question mark and a blank at its beginning is left unquoted, and is no plain scalar. -/
theorem not_readsBack : ¬ ∀ (d : Doubles) (v : Value), ReadsBack d v.value := by
  intro h
  have hstring : StringReadsBack bitwise (.str "? see the wiki") := (h bitwise asked).each.2.1
  rw [StringReadsBack, scalar_quoteIfNeeded_iff] at hstring
  have hquotes : needsQuotes "? see the wiki" = false := by decide
  rw [TextFits, if_neg (by simp [hquotes])] at hstring
  exact (hstring.2.2 " see the wiki".toList (by decide)).2 (by decide)

end Nutsh.YamlText
