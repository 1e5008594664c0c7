/-
No cell turns the direction of its line, but for what is not sanitised.

The characters that turn the direction are dropped from a string where it is written as it stands.  Everything
else a cell writes is ASCII or a mark, except for two texts that reach it another way: the name a reference is
resolved to, and the JSON of an array or an object that is written whole.  So a cell is clean exactly when no
value that it draws is one of these.

Main definitions:

* `Clean` — a text has none of the characters;
* `Leaks` — a value is written with one of them;
* `isBlank`, `blank`, `drawn` — the values a cell draws: the first that is not blank, or all of them for marks.

Main results:

* `clean_scalar_iff` — one value;
* `blank_iff` — which values are written as nothing;
* `clean_render_iff` — a whole cell.
-/
import Mathlib.Tactic.IntervalCases
import Nutsh.Cell
import Nutsh.Lib.Split

set_option relaxedAutoImplicit false
set_option autoImplicit false

namespace Nutsh.Cell

/-- A text has no character that turns the direction. -/
def Clean (s : String) : Prop := ∀ c ∈ s.toList, isBidi c = false

instance (s : String) : Decidable (Clean s) := List.decidableBAll _ _

/-- An array or an object with such a character in one of its strings or keys. -/
def WholeLeaks (v : Json) : Prop := v.asStr = none ∧ ∃ s ∈ v.strings, ¬ Clean s

/-- A value that is written with such a character in it. -/
def Leaks (f : Formats) (names : IndexMap String String) (kind : ColumnKind) (v : Json) : Prop :=
  match kind with
  | .count => False
  | .duration => False
  | .micros => False
  | .reference =>
      plain f v ≠ NIL_UUID ∧
        match names.get? (plain f v) with
        | some name => ¬ Clean name
        | none => WholeLeaks v
  | _ => WholeLeaks v

/-- A text that says nothing. -/
def isBlank (s : String) : Bool := s == "" || s == "-"

/-- A value that is written as nothing. -/
def blank (f : Formats) (names : IndexMap String String) (kind : ColumnKind) (v : Json) : Bool :=
  match kind with
  | .duration => (asU64 v).isNone
  | .micros => (asU64 v).isNone
  | .reference =>
      plain f v == NIL_UUID ||
        match names.get? (plain f v) with
        | some name => isBlank name
        | none => isBlank (plain f v)
  | .status => isBlank (plain f v) || plain f v == "$"
  | .enum =>
      isBlank (plain f v) || isToken (plain f v) && (stripDollar (plain f v)).toList.all fun c => c == '_'
  | _ => isBlank (plain f v)

/-- The values a cell draws. -/
def drawn (f : Formats) (names : IndexMap String String) (kind : ColumnKind) (values : List Json) : List Json :=
  let shown := values.filter fun v => !blank f names kind v
  match kind with
  | .count => []
  | .bool => shown
  | _ => shown.take 1

variable {f : Formats} {names : IndexMap String String} {now : ℤ} {kind : ColumnKind} {v : Json} {s : String}

/-! ### Texts without the characters -/

theorem isBidi_iff {c : Char} :
    isBidi c = true ↔ 8234 ≤ c.toNat ∧ c.toNat ≤ 8238 ∨ 8294 ≤ c.toNat ∧ c.toNat ≤ 8297 := by
  simp only [isBidi, Bool.or_eq_true, Bool.and_eq_true, decide_eq_true_eq, Char.le_def, UInt32.le_iff_toNat_le]
  rfl

theorem le_toNat_of_isBidi {c : Char} (h : isBidi c = true) : 128 ≤ c.toNat := by
  have := isBidi_iff.1 h
  omega

theorem clean_of_ascii (h : ∀ c ∈ s.toList, c.toNat < 128) : Clean s := by
  intro c hc
  by_contra hbidi
  have hle := le_toNat_of_isBidi (Bool.eq_true_of_not_eq_false hbidi)
  have hlt := h c hc
  omega

theorem clean_append {t : String} : Clean (s ++ t) ↔ Clean s ∧ Clean t := by
  simp [Clean, or_imp, forall_and]

theorem clean_int (n : ℤ) : Clean n.repr := by
  refine clean_of_ascii fun c hc => ?_
  by_contra hle
  exact Json.not_mem_repr (by omega) n hc

theorem clean_nat (n : ℕ) : Clean n.repr := clean_int n

theorem clean_withoutBidi (s : String) : Clean (withoutBidi s) := by
  intro c hc
  rw [withoutBidi, String.toList_ofList, List.mem_filter] at hc
  simpa using hc.2

theorem not_clean_iff : ¬ Clean s ↔ ∃ c ∈ s.toList, isBidi c = true := by
  simp [Clean]

/-- A text of JSON is clean exactly when each string and each key is. -/
theorem clean_text_iff (f : Formats) (v : Json) : Clean (v.text f.float) ↔ ∀ s ∈ v.strings, Clean s := by
  rw [← not_iff_not, not_clean_iff]
  constructor
  · rintro ⟨c, hc, hbidi⟩
    obtain ⟨s, hs, hmem⟩ := (Json.mem_text_iff f.ascii_of_float (le_toNat_of_isBidi hbidi) v).1 hc
    exact fun h => absurd (h s hs c hmem) (by simp [hbidi])
  · intro h
    obtain ⟨s, hs, hnot⟩ : ∃ s ∈ v.strings, ¬ Clean s := by simpa using h
    obtain ⟨c, hc, hbidi⟩ := not_clean_iff.1 hnot
    exact ⟨c, (Json.mem_text_iff f.ascii_of_float (le_toNat_of_isBidi hbidi) v).2 ⟨s, hs, hc⟩, hbidi⟩

theorem clean_plain_iff : Clean (plain f v) ↔ ¬ WholeLeaks v := by
  have hwhole (v : Json) (hnone : v.asStr = none) : Clean (v.text f.float) ↔ ¬ WholeLeaks v := by
    simp [clean_text_iff, WholeLeaks, hnone]
  cases v with
  | str s => simp [plain, WholeLeaks, clean_withoutBidi]
  | null => exact iff_of_true (by simp [plain, Clean, isBidi]) (by simp [WholeLeaks, Json.strings])
  | bool | num | arr | obj => exact hwhole _ rfl

/-! ### What is written of a value -/

theorem clean_span (secs : ℕ) : Clean (span secs) := by
  rw [span]
  split_ifs
  all_goals exact clean_append.2 ⟨clean_nat _, by decide⟩

theorem clean_age (t now : ℤ) : Clean (age t now) := clean_span _

theorem clean_bytes (n : ℕ) : Clean (bytes n) := by
  have hunit (i : ℕ) : Clean (UNITS.getD i "") := by
    by_cases hi : i < 7
    · interval_cases i <;> decide
    · have : UNITS.getD i "" = "" := by
        rw [List.getD, List.getElem?_eq_none (by simpa [UNITS] using hi)]
        rfl
      rw [this]
      decide
  simp only [bytes]
  split_ifs
  · exact clean_append.2 ⟨clean_nat _, by decide⟩
  · simp only [clean_append, clean_nat, hunit, true_and, and_true]
    decide
  · simp only [clean_append, clean_nat, hunit, true_and, and_true]
    decide

theorem clean_wholeText (bits : UInt64) : Clean (wholeText bits) := by
  simp only [wholeText]
  refine clean_append.2 ⟨?_, clean_nat _⟩
  split <;> decide

theorem clean_asF64Whole {t : String} (h : asF64Whole v = some t) : Clean t := by
  match v with
  | .num (.int n) =>
      obtain rfl := Option.some.inj h
      refine clean_append.2 ⟨?_, clean_nat _⟩
      split <;> decide
  | .num (.float bits) =>
      obtain rfl := Option.some.inj h
      exact clean_wholeText bits

theorem strings_of_asU64 {n : ℕ} (h : asU64 v = some n) : v.strings = [] := by
  cases v with
  | num => rfl
  | null | bool | str | arr | obj => cases h

theorem strings_of_asI64 {n : ℤ} (h : asI64 v = some n) : v.strings = [] := by
  cases v with
  | num => rfl
  | null | bool | str | arr | obj => cases h

theorem strings_of_asF64Whole {t : String} (h : asF64Whole v = some t) : v.strings = [] := by
  cases v with
  | num => rfl
  | null | bool | str | arr | obj => cases h

/-! ### Words -/

theorem toNat_lt_of_isAlphanum {c : Char} (h : c.isAlphanum = true) : c.toNat < 128 := by
  -- all three ranges end below
  have hbelow : ∀ d : Char, d.toNat < 128 → c.val ≤ d.val → c.toNat < 128 := by
    intro d hd hle
    exact lt_of_le_of_lt (UInt32.le_iff_toNat_le.1 hle) hd
  rcases Bool.or_eq_true_iff.1 (h : (c.isAlpha || c.isDigit) = true) with h | hdigit
  · rcases Bool.or_eq_true_iff.1 (h : (c.isUpper || c.isLower) = true) with hupper | hlower
    · have hrange : c.val ≥ 'A'.val ∧ c.val ≤ 'Z'.val := of_decide_eq_true hupper
      exact hbelow 'Z' (by decide) hrange.2
    · exact hbelow 'z' (by decide) (of_decide_eq_true (Bool.and_eq_true_iff.1 hlower).2)
  · exact hbelow '9' (by decide) (of_decide_eq_true (Bool.and_eq_true_iff.1 hdigit).2)

/-- A token is ASCII. -/
theorem toNat_lt_of_isToken {w : String} (h : isToken w = true) : ∀ c ∈ w.toList, c.toNat < 128 := by
  intro c hc
  have hall := List.all_eq_true.1 (Bool.and_eq_true _ _ ▸ h : _ ∧ _).2 c hc
  simp only [Bool.or_eq_true, beq_iff_eq] at hall
  rcases hall with (h | rfl) | rfl
  · exact toNat_lt_of_isAlphanum h
  · decide
  · decide

theorem mem_stripDollar {w : String} {c : Char} (h : c ∈ (stripDollar w).toList) : c ∈ w.toList := by
  rw [stripDollar] at h
  split at h
  · rename_i rest hw
    rw [hw]
    exact List.mem_cons_of_mem _ (by simpa using h)
  · exact h

/-- ASCII stays ASCII in either case. -/
theorem cases_lt {c : Char} (h : c.toNat < 128) : c.toUpper.toNat < 128 ∧ c.toLower.toNat < 128 := by
  have hall : ∀ n < 128, (Char.ofNat n).toUpper.toNat < 128 ∧ (Char.ofNat n).toLower.toNat < 128 := by
    decide +kernel
  simpa using hall c.toNat h

theorem clean_shout_iff {w : String} : Clean (shout w) ↔ Clean w := by
  rw [shout]
  split
  · rename_i htoken
    have hascii := toNat_lt_of_isToken htoken
    refine iff_of_true (clean_of_ascii fun c hc => ?_) (clean_of_ascii hascii)
    simp only [String.toList_ofList, List.mem_map] at hc
    obtain ⟨d, hd, rfl⟩ := hc
    split
    · decide
    · exact (cases_lt (hascii d (mem_stripDollar hd))).1
  · rfl

/-- What an acronym is written as is ASCII, and more than dashes. -/
theorem acronym_spec {a : String × String} (ha : a ∈ ACRONYMS) :
    (∀ c ∈ a.2.toList, c.toNat < 128) ∧ ∃ c ∈ a.2.toList, c ≠ '-' := by
  have hall : (ACRONYMS.all fun a =>
      (a.2.toList.all fun c => decide (c.toNat < 128)) && a.2.toList.any (· != '-')) = true := by decide +kernel
  have hspec := List.all_eq_true.1 hall a ha
  rw [Bool.and_eq_true, List.all_eq_true, List.any_eq_true] at hspec
  obtain ⟨hascii, c, hc, hdash⟩ := hspec
  exact ⟨fun c hc => of_decide_eq_true (hascii c hc), c, hc, bne_iff_ne.1 hdash⟩

/-- A word of a token is ASCII. -/
theorem toNat_lt_of_recased {token : String} {i : ℕ} (h : ∀ c ∈ token.toList, c.toNat < 128) :
    ∀ c ∈ (recased token i).toList, c.toNat < 128 := by
  have hlower : ∀ c ∈ (Text.lower token).toList, c.toNat < 128 := by
    intro c hc
    simp only [Text.lower, String.toList_ofList, List.mem_map] at hc
    obtain ⟨d, hd, rfl⟩ := hc
    exact (cases_lt (h d hd)).2
  intro c hc
  rw [recased] at hc
  split at hc
  · rename_i a ha
    exact (acronym_spec (List.mem_of_find?_eq_some ha)).1 c hc
  · split at hc
    · rw [capitalize] at hc
      split at hc
      · rename_i first rest hfirst
        rw [String.toList_ofList, List.mem_cons] at hc
        rw [hfirst] at hlower
        rcases hc with rfl | hc
        · exact (cases_lt (hlower first (by simp))).1
        · exact hlower c (by simp [hc])
      · cases hc
    · exact hlower c hc

theorem clean_intercalate {sep : String} {l : List String} (hsep : Clean sep) (h : ∀ s ∈ l, Clean s) :
    Clean (sep.intercalate l) := by
  induction l with
  | nil => rw [String.intercalate_nil]; decide
  | cons s l ih =>
      cases l with
      | nil => rw [String.intercalate_singleton]; exact h s (by simp)
      | cons t l =>
          have hrest := ih fun x hx => h x (List.mem_cons_of_mem _ hx)
          rw [String.intercalate_cons_cons]
          exact clean_append.2 ⟨clean_append.2 ⟨h s (by simp), hsep⟩, hrest⟩

theorem clean_sentence_iff {w : String} : Clean (sentence w) ↔ Clean w := by
  rw [sentence]
  split
  · rename_i htoken
    have hascii := toNat_lt_of_isToken htoken
    refine iff_of_true (clean_intercalate (by decide) fun piece hpiece => ?_) (clean_of_ascii hascii)
    obtain ⟨⟨token, i⟩, htoken, rfl⟩ := List.mem_map.1 hpiece
    have hmem := (List.mem_filter.1 (List.fst_mem_of_mem_zipIdx htoken)).1
    refine clean_of_ascii (toNat_lt_of_recased fun c hc => ?_)
    obtain ⟨chars, hchars, rfl⟩ := List.mem_map.1 hmem
    have hwithin := Split.infix_of_mem_splitOn hchars
    exact hascii c (mem_stripDollar (hwithin.subset (by simpa using hc)))
  · rfl

/-- An identifier is ASCII. -/
theorem toNat_lt_of_isUuid {s : String} (h : isUuid s = true) : ∀ c ∈ s.toList, c.toNat < 128 := by
  intro c hc
  by_cases hdash : c = '-'
  · rw [hdash]
    decide
  · obtain ⟨piece, hpiece, hmem⟩ := (Split.exists_mem_splitOn_iff (a := '-')).2 ⟨hc, hdash⟩
    simp only [isUuid, Bool.and_eq_true, List.all_eq_true] at h
    have hhex := h.2 (String.ofList piece) (List.mem_map_of_mem hpiece) c (by simpa using hmem)
    simp only [Search.isHexDigit, Bool.or_eq_true, Bool.and_eq_true, decide_eq_true_eq] at hhex
    rcases hhex with (h | h) | h
    · exact lt_of_le_of_lt (Char.isDigit_iff_toNat.1 h).2 (by decide)
    · exact lt_of_le_of_lt (UInt32.le_iff_toNat_le.1 (Char.le_def.1 h.2)) (by decide)
    · exact lt_of_le_of_lt (UInt32.le_iff_toNat_le.1 (Char.le_def.1 h.2)) (by decide)

theorem clean_reference_iff : Clean (reference f names v).text ↔ ¬ Leaks f names .reference v := by
  simp only [reference, Leaks]
  split
  · rename_i hnil
    exact iff_of_true (by decide : Clean "-") (fun h => h.1 hnil)
  · rename_i hnil
    cases hname : names.get? (plain f v) with
    | some name => simp [hnil]
    | none =>
        simp only [hnil, ne_eq, not_false_eq_true, true_and]
        split
        · rename_i huuid
          have hascii := toNat_lt_of_isUuid huuid
          refine iff_of_true (clean_of_ascii fun c hc => ?_) (clean_plain_iff.1 (clean_of_ascii hascii))
          exact hascii c (List.mem_of_mem_take (by simpa using hc))
        · exact clean_plain_iff

/-- **One value** is written clean unless it leaks. -/
theorem clean_scalar_iff : Clean (scalar f names now kind v).text ↔ ¬ Leaks f names kind v := by
  have hno {P : Prop} (h : v.strings = [] ∨ v.asStr.isSome = true) (hclean : P) : P ↔ ¬ WholeLeaks v := by
    refine iff_of_true hclean ?_
    rintro ⟨hnone, s, hs, -⟩
    rcases h with h | h
    · simp [h] at hs
    · simp [hnone] at h
  cases kind with
  | bytes =>
      cases hu : asU64 v with
      | none => rw [scalar_bytes_plain hu]; exact clean_plain_iff
      | some n => rw [scalar_bytes hu]; exact hno (.inl (strings_of_asU64 hu)) (clean_bytes n)
  | duration =>
      refine iff_of_true ?_ (fun h => h)
      cases hu : asU64 v with
      | none => rw [scalar, hu]; exact (by decide : Clean "-")
      | some n => rw [scalar, hu]; exact clean_span n
  | micros =>
      refine iff_of_true ?_ (fun h => h)
      cases hu : asU64 v with
      | none => rw [scalar_micros_none hu]; decide
      | some n => rw [scalar_micros hu]; exact clean_age _ _
  | timestamp =>
      cases ht : v.asStr.bind f.rfc3339 with
      | none => rw [scalar_timestamp_plain ht]; exact clean_plain_iff
      | some t =>
          obtain ⟨s, hs, -⟩ := Option.bind_eq_some_iff.1 ht
          rw [scalar_timestamp ht]
          exact hno (.inr (by simp [hs])) (clean_age _ _)
  | percent =>
      cases hi : asI64 v with
      | some n =>
          rw [scalar_percent hi]
          exact hno (.inl (strings_of_asI64 hi)) (clean_append.2 ⟨clean_int n, by decide⟩)
      | none =>
          cases hf : asF64Whole v with
          | none => rw [scalar_percent_plain hi hf]; exact clean_plain_iff
          | some t =>
              rw [scalar_percent_double hi hf]
              exact hno (.inl (strings_of_asF64Whole hf)) (clean_append.2 ⟨clean_asF64Whole hf, by decide⟩)
  | bool =>
      cases v with
      | bool b =>
          cases b with
          | true => exact hno (.inl rfl) (by decide : Clean "✓")
          | false => exact hno (.inl rfl) (by decide : Clean "✗")
      | null | num | str | arr | obj => exact clean_plain_iff
  | status => exact clean_shout_iff.trans clean_plain_iff
  | «enum» => exact clean_sentence_iff.trans clean_plain_iff
  | reference => exact clean_reference_iff
  | ip => exact clean_plain_iff
  | text => exact clean_plain_iff
  | count => exact iff_of_true (by decide : Clean "-") (fun h => h)

/-! ### What is drawn -/

/-- A text with a character in it that is no dash says something. -/
theorem not_isBlank {c : Char} (hc : c ∈ s.toList) (hdash : c ≠ '-') : isBlank s = false := by
  rw [← Bool.not_eq_true]
  intro h
  simp only [isBlank, Bool.or_eq_true, beq_iff_eq] at h
  rcases h with rfl | rfl
  · cases hc
  · simp [hdash] at hc

theorem not_isBlank_append {t : String} {c : Char} (hc : c ∈ t.toList) (hdash : c ≠ '-') :
    isBlank (s ++ t) = false :=
  not_isBlank (c := c) (by simp [hc]) hdash

theorem not_isBlank_digit {c : Char} (hc : c ∈ s.toList) (hdigit : c.isDigit = true) : isBlank s = false := by
  refine not_isBlank hc ?_
  rintro rfl
  exact absurd hdigit (by decide)

theorem not_isBlank_int (n : ℤ) : isBlank n.repr = false := by
  have hnat (m : ℕ) : ∃ c ∈ m.repr.toList, c.isDigit = true := by
    have hne : Nat.toDigits 10 m ≠ [] := Nat.toDigits_ne_nil
    obtain ⟨c, rest, hm⟩ := List.exists_cons_of_ne_nil hne
    have hc : c ∈ Nat.toDigits 10 m := by simp [hm]
    exact ⟨c, by simpa [Nat.repr] using hc, Nat.isDigit_of_mem_toDigits (by decide) (by decide) hc⟩
  cases n with
  | ofNat m =>
      obtain ⟨c, hc, hdigit⟩ := hnat m
      exact not_isBlank_digit hc hdigit
  | negSucc m =>
      obtain ⟨c, hc, hdigit⟩ := hnat (m + 1)
      have hrepr : (Int.negSucc m).repr = "-" ++ (m + 1).repr := rfl
      rw [hrepr]
      refine not_isBlank_digit (c := c) ?_ hdigit
      rw [String.toList_append, List.mem_append]
      exact .inr hc

theorem not_isBlank_num (n : JsonNumber) : isBlank (plain f (.num n)) = false := by
  cases n with
  | int n => simpa [plain, Json.text, Json.chars] using not_isBlank_int n
  | float bits =>
      obtain ⟨c, hc, hdigit⟩ := f.digit_of_float bits
      exact not_isBlank_digit (c := c) (by simpa [plain, Json.text, Json.chars] using hc) hdigit

theorem not_isBlank_span (secs : ℕ) : isBlank (span secs) = false := by
  rw [span]
  split_ifs
  · exact not_isBlank_append (c := 's') (by decide) (by decide)
  · exact not_isBlank_append (c := 'm') (by decide) (by decide)
  · exact not_isBlank_append (c := 'h') (by decide) (by decide)
  · exact not_isBlank_append (c := 'd') (by decide) (by decide)
  · exact not_isBlank_append (c := 'y') (by decide) (by decide)

theorem not_isBlank_bytes (n : ℕ) : isBlank (bytes n) = false := by
  simp only [bytes]
  split
  · exact not_isBlank_append (c := 'B') (by decide) (by decide)
  · exact not_isBlank (c := ' ') (by simp) (by decide)

theorem num_of_asU64 {n : ℕ} (h : asU64 v = some n) : ∃ m, v = .num m := by
  cases v with
  | num m => exact ⟨m, rfl⟩
  | null | bool | str | arr | obj => cases h

theorem num_of_asI64 {n : ℤ} (h : asI64 v = some n) : ∃ m, v = .num m := by
  cases v with
  | num m => exact ⟨m, rfl⟩
  | null | bool | str | arr | obj => cases h

theorem num_of_asF64Whole {t : String} (h : asF64Whole v = some t) : ∃ m, v = .num m := by
  cases v with
  | num m => exact ⟨m, rfl⟩
  | null | bool | str | arr | obj => cases h

theorem isBlank_iff : isBlank s = true ↔ s.toList = [] ∨ s.toList = ['-'] := by
  simp only [isBlank, Bool.or_eq_true, beq_iff_eq, ← String.toList_inj]
  rfl

/-- A character of a token is no dash, and no dash in capitals. -/
theorem ne_dash_of_isToken {w : String} (h : isToken w = true) {c : Char} (hc : c ∈ w.toList) :
    c ≠ '-' ∧ c.toUpper ≠ '-' ∧ c.toLower ≠ '-' ∧ c.toLower.toUpper ≠ '-' := by
  have hascii := toNat_lt_of_isToken h c hc
  have hall := List.all_eq_true.1 (Bool.and_eq_true _ _ ▸ h : _ ∧ _).2 c hc
  have hfinite : ∀ n < 128, ((Char.ofNat n).isAlphanum || Char.ofNat n == '_' || Char.ofNat n == '$') = true →
      Char.ofNat n ≠ '-' ∧ (Char.ofNat n).toUpper ≠ '-' ∧ (Char.ofNat n).toLower ≠ '-' ∧
        (Char.ofNat n).toLower.toUpper ≠ '-' := by
    decide +kernel
  have := hfinite c.toNat hascii
  rw [Char.ofNat_toNat] at this
  exact this hall

theorem isBlank_of_isToken {w : String} (h : isToken w = true) : isBlank w = false := by
  have hne : w.toList ≠ [] := by
    rw [ne_eq, String.toList_eq_nil_iff]
    rintro rfl
    cases h
  obtain ⟨c, rest, hw⟩ := List.exists_cons_of_ne_nil hne
  have hc : c ∈ w.toList := by simp [hw]
  exact not_isBlank hc (ne_dash_of_isToken h hc).1

theorem isBlank_shout (w : String) : isBlank (shout w) = (isBlank w || w == "$") := by
  rw [shout]
  split
  · rename_i htoken
    rw [isBlank_of_isToken htoken, Bool.false_or, Bool.eq_iff_iff, isBlank_iff, String.toList_ofList,
      List.map_eq_nil_iff, beq_iff_eq]
    constructor
    · rintro (hnil | hdash)
      · rw [stripDollar] at hnil
        split at hnil
        · rename_i rest hw
          rw [String.toList_ofList] at hnil
          rw [← String.toList_inj, hw, hnil]
          rfl
        · rw [String.toList_eq_nil_iff] at hnil
          rw [hnil] at htoken
          cases htoken
      · obtain ⟨c, hc, heq⟩ := List.map_eq_singleton_iff.1 hdash
        have hmem : c ∈ w.toList := mem_stripDollar (by simp [hc])
        split at heq
        · exact absurd heq (by decide)
        · exact absurd heq (ne_dash_of_isToken htoken hmem).2.1
    · rintro rfl
      exact .inl rfl
  · rename_i hnot
    have hdollar : (w == "$") = false := by
      rw [beq_eq_false_iff_ne]
      rintro rfl
      exact hnot rfl
    rw [hdollar, Bool.or_false]

/-- A word of a token says something. -/
theorem exists_mem_recased {w token : String} {i : ℕ} (h : isToken w = true) (hne : token ≠ "")
    (hsub : ∀ c ∈ token.toList, c ∈ w.toList) : ∃ c ∈ (recased token i).toList, c ≠ '-' := by
  obtain ⟨c, rest, htoken⟩ := List.exists_cons_of_ne_nil (String.toList_eq_nil_iff.not.2 hne)
  obtain ⟨-, -, hlower, hcapital⟩ := ne_dash_of_isToken h (hsub c (by simp [htoken]))
  have hfirst : (Text.lower token).toList = c.toLower :: rest.map Char.toLower := by
    simp [Text.lower, htoken]
  rw [recased]
  split
  · rename_i a ha
    exact (acronym_spec (List.mem_of_find?_eq_some ha)).2
  · split
    · refine ⟨c.toLower.toUpper, ?_, hcapital⟩
      rw [capitalize, hfirst]
      simp
    · exact ⟨c.toLower, by simp [hfirst], hlower⟩

theorem mem_intercalate_cons {sep x : String} {l : List String} {c : Char} (hc : c ∈ x.toList) :
    c ∈ (sep.intercalate (x :: l)).toList := by
  cases l with
  | nil => simpa using hc
  | cons y l => simp [hc]

theorem isBlank_sentence (w : String) :
    isBlank (sentence w) = (isBlank w || isToken w && (stripDollar w).toList.all fun c => c == '_') := by
  rw [sentence]
  split
  · rename_i htoken
    rw [isBlank_of_isToken htoken, htoken, Bool.false_or, Bool.true_and, sentenceCase]
    have hmem (c : Char) := Split.exists_mem_splitOn_iff (a := '_') (c := c) (l := (stripDollar w).toList)
    cases hpieces : (Text.splitChar '_' (stripDollar w)).filter (· != "") with
    | nil =>
        refine Eq.symm (List.all_eq_true.2 fun c hc => ?_)
        by_contra hne
        obtain ⟨piece, hpiece, hc⟩ := (hmem c).2 ⟨hc, by simpa using hne⟩
        have hall := List.filter_eq_nil_iff.1 hpieces (String.ofList piece) (List.mem_map_of_mem hpiece)
        have hnil : piece = [] := by simpa using hall
        rw [hnil] at hc
        cases hc
    | cons token tokens =>
        have hfirst : token ∈ (Text.splitChar '_' (stripDollar w)).filter (· != "") := by simp [hpieces]
        obtain ⟨hsplit, hne⟩ := List.mem_filter.1 hfirst
        obtain ⟨piece, hpiece, rfl⟩ := List.mem_map.1 hsplit
        have hsub : ∀ c ∈ (String.ofList piece).toList, c ∈ (stripDollar w).toList ∧ c ≠ '_' :=
          fun c hc => (hmem c).1 ⟨piece, hpiece, by simpa using hc⟩
        have hne : String.ofList piece ≠ "" := by simpa using hne
        obtain ⟨c, hc, hdash⟩ := exists_mem_recased (i := 0) htoken hne fun c hc => mem_stripDollar (hsub c hc).1
        rw [List.zipIdx_cons, List.map_cons, not_isBlank (mem_intercalate_cons hc) hdash]
        obtain ⟨d, rest, hd⟩ := List.exists_cons_of_ne_nil (String.toList_eq_nil_iff.not.2 hne)
        obtain ⟨hin, hunder⟩ := hsub d (by simp [hd])
        refine Eq.symm (Bool.eq_false_iff.2 fun hall => ?_)
        exact hunder (by simpa using List.all_eq_true.1 hall d hin)
  · rename_i hnot
    rw [Bool.eq_false_iff.2 hnot, Bool.false_and, Bool.or_false]

theorem isBlank_uuid {w : String} (h : isUuid w = true) :
    isBlank (String.ofList (w.toList.take 8)) = false ∧ isBlank w = false := by
  simp only [isUuid, Bool.and_eq_true, beq_iff_eq, List.all_eq_true] at h
  obtain ⟨piece, rest, hsplit⟩ := List.exists_cons_of_ne_nil (List.splitOn_ne_nil '-' w.toList)
  obtain ⟨hsizes, hhex⟩ := h
  rw [Text.splitChar, hsplit] at hsizes hhex
  have hne : piece ≠ [] := by
    rintro rfl
    exact absurd (List.cons.inj hsizes).1 (by decide)
  obtain ⟨c, cs, rfl⟩ := List.exists_cons_of_ne_nil hne
  have hc := hhex (String.ofList (c :: cs)) (by simp) c (by simp)
  have hdash : c ≠ '-' := by
    rintro rfl
    exact absurd hc (by decide)
  obtain ⟨tail, hw⟩ := (Split.prefix_and_infix_of_splitOn hsplit).1
  rw [← hw]
  exact ⟨not_isBlank (c := c) (by simp) hdash, not_isBlank (c := c) (by simp [← hw]) hdash⟩

/-- A value is written as nothing exactly when it is blank. -/
theorem blank_iff (hkind : kind ≠ .count) :
    isBlank (scalar f names now kind v).text = blank f names kind v := by
  cases kind with
  | bytes =>
      cases hu : asU64 v with
      | none => rw [scalar_bytes_plain hu]; rfl
      | some n =>
          obtain ⟨m, rfl⟩ := num_of_asU64 hu
          rw [scalar_bytes hu, not_isBlank_bytes]
          exact (not_isBlank_num m).symm
  | duration =>
      cases hu : asU64 v with
      | none => rw [scalar, hu, blank, hu]; rfl
      | some n => rw [scalar, hu, blank, hu]; exact not_isBlank_span n
  | micros =>
      cases hu : asU64 v with
      | none => rw [scalar_micros_none hu, blank, hu]; rfl
      | some n => rw [scalar_micros hu, blank, hu]; exact not_isBlank_span _
  | timestamp =>
      cases ht : v.asStr.bind f.rfc3339 with
      | none => rw [scalar_timestamp_plain ht]; rfl
      | some t =>
          obtain ⟨s, hs, hparse⟩ := Option.bind_eq_some_iff.1 ht
          obtain rfl : v = .str s := by
            cases v with
            | str x => rw [Option.some.inj hs]
            | null | bool | num | arr | obj => cases hs
          obtain ⟨c, hc, hdigit⟩ := f.digit_of_rfc3339 hparse
          have hascii := (Char.isDigit_iff_toNat.1 hdigit).2
          have hkept : c ∈ (withoutBidi s).toList := by
            rw [withoutBidi, String.toList_ofList, List.mem_filter]
            refine ⟨hc, ?_⟩
            by_contra hbidi
            have hle := le_toNat_of_isBidi (c := c) (by simpa using hbidi)
            have h9 : '9'.toNat = 57 := rfl
            omega
          rw [scalar_timestamp ht]
          exact (not_isBlank_span _).trans (not_isBlank_digit hkept hdigit).symm
  | percent =>
      cases hi : asI64 v with
      | some n =>
          obtain ⟨m, rfl⟩ := num_of_asI64 hi
          rw [scalar_percent hi, not_isBlank_append (c := '%') (by decide) (by decide)]
          exact (not_isBlank_num m).symm
      | none =>
          cases hf : asF64Whole v with
          | none => rw [scalar_percent_plain hi hf]; rfl
          | some t =>
              obtain ⟨m, rfl⟩ := num_of_asF64Whole hf
              rw [scalar_percent_double hi hf, not_isBlank_append (c := '%') (by decide) (by decide)]
              exact (not_isBlank_num m).symm
  | bool =>
      cases v with
      | bool b =>
          cases b with
          | true => exact (by decide : isBlank "✓" = isBlank "true")
          | false => exact (by decide : isBlank "✗" = isBlank "false")
      | null | num | str | arr | obj => rfl
  | status => exact isBlank_shout _
  | «enum» => exact isBlank_sentence _
  | reference =>
      simp only [scalar, reference, blank]
      by_cases hnil : plain f v = NIL_UUID
      · simp only [hnil, if_true, beq_self_eq_true, Bool.true_or]
        rfl
      · have hne : (plain f v == NIL_UUID) = false := by simpa using hnil
        rw [if_neg hnil, hne, Bool.false_or]
        cases names.get? (plain f v) with
        | some name => rfl
        | none =>
            by_cases huuid : isUuid (plain f v) = true
            · simp only [huuid, if_true, isBlank_uuid huuid]
            · simp only [huuid, if_false, Bool.false_eq_true]
  | ip => rfl
  | text => rfl
  | count => exact absurd rfl hkind

/-! ### A whole cell -/

/-- What is added to the parts: each is written of a value that is not blank, and each such value is there. -/
theorem renderParts_spec (g : Json → Rendered) (parts : List Rendered) (values : List Json) :
    ∃ more, renderParts g parts values = parts ++ more ∧
      (∀ p ∈ more, ∃ v ∈ values, isBlank (g v).text = false ∧ p = g v) ∧
      ∀ v ∈ values, isBlank (g v).text = false → ∃ p ∈ parts ++ more, p.text = (g v).text := by
  induction values generalizing parts with
  | nil => exact ⟨[], by simp [renderParts], by simp, by simp⟩
  | cons v values ih =>
      rw [renderParts]
      split
      · rename_i hskip
        obtain ⟨more, heq, hwritten, hthere⟩ := ih parts
        refine ⟨more, heq, fun p hp => ?_, ?_⟩
        · obtain ⟨w, hw, hp⟩ := hwritten p hp
          exact ⟨w, List.mem_cons_of_mem _ hw, hp⟩
        · intro w hw hsaid
          rcases List.mem_cons.1 hw with rfl | hw
          · simp only [isBlank] at hsaid
            simp only [hsaid, Bool.false_or, List.any_eq_true, beq_iff_eq] at hskip
            obtain ⟨p, hp, htext⟩ := hskip
            exact ⟨p, List.mem_append_left _ hp, htext⟩
          · exact hthere w hw hsaid
      · rename_i hnew
        obtain ⟨more, heq, hwritten, hthere⟩ := ih (parts ++ [g v])
        have hsaid : isBlank (g v).text = false := by
          simp only [Bool.or_eq_true, not_or, Bool.not_eq_true] at hnew
          simp only [isBlank, hnew.1, Bool.or_false]
        rw [List.append_assoc] at heq hthere
        refine ⟨g v :: more, heq, fun p hp => ?_, fun w hw hw' => ?_⟩
        · rcases List.mem_cons.1 hp with rfl | hp
          · exact ⟨v, List.mem_cons_self, hsaid, rfl⟩
          · obtain ⟨w, hw, hp⟩ := hwritten p hp
            exact ⟨w, List.mem_cons_of_mem _ hw, hp⟩
        · rcases List.mem_cons.1 hw with rfl | hw
          · exact ⟨g w, by simp, rfl⟩
          · exact hthere w hw hw'

/-- The first part is written of the first value that is not blank. -/
theorem head?_renderParts (g : Json → Rendered) (values : List Json) :
    (renderParts g [] values).head? = ((values.filter fun v => !isBlank (g v).text).head?).map g := by
  induction values with
  | nil => rfl
  | cons v values ih =>
      have hdef : ((g v).text == "" || (g v).text == "-") = isBlank (g v).text := rfl
      rw [renderParts, List.any_nil, Bool.or_false, hdef]
      by_cases hblank : isBlank (g v).text = true
      · rw [if_pos hblank, ih, List.filter_cons_of_neg (by simp [hblank])]
      · rw [if_neg hblank, List.filter_cons_of_pos (by simp [hblank])]
        obtain ⟨more, heq, -⟩ := renderParts_spec g ([] ++ [g v]) values
        rw [heq]
        rfl

theorem clean_foldl (text : String) (parts : List Rendered) :
    Clean (parts.foldl (fun text p => text ++ p.text) text) ↔ Clean text ∧ ∀ p ∈ parts, Clean p.text := by
  induction parts generalizing text with
  | nil => simp
  | cons p parts ih => simp [ih, clean_append, and_assoc]

/-- **A cell is clean** exactly when no value that it draws leaks. -/
theorem clean_render_iff (f : Formats) (names : IndexMap String String) (now : ℤ) (path : String)
    (kind : ColumnKind) (raw : Json) :
    Clean (render f names now path kind raw).text ↔
      ∀ v ∈ drawn f names kind (Path.get raw path), ¬ Leaks f names kind v := by
  rw [render, renderJson]
  generalize Path.get raw path = values
  split
  · rename_i hempty
    rw [List.isEmpty_iff.1 hempty]
    refine iff_of_true (by decide : Clean "-") ?_
    cases kind <;> simp [drawn]
  split
  · rename_i hcount
    rw [hcount]
    exact iff_of_true (clean_nat _) (by simp [drawn])
  rename_i hcount
  have hshown : (values.filter fun v => !isBlank (scalar f names now kind v).text) =
      values.filter fun v => !blank f names kind v := by
    simp only [blank_iff hcount]
  have hhead := head?_renderParts (scalar f names now kind) values
  obtain ⟨more, heq, hwritten, hthere⟩ := renderParts_spec (scalar f names now kind) [] values
  rw [List.nil_append] at heq
  rw [heq] at hhead ⊢
  rw [hshown] at hhead
  cases more with
  | nil =>
      have hnone : (values.filter fun v => !blank f names kind v) = [] := by simpa using hhead.symm
      refine iff_of_true (by decide : Clean "-") ?_
      cases kind <;> simp [drawn, hnone]
  | cons first more =>
      by_cases hbool : kind = .bool
      · subst hbool
        have hclean (v : Json) : Clean (scalar f names now .bool v).text ↔ ¬ Leaks f names .bool v := clean_scalar_iff
        have hblank (v : Json) : isBlank (scalar f names now .bool v).text = blank f names .bool v :=
          blank_iff (by decide)
        simp only [if_true, clean_foldl, drawn, List.mem_filter, Bool.not_eq_true', ← hclean]
        constructor
        · rintro ⟨hfirst, hmore⟩ v ⟨hv, hsaid⟩
          rw [← hblank] at hsaid
          obtain ⟨p, hp, htext⟩ := hthere v hv hsaid
          rw [← htext]
          rcases List.mem_cons.1 hp with rfl | hp
          · exact hfirst
          · exact hmore p hp
        · intro h
          have hall : ∀ p ∈ first :: more, Clean p.text := by
            intro p hp
            obtain ⟨v, hv, hsaid, rfl⟩ := hwritten p hp
            rw [hblank] at hsaid
            exact h v ⟨hv, hsaid⟩
          exact ⟨hall first (by simp), fun p hp => hall p (by simp [hp])⟩
      · obtain ⟨v, hv, hfirst⟩ := Option.map_eq_some_iff.1 hhead.symm
        have hdrawn : drawn f names kind values = [v] := by
          obtain ⟨rest, hrest⟩ := List.head?_eq_some_iff.1 hv
          cases kind <;> simp_all [drawn]
        have hclean : Clean (scalar f names now kind v).text ↔ ¬ Leaks f names kind v := clean_scalar_iff
        rw [hdrawn, List.forall_mem_singleton, ← hclean, hfirst]
        simp only [hbool, if_false]
        split
        · rfl
        · have htext : s!"{first.text} +{more.length}" = first.text ++ (" +" ++ more.length.repr) := by
            simp only [String.append_assoc]
            rfl
          rw [htext, clean_append]
          exact and_iff_left (clean_append.2 ⟨by decide, clean_nat _⟩)

/-! ### An owner whose name turns the line -/

/-- Formats for rows that hold neither a date nor a double. -/
def noFormats : Formats where
  rfc3339 _ := none
  float _ := "0"
  digit_of_rfc3339 h := by cases h
  digit_of_float _ := ⟨'0', by decide, by decide⟩
  ascii_of_float _ := by simp

/-- A reference is written as the name it resolves to, as the server sent that. -/
theorem not_clean_render : ¬ ∀ (f : Formats) (names : IndexMap String String) (now : ℤ) (path : String)
    (kind : ColumnKind) (raw : Json), Clean (render f names now path kind raw).text := by
  intro h
  have := h noFormats (.ofList [("u1", "\u202Ebob")]) 0 "ownerExtId" .reference
    (.obj [("extId", .str "v1"), ("ownerExtId", .str "u1")])
  revert this
  decide +kernel

end Nutsh.Cell
