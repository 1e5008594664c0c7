/-
The alerts around a failed task, as a mock server selects them.

The window of a task is sent as two times without quotes, and the server compares them with the creation time of an
alert as texts, the fractions of both padded to nine digits.  For times of years with four digits this is the order
of the instants, so that the alerts it answers are those created between the two ends, to the nanosecond.

Main results:

* `instantKey_text` — the key of an instant that is written;
* `parse_window` — the filter of a window is read;
* `window_matches_iff` — an alert is matched exactly when the instant of its creation is within the ends.
-/
import Nutsh.Evidence
import Nutsh.Lib.Instants
import Nutsh.Mock.Sent

set_option relaxedAutoImplicit false
set_option autoImplicit false

namespace Nutsh.Mock

open Rfc3339 (stem text key nanos Fits IsFraction)

variable {F : Doubles} {secs : ℕ} {ds : List Char}

/-! ### Instants as texts -/

/-- The characters of a second: digits and marks. -/
theorem mem_stem {c : Char} (h : c ∈ stem secs) : c.isDigit = true ∨ c = '-' ∨ c = 'T' ∨ c = ':' := by
  obtain ⟨hmonth, hday⟩ := Calendar.proper_ofDays (secs / 86400)
  have hyear := Calendar.year_ofDays (secs / 86400)
  rw [stem, Calendar.ofSeconds_eq] at h
  dsimp only at h
  rw [Digits.ofInt_of_nonneg _ (by omega), Digits.ofInt_of_nonneg _ (by omega),
    Digits.ofInt_of_nonneg _ (by omega)] at h
  simp only [List.mem_append, List.mem_cons] at h
  rcases h with h | rfl | h | rfl | h | rfl | h | rfl | h | rfl | h
  · exact .inl (Rfc3339.isDigit_of_mem_ofNat h)
  · exact .inr (.inl rfl)
  · exact .inl (Rfc3339.isDigit_of_mem_ofNat h)
  · exact .inr (.inl rfl)
  · exact .inl (Rfc3339.isDigit_of_mem_ofNat h)
  · exact .inr (.inr (.inl rfl))
  · exact .inl (Rfc3339.isDigit_of_mem_ofNat h)
  · exact .inr (.inr (.inr rfl))
  · exact .inl (Rfc3339.isDigit_of_mem_ofNat h)
  · exact .inr (.inr (.inr rfl))
  · exact .inl (Rfc3339.isDigit_of_mem_ofNat h)

theorem utf8Size_of_isDigit {c : Char} (h : c.isDigit = true) : c.utf8Size = 1 := by
  have hle : c.toNat ≤ 57 := (Char.isDigit_iff_toNat.1 h).2
  rw [Char.utf8Size, if_pos]
  rw [UInt32.le_iff_toNat_le]
  exact hle.trans (by decide)

/-- A second is in bytes what it is in characters. -/
theorem utf8_stem (secs : ℕ) : (stem secs).flatMap String.utf8EncodeChar = (stem secs).map fun c => c.val.toUInt8 := by
  have hone : ∀ c ∈ stem secs, String.utf8EncodeChar c = [c.val.toUInt8] := by
    intro c hc
    apply String.utf8EncodeChar_eq_singleton
    obtain h | rfl | rfl | rfl := mem_stem hc
    · exact utf8Size_of_isDigit h
    · rfl
    · rfl
    · rfl
  rw [List.flatMap_congr hone, ← List.map_eq_flatMap]

/-- The marks of a second are where an instant has them. -/
theorem stem_marks (hs : Fits secs) : (stem secs)[4]? = some '-' ∧ (stem secs)[7]? = some '-' ∧
    (stem secs)[10]? = some 'T' := by
  obtain ⟨hyear, hmonth, hday, -⟩ := Rfc3339.fields_lt hs
  have hy := Digits.length_ofInt (by decide) hyear.1 hyear.2
  have hm := Digits.length_ofInt (by decide) hmonth.1 hmonth.2
  have hd := Digits.length_ofInt (by decide) hday.1 hday.2
  simp only [stem]
  refine ⟨?_, ?_, ?_⟩
  · rw [List.getElem?_append_right (by omega), hy]
    rfl
  · rw [List.getElem?_append_right (by omega), hy, List.getElem?_cons_succ, List.getElem?_append_right (by omega), hm]
    rfl
  · rw [List.getElem?_append_right (by omega), hy, List.getElem?_cons_succ, List.getElem?_append_right (by omega), hm,
      List.getElem?_cons_succ, List.getElem?_append_right (by omega), hd]
    rfl

theorem isInstant_text (hs : Fits secs) (ds : List Char) : isInstant (String.ofList (text secs ds)) = true := by
  have hbytes : utf8 (String.ofList (text secs ds)) = ((stem secs).map fun c => c.val.toUInt8) ++
      ((if ds = [] then [] else '.' :: ds) ++ ['Z']).flatMap String.utf8EncodeChar := by
    rw [utf8, String.toList_ofList, text, List.flatMap_append, utf8_stem]
  have hlen := Rfc3339.length_stem hs
  obtain ⟨h4, h7, h10⟩ := stem_marks hs
  have hat {i : ℕ} (hi : i < 19) : (utf8 (String.ofList (text secs ds)))[i]? =
      (stem secs)[i]?.map fun c => c.val.toUInt8 := by
    rw [hbytes, List.getElem?_append_left (by rw [List.length_map]; omega), List.getElem?_map]
  rw [isInstant_iff, hat (by decide), hat (by decide), hat (by decide), h4, h7, h10, String.toList_ofList, hbytes]
  refine ⟨?_, rfl, rfl, rfl, _, (List.append_assoc _ _ _)⟩
  rw [List.length_append, List.length_map, hlen, List.flatMap_append, List.length_append]
  have : (['Z'].flatMap String.utf8EncodeChar).length = 1 := rfl
  omega

/-- **The key of an instant that is written** is its text with the fraction padded. -/
theorem instantKey_text (hs : Fits secs) (ds : List Char) :
    (instantKey (String.ofList (text secs ds))).toList = key secs ds := by
  have hdot : '.' ∉ stem secs := by
    intro h
    obtain h | h | h | h := mem_stem h
    · exact absurd h (by decide)
    · exact absurd h (by decide)
    · exact absurd h (by decide)
    · exact absurd h (by decide)
  by_cases hne : ds = []
  · subst hne
    rw [instantKey_whole (isInstant_text hs []) hdot (by simp [text]), key]
    rfl
  · have htext : (String.ofList (text secs ds)).toList = stem secs ++ '.' :: ds ++ ['Z'] := by simp [text, hne]
    rw [instantKey_fraction (isInstant_text hs ds) hdot htext, key, Rfc3339.padded]

/-! ### The filter of a window -/

/-- What is written of the ends of a window. -/
theorem rfc3339_eq_text (t : ℤ) : Evidence.rfc3339 t = String.ofList (text t.toNat []) := by
  rw [Evidence.rfc3339_eq, Rfc3339.write_eq_stem]
  rfl

theorem isWord_rfc3339 (t : ℤ) : IsWord (Evidence.rfc3339 t) := by
  have hmem {c : Char} (h : c ∈ (Evidence.rfc3339 t).toList) : c.isDigit = true ∨ c = '-' ∨ c = 'T' ∨ c = ':' ∨ c = 'Z' := by
    rw [rfc3339_eq_text, String.toList_ofList, text] at h
    rcases List.mem_append.1 h with h | h
    · obtain h | h | h | h := mem_stem h
      · exact .inl h
      · exact .inr (.inl h)
      · exact .inr (.inr (.inl h))
      · exact .inr (.inr (.inr (.inl h)))
    · exact .inr (.inr (.inr (.inr (by simpa using h))))
  have hends {c : Char} (h : c.isDigit = true ∨ c = '-' ∨ c = 'T' ∨ c = ':' ∨ c = 'Z') : endsWord c = false := by
    obtain h | rfl | rfl | rfl | rfl := h
    · obtain ⟨hle, hge⟩ : 48 ≤ c.toNat ∧ c.toNat ≤ 57 := Char.isDigit_iff_toNat.1 h
      have hall : ∀ n < 10, endsWord (Char.ofNat (48 + n)) = false := by decide
      have hdigit := hall (c.toNat - 48) (by omega)
      rwa [Nat.add_sub_cancel' hle, Char.ofNat_toNat] at hdigit
    · rfl
    · rfl
    · rfl
    · rfl
  refine ⟨?_, fun c hc => hends (hmem hc)⟩
  rw [rfc3339_eq_text, text]
  simp

/-- The words between the ends of a window. -/
theorem text_between (first last : String) :
    (s!"creationTime ge {first} and creationTime le {last}").toList =
      "creationTime".toList ++ ' ' :: ("ge".toList ++ ' ' :: first.toList) ++
        ' ' :: ("and".toList ++ ' ' :: ("creationTime".toList ++ ' ' :: ("le".toList ++ ' ' :: last.toList))) := by
  have hge : "creationTime ge ".toList = "creationTime".toList ++ ' ' :: ("ge".toList ++ [' ']) := rfl
  have hle : " and creationTime le ".toList =
      ' ' :: ("and".toList ++ ' ' :: ("creationTime".toList ++ ' ' :: ("le".toList ++ [' ']))) := rfl
  change ("creationTime ge " ++ first ++ " and creationTime le " ++ last).toList = _
  rw [String.toList_append, String.toList_append, String.toList_append, hge, hle]
  simp only [List.append_assoc, List.cons_append, List.nil_append]

/-- An end of a window is read as the text it is. -/
theorem literalOf_rfc3339 (hparse : ∀ s, ':' ∈ s.toList → F.parse s = none) {t : ℤ} (ht : Fits t.toNat) :
    literalOf F (Evidence.rfc3339 t) = .ok (.text (Evidence.rfc3339 t)) := by
  have hcolon : ':' ∈ (Evidence.rfc3339 t).toList := by
    rw [rfc3339_eq_text, String.toList_ofList, text, stem]
    simp
  have hno {s : String} (hs : ':' ∉ s.toList) : Evidence.rfc3339 t ≠ s := by
    intro h
    rw [h] at hcolon
    exact hs hcolon
  have hinstant : isInstant (Evidence.rfc3339 t) = true := by
    rw [rfc3339_eq_text]
    exact isInstant_text ht []
  have htrue : Evidence.rfc3339 t ≠ "true" := hno (by simp)
  have hfalse : Evidence.rfc3339 t ≠ "false" := hno (by simp)
  simp only [literalOf, if_neg htrue, if_neg hfalse, hparse _ hcolon, hinstant, if_true]

/-- Two comparisons of the creation time, with the words of their ends. -/
theorem parse_between {first last : String} (hfirst : IsWord first) (hlast : IsWord last)
    (hge : literalOf F first = .ok (.text first)) (hle : literalOf F last = .ok (.text last)) :
    Filter.parse F s!"creationTime ge {first} and creationTime le {last}" =
      .ok (.and (.compare ["creationTime"] .ge (.text first)) (.compare ["creationTime"] .le (.text last))) := by
  have hproperty : IsPath "creationTime" ["creationTime"] := isPath_single rfl
  have hword : IsWord "creationTime" := .of_all rfl
  have hge := readsAtom_value (F := F) "creationTime" "ge" first ["creationTime"] hword (.of_all rfl) hfirst
    (by decide) hproperty (rfl : opOf "ge" = .ok .ge) hge
  have hle := readsAtom_value (F := F) "creationTime" "le" last ["creationTime"] hword (.of_all rfl) hlast
    (by decide) hproperty (rfl : opOf "le" = .ok .le) hle
  refine Reads.parse ?_
  rw [text_between]
  exact hge.one.and hle

/-- **The filter of a window is read** as its two comparisons. -/
theorem parse_window (hparse : ∀ s, ':' ∈ s.toList → F.parse s = none) {w : ℤ × ℤ} (hfirst : Fits w.1.toNat)
    (hlast : Fits w.2.toNat) :
    Filter.parse F (Evidence.odata w) =
      .ok (.and (.compare ["creationTime"] .ge (.text (Evidence.rfc3339 w.1)))
        (.compare ["creationTime"] .le (.text (Evidence.rfc3339 w.2)))) := by
  have hge := literalOf_rfc3339 hparse hfirst
  have hle := literalOf_rfc3339 hparse hlast
  have hodata : Evidence.odata w =
      s!"creationTime ge {Evidence.rfc3339 w.1} and creationTime le {Evidence.rfc3339 w.2}" := rfl
  have hwords := parse_between (isWord_rfc3339 w.1) (isWord_rfc3339 w.2) hge hle
  rwa [← hodata] at hwords

/-! ### The alerts of a window -/

/-- Texts compare as their characters do. -/
theorem compareOfLessAndEq_ne_lt_iff {a b : String} : compareOfLessAndEq a b ≠ .lt ↔ ¬ a.toList < b.toList := by
  rw [compareOfLessAndEq, ← String.lt_iff_toList_lt]
  split
  · simp_all
  · split <;> simp_all

theorem compareOfLessAndEq_ne_gt_iff {a b : String} :
    compareOfLessAndEq a b ≠ .gt ↔ a.toList < b.toList ∨ a.toList = b.toList := by
  rw [compareOfLessAndEq, ← String.lt_iff_toList_lt, String.toList_inj]
  split
  · simp_all
  · split <;> simp_all

variable {row : Json}

theorem compare_str (s : String) (op : Op) (l : String) :
    compare (some (.str s)) op (.text (F := F) l) = op.holds (compareOfLessAndEq (instantKey s) (instantKey l)) := rfl

/-- The nanoseconds of a whole second. -/
theorem nanos_nil (secs : ℕ) : nanos secs [] = secs * 10 ^ 9 := by
  have hzero : Nat.ofDigitChars 10 (Rfc3339.padded []) 0 = 0 := by decide
  rw [nanos, hzero, Nat.add_zero, Nat.mul_comm]

/-- A time is not before an end exactly when its instant is not. -/
theorem compare_ge_iff {t : ℤ} (hs : Fits secs) (ht : Fits t.toNat) (hds : IsFraction ds) :
    compare (some (.str (String.ofList (text secs ds)))) .ge (.text (F := F) (Evidence.rfc3339 t)) = true ↔
      t.toNat * 10 ^ 9 ≤ nanos secs ds := by
  have hend : nanos t.toNat [] = t.toNat * 10 ^ 9 := nanos_nil t.toNat
  rw [compare_str, Op.holds, bne_iff_ne, compareOfLessAndEq_ne_lt_iff, instantKey_text hs ds, rfc3339_eq_text,
    instantKey_text ht [], (Rfc3339.key_lt_iff hs ht hds Rfc3339.isFraction_nil).2, hend, not_lt]

/-- A time is not behind an end exactly when its instant is not. -/
theorem compare_le_iff {t : ℤ} (hs : Fits secs) (ht : Fits t.toNat) (hds : IsFraction ds) :
    compare (some (.str (String.ofList (text secs ds)))) .le (.text (F := F) (Evidence.rfc3339 t)) = true ↔
      nanos secs ds ≤ t.toNat * 10 ^ 9 := by
  have hend : nanos t.toNat [] = t.toNat * 10 ^ 9 := nanos_nil t.toNat
  obtain ⟨heq, hlt⟩ := Rfc3339.key_lt_iff hs ht hds Rfc3339.isFraction_nil
  rw [compare_str, Op.holds, bne_iff_ne, compareOfLessAndEq_ne_gt_iff, instantKey_text hs ds, rfc3339_eq_text,
    instantKey_text ht [], hlt, heq, hend, Nat.le_iff_lt_or_eq]

/-- **The alerts of a window**: the server answers an alert exactly when the instant of its creation, to the
nanosecond, is not before the first second of the window and not behind its last. -/
theorem window_matches_iff (hparse : ∀ s, ':' ∈ s.toList → F.parse s = none) {w : ℤ × ℤ} (hfirst : Fits w.1.toNat)
    (hlast : Fits w.2.toNat) (hs : Fits secs) (hds : IsFraction ds)
    (hrow : row.get "creationTime" = some (.str (String.ofList (text secs ds)))) :
    Rfc3339.read (String.ofList (text secs ds)) = some (nanos secs ds : ℤ) ∧
    ∃ f, Filter.parse F (Evidence.odata w) = .ok f ∧
      (f.matches row = true ↔ w.1.toNat * 10 ^ 9 ≤ nanos secs ds ∧ nanos secs ds ≤ w.2.toNat * 10 ^ 9) := by
  refine ⟨Rfc3339.read_text secs hds, _, parse_window hparse hfirst hlast, ?_⟩
  have hlookup : lookup row ["creationTime"] = some (.str (String.ofList (text secs ds))) := by
    rw [lookup_eq_some_iff]
    exact ⟨by simp [hrow], by simp⟩
  rw [Filter.matches, Filter.matches, Filter.matches, Bool.and_eq_true, hlookup, compare_ge_iff hs hfirst hds,
    compare_le_iff hs hlast hds]

/-- A word with a mark in it is no whole number. -/
theorem parse_wholes {s : String} {c : Char} (hc : c ∈ s.toList) (hdigit : c.isDigit = false) :
    Doubles.wholes.parse s = none := by
  refine if_neg fun h => ?_
  rw [List.all_eq_true.1 h.2 c hc] at hdigit
  cases hdigit

/-- The last second of a window is in it, and what is behind its beginning is not. -/
theorem window_matches_second :
    let alert (fraction : List Char) : Json := .obj [("creationTime", .str (String.ofList (Rfc3339.text 60 fraction)))]
    ∃ f, Filter.parse Doubles.wholes (Evidence.odata (0, 60)) = .ok f ∧ f.matches (alert []) = true ∧
      f.matches (alert ['5']) = false := by
  intro alert
  have hparse (s : String) (hs : ':' ∈ s.toList) : Doubles.wholes.parse s = none := parse_wholes hs rfl
  have hfits {secs : ℕ} (h : secs < 86400) : Fits secs := by
    rw [Fits, Calendar.ofSeconds_eq, Nat.div_eq_of_lt h, Calendar.ofDays_zero]
    exact (by decide : (1970 : ℤ) ≤ 9999)
  have hzero : Fits 0 := hfits (by decide)
  have hlast : Fits 60 := hfits (by decide)
  have hget (fraction : List Char) : (alert fraction).get "creationTime" =
      some (.str (String.ofList (Rfc3339.text 60 fraction))) := rfl
  have hhalf : IsFraction ['5'] := ⟨by decide, List.all_eq_true.1 rfl⟩
  obtain ⟨-, f, hf, hon⟩ := window_matches_iff hparse (w := (0, 60)) hzero hlast hlast Rfc3339.isFraction_nil (hget [])
  obtain ⟨-, g, hg, hbehind⟩ := window_matches_iff hparse (w := (0, 60)) hzero hlast hlast hhalf (hget ['5'])
  obtain rfl : f = g := by simpa [hf] using hg
  exact ⟨f, hf, hon.2 (by decide), Bool.eq_false_iff.2 fun h => absurd (hbehind.1 h).2 (by decide)⟩

end Nutsh.Mock
