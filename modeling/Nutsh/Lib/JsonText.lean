/-
The text of a JSON value.

A value is written without blanks, its strings between quotes with the quotes, the backslashes and the control
characters in them escaped.  Whatever is not ASCII is written as it is, so such a character stands in the text
exactly when it stands in a string or a key of the value.

Main definitions:

* `Json.text` — the text of a value; `float` writes a double;
* `Json.strings` — the strings and the keys of a value.

Main results:

* `Json.mem_text_iff` — which characters beyond ASCII stand in a text.
-/
import Mathlib.Data.List.Basic
import Mathlib.Logic.Basic
import Mathlib.Tactic.SplitIfs
import Nutsh.Lib.Json

set_option relaxedAutoImplicit false
set_option autoImplicit false

namespace Json

/-- A character as it is written within a string. -/
def escape (c : Char) : List Char :=
  if c = '"' then ['\\', '"']
  else if c = '\\' then ['\\', '\\']
  else if c.toNat = 8 then ['\\', 'b']
  else if c.toNat = 9 then ['\\', 't']
  else if c.toNat = 10 then ['\\', 'n']
  else if c.toNat = 12 then ['\\', 'f']
  else if c.toNat = 13 then ['\\', 'r']
  else if c.toNat < 32 then ['\\', 'u', '0', '0', Nat.digitChar (c.toNat / 16), Nat.digitChar (c.toNat % 16)]
  else [c]

def quoted (s : String) : List Char := '"' :: (s.toList.flatMap escape ++ ['"'])

section
variable (float : UInt64 → String)

mutual

/-- The characters of the text of a value. -/
def chars : Json → List Char
  | null => ['n', 'u', 'l', 'l']
  | bool b => if b then ['t', 'r', 'u', 'e'] else ['f', 'a', 'l', 's', 'e']
  | num (.int n) => (toString n).toList
  | num (.float bits) => (float bits).toList
  | str s => quoted s
  | arr items => '[' :: (itemChars items ++ [']'])
  | obj members => '\x7b' :: (memberChars members ++ ['\x7d'])

def itemChars : List Json → List Char
  | [] => []
  | [v] => chars v
  | v :: items => chars v ++ ',' :: itemChars items

def memberChars : List (String × Json) → List Char
  | [] => []
  | [(key, v)] => quoted key ++ ':' :: chars v
  | (key, v) :: members => quoted key ++ ':' :: (chars v ++ ',' :: memberChars members)

end

/-- The text of a value. -/
def text (v : Json) : String := String.ofList (v.chars float)

end

mutual

/-- The strings and the keys of a value. -/
def strings : Json → List String
  | str s => [s]
  | arr items => itemStrings items
  | obj members => memberStrings members
  | _ => []

def itemStrings : List Json → List String
  | [] => []
  | v :: items => strings v ++ itemStrings items

def memberStrings : List (String × Json) → List String
  | [] => []
  | (key, v) :: members => key :: (strings v ++ memberStrings members)

end

/-! ### Beyond ASCII -/

variable {float : UInt64 → String} {c : Char}

theorem toNat_digitChar_lt : ∀ n < 16, (Nat.digitChar n).toNat < 128 := by decide

/-- Escaping neither writes nor hides a character beyond ASCII. -/
theorem mem_escape_iff (hc : 128 ≤ c.toNat) (d : Char) : c ∈ escape d ↔ c = d := by
  have hne {x : Char} (hx : x.toNat < 128) : c ≠ x := by
    rintro rfl
    omega
  by_cases hd : d.toNat < 128
  · refine iff_of_false (fun hmem => ?_) (hne hd)
    have hhigh := toNat_digitChar_lt (d.toNat / 16) (by omega)
    have hlow := toNat_digitChar_lt (d.toNat % 16) (by omega)
    have hall : ∀ x ∈ escape d, x.toNat < 128 := by
      simp only [escape]
      split_ifs <;> simp [hhigh, hlow, hd]
    exact absurd (hall c hmem) (by omega)
  · have hquote : d ≠ '"' := by
      rintro rfl
      exact hd (by decide)
    have hslash : d ≠ '\\' := by
      rintro rfl
      exact hd (by decide)
    have hself : escape d = [d] := by
      simp only [escape, hquote, hslash, if_false]
      split_ifs <;> first | omega | rfl
    rw [hself, List.mem_singleton]

theorem mem_quoted_iff (hc : 128 ≤ c.toNat) (s : String) : c ∈ quoted s ↔ c ∈ s.toList := by
  have hquote : c ≠ '"' := by
    rintro rfl
    exact absurd hc (by decide)
  simp [quoted, mem_escape_iff hc, hquote]

theorem not_mem_repr (hc : 128 ≤ c.toNat) (n : ℤ) : c ∉ n.repr.toList := by
  have hnat (m : ℕ) : c ∉ (Nat.repr m).toList := by
    intro h
    have hmem : c ∈ Nat.toDigits 10 m := by simpa [Nat.repr] using h
    have hdigit := Nat.isDigit_of_mem_toDigits (by decide) (by decide) hmem
    have := (Char.isDigit_iff_toNat.1 hdigit).2
    have h9 : '9'.toNat = 57 := rfl
    omega
  cases n with
  | ofNat m => exact hnat m
  | negSucc m =>
      have hminus : c ≠ '-' := by
        rintro rfl
        exact absurd hc (by decide)
      simpa [Int.repr, hminus] using hnat (m + 1)

mutual

/-- **The characters beyond ASCII of a text** are those of the strings and the keys. -/
theorem mem_chars_iff (hfloat : ∀ bits, ∀ d ∈ (float bits).toList, d.toNat < 128) (hc : 128 ≤ c.toNat) :
    ∀ v : Json, c ∈ v.chars float ↔ ∃ s ∈ v.strings, c ∈ s.toList
  | null => by
      refine iff_of_false (fun h => ?_) (by simp [strings])
      have hall : ∀ d ∈ chars float null, d.toNat < 128 := by simp [chars]
      exact absurd (hall c h) (by omega)
  | bool b => by
      refine iff_of_false (fun h => ?_) (by simp [strings])
      have hall : ∀ d ∈ chars float (bool b), d.toNat < 128 := by cases b <;> simp [chars]
      exact absurd (hall c h) (by omega)
  | num (.int n) => by
      have : c ∉ (toString n).toList := not_mem_repr hc n
      simp only [chars, strings, this, List.not_mem_nil, false_and, exists_false]
  | num (.float bits) => by
      have : c ∉ (float bits).toList := fun h => absurd (hfloat bits c h) (by omega)
      simp [chars, strings, this]
  | str s => by simp [chars, strings, mem_quoted_iff hc]
  | arr items => by
      have ⟨hopen, hclose⟩ : c ≠ '[' ∧ c ≠ ']' := by
        constructor <;> (rintro rfl; exact absurd hc (by decide))
      simpa [chars, strings, hopen, hclose] using mem_itemChars_iff hfloat hc items
  | obj members => by
      have ⟨hopen, hclose⟩ : c ≠ '\x7b' ∧ c ≠ '\x7d' := by
        constructor <;> (rintro rfl; exact absurd hc (by decide))
      simpa [chars, strings, hopen, hclose] using mem_memberChars_iff hfloat hc members

theorem mem_itemChars_iff (hfloat : ∀ bits, ∀ d ∈ (float bits).toList, d.toNat < 128) (hc : 128 ≤ c.toNat) :
    ∀ items : List Json, c ∈ itemChars float items ↔ ∃ s ∈ itemStrings items, c ∈ s.toList
  | [] => by simp [itemChars, itemStrings]
  | [v] => by simpa [itemChars, itemStrings] using mem_chars_iff hfloat hc v
  | v :: w :: items => by
      have hcomma : c ≠ ',' := by
        rintro rfl
        exact absurd hc (by decide)
      have hrest := mem_itemChars_iff hfloat hc (w :: items)
      rw [itemChars, itemStrings, List.mem_append, List.mem_cons, mem_chars_iff hfloat hc v, hrest]
      · simp only [hcomma, false_or, List.mem_append, or_and_right, exists_or]
      · simp

theorem mem_memberChars_iff (hfloat : ∀ bits, ∀ d ∈ (float bits).toList, d.toNat < 128)
    (hc : 128 ≤ c.toNat) :
    ∀ members : List (String × Json), c ∈ memberChars float members ↔
      ∃ s ∈ memberStrings members, c ∈ s.toList
  | [] => by simp [memberChars, memberStrings]
  | [(key, v)] => by
      have hcolon : c ≠ ':' := by
        rintro rfl
        exact absurd hc (by decide)
      have hv := mem_chars_iff hfloat hc v
      simp [memberChars, memberStrings, mem_quoted_iff hc, hcolon, hv]
  | (key, v) :: m :: members => by
      have ⟨hcolon, hcomma⟩ : c ≠ ':' ∧ c ≠ ',' := by
        constructor <;> (rintro rfl; exact absurd hc (by decide))
      have hv := mem_chars_iff hfloat hc v
      have hrest := mem_memberChars_iff hfloat hc (m :: members)
      rw [memberChars, memberStrings, List.mem_append, List.mem_cons, List.mem_append, List.mem_cons, hv,
        hrest, mem_quoted_iff hc]
      · simp only [hcolon, hcomma, false_or, List.mem_cons, List.mem_append, or_and_right, exists_or,
          exists_eq_left]
      · simp

end

theorem mem_text_iff (hfloat : ∀ bits, ∀ d ∈ (float bits).toList, d.toNat < 128)
    (hc : 128 ≤ c.toNat) (v : Json) : c ∈ (v.text float).toList ↔ ∃ s ∈ v.strings, c ∈ s.toList := by
  rw [text, String.toList_ofList, mem_chars_iff hfloat hc v]

end Json
