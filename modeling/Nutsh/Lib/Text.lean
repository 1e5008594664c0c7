/-
Splitting of texts.

The searches over a text that a program makes with its string library: the first occurrence of a
separator, the pieces between the occurrences of a character, a prefix taken off.  They are defined on the
list of the characters, so that they compute by structural recursion.

Main definitions:

* `Text.splitOnce` — what stands before and after the first occurrence of a separator;
* `Text.splitChar` — the pieces between the occurrences of a character;
* `Text.stripSuffix`, `Text.stripPrefix` — a text without a given end, or a given beginning;
* `Text.contains`, `Text.startsWith`, `Text.endsWith` — what stands in a text, and at either end;
* `Text.trimStartMatches` — a text without what stands at its beginning again and again;
* `Text.trim`, `Text.lower` — a text without its outer blanks, and in lower case.

Main results:

* `Text.splitOnceList_char` — a text is split at the first occurrence of a character;
* `Text.splitOnceList_char_of_not_mem` — a text without the character is not split.
-/
import Mathlib.Data.List.Basic

set_option relaxedAutoImplicit false
set_option autoImplicit false

namespace Text

/-- What stands before and after the first occurrence of `sep`. -/
def splitOnceList (sep : List Char) : List Char → Option (List Char × List Char)
  | [] => if sep.isEmpty then some ([], []) else none
  | c :: cs =>
      if sep.isPrefixOf (c :: cs) then some ([], (c :: cs).drop sep.length)
      else (splitOnceList sep cs).map fun p => (c :: p.1, p.2)

/-- The text before and the text after the first occurrence of `sep`. -/
def splitOnce (sep s : String) : Option (String × String) :=
  (splitOnceList sep.toList s.toList).map fun p => (String.ofList p.1, String.ofList p.2)

/-- The pieces of a text between the occurrences of a character. -/
def splitChar (c : Char) (s : String) : List String :=
  (s.toList.splitOn c).map String.ofList

/-- The text without `tail` at its end, `none` when it does not end so. -/
def stripSuffix (tail s : String) : Option String :=
  if tail.toList.isSuffixOf s.toList then
    some (String.ofList (s.toList.take (s.toList.length - tail.toList.length)))
  else none

/-- The text without `head` at its beginning, `none` when it does not begin so. -/
def stripPrefix (head s : String) : Option String :=
  if head.toList.isPrefixOf s.toList then some (String.ofList (s.toList.drop head.toList.length)) else none

/-- Whether `sub` stands somewhere in the text. -/
def contains (sub s : String) : Bool := (splitOnceList sub.toList s.toList).isSome

/-- Whether the text begins with `head`. -/
def startsWith (head s : String) : Bool := head.toList.isPrefixOf s.toList

/-- Whether the text ends in `tail`. -/
def endsWith (tail s : String) : Bool := tail.toList.isSuffixOf s.toList

/-- The characters without `head` at their beginning, however often it stands there. -/
def trimStartList (head : List Char) : ℕ → List Char → List Char
  | 0, cs => cs
  | fuel + 1, cs => if head.isPrefixOf cs then trimStartList head fuel (cs.drop head.length) else cs

/-- The text without `head` at its beginning, however often it stands there. -/
def trimStartMatches (head s : String) : String :=
  String.ofList (trimStartList head.toList s.toList.length s.toList)

/-- The text without the blanks at either end. -/
def trim (s : String) : String :=
  String.ofList ((s.toList.dropWhile Char.isWhitespace).reverse.dropWhile
    Char.isWhitespace).reverse

/-- The text with its ASCII letters in lower case. -/
def lower (s : String) : String := String.ofList (s.toList.map Char.toLower)

/-- A text is split at the first occurrence of a character. -/
theorem splitOnceList_char {c : Char} {a b : List Char} (h : c ∉ a) :
    splitOnceList [c] (a ++ c :: b) = some (a, b) := by
  induction a with
  | nil => simp [splitOnceList]
  | cons d a ih =>
      obtain ⟨hd, ha⟩ := not_or.1 (List.mem_cons.not.1 h)
      simp [splitOnceList, hd, ih ha]

/-- A text that lacks the character is not split. -/
theorem splitOnceList_char_of_not_mem {c : Char} {s : List Char} (h : c ∉ s) :
    splitOnceList [c] s = none := by
  induction s with
  | nil => rfl
  | cons d s ih =>
      obtain ⟨hd, hs⟩ := not_or.1 (List.mem_cons.not.1 h)
      simp [splitOnceList, hd, ih hs]

end Text
