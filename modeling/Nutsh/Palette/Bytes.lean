/-
The cursor of a line in bytes.

The line is a text in UTF-8 and its cursor a byte of it.  A text can only be cut where a character ends, and
cutting it elsewhere ends the program; so an edit may fail, and where a cluster ends may be asked in vain.  The
edits do to the bytes what they do to the characters, so the cursor is always between two of them, and it is
between two clusters as long as no edit joins what is around it.

Main definitions:

* `cut`, `clusterEnd`, `clusterStart` — a text cut at a byte, and the clusters around one;
* `Input`, `Input.apply` — the line, and what the edits and the moves do to it;
* `OnCluster`, `Input.Stands` — where the clusters end in bytes, and a cursor that stands well;
* `Input.Apart` — an edit that joins nothing across the cursor.

Main results:

* `Input.apply_ofLine` — the edits do to the bytes what they do to the characters;
* `stands_ofLine_iff` — the cursor stands well where the two halves share no cluster;
* `stands_iff_apart` — **it does in a run exactly when each edit is apart**.
-/
import Mathlib.Algebra.GroupWithZero.Nat
import Nutsh.Lib.Run
import Nutsh.Palette.Clusters

set_option relaxedAutoImplicit false
set_option autoImplicit false

namespace Nutsh.Palette.Bytes

/-! ### Texts in bytes -/

/-- How many bytes some characters take. -/
def size (cs : List Char) : ℕ := (cs.map Char.utf8Size).sum

/-- A text cut at a byte, `none` inside a character or past the end. -/
def cut : List Char → ℕ → Option (List Char × List Char)
  | cs, 0 => some ([], cs)
  | [], _ + 1 => none
  | c :: cs, n + 1 =>
      if c.utf8Size ≤ n + 1 then (cut cs (n + 1 - c.utf8Size)).map fun halves => (c :: halves.1, halves.2)
      else none

section
variable (wide : Char → Bool)

/-- The bytes of the characters after the first one that belong to its cluster. -/
def clusterRest : Bool → List Char → ℕ
  | _, [] => 0
  | joined, c :: cs => if !joined && wide c then 0 else c.utf8Size + clusterRest (c == ZWJ) cs

/-- The byte just past the cluster that starts at one. -/
def clusterEnd (text : List Char) (position : ℕ) : Option ℕ :=
  (cut text position).map fun halves =>
    match halves.2 with
    | [] => position
    | first :: rest => position + first.utf8Size + clusterRest wide (first == ZWJ) rest

/-- The start of the cluster that ends at a byte or before it, walked to from the start of the line. -/
def clusterStart (text : List Char) (position : ℕ) : Option ℕ :=
  go position 0
where
  go : ℕ → ℕ → Option ℕ
    | 0, start => some start
    | fuel + 1, start =>
        if start < position then do
          let past ← clusterEnd wide text start
          if position ≤ past then some start else go fuel past
        else some start

end

/-! ### The line -/

/-- A text, and a byte of it the cursor stands before. -/
structure Input where
  text : String := ""
  cursor : ℕ := 0
  deriving DecidableEq

/-- The bytes from one to the next are taken out, which ends the program where they are not whole characters. -/
def replaceRange (text : List Char) (start stop : ℕ) : Option String := do
  let (kept, _) ← cut text start
  let (_, rest) ← cut text stop
  some (String.ofList (kept ++ rest))

namespace Input

def insertStr (i : Input) (s : String) : Option Input := do
  let (before, after) ← cut i.text.toList i.cursor
  some { text := String.ofList (before ++ s.toList ++ after), cursor := i.cursor + size s.toList }

def insert (i : Input) (c : Char) : Option Input := do
  let (before, after) ← cut i.text.toList i.cursor
  some { text := String.ofList (before ++ c :: after), cursor := i.cursor + c.utf8Size }

def backspace (i : Input) : Option Input := do
  let (before, _) ← cut i.text.toList i.cursor
  match before.getLast? with
  | none => some i
  | some prev =>
      let start := i.cursor - prev.utf8Size
      let text ← replaceRange i.text.toList start i.cursor
      some { text, cursor := start }

/-- The blanks left of the cursor are skipped, and the run of other characters before them; a blank is one
byte. -/
def deleteWord (i : Input) : Option Input := do
  let (before, _) ← cut i.text.toList i.cursor
  let trimmed := before.reverse.dropWhile (· == ' ')
  let start := size (trimmed.dropWhile (· != ' ')).reverse
  if start = i.cursor then some i
  else do
    let text ← replaceRange i.text.toList start i.cursor
    some { text, cursor := start }

def deleteToStart (i : Input) : Option Input :=
  if i.cursor = 0 then some i
  else do
    let text ← replaceRange i.text.toList 0 i.cursor
    some { text, cursor := 0 }

def home (i : Input) : Input := { i with cursor := 0 }
def «end» (i : Input) : Input := { i with cursor := size i.text.toList }
def set (text : String) : Input := { text, cursor := size text.toList }

section
variable (wide : Char → Bool)

def left (i : Input) : Option Input :=
  if i.cursor = 0 then some i
  else (clusterStart wide i.text.toList i.cursor).map fun cursor => { i with cursor }

def right (i : Input) : Option Input :=
  if i.cursor = size i.text.toList then some i
  else (clusterEnd wide i.text.toList i.cursor).map fun cursor => { i with cursor }

/-- What an edit or a move makes of a line, `none` where it ends the program. -/
def apply (i : Input) : Op → Option Input
  | .insert c => i.insert c
  | .insertStr s => i.insertStr s
  | .backspace => i.backspace
  | .deleteWord => i.deleteWord
  | .deleteToStart => i.deleteToStart
  | .left => left wide i
  | .right => right wide i
  | .home => some i.home
  | .end => some i.end
  | .set text => some (set text)

end

end Input

/-! ### Cutting a text -/

@[simp] theorem size_nil : size [] = 0 := rfl

@[simp] theorem size_cons (c : Char) (cs : List Char) : size (c :: cs) = c.utf8Size + size cs := by
  simp [size]

@[simp] theorem size_append (as bs : List Char) : size (as ++ bs) = size as + size bs := by
  simp [size]

theorem length_le_size (cs : List Char) : cs.length ≤ size cs := by
  induction cs with
  | nil => exact Nat.le_refl 0
  | cons c cs ih =>
      have := Char.utf8Size_pos c
      rw [List.length_cons, size_cons]
      omega

/-- A text is cut where some characters of it end. -/
theorem cut_append (before after : List Char) : cut (before ++ after) (size before) = some (before, after) := by
  induction before with
  | nil =>
      cases after with
      | nil => rfl
      | cons c cs => rfl
  | cons c before ih =>
      have hpos := Char.utf8Size_pos c
      obtain ⟨n, hn⟩ : ∃ n, c.utf8Size + size before = n + 1 := ⟨c.utf8Size + size before - 1, by omega⟩
      rw [List.cons_append, size_cons, hn, cut, if_pos (by omega), ← hn, Nat.add_sub_cancel_left, ih]
      rfl

theorem cut_take (text : List Char) (position : ℕ) :
    cut text (size (text.take position)) = some (text.take position, text.drop position) := by
  have h := cut_append (text.take position) (text.drop position)
  rwa [List.take_append_drop] at h

theorem of_cut {text before after : List Char} {bytes : ℕ} (h : cut text bytes = some (before, after)) :
    text = before ++ after ∧ bytes = size before := by
  fun_induction cut text bytes generalizing before after with
  | case1 cs =>
      obtain ⟨rfl, rfl⟩ := Prod.mk.inj (Option.some.inj h)
      exact ⟨rfl, rfl⟩
  | case2 n => cases h
  | case3 c cs n hle ih =>
      obtain ⟨⟨front, back⟩, hcut, heq⟩ := Option.map_eq_some_iff.1 h
      obtain ⟨rfl, rfl⟩ := Prod.mk.inj heq
      obtain ⟨rfl, hsize⟩ := ih hcut
      refine ⟨rfl, ?_⟩
      show n + 1 = size (c :: front)
      rw [size_cons]
      omega
  | case4 c cs n hlt => cases h

theorem replaceRange_append (kept gone rest : List Char) :
    replaceRange (kept ++ gone ++ rest) (size kept) (size (kept ++ gone)) = some (String.ofList (kept ++ rest)) := by
  rw [replaceRange, cut_append, List.append_assoc, cut_append]
  rfl

/-- The more characters, the more bytes. -/
theorem size_take_add_le {text : List Char} {start stop : ℕ} (hle : start ≤ stop) (hstop : stop ≤ text.length) :
    size (text.take start) + (stop - start) ≤ size (text.take stop) := by
  obtain ⟨k, rfl⟩ := Nat.exists_eq_add_of_le hle
  have hlength : ((text.drop start).take k).length = k := by
    rw [List.length_take, List.length_drop]
    omega
  have := length_le_size ((text.drop start).take k)
  rw [List.take_add, size_append]
  omega

theorem size_take_lt_iff {text : List Char} {start stop : ℕ} (hstart : start ≤ text.length)
    (hstop : stop ≤ text.length) : size (text.take start) < size (text.take stop) ↔ start < stop := by
  constructor
  · intro h
    by_contra hle
    have := size_take_add_le (Nat.le_of_not_lt hle) hstart
    omega
  · intro h
    have := size_take_add_le (Nat.le_of_lt h) hstop
    omega

/-! ### Characters and bytes -/

variable {wide : Char → Bool} {text : List Char} {position : ℕ}

theorem clusterRest_eq (joined : Bool) (cs : List Char) :
    clusterRest wide joined cs = size (cs.take (Palette.clusterRest wide joined cs)) := by
  induction cs generalizing joined with
  | nil => rfl
  | cons c cs ih =>
      rw [clusterRest, Palette.clusterRest]
      split
      · rfl
      · rw [ih, List.take_succ_cons, size_cons]

/-- A cluster ends at the same place in characters and in bytes. -/
theorem clusterEnd_take (text : List Char) (position : ℕ) :
    clusterEnd wide text (size (text.take position)) =
      some (size (text.take (Palette.clusterEnd wide text position))) := by
  rw [clusterEnd, cut_take]
  cases h : text.drop position with
  | nil => simp [Palette.clusterEnd, h]
  | cons first rest =>
      rw [clusterEnd_of_drop h, (halves_of_drop h _).1, size_append, size_cons, ← clusterRest_eq]
      simp [Nat.add_assoc]

/-- So does the walk to the cluster before a place. -/
theorem clusterStart_take (h : position ≤ text.length) :
    clusterStart wide text (size (text.take position)) =
      some (size (text.take (Palette.clusterStart wide text position))) := by
  suffices hgo : ∀ bytes start fuel, start ≤ position → size (text.take position) ≤ size (text.take start) + bytes →
      position ≤ start + fuel →
      clusterStart.go wide text (size (text.take position)) bytes (size (text.take start)) =
        some (size (text.take (Palette.clusterStart.go wide text position fuel start))) from
    hgo _ 0 position (Nat.zero_le position) (Nat.le_add_left _ _) (Nat.le_add_left _ _)
  intro bytes
  induction bytes with
  | zero =>
      intro start fuel hle hbytes _
      have hsame : start = position := by
        have := size_take_add_le hle h
        omega
      subst hsame
      rw [clusterStart.go]
      cases fuel with
      | zero => rfl
      | succ fuel => rw [Palette.clusterStart.go, if_neg (Nat.lt_irrefl start)]
  | succ bytes ih =>
      intro start fuel hle hbytes hfuel
      rw [clusterStart.go]
      simp only [size_take_lt_iff (Nat.le_trans hle h) h, clusterEnd_take, Option.bind_eq_bind, Option.bind_some]
      rcases Nat.lt_or_eq_of_le hle with hlt | rfl
      · obtain ⟨fuel, rfl⟩ := Nat.exists_eq_add_one_of_ne_zero (show fuel ≠ 0 by omega)
        have hmore : start < Palette.clusterEnd wide text start := by
          have hwhole : Parted wide (text.take text.length) (text.drop text.length) := .inr (.inl (by simp))
          exact (clusterEnd_le_of_parted (by omega) (Nat.le_refl _) hwhole).1
        have hend : Palette.clusterEnd wide text start ≤ text.length := clusterEnd_le wide (Nat.le_trans hle h)
        have hreach : size (text.take position) ≤ size (text.take (Palette.clusterEnd wide text start)) ↔
            position ≤ Palette.clusterEnd wide text start := by
          rw [← Nat.not_lt, size_take_lt_iff hend h, Nat.not_lt]
        have hstep := size_take_add_le (Nat.le_of_lt hmore) hend
        rw [if_pos hlt, Palette.clusterStart.go, if_pos hlt]
        simp only [hreach]
        by_cases hpast : position ≤ Palette.clusterEnd wide text start
        · rw [if_pos hpast, if_pos hpast]
        · rw [if_neg hpast, if_neg hpast]
          exact ih _ fuel (by omega) (by omega) (by omega)
      · rw [if_neg (Nat.lt_irrefl start)]
        cases fuel with
        | zero => rfl
        | succ fuel => rw [Palette.clusterStart.go, if_neg (Nat.lt_irrefl start)]

/-! ### The edits in bytes -/

/-- A line of characters, in bytes. -/
def ofLine (i : Palette.Input) : Input := { text := i.text, cursor := size i.before }

theorem ofLine_of (before after : List Char) :
    ofLine (.of before after) = { text := String.ofList (before ++ after), cursor := size before } := by
  rw [ofLine, Palette.Input.before_of, Palette.Input.of]

theorem cut_ofLine (i : Palette.Input) : cut (ofLine i).text.toList (ofLine i).cursor = some (i.before, i.after) :=
  cut_take i.text.toList i.cursor

theorem toList_text (i : Palette.Input) : i.text.toList = i.before ++ i.after :=
  (List.take_append_drop i.cursor i.text.toList).symm

theorem ofLine_eq (i : Palette.Input) :
    ofLine i = { text := String.ofList (i.before ++ i.after), cursor := size i.before } := by
  rw [← toList_text, String.ofList_toList, ofLine]

theorem cursor_eq_zero_iff (i : Palette.Input) : (ofLine i).cursor = 0 ↔ i.before = [] := by
  constructor
  · intro h
    have := length_le_size i.before
    exact List.eq_nil_of_length_eq_zero (Nat.le_zero.1 (h ▸ this))
  · intro h
    rw [ofLine, h]
    rfl

namespace Input

/-- What is taken out before the cursor. -/
theorem replaceRange_ofLine (i : Palette.Input) {kept gone : List Char} (h : i.before = kept ++ gone) :
    replaceRange (ofLine i).text.toList (size kept) (ofLine i).cursor = some (String.ofList (kept ++ i.after)) := by
  have hcut := replaceRange_append kept gone i.after
  rwa [← h, ← toList_text] at hcut

theorem insertStr_ofLine (i : Palette.Input) (s : String) :
    (ofLine i).insertStr s = some (ofLine (i.insertStr s)) := by
  rw [insertStr, cut_ofLine, Palette.Input.insertStr, ofLine_of, size_append]
  rfl

theorem insert_ofLine (i : Palette.Input) (c : Char) : (ofLine i).insert c = some (ofLine (i.insert c)) := by
  rw [insert, cut_ofLine, Palette.Input.insert, ofLine_of, size_append, List.append_assoc]
  rfl

theorem backspace_ofLine (i : Palette.Input) : (ofLine i).backspace = some (ofLine i.backspace) := by
  rw [backspace, cut_ofLine, Palette.Input.backspace, ofLine_of]
  rcases List.eq_nil_or_concat' i.before with h | ⟨before, prev, h⟩
  · rw [ofLine_eq, h]
    rfl
  · have hstart : (ofLine i).cursor - prev.utf8Size = size before := by
      rw [ofLine, h]
      simp
    simp only [Option.bind_eq_bind, Option.bind_some, h, List.getLast?_concat, List.dropLast_concat, hstart,
      replaceRange_ofLine i h]

/-- What goes before the cursor is the run of other characters and the blanks behind it. -/
theorem exists_before_eq_append (before : List Char) :
    ∃ gone, before = ((before.reverse.dropWhile (· == ' ')).dropWhile (· != ' ')).reverse ++ gone := by
  have hsuffix : (before.reverse.dropWhile (· == ' ')).dropWhile (· != ' ') <:+ before.reverse :=
    (List.dropWhile_suffix _).trans (List.dropWhile_suffix _)
  obtain ⟨front, hfront⟩ := hsuffix
  refine ⟨front.reverse, ?_⟩
  rw [← List.reverse_append, hfront, List.reverse_reverse]

theorem deleteWord_ofLine (i : Palette.Input) : (ofLine i).deleteWord = some (ofLine i.deleteWord) := by
  obtain ⟨gone, hgone⟩ := exists_before_eq_append i.before
  rw [deleteWord, cut_ofLine, Palette.Input.deleteWord, ofLine_of]
  simp only [Option.bind_eq_bind, Option.bind_some, replaceRange_ofLine i hgone]
  split
  · rename_i hsame
    -- nothing goes when the kept bytes are all there are
    have hnone : gone = [] := by
      have hsize : size i.before = size i.before + size gone := by
        conv_lhs => rw [hgone]
        rw [size_append, hsame]
        rfl
      have := length_le_size gone
      exact List.eq_nil_of_length_eq_zero (by omega)
    rw [hnone, List.append_nil] at hgone
    rw [← hgone, ← ofLine_eq]
  · rfl

theorem deleteToStart_ofLine (i : Palette.Input) : (ofLine i).deleteToStart = some (ofLine i.deleteToStart) := by
  rw [deleteToStart, Palette.Input.deleteToStart, ofLine_of]
  split
  · rename_i hstart
    rw [ofLine_eq, (cursor_eq_zero_iff i).1 hstart]
  · have hcut := replaceRange_ofLine i (List.nil_append i.before).symm
    rw [size_nil] at hcut
    rw [hcut]
    rfl

theorem left_ofLine (i : Palette.Input) : left wide (ofLine i) = some (ofLine (.left wide i)) := by
  have hwalk : clusterStart wide (ofLine i).text.toList (ofLine i).cursor =
      some (ofLine (.left wide i)).cursor := clusterStart_take i.within
  rw [left]
  split
  · rename_i hstart
    rw [hstart] at hwalk
    have hzero : 0 = (ofLine (.left wide i)).cursor := Option.some.inj hwalk
    exact congrArg some (Input.mk.injEq .. ▸ ⟨rfl, hstart.trans hzero⟩)
  · rw [hwalk]
    rfl

theorem right_ofLine (i : Palette.Input) : right wide (ofLine i) = some (ofLine (.right wide i)) := by
  rw [right]
  split
  · rename_i hend
    have hafter : i.after = [] := by
      have hsize : size i.before = size (ofLine i).text.toList := hend
      rw [show (ofLine i).text.toList = i.before ++ i.after from toList_text i, size_append] at hsize
      have := length_le_size i.after
      exact List.eq_nil_of_length_eq_zero (by omega)
    have hstays : Palette.clusterEnd wide i.text.toList i.cursor = i.cursor := by
      rw [Palette.clusterEnd, show i.text.toList.drop i.cursor = [] from hafter]
    have hcursor : (ofLine (.right wide i)).cursor = (ofLine i).cursor :=
      congrArg (fun position => size (i.text.toList.take position)) hstays
    exact congrArg some (Input.mk.injEq .. ▸ ⟨rfl, hcursor.symm⟩)
  · rw [show clusterEnd wide (ofLine i).text.toList (ofLine i).cursor = _ from clusterEnd_take _ _]
    rfl

/-- **The edits do to the bytes what they do to the characters**, and none ends the program. -/
theorem apply_ofLine (i : Palette.Input) (op : Op) : apply wide (ofLine i) op = some (ofLine (i.apply wide op)) := by
  cases op with
  | insert c => exact insert_ofLine i c
  | insertStr s => exact insertStr_ofLine i s
  | backspace => exact backspace_ofLine i
  | deleteWord => exact deleteWord_ofLine i
  | deleteToStart => exact deleteToStart_ofLine i
  | left => exact left_ofLine i
  | right => exact right_ofLine i
  | home => rfl
  | «end» => simp [apply, Palette.Input.apply, ofLine, Input.end, Palette.Input.end, Palette.Input.before]
  | set text => simp [apply, Palette.Input.apply, ofLine, set, Palette.Input.set, Palette.Input.before]

end Input

/-! ### The cursor -/

variable (wide) in
/-- The bytes where a cluster ends, or the first one starts, as the line is walked from its start. -/
inductive OnCluster (text : List Char) : ℕ → Prop where
  | start : OnCluster text 0
  | next {position past : ℕ} : OnCluster text position → clusterEnd wide text position = some past →
      OnCluster text past

/-- The walk in bytes goes where the one in characters goes. -/
theorem onCluster_iff_exists {bytes : ℕ} :
    OnCluster wide text bytes ↔
      ∃ position ≤ text.length, Palette.OnCluster wide text position ∧ bytes = size (text.take position) := by
  constructor
  · intro h
    induction h with
    | start => exact ⟨0, Nat.zero_le _, .start, rfl⟩
    | next _ hend ih =>
        obtain ⟨position, hle, hon, rfl⟩ := ih
        rw [clusterEnd_take] at hend
        exact ⟨_, clusterEnd_le wide hle, hon.next, (Option.some.inj hend).symm⟩
  · rintro ⟨position, -, hon, rfl⟩
    induction hon with
    | start => exact .start
    | next _ ih => exact ih.next (clusterEnd_take text _)

/-- The cursor is where a character ends and where a cluster does, and a step to the left and one to the right
lead back to it. -/
structure Input.Stands (wide : Char → Bool) (i : Input) : Prop where
  char : (cut i.text.toList i.cursor).isSome
  cluster : OnCluster wide i.text.toList i.cursor
  back : i.cursor ≠ 0 → (i.left wide).bind (right wide) = some i

/-- The cursor stands well where the halves of the line share no cluster. -/
theorem stands_ofLine_iff (i : Palette.Input) : (ofLine i).Stands wide ↔ Parted wide i.before i.after := by
  have hiff : Palette.OnCluster wide i.text.toList i.cursor ↔ Parted wide i.before i.after :=
    onCluster_iff i.within
  rw [← hiff]
  constructor
  · rintro ⟨-, hcluster, -⟩
    obtain ⟨position, hle, hon, hsame⟩ := onCluster_iff_exists.1 hcluster
    have hlt : size (i.text.toList.take position) < size (i.text.toList.take i.cursor) ↔ position < i.cursor :=
      size_take_lt_iff hle i.within
    have hgt : size (i.text.toList.take i.cursor) < size (i.text.toList.take position) ↔ i.cursor < position :=
      size_take_lt_iff i.within hle
    have hsize : size (i.text.toList.take i.cursor) = size (i.text.toList.take position) := hsame
    obtain rfl : position = i.cursor := by omega
    exact hon
  · intro hon
    refine ⟨?_, onCluster_iff_exists.2 ⟨i.cursor, i.within, hon, rfl⟩, ?_⟩
    · rw [cut_ofLine]
      rfl
    · intro hne
      have hpos : 0 < i.cursor := by
        refine Nat.pos_of_ne_zero fun hzero => hne ((cursor_eq_zero_iff i).2 ?_)
        rw [Palette.Input.before, hzero, List.take_zero]
      have hback : Palette.clusterEnd wide i.text.toList (Palette.clusterStart wide i.text.toList i.cursor) =
          i.cursor := clusterEnd_clusterStart hpos i.within hon
      rw [Input.left_ofLine, Option.bind_some, Input.right_ofLine]
      exact congrArg (fun position => some (Input.mk i.text (size (i.text.toList.take position)))) hback

/-! ### Runs of edits -/

variable (wide) in
/-- An edit that joins nothing across the cursor: with text behind it, what is inserted does not end in a
joiner, and what is inserted at the start is not put before a character that takes no cell; and a character that
is deleted did not follow a joiner. -/
def Input.Apart (i : Input) (op : Op) : Prop :=
  ∀ before after, cut i.text.toList i.cursor = some (before, after) → after ≠ [] →
    match op with
    | .insert c => c ≠ ZWJ ∧ (i.cursor = 0 → after.head?.all wide)
    | .insertStr s => s = "" ∨ s.toList.getLast? ≠ some ZWJ ∧ (i.cursor = 0 → after.head?.all wide)
    | .backspace => before.dropLast.getLast? ≠ some ZWJ
    | _ => True

theorem apart_ofLine_iff (i : Palette.Input) (op : Op) : (ofLine i).Apart wide op ↔ i.Apart wide op := by
  have hall : ∀ P : List Char → List Char → Prop,
      (∀ before after, cut (ofLine i).text.toList (ofLine i).cursor = some (before, after) → P before after) ↔
        P i.before i.after := by
    intro P
    rw [cut_ofLine]
    constructor
    · exact fun h => h _ _ rfl
    · rintro h before after heq
      obtain ⟨rfl, rfl⟩ := Prod.mk.inj (Option.some.inj heq)
      exact h
  rw [Input.Apart, hall fun before after => after ≠ [] → _]
  cases op with
  | insert c => simp only [Palette.Input.apart_insert_iff, cursor_eq_zero_iff, or_iff_not_imp_left, ne_eq]
  | insertStr s =>
      simp only [Palette.Input.apart_insertStr_iff, cursor_eq_zero_iff, or_iff_not_imp_left, ne_eq]
      exact ⟨fun h hs hafter => h hafter hs, fun h hafter hs => h hs hafter⟩
  | backspace => simp only [Palette.Input.apart_backspace_iff, or_iff_not_imp_left, ne_eq]
  | _ => exact iff_of_true (fun _ => trivial) trivial

theorem exec_ofLine (i : Palette.Input) (ops : List Op) :
    ∃ j, Run.exec (Input.apply wide) (ofLine i) ops = some (ofLine j) := by
  have henabled : ∀ s op, (∃ i, s = ofLine i) → ∃ t, Input.apply wide s op = some t ∧ ∃ j, t = ofLine j := by
    rintro s op ⟨i, rfl⟩
    exact ⟨_, Input.apply_ofLine i op, _, rfl⟩
  obtain ⟨t, hrun, j, rfl⟩ := Run.exists_exec henabled ⟨i, rfl⟩ ops
  exact ⟨j, hrun⟩

/-- A cursor where a character ends is one of a line of characters. -/
theorem exists_ofLine {s : Input} (h : (cut s.text.toList s.cursor).isSome) : ∃ i, s = ofLine i := by
  obtain ⟨⟨before, after⟩, hcut⟩ := Option.isSome_iff_exists.1 h
  obtain ⟨htext, hcursor⟩ := of_cut hcut
  refine ⟨.of before after, ?_⟩
  rw [ofLine_of, ← htext, ← hcursor, String.ofList_toList]

/-- From a line whose cursor stands well, an edit leaves it so exactly when it is apart. -/
theorem stands_apply_iff {s t : Input} {op : Op} (hs : s.Stands wide) (h : s.apply wide op = some t) :
    t.Stands wide ↔ s.Apart wide op := by
  obtain ⟨i, rfl⟩ := exists_ofLine hs.char
  rw [Input.apply_ofLine] at h
  obtain rfl := Option.some.inj h
  rw [stands_ofLine_iff, Palette.Input.parted_apply_iff ((stands_ofLine_iff i).1 hs), apart_ofLine_iff]

/-- **The cursor of a line.**  No run of edits ends the program, and the cursor is always where a character
ends; it stands well after every edit exactly when each edit joins nothing across it, and then it stands well
in the line reached. -/
theorem stands_iff_apart (wide : Char → Bool) (ops : List Op) :
    ∃ t, Run.exec (Input.apply wide) {} ops = some t ∧ (cut t.text.toList t.cursor).isSome ∧
      (Run.Along (Input.apply wide) (fun s op => ∀ u, s.apply wide op = some u → u.Stands wide) {} ops ↔
        Run.Along (Input.apply wide) (Input.Apart wide) {} ops) ∧
      (Run.Along (Input.apply wide) (Input.Apart wide) {} ops → t.Stands wide) := by
  obtain ⟨j, hrun⟩ : ∃ j, Run.exec (Input.apply wide) (ofLine {}) ops = some (ofLine j) := exec_ofLine {} ops
  have hstart : ({} : Input).Stands wide := (stands_ofLine_iff {}).2 (.inl rfl)
  refine ⟨ofLine j, hrun, by rw [cut_ofLine]; rfl, ?_, ?_⟩
  · refine Run.along_iff (I := Input.Stands wide) ?_ (fun s op t _ h hstep => h t hstep) hstart hrun
    intro s op t hs hstep
    rw [← stands_apply_iff hs hstep, hstep]
    simp only [Option.some.injEq, forall_eq']
  · intro hapart
    refine Run.exec_inv_along (I := Input.Stands wide) ?_ hstart hapart hrun
    exact fun s op t hs hop hstep => (stands_apply_iff hs hstep).2 hop

/-- A table of widths where the combining marks and the joiner take no cell. -/
def marksTakeNone (c : Char) : Bool := c != ZWJ && !(0x300 ≤ c.toNat && c.toNat ≤ 0x36F)

/-- **A joiner typed in the middle of a line takes the cursor into a cluster**; so does a character typed
before a mark, and the character behind a joiner deleted. -/
theorem not_stands :
    (∃ t, Run.exec (Input.apply marksTakeNone) {} [.insert 'a', .insert 'b', .left, .insert ZWJ] = some t ∧
      ¬ t.Stands marksTakeNone) ∧
    (∃ t, Run.exec (Input.apply marksTakeNone) {} [.insert (Char.ofNat 0x301), .home, .insert 'e'] = some t ∧
      ¬ t.Stands marksTakeNone) ∧
    ∃ t, Run.exec (Input.apply marksTakeNone) {}
        [.insert 'a', .insert ZWJ, .insert 'b', .insert 'c', .left, .backspace] = some t ∧
      ¬ t.Stands marksTakeNone := by
  refine ⟨⟨ofLine (.of ['a', ZWJ] ['b']), by decide, ?_⟩, ⟨ofLine (.of ['e'] [Char.ofNat 0x301]), by decide, ?_⟩,
    ofLine (.of ['a', ZWJ] ['c']), by decide, ?_⟩
  all_goals
    rw [stands_ofLine_iff, Palette.Input.before_of, Palette.Input.after_of]
    decide

end Nutsh.Palette.Bytes
