/-
The keys of the confirm dialog.

A dialog that expects a text is answered by typing it and `enter`; one that expects none is answered by `y`.  What
is expected of one row is its name, and of several a phrase with their number.

* `Confirming`, `Confirming.key` — a dialog with what was typed into it, and what a key does;
* `Confirming.onlyTyped_iff` — a dialog runs only on what was typed if and only if it expects something to be typed;
* `name_confirm_iff` — which the name of an entity is unless it is empty;
* `bulk_confirm` — the phrase for several rows never is empty.
-/
import Nutsh.App
import Nutsh.Palette.Line

set_option relaxedAutoImplicit false
set_option autoImplicit false

namespace Nutsh

open Palette (Key)

/-- What a key did to the confirm dialog. -/
inductive ConfirmEvent where
  | run
  | cancelled
  | typed
  | mismatch
  | ignored
  deriving DecidableEq, Repr

/-- The confirm dialog, with what was typed into it. -/
structure Confirming where
  confirm : Confirm
  input : String := ""

namespace Confirming

def key (c : Confirming) (key : Key) : ConfirmEvent × Confirming :=
  match c.confirm.expect, key with
  | none, .char ch => if ch = 'y' ∨ ch = 'Y' then (.run, c) else (.cancelled, c)
  | none, _ => (.cancelled, c)
  | some _, .esc => (.cancelled, c)
  | some want, .enter => if c.input = want then (.run, c) else (.mismatch, c)
  | some _, .char ch => (.typed, { c with input := c.input.push ch })
  | some _, .backspace => (.typed, { c with input := String.ofList c.input.toList.dropLast })
  | some _, _ => (.ignored, c)

/-- The dialog after some keys. -/
def after (c : Confirming) (keys : List Key) : Confirming := keys.foldl (fun c key => (c.key key).2) c

/-! ### What was typed -/

/-- What stands on a line after some keys: what was typed, without what was deleted again. -/
def written : List Char → List Key → List Char
  | text, [] => text
  | text, .char ch :: keys => written (text ++ [ch]) keys
  | text, .backspace :: keys => written text.dropLast keys
  | text, _ :: keys => written text keys

/-- The characters among some keys. -/
def chars (keys : List Key) : List Char :=
  keys.filterMap fun
    | .char ch => some ch
    | _ => none

theorem written_sublist (text : List Char) (keys : List Key) : (written text keys).Sublist (text ++ chars keys) := by
  induction keys generalizing text with
  | nil => exact List.sublist_append_left ..
  | cons key keys ih =>
      cases key with
      | char ch =>
          have hsub := ih (text ++ [ch])
          rw [List.append_assoc] at hsub
          exact hsub
      | backspace => exact (ih text.dropLast).trans (.append_right (List.dropLast_sublist text) _)
      | _ => exact ih text

variable {c : Confirming} {want : String}

theorem key_expects (h : c.confirm.expect = some want) (key : Key) :
    (c.key key).2.confirm = c.confirm ∧ (c.key key).2.input.toList = written c.input.toList [key] := by
  unfold Confirming.key
  rw [h]
  cases key with
  | enter =>
      dsimp only
      split <;> exact ⟨rfl, rfl⟩
  | char ch => exact ⟨rfl, String.toList_push ..⟩
  | backspace => exact ⟨rfl, String.toList_ofList ..⟩
  | _ => exact ⟨rfl, rfl⟩

theorem written_cons (text : List Char) (key : Key) (keys : List Key) :
    written text (key :: keys) = written (written text [key]) keys := by
  cases key <;> rfl

theorem after_expects (h : c.confirm.expect = some want) (keys : List Key) :
    (c.after keys).confirm = c.confirm ∧ (c.after keys).input.toList = written c.input.toList keys := by
  induction keys generalizing c with
  | nil => exact ⟨rfl, rfl⟩
  | cons key keys ih =>
      obtain ⟨hconfirm, hinput⟩ := key_expects h key
      obtain ⟨hconfirm', hinput'⟩ := ih (hconfirm ▸ h)
      rw [after, List.foldl_cons, ← after, written_cons, ← hinput]
      exact ⟨hconfirm'.trans hconfirm, hinput'⟩

theorem key_run_iff (h : c.confirm.expect = some want) (key : Key) :
    (c.key key).1 = .run ↔ key = .enter ∧ c.input = want := by
  unfold Confirming.key
  rw [h]
  cases key with
  | enter =>
      dsimp only
      split
      · rename_i hsame
        simp [hsame]
      · rename_i hother
        simp [hother]
  | _ => simp

/-! ### What a dialog waits for -/

/-- A dialog runs only when what it expects, and not nothing, was typed since it was opened; no number of `enter`
alone runs it. -/
def OnlyTyped (confirm : Confirm) : Prop :=
  (∀ (keys : List Key) (key : Key), ((Confirming.after { confirm } keys).key key).1 = .run →
    ∃ want, confirm.expect = some want ∧ want ≠ "" ∧ key = .enter ∧ written [] keys = want.toList ∧
      want.toList.Sublist (chars keys)) ∧
  ∀ n, ((Confirming.after { confirm } (List.replicate n .enter)).key .enter).1 ≠ .run

theorem onlyTyped_iff {confirm : Confirm} (h : confirm.expect = some want) : OnlyTyped confirm ↔ want ≠ "" := by
  have hrun (keys : List Key) (key : Key) : ((Confirming.after { confirm } keys).key key).1 = .run ↔
      key = .enter ∧ written [] keys = want.toList := by
    obtain ⟨hconfirm, hinput⟩ := after_expects (c := { confirm }) h keys
    rw [key_run_iff ((congrArg Confirm.expect hconfirm).trans h), ← String.toList_inj, hinput, String.toList_empty]
  constructor
  · rintro ⟨htyped, -⟩ rfl
    obtain ⟨want, hwant, hne, -⟩ := htyped [] .enter ((hrun [] .enter).2 ⟨rfl, rfl⟩)
    exact hne (Option.some.inj (hwant.symm.trans h))
  · intro hne
    have hsub {keys : List Key} (hkeys : written [] keys = want.toList) : want.toList.Sublist (chars keys) :=
      hkeys ▸ written_sublist [] keys
    refine ⟨fun keys key hkey => ?_, fun n hkey => hne ?_⟩
    · obtain ⟨henter, hkeys⟩ := (hrun keys key).1 hkey
      exact ⟨want, h, hne, henter, hkeys, hsub hkeys⟩
    · have hnone : chars (List.replicate n .enter) = [] := by
        rw [chars, List.filterMap_replicate_of_none rfl]
      have := hsub ((hrun _ .enter).1 hkey).2
      rw [hnone, List.sublist_nil] at this
      exact String.toList_eq_nil_iff.1 this

end Confirming

/-- **One row is confirmed only by its name typed** if and only if its entity has a name that is not empty. -/
theorem name_confirm_iff (kind : Kind) (raw : Json) (etag : Option String) (label display : String)
    (site : Option String) :
    Confirming.OnlyTyped (Confirm.open .typeName label display [(Entity.new kind raw etag).name] site) ↔
      Entity.nameOf kind raw ≠ "" :=
  Confirming.onlyTyped_iff rfl

/-- A row whose name is empty is confirmed by `enter` alone. -/
theorem not_name_confirm : ¬ ∀ (kind : Kind) (raw : Json) (etag : Option String) (label display : String)
    (site : Option String),
    Confirming.OnlyTyped (Confirm.open .typeName label display [(Entity.new kind raw etag).name] site) := by
  intro h
  have hnone := (h vmKind (.obj [("extId", .str "a"), ("name", .str "")]) none "Delete" "VMs" none).2 0
  exact hnone (by decide)

/-- Several rows are confirmed by a phrase, which is never empty. -/
theorem bulk_confirm (label display : String) {names : List String} (h : names.length ≠ 1) (site : Option String) :
    Confirming.OnlyTyped (Confirm.open .typeName label display names site) := by
  have hexpect : (Confirm.open .typeName label display names site).expect = some s!"DELETE {names.length}" := by
    simp [Confirm.open, h]
  refine (Confirming.onlyTyped_iff hexpect).2 fun hempty => ?_
  have := congrArg String.length hempty
  simp at this

end Nutsh
