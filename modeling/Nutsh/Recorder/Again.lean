/-
Redacting a document that was redacted.

A second run leaves a document if and only if its first pass does: what the first pass hashes anew cannot
be put back by the second, since the shortest of the values never comes back from its own replacement.  So
whether a redacted document is left is a matter of each of its texts: the first pass has to leave what
both passes made of it.

* `Left` — a text that both passes made and the first pass leaves;
* `walkAt_substitute_iff` — the first pass leaves what both passes made, text by text;
* `hashed_of_substitute` — what both passes hash in a value they leave;
* `redactFrom_eq_iff` — a document both passes leave is one the first pass leaves;
* `redact_redact_iff` — when redacting again changes nothing.
-/
import Nutsh.Recorder.Places

set_option relaxedAutoImplicit false
set_option autoImplicit false

namespace Nutsh.Recorder

variable {cls : Classes} {host : String} {pairs : Subs}

/-- What the passes make of a text is left by the rule of its place. -/
def Left (cls : Classes) (host : String) (pairs : Subs) (q : Place × String) : Prop :=
  q.1.text cls host (Text.replaceEach pairs (q.1.text cls host q.2)) =
    Text.replaceEach pairs (q.1.text cls host q.2)

instance (cls : Classes) (host : String) (pairs : Subs) (q : Place × String) :
    Decidable (Left cls host pairs q) :=
  inferInstanceAs (Decidable (_ = _))

/-! ### The first pass over what both passes made -/

/-- The second pass over a member of an object. -/
def substituteEntry (pairs : Subs) (k : String) (v : Json) : Json :=
  if Text.startsWith "$" k then v else substitute pairs v

/-- What a key says of a value is what it says of the value after the passes. -/
theorem pairRule_substitute {k : String} {v : Json} (hv : v.asStr = none) (mode : Mode) :
    (substitute pairs (walkAt cls host mode v).1).asStr = none ∧
      pairRule k (substitute pairs (walkAt cls host mode v).1) = pairRule k v := by
  obtain ⟨hstr, harr⟩ := @walkAt_shape cls host v hv mode
  obtain ⟨hstr', harr'⟩ := substitute_shape hstr pairs
  exact ⟨hstr', pairRule_congr hv hstr' (harr'.trans harr) k⟩

theorem entry_substitute_iff {v : Json}
    (ih : ∀ mode, (walkAt cls host mode (substitute pairs (walkAt cls host mode v).1)).1 =
        substitute pairs (walkAt cls host mode v).1 ↔ ∀ q ∈ placesAt mode v, Left cls host pairs q)
    (wraps : Bool) (k : String) :
    (entry cls host wraps k (substituteEntry pairs k (entry cls host wraps k v).1)).1 =
        substituteEntry pairs k (entry cls host wraps k v).1 ↔
      ∀ q ∈ entryPlaces wraps k v (placesAt .secrets v) (placesAt (.under k) v) (placesAt .value v),
        Left cls host pairs q := by
  rcases entry_cases k v with hkey | ⟨hkey, ⟨s, rfl⟩ | ⟨hv, hrule⟩ | ⟨hv, mode, hmode⟩⟩
  · rw [entryPlaces_of_dollar hkey, entry_of_dollar hkey, entry_of_dollar hkey, substituteEntry,
      if_pos hkey]
    simp
  · rw [entryPlaces_str hkey, substituteEntry, hkey, if_neg Bool.false_ne_true, entry_str, substitute,
      entry_str, Json.str.injEq, List.forall_mem_singleton]
    rfl
  · -- a secret counts as the text that stands for it
    rw [entryPlaces_of_redacted hkey hv hrule, substituteEntry, hkey, if_neg Bool.false_ne_true,
      entry_of_redacted hv hrule, substitute, entry_str, Json.str.injEq, List.forall_mem_singleton, Left,
      text_redacted hv hrule]
  · obtain ⟨hv', hrule⟩ := @pairRule_substitute cls host pairs k v hv mode
    have hmode' : (pairRule k (substitute pairs (walkAt cls host mode v).1)).mode k = some mode := by
      rw [hrule]
      exact hmode
    rw [entryPlaces_of_mode hkey hv hmode, substituteEntry, hkey, if_neg Bool.false_ne_true,
      entry_of_mode hv hmode, entry_of_mode hv' hmode']
    exact ih mode

mutual

/-- **The first pass leaves what both passes made** if and only if it leaves each of its texts. -/
theorem walkAt_substitute_iff (mode : Mode) :
    ∀ v, (walkAt cls host mode (substitute pairs (walkAt cls host mode v).1)).1 =
        substitute pairs (walkAt cls host mode v).1 ↔ ∀ q ∈ placesAt mode v, Left cls host pairs q
  | .obj members => by
      rw [walkAt_obj, substitute, walkAt_obj, placesAt, Json.obj.injEq]
      exact walkMembers_substitute_iff mode.wraps members
  | .arr items => by
      rw [walkAt_arr, substitute, walkAt_arr, placesAt, Json.arr.injEq]
      exact walkItems_substitute_iff mode items
  | .str s => by
      rw [walkAt_str, substitute, walkAt_str, placesAt, Json.str.injEq, List.forall_mem_singleton]
      rfl
  | .null | .bool _ | .num _ => by cases mode <;> simp [walkAt, placesAt] <;> rfl

theorem walkMembers_substitute_iff (wraps : Bool) :
    ∀ members, (walkMembers cls host wraps
        (substituteMembers pairs (walkMembers cls host wraps members).1)).1 =
        substituteMembers pairs (walkMembers cls host wraps members).1 ↔
      ∀ q ∈ memberPlaces wraps members, Left cls host pairs q
  | [] => by cases wraps <;> simp [walkMembers, memberPlaces] <;> rfl
  | (k, v) :: members => by
      have hrest := walkMembers_substitute_iff wraps members
      rw [walkMembers_cons, memberPlaces]
      split_ifs with hkey
      · exact hrest
      · rw [substituteMembers, walkMembers_cons, if_neg hkey, List.forall_mem_append, ← hrest,
          ← entry_substitute_iff (fun mode => walkAt_substitute_iff mode v) wraps k, List.cons.injEq,
          Prod.mk.injEq]
        simp only [true_and]
        rfl

theorem walkItems_substitute_iff (mode : Mode) :
    ∀ items, (walkItems cls host mode
        (substituteItems pairs (walkItems cls host mode items).1)).1 =
        substituteItems pairs (walkItems cls host mode items).1 ↔
      ∀ q ∈ itemPlaces mode items, Left cls host pairs q
  | [] => by cases mode <;> simp [walkItems, itemPlaces] <;> rfl
  | v :: items => by
      rw [walkItems_cons, substituteItems, walkItems_cons, itemPlaces, List.forall_mem_append,
        ← walkAt_substitute_iff mode v, ← walkItems_substitute_iff mode items, List.cons.injEq]

end

/-! ### What is hashed in a document both passes leave -/

/-- What is noted of a text: the text itself, and what it becomes. -/
def Notes (s : String) (walked : Json × Subs) : Prop :=
  ∀ p ∈ walked.2, p.1 = s ∧ walked.1 = .str p.2 ∧ p.1 ≠ p.2

theorem notes_hashOrMask (key s : String) :
    Notes s (.str (hashOrMask cls host key s).1, (hashOrMask cls host key s).2) := by
  intro p hp
  rw [hashOrMask] at hp ⊢
  split_ifs at hp ⊢
  · cases hp
  · rw [hashInto] at hp ⊢
    dsimp only at hp ⊢
    split_ifs at hp with hsame
    · cases hp
    · rw [List.mem_singleton.1 hp]
      exact ⟨rfl, rfl, fun h => hsame h.symm⟩

theorem notes_walkAt (mode : Mode) (s : String) : Notes s (walkAt cls host mode (.str s)) := by
  cases mode with
  | value =>
      intro p hp
      cases hp
  | under key => exact notes_hashOrMask key s
  | secrets =>
      intro p hp
      cases hp

theorem notes_entry (wraps : Bool) (k s : String) : Notes s (entry cls host wraps k (.str s)) := by
  have hpair : Notes s (redactPair k (.str s) (walkAt cls host .secrets (.str s))
      (walkAt cls host (.under k) (.str s)) (walkAt cls host .value (.str s))) := by
    rw [redactPair]
    cases pairRule k (.str s) with
    | keep =>
        intro p hp
        cases hp
    | redacted =>
        intro p hp
        cases hp
    | secretList => exact notes_walkAt .secrets s
    | hashed => exact notes_walkAt (.under k) s
    | walked => exact notes_walkAt .value s
  cases wraps with
  | false => exact hpair
  | true =>
      rw [entry, if_pos rfl]
      cases hpayload : payload k (.str s) with
      | none => exact hpair
      | some t =>
          have ht : t = s := (Option.some.inj (Option.eq_some_of_filter_eq_some hpayload)).symm
          rw [ht]
          exact notes_hashOrMask k s

/-- What is noted of a text both passes give back is given back by the second. -/
theorem Notes.replaceEach {s : String} {walked : Json × Subs} (h : Notes s walked)
    (hback : substitute pairs walked.1 = .str s) :
    ∀ p ∈ walked.2, p.1 ≠ p.2 ∧ Text.replaceEach pairs p.2 = p.1 := by
  intro p hp
  obtain ⟨hfrom, hto, hne⟩ := h p hp
  rw [hto, substitute, Json.str.injEq] at hback
  exact ⟨hne, hback.trans hfrom.symm⟩

theorem length_walkMembers_le (wraps : Bool) (members : List (String × Json)) :
    (walkMembers cls host wraps members).1.length ≤ members.length := by
  induction members with
  | nil => cases wraps <;> exact le_rfl
  | cons m members ih =>
      rw [walkMembers_cons]
      split_ifs
      · exact ih.trans (Nat.le_succ _)
      · exact Nat.succ_le_succ ih

theorem length_substituteMembers (members : List (String × Json)) :
    (substituteMembers pairs members).length = members.length := by
  induction members with
  | nil => rfl
  | cons m members ih => rw [substituteMembers, List.length_cons, List.length_cons, ih]

mutual

/-- What both passes hash in a value they leave is what the second pass puts for its hashes. -/
theorem hashed_of_substitute (mode : Mode) :
    ∀ v, substitute pairs (walkAt cls host mode v).1 = v →
      ∀ p ∈ (walkAt cls host mode v).2, p.1 ≠ p.2 ∧ Text.replaceEach pairs p.2 = p.1
  | .obj members => by
      rw [walkAt_obj, substitute, Json.obj.injEq]
      exact hashed_of_substituteMembers mode.wraps members
  | .arr items => by
      rw [walkAt_arr, substitute, Json.arr.injEq]
      exact hashed_of_substituteItems mode items
  | .str s => (notes_walkAt mode s).replaceEach
  | .null | .bool _ | .num _ => by
      intro _ p hp
      cases mode <;> cases hp

theorem hashed_of_substituteMembers (wraps : Bool) :
    ∀ members, substituteMembers pairs (walkMembers cls host wraps members).1 = members →
      ∀ p ∈ (walkMembers cls host wraps members).2, p.1 ≠ p.2 ∧ Text.replaceEach pairs p.2 = p.1
  | [] => by
      intro _ p hp
      cases wraps <;> cases hp
  | (k, v) :: members => by
      intro hback p hp
      rw [walkMembers_cons] at hback hp
      split_ifs at hback hp
      · -- a member that was dropped cannot be back
        have hlength := congrArg List.length hback
        have hle := @length_walkMembers_le cls host wraps members
        rw [length_substituteMembers, List.length_cons] at hlength
        omega
      · rw [substituteMembers, List.cons.injEq, Prod.mk.injEq] at hback
        obtain ⟨⟨_, hentry⟩, hrest⟩ := hback
        rcases List.mem_append.1 hp with hp | hp
        · rcases entry_cases k v with hkey | ⟨hkey, ⟨s, rfl⟩ | ⟨hv, hrule⟩ | ⟨hv, mode, hmode⟩⟩
          · rw [entry_of_dollar hkey] at hp
            cases hp
          · rw [hkey, if_neg Bool.false_ne_true] at hentry
            exact (notes_entry wraps k s).replaceEach hentry p hp
          · rw [entry_of_redacted hv hrule] at hp
            cases hp
          · rw [hkey, if_neg Bool.false_ne_true, entry_of_mode hv hmode] at hentry
            rw [entry_of_mode hv hmode] at hp
            exact hashed_of_substitute mode v hentry p hp
        · exact hashed_of_substituteMembers wraps members hrest p hp

theorem hashed_of_substituteItems (mode : Mode) :
    ∀ items, substituteItems pairs (walkItems cls host mode items).1 = items →
      ∀ p ∈ (walkItems cls host mode items).2, p.1 ≠ p.2 ∧ Text.replaceEach pairs p.2 = p.1
  | [] => by
      intro _ p hp
      cases mode <;> cases hp
  | v :: items => by
      intro hback p hp
      rw [walkItems_cons, substituteItems, List.cons.injEq] at hback
      rw [walkItems_cons] at hp
      rcases List.mem_append.1 hp with hp | hp
      · exact hashed_of_substitute mode v hback.1 p hp
      · exact hashed_of_substituteItems mode items hback.2 p hp

end

/-! ### A document both passes leave -/

mutual

/-- Without replacements the second pass does nothing. -/
theorem substitute_nil : ∀ v, substitute [] v = v
  | .obj members => by rw [substitute, substituteMembers_nil members]
  | .arr items => by rw [substitute, substituteItems_nil items]
  | .str _ => rfl
  | .null | .bool _ | .num _ => rfl

theorem substituteMembers_nil : ∀ members, substituteMembers [] members = members
  | [] => rfl
  | (k, v) :: members => by
      rw [substituteMembers, substituteMembers_nil members, substitute_nil v, ite_self]

theorem substituteItems_nil : ∀ items, substituteItems [] items = items
  | [] => rfl
  | v :: items => by rw [substituteItems, substitute_nil v, substituteItems_nil items]

end

theorem substituteAll_eq (v : Json) (subs : Subs) :
    substituteAll v subs = substitute (substitutable subs) v := by
  rw [substituteAll]
  split_ifs with h
  · rw [h, substitute_nil]
  · rfl

theorem substitutable_pairwise (subs : Subs) :
    (substitutable subs).Pairwise fun p q => q.1.utf8ByteSize ≤ p.1.utf8ByteSize := by
  have : Std.Total fun p q : String × String => subOrder p ≤ subOrder q :=
    ⟨fun p q => le_total _ _⟩
  have : IsTrans (String × String) fun p q => subOrder p ≤ subOrder q :=
    ⟨fun _ _ _ => le_trans⟩
  have hsorted := (List.pairwise_insertionSort (fun p q => subOrder p ≤ subOrder q)
    (subs.filter fun p => SUBSTITUTABLE_MIN ≤ p.1.length)).sublist (List.destutter_sublist (· ≠ ·) _)
  refine hsorted.imp fun {p q} hle => ?_
  -- the size comes first in the order
  rcases Prod.Lex.le_iff.1 hle with hlt | ⟨heq, _⟩
  · exact (OrderDual.toDual_lt_toDual.1 hlt).le
  · exact (OrderDual.toDual_inj.1 heq).ge

theorem mem_of_mem_substitutable {subs : Subs} {p : String × String} (h : p ∈ substitutable subs) :
    p ∈ subs ∧ SUBSTITUTABLE_MIN ≤ p.1.length := by
  have hmem := (List.destutter_sublist (· ≠ ·) _).subset h
  rw [List.mem_insertionSort, List.mem_filter] at hmem
  exact ⟨hmem.1, of_decide_eq_true hmem.2⟩

/-- **A document both passes leave** is one the first pass leaves. -/
theorem redactFrom_eq_iff (v : Json) :
    redactFrom cls v host = v ↔ (redactValue cls host v).1 = v := by
  change substituteAll (walkAt cls host .value v).1 (walkAt cls host .value v).2 = v ↔
    (walkAt cls host .value v).1 = v
  rw [substituteAll_eq]
  constructor
  · intro hback
    have hnotes := hashed_of_substitute .value v hback
    rcases List.eq_nil_or_concat (substitutable (walkAt cls host .value v).2) with hnil | ⟨front, p, hp⟩
    · rw [hnil, substitute_nil] at hback
      exact hback
    · -- the shortest value that is hashed would have to come back from its own hash
      rw [List.concat_eq_append] at hp
      obtain ⟨hmem, hlong⟩ := mem_of_mem_substitutable (p := p) (hp ▸ List.mem_append_right front
        (List.mem_singleton_self p))
      obtain ⟨hne, hreturn⟩ := hnotes p hmem
      have hsorted := hp ▸ substitutable_pairwise (walkAt cls host .value v).2
      have hshortest := fun q hq =>
        (List.pairwise_append.1 hsorted).2.2 q hq p (List.mem_singleton_self p)
      have hempty : p.1 ≠ "" := by
        intro hempty
        rw [hempty] at hlong
        exact absurd hlong (by decide)
      rw [hp] at hreturn
      exact absurd hreturn (Text.replaceEach_ne_old hshortest hempty hne)
  · intro hback
    have hnotes := @hashed_of_substitute cls host [] .value v
      ((substitute_nil _).trans hback)
    -- where nothing changes, nothing was hashed
    have hnil : (walkAt cls host .value v).2 = [] :=
      List.eq_nil_iff_forall_not_mem.2 fun p hp => (hnotes p hp).1 (hnotes p hp).2.symm
    rw [hnil, hback]
    exact substitute_nil v

end Nutsh.Recorder
