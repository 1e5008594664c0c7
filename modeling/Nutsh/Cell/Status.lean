/-
The role of a status word.

The colour of a row is the role of the word in its status column, and that word is looked up as the cell writes
it: without its `$`, its `_` blanks, in capitals.  The lookup normalises a word on its own, which undoes the
blanks inside of it, but not those at either end, which are trimmed, and takes a second `$` for the first.

Main definitions:

* `normalizeStatus` — a word as the tables of the roles spell it;
* `roleOf`, `roleIn` — the role of a word, for any kind and for one kind;
* `shown` — a word as the cell writes it;
* `KeepsName` — a word that is found under the same name when it is shown.

Main results:

* `render_status` — the cell of a status word;
* `normalizeStatus_shown_iff` — the words that keep their name;
* `roleIn_render_iff` — the words whose role is the same for every kind.
-/
import Mathlib.Data.List.DropRight
import Nutsh.Cell.Bidi

set_option relaxedAutoImplicit false
set_option autoImplicit false

namespace Nutsh.Cell

/-! ### The tables -/

/-- A character of Unicode's white space. -/
def isWhite (c : Char) : Bool :=
  ('\t' ≤ c && c ≤ '\r') || c == ' ' || c == '\u0085' || c == '\u00A0' || c == '\u1680' ||
    ('\u2000' ≤ c && c ≤ '\u200A') || c == '\u2028' || c == '\u2029' || c == '\u202F' || c == '\u205F' ||
    c == '\u3000'

/-- A word without the white space at either end. -/
def trim (word : String) : String := String.ofList ((word.toList.dropWhile isWhite).rdropWhile isWhite)

/-- `-` and the blank become `_`, a letter a capital. -/
def fold (c : Char) : Char := if c = '-' ∨ c = ' ' then '_' else c.toUpper

/-- A status word in the spelling of the tables. -/
def normalizeStatus (word : String) : String := String.ofList ((stripDollar (trim word)).toList.map fold)

/-- The vocabulary of the words every kind shares. -/
def roleOf (word : String) : Role :=
  if word ∈ ["ON", "RUNNING", "SUCCEEDED", "SUCCESS", "COMPLETE", "COMPLETED", "NORMAL", "UP", "ACTIVE",
      "AVAILABLE", "HEALTHY", "RESOLVED", "AUTO_RESOLVED", "ACKNOWLEDGED", "CONNECTED", "ENABLED", "READY",
      "IN_SYNC", "RECOVERY_COMPLETED", "TRUE"] then .ok
  else if word ∈ ["OFF", "POWERED_OFF"] then .off
  else if word ∈ ["PAUSED", "SUSPENDED", "QUEUED", "PENDING", "IN_PROGRESS", "MIGRATING", "CANCELING",
      "CANCELLING", "SUSPENDING", "RESUMING", "PAUSING", "POWERING_ON", "POWERING_OFF", "PROVISIONING",
      "UPDATING", "UPGRADING", "DOWNLOADING", "PREUPGRADE", "SCHEDULED", "RETRYING", "CONFIGURING",
      "MAINTENANCE", "NEW_NODE", "SETUP_PENDING", "SYNCING", "DELETING_IN_PROGRESS", "FAILOVER_IN_PROGRESS",
      "RECOVERY_STARTED", "RECOVERY_IN_PROGRESS"] then .pending
  else if word ∈ ["FAILED", "ABORTED", "ERROR", "CRITICAL", "HIGH", "DOWN", "DEGRADED", "UNHEALTHY",
      "UNREACHABLE", "DISCONNECTED", "OUT_OF_SYNC", "DELETE_FAILED", "FAILOVER_FAILED", "FALSE"] then .error
  else if word ∈ ["WARNING", "MEDIUM", "COMPLETED_WITH_ERRORS", "SUCCEEDED_WITH_VALIDATION_WARNING"] then
    .warn
  else if word ∈ ["INFO", "LOW"] then .info
  else if word ∈ ["CANCELED", "CANCELLED", "DELETING", "DELETED", "TERMINATING", "TO_BE_REMOVED",
      "OK_TO_BE_REMOVED"] then .ending
  -- a bare `-` is normalised to `_`
  else if word ∈ ["UNKNOWN", "REDACTED", "UNDETERMINED", "NONE", "DEFAULT", "DISABLED", "INACTIVE",
      "SKIPPED", "", "_"] then .muted
  else .neutral

/-- The role of a word for one kind: its own, else the shared one. -/
def roleIn (kind : Kind) (word : String) : Role :=
  let word := normalizeStatus word
  (kind.statusRole word).getD (roleOf word)

/-- A status word as its cell writes it. -/
def shown (word : String) : String :=
  if isBlank (shout (withoutBidi word)) then "-" else shout (withoutBidi word)

/-- A word that is found under the same name when it is shown: there is something to show, no character of it is
dropped, and if it is a token, then it is not trimmed and has no second `$`. -/
def KeepsName (word : String) : Prop :=
  Clean word ∧ word ≠ "" ∧
    (isToken word = true →
      stripDollar word ≠ "" ∧ (stripDollar word).toList.head? ≠ some '_' ∧
        (stripDollar word).toList.head? ≠ some '$' ∧ (stripDollar word).toList.getLast? ≠ some '_')

instance (word : String) : Decidable (KeepsName word) := inferInstanceAs (Decidable (_ ∧ _))

variable {w : String} {c : Char}

/-- The cell of a status word. -/
theorem render_status {f : Formats} {names : IndexMap String String} {now : ℤ} {path : String} {raw : Json}
    (h : Path.get raw path = [.str w]) : (render f names now path .status raw).text = shown w := by
  have hscalar : scalar f names now .status (.str w) = { text := shout (withoutBidi w), dim := false } := rfl
  rw [render, renderJson, h, shown]
  simp only [hscalar, renderParts, List.isEmpty_cons, Bool.false_eq_true, if_false, reduceCtorEq, List.any_nil,
    Bool.or_false]
  have hdef : (shout (withoutBidi w) == "" || shout (withoutBidi w) == "-") = isBlank (shout (withoutBidi w)) :=
    rfl
  rw [hdef]
  by_cases hblank : isBlank (shout (withoutBidi w)) = true
  · simp only [hblank, if_true]
    rfl
  · simp only [hblank, if_false, List.nil_append, Bool.false_eq_true, List.isEmpty_nil, if_true]

/-! ### Trimming -/

/-- What is trimmed is no white space at either end. -/
theorem trim_eq_self_iff {p : Char → Bool} {l : List Char} :
    (l.dropWhile p).rdropWhile p = l ↔ (∀ c ∈ l.head?, p c = false) ∧ ∀ c ∈ l.getLast?, p c = false := by
  cases l with
  | nil => simp
  | cons first rest =>
      have hlast := List.getLast?_eq_some_getLast (List.cons_ne_nil first rest)
      simp only [List.head?_cons, Option.mem_some_iff, forall_eq', hlast]
      constructor
      · intro h
        have hfirst : p first = false := by
          by_contra hp
          have hdrop : (first :: rest).dropWhile p = rest.dropWhile p :=
            List.dropWhile_cons_of_pos (by simpa using hp)
          have hlen := congrArg List.length h
          have hle := ((List.rdropWhile_prefix p (rest.dropWhile p)).length_le).trans
            (List.length_dropWhile_le p rest)
          rw [hdrop, List.length_cons] at hlen
          omega
        rw [List.dropWhile_cons_of_neg (by simp [hfirst])] at h
        have := (List.rdropWhile_eq_self_iff.1 h) (by simp)
        exact ⟨hfirst, by simpa using this⟩
      · rintro ⟨hfirst, hend⟩
        rw [List.dropWhile_cons_of_neg (by simp [hfirst]), List.rdropWhile_eq_self_iff]
        intro _
        simpa using hend

/-- A character that is no white space is not trimmed. -/
theorem mem_trim (h : c ∈ w.toList) (hwhite : isWhite c = false) : c ∈ (trim w).toList := by
  have hkept : ∀ l : List Char, c ∈ l → c ∈ l.dropWhile isWhite := by
    intro l hl
    rw [← List.takeWhile_append_dropWhile (p := isWhite) (l := l), List.mem_append] at hl
    rcases hl with hl | hl
    · simp [List.mem_takeWhile_imp hl] at hwhite
    · exact hl
  rw [trim, String.toList_ofList, List.rdropWhile, List.mem_reverse]
  exact hkept _ (List.mem_reverse.2 (hkept _ h))

theorem toList_stripDollar (w : String) :
    (stripDollar w).toList = if w.toList.head? = some '$' then w.toList.tail else w.toList := by
  rw [stripDollar]
  split
  · rename_i rest hw
    simp [hw]
  · rename_i hnot
    rw [if_neg]
    intro hhead
    obtain ⟨rest, hrest⟩ := List.head?_eq_some_iff.1 hhead
    exact hnot rest hrest

/-! ### Characters -/

theorem fold_of_le (h : 128 ≤ c.toNat) : fold c = c := by
  have hne (d : Char) (hd : d.toNat < 128) : c ≠ d := by
    rintro rfl
    omega
  rw [fold, if_neg (by simp [hne '-' (by decide), hne ' ' (by decide)])]
  refine dif_neg ?_
  rintro ⟨-, hle⟩
  have hval : c.val.toNat = c.toNat := rfl
  have hz := UInt32.le_iff_toNat_le.1 hle
  have hz' : 'z'.val.toNat = 122 := rfl
  omega

theorem fold_lt (h : c.toNat < 128) : (fold c).toNat < 128 := by
  rw [fold]
  split
  · decide
  · exact (cases_lt h).1

theorem isBidi_fold (c : Char) : isBidi (fold c) = isBidi c := by
  have hascii {d : Char} (hd : d.toNat < 128) : isBidi d = false := by
    by_contra hbidi
    have := le_toNat_of_isBidi (Bool.eq_true_of_not_eq_false hbidi)
    omega
  by_cases h : c.toNat < 128
  · rw [hascii h, hascii (fold_lt h)]
  · rw [fold_of_le (by omega)]

/-- What turns the direction of a line is no white space. -/
theorem isWhite_of_isBidi (h : isBidi c = true) : isWhite c = false := by
  have hlow : ∀ k < 5, isWhite (Char.ofNat (8234 + k)) = false := by decide
  have hhigh : ∀ k < 4, isWhite (Char.ofNat (8294 + k)) = false := by decide
  rw [← Char.ofNat_toNat c]
  rcases isBidi_iff.1 h with ⟨hle, hge⟩ | ⟨hle, hge⟩
  · obtain ⟨k, hk⟩ := Nat.exists_eq_add_of_le hle
    rw [hk]
    exact hlow k (by omega)
  · obtain ⟨k, hk⟩ := Nat.exists_eq_add_of_le hle
    rw [hk]
    exact hhigh k (by omega)

theorem clean_normalizeStatus_iff : Clean (normalizeStatus w) ↔ Clean w := by
  simp only [Clean, normalizeStatus, String.toList_ofList, List.mem_map, forall_exists_index, and_imp,
    forall_apply_eq_imp_iff₂, isBidi_fold]
  refine ⟨fun h c hc => ?_, fun h c hc => ?_⟩
  · by_contra hbidi
    have hle := le_toNat_of_isBidi (Bool.eq_true_of_not_eq_false hbidi)
    have htrim := mem_trim hc (isWhite_of_isBidi (Bool.eq_true_of_not_eq_false hbidi))
    refine hbidi (h c ?_)
    rw [toList_stripDollar]
    split
    · rename_i hhead
      obtain ⟨rest, hrest⟩ := List.head?_eq_some_iff.1 hhead
      rw [hrest] at htrim ⊢
      rcases List.mem_cons.1 htrim with rfl | htrim
      · exact absurd hle (by decide)
      · exact htrim
    · exact htrim
  · have hmem := mem_stripDollar hc
    rw [trim, String.toList_ofList] at hmem
    exact h c (List.dropWhile_subset _ ((List.rdropWhile_prefix _ _).subset hmem))

/-! ### Tokens -/

/-- A character of a token as it is shown. -/
def shoutChar (c : Char) : Char := if c = '_' then ' ' else c.toUpper

/-- A token is not trimmed; shown, it is at its `_`, keeps its `$`, and is looked up as before. -/
theorem shoutChar_of_isToken (h : isToken w = true) (hc : c ∈ w.toList) :
    isWhite c = false ∧ isWhite (shoutChar c) = (c == '_') ∧ (shoutChar c = '$' ↔ c = '$') ∧
      fold (shoutChar c) = fold c := by
  have hascii := toNat_lt_of_isToken h c hc
  have hall := List.all_eq_true.1 (Bool.and_eq_true _ _ ▸ h : _ ∧ _).2 c hc
  have hfinite : ∀ n < 128, ((Char.ofNat n).isAlphanum || Char.ofNat n == '_' || Char.ofNat n == '$') = true →
      isWhite (Char.ofNat n) = false ∧ isWhite (shoutChar (Char.ofNat n)) = (Char.ofNat n == '_') ∧
        (shoutChar (Char.ofNat n) = '$' ↔ Char.ofNat n = '$') ∧
        fold (shoutChar (Char.ofNat n)) = fold (Char.ofNat n) := by
    decide +kernel
  have := hfinite c.toNat hascii
  rw [Char.ofNat_toNat] at this
  exact this hall

/-- A list without a `$` in front of it. -/
def dropDollar (l : List Char) : List Char := if l.head? = some '$' then l.tail else l

theorem dropDollar_sublist (l : List Char) : (dropDollar l).Sublist l := by
  rw [dropDollar]
  split
  · exact List.tail_sublist l
  · exact List.Sublist.refl l

/-- What is left of a shown token when it is looked up. -/
def left (l : List Char) : List Char := dropDollar ((l.dropWhile (· == '_')).rdropWhile (· == '_'))

theorem normalizeStatus_token (h : isToken w = true) :
    normalizeStatus w = String.ofList ((stripDollar w).toList.map fold) := by
  have htrim : trim w = w := by
    rw [trim, trim_eq_self_iff.2, String.ofList_toList]
    exact ⟨fun c hc => (shoutChar_of_isToken h (List.mem_of_mem_head? hc)).1,
      fun c hc => (shoutChar_of_isToken h (List.mem_of_mem_getLast? hc)).1⟩
  rw [normalizeStatus, htrim]

/-- Blanks are trimmed off a shown token where `_` stood in it. -/
theorem dropWhile_map_shoutChar {l : List Char} (h : ∀ c ∈ l, isWhite (shoutChar c) = (c == '_')) :
    (l.map shoutChar).dropWhile isWhite = (l.dropWhile (· == '_')).map shoutChar := by
  induction l with
  | nil => rfl
  | cons c l ih =>
      rw [List.map_cons, List.dropWhile_cons, List.dropWhile_cons, h c List.mem_cons_self]
      split
      · exact ih fun d hd => h d (List.mem_cons_of_mem _ hd)
      · rfl

theorem normalizeStatus_shout (h : isToken w = true) :
    normalizeStatus (shout w) = String.ofList ((left (stripDollar w).toList).map fold) := by
  have hchar (c : Char) (hc : c ∈ (stripDollar w).toList) := shoutChar_of_isToken h (mem_stripDollar hc)
  have hshout : (shout w).toList = (stripDollar w).toList.map shoutChar := by
    rw [shout, if_pos h, String.toList_ofList]
    rfl
  generalize (stripDollar w).toList = u at hchar hshout
  have hfront := dropWhile_map_shoutChar fun c hc => (hchar c hc).2.1
  have hback : ((u.map shoutChar).dropWhile isWhite).rdropWhile isWhite =
      ((u.dropWhile (· == '_')).rdropWhile (· == '_')).map shoutChar := by
    rw [hfront, List.rdropWhile, ← List.map_reverse, dropWhile_map_shoutChar, ← List.map_reverse, List.rdropWhile]
    intro c hc
    exact (hchar c (List.dropWhile_subset _ (List.mem_reverse.1 hc))).2.1
  have hsub : ((u.dropWhile (· == '_')).rdropWhile (· == '_')) ⊆ u := fun c hc =>
    List.dropWhile_subset _ ((List.rdropWhile_prefix _ _).subset hc)
  rw [normalizeStatus, toList_stripDollar, trim, String.toList_ofList, hshout, hback, left]
  generalize (u.dropWhile (· == '_')).rdropWhile (· == '_') = t at hsub
  have hdollar : (t.map shoutChar).head? = some '$' ↔ t.head? = some '$' := by
    cases t with
    | nil => simp
    | cons c t => simpa using (hchar c (hsub (by simp))).2.2.1
  have htail : (if (t.map shoutChar).head? = some '$' then (t.map shoutChar).tail else t.map shoutChar) =
      (dropDollar t).map shoutChar := by
    simp only [hdollar, dropDollar]
    split
    · exact List.map_tail.symm
    · rfl
  rw [htail, List.map_map]
  congr 1
  refine List.map_congr_left fun c hc => ?_
  exact (hchar c (hsub ((dropDollar_sublist t).subset hc))).2.2.2

/-- Nothing is lost of a token that neither begins nor ends in `_`, nor begins with a `$`. -/
theorem left_eq_self_iff {l : List Char} :
    left l = l ↔ l.head? ≠ some '_' ∧ l.head? ≠ some '$' ∧ l.getLast? ≠ some '_' := by
  have htrim := trim_eq_self_iff (p := (· == '_')) (l := l)
  have hsub : ((l.dropWhile (· == '_')).rdropWhile (· == '_')).Sublist l :=
    (List.rdropWhile_prefix _ _).sublist.trans (List.dropWhile_sublist _)
  rw [left]
  constructor
  · intro h
    have hle := (dropDollar_sublist ((l.dropWhile (· == '_')).rdropWhile (· == '_'))).length_le
    rw [h] at hle
    have heq := hsub.eq_of_length_le hle
    rw [heq] at h
    obtain ⟨hfirst, hlast⟩ := htrim.1 heq
    refine ⟨fun hhead => by simpa using hfirst _ hhead, fun hhead => ?_, fun hend => by simpa using hlast _ hend⟩
    rw [dropDollar, if_pos hhead] at h
    obtain ⟨rest, rfl⟩ := List.head?_eq_some_iff.1 hhead
    have := congrArg List.length h
    simp at this
  · rintro ⟨hfirst, hdollar, hlast⟩
    rw [htrim.2, dropDollar, if_neg hdollar]
    refine ⟨fun c hc => ?_, fun c hc => ?_⟩
    · rw [beq_eq_false_iff_ne]
      rintro rfl
      exact hfirst hc
    · rw [beq_eq_false_iff_ne]
      rintro rfl
      exact hlast hc

/-! ### Words that keep their name -/

theorem withoutBidi_of_clean (h : Clean w) : withoutBidi w = w := by
  rw [withoutBidi, List.filter_eq_self.2, String.ofList_toList]
  exact fun c hc => by simp [h c hc]

theorem clean_shown (w : String) : Clean (shown w) := by
  rw [shown]
  split
  · decide
  · exact clean_shout_iff.2 (clean_withoutBidi w)

/-- A token is found under its name exactly when nothing is lost of it. -/
theorem normalizeStatus_shown_token (h : isToken w = true) :
    normalizeStatus (shown w) = normalizeStatus w ↔
      stripDollar w ≠ "" ∧ left (stripDollar w).toList = (stripDollar w).toList := by
  have hclean : Clean w := clean_of_ascii (toNat_lt_of_isToken h)
  rw [shown, withoutBidi_of_clean hclean, isBlank_shout, isBlank_of_isToken h, Bool.false_or,
    normalizeStatus_token h]
  by_cases hdollar : w = "$"
  · subst hdollar
    exact iff_of_false (by decide) (fun hne => hne.1 (by decide))
  · have hne : stripDollar w ≠ "" := by
      intro hnil
      rw [← String.toList_eq_nil_iff, toList_stripDollar] at hnil
      split at hnil
      · rename_i hhead
        obtain ⟨rest, hrest⟩ := List.head?_eq_some_iff.1 hhead
        rw [hrest, List.tail_cons] at hnil
        exact hdollar (String.toList_inj.1 (by rw [hrest, hnil]; rfl))
      · rw [String.toList_eq_nil_iff.1 hnil] at h
        cases h
    rw [if_neg (by simpa using hdollar), normalizeStatus_shout h, String.ofList_inj]
    refine ⟨fun heq => ⟨hne, ?_⟩, fun heq => by rw [heq.2]⟩
    -- what is left is part of the token, so that as many characters are the same ones
    have hsub : (left (stripDollar w).toList).Sublist (stripDollar w).toList :=
      (dropDollar_sublist _).trans
        ((List.rdropWhile_prefix _ _).sublist.trans (List.dropWhile_sublist _))
    have hlen := congrArg List.length heq
    rw [List.length_map, List.length_map] at hlen
    exact hsub.eq_of_length hlen

/-- **The words that keep their name** when they are shown. -/
theorem normalizeStatus_shown_iff (w : String) :
    normalizeStatus (shown w) = normalizeStatus w ↔ KeepsName w := by
  by_cases hclean : Clean w
  · simp only [KeepsName, hclean, true_and]
    by_cases htoken : isToken w = true
    · have hne : w ≠ "" := by
        rintro rfl
        cases htoken
      simp only [normalizeStatus_shown_token htoken, left_eq_self_iff, htoken, true_imp_iff, hne, ne_eq,
        not_false_eq_true, true_and]
    · simp only [htoken, false_imp_iff, and_true, Bool.false_eq_true]
      by_cases hne : w = ""
      · subst hne
        exact iff_of_false (by decide) (by simp)
      · refine iff_of_true ?_ hne
        rw [shown, withoutBidi_of_clean hclean, shout, if_neg htoken]
        split
        · rename_i hblank
          simp only [isBlank, Bool.or_eq_true, beq_iff_eq, hne, false_or] at hblank
          rw [hblank]
        · rfl
  · refine iff_of_false (fun h => hclean ?_) fun h => hclean h.1
    rw [← clean_normalizeStatus_iff, ← h, clean_normalizeStatus_iff]
    exact clean_shown w

/-- **The colour of a row** is that of its status word, for every kind, exactly when the word keeps its name. -/
theorem roleIn_render_iff (f : Formats) (names : IndexMap String String) (now : ℤ) (path : String) (raw : Json)
    (w : String) (h : Path.get raw path = [.str w]) :
    (∀ kind : Kind, roleIn kind (render f names now path .status raw).text = roleIn kind w) ↔ KeepsName w := by
  rw [render_status h, ← normalizeStatus_shown_iff]
  constructor
  · -- a kind with a role of its own for the word as it is sent tells the two names apart
    intro hall
    by_contra hne
    let role : Role := if roleOf (normalizeStatus (shown w)) = .ok then .off else .ok
    have hrole := hall { id := "", statusRoles := [(normalizeStatus w, role)] }
    simp only [roleIn, Kind.statusRole, List.lookup_cons, List.lookup_nil, beq_self_eq_true,
      beq_eq_false_iff_ne.2 hne, Option.getD_none, Option.getD_some] at hrole
    simp only [role] at hrole
    split at hrole
    · rename_i hok
      rw [hok] at hrole
      cases hrole
    · rename_i hok
      exact hok hrole
  · intro heq kind
    rw [roleIn, roleIn, heq]

theorem roleIn_render_powered :
    roleIn { id := "vmm.ahv.config.Vm" }
        (render noFormats .empty 0 "powerState" .status (.obj [("powerState", .str "POWERED_OFF")])).text =
      roleIn { id := "vmm.ahv.config.Vm" } "POWERED_OFF" :=
  (roleIn_render_iff noFormats .empty 0 "powerState" _ "POWERED_OFF" rfl).2 (by decide) _

/-- A word that begins with `_` is trimmed when it is looked up as it is shown, and only then. -/
theorem not_roleIn_render : ¬ ∀ (f : Formats) (names : IndexMap String String) (now : ℤ) (path : String)
    (raw : Json) (w : String), Path.get raw path = [.str w] →
      ∀ kind : Kind, roleIn kind (render f names now path .status raw).text = roleIn kind w := by
  intro h
  have := h noFormats .empty 0 "powerState" (.obj [("powerState", .str "_ON")]) "_ON" rfl
    { id := "vmm.ahv.config.Vm" }
  revert this
  decide

end Nutsh.Cell
