/-
The filters a client sends, read by a mock server.

What is searched for is sent within one string of a filter, and a counter of the summary within a conjunction of
comparisons to words that are fixed, and to the cluster a session is pinned to.  The server reads each of these,
whatever stands in the string, and it matches the rows that are meant: those whose name begins with the term, or
whose identifier the term is, and those that the counter counts, so that the number it answers is theirs.

Main definitions:

* `Conjunction` — a conjunction of comparisons, with its text;
* `Counted`, `OfCluster` — the rows a counter is of.

Main results:

* `compare_text_iff` — a property is compared with a text that is no instant;
* `parse_conjunction` — a conjunction of comparisons is read, and matches the rows they all match;
* `searched_iff` — the rows a search is answered with;
* `total_counted` — the number a counter is answered with.
-/
import Nutsh.Lib.Split
import Nutsh.Mock.Lists
import Nutsh.Search.Filter
import Nutsh.Stats

set_option relaxedAutoImplicit false
set_option autoImplicit false

namespace Nutsh.Mock

open OData (Token escape)
open Counters

variable {F : Doubles}

/-! ### Texts that are compared -/

/-- The bytes of a text. -/
def utf8 (s : String) : List UInt8 := s.toList.flatMap String.utf8EncodeChar

theorem isInstant_iff {s : String} : isInstant s = true ↔ 20 ≤ (utf8 s).length ∧ (utf8 s)[4]? = some 45 ∧
    (utf8 s)[7]? = some 45 ∧ (utf8 s)[10]? = some 84 ∧ ['Z'] <:+ s.toList := by
  simp [isInstant, utf8, Text.endsWith, and_assoc]

/-- The fraction of an instant is padded to nine digits. -/
theorem instantKey_fraction {s : String} (h : isInstant s = true) {a b : List Char} (ha : '.' ∉ a)
    (hs : s.toList = a ++ '.' :: b ++ ['Z']) :
    (instantKey s).toList = a ++ '.' :: (b ++ List.replicate (9 - b.length) '0' ++ ['Z']) := by
  have hsplit : Text.splitOnce "." (String.ofList (a ++ '.' :: b)) = some (String.ofList a, String.ofList b) := by
    simp [Text.splitOnce, Text.splitOnceList_char ha]
  rw [instantKey, if_pos h, hs, List.dropLast_concat]
  simp only [hsplit]
  simp [List.rightpad]

/-- An instant without a fraction has the fraction zero. -/
theorem instantKey_whole {s : String} (h : isInstant s = true) {a : List Char} (ha : '.' ∉ a)
    (hs : s.toList = a ++ ['Z']) : (instantKey s).toList = a ++ '.' :: (List.replicate 9 '0' ++ ['Z']) := by
  have hsplit : Text.splitOnce "." (String.ofList a) = none := by
    simp [Text.splitOnce, Text.splitOnceList_char_of_not_mem ha]
  rw [instantKey, if_pos h, hs, List.dropLast_concat]
  simp only [hsplit]
  simp [List.rightpad]

/-- The key of an instant is its text with more before its end. -/
theorem exists_instantKey {s : String} (h : isInstant s = true) : ∃ body mid, s.toList = body ++ ['Z'] ∧
    (instantKey s).toList = body ++ mid ++ ['Z'] := by
  obtain ⟨-, -, -, -, body, hbody⟩ := isInstant_iff.1 h
  by_cases hdot : '.' ∈ body
  · obtain ⟨a, b, rfl, ha⟩ := List.eq_append_cons_of_mem hdot
    refine ⟨_, List.replicate (9 - b.length) '0', hbody.symm, ?_⟩
    rw [instantKey_fraction h ha hbody.symm]
    simp
  · refine ⟨_, '.' :: List.replicate 9 '0', hbody.symm, ?_⟩
    rw [instantKey_whole h hdot hbody.symm]
    simp

/-- The key of an instant is an instant. -/
theorem isInstant_instantKey {s : String} (h : isInstant s = true) : isInstant (instantKey s) = true := by
  obtain ⟨body, mid, hs, hkey⟩ := exists_instantKey h
  obtain ⟨hlen, h4, h7, h10, -⟩ := isInstant_iff.1 h
  have hbytes : utf8 s = body.flatMap String.utf8EncodeChar ++ [90] := by
    rw [utf8, hs, List.flatMap_append]
    rfl
  rw [hbytes, List.length_append, List.length_singleton] at hlen
  have hkeep (t : List UInt8) (i : ℕ) (hi : i ≤ 10) :
      (body.flatMap String.utf8EncodeChar ++ t)[i]? = (body.flatMap String.utf8EncodeChar)[i]? :=
    List.getElem?_append_left (by omega)
  rw [hbytes, hkeep _ _ (by decide)] at h4 h7 h10
  have hmid : utf8 (instantKey s) =
      body.flatMap String.utf8EncodeChar ++ (mid.flatMap String.utf8EncodeChar ++ [90]) := by
    rw [utf8, hkey, List.flatMap_append, List.flatMap_append, List.append_assoc]
    rfl
  rw [isInstant_iff, hmid, hkeep _ _ (by decide), hkeep _ _ (by decide), hkeep _ _ (by decide), hkey]
  refine ⟨?_, h4, h7, h10, List.suffix_append _ _⟩
  rw [List.length_append, List.length_append, List.length_singleton]
  omega

/-- A short text is no instant. -/
theorem not_isInstant_of_length {s : String} (h : (utf8 s).length < 20) : isInstant s = false := by
  by_contra hi
  rw [Bool.not_eq_false] at hi
  have := (isInstant_iff.1 hi).1
  omega

/-- A text that is no instant is the key of itself alone. -/
theorem instantKey_eq_iff {s l : String} (hl : isInstant l = false) : instantKey s = l ↔ s = l := by
  by_cases hs : isInstant s = true
  · constructor
    · rintro rfl
      rw [isInstant_instantKey hs] at hl
      cases hl
    · rintro rfl
      rw [hs] at hl
      cases hl
  · rw [instantKey, if_neg hs]

theorem compareOfLessAndEq_eq_iff {a b : String} : compareOfLessAndEq a b = .eq ↔ a = b := by
  rw [compareOfLessAndEq]
  split
  · rename_i h
    simp only [reduceCtorEq, false_iff]
    exact h.ne
  · split
    · rename_i h
      simp [h]
    · rename_i h
      simp [h]

theorem lookup_eq_some_iff {row : Json} {path : List String} {v : Json} :
    lookup row path = some v ↔ path.foldlM Json.get row = some v ∧ v ≠ .null := by
  rw [lookup, Option.filter_eq_some_iff]
  refine and_congr_right fun _ => ?_
  cases v <;> simp

/-- Whether a property is a text. -/
def hasText (row : Json) (path : List String) (s : String) : Bool := (lookup row path).bind Json.asStr == some s

/-- Whether a property is a truth value. -/
def hasBool (row : Json) (path : List String) (b : Bool) : Bool := (lookup row path).bind Json.asBool == some b

/-- A property is `eq` a text that is no instant exactly when it is that text. -/
theorem compare_text {l : String} (hl : isInstant l = false) (row : Json) (path : List String) :
    compare (lookup row path) .eq (.text (F := F) l) = hasText row path l := by
  have hkey : instantKey l = l := (instantKey_eq_iff hl).2 rfl
  rw [Bool.eq_iff_iff, hasText]
  cases hv : lookup row path with
  | none => simp [compare]
  | some v =>
      cases v with
      | str s =>
          simp [compare, orderingOf, Json.asStr, hkey, Op.holds, compareOfLessAndEq_eq_iff, instantKey_eq_iff hl]
      | null | bool _ | num _ | arr _ | obj _ => simp [compare, orderingOf, Json.asStr]

/-- A property is `eq` a truth value exactly when it is that one. -/
theorem compare_bool (b : Bool) (row : Json) (path : List String) :
    compare (lookup row path) .eq (.bool (F := F) b) = hasBool row path b := by
  rw [Bool.eq_iff_iff, hasBool]
  cases hv : lookup row path with
  | none => simp [compare]
  | some v => cases v <;> simp [compare, orderingOf, Json.asBool]

/-! ### Conjunctions of comparisons -/

/-- Texts with a blank between them are read one after the other. -/
theorem Lexes.append_blank {cs ds : List Char} {ts us : List Token} (h : Lexes cs ts) (hds : Lexes ds us) :
    Lexes (cs ++ ' ' :: ds) (ts ++ us) := by
  induction h with
  | done => exact .blank rfl hds
  | blank hc _ ih => exact .blank hc ih
  | mark hc _ ih => exact .mark hc ih
  | @string kind s cs ts hkind hcs _ ih =>
      have hnext : (cs ++ ' ' :: ds).head? ≠ some '\'' := by
        cases cs with
        | nil => simp
        | cons c cs => exact hcs
      rw [List.append_assoc, List.cons_append, List.append_assoc, List.cons_append]
      exact .string hkind hnext ih
  | @word w cs ts hne hw hcs _ ih =>
      rw [List.append_assoc]
      refine .word hne hw ?_ ih
      cases cs with
      | nil => simp [endsWord, isBlank]
      | cons c cs => simpa using hcs

/-- The words of a filter: nothing in them ends a word. -/
def IsWord (w : String) : Prop := w ≠ "" ∧ ∀ c ∈ w.toList, endsWord c = false

/-- A text none of whose characters ends a word. -/
theorem plain {w : String} (h : (w.toList.all fun c => !endsWord c) = true) : ∀ c ∈ w.toList, endsWord c = false := by
  intro c hc
  simpa using List.all_eq_true.1 h c hc

theorem IsWord.of_all {w : String} (h : (!w.toList.isEmpty && w.toList.all fun c => !endsWord c) = true) :
    IsWord w := by
  rw [Bool.and_eq_true] at h
  refine ⟨?_, plain h.2⟩
  rintro rfl
  exact absurd h.1 (by simp)

theorem IsWord.lexes {w : String} (h : IsWord w) : Lexes w.toList [.word w] := by
  have hne : w.toList ≠ [] := by simpa using h.1
  have hlex : Lexes (w.toList ++ []) [.word (String.ofList w.toList)] := .word hne h.2 (by simp) .done
  rwa [List.append_nil, String.ofList_toList] at hlex

/-- A string, with or without a type before it. -/
theorem lexes_string {kind : List Char} (hkind : ∀ c ∈ kind, endsWord c = false) (s : String) :
    Lexes (kind ++ '\'' :: (escape s.toList ++ ['\''])) [.literal s] := by
  have hlex : Lexes (kind ++ '\'' :: (escape s.toList ++ ['\''])) [.literal (String.ofList s.toList)] :=
    .string hkind (by simp) .done
  rwa [String.ofList_toList] at hlex

/-- The text of a conjunction of comparisons, and the filter it is. -/
def Reads (F : Doubles) (cs : List Char) (f : Filter F) : Prop :=
  ∃ ts, Lexes cs ts ∧ (Parser.grammar F).Derives (Atom F) 1 ts f

/-- The text of one comparison, and the filter it is. -/
def ReadsAtom (F : Doubles) (cs : List Char) (f : Filter F) : Prop := ∃ ts, Lexes cs ts ∧ Atom F ts f

theorem ReadsAtom.one {cs : List Char} {f : Filter F} (h : ReadsAtom F cs f) : Reads F cs f := by
  obtain ⟨ts, hts, h⟩ := h
  exact ⟨ts, hts, .one (.atom h)⟩

theorem Reads.and {cs ds : List Char} {f g : Filter F} (h : Reads F cs f) (hg : ReadsAtom F ds g) :
    Reads F (cs ++ ' ' :: ("and".toList ++ ' ' :: ds)) (.and f g) := by
  obtain ⟨ts, hts, h⟩ := h
  obtain ⟨us, hus, hg⟩ := hg
  have hand : IsWord "and" := .of_all rfl
  exact ⟨_, hts.append_blank (hand.lexes.append_blank hus), .more h rfl (.atom hg)⟩

/-- A conjunction of comparisons is read. -/
theorem Reads.parse {input : String} {f : Filter F} (h : Reads F input.toList f) : Filter.parse F input = .ok f := by
  obtain ⟨ts, hts, h⟩ := h
  exact parse_of_expression hts (.one h)

/-- A comparison of a property with a string. -/
theorem readsAtom_string (p : String) (path : List String) (kind s : String) (hp : IsWord p)
    (hstart : wordIs "startswith" (.word p) = false) (hpath : IsPath p path)
    (hkind : ∀ c ∈ kind.toList, endsWord c = false) :
    ReadsAtom F (p.toList ++ ' ' :: ("eq".toList ++ ' ' :: (kind.toList ++ '\'' :: (escape s.toList ++ ['\'']))))
      (.compare path .eq (.text s)) := by
  have heq : IsWord "eq" := .of_all rfl
  exact ⟨_, hp.lexes.append_blank (heq.lexes.append_blank (lexes_string hkind s)), .string hstart hpath rfl⟩

/-- A comparison of a property with a word. -/
theorem readsAtom_value (p o v : String) (path : List String) {op : Op} {l : Literal F} (hp : IsWord p) (ho : IsWord o)
    (hv : IsWord v) (hstart : wordIs "startswith" (.word p) = false) (hpath : IsPath p path) (hop : opOf o = .ok op)
    (hl : literalOf F v = .ok l) :
    ReadsAtom F (p.toList ++ ' ' :: (o.toList ++ ' ' :: v.toList)) (.compare path op l) :=
  ⟨_, hp.lexes.append_blank (ho.lexes.append_blank hv.lexes), .value hstart hpath hop hl⟩

/-! ### What is searched for -/

theorem isPath_single {w : String} (h : isIdent w = true) : IsPath w [w] := ⟨by simp, by simpa using h, by simp⟩

theorem isPath_name : IsPath "name" ["name"] := isPath_single rfl

/-- An identifier ends in a digit, not as an instant does. -/
theorem not_isInstant_of_isUuid {s : String} (h : Search.isUuid s = true) : isInstant s = false := by
  by_contra hi
  rw [Bool.not_eq_false] at hi
  obtain ⟨-, -, -, -, body, hbody⟩ := isInstant_iff.1 hi
  have hz : 'Z' ∈ s.toList := by
    rw [← hbody]
    simp
  obtain ⟨piece, hpiece, hmem⟩ := (Split.exists_mem_splitOn_iff (l := s.toList) (a := '-')).2 ⟨hz, by decide⟩
  simp only [Search.isUuid, Bool.and_eq_true, List.all_eq_true, beq_iff_eq] at h
  obtain ⟨hlen, hall⟩ := h
  obtain ⟨i, hi, rfl⟩ := List.getElem_of_mem hpiece
  have hi' : i < ((Text.splitChar '-' s).zip [8, 4, 4, 4, 12]).length := by
    rw [List.length_zip, hlen, min_self, ← hlen, Text.splitChar, List.length_map]
    exact hi
  have hdigits := (hall _ (List.getElem_mem hi')).2 'Z'
  rw [List.getElem_zip] at hdigits
  simp only [Text.splitChar, List.getElem_map, String.toList_ofList] at hdigits
  exact absurd (hdigits hmem) (by decide)

/-- Whether a row is one of those a term is sent for. -/
def wanted (kind : Kind) (term : String) (row : Json) : Bool :=
  if kind.filterFields.contains "name" then
    ((lookup row ["name"]).bind Json.asStr).any (Text.startsWith term)
  else hasText row ["extId"] term

/-- **A search is read, and matches the rows it is for**: those whose name begins with the term, whatever it is, or
the one whose identifier it is. -/
theorem searched_iff (F : Doubles) (lower : String → String) (kind : Kind) (term filter : String)
    (h : Search.odata kind (.new lower term) = some filter) :
    ∃ f, Filter.parse F filter = .ok f ∧ ∀ row, f.matches row = wanted kind term row := by
  rw [Search.odata] at h
  split at h
  · cases h
  split at h
  · rename_i hname
    cases h
    refine ⟨.startsWith ["name"] term, ReadsAtom.one ?_ |>.parse, fun row => by rw [wanted, if_pos hname]; rfl⟩
    have hstring : Lexes ([] ++ '\'' :: (escape term.toList ++ '\'' :: [')']))
        [.literal (String.ofList term.toList), .closing] :=
      .string (by simp) (by simp) (.mark rfl .done)
    rw [List.nil_append, String.ofList_toList] at hstring
    have hcomma : Lexes (',' :: '\'' :: (escape term.toList ++ '\'' :: [')'])) [.comma, .literal term, .closing] :=
      .mark rfl hstring
    have hname : Lexes ('(' :: ("name".toList ++ ',' :: '\'' :: (escape term.toList ++ '\'' :: [')'])))
        [.opening, .word "name", .comma, .literal term, .closing] :=
      .mark rfl (.word (by simp) (plain rfl) (by simp; decide) hcomma)
    have hall : Lexes ("startswith".toList ++ '(' :: ("name".toList ++ ',' :: '\'' ::
          (escape term.toList ++ '\'' :: [')'])))
        [.word "startswith", .opening, .word "name", .comma, .literal term, .closing] :=
      .word (by simp) (plain rfl) (by simp; decide) hname
    refine ⟨_, ?_, Atom.startsWith (w := "startswith") rfl isPath_name⟩
    simpa [Search.quote_toList, Query.new] using hall
  split at h
  · rename_i hname hid
    cases h
    refine ⟨.compare ["extId"] .eq (.text term), ReadsAtom.one ?_ |>.parse, fun row => ?_⟩
    · have := readsAtom_string (F := F) "extId" ["extId"] "" term (.of_all rfl) rfl
        (isPath_single rfl) (by simp)
      simpa [Search.quote_toList, Query.new] using this
    · rw [Bool.and_eq_true] at hid
      rw [wanted, if_neg hname]
      exact compare_text (not_isInstant_of_isUuid hid.2) row _
  · cases h

/-- A machine whose name has a quote in it. -/
theorem searched_brien : ∃ f, Filter.parse Doubles.wholes "startswith(name,'o''brien')" = .ok f ∧
    ∀ row, f.matches row = wanted { vmKind with filter := true, filterFields := ["name"] } "o'brien" row :=
  searched_iff Doubles.wholes id { vmKind with filter := true, filterFields := ["name"] } "o'brien"
    "startswith(name,'o''brien')" rfl

/-! ### What is counted -/

/-- The rows a counter is of. -/
def counted (row : Json) : Counter → Bool
  | .clusters => true
  | .hosts => true
  | .vms => true
  | .vmsOn => hasText row ["powerState"] "ON"
  | .alertsCritical => hasText row ["severity"] "CRITICAL" && hasBool row ["isResolved"] false
  | .alertsWarning => hasText row ["severity"] "WARNING" && hasBool row ["isResolved"] false
  | .tasksRunning => hasText row ["status"] "RUNNING"

/-- The rows of the cluster a session is pinned to, by the property a counter is scoped on. -/
def ofCluster (row : Json) : Option String → Option String → Bool
  | some c, some field => hasText row (Text.splitChar '/' field) c
  | _, _ => true

/-- A text without quotes stands in a filter as it is. -/
theorem escape_plain {s : List Char} (h : ∀ c ∈ s, c ≠ '\'') : escape s = s := by
  induction s with
  | nil => rfl
  | cons c s ih =>
      obtain ⟨hc, hs⟩ := List.forall_mem_cons.1 h
      rw [escape_cons_ne hc, ih hs]

theorem unquoted {s : String} (h : (s.toList.all fun c => c != '\'') = true) : ∀ c ∈ s.toList, c ≠ '\'' := by
  intro c hc
  simpa using List.all_eq_true.1 h c hc

/-- The filter of an alert counter. -/
theorem reads_severity (F : Doubles) {s : String} (hs : ∀ c ∈ s.toList, c ≠ '\'') :
    Reads F ("severity".toList ++ ' ' :: ("eq".toList ++ ' ' :: ("Monitoring.Common.Severity".toList ++ '\'' ::
      (s.toList ++ ['\'']))) ++ ' ' :: ("and".toList ++ ' ' ::
        ("isResolved".toList ++ ' ' :: ("eq".toList ++ ' ' :: "false".toList))))
      (.and (.compare ["severity"] .eq (.text s)) (.compare ["isResolved"] .eq (.bool false))) := by
  have hseverity := readsAtom_string (F := F) "severity" ["severity"] "Monitoring.Common.Severity" s
    (.of_all rfl) rfl (isPath_single rfl) (plain rfl)
  have hopen := readsAtom_value (F := F) "isResolved" "eq" "false" ["isResolved"] (.of_all rfl)
    (.of_all rfl) (.of_all rfl) rfl (isPath_single rfl) rfl rfl
  rw [escape_plain hs] at hseverity
  exact hseverity.one.and hopen

/-- The filter of a counter is read, and matches the rows it is of. -/
theorem reads_counter (F : Doubles) {d : CounterDef} (hd : d ∈ COUNTERS) {text : String}
    (htext : d.filter = some text) :
    ∃ f, Reads F text.toList f ∧ ∀ row, f.matches row = counted row d.counter := by
  have hseverity {s : String} (hs : isInstant s = false) (row : Json) :
      Filter.matches row (.and (.compare ["severity"] .eq (.text (F := F) s))
        (.compare ["isResolved"] .eq (.bool false))) = (hasText row ["severity"] s && hasBool row ["isResolved"] false) := by
    rw [Filter.matches, Filter.matches, Filter.matches, compare_text hs, compare_bool]
  simp only [COUNTERS, List.mem_cons, List.not_mem_nil, or_false] at hd
  obtain rfl | rfl | rfl | rfl | rfl | rfl | rfl := hd
  · cases htext
  · cases htext
  · cases htext
  · cases htext
    have hreads := readsAtom_string (F := F) "powerState" ["powerState"] "Vmm.Ahv.Config.PowerState" "ON"
      (.of_all rfl) rfl (isPath_single rfl) (plain rfl)
    rw [escape_plain (unquoted rfl)] at hreads
    exact ⟨.compare ["powerState"] .eq (.text "ON"), by simpa using hreads.one,
      fun row => compare_text (not_isInstant_of_length (by decide)) row _⟩
  · cases htext
    have hreads := reads_severity F (s := "CRITICAL") (unquoted rfl)
    exact ⟨_, by simpa using hreads, hseverity (not_isInstant_of_length (s := "CRITICAL") (by decide))⟩
  · cases htext
    have hreads := reads_severity F (s := "WARNING") (unquoted rfl)
    exact ⟨_, by simpa using hreads, hseverity (not_isInstant_of_length (s := "WARNING") (by decide))⟩
  · cases htext
    have hreads := readsAtom_string (F := F) "status" ["status"] "Prism.Config.TaskStatus" "RUNNING"
      (.of_all rfl) rfl (isPath_single rfl) (plain rfl)
    rw [escape_plain (unquoted rfl)] at hreads
    exact ⟨.compare ["status"] .eq (.text "RUNNING"), by simpa using hreads.one,
      fun row => compare_text (not_isInstant_of_length (by decide)) row _⟩

/-- A counter without a filter is of every row. -/
theorem counted_of_none {d : CounterDef} (hd : d ∈ COUNTERS) (hnone : d.filter = none) (row : Json) :
    counted row d.counter = true := by
  simp only [COUNTERS, List.mem_cons, List.not_mem_nil, or_false] at hd
  obtain rfl | rfl | rfl | rfl | rfl | rfl | rfl := hd <;> first | rfl | cases hnone

/-- What scopes a counter to a cluster is read. -/
theorem readsAtom_scope (F : Doubles) {d : CounterDef} (hd : d ∈ COUNTERS) {field : String}
    (hfield : d.clusterOn = some field) (c : String) :
    ReadsAtom F (s!"{field} eq '{odataLiteral c}'").toList (.compare (Text.splitChar '/' field) .eq (.text c)) := by
  have hquote : (odataLiteral c).toList = escape c.toList := Search.quote_toList c
  have htext : s!"{field} eq '{odataLiteral c}'" = field ++ " eq '" ++ odataLiteral c ++ "'" := rfl
  rw [htext]
  have hscope : field = "cluster/extId" ∨ field = "clusterUUID" := by
    simp only [COUNTERS, List.mem_cons, List.not_mem_nil, or_false] at hd
    obtain rfl | rfl | rfl | rfl | rfl | rfl | rfl := hd <;> simp_all
  obtain rfl | rfl := hscope
  · have hpath : Text.splitChar '/' "cluster/extId" = ["cluster", "extId"] := by decide
    rw [hpath]
    have := readsAtom_string (F := F) "cluster/extId" ["cluster", "extId"] "" c (.of_all rfl) rfl
      ⟨by simp, List.all_eq_true.1 rfl, by simp⟩ (by simp)
    simpa [hquote] using this
  · have hpath : Text.splitChar '/' "clusterUUID" = ["clusterUUID"] := by decide
    rw [hpath]
    have := readsAtom_string (F := F) "clusterUUID" ["clusterUUID"] "" c (.of_all rfl) rfl
      (isPath_single rfl) (by simp)
    simpa [hquote] using this

/-- The filter of a counter, with what scopes it to the cluster a session is pinned to. -/
def filterFor (session : Counters.Session) (d : CounterDef) : Option String :=
  match session.cluster, d.clusterOn with
  | some c, some field =>
      let scope := s!"{field} eq '{odataLiteral c}'"
      some (match d.filter with | some f => s!"{f} and {scope}" | none => scope)
  | _, _ => d.filter

/-- A request for a counter asks for one row, with its filter where the kind takes one. -/
theorem ask_eq_some {session : Counters.Session} {served : Kind → Bool} {refused : List Counter} {d : CounterDef}
    {request : Counters.Request} (hask : d.ask session served refused = some request) :
    request.page = 0 ∧ request.filter = filterFor session d ∧ (request.filter.isSome = true → request.kind.filter = true) ∧
      (session.cluster.isSome = true → d.clusterOn.isSome = true) := by
  have hlimited {kind : Kind} {filter : Option String}
      (h : (if filter.isSome && !kind.filter then none else some { kind, filter : Counters.Request }) = some request) :
      request.page = 0 ∧ request.filter = filter ∧ (request.filter.isSome = true → request.kind.filter = true) := by
    split at h
    · cases h
    · rename_i hcond
      cases h
      refine ⟨rfl, rfl, fun hsome => ?_⟩
      simpa [hsome] using hcond
  rw [CounterDef.ask] at hask
  split at hask
  · cases hask
  split at hask
  · cases hask
  split at hask
  · cases hask
  rw [filterFor]
  cases hcluster : session.cluster with
  | none =>
      rw [hcluster] at hask
      obtain ⟨hpage, hfilter, hkind⟩ := hlimited hask
      exact ⟨hpage, hfilter, hkind, fun h => by cases h⟩
  | some c =>
      rw [hcluster] at hask
      cases hfield : d.clusterOn with
      | none =>
          rw [hfield] at hask
          cases hask
      | some field =>
          rw [hfield] at hask
          cases hf : d.filter with
          | none =>
              rw [hf] at hask
              obtain ⟨hpage, hfilter, hkind⟩ := hlimited hask
              exact ⟨hpage, hfilter, hkind, fun _ => rfl⟩
          | some f =>
              rw [hf] at hask
              obtain ⟨hpage, hfilter, hkind⟩ := hlimited hask
              exact ⟨hpage, hfilter, hkind, fun _ => rfl⟩

/-- A request with this filter, or with none, is for these rows. -/
def Selects (F : Doubles) (spec : Option String) (p : Json → Bool) : Prop :=
  ∃ f : Option (Filter F), (match spec with | none => .ok none | some text => (Filter.parse F text).map some) =
    Except.ok f ∧ ∀ row, f.all (·.matches row) = p row

theorem selects_none {p : Json → Bool} (hp : ∀ row, p row = true) : Selects F none p :=
  ⟨none, rfl, fun row => (hp row).symm⟩

theorem Reads.selects {text : String} {f : Filter F} {p : Json → Bool} (h : Reads F text.toList f)
    (hp : ∀ row, f.matches row = p row) : Selects F (some text) p :=
  ⟨some f, by simp only [h.parse]; rfl, fun row => by rw [Option.all_some, hp]⟩

/-- **The filter of a counter is read, scoped or not**, and is for the rows that are counted. -/
theorem selects_filterFor (F : Doubles) {session : Counters.Session} {d : CounterDef} (hd : d ∈ COUNTERS)
    (hcluster : ∀ c ∈ session.cluster, isInstant c = false) :
    Selects F (filterFor session d) fun row => counted row d.counter && ofCluster row session.cluster d.clusterOn := by
  have hplain (hscope : ∀ row, ofCluster row session.cluster d.clusterOn = true) :
      Selects F d.filter fun row => counted row d.counter && ofCluster row session.cluster d.clusterOn := by
    cases hf : d.filter with
    | none => exact selects_none fun row => by rw [hscope, counted_of_none hd hf]; rfl
    | some text =>
        obtain ⟨f, hreads, hrow⟩ := reads_counter F hd hf
        exact hreads.selects fun row => by rw [hscope, hrow, Bool.and_true]
  rw [filterFor]
  cases hc : session.cluster with
  | none =>
      rw [hc] at hplain
      exact hplain fun row => rfl
  | some c =>
      cases hfield : d.clusterOn with
      | none =>
          rw [hc, hfield] at hplain
          exact hplain fun row => rfl
      | some field =>
          have hscope := readsAtom_scope F hd hfield c
          have hrow (row : Json) := compare_text (F := F) (hcluster c hc) row (Text.splitChar '/' field)
          cases hf : d.filter with
          | none =>
              exact hscope.one.selects fun row => by rw [counted_of_none hd hf]; exact hrow row
          | some text =>
              obtain ⟨f, hreads, hcounted⟩ := reads_counter F hd hf
              have hboth := hreads.and hscope
              refine Reads.selects (f := .and f (.compare (Text.splitChar '/' field) .eq (.text c))) ?_ fun row => ?_
              · change Reads F (text ++ " and " ++ (s!"{field} eq '{odataLiteral c}'")).toList _
                simpa using hboth
              · rw [Filter.matches, hcounted, Filter.matches, hrow]
                rfl

/-- **The number a counter is answered with** is that of the rows it counts, in the cluster a session is pinned to. -/
theorem total_counted (F : Doubles) (m : Shared) (unread : Json → String) (refusal : Refused → Prism.PrismError)
    (orderby select : Bool) {session : Counters.Session} {served : Kind → Bool} {refused : List Counter} {d : CounterDef}
    {request : Counters.Request} {apiPath : String} {items : List Json} (hhonours : m.filters = true) (hd : d ∈ COUNTERS)
    (hcluster : ∀ c ∈ session.cluster, isInstant c = false)
    (hask : d.ask session served refused = some request) (hitems : m.lists.lookup apiPath = some items)
    (hcount : m.miscounts.lookup apiPath = none) (hlen : items.length < 2 ^ 64) :
    ∃ page, Client.listPage m F unread refusal request.kind orderby select apiPath
        { limit := request.limit, filter := request.filter } request.page = .ok page ∧
      page.total =
        some (items.countP fun row => counted row d.counter && ofCluster row session.cluster d.clusterOn) := by
  obtain ⟨hpage, hfilter, hkind, -⟩ := ask_eq_some hask
  obtain ⟨f, hread, hrow⟩ := selects_filterFor F hd hcluster
  have hraw : Params.raw (Client.query request.kind orderby select
      { limit := request.limit, filter := request.filter } 0) "$filter" = filterFor session d := by
    rw [raw_query]
    cases hf : request.filter with
    | none => simp [← hfilter, hf]
    | some text => simp [← hfilter, hf, hkind (by rw [hf]; rfl)]
  have hof : m.filterOf F (Client.query request.kind orderby select
      { limit := request.limit, filter := request.filter } 0) = .ok f := by
    rw [Shared.filterOf, if_pos hhonours, hraw]
    exact hread
  rw [hpage]
  simpa only [hrow] using total_listPage hitems hcount hof hlen

/-- Of two alerts that are critical the one that is open. -/
theorem total_counted_open :
    let alert (resolved : Bool) : Json :=
      .obj [("severity", .str "CRITICAL"), ("isResolved", .bool resolved), ("clusterUUID", .str "c-1")]
    let m : Shared := { filters := true, lists := [("/alerts", [alert false, alert true])] }
    let kind : Kind := { vmKind with filter := true }
    let filter := "severity eq Monitoring.Common.Severity'CRITICAL' and isResolved eq false and clusterUUID eq 'c-1'"
    let opts : ListOptions := { limit := 1, filter := some filter }
    ∃ page, Client.listPage m Doubles.wholes (fun _ => "") (fun _ => .decode "") kind false false "/alerts" opts 0 =
      .ok page ∧ page.total = some 1 := by
  intro alert m kind filter opts
  have hask : CounterDef.ask { kind := fun _ => some kind, cluster := some "c-1" } (fun _ => true) []
      { counter := .alertsCritical, kind := "monitoring.serviceability.Alert",
        filter := some "severity eq Monitoring.Common.Severity'CRITICAL' and isResolved eq false",
        clusterOn := some "clusterUUID" } = some { kind, filter := opts.filter } := rfl
  have hlookup : m.lists.lookup "/alerts" = some [alert false, alert true] := rfl
  exact total_counted Doubles.wholes m _ _ false false rfl (by simp [Counters.COUNTERS]) (by decide) hask hlookup rfl
    (by decide)

end Nutsh.Mock
