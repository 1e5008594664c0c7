/-
What was around a failed task.

The alerts raised within ten minutes of its start are asked for with a `$filter`, and the rows of the answer
are tested again and listed.  The window is compared in whole seconds; its ends are printed to the second, and
never before 1970; the list is sorted by the creation times as they are written.

* `window`, `inside`, `odata` — the window of a task, the test of an alert, and the filter;
* `listed`, `sections` — the alerts listed, and the sections of the pane;
* `Faithful` — the filter admits every alert of the window, and they are listed by the instants of their creation;
* `faithful_iff` — when that is so.
-/
import Nutsh.Cell
import Nutsh.Detail
import Nutsh.Export.Stamp
import Nutsh.Journal
import Nutsh.Lib.OData
import Nutsh.Lib.Rfc3339
import Mathlib.Order.WithBot

set_option relaxedAutoImplicit false
set_option autoImplicit false

namespace Nutsh.Evidence

/-- The text under a key of a row. -/
def textOf (e : Entity) (key : String) : Option String := (e.raw.get key).bind Json.asStr

/-- Either side of a task's start, in seconds. -/
def WINDOW : ℤ := 600

/-- An instant as it is printed for the server, in whole seconds; one before 1970 is printed as its beginning. -/
def rfc3339 (t : ℤ) : String :=
  let secs := t.toNat
  let days := secs / 86400
  let rem := secs % 86400
  let z : ℤ := days + 719468
  let era := z / 146097
  let doe := z % 146097
  let yoe := (doe - doe / 1460 + doe / 36524 - doe / 146096) / 365
  let doy := doe - (365 * yoe + yoe / 4 - yoe / 100)
  let mp := (5 * doy + 2) / 153
  let d := doy - (153 * mp + 2) / 5 + 1
  let mo := if mp < 10 then mp + 3 else mp - 9
  let y := yoe + era * 400 + if mo ≤ 2 then 1 else 0
  String.ofList (Digits.ofInt 4 y ++ '-' :: (Digits.ofInt 2 mo ++ '-' :: (Digits.ofInt 2 d ++
    'T' :: (Digits.ofNat 2 (rem / 3600) ++ ':' :: (Digits.ofNat 2 (rem % 3600 / 60) ++ ':' ::
      (Digits.ofNat 2 (rem % 60) ++ ['Z']))))))

/-- The filter that asks for the alerts of a window. -/
def odata (window : ℤ × ℤ) : String :=
  s!"creationTime ge {rfc3339 window.1} and creationTime le {rfc3339 window.2}"

/-- Hours and minutes. -/
def clock (t : ℤ) : String :=
  let secs := t.toNat % 86400
  String.ofList (Digits.ofNat 2 (secs / 3600) ++ ':' :: Digits.ofNat 2 (secs % 3600 / 60))

def span (window : ℤ × ℤ) : String := s!"{clock window.1}–{clock window.2} UTC"

/-- The words of an outcome. -/
def outcomeLabel : JournalOutcome → String
  | .started => "started"
  | .succeeded => "succeeded"
  | .failed m => s!"failed: {m}"
  | .denied m => m
  | .cancelled => "cancelled"
  | .unknown m => s!"unknown: {m}"

def field (label text : String) (dim : Bool) : String × Rendered := (label, { text, dim })

/-- The creation time of an alert as it is written; none is before any. -/
def writtenAt (alert : Entity) : WithBot String :=
  match textOf alert "creationTime" with
  | none => ⊥
  | some s => (s : WithBot String)

/-! ### What a reader of times makes of it

`instant` is the reader of dates that the program uses: the nanoseconds since 1970 a text stands for. -/

section

variable (instant : String → Option ℤ)

/-- The second an instant is in. -/
def parseRfc3339 (s : String) : Option ℤ := (instant s).map (· / 10 ^ 9)

/-- The window of a task: about its start, or its creation where it never started. -/
def window (task : Entity) : Option (ℤ × ℤ) :=
  (["startedTime", "createdTime"].findSome? fun k => (textOf task k).bind (parseRfc3339 instant)).map fun t =>
    (t - WINDOW, t + WINDOW)

/-- Whether an alert was raised inside a window. -/
def inside (window : ℤ × ℤ) (alert : Entity) : Bool :=
  ((textOf alert "creationTime").bind (parseRfc3339 instant)).any fun t => window.1 ≤ t && t ≤ window.2

/-- The alerts of a window, as they are listed. -/
def listed (window : ℤ × ℤ) (alerts : List Entity) : List Entity :=
  (alerts.filter (inside instant window)).insertionSort fun a b => writtenAt a ≤ writtenAt b

/-- The line of an alert; `now` is in nanoseconds. -/
def alertField (now : ℤ) (a : Entity) : String × Rendered :=
  let title := (textOf a "title").getD a.name
  let age := (((textOf a "creationTime").bind (parseRfc3339 instant)).map fun t =>
    Cell.age (t * 10 ^ 9) now).getD "-"
  field ((textOf a "severity").getD "-") s!"{title} · {age}" false

/-- The sections under a failed task; the alerts are none until they have been asked for. -/
def sections (task : Entity) (alerts : Option (List Entity)) (journal : Option Entry) (now : ℤ) :
    List Detail.Section :=
  let around : Detail.Section :=
    match window instant task, alerts with
    | none, _ => { title := "Alerts", fields := [field "Window" "the task has no start time" true] }
    | some w, none => { title := s!"Alerts {span w}", fields := [field "Alerts" "asking…" true] }
    | some w, some alerts =>
        let rows := listed instant w alerts
        { title := s!"Alerts {span w}"
          fields := if rows.isEmpty then [field "Alerts" "none in the window" true]
            else rows.map (alertField instant now) }
  let fields :=
    match journal with
    | some e =>
        [field "Action" s!"{e.action} on {e.name}" false, field "Outcome" (outcomeLabel e.outcome) false,
          field "When" (Cell.age e.at now) true]
    | none => [field "Started" "not started from here" true]
  [around, { title := "Journal", fields }]

/-- When an alert was created. -/
def created (alert : Entity) : Option ℤ := (textOf alert "creationTime").bind instant

/-- Whether a filter admits an alert: `literal` is how the server reads a time in a filter. -/
def admits (literal : String → Option ℤ) (filter : String) (alert : Entity) : Bool :=
  ((OData.tokens filter).bind
    (OData.holds (fun p => (textOf alert p).bind instant) literal)).getD false

/-- The filter admits the alerts of the window, and they are listed by the instants of their creation. -/
structure Faithful (literal : String → Option ℤ) (task : Entity) (alerts : List Entity) : Prop where
  admitted : ∀ w, window instant task = some w →
    ∀ a ∈ alerts, inside instant w a = true → admits instant literal (odata w) a = true
  ordered : ∀ w, window instant task = some w →
    (listed instant w alerts).Pairwise fun a b => ∀ s t, created instant a = some s → created instant b = some t → s ≤ t

/-- No alert of the window is of before 1970, or of a fraction of a second after its last one; and the creation
times of no two of them are in one order as texts and in the other as instants. -/
structure Regular (task : Entity) (alerts : List Entity) : Prop where
  whole : ∀ w, window instant task = some w → ∀ a ∈ alerts, inside instant w a = true →
    ∀ t, created instant a = some t → 0 ≤ t ∧ t ≤ w.2 * 10 ^ 9
  alike : ∀ w, window instant task = some w → ∀ a ∈ alerts, ∀ b ∈ alerts,
    inside instant w a = true → inside instant w b = true → writtenAt a < writtenAt b →
      ∀ s t, created instant a = some s → created instant b = some t → s ≤ t

end

/-! ### What is printed -/

theorem rfc3339_eq (t : ℤ) : rfc3339 t = String.ofList (Rfc3339.write (Calendar.ofSeconds t.toNat)) := by
  have hcivil (days : ℕ) : Calendar.ofDays days = Export.civil days := (Export.civil_eq_ofDays days).symm
  rw [rfc3339, Calendar.ofSeconds_eq, hcivil, Rfc3339.write, Export.civil]
  dsimp only
  split_ifs <;> simp

theorem isWord_of_isDigit {c : Char} (h : c.isDigit = true) : OData.isWord c = true := by
  obtain ⟨hle, hge⟩ : 48 ≤ c.toNat ∧ c.toNat ≤ 57 := Char.isDigit_iff_toNat.1 h
  have hall : ∀ n < 10, OData.isWord (Char.ofNat (48 + n)) = true := by decide
  have hword := hall (c.toNat - 48) (by omega)
  rwa [Nat.add_sub_cancel' hle, Char.ofNat_toNat] at hword

theorem isWord_ofInt {width : ℕ} {n : ℤ} {c : Char} (h : c ∈ Digits.ofInt width n) : OData.isWord c = true := by
  rw [Digits.ofInt] at h
  split_ifs at h
  · rcases List.mem_cons.1 h with rfl | h
    · decide
    · exact isWord_of_isDigit (Rfc3339.isDigit_of_mem_ofNat h)
  · exact isWord_of_isDigit (Rfc3339.isDigit_of_mem_ofNat h)

/-- A time is one word of a filter. -/
theorem isWord_write {t : Calendar.Moment} : ∀ c ∈ Rfc3339.write t, OData.isWord c = true := by
  intro c hc
  simp only [Rfc3339.write, List.mem_append, List.mem_cons, List.not_mem_nil, or_false] at hc
  rcases hc with h | rfl | h | rfl | h | rfl | h | rfl | h | rfl | h | rfl
  · exact isWord_ofInt h
  · decide
  · exact isWord_ofInt h
  · decide
  · exact isWord_ofInt h
  · decide
  · exact isWord_of_isDigit (Rfc3339.isDigit_of_mem_ofNat h)
  · decide
  · exact isWord_of_isDigit (Rfc3339.isDigit_of_mem_ofNat h)
  · decide
  · exact isWord_of_isDigit (Rfc3339.isDigit_of_mem_ofNat h)
  · decide

theorem write_ne_nil (t : Calendar.Moment) : Rfc3339.write t ≠ [] := by simp [Rfc3339.write]

/-- A filter between two times, each of them a word, is read as its words. -/
theorem tokens_between {first last : String}
    (hfirst : first.toList ≠ [] ∧ ∀ c ∈ first.toList, OData.isWord c = true)
    (hlast : last.toList ≠ [] ∧ ∀ c ∈ last.toList, OData.isWord c = true) :
    OData.tokens s!"creationTime ge {first} and creationTime le {last}" =
      some [.word "creationTime", .word "ge", .word first, .word "and", .word "creationTime", .word "le",
        .word last] := by
  have hplain : ∀ v ∈ ["creationTime", "ge", "and", "le"], v.toList ≠ [] ∧ ∀ c ∈ v.toList, OData.isWord c = true := by
    have hall : ["creationTime", "ge", "and", "le"].all
        (fun v => !v.toList.isEmpty && v.toList.all OData.isWord) = true := by decide
    intro v hv
    have hword := List.all_eq_true.1 hall v hv
    simpa [List.all_eq_true] using hword
  have hwords : ∀ v ∈ ["creationTime".toList, "ge".toList, first.toList, "and".toList, "creationTime".toList,
      "le".toList, last.toList], v ≠ [] ∧ ∀ c ∈ v, OData.isWord c = true := by
    simp only [List.forall_mem_cons] at hplain ⊢
    obtain ⟨hproperty, hge, hand, hle, -⟩ := hplain
    exact ⟨hproperty, hge, hfirst, hand, hproperty, hle, hlast, fun v hv => absurd hv List.not_mem_nil⟩
  have htext : (s!"creationTime ge {first} and creationTime le {last}").toList =
      "creationTime".toList ++ ["ge".toList, first.toList, "and".toList, "creationTime".toList, "le".toList,
        last.toList].flatMap (' ' :: ·) := by
    have hge : "creationTime ge ".toList = "creationTime".toList ++ ' ' :: ("ge".toList ++ [' ']) := rfl
    have hle : " and creationTime le ".toList =
        ' ' :: ("and".toList ++ ' ' :: ("creationTime".toList ++ ' ' :: ("le".toList ++ [' ']))) := rfl
    change ("creationTime ge " ++ first ++ " and creationTime le " ++ last).toList = _
    rw [String.toList_append, String.toList_append, String.toList_append, hge, hle]
    simp only [List.flatMap_cons, List.flatMap_nil, List.append_assoc, List.cons_append, List.nil_append,
      List.append_nil]
  rw [OData.tokens, htext, OData.run_words hwords]
  simp only [List.map_cons, List.map_nil, String.ofList_toList]

/-- What the filter of a window is read as. -/
theorem tokens_window (w : ℤ × ℤ) :
    OData.tokens (odata w) =
      some [.word "creationTime", .word "ge", .word (rfc3339 w.1), .word "and", .word "creationTime", .word "le",
        .word (rfc3339 w.2)] := by
  have hword (t : ℤ) : (rfc3339 t).toList ≠ [] ∧ ∀ c ∈ (rfc3339 t).toList, OData.isWord c = true := by
    rw [rfc3339_eq, String.toList_ofList]
    exact ⟨write_ne_nil _, isWord_write⟩
  exact tokens_between (hword w.1) (hword w.2)

/-! ### What is admitted and listed -/

section

variable {instant literal : String → Option ℤ}

/-- The filter of a window admits the alerts between its ends, as they are printed. -/
theorem admits_odata
    (hliteral : ∀ secs : ℕ, literal (String.ofList (Rfc3339.write (Calendar.ofSeconds secs))) =
      some ((secs : ℤ) * 10 ^ 9)) (w : ℤ × ℤ) {a : Entity} {t : ℤ} (ht : created instant a = some t) :
    admits instant literal (odata w) a = true ↔ (w.1.toNat : ℤ) * 10 ^ 9 ≤ t ∧ t ≤ (w.2.toNat : ℤ) * 10 ^ 9 := by
  have hproperty : (textOf a "creationTime").bind instant = some t := ht
  have hprinted (t : ℤ) : literal (rfc3339 t) = some ((t.toNat : ℤ) * 10 ^ 9) := by
    rw [rfc3339_eq]
    exact hliteral _
  rw [admits, tokens_window, Option.bind_some]
  simp only [OData.holds, hproperty, hprinted, Option.bind_eq_bind, Option.bind_some]
  simp [OData.compared]

/-- An alert inside a window was created in its seconds. -/
theorem inside_iff {w : ℤ × ℤ} {a : Entity} :
    inside instant w a = true ↔ ∃ t, created instant a = some t ∧ w.1 ≤ t / 10 ^ 9 ∧ t / 10 ^ 9 ≤ w.2 := by
  rw [inside, created]
  cases htext : textOf a "creationTime" with
  | none => simp
  | some s =>
      cases hinstant : instant s with
      | none => simp [parseRfc3339, hinstant]
      | some t => simp [parseRfc3339, hinstant]

/-- Rows that are sorted by a key are in another order too if and only if that is the order of the keys. -/
theorem pairwise_iff_of_sorted {α κ : Type*} [LinearOrder κ] {f : α → κ} {r : α → α → Prop} {l : List α}
    (hsorted : l.Pairwise fun a b => f a ≤ f b)
    (hsame : ∀ a ∈ l, ∀ b ∈ l, f a = f b → r a b) :
    l.Pairwise r ↔ ∀ a ∈ l, ∀ b ∈ l, f a < f b → r a b := by
  constructor
  · intro h a ha b hb hlt
    obtain ⟨i, hi, rfl⟩ := List.getElem_of_mem ha
    obtain ⟨j, hj, rfl⟩ := List.getElem_of_mem hb
    rcases Nat.lt_trichotomy i j with hij | rfl | hij
    · exact List.pairwise_iff_getElem.1 h i j hi hj hij
    · exact absurd hlt (lt_irrefl _)
    · exact absurd (List.pairwise_iff_getElem.1 hsorted j i hj hi hij) (not_le_of_gt hlt)
  · intro h
    refine hsorted.imp_of_mem fun {a b} ha hb hle => ?_
    rcases lt_or_eq_of_le hle with hlt | heq
    · exact h a ha b hb hlt
    · exact hsame a ha b hb heq

theorem created_of_writtenAt {a b : Entity} (h : writtenAt a = writtenAt b) :
    created instant a = created instant b := by
  rw [writtenAt, writtenAt] at h
  rw [created, created]
  cases ha : textOf a "creationTime" with
  | none =>
      cases hb : textOf b "creationTime" with
      | none => rfl
      | some t => simp [ha, hb] at h
  | some s =>
      cases hb : textOf b "creationTime" with
      | none => simp [ha, hb] at h
      | some t => simp only [ha, hb, WithBot.coe_inj] at h; rw [h]

/-- The alerts are listed by the instants of their creation if and only if their texts come in that order. -/
theorem ordered_iff (w : ℤ × ℤ) (alerts : List Entity) :
    ((listed instant w alerts).Pairwise fun a b =>
        ∀ s t, created instant a = some s → created instant b = some t → s ≤ t) ↔
      ∀ a ∈ alerts, ∀ b ∈ alerts, inside instant w a = true → inside instant w b = true →
        writtenAt a < writtenAt b → ∀ s t, created instant a = some s → created instant b = some t → s ≤ t := by
  have hmem (a : Entity) : a ∈ listed instant w alerts ↔ a ∈ alerts ∧ inside instant w a = true := by
    rw [listed, List.mem_insertionSort, List.mem_filter]
  rw [pairwise_iff_of_sorted (f := writtenAt)]
  · constructor
    · intro h a ha b hb hina hinb
      exact h a ((hmem a).2 ⟨ha, hina⟩) b ((hmem b).2 ⟨hb, hinb⟩)
    · intro h a ha b hb
      exact h a ((hmem a).1 ha).1 b ((hmem b).1 hb).1 ((hmem a).1 ha).2 ((hmem b).1 hb).2
  · exact List.pairwise_insertionSort (fun a b : Entity => writtenAt a ≤ writtenAt b) _
  · intro a _ b _ heq s t hs ht
    rw [created_of_writtenAt heq, ht] at hs
    exact (Option.some.inj hs).ge

/-- **The filter and the list are faithful** to the window exactly when its alerts are of whole seconds where it ends,
not of before 1970, and written in the order they were created in.  The server reads a time in a filter as it is
written. -/
theorem faithful_iff
    (hliteral : ∀ secs : ℕ, literal (String.ofList (Rfc3339.write (Calendar.ofSeconds secs))) =
      some ((secs : ℤ) * 10 ^ 9)) (task : Entity) (alerts : List Entity) :
    Faithful instant literal task alerts ↔ Regular instant task alerts := by
  constructor
  · intro h
    refine ⟨fun w hw a ha hin t ht => ?_, fun w hw => (ordered_iff w alerts).1 (h.ordered w hw)⟩
    obtain ⟨hafter, hbefore⟩ := (admits_odata hliteral w ht).1 (h.admitted w hw a ha hin)
    obtain ⟨t', ht', hfirst, hlast⟩ := inside_iff.1 hin
    rw [ht, Option.some.injEq] at ht'
    subst ht'
    norm_num at hafter hbefore hfirst hlast ⊢
    omega
  · intro h
    refine ⟨fun w hw a ha hin => ?_, fun w hw => (ordered_iff w alerts).2 (h.alike w hw)⟩
    obtain ⟨t, ht, hfirst, hlast⟩ := inside_iff.1 hin
    obtain ⟨hepoch, hwhole⟩ := h.whole w hw a ha hin t ht
    rw [admits_odata hliteral w ht]
    norm_num at hepoch hwhole hfirst hlast ⊢
    omega

end

/-- A failed task that started at a time. -/
def failedTask (started : String) : Entity :=
  Entity.new { id := "prism.config.Task" }
    (.obj [("extId", .str "t1"), ("status", .str "FAILED"), ("startedTime", .str started)]) none

/-- An alert that was raised at a time. -/
def alertAt (time : String) : Entity :=
  Entity.new { id := "monitoring.serviceability.Alert" }
    (.obj [("extId", .str time), ("title", .str "Disk space"), ("creationTime", .str time)]) none

/-- An alert of the window, asked for and listed. -/
theorem faithful_iff_disk :
    Faithful Rfc3339.read Rfc3339.read (failedTask "2026-09-05T09:50:01Z") [alertAt "2026-09-05T09:50:46Z"] := by
  refine (faithful_iff Rfc3339.read_written _ _).2 ⟨fun w hw a ha _ t ht => ?_, fun w _ a ha b hb _ _ hlt => ?_⟩
  · rw [List.mem_singleton.1 ha] at ht
    have hwindow : window Rfc3339.read (failedTask "2026-09-05T09:50:01Z") = some (1788601201, 1788602401) := by
      decide +kernel
    have hcreated : created Rfc3339.read (alertAt "2026-09-05T09:50:46Z") = some 1788601846000000000 := by
      decide +kernel
    rw [hwindow, Option.some.injEq] at hw
    rw [hcreated, Option.some.injEq] at ht
    subst hw ht
    decide
  · rw [List.mem_singleton.1 ha, List.mem_singleton.1 hb] at hlt
    exact absurd hlt (lt_irrefl _)

/-- An alert of the half second after the window's last whole one is not asked for, nor is one of before 1970; and
one of half past the second is listed before one of the second. -/
theorem not_faithful :
    ¬ (∀ task alerts, Faithful Rfc3339.read Rfc3339.read task alerts) ∧
      (let task := failedTask "2026-09-05T09:50:01Z"
       let alert := alertAt "2026-09-05T10:00:01.5Z"
       ∃ w, window Rfc3339.read task = some w ∧ inside Rfc3339.read w alert = true ∧
         admits Rfc3339.read Rfc3339.read (odata w) alert = false) ∧
      (let task := failedTask "1970-01-01T00:05:00Z"
       let alert := alertAt "1969-12-31T23:59:00Z"
       ∃ w, window Rfc3339.read task = some w ∧ inside Rfc3339.read w alert = true ∧
         admits Rfc3339.read Rfc3339.read (odata w) alert = false) ∧
      (let task := failedTask "2026-09-05T09:50:01Z"
       let alerts := [alertAt "2026-09-05T09:50:02Z", alertAt "2026-09-05T09:50:02.5Z"]
       ∃ w, window Rfc3339.read task = some w ∧
         (listed Rfc3339.read w alerts).map (created Rfc3339.read) =
           [some 1788601802500000000, some 1788601802000000000]) := by
  have hlast : window Rfc3339.read (failedTask "2026-09-05T09:50:01Z") = some (1788601201, 1788602401) := by
    decide +kernel
  have hinside : inside Rfc3339.read (1788601201, 1788602401) (alertAt "2026-09-05T10:00:01.5Z") = true := by
    decide +kernel
  have hadmits : admits Rfc3339.read Rfc3339.read (odata (1788601201, 1788602401))
      (alertAt "2026-09-05T10:00:01.5Z") = false := by
    decide +kernel
  refine ⟨fun h => ?_, ⟨_, hlast, hinside, hadmits⟩, ⟨(-300, 900), by decide +kernel⟩, ⟨_, hlast, by decide +kernel⟩⟩
  have hadmitted := (h (failedTask "2026-09-05T09:50:01Z") [alertAt "2026-09-05T10:00:01.5Z"]).admitted _ hlast _
    List.mem_cons_self hinside
  rw [hadmits] at hadmitted
  cases hadmitted

end Nutsh.Evidence
