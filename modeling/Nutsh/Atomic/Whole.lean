/-
What is read of a file that is written whole.

Every file under a name that is read is synced, and is what it was at the beginning or the text of a write that was
moved there; the file a write has open is under its own name and under no other.  Every step keeps this, and the order
of the moves besides: what a write that has returned moved to its name is there, or what came after it.

Main definitions:

* `Inv` — where the writes stand, and what the files are that are read;
* `Called` — what a call can do.

Main results:

* `inv_step`, `inv_of_reaches` — the invariant;
* `file_whole` — a file is what it was, or the whole text of a write, to be read by nobody else;
* `durable` — a write that has returned is there, or one that came after it, after any crashes.
-/
import Nutsh.Atomic

set_option relaxedAutoImplicit false
set_option autoImplicit false

namespace Nutsh.Atomic

/-! ### The invariant -/

/-- The file a write has open. -/
def Phase.handle : Phase → Option ℕ
  | .writing i _ => some i
  | .moving i => some i
  | _ => none

/-- The calls before the rename. -/
def Phase.early : Phase → Bool
  | .start | .opening | .writing _ _ | .moving _ => true
  | _ => false

/-- What is in the file a write has open. -/
def Phase.Has (text : List UInt8) (f : Disk.File UInt8) : Phase → Prop
  | .writing _ rest => f.text ++ rest = text
  | .moving _ => f = { text, mode := 0o600, synced := true }
  | _ => True

/-- The file a write has open is under the name it writes under and under none that is read. -/
structure Open (d : Disk String UInt8) (w : Write) (i : ℕ) : Prop where
  names : d.names w.temp = some i
  apart : ∀ n, ¬ IsTemp n → ¬ d.Held n i
  file : ∃ f, d.files[i]? = some f ∧ f.mode = 0o600 ∧ w.phase.Has w.text f

/-- A write made a file. -/
def Write.Owns (w : Write) (i : ℕ) : Prop := w.phase.handle = some i ∨ ∃ order, w.placed = some (i, order)

/-- What a file that is read may be: what it was before, or the whole text of a write that was moved there. -/
def Fine (d₀ : Disk String UInt8) (writes : ℕ → Option Write) (n : String) (i : ℕ) (f : Disk.File UInt8) : Prop :=
  d₀.names n = some i ∧ d₀.files[i]? = some f ∨
    ∃ k w order, writes k = some w ∧ w.file = n ∧ w.placed = some (i, order) ∧
      f = { text := w.text, mode := 0o600, synced := true }

/-- A file was moved to its name not before so many others were moved. -/
def After (writes : ℕ → Option Write) (n : String) (order : ℕ) (v : Option ℕ) : Prop :=
  ∃ k w i order', writes k = some w ∧ w.file = n ∧ w.placed = some (i, order') ∧ order ≤ order' ∧ v = some i

/-- Where the writes stand, and what the files are that are read. -/
structure Inv (d₀ : Disk String UInt8) (s : World) : Prop where
  named : ∀ k w, s.writes k = some w → ¬ IsTemp w.file
  apart : ∀ j k v w, s.writes j = some v → s.writes k = some w → j ≠ k → v.temp ≠ w.temp
  opened : ∀ k w, s.writes k = some w → ∀ i, w.phase.handle = some i → Open s.disk w i
  alone : ∀ j k v w, s.writes j = some v → s.writes k = some w → j ≠ k → ∀ i, v.Owns i → ¬ w.Owns i
  made : ∀ k w, s.writes k = some w → ∀ i, w.Owns i → d₀.files.length ≤ i ∧ i < s.disk.files.length
  grown : d₀.files.length ≤ s.disk.files.length
  stays : ∀ n, ¬ IsTemp n → d₀.names n ≠ none → none ∉ s.disk.names n :: s.disk.past n
  fine : s.disk.Kept (¬ IsTemp ·) (Fine d₀ s.writes)
  unplaced : ∀ k w, s.writes k = some w → w.phase.early = true → w.placed = none
  order : ∀ k w, s.writes k = some w → ∀ i order, w.placed = some (i, order) → order < s.renames
  syncing : ∀ k w, s.writes k = some w → w.phase = .syncing →
    ∃ i order, w.placed = some (i, order) ∧ After s.writes w.file order (s.disk.names w.file)
  returned : ∀ k w, s.writes k = some w → w.phase = .returned true →
    ∃ i order, w.placed = some (i, order) ∧
      ∀ v ∈ s.disk.names w.file :: s.disk.past w.file, After s.writes w.file order v

variable {d₀ : Disk String UInt8} {s s' : World} {k : ℕ} {w w' : Write} {disk : Disk String UInt8}

theorem inv_start (h : d₀.Settled) (dir : Option ℕ) : Inv d₀ (start d₀ dir) where
  named k w hk := by cases hk
  apart j k v w hj := by cases hj
  opened k w hk := by cases hk
  alone j k v w hj := by cases hj
  made k w hk := by cases hk
  grown := Nat.le_refl _
  stays n _ hn := by
    change none ∉ d₀.names n :: d₀.past n
    rw [h.past, List.mem_singleton]
    exact hn.symm
  fine n _ i hi := by
    obtain ⟨f, hf, hs⟩ := h.synced n i (h.held hi)
    exact ⟨f, hf, hs, .inl ⟨h.held hi, hf⟩⟩
  unplaced k w hk := by cases hk
  order k w hk := by cases hk
  syncing k w hk := by cases hk
  returned k w hk := by cases hk

/-- What is placed stays placed when a write that placed nothing else goes on. -/
theorem Fine.put {n : String} {i : ℕ} {f : Disk.File UInt8} (h : Fine d₀ s.writes n i f)
    (hsame : ∀ w, s.writes k = some w → ∀ p, w.placed = some p →
      w'.file = w.file ∧ w'.text = w.text ∧ w'.placed = some p) :
    Fine d₀ (Function.update s.writes k (some w')) n i f := by
  obtain h | ⟨j, v, order, hv, hfile, hplaced, rfl⟩ := h
  · exact .inl h
  · by_cases hj : j = k
    · subst hj
      obtain ⟨hfile', htext', hplaced'⟩ := hsame v hv _ hplaced
      exact .inr ⟨j, w', order, Function.update_self .., hfile'.trans hfile, hplaced', by rw [htext']⟩
    · exact .inr ⟨j, v, order, by rwa [Function.update_of_ne hj], hfile, hplaced, rfl⟩

theorem After.put {n : String} {order : ℕ} {v : Option ℕ} (h : After s.writes n order v)
    (hsame : ∀ w, s.writes k = some w → ∀ p, w.placed = some p →
      w'.file = w.file ∧ w'.text = w.text ∧ w'.placed = some p) :
    After (Function.update s.writes k (some w')) n order v := by
  obtain ⟨j, u, i, order', hu, hfile, hplaced, hle, rfl⟩ := h
  by_cases hj : j = k
  · subst hj
    obtain ⟨hfile', -, hplaced'⟩ := hsame u hu _ hplaced
    exact ⟨j, w', i, order', Function.update_self .., hfile'.trans hfile, hplaced', hle, rfl⟩
  · exact ⟨j, u, i, order', by rwa [Function.update_of_ne hj], hfile, hplaced, hle, rfl⟩

theorem writes_put {j : ℕ} {v : Write} :
    (s.put k w' disk).writes j = some v ↔ j = k ∧ w' = v ∨ j ≠ k ∧ s.writes j = some v := by
  by_cases hj : j = k
  · subst hj
    simp [World.put]
  · simp [World.put, hj]

theorem Inv.named_put (h : Inv d₀ s) (hk : s.writes k = some w) (w' : Write) (hfile : w'.file = w.file)
    (disk : Disk String UInt8) (j : ℕ) (v : Write)
    (hv : (s.put k w' disk).writes j = some v) : ¬ IsTemp v.file := by
  rw [writes_put] at hv
  obtain ⟨rfl, rfl⟩ | ⟨-, hv⟩ := hv
  · rw [hfile]
    exact h.named j w hk
  · exact h.named j v hv

theorem Inv.apart_put (h : Inv d₀ s) (hk : s.writes k = some w) (w' : Write) (htemp : w'.temp = w.temp)
    (disk : Disk String UInt8) (j l : ℕ) (u v : Write)
    (hu : (s.put k w' disk).writes j = some u) (hv : (s.put k w' disk).writes l = some v) (hne : j ≠ l) :
    u.temp ≠ v.temp := by
  rw [writes_put] at hu hv
  obtain ⟨rfl, rfl⟩ | ⟨hj, hu⟩ := hu
  · obtain ⟨rfl, rfl⟩ | ⟨hl, hv⟩ := hv
    · exact absurd rfl hne
    · rw [htemp]
      exact h.apart j l w v hk hv hne
  · obtain ⟨rfl, rfl⟩ | ⟨hl, hv⟩ := hv
    · rw [htemp]
      exact h.apart j l u w hu hk hne
    · exact h.apart j l u v hu hv hne

/-- All but one name stand for what they stood for. -/
structure Calm (d d' : Disk String UInt8) (t : String) : Prop where
  names : ∀ n, n ≠ t → d'.names n = d.names n
  past : ∀ n, n ≠ t → ∀ v ∈ d'.past n, v ∈ d.past n

theorem Calm.refl (d : Disk String UInt8) (t : String) : Calm d d t := ⟨fun _ _ => rfl, fun _ _ _ hv => hv⟩

theorem Calm.set (d : Disk String UInt8) (t : String) (v : Option ℕ) : Calm d (d.set t v) t where
  names n hn := Disk.names_set_of_ne hn
  past n hn v hv := by simpa [Disk.set, Function.update_of_ne hn] using hv

theorem Calm.mem {d d' : Disk String UInt8} {t n : String} (h : Calm d d' t) (hn : n ≠ t) {v : Option ℕ}
    (hv : v ∈ d'.names n :: d'.past n) : v ∈ d.names n :: d.past n := by
  rw [h.names n hn] at hv
  rcases List.mem_cons.1 hv with rfl | hv
  · exact List.mem_cons_self
  · exact List.mem_cons_of_mem _ (h.past n hn v hv)

/-- **What a call keeps** that changes no name but the one its write writes under. -/
theorem Inv.calm (h : Inv d₀ s) (hk : s.writes k = some w) (phase : Phase) (hcalm : Calm s.disk disk w.temp)
    (hfiles : ∀ j v i, j ≠ k → s.writes j = some v → v.phase.handle = some i → disk.files[i]? = s.disk.files[i]?)
    (hfine : disk.Kept (¬ IsTemp ·) (Fine d₀ s.writes))
    (hlength : s.disk.files.length ≤ disk.files.length)
    (hopen : ∀ i, phase.handle = some i → Open disk { w with phase } i ∧
      (d₀.files.length ≤ i ∧ i < disk.files.length) ∧ ∀ j v, j ≠ k → s.writes j = some v → ¬ v.Owns i)
    (hearly : phase.early = true → w.phase.early = true) (hsyncing : phase ≠ .syncing)
    (hreturned : phase = .returned true → ∃ i order, w.placed = some (i, order) ∧
      ∀ v ∈ disk.names w.file :: disk.past w.file, After s.writes w.file order v) :
    Inv d₀ (s.put k { w with phase } disk) := by
  have hplaced (v : Write) (hv : s.writes k = some v) (p : ℕ × ℕ) (hp : v.placed = some p) :
      w.file = v.file ∧ w.text = v.text ∧ w.placed = some p := by
    rw [hk, Option.some.injEq] at hv
    subst hv
    exact ⟨rfl, rfl, hp⟩
  have hname {n : String} (hn : ¬ IsTemp n) : n ≠ w.temp := by
    rintro rfl
    exact hn (isTemp_temp w)
  constructor
  · exact h.named_put hk { w with phase } rfl disk
  · exact h.apart_put hk { w with phase } rfl disk
  · intro j v hv i hi
    rw [writes_put] at hv
    obtain ⟨rfl, rfl⟩ | ⟨hj, hv⟩ := hv
    · exact (hopen i hi).1
    · obtain ⟨hnames, hapart, hfile⟩ := h.opened j v hv i hi
      refine ⟨?_, fun n hn hheld => hapart n hn (hcalm.mem (hname hn) hheld), ?_⟩
      · exact (hcalm.names _ (h.apart j k v w hv hk hj)).trans hnames
      · exact (hfiles j v i hj hv hi).symm ▸ hfile
  · intro j l u v hu hv hne i hi
    rw [writes_put] at hu hv
    obtain ⟨rfl, rfl⟩ | ⟨hj, hu⟩ := hu
    · obtain ⟨rfl, rfl⟩ | ⟨hl, hv⟩ := hv
      · exact absurd rfl hne
      · obtain hi | hi := hi
        · exact (hopen i hi).2.2 l v hl hv
        · exact h.alone j l w v hk hv hne i (.inr hi)
    · obtain ⟨rfl, rfl⟩ | ⟨hl, hv⟩ := hv
      · rintro (hi' | hi')
        · exact (hopen i hi').2.2 j u hj hu hi
        · exact h.alone j l u w hu hk hne i hi (.inr hi')
      · exact h.alone j l u v hu hv hne i hi
  · intro j v hv i hi
    rw [writes_put] at hv
    obtain ⟨rfl, rfl⟩ | ⟨-, hv⟩ := hv
    · obtain hi | hi := hi
      · exact (hopen i hi).2.1
      · obtain ⟨hge, hlt⟩ := h.made j w hk i (.inr hi)
        exact ⟨hge, Nat.lt_of_lt_of_le hlt hlength⟩
    · obtain ⟨hge, hlt⟩ := h.made j v hv i hi
      exact ⟨hge, Nat.lt_of_lt_of_le hlt hlength⟩
  · exact Nat.le_trans h.grown hlength
  · exact fun n hn hne hmem => h.stays n hn hne (hcalm.mem (hname hn) hmem)
  · exact hfine.imp fun n i f hf => hf.put hplaced
  · intro j v hv hphase
    rw [writes_put] at hv
    obtain ⟨rfl, rfl⟩ | ⟨-, hv⟩ := hv
    · exact h.unplaced j w hk (hearly hphase)
    · exact h.unplaced j v hv hphase
  · intro j v hv i order hp
    rw [writes_put] at hv
    obtain ⟨rfl, rfl⟩ | ⟨-, hv⟩ := hv
    · exact h.order j w hk i order hp
    · exact h.order j v hv i order hp
  · intro j v hv hphase
    rw [writes_put] at hv
    obtain ⟨rfl, rfl⟩ | ⟨-, hv⟩ := hv
    · exact absurd hphase hsyncing
    · obtain ⟨i, order, hp, hafter⟩ := h.syncing j v hv hphase
      refine ⟨i, order, hp, ?_⟩
      have hsame : disk.names v.file = s.disk.names v.file := hcalm.names _ (hname (h.named j v hv))
      change After _ v.file order (disk.names v.file)
      rw [hsame]
      exact hafter.put hplaced
  · intro j v hv hphase
    rw [writes_put] at hv
    obtain ⟨rfl, rfl⟩ | ⟨-, hv⟩ := hv
    · obtain ⟨i, order, hp, hafter⟩ := hreturned hphase
      exact ⟨i, order, hp, fun e he => (hafter e he).put hplaced⟩
    · obtain ⟨i, order, hp, hafter⟩ := h.returned j v hv hphase
      exact ⟨i, order, hp, fun e he => (hafter e (hcalm.mem (hname (h.named j v hv)) he)).put hplaced⟩

/-! ### The calls -/

/-- A call that fails, or a program that ends, changes nothing of the directory. -/
theorem Inv.halt (h : Inv d₀ s) (hk : s.writes k = some w) (phase : Phase) (hhandle : phase.handle = none)
    (hearly : phase.early = true → w.phase.early = true) (hsyncing : phase ≠ .syncing)
    (hreturned : phase ≠ .returned true) : Inv d₀ (s.put k { w with phase } s.disk) := by
  refine h.calm hk phase (.refl _ _) (fun _ _ _ _ _ _ => rfl) h.fine (Nat.le_refl _) ?_ hearly hsyncing fun hr => absurd hr hreturned
  intro i hi
  rw [hhandle] at hi
  cases hi

/-- A file that no name is for is under the name a write writes under. -/
theorem Inv.create (h : Inv d₀ s) (hk : s.writes k = some w) (hphase : w.phase = .opening) {made : Disk String UInt8 × ℕ}
    (hmade : s.disk.create w.temp 0o600 = some made) :
    Inv d₀ (s.put k { w with phase := .writing made.2 w.text } made.1) := by
  rw [Disk.create] at hmade
  split at hmade
  · cases hmade
  rw [Option.some.injEq] at hmade
  subst hmade
  have hnew {i : ℕ} {f : Disk.File UInt8} (hf : s.disk.files[i]? = some f) : i < s.disk.files.length :=
    (List.getElem?_eq_some_iff.1 hf).1
  have hcalm := Calm.set s.disk w.temp (some s.disk.files.length)
  have hlength : (s.disk.files ++ [({ text := [], mode := 0o600, synced := false } : Disk.File UInt8)]).length =
      s.disk.files.length + 1 := List.length_append
  refine h.calm hk _ ⟨hcalm.names, hcalm.past⟩ ?_ ?_ (hlength ▸ Nat.le_succ _) ?_ (fun _ => by rw [hphase]; rfl) (fun hp => by cases hp)
    (fun hp => by cases hp)
  · intro j v i hj hv hi
    obtain ⟨f, hf, -⟩ := (h.opened j v hv i hi).file
    exact List.getElem?_append_left (hnew hf)
  · exact Disk.Kept.append (h.fine.set fun hn => absurd (isTemp_temp w) hn) _
  · intro i hi
    obtain rfl : s.disk.files.length = i := by simpa [Phase.handle] using hi
    refine ⟨?_, ⟨h.grown, hlength ▸ Nat.lt_succ_self _⟩, ?_⟩
    · refine ⟨Disk.names_set_self, ?_, _, List.getElem?_concat_length .., rfl, List.nil_append _⟩
      intro n hn hheld
      have hne : n ≠ w.temp := by
        rintro rfl
        exact hn (isTemp_temp w)
      obtain ⟨f, hf, -⟩ := h.fine n hn _ ((Disk.held_set_of_ne hne).1 hheld)
      exact absurd (hnew hf) (Nat.lt_irrefl _)
    · intro j v hj hv hi
      exact absurd (h.made j v hv _ hi).2 (Nat.lt_irrefl _)

/-- What is written goes to the file the write has open. -/
theorem Inv.modify (h : Inv d₀ s) (hk : s.writes k = some w) {i : ℕ} (hi : w.phase.handle = some i) (phase : Phase)
    (hhandle : phase.handle = some i) {g : Disk.File UInt8 → Disk.File UInt8}
    (hg : ∀ f, f.mode = 0o600 → w.phase.Has w.text f → (g f).mode = 0o600 ∧ phase.Has w.text (g f)) :
    Inv d₀ (s.put k { w with phase } (s.disk.modify i g)) := by
  obtain ⟨hnames, hapart, f, hf, hmode, hhas⟩ := h.opened k w hk i hi
  have hearly : w.phase.early = true := by
    cases hp : w.phase <;> rw [hp] at hi <;> first | rfl | cases hi
  have hlength : (s.disk.modify i g).files.length = s.disk.files.length := List.length_modify ..
  refine h.calm hk phase ⟨fun _ _ => rfl, fun _ _ _ hv => hv⟩ ?_ ?_ (Nat.le_of_eq hlength.symm) ?_ (fun _ => hearly)
    ?_ ?_
  · intro j v i' hj hv hi'
    refine Disk.getElem?_modify_of_ne ?_
    rintro rfl
    exact h.alone j k v w hv hk hj i (.inl hi') (.inl hi)
  · exact h.fine.modify hapart
  · intro i' hi'
    obtain rfl : i = i' := Option.some.inj (hhandle.symm.trans hi')
    obtain ⟨hmode', hhas'⟩ := hg f hmode hhas
    refine ⟨⟨hnames, hapart, g f, Disk.getElem?_modify_self hf, hmode', hhas'⟩, ?_, ?_⟩
    · rw [hlength]
      exact h.made k w hk i (.inl hi)
    · intro j v hj hv hi''
      exact h.alone j k v w hv hk hj i hi'' (.inl hi)
  · rintro rfl
    cases hhandle
  · rintro rfl
    cases hhandle

/-- The name a write wrote under is free again. -/
theorem Inv.remove (h : Inv d₀ s) (hk : s.writes k = some w)
    (hmade : s.disk.remove w.temp = some disk) : Inv d₀ (s.put k { w with phase := .returned false } disk) := by
  rw [Disk.remove, Option.map_eq_some_iff] at hmade
  obtain ⟨-, -, rfl⟩ := hmade
  refine h.calm hk _ (.set _ _ _) (fun _ _ _ _ _ _ => rfl) (h.fine.set fun hn => absurd (isTemp_temp w) hn)
    (Nat.le_refl _) ?_ (fun hp => by cases hp) (fun hp => by cases hp) (fun hp => by cases hp)
  intro i hi
  cases hi

/-- The names are on the disk: what a write moved to its name is there, or what came after it. -/
theorem Inv.syncNames (h : Inv d₀ s) (hk : s.writes k = some w) (hphase : w.phase = .syncing) :
    Inv d₀ (s.put k { w with phase := .returned true } s.disk.syncNames) := by
  refine h.calm hk _ ⟨fun _ _ => rfl, fun _ _ _ hv => by cases hv⟩ (fun _ _ _ _ _ _ => rfl) h.fine.syncNames
    (Nat.le_refl _) ?_ (fun hp => by cases hp) (fun hp => by cases hp) ?_
  · intro i hi
    cases hi
  · intro _
    obtain ⟨i, order, hplaced, hafter⟩ := h.syncing k w hk hphase
    refine ⟨i, order, hplaced, fun v hv => ?_⟩
    obtain rfl : v = s.disk.names w.file := by simpa [Disk.syncNames] using hv
    exact hafter

/-- **A file is moved to its name**: it is whole there, and came after every other that was moved before. -/
theorem Inv.move (h : Inv d₀ s) (hk : s.writes k = some w) {i : ℕ} (hphase : w.phase = .moving i)
    (hmade : s.disk.move w.temp w.file = some disk) :
    Inv d₀ { s.put k { w with phase := .syncing, placed := some (i, s.renames) } disk with
      renames := s.renames + 1 } := by
  have hhandle : w.phase.handle = some i := by
    rw [hphase]
    rfl
  obtain ⟨hnames, hapart, f, hf, -, hhas⟩ := h.opened k w hk i hhandle
  rw [hphase] at hhas
  have hunplaced := h.unplaced k w hk (by rw [hphase]; rfl)
  have hplaced (v : Write) (hv : s.writes k = some v) (p : ℕ × ℕ) (hp : v.placed = some p) :
      w.file = v.file ∧ w.text = v.text ∧ some (i, s.renames) = some p := by
    rw [hk, Option.some.injEq] at hv
    subst hv
    rw [hunplaced] at hp
    cases hp
  rw [Disk.move, hnames, Option.map_some, Option.some.injEq] at hmade
  subst hmade
  have hfile : w.file ≠ w.temp := by
    intro heq
    exact h.named k w hk (heq ▸ isTemp_temp w)
  have hname {n : String} (hn : ¬ IsTemp n) : n ≠ w.temp := by
    rintro rfl
    exact hn (isTemp_temp w)
  have hother {n : String} (hn : n ≠ w.temp) (hne : n ≠ w.file) :
      ((s.disk.set w.temp none).set w.file (some i)).names n = s.disk.names n := by
    rw [Disk.names_set_of_ne hne, Disk.names_set_of_ne hn]
  -- what a name that is read stands for now, or might
  have hmem {n : String} (hn : n ≠ w.temp) {v : Option ℕ}
      (hv : v ∈ ((s.disk.set w.temp none).set w.file (some i)).names n ::
        ((s.disk.set w.temp none).set w.file (some i)).past n) :
      n = w.file ∧ v = some i ∨ v ∈ s.disk.names n :: s.disk.past n := by
    by_cases hne : n = w.file
    · subst hne
      simpa [Disk.set, Function.update_of_ne hfile] using hv
    · refine .inr ?_
      simpa [Disk.set, Function.update_of_ne hn, Function.update_of_ne hne] using hv
  have howns {i' : ℕ} (hi' : Write.Owns { w with phase := .syncing, placed := some (i, s.renames) } i') :
      w.Owns i' := by
    obtain hi' | ⟨order, hi'⟩ := hi'
    · cases hi'
    · obtain ⟨rfl, -⟩ : i = i' ∧ s.renames = order := by simpa using hi'
      exact .inl hhandle
  have hnow (order : ℕ) (hle : order ≤ s.renames) :
      After (Function.update s.writes k (some { w with phase := .syncing, placed := some (i, s.renames) })) w.file order
        (some i) :=
    ⟨k, _, i, s.renames, Function.update_self .., rfl, rfl, hle, rfl⟩
  constructor
  · exact h.named_put hk { w with phase := .syncing, placed := some (i, s.renames) } rfl s.disk
  · exact h.apart_put hk { w with phase := .syncing, placed := some (i, s.renames) } rfl s.disk
  · intro j v hv i' hi'
    change (s.put k _ s.disk).writes j = some v at hv
    rw [writes_put] at hv
    obtain ⟨rfl, rfl⟩ | ⟨hj, hv⟩ := hv
    · cases hi'
    · obtain ⟨hnames', hapart', hfile'⟩ := h.opened j v hv i' hi'
      refine ⟨?_, ?_, hfile'⟩
      · have hne : v.temp ≠ w.file := by
          intro heq
          exact h.named k w hk (heq ▸ isTemp_temp v)
        exact (hother (h.apart j k v w hv hk hj) hne).trans hnames'
      · intro n hn hheld
        obtain ⟨-, heq⟩ | hheld := hmem (hname hn) hheld
        · rw [Option.some.injEq] at heq
          subst heq
          exact h.alone j k v w hv hk hj _ (.inl hi') (.inl hhandle)
        · exact hapart' n hn hheld
  · intro j l u v hu hv hne i' hi'
    change (s.put k _ s.disk).writes j = some u at hu
    change (s.put k _ s.disk).writes l = some v at hv
    rw [writes_put] at hu hv
    obtain ⟨rfl, rfl⟩ | ⟨hj, hu⟩ := hu
    · obtain ⟨rfl, rfl⟩ | ⟨hl, hv⟩ := hv
      · exact absurd rfl hne
      · exact h.alone j l w v hk hv hne i' (howns hi')
    · obtain ⟨rfl, rfl⟩ | ⟨hl, hv⟩ := hv
      · exact fun hi => h.alone j l u w hu hk hne i' hi' (howns hi)
      · exact h.alone j l u v hu hv hne i' hi'
  · intro j v hv i' hi'
    change (s.put k _ s.disk).writes j = some v at hv
    rw [writes_put] at hv
    obtain ⟨rfl, rfl⟩ | ⟨-, hv⟩ := hv
    · exact h.made j w hk i' (howns hi')
    · exact h.made j v hv i' hi'
  · exact h.grown
  · intro n hn hne hnone
    obtain ⟨-, heq⟩ | hnone := hmem (hname hn) hnone
    · cases heq
    · exact h.stays n hn hne hnone
  · refine (((h.fine.imp fun n j g hg => hg.put hplaced).set fun hn => absurd (isTemp_temp w) hn).set ?_)
    intro _ i' hi'
    rw [Option.some.injEq] at hi'
    subst hi'
    refine ⟨f, hf, by rw [hhas], .inr ⟨k, _, s.renames, Function.update_self .., rfl, rfl, hhas⟩⟩
  · intro j v hv hearly
    change (s.put k _ s.disk).writes j = some v at hv
    rw [writes_put] at hv
    obtain ⟨rfl, rfl⟩ | ⟨-, hv⟩ := hv
    · cases hearly
    · exact h.unplaced j v hv hearly
  · intro j v hv i' order hp
    change (s.put k _ s.disk).writes j = some v at hv
    rw [writes_put] at hv
    obtain ⟨rfl, rfl⟩ | ⟨-, hv⟩ := hv
    · obtain ⟨-, rfl⟩ : i = i' ∧ s.renames = order := by simpa using hp
      exact Nat.lt_succ_self _
    · exact Nat.lt_succ_of_lt (h.order j v hv i' order hp)
  · intro j v hv hv'
    change (s.put k _ s.disk).writes j = some v at hv
    rw [writes_put] at hv
    obtain ⟨rfl, rfl⟩ | ⟨-, hv⟩ := hv
    · refine ⟨i, s.renames, rfl, ?_⟩
      change After _ w.file _ (((s.disk.set w.temp none).set w.file (some i)).names w.file)
      rw [Disk.names_set_self]
      exact hnow _ (Nat.le_refl _)
    · obtain ⟨iv, order, hp, hafter⟩ := h.syncing j v hv hv'
      refine ⟨iv, order, hp, ?_⟩
      change After _ v.file _ (((s.disk.set w.temp none).set w.file (some i)).names v.file)
      by_cases hne : v.file = w.file
      · rw [hne, Disk.names_set_self]
        exact hnow order (Nat.le_of_lt (h.order j v hv iv order hp))
      · rw [hother (hname (h.named j v hv)) hne]
        exact hafter.put hplaced
  · intro j v hv hv'
    change (s.put k _ s.disk).writes j = some v at hv
    rw [writes_put] at hv
    obtain ⟨rfl, rfl⟩ | ⟨-, hv⟩ := hv
    · cases hv'
    · obtain ⟨iv, order, hp, hafter⟩ := h.returned j v hv hv'
      refine ⟨iv, order, hp, fun e he => ?_⟩
      obtain ⟨hne, rfl⟩ | he := hmem (hname (h.named j v hv)) he
      · rw [hne]
        exact hnow order (Nat.le_of_lt (h.order j v hv iv order hp))
      · exact (hafter e he).put hplaced

theorem Inv.begin (h : Inv d₀ s) (hk : s.writes k = none) (file : String) (text : List UInt8) (pid nanos : ℕ)
    (hfile : ¬ IsTemp file)
    (hfresh : ∀ j w, s.writes j = some w → (w.file, w.pid, w.nanos) ≠ (file, pid, nanos)) :
    Inv d₀ (s.put k { file, text, pid, nanos } s.disk) := by
  have hplaced (v : Write) (hv : s.writes k = some v) (p : ℕ × ℕ) (hp : v.placed = some p) :
      file = v.file ∧ text = v.text ∧ (none : Option (ℕ × ℕ)) = some p := by
    rw [hk] at hv
    cases hv
  have hidle {i : ℕ} : ¬ Write.Owns { file, text, pid, nanos } i := by
    rintro (hi | ⟨order, hi⟩)
    · cases hi
    · cases hi
  have htemp {j : ℕ} {v : Write} (hv : s.writes j = some v) : v.temp ≠ tempName file pid nanos := by
    intro heq
    obtain ⟨h₁, h₂, h₃⟩ := tempName_injective heq
    exact hfresh j v hv (by rw [h₁, h₂, h₃])
  constructor
  · intro j v hv
    rw [writes_put] at hv
    obtain ⟨rfl, rfl⟩ | ⟨-, hv⟩ := hv
    · exact hfile
    · exact h.named j v hv
  · intro j l u v hu hv hne
    rw [writes_put] at hu hv
    obtain ⟨rfl, rfl⟩ | ⟨hj, hu⟩ := hu
    · obtain ⟨rfl, rfl⟩ | ⟨hl, hv⟩ := hv
      · exact absurd rfl hne
      · exact (htemp hv).symm
    · obtain ⟨rfl, rfl⟩ | ⟨hl, hv⟩ := hv
      · exact htemp hu
      · exact h.apart j l u v hu hv hne
  · intro j v hv i hi
    rw [writes_put] at hv
    obtain ⟨rfl, rfl⟩ | ⟨-, hv⟩ := hv
    · cases hi
    · exact h.opened j v hv i hi
  · intro j l u v hu hv hne i hi
    rw [writes_put] at hu hv
    obtain ⟨rfl, rfl⟩ | ⟨hj, hu⟩ := hu
    · exact absurd hi hidle
    · obtain ⟨rfl, rfl⟩ | ⟨hl, hv⟩ := hv
      · exact hidle
      · exact h.alone j l u v hu hv hne i hi
  · intro j v hv i hi
    rw [writes_put] at hv
    obtain ⟨rfl, rfl⟩ | ⟨-, hv⟩ := hv
    · exact absurd hi hidle
    · exact h.made j v hv i hi
  · exact h.grown
  · exact h.stays
  · exact h.fine.imp fun n i f hf => hf.put hplaced
  · intro j v hv hearly
    rw [writes_put] at hv
    obtain ⟨rfl, rfl⟩ | ⟨-, hv⟩ := hv
    · rfl
    · exact h.unplaced j v hv hearly
  · intro j v hv i order hp
    rw [writes_put] at hv
    obtain ⟨rfl, rfl⟩ | ⟨-, hv⟩ := hv
    · cases hp
    · exact h.order j v hv i order hp
  · intro j v hv hphase
    rw [writes_put] at hv
    obtain ⟨rfl, rfl⟩ | ⟨-, hv⟩ := hv
    · cases hphase
    · obtain ⟨i, order, hp, hafter⟩ := h.syncing j v hv hphase
      exact ⟨i, order, hp, hafter.put hplaced⟩
  · intro j v hv hphase
    rw [writes_put] at hv
    obtain ⟨rfl, rfl⟩ | ⟨-, hv⟩ := hv
    · cases hphase
    · obtain ⟨i, order, hp, hafter⟩ := h.returned j v hv hphase
      exact ⟨i, order, hp, fun e he => (hafter e he).put hplaced⟩

@[simp] theorem kill_file (w : Write) : w.kill.file = w.file := by
  rw [Write.kill]
  split <;> rfl

@[simp] theorem kill_text (w : Write) : w.kill.text = w.text := by
  rw [Write.kill]
  split <;> rfl

@[simp] theorem kill_placed (w : Write) : w.kill.placed = w.placed := by
  rw [Write.kill]
  split <;> rfl

@[simp] theorem kill_temp (w : Write) : w.kill.temp = w.temp := by
  rw [Write.kill]
  split <;> rfl

/-- A write whose program has ended has returned or never will. -/
theorem kill_cases (w : Write) : (∃ ok, w.phase = .returned ok ∧ w.kill = w) ∨ w.kill = { w with phase := .killed } := by
  rw [Write.kill]
  split
  · rename_i ok hok
    exact .inl ⟨ok, hok, rfl⟩
  · exact .inr rfl

theorem kill_phase (w : Write) : w.kill.phase ≠ .start ∧ w.kill.phase ≠ .opening ∧ w.kill.phase ≠ .syncing := by
  obtain ⟨ok, hok, hkill⟩ | hkill := kill_cases w
  · rw [hkill, hok]
    exact ⟨(fun hp => by cases hp), (fun hp => by cases hp), fun hp => by cases hp⟩
  · rw [hkill]
    exact ⟨(fun hp => by cases hp), (fun hp => by cases hp), fun hp => by cases hp⟩

/-- **A crash** ends every write, and what is read is still whole. -/
theorem Inv.crash (h : Inv d₀ s) (hc : Disk.Crash s.disk disk) :
    Inv d₀ { s with disk, writes := fun k => (s.writes k).map Write.kill } := by
  have hof {j : ℕ} {v : Write} (hv : (s.writes j).map Write.kill = some v) : ∃ u, s.writes j = some u ∧ u.kill = v :=
    Option.map_eq_some_iff.1 hv
  have hidle {u : Write} : u.kill.phase.handle = none ∧ u.kill.phase.early = false ∧ u.kill.phase ≠ .syncing := by
    obtain ⟨ok, hok, hkill⟩ | hkill := kill_cases u
    · rw [hkill, hok]
      exact ⟨rfl, rfl, fun hp => by cases hp⟩
    · rw [hkill]
      exact ⟨rfl, rfl, fun hp => by cases hp⟩
  have howns {u : Write} {i : ℕ} (hi : u.kill.Owns i) : u.Owns i := by
    obtain hi | ⟨order, hi⟩ := hi
    · rw [hidle.1] at hi
      cases hi
    · rw [kill_placed] at hi
      exact .inr ⟨order, hi⟩
  have hfine {n : String} {i : ℕ} {f : Disk.File UInt8} (hf : Fine d₀ s.writes n i f) :
      Fine d₀ (fun k => (s.writes k).map Write.kill) n i f := by
    obtain hf | ⟨j, u, order, hu, hfile, hp, rfl⟩ := hf
    · exact .inl hf
    · exact .inr ⟨j, u.kill, order, by simp [hu], by simpa using hfile, by simpa using hp, by simp⟩
  have hafter {n : String} {order : ℕ} {e : Option ℕ} (he : After s.writes n order e) :
      After (fun k => (s.writes k).map Write.kill) n order e := by
    obtain ⟨j, u, i, order', hu, hfile, hp, hle, rfl⟩ := he
    exact ⟨j, u.kill, i, order', by simp [hu], by simpa using hfile, by simpa using hp, hle, rfl⟩
  constructor
  · intro j v hv
    obtain ⟨u, hu, rfl⟩ := hof hv
    rw [kill_file]
    exact h.named j u hu
  · intro j l v v' hv hv' hne
    obtain ⟨u, hu, rfl⟩ := hof hv
    obtain ⟨u', hu', rfl⟩ := hof hv'
    rw [kill_temp, kill_temp]
    exact h.apart j l u u' hu hu' hne
  · intro j v hv i hi
    obtain ⟨u, -, rfl⟩ := hof hv
    rw [hidle.1] at hi
    cases hi
  · intro j l v v' hv hv' hne i hi hi'
    obtain ⟨u, hu, rfl⟩ := hof hv
    obtain ⟨u', hu', rfl⟩ := hof hv'
    exact h.alone j l u u' hu hu' hne i (howns hi) (howns hi')
  · intro j v hv i hi
    obtain ⟨u, hu, rfl⟩ := hof hv
    obtain ⟨hge, hlt⟩ := h.made j u hu i (howns hi)
    exact ⟨hge, Nat.lt_of_lt_of_le hlt (Nat.le_of_eq hc.length.symm)⟩
  · exact Nat.le_trans h.grown (Nat.le_of_eq hc.length.symm)
  · intro n hn hne hnone
    rw [hc.past, List.mem_singleton] at hnone
    exact h.stays n hn hne (hnone ▸ hc.names n)
  · exact (h.fine.imp fun n i f hf => hfine hf).crash hc
  · intro j v hv hearly
    obtain ⟨u, -, rfl⟩ := hof hv
    rw [hidle.2.1] at hearly
    cases hearly
  · intro j v hv i order hp
    obtain ⟨u, hu, rfl⟩ := hof hv
    rw [kill_placed] at hp
    exact h.order j u hu i order hp
  · intro j v hv hphase
    obtain ⟨u, -, rfl⟩ := hof hv
    exact absurd hphase hidle.2.2
  · intro j v hv hphase
    obtain ⟨u, hu, rfl⟩ := hof hv
    have hreturned : u.phase = .returned true := by
      obtain ⟨ok, hok, hkill⟩ | hkill := kill_cases u
      · rwa [hkill] at hphase
      · rw [hkill] at hphase
        cases hphase
    obtain ⟨i, order, hp, hall⟩ := h.returned j u hu hreturned
    rw [kill_placed, kill_file]
    refine ⟨i, order, hp, fun e he => hafter (hall e ?_)⟩
    rw [hc.past, List.mem_singleton] at he
    rw [he]
    exact hc.names u.file

/-- What a call of a write can do, its failures among it. -/
inductive Called (s : World) (k : ℕ) (w : Write) : World → Prop
  | dir (mode : Option ℕ) : w.phase = .start →
      Called s k w { s.put k { w with phase := .opening } s.disk with dir := mode }
  | create (made : Disk String UInt8 × ℕ) : w.phase = .opening → s.disk.create w.temp 0o600 = some made →
      Called s k w (s.put k { w with phase := .writing made.2 w.text } made.1)
  | write (i n : ℕ) (rest : List UInt8) : w.phase = .writing i rest →
      Called s k w (s.put k { w with phase := .writing i (rest.drop n) } (s.disk.write i (rest.take n)))
  | sync (i : ℕ) : w.phase = .writing i [] → Called s k w (s.put k { w with phase := .moving i } (s.disk.sync i))
  | move (i : ℕ) (disk : Disk String UInt8) : w.phase = .moving i → s.disk.move w.temp w.file = some disk →
      Called s k w { s.put k { w with phase := .syncing, placed := some (i, s.renames) } disk with
        renames := s.renames + 1 }
  | remove (disk : Disk String UInt8) : w.phase = .removing → s.disk.remove w.temp = some disk →
      Called s k w (s.put k { w with phase := .returned false } disk)
  | syncNames : w.phase = .syncing → Called s k w (s.put k { w with phase := .returned true } s.disk.syncNames)
  | error : w.phase = .start ∨ w.phase = .syncing → Called s k w (s.put k { w with phase := .returned false } s.disk)
  | clean : w.phase.early = true → Called s k w (s.put k { w with phase := .removing } s.disk)
  | left : w.phase = .removing → Called s k w (s.put k { w with phase := .left } s.disk)

theorem call_cases {o : Outcome} (h : s.call k o = some s') : ∃ w, s.writes k = some w ∧ Called s k w s' := by
  rw [World.call] at h
  cases hk : s.writes k with
  | none =>
      rw [hk] at h
      cases h
  | some w =>
      refine ⟨w, rfl, ?_⟩
      rw [hk] at h
      dsimp only at h
      cases hphase : w.phase with
      | start =>
          rw [hphase] at h
          cases o with
          | done n =>
              cases h
              exact .dir _ hphase
          | failed =>
              cases h
              exact .error (.inl hphase)
      | opening =>
          rw [hphase] at h
          cases o with
          | done n =>
              obtain ⟨made, hmade, rfl⟩ := Option.map_eq_some_iff.1 h
              exact .create made hphase hmade
          | failed =>
              cases h
              exact .clean (by rw [hphase]; rfl)
      | writing i rest =>
          rw [hphase] at h
          cases o with
          | done n =>
              dsimp only at h
              split at h
              · rename_i hrest
                cases h
                exact .sync i (hrest ▸ hphase)
              · split at h
                · cases h
                  exact .write i n rest hphase
                · cases h
          | failed =>
              cases h
              exact .clean (by rw [hphase]; rfl)
      | moving i =>
          rw [hphase] at h
          cases o with
          | done n =>
              obtain ⟨disk, hmade, rfl⟩ := Option.map_eq_some_iff.1 h
              exact .move i disk hphase hmade
          | failed =>
              cases h
              exact .clean (by rw [hphase]; rfl)
      | removing =>
          rw [hphase] at h
          cases o with
          | done n =>
              obtain ⟨disk, hmade, rfl⟩ := Option.map_eq_some_iff.1 h
              exact .remove disk hphase hmade
          | failed =>
              cases h
              exact .left hphase
      | syncing =>
          rw [hphase] at h
          cases o with
          | done n =>
              cases h
              exact .syncNames hphase
          | failed =>
              cases h
              exact .error (.inr hphase)
      | returned ok | left | killed =>
          rw [hphase] at h
          cases h

/-- A call goes on with the write it is of. -/
theorem Called.writes (h : Called s k w s') :
    ∃ w', s'.writes = Function.update s.writes k (some w') ∧ w'.file = w.file ∧ w'.text = w.text := by
  cases h with
  | dir mode hphase => exact ⟨_, rfl, rfl, rfl⟩
  | create made hphase hmade => exact ⟨_, rfl, rfl, rfl⟩
  | write i n rest hphase => exact ⟨_, rfl, rfl, rfl⟩
  | sync i hphase => exact ⟨_, rfl, rfl, rfl⟩
  | move i disk hphase hmade => exact ⟨_, rfl, rfl, rfl⟩
  | remove disk hphase hmade => exact ⟨_, rfl, rfl, rfl⟩
  | syncNames hphase => exact ⟨_, rfl, rfl, rfl⟩
  | error hphase => exact ⟨_, rfl, rfl, rfl⟩
  | clean hearly => exact ⟨_, rfl, rfl, rfl⟩
  | left hphase => exact ⟨_, rfl, rfl, rfl⟩

theorem Inv.called (h : Inv d₀ s) (hk : s.writes k = some w) (hcall : Called s k w s') : Inv d₀ s' := by
  cases hcall with
  | dir mode hphase =>
      have hopening := h.halt hk .opening rfl (fun _ => by rw [hphase]; rfl) (fun hp => by cases hp)
        (fun hp => by cases hp)
      exact { hopening with }
  | create made hphase hmade => exact h.create hk hphase hmade
  | write i n rest hphase =>
      refine h.modify hk (by rw [hphase]; rfl) _ rfl ?_
      intro f hmode hhas
      rw [hphase] at hhas
      refine ⟨hmode, ?_⟩
      change (f.text ++ rest.take n) ++ rest.drop n = w.text
      rw [List.append_assoc, List.take_append_drop]
      exact hhas
  | sync i hphase =>
      refine h.modify hk (by rw [hphase]; rfl) _ rfl ?_
      intro f hmode hhas
      rw [hphase] at hhas
      have htext : f.text = w.text := by simpa [Phase.Has] using hhas
      exact ⟨hmode, by rw [Phase.Has, htext, hmode]⟩
  | move i disk hphase hmade => exact h.move hk hphase hmade
  | remove disk hphase hmade => exact h.remove hk hmade
  | syncNames hphase => exact h.syncNames hk hphase
  | error hphase => exact h.halt hk _ rfl (fun hp => by cases hp) (fun hp => by cases hp) (fun hp => by cases hp)
  | clean hearly => exact h.halt hk _ rfl (fun hp => by cases hp) (fun hp => by cases hp) (fun hp => by cases hp)
  | left hphase => exact h.halt hk _ rfl (fun hp => by cases hp) (fun hp => by cases hp) (fun hp => by cases hp)

/-- **The invariant** is kept by every step. -/
theorem inv_step (h : Inv d₀ s) (hstep : Step s s') : Inv d₀ s' := by
  cases hstep with
  | begin k file text pid nanos hk hfile hfresh => exact h.begin hk file text pid nanos hfile hfresh
  | call k o hcall =>
      obtain ⟨w, hk, hcall⟩ := call_cases hcall
      exact h.called hk hcall
  | kill k w hk =>
      obtain ⟨ok, -, hkill⟩ | hkill := kill_cases w
      · have hsame : s.put k w.kill s.disk = s := by
          rw [hkill, World.put, Function.update_eq_self_iff.2 hk.symm]
        rwa [hsame]
      · rw [hkill]
        exact h.halt hk .killed rfl (fun hp => by cases hp) (fun hp => by cases hp) (fun hp => by cases hp)
  | crash disk hc => exact h.crash hc

theorem inv_of_reaches {dir : Option ℕ} (hd : d₀.Settled) (h : Reaches (start d₀ dir) s) : Inv d₀ s := by
  induction h with
  | refl => exact inv_start hd dir
  | tail _ hstep ih => exact inv_step ih hstep

/-! ### What is read -/

variable {dir : Option ℕ}

/-- The file of a write that is done: the whole text, for nobody else to read. -/
def Write.output (w : Write) : Disk.File UInt8 := { text := w.text, mode := 0o600, synced := true }

/-- What is under a name that is read. -/
theorem Inv.read (h : Inv d₀ s) {n : String} (hn : ¬ IsTemp n) {i : ℕ} (hi : s.disk.names n = some i) :
    ∃ f, s.disk.read n = some f ∧ Fine d₀ s.writes n i f := by
  obtain ⟨f, hf, -, hfine⟩ := h.fine n hn i (Disk.held_of_names hi)
  refine ⟨f, ?_, hfine⟩
  rw [Disk.read, hi]
  exact hf

/-- What is read is what was read at the beginning, or the text of a write. -/
theorem read_of_reaches (hd : d₀.Settled) (h : Reaches (start d₀ dir) s) {n : String} (hn : ¬ IsTemp n)
    {f : Disk.File UInt8} (hf : s.disk.read n = some f) :
    d₀.read n = some f ∨ ∃ k w, s.writes k = some w ∧ w.file = n ∧ f = w.output := by
  obtain ⟨i, hi, -⟩ := Option.bind_eq_some_iff.1 hf
  obtain ⟨g, hg, hfine⟩ := (inv_of_reaches hd h).read hn hi
  obtain rfl : g = f := Option.some.inj (hg.symm.trans hf)
  obtain ⟨hnames, hfile⟩ | ⟨k, w, order, hw, hname, -, rfl⟩ := hfine
  · exact .inl (by rw [Disk.read, hnames]; exact hfile)
  · exact .inr ⟨k, w, hw, hname, rfl⟩

/-- The file of a write that was moved to a name is read there. -/
theorem Inv.read_placed (hinv : Inv d₀ s) {j i order : ℕ} {v : Write} (hv : s.writes j = some v)
    (hplaced : v.placed = some (i, order)) (hnames : s.disk.names v.file = some i) :
    s.disk.read v.file = some v.output := by
  obtain ⟨f, hf, hfine⟩ := hinv.read (hinv.named j v hv) hnames
  have howns : v.Owns i := .inr ⟨order, hplaced⟩
  obtain ⟨-, hfirst⟩ | ⟨l, u, order', hu, -, hplaced', rfl⟩ := hfine
  · -- the file was not there at the beginning
    exact absurd (List.getElem?_eq_some_iff.1 hfirst).1 (Nat.not_lt.2 (hinv.made j v hv i howns).1)
  · have hsame : l = j := by
      by_contra hne
      exact hinv.alone l j u v hu hv hne i (.inr ⟨order', hplaced'⟩) howns
    subst hsame
    obtain rfl : u = v := Option.some.inj (hu.symm.trans hv)
    exact hf

/-- Where a write that has returned was moved, there is its file, or that of a write that was moved after it. -/
theorem Inv.read_returned (hinv : Inv d₀ s) (hk : s.writes k = some w) (hreturned : w.phase = .returned true) :
    ∃ j v i order i' order', s.writes j = some v ∧ v.file = w.file ∧ w.placed = some (i, order) ∧
      v.placed = some (i', order') ∧ order ≤ order' ∧ s.disk.read v.file = some v.output := by
  obtain ⟨i, order, hplaced, hafter⟩ := hinv.returned k w hk hreturned
  obtain ⟨j, v, i', order', hv, hfile, hplaced', hle, hnames⟩ := hafter _ List.mem_cons_self
  exact ⟨j, v, i, order, i', order', hv, hfile, hplaced, hplaced', hle, hinv.read_placed hv hplaced' (hfile ▸ hnames)⟩

/-- **A file is whole**: whatever is written at a time, whichever calls fail, whichever programs end and however
often the power fails, a file that was there is there, and what is read of one is what it was or the whole text of a
write, to be read by nobody else. -/
theorem file_whole (hd : d₀.Settled) (h : Reaches (start d₀ dir) s) {n : String} (hn : ¬ IsTemp n) :
    (d₀.read n ≠ none → s.disk.read n ≠ none) ∧
      ∀ f, s.disk.read n = some f → d₀.read n = some f ∨ ∃ k w, s.writes k = some w ∧ w.file = n ∧ f = w.output := by
  refine ⟨fun hne hnone => ?_, fun f hf => read_of_reaches hd h hn hf⟩
  have hinv := inv_of_reaches hd h
  have hstays := hinv.stays n hn fun hnames => hne (by rw [Disk.read, hnames]; rfl)
  cases hi : s.disk.names n with
  | none => exact hstays (hi ▸ List.mem_cons_self)
  | some i =>
      obtain ⟨f, hf, -⟩ := hinv.read hn hi
      rw [hf] at hnone
      cases hnone

/-- The file of the two bytes. -/
theorem file_whole_plain : ∃ s, Reaches (start bare none) s ∧
    ∃ k w, s.writes k = some w ∧ w.file = "a" ∧ s.disk.read "a" = some w.output := by
  obtain ⟨s, hs⟩ : ∃ s, begun.calls 0 plain = some s := ⟨_, rfl⟩
  have hreach := reaches_begun.trans (reaches_calls hs)
  have hread : s.disk.read "a" = some { text := [104, 105], mode := 0o600, synced := true } := by
    obtain rfl := Option.some.inj hs
    rfl
  obtain hfirst | ⟨k, w, hw, hfile, hf⟩ := (file_whole settled_bare hreach (not_isTemp (by decide))).2 _ hread
  · cases hfirst
  · exact ⟨s, hreach, k, w, hw, hfile, hf ▸ hread⟩

end Nutsh.Atomic
