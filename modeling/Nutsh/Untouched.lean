/-
An update form that nobody typed into.

The form of an update is seeded with what its fields are on the entity; what it collected is built into
a body, and the body is merged over the top-level members of a fresh read of the same entity.  The seeds
walk nested names, the merge does not: a property is replaced whole by whatever the fields under it write.

* `untouched` — the form as it is opened, over the entity;
* `stepsOf`, `writes` — the places of the fields, and what is written at them;
* `readAt_eq_walk` — the same places are read;
* `puts_writes` — the body is those writes, one after the other;
* `untouched_iff` — when the update leaves every property as it was.
-/
import Nutsh.App
import Nutsh.Lib.JsonPath
import Nutsh.Lib.Passes
import Nutsh.Prism.Update

set_option relaxedAutoImplicit false
set_option autoImplicit false

namespace Nutsh

open Json
open Passes (bind_eq_ok)

/-! ### The body as a list of writes -/

/-- The form of an action opened over an entity that exists. -/
def untouched (codec : Codec) (action : Action) (entity : Entity) : Form :=
  Form.«over» action.title action.form (some (currentValues codec action.form entity))

/-- A segment of a name as steps. -/
def segmentSteps (segment : String) : List Json.Step :=
  match segmentOf segment with
  | (key, none) => [.key key]
  | (key, some n) => [.key key, .item n]

/-- The place a field name addresses. -/
def stepsOf (name : String) : List Json.Step := (Text.splitChar '.' name).flatMap segmentSteps

/-- What a field writes, and where, `none` for one that is left out. -/
def writeOf (codec : Codec) (entered : IndexMap String String) (entity : Entity) (now : ℕ)
    (f : Field) : Option (List Json.Step × Json) := do
  let raw ← (rawOf codec entered entity now f).toOption.join
  let value ← (typed codec f raw).toOption
  some (stepsOf f.name, value)

/-- What the fields write, in their order. -/
def writes (codec : Codec) (fields : List Field) (entered : IndexMap String String) (entity : Entity)
    (now : ℕ) : List (List Json.Step × Json) :=
  fields.filterMap (writeOf codec entered entity now)

theorem segmentSteps_cases (segment : String) :
    ∃ k, segmentSteps segment = [.key k] ∨ ∃ n, segmentSteps segment = [.key k, .item n] := by
  unfold segmentSteps
  rcases segmentOf segment with ⟨key, - | n⟩
  · exact ⟨key, .inl rfl⟩
  · exact ⟨key, .inr ⟨n, rfl⟩⟩

/-- A name is read by walking to its place. -/
theorem readAt_eq_walk {name : String} (h : validFieldName name = true) (document : Json) :
    readAt document name = document.walk (stepsOf name) := by
  rw [readAt, if_pos h, stepsOf]
  generalize Text.splitChar '.' name = segments
  induction segments generalizing document with
  | nil => rfl
  | cons segment rest ih =>
      rw [List.foldlM_cons, List.flatMap_cons, walk_append]
      have hstep : readSegment document segment = document.walk (segmentSteps segment) := by
        rw [readSegment, segmentSteps]
        cases segmentOf segment with
        | mk key index =>
            cases document with
            | obj members =>
                cases hk : members.lookup key with
                | none => cases index <;> simp [walk_cons, child, hk, Json.asObject]
                | some v =>
                    cases index with
                    | none => simp [walk_cons, child, hk, Json.asObject]
                    | some n =>
                        cases v <;> simp [walk_cons, child, hk, Json.asObject, Json.asArray]
            | null | bool | num | str | arr =>
                cases index <;> simp [walk_cons, child, Json.get, Json.asObject]
      rw [hstep]
      exact congrArg _ (funext fun v => ih v)

/-- The steps of segments start with a key, if there are any. -/
theorem blank_segments (segments : List String) :
    blank (segments.flatMap segmentSteps) = .obj [] := by
  cases segments with
  | nil => rfl
  | cons segment rest =>
      obtain ⟨k, h | ⟨n, h⟩⟩ := segmentSteps_cases segment <;> rw [List.flatMap_cons, h] <;> rfl

theorem fits_segments {segments : List String} (h : segments ≠ []) (v : Json) :
    fits (segments.flatMap segmentSteps) v = v.asObject.isSome := by
  cases segments with
  | nil => exact absurd rfl h
  | cons segment rest =>
      obtain ⟨k, h | ⟨n, h⟩⟩ := segmentSteps_cases segment <;> rw [List.flatMap_cons, h] <;>
        cases v <;> rfl

theorem keyed_segments {segments : List String} (h : segments ≠ []) :
    keyed (segments.flatMap segmentSteps) = true := by
  cases segments with
  | nil => exact absurd rfl h
  | cons segment rest =>
      obtain ⟨k, h | ⟨n, h⟩⟩ := segmentSteps_cases segment <;> rw [List.flatMap_cons, h] <;> rfl

/-- Between two indices there is a key. -/
theorem alternates_segments (segments : List String) :
    alternates (segments.flatMap segmentSteps) = true := by
  induction segments with
  | nil => rfl
  | cons segment rest ih =>
      obtain ⟨k, h | ⟨n, h⟩⟩ := segmentSteps_cases segment
      · rw [List.flatMap_cons, h]
        exact ih
      · rw [List.flatMap_cons, h]
        cases hrest : rest with
        | nil => rfl
        | cons segment' rest' =>
            have hkey : keyed ((segment' :: rest').flatMap segmentSteps) = true :=
              keyed_segments (List.cons_ne_nil _ _)
            rw [hrest] at ih
            revert ih hkey
            generalize (segment' :: rest').flatMap segmentSteps = p
            intro ih hkey
            cases p with
            | nil => rfl
            | cons s p => cases s with
              | key => exact ih
              | item => cases hkey

theorem splitChar_ne_nil (c : Char) (s : String) : Text.splitChar c s ≠ [] := by
  intro h
  exact List.splitOn_ne_nil c s.toList (List.map_eq_nil_iff.1 h)

/-- A value written at the segments of a name is written at their place. -/
theorem put_of_writeSegments {name : String} {value : Json} {segments walked : List String}
    {v result : Json} (hne : segments ≠ [])
    (h : writeSegments name value walked segments v = .ok result) :
    put (segments.flatMap segmentSteps) value v = some result := by
  induction segments generalizing walked v result with
  | nil => exact absurd rfl hne
  | cons segment rest ih =>
      rw [writeSegments] at h
      cases hv : v.asObject with
      | none => simp [hv] at h
      | some members =>
          obtain rfl : v = .obj members := by cases v <;> cases hv; rfl
          rw [List.flatMap_cons, segmentSteps]
          cases hs : segmentOf segment with
          | mk key index =>
              rw [hs] at h
              have hobj : (Json.obj members).asObject = some members := rfl
              simp only [hobj] at h
              cases index with
              | none =>
                  cases rest with
                  | nil => exact congrArg some (Except.ok.inj h)
                  | cons segment' rest' =>
                      have hne : segment' :: rest' ≠ [] := List.cons_ne_nil _ _
                      obtain ⟨c, hc, h⟩ := bind_eq_ok.1 h
                      have hput := ih hne hc
                      simp only [List.singleton_append, put, blank_segments, hput, Option.map_some]
                      exact congrArg some (Except.ok.inj h)
              | some n =>
                  have hb : blank (.item n :: rest.flatMap segmentSteps) = .arr [] := rfl
                  simp only [List.cons_append, List.nil_append, put, hb]
                  cases harr : ((members.lookup key).getD (.arr [])).asArray with
                  | none => simp [harr] at h
                  | some items =>
                      simp only [harr] at h
                      have hval : (members.lookup key).getD (.arr []) = .arr items := by
                        revert harr
                        generalize (members.lookup key).getD (.arr []) = w
                        intro harr
                        cases w <;> cases harr
                        rfl
                      rw [hval, put]
                      cases rest with
                      | nil => exact congrArg some (Except.ok.inj h)
                      | cons segment' rest' =>
                          have hne : segment' :: rest' ≠ [] := List.cons_ne_nil _ _
                          obtain ⟨c, hc, h⟩ := bind_eq_ok.1 h
                          have hput := ih hne hc
                          have hfits : fits ((segment' :: rest').flatMap segmentSteps) =
                              fun v => v.asObject.isSome := funext (fits_segments hne)
                          rw [blank_segments, hfits, hput]
                          exact congrArg some (Except.ok.inj h)

/-- A value written at a name is written at its place. -/
theorem put_of_writeAt {name : String} {value v result : Json}
    (h : writeAt v name value = .ok result) : put (stepsOf name) value v = some result := by
  rw [writeAt] at h
  split at h
  · exact put_of_writeSegments (splitChar_ne_nil '.' name) h
  · cases h

/-- **The body**: what the fields write, one after the other, into the empty object. -/
theorem puts_writes {codec : Codec} {fields : List Field} {entered : IndexMap String String}
    {entity : Entity} {now : ℕ} {body : Json}
    (h : buildBody codec fields entered entity now = .ok body) :
    puts (writes codec fields entered entity now) (.obj []) = some body := by
  rw [buildBody] at h
  generalize Json.obj [] = start at h ⊢
  induction fields generalizing start with
  | nil => exact congrArg some (Except.ok.inj h)
  | cons f fields ih =>
      rw [List.foldlM_cons] at h
      obtain ⟨next, hf, h⟩ := bind_eq_ok.1 h
      obtain ⟨raw, hraw, hf⟩ := bind_eq_ok.1 hf
      rw [writes, List.filterMap_cons]
      cases raw with
      | none =>
          obtain rfl : start = next := Except.ok.inj hf
          rw [show writeOf codec entered entity now f = none by simp [writeOf, hraw, Except.toOption]]
          exact ih _ h
      | some raw =>
          obtain ⟨value, hvalue, hf⟩ := bind_eq_ok.1 hf
          rw [show writeOf codec entered entity now f = some (stepsOf f.name, value) by
            simp [writeOf, hraw, hvalue, Except.toOption]]
          exact puts_cons.2 ⟨next, put_of_writeAt hf, ih _ h⟩

/-- Every field writes at a place that starts with a key and never goes from index to index. -/
theorem placed_of_mem_writes {codec : Codec} {fields : List Field}
    {entered : IndexMap String String} {entity : Entity} {now : ℕ} {w : List Json.Step × Json}
    (h : w ∈ writes codec fields entered entity now) :
    keyed w.1 = true ∧ alternates w.1 = true := by
  obtain ⟨f, -, hf⟩ := List.mem_filterMap.1 h
  simp only [writeOf, Option.bind_eq_bind, Option.bind_eq_some_iff, Option.some.injEq] at hf
  obtain ⟨raw, -, value, -, rfl⟩ := hf
  exact ⟨keyed_segments (splitChar_ne_nil '.' f.name), alternates_segments _⟩

/-! ### The merge -/

/-- Members put one after the other over others: the new ones win. -/
theorem lookup_foldl_put {changes : List (String × Json)} (h : (changes.map Prod.fst).Nodup)
    (members : List (String × Json)) (k : String) :
    (changes.foldl (fun object change => IndexMap.put change.1 change.2 object) members).lookup k =
      (changes.lookup k).or (members.lookup k) := by
  induction changes generalizing members with
  | nil => rfl
  | cons change changes ih =>
      obtain ⟨k', v⟩ := change
      obtain ⟨hk', h⟩ := List.nodup_cons.1 h
      rw [List.foldl_cons, ih h, IndexMap.lookup_put, List.lookup_cons]
      by_cases hk : k = k'
      · subst hk
        have hnone : changes.lookup k = none := by
          rw [List.lookup_eq_none_iff]
          intro p hp
          exact bne_iff_ne.2 fun hkp => hk' (List.mem_map.2 ⟨p, hp, hkp.symm⟩)
        simp [hnone]
      · simp [hk, beq_eq_false_iff_ne.2 hk]

/-- A property that may be sent back is in the merged body as in the changes, else as it was read. -/
theorem lookup_mergeChanges {members changes : List (String × Json)} {k : String}
    (h : (changes.map Prod.fst).Nodup) (hk : k ∉ Prism.readOnlyKeys) :
    (Prism.mergeChanges members changes).lookup k = (changes.lookup k).or (members.lookup k) := by
  rw [← lookup_foldl_put h, Prism.mergeChanges]
  generalize changes.foldl (fun object change => IndexMap.put change.1 change.2 object) members = l
  induction l with
  | nil => rfl
  | cons m l ih =>
      obtain ⟨k', v⟩ := m
      rw [List.filter_cons, List.lookup_cons]
      by_cases hkk : k = k'
      · subst hkk
        simp [hk]
      · rw [beq_eq_false_iff_ne.2 hkk]
        split
        · rw [List.lookup_cons, beq_eq_false_iff_ne.2 hkk, ih]
        · exact ih

/-- Whether every property of an entity that may be sent back is in a body as it was. -/
def Keeps (raw body : Json) : Prop :=
  ∀ k ∉ Prism.readOnlyKeys, ∀ v, raw.get k = some v → ∃ w, body.get k = some w ∧ w.Same v

/-- Whether the writes of a form give back every property they are under. -/
def GivesBack (writes : List (List Json.Step × Json)) (raw : Json) : Prop :=
  ∀ k ∉ Prism.readOnlyKeys, (raw.get k).isSome →
    (∃ w ∈ writes, w.1.head? = some (.key k)) → GivenBack writes raw k

/-- **An untouched update**: the form opened on the entity and sent as it is leaves every property as it
was if and only if what the fields write gives back each property they are under. -/
theorem untouched_iff {codec : Codec} {kind : Kind} {action : Action} {entity : Entity}
    {extId : String} {etag tag : Option String} {now : ℕ} {changes : List (String × Json)} {body : Json}
    (hbuild : buildBody codec action.form (untouched codec action entity).entered entity now =
      .ok (.obj changes))
    (hput : Prism.prepare kind extId changes entity.raw etag = .ok (body, tag)) :
    Keeps entity.raw body ↔
      GivesBack (writes codec action.form (untouched codec action entity).entered entity now)
        entity.raw := by
  have hputs := puts_writes hbuild
  generalize hws : writes codec action.form (untouched codec action entity).entered entity now = ws
    at hputs ⊢
  have hkeyed : ∀ w ∈ ws, keyed w.1 = true := by
    intro w hw
    rw [← hws] at hw
    exact (placed_of_mem_writes hw).1
  have halternates : ∀ w ∈ ws, alternates w.1 = true := by
    intro w hw
    rw [← hws] at hw
    exact (placed_of_mem_writes hw).2
  obtain ⟨-, members, hraw, rfl⟩ := Prism.Updates.prepare_eq_ok hput
  obtain ⟨changes', hobj, hnodup, hsome⟩ := puts_keyed hputs hkeyed List.nodup_nil
  obtain rfl : changes = changes' := Json.obj.inj hobj
  -- one property at a time
  refine forall_congr' fun k => forall_congr' fun hk => ?_
  rw [hraw, get_obj]
  have hback : _ ↔ GivenBack ws (.obj members) k := kindAt_puts_iff hputs hkeyed halternates
  simp only [get_obj, lookup_mergeChanges hnodup hk]
  cases hm : members.lookup k with
  | none => simp
  | some v =>
      cases hc : changes.lookup k with
      | none =>
          have hnot : ¬∃ w ∈ ws, w.1.head? = some (.key k) := by
            intro hw
            have := (hsome k).2 (.inr hw)
            simp [hc] at this
          simp [hnot, Same]
      | some w =>
          have hw : ∃ w ∈ ws, w.1.head? = some (.key k) := by
            simpa using (hsome k).1 (by simp [hc])
          have hsame : w.Same v ↔ ∀ p,
              (Json.obj changes).kindAt (.key k :: p) = (Json.obj members).kindAt (.key k :: p) := by
            simp [Same, kindAt_cons, child, hc, hm]
          simp [hw, ← hback, hsame]

/-- The form an update of one row is opened with is seeded from the entity under the cursor. -/
theorem App.form_openForm {env : Env} {app : App} {p : Pending} {entity : Entity}
    (hentity : app.selectedEntity env = some entity) (hmethod : p.action.method = .put)
    (hrows : p.rows.length ≤ 1) :
    (app.openForm env p).form = some (untouched env.codec p.action entity) := by
  have hprefill : app.prefill env p.action p.rows.length =
      some (currentValues env.codec p.action.form entity) := by
    rw [App.prefill, if_pos (Or.inl hmethod), if_neg (Nat.not_lt.2 hrows), hentity]
    rfl
  rw [App.openForm, hprefill]
  rfl

/-! ### Two updates -/

/-- A codec for forms of texts, which neither parse nor print JSON. -/
def textCodec : Codec :=
  { parse := fun _ => .error "not asked", print := fun _ => "", rfc3339 := fun _ => "" }

/-- The update form of a machine: its name, and a field inside its boot configuration. -/
def updateBoot : Action :=
  { name := "update", path := "/vmm/v4.0/ahv/config/vms/{extId}", method := .put, needsEtag := true,
    needsBody := true, takesBody := true, scope := ["extId"],
    form := [{ name := "name" }, { name := "boot.device" }] }

def bootKind : Kind := { vmKind with actions := [updateBoot] }

/-- A machine with a boot configuration of the given members. -/
def bootVm (members : List (String × Json)) : Entity :=
  Entity.new bootKind
    (.obj [("extId", .str "7"), ("name", .str "db"), ("boot", .obj members)]) none

/-- A machine whose boot configuration is all in the form. -/
theorem untouched_iff_boot :
    Keeps (bootVm [("device", .str "disk")]).raw
        (.obj [("name", .str "db"), ("boot", .obj [("device", .str "disk")])]) ↔
      GivesBack (writes textCodec updateBoot.form
        (untouched textCodec updateBoot (bootVm [("device", .str "disk")])).entered
        (bootVm [("device", .str "disk")]) 0) (bootVm [("device", .str "disk")]).raw :=
  @untouched_iff textCodec bootKind updateBoot (bootVm [("device", .str "disk")]) "7" (some "1")
    (some "1") 0 [("name", .str "db"), ("boot", .obj [("device", .str "disk")])] _ rfl rfl

/-- A machine that holds more of its boot configuration than the form does: the rest is lost. -/
theorem not_keeps : ¬ ∀ (codec : Codec) (kind : Kind) (action : Action) (entity : Entity)
    (extId : String) (etag tag : Option String) (now : ℕ) (changes : List (String × Json)) (body : Json),
    buildBody codec action.form (untouched codec action entity).entered entity now =
      .ok (.obj changes) →
    Prism.prepare kind extId changes entity.raw etag = .ok (body, tag) → Keeps entity.raw body := by
  intro h
  let boot := [("device", Json.str "disk"), ("menu", Json.bool true)]
  have hkeeps := h textCodec bootKind updateBoot (bootVm boot) "7" (some "1")
    (some "1") 0 [("name", .str "db"), ("boot", .obj [("device", .str "disk")])]
    (.obj [("name", .str "db"), ("boot", .obj [("device", .str "disk")])]) rfl rfl
  obtain ⟨w, hw, hsame⟩ := hkeeps "boot" (by decide) (.obj boot) rfl
  obtain rfl : Json.obj [("device", .str "disk")] = w := Option.some.inj hw
  have hmenu := hsame [.key "menu"]
  exact absurd hmenu (by decide)

end Nutsh
