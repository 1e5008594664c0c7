/-
A value written at a name and read back.

A name is read at the place it is written at, and a write is felt only on its way and under it: at every other
name the same is read as before, but for the nulls an array is filled with, which are no value.

* `readAt_writeAt` — what is read after a write, at its name and at every other.
-/
import Nutsh.Untouched

set_option relaxedAutoImplicit false
set_option autoImplicit false

namespace Nutsh

open Json

/-- A name that is no write path is nowhere read. -/
theorem readAt_of_not_valid {name : String} (h : validFieldName name ≠ true) (document : Json) :
    readAt document name = none := by
  rw [readAt, if_neg h]

/-- A null where there was nothing is edited as nothing. -/
theorem fieldText_eq_of_alike {codec : Codec} {body written : Json} {name : String}
    (h : readAt written name = readAt body name ∨ readAt body name = none ∧ readAt written name = some .null) :
    fieldText codec written name = fieldText codec body name := by
  rw [fieldText, fieldText]
  rcases h with hsame | ⟨hnone, hnull⟩
  · rw [hsame]
  · rw [hnone, hnull]
    rfl

/-- **A value written at a name** is read there, and at every name that is neither on the way of the write nor
under it the same is read as before, or a null where there was nothing, so that the text it is edited as stays. -/
theorem readAt_writeAt {body written value : Json} {name : String} (h : writeAt body name value = .ok written) :
    readAt written name = some value ∧
      ∀ other, ¬ stepsOf name <+: stepsOf other → ¬ stepsOf other <+: stepsOf name →
        (readAt written other = readAt body other ∨
            readAt body other = none ∧ readAt written other = some .null) ∧
          ∀ codec, fieldText codec written other = fieldText codec body other := by
  have hput := put_of_writeAt h
  constructor
  · have hvalid : validFieldName name = true := by
      rw [writeAt] at h
      split at h
      · assumption
      · cases h
    have hwalk := walk_put_append hput []
    rw [List.append_nil] at hwalk
    rw [readAt_eq_walk hvalid, hwalk, walk_nil]
  · intro other hunder habove
    suffices halike : readAt written other = readAt body other ∨
        readAt body other = none ∧ readAt written other = some .null from
      ⟨halike, fun codec => fieldText_eq_of_alike halike⟩
    by_cases hvalid : validFieldName other = true
    · rw [readAt_eq_walk hvalid, readAt_eq_walk hvalid]
      exact walk_put_of_not_prefix hput (alternates_segments _) (alternates_segments _) hunder habove
    · rw [readAt_of_not_valid hvalid, readAt_of_not_valid hvalid]
      exact .inl rfl

/-- A machine with one disk, and with a third one named, which makes a second without a value. -/
def oneDisk : Json := .obj [("name", .str "db"), ("disks", .arr [.obj [("name", .str "a")]])]

def threeDisks : Json :=
  .obj [("name", .str "db"), ("disks", .arr [.obj [("name", .str "a")], .null, .obj [("name", .str "c")]])]

theorem readAt_writeAt_disk :
    writeAt oneDisk "disks[2].name" (.str "c") = .ok threeDisks ∧
      readAt threeDisks "disks[2].name" = some (.str "c") ∧
      ∀ other, ¬ stepsOf "disks[2].name" <+: stepsOf other → ¬ stepsOf other <+: stepsOf "disks[2].name" →
        (readAt threeDisks other = readAt oneDisk other ∨
            readAt oneDisk other = none ∧ readAt threeDisks other = some .null) ∧
          ∀ codec, fieldText codec threeDisks other = fieldText codec oneDisk other :=
  have hwrite : writeAt oneDisk "disks[2].name" (.str "c") = .ok threeDisks := rfl
  ⟨hwrite, readAt_writeAt hwrite⟩

end Nutsh
