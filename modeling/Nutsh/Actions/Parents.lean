/-
The parents of an action, counted and collected.

`reason` counts the parents that the table and the row happen to supply, `plan` demands every one that the
kind declares and counts them then.  The two agree on a row that carries all of them.  On one that lacks
some, `plan` always refuses and `reason` only when the rest is not what the path needs, so they differ where
the path needs exactly as many parents fewer than are declared as the row lacks.

Main definitions:

* `missing` — the parents that are declared and not carried;
* `Agree` — what is not refused is planned, with the parents of the table and then those of the row.

Main results:

* `plan_eq_ok_iff` — what is planned, and when;
* `agree_iff` — when the two agree;
* `agree_of_declared` — they do where a kind declares as many parents as the path needs.
-/
import Nutsh.Actions

set_option relaxedAutoImplicit false
set_option autoImplicit false

namespace Nutsh

variable {catalog : Catalog} {kind : Kind} {action : Action} {tableParents : List String} {row : Entity}

/-- The parents a kind declares and a row does not carry. -/
def missing (kind : Kind) (row : Entity) : List String :=
  kind.actionParents.filter fun p => (parentAt row p).isNone

/-- What is not refused is planned, with the parents its path needs. -/
structure Agree (catalog : Catalog) (kind : Kind) (action : Action) (tableParents : List String)
    (row : Entity) : Prop where
  planned : ∀ (policy : Policy) (count : ℕ) (body : Option Json),
    reason catalog policy kind action tableParents (some row) count = none →
      ∃ p own, plan catalog kind row action tableParents body = .ok p ∧
        kind.actionParents.map (parentAt row) = own.map some ∧ p.parents = tableParents ++ own ∧
        p.parents.length = action.parentsNeeded
  refused : ∀ (policy : Policy) (count : ℕ) (body : Option Json) (why : String),
    plan catalog kind row action tableParents body = .error why →
      (reason catalog policy kind action tableParents (some row) count).isSome = true

/-! ### What is planned -/

theorem mapM_eq_some_iff (f : String → Option String) (l own : List String) :
    l.mapM f = some own ↔ l.map f = own.map some := by
  induction l generalizing own with
  | nil => cases own <;> simp
  | cons p l ih =>
      cases own with
      | nil => simp [List.mapM_cons, Option.bind_eq_some_iff]
      | cons o own => simp [List.mapM_cons, ih, Option.bind_eq_some_iff]

/-- A row that lacks no parent carries them all. -/
theorem missing_eq_nil_iff :
    missing kind row = [] ↔ ∃ own : List String, kind.actionParents.map (parentAt row) = own.map some := by
  constructor
  · intro h
    refine ⟨kind.actionParents.map fun p => (parentAt row p).getD "", ?_⟩
    rw [List.map_map]
    refine List.map_congr_left fun p hp => ?_
    have hsome := List.filter_eq_nil_iff.1 h p hp
    obtain ⟨o, ho⟩ := Option.ne_none_iff_exists'.1 (by simpa using hsome)
    simp [ho]
  · rintro ⟨own, h⟩
    refine List.filter_eq_nil_iff.2 fun p hp => ?_
    have : parentAt row p ∈ own.map some := h ▸ List.mem_map_of_mem hp
    obtain ⟨o, -, ho⟩ := List.mem_map.1 this
    simp [← ho]

theorem plan_eq_ok_iff {body : Option Json} {p : Plan} :
    plan catalog kind row action tableParents body = .ok p ↔
      ∃ own, kind.actionParents.map (parentAt row) = own.map some ∧
        (tableParents ++ own).length = action.parentsNeeded ∧
        p = { kind := kind.actionTarget catalog, extId := row.extId, name := row.name, action, body,
              parents := tableParents ++ own, rowKind := kind } := by
  rw [plan]
  cases hown : kind.actionParents.mapM (parentAt row) with
  | none =>
      refine iff_of_false (by simp) ?_
      rintro ⟨own, h, -⟩
      rw [← mapM_eq_some_iff, hown] at h
      cases h
  | some own =>
      rw [mapM_eq_some_iff] at hown
      have huniq {own' : List String} (h : kind.actionParents.map (parentAt row) = own'.map some) :
          own' = own :=
        List.map_injective_iff.2 (fun _ _ => Option.some.inj) (h.symm.trans hown)
      by_cases hlength : (tableParents ++ own).length = action.parentsNeeded
      · simp only [hlength, ne_eq, not_true_eq_false, if_false, Except.ok.injEq]
        constructor
        · rintro rfl
          exact ⟨own, hown, hlength, rfl⟩
        · rintro ⟨own', h, -, rfl⟩
          rw [huniq h]
      · simp only [ne_eq, hlength, not_false_eq_true, if_true, reduceCtorEq, false_iff]
        rintro ⟨own', h, hneeded, -⟩
        exact hlength (huniq h ▸ hneeded)

/-! ### When the two agree -/

/-- What the row supplies and what it lacks are what its kind declares. -/
theorem supplied_add_missing : supplied kind tableParents (some row) + (missing kind row).length =
    tableParents.length + kind.actionParents.length := by
  have := List.length_eq_length_filter_add (l := kind.actionParents) fun p => (parentAt row p).isSome
  simp only [supplied, missing, Option.any_some]
  simp only [Option.not_isSome] at this
  omega

/-- A policy that forbids nothing. -/
def permissive : Policy := { session := {}, guardrails := { rules := [] }, canI := {} }

theorem reason_permissive : reason catalog permissive kind action tableParents (some row) 0 = none ↔
    (kind.id = taskKindId → action.name = "cancel" → cancelable (some row) = true) ∧
      supplied kind tableParents (some row) = action.parentsNeeded ∧
      (action.needsBody && action.form.isEmpty && action.body.isNone) = false := by
  have hpasses : (permissive.guardrails.verdict permissive.session.name kind action 0
      (permissive.canI.can action)).passes = true := by
    rw [Guardrails.passes_verdict_iff]
    exact ⟨rfl, rfl, rfl, Nat.zero_le _⟩
  rw [reason_eq_none_iff]
  constructor
  · rintro ⟨-, -, hcancel, hsupplied, hbody, -⟩
    exact ⟨hcancel, hsupplied, hbody⟩
  · rintro ⟨hcancel, hsupplied, hbody⟩
    exact ⟨rfl, rfl, hcancel, hsupplied, hbody, hpasses⟩

/-- What is not refused is planned where no parent is missing, or where something else is refused. -/
theorem agree_of (h : missing kind row = [] ∨
      tableParents.length + kind.actionParents.length ≠ action.parentsNeeded + (missing kind row).length ∨
      (kind.id = taskKindId ∧ action.name = "cancel" ∧ cancelable (some row) = false) ∨
      (action.needsBody && action.form.isEmpty && action.body.isNone) = true) :
    Agree catalog kind action tableParents row := by
  have hcount : supplied kind tableParents (some row) + (missing kind row).length =
      tableParents.length + kind.actionParents.length := supplied_add_missing
  have hplanned (policy : Policy) (count : ℕ) (body : Option Json)
      (hnone : reason catalog policy kind action tableParents (some row) count = none) :
      ∃ p own, plan catalog kind row action tableParents body = .ok p ∧
        kind.actionParents.map (parentAt row) = own.map some ∧ p.parents = tableParents ++ own ∧
        p.parents.length = action.parentsNeeded := by
    obtain ⟨-, -, hcancel, hsupplied, hbody, -⟩ := reason_eq_none_iff.1 hnone
    rcases h with hmissing | hlength | ⟨hkind, hname, hnot⟩ | hundescribed
    · obtain ⟨own, hown⟩ := missing_eq_nil_iff.1 hmissing
      have hneeded : (tableParents ++ own).length = action.parentsNeeded := by
        have hmap := congrArg List.length hown
        simp only [List.length_map, List.length_append, hmissing, List.length_nil] at hmap hcount ⊢
        omega
      exact ⟨_, own, plan_eq_ok_iff.2 ⟨own, hown, hneeded, rfl⟩, hown, rfl, hneeded⟩
    · omega
    · exact absurd (hcancel hkind hname) (by simp [hnot])
    · exact absurd hundescribed (by simp [hbody])
  refine ⟨hplanned, fun policy count body why hwhy => ?_⟩
  by_contra hnot
  obtain ⟨p, own, hp, -⟩ := hplanned policy count body (by simpa using hnot)
  rw [hwhy] at hp
  cases hp

/-- **The refusal and the plan agree** on a row exactly when it carries every parent that its kind declares,
or lacks another number than the path does without, or is refused for another reason whatever the policy. -/
theorem agree_iff (catalog : Catalog) (kind : Kind) (action : Action) (tableParents : List String)
    (row : Entity) : Agree catalog kind action tableParents row ↔
      missing kind row = [] ∨
      tableParents.length + kind.actionParents.length ≠ action.parentsNeeded + (missing kind row).length ∨
      (kind.id = taskKindId ∧ action.name = "cancel" ∧ cancelable (some row) = false) ∨
      (action.needsBody && action.form.isEmpty && action.body.isNone) = true := by
  have hcount : supplied kind tableParents (some row) + (missing kind row).length =
      tableParents.length + kind.actionParents.length := supplied_add_missing
  refine ⟨fun h => ?_, agree_of⟩
  by_contra hcon
  simp only [not_or, not_and, Bool.not_eq_false, Bool.not_eq_true] at hcon
  obtain ⟨hmissing, hlength, hcancel, hbody⟩ := hcon
  have hallowed : reason catalog permissive kind action tableParents (some row) 0 = none :=
    reason_permissive.2 ⟨hcancel, by omega, hbody⟩
  obtain ⟨-, own, -, hown, -⟩ := h.planned _ _ none hallowed
  exact hmissing (missing_eq_nil_iff.2 ⟨own, hown⟩)

/-- The two agree on every row where as many parents are declared as the path needs. -/
theorem agree_of_declared (h : tableParents.length + kind.actionParents.length = action.parentsNeeded) :
    Agree catalog kind action tableParents row := by
  refine agree_of ?_
  cases hmissing : missing kind row with
  | nil => exact .inl rfl
  | cons p rest =>
      refine .inr (.inl ?_)
      simp only [List.length_cons]
      omega

/-! ### A host that is in no rack -/

/-- Hosts, of which a cluster and a rack are declared. -/
def hostKind : Kind :=
  { id := "clustermgmt.config.Host", «namespace» := "clustermgmt", display := "Hosts",
    listPath := "/clustermgmt/v4.0/config/hosts", getPath := none,
    actionParents := ["cluster.uuid", "rack.uuid"] }

/-- An action under the cluster of a host. -/
def enterMaintenance : Action :=
  { name := "enter-host-maintenance",
    path := "/clustermgmt/v4.0/operations/clusters/\x7bclusterExtId\x7d/hosts/\x7bextId\x7d" ++
      "/$actions/enter-host-maintenance",
    method := .post, scope := ["clusterExtId", "extId"] }

/-- A host in a cluster, and in no rack. -/
def rackless : Entity :=
  Entity.new hostKind (.obj [("extId", .str "h1"), ("cluster", .obj [("uuid", .str "c1")])]) none

/-- The action is not refused on the host, and cannot be planned. -/
theorem not_agree : ¬ ∀ (catalog : Catalog) (kind : Kind) (action : Action) (tableParents : List String)
    (row : Entity), Agree catalog kind action tableParents row := by
  intro h
  have hallowed : reason [] permissive hostKind enterMaintenance [] (some rackless) 0 = none :=
    reason_permissive.2 (by decide +kernel)
  obtain ⟨-, own, -, hown, -⟩ := (h [] hostKind enterMaintenance [] rackless).planned _ _ none hallowed
  have hmissing : missing hostKind rackless = ["rack.uuid"] := by decide +kernel
  have := missing_eq_nil_iff.2 ⟨own, hown⟩
  rw [hmissing] at this
  cases this

end Nutsh
