/-
The roles of an account.

There is no endpoint that says what an account may do.  Its roles are put together out of four lists: a policy that
names the account, or a group, in any text of a filter grants the role it refers to.  Which accounts are in a group
is not known, so that every group counts; whatever cannot be read makes the answer unknown.  So a no is one whoever
is in which group.

Main definitions:

* `anyString`, `Mentions` — the texts of a value;
* `policyMatches`, `resolve` — the policies that name an account, and its roles;
* `Holds` — the roles an account holds, by its groups.

Main results:

* `anyString_iff` — every text of a value is looked at;
* `mem_resolve` — the roles that are resolved;
* `resolve_sound` — **what a yes, a no and an unknown say**.
-/
import Mathlib.Data.List.Dedup
import Mathlib.Data.List.Sort
import Mathlib.Data.String.Basic
import Nutsh.Entity
import Nutsh.Guardrails
import Nutsh.Lookup

set_option relaxedAutoImplicit false
set_option autoImplicit false

namespace Nutsh.CanIndex

/-! ### The texts of a value -/

mutual

/-- Whether any text of a value is as is asked for. -/
def anyString (f : String → Bool) : Json → Bool
  | .str s => f s
  | .arr items => anyItem f items
  | .obj members => anyMember f members
  | _ => false

def anyItem (f : String → Bool) : List Json → Bool
  | [] => false
  | v :: items => anyString f v || anyItem f items

def anyMember (f : String → Bool) : List (String × Json) → Bool
  | [] => false
  | (_, v) :: members => anyString f v || anyMember f members

end

/-- A text stands in a value, however deep. -/
inductive Mentions (s : String) : Json → Prop
  | str : Mentions s (.str s)
  | item {v : Json} {items : List Json} : v ∈ items → Mentions s v → Mentions s (.arr items)
  | member {k : String} {v : Json} {members : List (String × Json)} :
      (k, v) ∈ members → Mentions s v → Mentions s (.obj members)

variable {f : String → Bool}

mutual

theorem exists_of_anyString : ∀ v, anyString f v = true → ∃ s, Mentions s v ∧ f s = true
  | .str s, h => ⟨s, .str, h⟩
  | .arr items, h => by
      obtain ⟨v, hv, s, hs, hf⟩ := exists_of_anyItem items h
      exact ⟨s, .item hv hs, hf⟩
  | .obj members, h => by
      obtain ⟨k, v, hv, s, hs, hf⟩ := exists_of_anyMember members h
      exact ⟨s, .member hv hs, hf⟩
  | .null, h => by cases h
  | .bool _, h => by cases h
  | .num _, h => by cases h

theorem exists_of_anyItem : ∀ items, anyItem f items = true → ∃ v ∈ items, ∃ s, Mentions s v ∧ f s = true
  | [], h => by cases h
  | v :: items, h => by
      rw [anyItem, Bool.or_eq_true] at h
      rcases h with h | h
      · exact ⟨v, List.mem_cons_self, exists_of_anyString v h⟩
      · obtain ⟨w, hw, hs⟩ := exists_of_anyItem items h
        exact ⟨w, List.mem_cons_of_mem v hw, hs⟩

theorem exists_of_anyMember :
    ∀ members, anyMember f members = true → ∃ k v, (k, v) ∈ members ∧ ∃ s, Mentions s v ∧ f s = true
  | [], h => by cases h
  | (k, v) :: members, h => by
      rw [anyMember, Bool.or_eq_true] at h
      rcases h with h | h
      · exact ⟨k, v, List.mem_cons_self, exists_of_anyString v h⟩
      · obtain ⟨l, w, hw, hs⟩ := exists_of_anyMember members h
        exact ⟨l, w, List.mem_cons_of_mem _ hw, hs⟩

end

theorem anyItem_of_mem {v : Json} {items : List Json} (hv : v ∈ items) (h : anyString f v = true) :
    anyItem f items = true := by
  induction items with
  | nil => cases hv
  | cons w items ih =>
      rw [anyItem, Bool.or_eq_true]
      rcases List.mem_cons.1 hv with rfl | hv
      · exact .inl h
      · exact .inr (ih hv)

theorem anyMember_of_mem {k : String} {v : Json} {members : List (String × Json)} (hv : (k, v) ∈ members)
    (h : anyString f v = true) : anyMember f members = true := by
  induction members with
  | nil => cases hv
  | cons w members ih =>
      obtain ⟨l, w⟩ := w
      rw [anyMember, Bool.or_eq_true]
      rcases List.mem_cons.1 hv with heq | hv
      · obtain ⟨-, rfl⟩ := Prod.mk.inj heq
        exact .inl h
      · exact .inr (ih hv)

/-- **Every text of a value is looked at**, and no other. -/
theorem anyString_iff {v : Json} : anyString f v = true ↔ ∃ s, Mentions s v ∧ f s = true := by
  refine ⟨exists_of_anyString v, ?_⟩
  rintro ⟨s, hs, hf⟩
  induction hs with
  | str => exact hf
  | item hv _ ih => exact anyItem_of_mem hv ih
  | member hv _ ih => exact anyMember_of_mem hv ih

/-! ### The roles -/

/-- Whether a policy names an account or a group, by an id or a name. -/
def policyMatches (policy : Json) (userExtId username : String) (groupIds groupNames : List String) : Bool :=
  let namesMe (leaf : String) : Bool :=
    leaf != "" &&
      (eqIgnoreCase leaf userExtId || eqIgnoreCase leaf username || groupIds.any (eqIgnoreCase leaf) ||
        groupNames.any (eqIgnoreCase leaf))
  let identities := ((policy.get "identities").bind Json.asArray).getD []
  (identities.filterMap fun identity => identity.get "identityFilter").any (anyString namesMe)

/-- The display name of the role a policy refers to, if it is listed. -/
def roleOf (roles : List Entity) (policy : Entity) : Option String := do
  let role ← (policy.raw.get "role").bind Json.asStr
  let r ← roles.find? fun r => r.extId == role
  (r.raw.get "displayName").bind Json.asStr

/-- Whether an entry of the user list is of an account. -/
def isOf (username : String) (u : Entity) : Bool :=
  ((u.raw.get "username").bind Json.asStr).any (eqIgnoreCase · username)

/-- The roles of an account, out of four lists; a list that cannot be read is an error as it is shown. -/
def resolve (list : String → Except String (List Entity)) (username : String) : CanIndex :=
  match list "iam.authn.User" with
  | .error e => unknown s!"cannot read users ({e})"
  | .ok users =>
      match users.find? (isOf username) with
      | none => unknown s!"{username} is not in the IAM user list"
      | some me =>
          match list "iam.authn.UserGroup" with
          | .error e => unknown s!"cannot read user groups ({e})"
          | .ok groups =>
              match list "iam.authz.AuthorizationPolicy" with
              | .error e => unknown s!"cannot read authorization policies ({e})"
              | .ok policies =>
                  match list "iam.authz.Role" with
                  | .error e => unknown s!"cannot read roles ({e})"
                  | .ok roles =>
                      let mine := (policies.filter fun p =>
                        policyMatches p.raw me.extId username (groups.map Entity.extId)
                          (groups.map Entity.name)).filterMap (roleOf roles)
                      -- sorted, and each once
                      withRoles (mine.dedup.insertionSort (· ≤ ·))

/-! ### What is granted -/

/-- A policy names one of some names, in a text that is not empty. -/
def NamesOne (policy : Json) (names : List String) : Prop :=
  ∃ identities identity filter leaf, (policy.get "identities").bind Json.asArray = some identities ∧
    identity ∈ identities ∧ identity.get "identityFilter" = some filter ∧ Mentions leaf filter ∧ leaf ≠ "" ∧
    ∃ name ∈ names, eqIgnoreCase leaf name = true

theorem policyMatches_iff {policy : Json} {userExtId username : String} {groupIds groupNames : List String} :
    policyMatches policy userExtId username groupIds groupNames = true ↔
      NamesOne policy (userExtId :: username :: (groupIds ++ groupNames)) := by
  have hnames : ∀ leaf : String, (leaf != "" &&
      (eqIgnoreCase leaf userExtId || eqIgnoreCase leaf username || groupIds.any (eqIgnoreCase leaf) ||
        groupNames.any (eqIgnoreCase leaf))) = true ↔
      leaf ≠ "" ∧ ∃ name ∈ userExtId :: username :: (groupIds ++ groupNames), eqIgnoreCase leaf name = true := by
    intro leaf
    simp [or_assoc, or_and_right, exists_or]
  rw [policyMatches, List.any_eq_true]
  constructor
  · rintro ⟨filter, hfilter, hany⟩
    obtain ⟨identity, hidentity, hget⟩ := List.mem_filterMap.1 hfilter
    obtain ⟨leaf, hleaf, hname⟩ := anyString_iff.1 hany
    obtain ⟨hne, hname⟩ := (hnames leaf).1 hname
    cases hidentities : (policy.get "identities").bind Json.asArray with
    | none =>
        rw [hidentities] at hidentity
        cases hidentity
    | some identities =>
        rw [hidentities] at hidentity
        exact ⟨identities, identity, filter, leaf, hidentities, hidentity, hget, hleaf, hne, hname⟩
  · rintro ⟨identities, identity, filter, leaf, hidentities, hidentity, hget, hleaf, hne, hname⟩
    rw [hidentities]
    refine ⟨filter, List.mem_filterMap.2 ⟨identity, hidentity, hget⟩, anyString_iff.2 ⟨leaf, hleaf, ?_⟩⟩
    exact (hnames leaf).2 ⟨hne, hname⟩

/-- The four lists, read. -/
structure Iam where
  users : List Entity
  groups : List Entity
  policies : List Entity
  roles : List Entity

/-- What is read of a cluster. -/
def Iam.Reads (iam : Iam) (list : String → Except String (List Entity)) : Prop :=
  list "iam.authn.User" = .ok iam.users ∧ list "iam.authn.UserGroup" = .ok iam.groups ∧
    list "iam.authz.AuthorizationPolicy" = .ok iam.policies ∧ list "iam.authz.Role" = .ok iam.roles

/-- The role a policy grants to an account that is in some of the groups, or to all of these. -/
def Holds (iam : Iam) (me : Entity) (username : String) (groups : List Entity) (role : String) : Prop :=
  ∃ p ∈ iam.policies, roleOf iam.roles p = some role ∧
    NamesOne p.raw (me.extId :: username :: (groups.map Entity.extId ++ groups.map Entity.name))

/-- An account in fewer groups holds no more roles. -/
theorem Holds.mono {iam : Iam} {me : Entity} {username role : String} {groups groups' : List Entity}
    (hsub : groups ⊆ groups') (h : Holds iam me username groups role) : Holds iam me username groups' role := by
  obtain ⟨p, hp, hrole, identities, identity, filter, leaf, hidentities, hidentity, hget, hleaf, hne, name, hname,
    heq⟩ := h
  refine ⟨p, hp, hrole, identities, identity, filter, leaf, hidentities, hidentity, hget, hleaf, hne, name, ?_, heq⟩
  simp only [List.mem_cons, List.mem_append, List.mem_map] at hname ⊢
  rcases hname with rfl | rfl | ⟨g, hg, rfl⟩ | ⟨g, hg, rfl⟩
  · exact .inl rfl
  · exact .inr (.inl rfl)
  · exact .inr (.inr (.inl ⟨g, hsub hg, rfl⟩))
  · exact .inr (.inr (.inr ⟨g, hsub hg, rfl⟩))

/-! ### What is resolved -/

variable {list : String → Except String (List Entity)} {username : String}

/-- Four lists that are read, with the account in the first, are resolved. -/
theorem resolve_eq {iam : Iam} {me : Entity} (hreads : iam.Reads list)
    (hme : iam.users.find? (isOf username) = some me) :
    resolve list username = withRoles (((iam.policies.filter fun p =>
      policyMatches p.raw me.extId username (iam.groups.map Entity.extId) (iam.groups.map Entity.name)).filterMap
        (roleOf iam.roles)).dedup.insertionSort (· ≤ ·)) := by
  obtain ⟨husers, hgroups, hpolicies, hroles⟩ := hreads
  rw [resolve, husers]
  simp only [hme, hgroups, hpolicies, hroles]

/-- Roles are resolved out of four lists that are read, with the account in the first. -/
theorem exists_of_resolve {roles : List String} (h : (resolve list username).roles = some roles) :
    ∃ iam me, Iam.Reads iam list ∧ iam.users.find? (isOf username) = some me := by
  rw [resolve] at h
  split at h
  · cases h
  · rename_i users husers
    split at h
    · cases h
    · rename_i me hme
      split at h
      · cases h
      · rename_i groups hgroups
        split at h
        · cases h
        · rename_i policies hpolicies
          split at h
          · cases h
          · rename_i rs hroles
            exact ⟨⟨users, groups, policies, rs⟩, me, ⟨husers, hgroups, hpolicies, hroles⟩, hme⟩

/-- **The roles that are resolved** are those the account holds if it is in every group, in order and each once. -/
theorem mem_resolve {iam : Iam} {me : Entity} (hreads : iam.Reads list)
    (hme : iam.users.find? (isOf username) = some me) :
    ∃ roles, (resolve list username).roles = some roles ∧ roles.Nodup ∧ roles.Pairwise (· ≤ ·) ∧
      ∀ role, role ∈ roles ↔ Holds iam me username iam.groups role := by
  refine ⟨_, by rw [resolve_eq hreads hme]; rfl, ?_, List.pairwise_insertionSort _ _, fun role => ?_⟩
  · exact (List.perm_insertionSort _ _).nodup_iff.2 (List.nodup_dedup _)
  · rw [List.mem_insertionSort, List.mem_dedup, List.mem_filterMap]
    constructor
    · rintro ⟨p, hp, hrole⟩
      obtain ⟨hp, hmatch⟩ := List.mem_filter.1 hp
      exact ⟨p, hp, hrole, policyMatches_iff.1 hmatch⟩
    · rintro ⟨p, hp, hrole, hnames⟩
      exact ⟨p, List.mem_filter.2 ⟨hp, policyMatches_iff.2 hnames⟩, hrole⟩

/-- What resolved roles say of an action. -/
theorem can_of_roles {index : CanIndex} {roles : List String} (h : index.roles = some roles) (action : Action) :
    ((index.can action).isNo = true ↔
      action.roles ≠ [] ∧ ∀ role ∈ roles, ∀ r ∈ action.roles, eqIgnoreCase r role = false) ∧
    ((∃ via, index.can action = .yes via) ↔ ∃ role ∈ roles, ∃ r ∈ action.roles, eqIgnoreCase r role = true) := by
  rw [can, h]
  dsimp only
  split
  · rename_i hempty
    rw [List.isEmpty_iff] at hempty
    simp [hempty, CanI.isNo]
  · rename_i hne
    rw [List.isEmpty_iff] at hne
    split
    · rename_i via hfound
      have hmem := List.mem_of_find?_eq_some hfound
      have hany := List.find?_some hfound
      obtain ⟨r, hr, heq⟩ := List.any_eq_true.1 hany
      refine ⟨iff_of_false (fun hno => by cases hno) ?_, iff_of_true ⟨via, rfl⟩ ⟨via, hmem, r, hr, heq⟩⟩
      rintro ⟨-, hnone⟩
      have hfalse := hnone via hmem r hr
      exact Bool.false_ne_true (hfalse.symm.trans heq)
    · rename_i hnone
      have hfalse : ∀ role ∈ roles, ∀ r ∈ action.roles, eqIgnoreCase r role = false := by
        intro role hrole r hr
        have := List.find?_eq_none.1 hnone role hrole
        rw [List.any_eq_true, not_exists] at this
        exact Bool.eq_false_iff.2 fun heq => this r ⟨hr, heq⟩
      refine ⟨iff_of_true rfl ⟨hne, hfalse⟩, iff_of_false ?_ ?_⟩
      · rintro ⟨via, hyes⟩
        cases hyes
      · rintro ⟨role, hrole, r, hr, heq⟩
        rw [hfalse role hrole r hr] at heq
        cases heq

/-- **A no is one whoever is in which group**: every list was read, the account is in the first, and no role that it
holds, whichever of the groups it is in, is one of those the action asks for.  A yes is of a role it holds if it is
in every group. -/
theorem resolve_sound (list : String → Except String (List Entity)) (username : String) (action : Action) :
    (((resolve list username).can action).isNo = true ↔
      ∃ iam me, Iam.Reads iam list ∧ iam.users.find? (isOf username) = some me ∧ action.roles ≠ [] ∧
        ∀ groups ⊆ iam.groups, ∀ role, Holds iam me username groups role →
          ∀ r ∈ action.roles, eqIgnoreCase r role = false) ∧
    ((∃ via, (resolve list username).can action = .yes via) ↔
      ∃ iam me, Iam.Reads iam list ∧ iam.users.find? (isOf username) = some me ∧
        ∃ role, Holds iam me username iam.groups role ∧ ∃ r ∈ action.roles, eqIgnoreCase r role = true) := by
  cases hroles : (resolve list username).roles with
  | none =>
      have hunknown : ∃ why, (resolve list username).can action = .unknown why := by
        rw [can, hroles]
        exact ⟨_, rfl⟩
      obtain ⟨why, hwhy⟩ := hunknown
      have hnot : ∀ iam me, Iam.Reads iam list → iam.users.find? (isOf username) ≠ some me := by
        intro iam me hreads hme
        obtain ⟨roles, hsome, -⟩ := mem_resolve hreads hme
        rw [hroles] at hsome
        cases hsome
      rw [hwhy]
      refine ⟨iff_of_false (fun hno => by cases hno) ?_, iff_of_false ?_ ?_⟩
      · rintro ⟨iam, me, hreads, hme, -⟩
        exact hnot iam me hreads hme
      · rintro ⟨via, hyes⟩
        cases hyes
      · rintro ⟨iam, me, hreads, hme, -⟩
        exact hnot iam me hreads hme
  | some roles =>
      obtain ⟨hno, hyes⟩ := can_of_roles hroles action
      obtain ⟨iam, me, hreads, hme⟩ := exists_of_resolve hroles
      -- whichever lists and account, the roles are the same
      have hmem : ∀ iam' me', Iam.Reads iam' list → iam'.users.find? (isOf username) = some me' →
          ∀ role, role ∈ roles ↔ Holds iam' me' username iam'.groups role := by
        intro iam' me' hreads' hme' role
        obtain ⟨roles', hsome, -, -, hholds⟩ := mem_resolve hreads' hme'
        rw [hroles, Option.some.injEq] at hsome
        exact hsome ▸ hholds role
      rw [hno, hyes]
      constructor
      · constructor
        · rintro ⟨hne, hnone⟩
          refine ⟨iam, me, hreads, hme, hne, fun groups hsub role hholds => ?_⟩
          exact hnone role ((hmem iam me hreads hme role).2 (hholds.mono hsub))
        · rintro ⟨iam', me', hreads', hme', hne, hnone⟩
          refine ⟨hne, fun role hrole => ?_⟩
          exact hnone iam'.groups (fun _ h => h) role ((hmem iam' me' hreads' hme' role).1 hrole)
      · constructor
        · rintro ⟨role, hrole, haccepts⟩
          exact ⟨iam, me, hreads, hme, role, (hmem iam me hreads hme role).1 hrole, haccepts⟩
        · rintro ⟨iam', me', hreads', hme', role, hholds, haccepts⟩
          exact ⟨role, (hmem iam' me' hreads' hme' role).2 hholds, haccepts⟩

end Nutsh.CanIndex
