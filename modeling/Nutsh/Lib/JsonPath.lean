/-
Places in a JSON value, and values written at them.

A place is a path of object keys and array indices.  A write makes the objects and the arrays on its
way, fills an array with nulls up to the item it writes, and replaces an array item that is no
container of the kind it goes on into; an object member of another kind is left, and the write fails.
What is at a place after a list of writes is decided by the last one that is not beside it.

* `Json.walk`, `Json.put`, `Json.puts` — the value at a place, a value written, a list of writes;
* `Json.Keyed` — no object in the value has a key twice;
* `Json.kindAt`, `Json.Same` — the kind of node at a place, and equality up to the order of members;
* `Json.beside`, `Json.pads` — a write that leaves a place alone, and one that puts a null there;
* `Json.walk_put_append`, `Json.kindAt_put_above`, `Json.walk_put_beside` — a place after a write;
* `Json.lies` — the ways a place can lie to a write;
* `Json.walk_put_of_not_prefix` — what a write leaves at every place it is not at, above or under;
* `Json.GivenBack`, `Json.kindAt_puts_iff` — when a list of writes gives back what a value holds under
  a key.
-/
import Nutsh.Lib.IndexMap
import Nutsh.Lib.Json

set_option relaxedAutoImplicit false
set_option autoImplicit false

namespace Json

/-- One step into a value. -/
inductive Step where
  | key (name : String)
  | item (index : ℕ)
  deriving DecidableEq

/-- What a node is, what is in a container left out. -/
inductive Node where
  | null
  | bool (value : Bool)
  | num (value : JsonNumber)
  | str (value : String)
  | array
  | object
  deriving DecidableEq

def node : Json → Node
  | .null => .null
  | .bool b => .bool b
  | .num n => .num n
  | .str s => .str s
  | .arr _ => .array
  | .obj _ => .object

namespace Step

def isItem : Step → Bool
  | key _ => false
  | item _ => true

/-- Whether both go into an object, or both into an array. -/
def sameKind (s t : Step) : Bool := s.isItem == t.isItem

/-- The container a step goes into. -/
def container (s : Step) : Node := if s.isItem then .array else .object

@[simp] theorem sameKind_self (s : Step) : s.sameKind s = true := beq_self_eq_true _

theorem container_eq_iff {s t : Step} : s.container = t.container ↔ s.sameKind t = true := by
  cases s <;> cases t <;> simp [container, sameKind, isItem]

end Step

/-! ### Reading -/

/-- What is one step into a value. -/
def child (v : Json) : Step → Option Json
  | .key k => v.get k
  | .item n => v.asArray.bind fun items => items[n]?

/-- What is at a place. -/
def walk (v : Json) : List Step → Option Json
  | [] => some v
  | s :: p => (v.child s).bind fun c => c.walk p

/-- The kind of node at a place. -/
def kindAt (v : Json) (p : List Step) : Option Node := (v.walk p).map node

/-- The same value, the members of its objects in any order. -/
def Same (v w : Json) : Prop := ∀ p, v.kindAt p = w.kindAt p

@[simp] theorem walk_nil (v : Json) : v.walk [] = some v := rfl

theorem walk_cons (v : Json) (s : Step) (p : List Step) :
    v.walk (s :: p) = (v.child s).bind fun c => c.walk p := rfl

theorem walk_append (v : Json) (p q : List Step) :
    v.walk (p ++ q) = (v.walk p).bind fun c => c.walk q := by
  induction p generalizing v with
  | nil => rfl
  | cons s p ih =>
      rw [List.cons_append, walk_cons, walk_cons, Option.bind_assoc]
      exact congrArg _ (funext fun c => ih c)

/-- No object in the value has a key twice. -/
def Keyed (v : Json) : Prop :=
  ∀ p members, v.walk p = some (.obj members) → (members.map Prod.fst).Nodup

theorem Keyed.child {v c : Json} (h : v.Keyed) {s : Step} (hc : v.child s = some c) : c.Keyed := by
  intro p members hp
  refine h (s :: p) members ?_
  rw [walk_cons, hc]
  exact hp

theorem keyed_str (s : String) : (str s).Keyed := by
  intro p members h
  cases p with
  | nil => cases h
  | cons s p => cases s <;> cases h

theorem keyed_obj {members : List (String × Json)} (hnodup : (members.map Prod.fst).Nodup)
    (h : ∀ m ∈ members, m.2.Keyed) : (obj members).Keyed := by
  intro p inner hp
  cases p with
  | nil =>
      cases hp
      exact hnodup
  | cons s p =>
      obtain ⟨c, hc, hwalk⟩ := Option.bind_eq_some_iff.1 hp
      cases s with
      | item n => cases hc
      | key k =>
          have hlookup : members.lookup k = some c := hc
          obtain ⟨before, after, rfl, -⟩ := List.lookup_eq_some_iff.1 hlookup
          exact h (k, c) (by simp) p inner hwalk

/-- A member is what its key leads to. -/
theorem Keyed.get {members : List (String × Json)} (h : (obj members).Keyed) {k : String} {c : Json}
    (hm : (k, c) ∈ members) : (obj members).child (.key k) = some c :=
  IndexMap.lookup_eq_some_of_mem (h [] members rfl) hm

@[simp] theorem kindAt_nil (v : Json) : v.kindAt [] = some v.node := rfl

theorem kindAt_cons (v : Json) (s : Step) (p : List Step) :
    v.kindAt (s :: p) = (v.child s).bind fun c => c.kindAt p := by
  rw [kindAt, walk_cons, Option.map_bind]
  rfl

theorem kindAt_append (v : Json) (p q : List Step) :
    v.kindAt (p ++ q) = (v.walk p).bind fun c => c.kindAt q := by
  rw [kindAt, walk_append, Option.map_bind]
  rfl

/-- Only a container of the right kind has something one step on. -/
theorem node_of_child {v c : Json} {s : Step} (h : v.child s = some c) : v.node = s.container := by
  cases s <;> cases v <;> first | rfl | cases h

/-- A place is passed only through a container of the kind of the next step. -/
theorem kindAt_of_longer {v : Json} {p r : List Step} {s : Step} {n : Node}
    (h : v.kindAt (p ++ s :: r) = some n) : v.kindAt p = some s.container := by
  rw [kindAt_append, Option.bind_eq_some_iff] at h
  obtain ⟨c, hc, h⟩ := h
  rw [kindAt_cons, Option.bind_eq_some_iff] at h
  obtain ⟨d, hd, -⟩ := h
  rw [kindAt, hc, Option.map_some, node_of_child hd]

/-! ### Writing -/

/-- The empty container a path goes on into. -/
def blank : List Step → Json
  | .item _ :: _ => .arr []
  | _ => .obj []

/-- Whether a value is a container the path goes on into. -/
def fits : List Step → Json → Bool
  | [], _ => true
  | s :: _, v => v.node == s.container

/-- An array of at least `n + 1` items, its `n`-th written. -/
def setItem (items : List Json) (n : ℕ) (v : Json) : List Json :=
  (items ++ List.replicate (n + 1 - items.length) null).set n v

/-- The value with another written at a place, `none` where a member on the way is no container of the
kind the path goes on into. -/
def put : List Step → Json → Json → Option Json
  | [], value, _ => some value
  | .key k :: p, value, .obj members =>
      (put p value ((members.lookup k).getD (blank p))).map fun c =>
        .obj (IndexMap.put k c members)
  | .item n :: p, value, .arr items =>
      (put p value ((items[n]?.filter (fits p)).getD (blank p))).map fun c =>
        .arr (setItem items n c)
  | _, _, _ => none

/-- The writes of a list, one after the other. -/
def puts (writes : List (List Step × Json)) (v : Json) : Option Json :=
  writes.foldlM (fun v w => put w.1 w.2 v) v

/-- Whether a write at `q` leaves the place `p` alone: they part at two steps of one kind. -/
def beside : List Step → List Step → Bool
  | s :: q, t :: p => if s = t then beside q p else s.sameKind t
  | _, _ => false

/-- Whether a write at one step may put a null at another, in front of it. -/
def Step.pads : Step → Step → Bool
  | .item n, .item m => m < n
  | _, _ => false

/-- Whether a write at `q` puts a null at `p` where there is nothing. -/
def pads : List Step → List Step → Bool
  | s :: q, t :: p => if s = t then pads q p else p.isEmpty && s.pads t
  | _, _ => false

/-- What the writes leave at a place where nothing else is. -/
def padded (writes : List (List Step × Json)) (p : List Step) : Option Node :=
  if writes.any fun w => pads w.1 p then some .null else none

theorem child_blank (q : List Step) (s : Step) : (blank q).child s = none := by
  rcases q with - | ⟨- | -, q⟩ <;> cases s <;> simp [blank, child, get, asArray]

theorem walk_blank {q p : List Step} (h : p ≠ []) : (blank q).walk p = none := by
  cases p with
  | nil => exact absurd rfl h
  | cons s p => rw [walk_cons, child_blank, Option.bind_none]

theorem kindAt_blank {q p : List Step} (h : p ≠ []) : (blank q).kindAt p = none := by
  rw [kindAt, walk_blank h, Option.map_none]

theorem getElem?_setItem (items : List Json) (n : ℕ) (v : Json) (m : ℕ) :
    (setItem items n v)[m]? =
      if m = n then some v else items[m]?.or (if m < n then some null else none) := by
  have hlen : n < (items ++ List.replicate (n + 1 - items.length) null).length := by
    rw [List.length_append, List.length_replicate]
    omega
  by_cases hm : m = n
  · subst hm
    rw [setItem, List.getElem?_set_self hlen, if_pos rfl]
  · rw [setItem, List.getElem?_set_ne (Ne.symm hm), if_neg hm]
    by_cases hi : m < items.length
    · rw [List.getElem?_append_left hi, List.getElem?_eq_getElem hi, Option.some_or]
    · rw [List.getElem?_append_right (by omega), List.getElem?_replicate,
        List.getElem?_eq_none (by omega), Option.none_or]
      split_ifs <;> first | rfl | omega

/-- What a write does one step in: the member it goes through is written further, or made where it is
missing or is an array item of another kind; the others of that kind are as they were, nulls filled
in. -/
theorem put_cons {s : Step} {q : List Step} {v x y : Json} (h : put (s :: q) v x = some y) :
    x.node = s.container ∧ y.node = s.container ∧
      (∃ c c', put q v c = some c' ∧ y.child s = some c' ∧
        (x.child s = some c ∨ c = blank q ∧
          ∀ c₀, x.child s = some c₀ → s.isItem = true ∧ fits q c₀ = false)) ∧
      ∀ t, t ≠ s → s.sameKind t = true →
        y.child t = (x.child t).or (if s.pads t then some null else none) := by
  cases s with
  | key k =>
      cases x with
      | obj members =>
          rw [put, Option.map_eq_some_iff] at h
          obtain ⟨c', hput, rfl⟩ := h
          refine ⟨rfl, rfl, ⟨_, c', hput, by simp [child, IndexMap.lookup_put], ?_⟩, ?_⟩
          · cases hk : members.lookup k with
            | some c => exact .inl hk
            | none => exact .inr ⟨rfl, fun c₀ h₀ => absurd (hk.symm.trans h₀) (by simp)⟩
          · intro t ht hkind
            cases t with
            | key k' =>
                have hk : k' ≠ k := fun hk => ht (hk ▸ rfl)
                simp [child, IndexMap.lookup_put, hk, Step.pads]
            | item m => cases hkind
      | null | bool | num | str | arr => cases h
  | item n =>
      cases x with
      | arr items =>
          rw [put, Option.map_eq_some_iff] at h
          obtain ⟨c', hput, rfl⟩ := h
          refine ⟨rfl, rfl, ⟨_, c', hput, by simp [child, asArray, getElem?_setItem], ?_⟩, ?_⟩
          · cases hn : items[n]? with
            | none => exact .inr ⟨rfl, fun c₀ h₀ => absurd (hn.symm.trans h₀) (by simp)⟩
            | some c =>
                by_cases hf : fits q c = true
                · rw [Option.filter_some, if_pos hf]
                  exact .inl hn
                · rw [Option.filter_some, if_neg hf]
                  refine .inr ⟨rfl, fun c₀ h₀ => ⟨rfl, ?_⟩⟩
                  obtain rfl : c = c₀ := Option.some.inj (hn.symm.trans h₀)
                  exact Bool.eq_false_iff.2 hf
          · intro t ht hkind
            cases t with
            | key k' => cases hkind
            | item m =>
                have hm : m ≠ n := fun hm => ht (hm ▸ rfl)
                simp [child, asArray, getElem?_setItem, hm, Step.pads]
      | null | bool | num | str | obj => cases h

/-! ### A place after a write -/

/-- At and under the place of a write is what was written. -/
theorem walk_put_append {q : List Step} {v x y : Json} (h : put q v x = some y) (r : List Step) :
    y.walk (q ++ r) = v.walk r := by
  induction q generalizing x y with
  | nil => cases h; rfl
  | cons s q ih =>
      obtain ⟨-, -, ⟨c, c', hput, hc', -⟩, -⟩ := put_cons h
      rw [List.cons_append, walk_cons, hc', Option.bind_some, ih hput]

theorem kindAt_put_append {q : List Step} {v x y : Json} (h : put q v x = some y)
    (r : List Step) : y.kindAt (q ++ r) = v.kindAt r :=
  congrArg (Option.map node) (walk_put_append h r)

/-- On the way of a write is a container. -/
theorem kindAt_put_above {p r : List Step} {s : Step} {v x y : Json}
    (h : put (p ++ s :: r) v x = some y) : y.kindAt p = some s.container := by
  have hv := kindAt_put_append h []
  rw [List.append_nil] at hv
  exact kindAt_of_longer (hv.trans (kindAt_nil v))

/-- A container of one kind has nothing along a step of the other. -/
theorem child_of_not_sameKind {v : Json} {s t : Step} (hv : v.node = s.container)
    (h : s.sameKind t = false) : v.child t = none := by
  cases hc : v.child t with
  | none => rfl
  | some c =>
      have : s.sameKind t = true := Step.container_eq_iff.1 (hv.symm.trans (node_of_child hc))
      rw [h] at this
      cases this

/-- Where something is, nothing is at the places that part from it at steps of different kinds. -/
theorem kindAt_apart {v : Json} {p q p' : List Step} {s t : Step} {n : Node}
    (h : v.kindAt (p ++ s :: q) = some n) (hkind : s.sameKind t = false) :
    v.kindAt (p ++ t :: p') = none := by
  obtain ⟨c, hc, hnode⟩ := Option.map_eq_some_iff.1 (kindAt_of_longer h)
  rw [kindAt_append, hc, Option.bind_some, kindAt_cons, child_of_not_sameKind hnode hkind,
    Option.bind_none]

/-- A value the path does not go on into has nothing at the places beside it. -/
theorem walk_of_not_fits {c : Json} {q p : List Step} (hf : fits q c = false)
    (h : beside q p = true) : c.walk p = none := by
  match q, p with
  | s :: q, t :: p =>
      rw [walk_cons]
      cases hc : c.child t with
      | none => rfl
      | some d =>
          have hkind : s.sameKind t = true := by
            rw [beside] at h
            split at h
            · rename_i hst
              rw [hst, Step.sameKind_self]
            · exact h
          have : c.node = s.container :=
            (node_of_child hc).trans (Step.container_eq_iff.2 hkind).symm
          simp [fits, this] at hf

/-- Beside a write everything is as it was, nulls filled in. -/
theorem walk_put_beside {q p : List Step} {v x y : Json} (h : put q v x = some y)
    (hb : beside q p = true) :
    y.walk p = (x.walk p).or (if pads q p then some null else none) := by
  induction q generalizing x y p with
  | nil => cases hb
  | cons s q ih =>
      obtain ⟨-, -, ⟨c, c', hput, hc', hc⟩, hothers⟩ := put_cons h
      cases p with
      | nil => cases hb
      | cons t p =>
          rw [beside] at hb
          rw [pads, walk_cons, walk_cons]
          by_cases hst : s = t
          · subst hst
            rw [if_pos rfl] at hb ⊢
            rw [hc', Option.bind_some, ih hput hb]
            -- the member walked on from holds beside the path what was there before
            suffices hold : c.walk p = (x.child s).bind fun c => c.walk p by rw [hold]
            obtain hc | ⟨rfl, hc⟩ := hc
            · rw [hc, Option.bind_some]
            · have hp : p ≠ [] := by
                rintro rfl
                cases q <;> cases hb
              rw [walk_blank hp]
              cases h₀ : x.child s with
              | none => rfl
              | some c₀ => exact (walk_of_not_fits (hc c₀ h₀).2 hb).symm
          · rw [if_neg hst] at hb ⊢
            rw [hothers t (Ne.symm hst) hb]
            cases hx : x.child t with
            | some d =>
                cases p with
                | nil => simp
                | cons u p => simp
            | none =>
                cases p with
                | nil => cases s.pads t <;> simp
                | cons u p =>
                    cases hp : s.pads t
                    · simp
                    · simp [walk_cons, show null.child u = none by cases u <;> rfl]

theorem kindAt_put_beside {q p : List Step} {v x y : Json} (h : put q v x = some y)
    (hb : beside q p = true) :
    y.kindAt p = (x.kindAt p).or (if pads q p then some .null else none) := by
  rw [kindAt, walk_put_beside h hb, kindAt]
  cases x.walk p with
  | some w => rfl
  | none =>
      rw [Option.none_or, Option.map_none, Option.none_or]
      split <;> rfl

/-! ### How a place can lie to a write -/

/-- A place is at or under a write, above it, beside it, or parts from it at steps of different
kinds. -/
theorem lies (q p : List Step) :
    (∃ r, p = q ++ r) ∨ (∃ s r, q = p ++ s :: r) ∨ beside q p = true ∨
      ∃ m s t q' p', q = m ++ s :: q' ∧ p = m ++ t :: p' ∧ s.sameKind t = false := by
  induction q generalizing p with
  | nil => exact .inl ⟨p, rfl⟩
  | cons s q ih =>
      cases p with
      | nil => exact .inr (.inl ⟨s, q, rfl⟩)
      | cons t p =>
          by_cases hst : s = t
          · subst hst
            obtain ⟨r, rfl⟩ | ⟨u, r, rfl⟩ | h | ⟨m, u, t, q', p', rfl, rfl, h⟩ := ih p
            · exact .inl ⟨r, rfl⟩
            · exact .inr (.inl ⟨u, r, rfl⟩)
            · exact .inr (.inr (.inl (by rw [beside, if_pos rfl, h])))
            · exact .inr (.inr (.inr ⟨s :: m, u, t, q', p', rfl, rfl, h⟩))
          · cases hkind : s.sameKind t with
            | true => exact .inr (.inr (.inl (by rw [beside, if_neg hst, hkind])))
            | false => exact .inr (.inr (.inr ⟨[], s, t, q, p, rfl, rfl, hkind⟩))

/-- A write beside a place is beside everything under it. -/
theorem beside_append {q p : List Step} (h : beside q p = true) (r : List Step) :
    beside q (p ++ r) = true := by
  induction q generalizing p with
  | nil => cases h
  | cons s q ih =>
      cases p with
      | nil => cases h
      | cons t p =>
          rw [beside] at h
          rw [List.cons_append, beside]
          split at h
          · rename_i hst
            rw [if_pos hst, ih h]
          · rename_i hst
            rw [if_neg hst, h]

/-- A write beside a place is beside the places above it, or goes through them by a step of the same
kind. -/
theorem beside_or_through {q p r : List Step} {t : Step} (h : beside q (p ++ t :: r) = true) :
    beside q p = true ∨ ∃ s q', q = p ++ s :: q' ∧ s.sameKind t = true := by
  induction q generalizing p with
  | nil => cases p <;> cases h
  | cons s q ih =>
      cases p with
      | nil =>
          rw [List.nil_append, beside] at h
          refine .inr ⟨s, q, rfl, ?_⟩
          split at h
          · rename_i hst
            rw [hst, Step.sameKind_self]
          · exact h
      | cons u p =>
          rw [List.cons_append, beside] at h
          rw [beside]
          split at h
          · rename_i hsu
            subst hsu
            rw [if_pos rfl]
            obtain h | ⟨s', q', rfl, hs'⟩ := ih h
            · exact .inl h
            · exact .inr ⟨s', q', rfl, hs'⟩
          · rename_i hsu
            rw [if_neg hsu]
            exact .inl h

/-- Whether no index stands right behind another. -/
def alternates : List Step → Bool
  | .item _ :: .item _ :: _ => false
  | _ :: p => alternates p
  | [] => true

theorem not_alternates (p q : List Step) {s t : Step} (hs : s.isItem = true)
    (ht : t.isItem = true) : alternates (p ++ s :: t :: q) = false := by
  induction p with
  | nil =>
      cases s with
      | key => cases hs
      | item => cases t with
        | key => cases ht
        | item => rfl
  | cons u p ih =>
      cases hp : p ++ s :: t :: q with
      | nil => simp at hp
      | cons w p' =>
          rw [List.cons_append, hp]
          rw [hp] at ih
          cases u <;> cases w <;> first | exact ih | rfl

/-- Whether the first step is a key. -/
def keyed : List Step → Bool
  | .key _ :: _ => true
  | _ => false

/-- A write that goes through a place where something is goes on in a container of its kind, or
replaces an array item. -/
theorem kindAt_of_put_through {p q : List Step} {s : Step} {v x y : Json} {n : Node}
    (h : put (p ++ s :: q) v x = some y) (hx : x.kindAt p = some n) :
    n = s.container ∨ ∃ p' t, p = p' ++ [t] ∧ t.isItem = true := by
  induction p generalizing x y with
  | nil =>
      obtain ⟨hnode, -⟩ := put_cons h
      exact .inl (Option.some.inj (hx.symm.trans (congrArg some hnode)))
  | cons t p ih =>
      rw [List.cons_append] at h
      obtain ⟨-, -, ⟨c, c', hput, -, hc⟩, -⟩ := put_cons h
      rw [kindAt_cons, Option.bind_eq_some_iff] at hx
      obtain ⟨c₀, hc₀, hx⟩ := hx
      obtain hc | ⟨-, hc⟩ := hc
      · obtain rfl : c₀ = c := Option.some.inj (hc₀.symm.trans hc)
        obtain hn | ⟨p', u, rfl, hu⟩ := ih hput hx
        · exact .inl hn
        · exact .inr ⟨t :: p', u, rfl, hu⟩
      · obtain ⟨ht, hf⟩ := hc c₀ hc₀
        cases p with
        | nil => exact .inr ⟨[], t, rfl, ht⟩
        | cons u p =>
            have := kindAt_of_longer (p := []) hx
            rw [kindAt_nil] at this
            simp [fits, Option.some.inj this] at hf

/-- Before a write nothing is at the places that part from it at steps of different kinds. -/
theorem walk_of_put_apart {p q p' : List Step} {s t : Step} {v x y : Json} (h : put (p ++ s :: q) v x = some y)
    (hkind : s.sameKind t = false) (hq : alternates (p ++ s :: q) = true)
    (hp : alternates (p ++ t :: p') = true) : x.walk (p ++ t :: p') = none := by
  cases hx : x.walk (p ++ t :: p') with
  | none => rfl
  | some w =>
      exfalso
      have hat : x.kindAt (p ++ t :: p') = some w.node := congrArg (Option.map node) hx
      obtain hn | ⟨p'', i, rfl, hi⟩ := kindAt_of_put_through h (kindAt_of_longer hat)
      · rw [Step.container_eq_iff.1 hn.symm] at hkind
        cases hkind
      · -- behind an index there is a key in both
        rw [List.append_assoc, List.singleton_append] at hq hp
        cases hs : s.isItem with
        | true => rw [not_alternates p'' q hi hs] at hq; cases hq
        | false =>
            have ht : t.isItem = true := by
              rw [Step.sameKind, hs] at hkind
              cases t <;> first | rfl | cases hkind
            rw [not_alternates p'' p' hi ht] at hp
            cases hp

/-- **The frame of a write**: at a place that is neither on its way nor under it a write leaves what is there,
or fills in a null where nothing is. -/
theorem walk_put_of_not_prefix {q p : List Step} {v x y : Json} (h : put q v x = some y)
    (hq : alternates q = true) (hp : alternates p = true) (hunder : ¬ q <+: p) (habove : ¬ p <+: q) :
    y.walk p = x.walk p ∨ x.walk p = none ∧ y.walk p = some null := by
  obtain ⟨r, rfl⟩ | ⟨s, r, rfl⟩ | hbeside | ⟨m, s, t, q, p, rfl, rfl, hkind⟩ := lies q p
  · exact absurd (List.prefix_append q r) hunder
  · exact absurd (List.prefix_append p (s :: r)) habove
  · rw [walk_put_beside h hbeside]
    cases x.walk p with
    | some w => exact .inl rfl
    | none =>
        rw [Option.none_or]
        split
        · exact .inr ⟨rfl, rfl⟩
        · exact .inl rfl
  · have hafter : y.kindAt (m ++ t :: p) = none := by
      have hwritten := kindAt_put_append h []
      rw [List.append_nil] at hwritten
      exact kindAt_apart (hwritten.trans (kindAt_nil v)) hkind
    rw [walk_of_put_apart h hkind hq hp]
    exact .inl (Option.map_eq_none_iff.1 hafter)

/-! ### A place after a list of writes -/

theorem puts_cons {w : List Step × Json} {writes : List (List Step × Json)} {x y : Json} :
    puts (w :: writes) x = some y ↔ ∃ z, put w.1 w.2 x = some z ∧ puts writes z = some y := by
  rw [puts, List.foldlM_cons]
  exact Option.bind_eq_some_iff

theorem puts_append {older later : List (List Step × Json)} {x y : Json} :
    puts (older ++ later) x = some y ↔ ∃ z, puts older x = some z ∧ puts later z = some y := by
  rw [puts, List.foldlM_append]
  exact Option.bind_eq_some_iff

theorem padded_cons (w : List Step × Json) (writes : List (List Step × Json)) (p : List Step) :
    padded (w :: writes) p = (if pads w.1 p then some .null else none).or (padded writes p) := by
  rw [padded, padded, List.any_cons]
  cases pads w.1 p with
  | true => rfl
  | false => rw [Bool.false_or, if_neg Bool.false_ne_true, Option.none_or]

/-- Beside all the writes everything is as it was, nulls filled in. -/
theorem kindAt_puts_beside {writes : List (List Step × Json)} {p : List Step} {x y : Json}
    (h : puts writes x = some y) (hb : ∀ w ∈ writes, beside w.1 p = true) :
    y.kindAt p = (x.kindAt p).or (padded writes p) := by
  induction writes generalizing x with
  | nil =>
      obtain rfl : x = y := Option.some.inj h
      exact (Option.or_none).symm
  | cons w writes ih =>
      obtain ⟨z, hput, h⟩ := puts_cons.1 h
      rw [ih h fun w' hw' => hb w' (List.mem_cons_of_mem w hw'),
        kindAt_put_beside hput (hb w List.mem_cons_self), padded_cons, Option.or_assoc]

/-- The writes that leave a place alone, behind one that parts from it at a step of another kind, leave
that one's own place alone. -/
theorem beside_of_apart {writes : List (List Step × Json)} {p q p' : List Step} {s t : Step}
    {x y : Json} (h : puts writes x = some y) (hx : x.kindAt p = some s.container)
    (hkind : s.sameKind t = false) (hq : alternates (p ++ s :: q) = true)
    (ha : ∀ w ∈ writes, alternates w.1 = true)
    (hb : ∀ w ∈ writes, beside w.1 (p ++ t :: p') = true) :
    ∀ w ∈ writes, beside w.1 (p ++ s :: q) = true := by
  induction writes generalizing x with
  | nil => simp
  | cons w writes ih =>
      obtain ⟨z, hput, h⟩ := puts_cons.1 h
      obtain ⟨hbw, hb⟩ := List.forall_mem_cons.1 hb
      obtain ⟨haw, ha⟩ := List.forall_mem_cons.1 ha
      have hw : beside w.1 p = true := by
        obtain hw | ⟨u, q', hw, hu⟩ := beside_or_through hbw
        · exact hw
        · -- a write through the container by the other kind of step fails, or goes from item to item
          exfalso
          have hsu : s.isItem ≠ u.isItem := by
            intro hsu
            rw [Step.sameKind, hsu, ← Step.sameKind, hu] at hkind
            cases hkind
          rw [hw] at hput haw
          obtain hn | ⟨p'', i, rfl, hi⟩ := kindAt_of_put_through hput hx
          · exact hsu (beq_iff_eq.1 (Step.container_eq_iff.1 hn))
          · rw [List.append_assoc, List.singleton_append] at hq haw
            cases hs : s.isItem with
            | true => rw [not_alternates p'' q hi hs] at hq; cases hq
            | false =>
                rw [hs] at hsu
                rw [not_alternates p'' q' hi (Bool.not_eq_false _ ▸ Ne.symm hsu)] at haw
                cases haw
      refine List.forall_mem_cons.2 ⟨beside_append hw _, ih h ?_ ha hb⟩
      rw [kindAt_put_beside hput hw, hx, Option.some_or]

/-- Writes that start with a key leave an object an object, with a member under each key that had one
or is written under. -/
theorem puts_keyed {writes : List (List Step × Json)} {members : List (String × Json)} {y : Json}
    (h : puts writes (obj members) = some y) (hkeyed : ∀ w ∈ writes, keyed w.1 = true)
    (hnodup : (members.map Prod.fst).Nodup) :
    ∃ members', y = obj members' ∧ (members'.map Prod.fst).Nodup ∧
      ∀ k, (members'.lookup k).isSome ↔
        (members.lookup k).isSome ∨ ∃ w ∈ writes, w.1.head? = some (.key k) := by
  induction writes generalizing members with
  | nil =>
      obtain rfl : obj members = y := Option.some.inj h
      exact ⟨members, rfl, hnodup, by simp⟩
  | cons w writes ih =>
      obtain ⟨z, hput, h⟩ := puts_cons.1 h
      obtain ⟨hw, hrest⟩ := List.forall_mem_cons.1 hkeyed
      obtain ⟨q, v⟩ := w
      match q, hw with
      | .key k' :: q, _ =>
          rw [put, Option.map_eq_some_iff] at hput
          obtain ⟨c, -, rfl⟩ := hput
          obtain ⟨members', rfl, hnodup', hsome⟩ := ih h hrest (IndexMap.nodup_put hnodup)
          refine ⟨members', rfl, hnodup', fun k => ?_⟩
          rw [hsome, IndexMap.lookup_put, List.exists_mem_cons_iff]
          by_cases hk : k = k'
          · simp [hk]
          · have hk' : ¬ k' = k := fun h => hk h.symm
            simp [hk, hk']

/-- Either all of a list have a property, or there is a last one that has not. -/
theorem forall_or_last {α : Type*} (P : α → Prop) (l : List α) :
    (∀ a ∈ l, P a) ∨
      ∃ older a later, l = older ++ a :: later ∧ ¬P a ∧ ∀ b ∈ later, P b := by
  induction l with
  | nil => exact .inl (by simp)
  | cons a l ih =>
      obtain h | ⟨older, b, later, rfl, hb, hlater⟩ := ih
      · by_cases ha : P a
        · exact .inl (List.forall_mem_cons.2 ⟨ha, h⟩)
        · exact .inr ⟨[], a, l, rfl, ha, h⟩
      · exact .inr ⟨a :: older, b, later, rfl, hb, hlater⟩

/-- The writes give back what a value holds under a key: where a write has the last word, it writes what
the value holds there, and where none writes, the value holds nothing but a null filled in. -/
structure GivenBack (writes : List (List Step × Json)) (document : Json) (k : String) : Prop where
  kept : ∀ older q v later r p, writes = older ++ (q, v) :: later → q ++ r = .key k :: p →
    (∀ w ∈ later, beside w.1 (q ++ r) = true) →
    document.kindAt (q ++ r) = (v.kindAt r).or (padded later (q ++ r))
  whole : ∀ p, (∀ w ∈ writes, beside w.1 (.key k :: p) = true) →
    document.kindAt (.key k :: p) = padded writes (.key k :: p)

/-- What is left at a place a write has the last word on. -/
theorem kindAt_puts_last {older later : List (List Step × Json)} {q r : List Step} {v x y : Json}
    (h : puts (older ++ (q, v) :: later) x = some y)
    (hb : ∀ w ∈ later, beside w.1 (q ++ r) = true) :
    y.kindAt (q ++ r) = (v.kindAt r).or (padded later (q ++ r)) := by
  obtain ⟨z, -, h⟩ := puts_append.1 h
  obtain ⟨z', hput, h⟩ := puts_cons.1 h
  rw [kindAt_puts_beside h hb, kindAt_put_append hput]

/-- Into the empty object, the writes make under a key exactly what a value holds there if and only if
they give it back. -/
theorem kindAt_puts_iff {writes : List (List Step × Json)} {document result : Json} {k : String}
    (h : puts writes (obj []) = some result) (hkeyed : ∀ w ∈ writes, keyed w.1 = true)
    (ha : ∀ w ∈ writes, alternates w.1 = true) :
    (∀ p, result.kindAt (.key k :: p) = document.kindAt (.key k :: p)) ↔
      GivenBack writes document k := by
  have hwhole (p : List Step) (hb : ∀ w ∈ writes, beside w.1 (.key k :: p) = true) :
      result.kindAt (.key k :: p) = padded writes (.key k :: p) := by
    have hempty : (obj []).kindAt (.key k :: p) = none := kindAt_blank (q := []) (by simp)
    rw [kindAt_puts_beside h hb, hempty, Option.none_or]
  constructor
  · intro hsame
    refine ⟨fun older q v later r p hw hk hb => ?_, fun p hb => ?_⟩
    · subst hw
      rw [← kindAt_puts_last h hb, hk, hsame]
    · rw [← hsame, hwhole p hb]
  · intro hback p
    obtain hb | ⟨older, ⟨q, v⟩, later, hw, hnot, hb⟩ :=
      forall_or_last (fun w => beside w.1 (.key k :: p) = true) writes
    · rw [hwhole p hb, hback.whole p hb]
    -- the last write that does not leave the place alone, and what it leaves at its own place
    have hlast (r : List Step) (hb : ∀ w ∈ later, beside w.1 (q ++ r) = true) :
        result.kindAt (q ++ r) = (v.kindAt r).or (padded later (q ++ r)) := by
      subst hw
      exact kindAt_puts_last h hb
    have hown (hb : ∀ w ∈ later, beside w.1 q = true) : result.kindAt q = some v.node := by
      simpa using hlast [] (by simpa using hb)
    have hsame (hb : ∀ w ∈ later, beside w.1 q = true) (hk : ∃ p', q = .key k :: p') :
        document.kindAt q = some v.node := by
      obtain ⟨p', hk⟩ := hk
      simpa using hback.kept older q v later [] p' hw (by simpa using hk) (by simpa using hb)
    obtain ⟨r, hr⟩ | ⟨s, r, hr⟩ | hbeside | ⟨m, s, t, q', p', hq, hp, hkind⟩ :=
      lies q (.key k :: p)
    · rw [hr] at hb ⊢
      rw [hlast r hb, hback.kept older q v later r p hw hr.symm hb]
    · have hbq : ∀ w ∈ later, beside w.1 q = true := by
        intro w hwl
        rw [hr]
        exact beside_append (hb w hwl) _
      have h₁ := hown hbq
      have h₂ := hsame hbq ⟨p ++ s :: r, hr⟩
      rw [hr] at h₁ h₂
      rw [kindAt_of_longer h₁, kindAt_of_longer h₂]
    · exact absurd hbeside hnot
    · have hmem : (q, v) ∈ writes := hw ▸ by simp
      have hbq : ∀ w ∈ later, beside w.1 q = true := by
        subst hw
        obtain ⟨z, -, hlater⟩ := puts_append.1 h
        obtain ⟨z', hput, hlater⟩ := puts_cons.1 hlater
        have hat := ha _ hmem
        simp only [hq] at hput hat
        rw [hq]
        rw [hp] at hb
        exact beside_of_apart hlater (kindAt_put_above hput) hkind hat
          (fun w hwl => ha w (by simp [hwl])) hb
      have hk : ∃ p', q = .key k :: p' := by
        cases m with
        | nil =>
            obtain ⟨rfl, -⟩ := List.cons.inj hp
            have hfirst := hkeyed _ hmem
            rw [hq] at hfirst
            cases s with
            | key => cases hkind
            | item => cases hfirst
        | cons u m =>
            obtain ⟨rfl, -⟩ := List.cons.inj hp
            exact ⟨_, hq⟩
      have h₁ := hown hbq
      have h₂ := hsame hbq hk
      rw [hq] at h₁ h₂
      rw [hp, kindAt_apart h₁ hkind, kindAt_apart h₂ hkind]

end Json
