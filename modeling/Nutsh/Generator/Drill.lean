/-
Drilling from a kind into the lists below its entities.

The path of an entity is the beginning of the lists below it, without the names of the placeholders.  So a parent
has fewer placeholders than its child, and the climb to the root ends.  A chain of as many ancestors as there are
placeholders has one for each of them.

* `Standing`, `Laid` — where a kind stands, and what the generator says of it;
* `giveIds_nodup` — no two kinds have one id;
* `laid_parse` — the kinds of a document are laid out so;
* `Supplies` — ancestors that supply the placeholders of a list path one by one;
* `drill_supplies` — the ancestors of every kind that is reached from its parent do.
-/
import Nutsh.Generator.Sound
import Nutsh.Generator.Paths
import Nutsh.Lib.Climb
import Nutsh.Placeholders

set_option relaxedAutoImplicit false
set_option autoImplicit false

namespace Nutsh

open Generator

/-- Where a kind stands among the others. -/
structure Standing where
  id : String
  listPath : String
  getPath : Option String
  parent : Option String

def Generator.KindModel.standing (k : KindModel) : Standing :=
  { id := k.id, listPath := k.listPath, getPath := k.getPath, parent := k.parent }

def Kind.standing (k : Kind) : Standing :=
  { id := k.id, listPath := k.listPath, getPath := k.getPath, parent := k.parent }

/-- The parent of a kind of the catalog. -/
def Kind.ParentOf (catalog : Catalog) (k p : Kind) : Prop := k ∈ catalog ∧ k.parent.bind catalog.kind = some p

/-- The ancestor in this place, the root in place 0, has entities whose path ends in the placeholder of the same
place of the list path.  So what fills the list path fills with its beginning the path of an entity of the
ancestor, and the list is below that entity. -/
def SuppliesAt (listPath : String) (i : ℕ) (a : Kind) : Prop :=
  ∃ gp rest, a.getPath = some gp ∧ Text.endsWith "\x7d" gp = true ∧ placeholderCount gp = i + 1 ∧
    Generator.normalize listPath = Generator.normalize gp ++ "/" ++ rest ∧
    ∀ values : List String, values.length = placeholderCount listPath →
      ∃ entity below, fillPlaceholders gp (values.take (i + 1)) = some entity ∧
        fillPlaceholders rest (values.drop (i + 1)) = some below ∧
        fillPlaceholders listPath values = some (entity ++ "/" ++ below)

/-- There is one ancestor for each placeholder of the list path. -/
def Supplies (chain : List Kind) (listPath : String) : Prop :=
  chain.length = placeholderCount listPath ∧ ∀ i a, chain[i]? = some a → SuppliesAt listPath i a

namespace Generator

/-! ### Ids -/

theorem freeId_taken {taken : List String} {stem : String} {fuel n : ℕ} (h : freeId taken stem fuel n ∈ taken) :
    ∀ i ≤ fuel, s!"{stem}~{n + i}" ∈ taken := by
  induction fuel generalizing n with
  | zero =>
      intro i hi
      obtain rfl := Nat.le_zero.1 hi
      exact h
  | succ fuel ih =>
      rw [freeId] at h
      split_ifs at h with htaken
      · intro i hi
        cases i with
        | zero => exact List.contains_iff_mem.1 htaken
        | succ i =>
            rw [← Nat.add_assoc, Nat.add_right_comm]
            exact ih h i (Nat.le_of_succ_le_succ hi)
      · exact absurd (List.contains_iff_mem.2 h) htaken

theorem numbered_injective (stem : String) : Function.Injective fun n : ℕ => s!"{stem}~{n}" := by
  intro m n h
  have hdigits : Nat.toDigits 10 m = Nat.toDigits 10 n := by
    have hlist := congrArg String.toList h
    simpa [toString, Nat.repr] using hlist
  rw [← Nat.ofDigitChars_ten_toDigits (n := m), hdigits, Nat.ofDigitChars_ten_toDigits]

/-- Of more numbers than ids that are taken one is free. -/
theorem freeId_not_mem (taken : List String) (stem : String) (n : ℕ) :
    freeId taken stem taken.length n ∉ taken := by
  intro h
  have htaken := freeId_taken h
  have hnodup : ((List.range (taken.length + 1)).map fun i => s!"{stem}~{n + i}").Nodup :=
    List.nodup_range.map fun i j hij => Nat.add_left_cancel (numbered_injective stem hij)
  have hsub : ((List.range (taken.length + 1)).map fun i => s!"{stem}~{n + i}") ⊆ taken := by
    intro id hid
    obtain ⟨i, hi, rfl⟩ := List.mem_map.1 hid
    exact htaken i (Nat.le_of_lt_succ (List.mem_range.1 hi))
  have hle := (hnodup.subperm hsub).length_le
  rw [List.length_map, List.length_range] at hle
  exact Nat.not_succ_le_self _ hle

theorem idFor_not_mem (version : String) (taken : List String) (k : KindModel) : idFor version taken k ∉ taken := by
  have hfree : ∀ id, (if taken.contains id then freeId taken id taken.length 2 else id) ∉ taken := by
    intro id
    split_ifs with htaken
    · exact freeId_not_mem taken id 2
    · exact fun h => htaken (List.contains_iff_mem.2 h)
  exact hfree _

/-- **No two kinds have one id.** -/
theorem giveIds_nodup (version : String) (taken : List String) (kinds : List KindModel) :
    ((giveIds version taken kinds).map KindModel.id).Nodup ∧
      ∀ id ∈ (giveIds version taken kinds).map KindModel.id, id ∉ taken := by
  induction kinds generalizing taken with
  | nil => exact ⟨List.nodup_nil, fun _ h => by cases h⟩
  | cons k kinds ih =>
      obtain ⟨hnodup, hfree⟩ := ih (idFor version taken k :: taken)
      refine ⟨List.nodup_cons.2 ⟨fun h => hfree _ h List.mem_cons_self, hnodup⟩, List.forall_mem_cons.2 ⟨?_, ?_⟩⟩
      · exact idFor_not_mem version taken k
      · exact fun id h hin => hfree id h (List.mem_cons_of_mem _ hin)

/-! ### Where the kinds of a document stand -/

/-- What the generator says of where the kinds of a document stand. -/
structure Laid (doc : Document) (l : List Standing) : Prop where
  ids : (l.map Standing.id).Nodup
  paths : ∀ s ∈ l, s.listPath ∈ doc.paths.map Prod.fst ∧ s.getPath = getPathOf doc.paths s.listPath
  parents : ∀ s ∈ l, ∀ id, s.parent = some id → ∃ p ∈ l, p.id = id ∧
    ∃ gp, p.getPath = some gp ∧ Text.startsWith (Generator.normalize gp ++ "/") (Generator.normalize s.listPath) = true

theorem Laid.perm {doc : Document} {l l' : List Standing} (h : Laid doc l) (hperm : l'.Perm l) : Laid doc l' where
  ids := (hperm.map _).nodup_iff.2 h.ids
  paths s hs := h.paths s (hperm.mem_iff.1 hs)
  parents s hs id hid := by
    obtain ⟨p, hp, hp'⟩ := h.parents s (hperm.mem_iff.1 hs) id hid
    exact ⟨p, hperm.mem_iff.2 hp, hp'⟩

/-- The longest prefix is one of the paths. -/
theorem longestPrefix_spec {getPaths : List (String × String)} {norm : String} {best : ℕ × String}
    (h : longestPrefix getPaths norm = some best) :
    ∃ gp, (gp, best.2) ∈ getPaths ∧ Text.startsWith (gp ++ "/") norm = true := by
  have hall : ∀ (l : List (String × String)) (start : Option (ℕ × String)), (∀ e ∈ l, e ∈ getPaths) →
      (∀ b, start = some b → ∃ gp, (gp, b.2) ∈ getPaths ∧ Text.startsWith (gp ++ "/") norm = true) →
      ∀ b, l.foldl (fun best e =>
        if Text.startsWith (e.1 ++ "/") norm && best.all fun b => b.1 < e.1.utf8ByteSize then
          some (e.1.utf8ByteSize, e.2)
        else best) start = some b → ∃ gp, (gp, b.2) ∈ getPaths ∧ Text.startsWith (gp ++ "/") norm = true := by
    intro l
    induction l with
    | nil => exact fun start _ hstart => hstart
    | cons e l ih =>
        intro start hl hstart
        obtain ⟨he, hl⟩ := List.forall_mem_cons.1 hl
        refine ih _ hl fun b hb => ?_
        dsimp only at hb
        split_ifs at hb with hbest
        · obtain rfl := Option.some.inj hb
          exact ⟨e.1, he, (Bool.and_eq_true_iff.1 hbest).1⟩
        · exact hstart b hb
  exact hall getPaths none (fun _ he => he) (fun _ hb => by cases hb) best h

theorem of_mem_assignParents {kinds : List KindModel} {k : KindModel} (h : k ∈ assignParents kinds) :
    ∃ k' ∈ kinds, k.listPath = k'.listPath ∧ k.getPath = k'.getPath ∧
      ∀ id, k.parent = some id → k'.parent = some id ∨ ∃ p ∈ kinds, p.id = id ∧
        ∃ gp, p.getPath = some gp ∧ Text.startsWith (Generator.normalize gp ++ "/") (Generator.normalize k.listPath) =
          true := by
  obtain ⟨k', hk', rfl⟩ := List.mem_map.1 h
  refine ⟨k', hk', ?_⟩
  split_ifs with hplaceholders
  · refine ⟨rfl, rfl, fun id hid => .inr ?_⟩
    obtain ⟨best, hbest, rfl⟩ := Option.map_eq_some_iff.1 hid
    obtain ⟨gp, hgp, hstart⟩ := longestPrefix_spec hbest
    obtain ⟨p, hp, hgp⟩ := List.mem_filterMap.1 hgp
    obtain ⟨g, hg, heq⟩ := Option.map_eq_some_iff.1 hgp
    obtain ⟨rfl, hid⟩ := Prod.mk.inj heq
    exact ⟨p, hp, hid, g, hg, hstart⟩
  · exact ⟨rfl, rfl, fun id hid => .inl hid⟩

/-- The parents change nothing else. -/
theorem map_assignParents {γ : Type} {f : KindModel → γ} (hf : ∀ k parent, f { k with parent } = f k)
    (kinds : List KindModel) : (assignParents kinds).map f = kinds.map f := by
  rw [assignParents, List.map_map]
  refine List.map_congr_left fun k _ => ?_
  dsimp only [Function.comp]
  split_ifs
  · exact hf _ _
  · rfl

theorem of_mem_giveIds {version : String} {taken : List String} {kinds : List KindModel} {k : KindModel}
    (h : k ∈ giveIds version taken kinds) : ∃ k' ∈ kinds, ∃ id, k = { k' with id } := by
  induction kinds generalizing taken with
  | nil => cases h
  | cons k' kinds ih =>
      rcases List.mem_cons.1 h with rfl | h
      · exact ⟨k', List.mem_cons_self, _, rfl⟩
      · obtain ⟨k', hk', hid⟩ := ih h
        exact ⟨k', List.mem_cons_of_mem _ hk', hid⟩

theorem laid_listKinds (doc : Document) : Laid doc ((listKinds doc).map KindModel.standing) where
  ids := by
    rw [List.map_map, listKinds, map_assignParents fun _ _ => rfl]
    exact (giveIds_nodup _ _ _).1
  paths := by
    refine List.forall_mem_map.2 fun k hk => ?_
    obtain ⟨k', hk', hlist, hget, -⟩ := of_mem_assignParents hk
    obtain ⟨k'', hk'', id, rfl⟩ := of_mem_giveIds hk'
    obtain ⟨hmem, hfound, -⟩ := of_mem_collectListKinds ((List.mem_insertionSort _).1 hk'')
    change k.listPath ∈ _ ∧ k.getPath = getPathOf _ k.listPath
    rw [hlist, hget]
    exact ⟨hmem, hfound⟩
  parents := by
    refine List.forall_mem_map.2 fun k hk id hid => ?_
    obtain ⟨k', hk', hlist, hget, hparent⟩ := of_mem_assignParents hk
    obtain ⟨k'', hk'', _, rfl⟩ := of_mem_giveIds hk'
    obtain ⟨-, -, hroot⟩ := of_mem_collectListKinds ((List.mem_insertionSort _).1 hk'')
    rcases hparent id hid with hparent | ⟨p, hp, hpid, gp, hgp, hstart⟩
    · cases hroot.symm.trans hparent
    · -- the parent has its own parent by then, and the same id and path
      have hassigned : (p.id, p.getPath) ∈ (listKinds doc).map fun k => (k.id, k.getPath) := by
        rw [listKinds, map_assignParents fun _ _ => rfl]
        exact List.mem_map_of_mem hp
      obtain ⟨q, hq, heq⟩ := List.mem_map.1 hassigned
      obtain ⟨hqid, hqget⟩ := Prod.mk.inj heq
      exact ⟨q.standing, List.mem_map_of_mem hq, hqid.trans hpid, gp, hqget.trans hgp, hstart⟩

theorem standing_withActions {doc : Document} {k k' : KindModel} (h : withActions doc k = .ok k') :
    k'.standing = k.standing := by
  rw [withActions] at h
  obtain ⟨actions, -, h⟩ := Passes.bind_eq_ok.1 h
  obtain ⟨rate, -, h⟩ := Passes.bind_eq_ok.1 h
  obtain rfl := Except.ok.inj h
  rfl

theorem standing_mapM {doc : Document} {kinds own : List KindModel} (h : kinds.mapM (withActions doc) = .ok own) :
    own.map KindModel.standing = kinds.map KindModel.standing := by
  have hall := Passes.forall₂_of_mapM h
  clear h
  induction hall with
  | nil => rfl
  | cons hk _ ih => exact congrArg₂ List.cons (standing_withActions hk) ih

theorem standing_attachStep {schemas : Json} {claimed : List String} {s t : List KindModel × List ActionModel}
    {e : String × Json} (h : attachStep schemas claimed s e = .ok t) :
    t.1.map KindModel.standing = s.1.map KindModel.standing := by
  rcases attachStep_cases h with ⟨rfl, -⟩ | ⟨pre, operation, a, -, -, -, -, rfl⟩
  · rfl
  · rcases place_cases pre a s with ⟨hplace, -⟩ | ⟨tail, k, -, -, hplace⟩
    · rw [hplace]
    · rw [hplace, List.map_map]
      refine List.map_congr_left fun k _ => ?_
      dsimp only [Function.comp]
      split_ifs <;> rfl

/-- **The kinds of a document are laid out.**  Their actions leave them where they are. -/
theorem laid_parse {doc : Document} {kinds : List KindModel} {unattached : List ActionModel}
    (h : parseNamespaceFull doc = .ok (kinds, unattached)) : Laid doc (kinds.map KindModel.standing) := by
  rw [parseNamespaceFull] at h
  obtain ⟨own, hown, h⟩ := Passes.bind_eq_ok.1 h
  obtain ⟨attached, hattached, h⟩ := Passes.bind_eq_ok.1 h
  rw [attachOrphanActions] at hattached
  obtain ⟨t, hfold, hattached⟩ := Passes.bind_eq_ok.1 hattached
  obtain rfl := Except.ok.inj hattached
  obtain ⟨rfl, rfl⟩ := Prod.mk.inj (Except.ok.inj h)
  have hkept : t.1.map KindModel.standing = own.map KindModel.standing := Run.exec_inv
    (I := fun s : List KindModel × List ActionModel => s.1.map KindModel.standing = own.map KindModel.standing)
    (fun s e t hs hstep => (standing_attachStep (ok_of_toOption hstep)).trans hs) rfl (Passes.exec_of_foldlM hfold)
  refine (laid_listKinds doc).perm ?_
  rw [← standing_mapM hown, ← hkept]
  exact (List.perm_insertionSort _ _).map _

/-! ### The beginnings of list paths -/

/-- The path of an entity, when placeholders fill segments. -/
theorem normalizeList_getPath {doc : Document} (hwhole : ∀ e ∈ doc.paths, WholeSegments e.1) {path gp : String}
    (hpath : path ∈ doc.paths.map Prod.fst) (h : getPathOf doc.paths path = some gp) :
    Braced gp.toList ∧ Text.endsWith "\x7d" gp = true ∧
      normalizeList false gp.toList = normalizeList false path.toList ++ ['/', '{', '}'] := by
  have hbraced : ∀ p ∈ doc.paths.map Prod.fst, Braced p.toList :=
    List.forall_mem_map.2 fun e he => braced_of_wholeSegments (hwhole e he)
  obtain ⟨hmem, name, hgp, hname⟩ := getPathOf_spec h
  have hall := hbraced gp hmem
  refine ⟨hall, endsWith_iff.2 ⟨path.toList ++ '/' :: '{' :: name, by rw [hgp]; simp⟩, ?_⟩
  rw [hgp] at hall ⊢
  have hlast := ((hbraced path hpath).of_append hall).tail (by decide)
  -- a closing brace in the name would end the placeholder before the end of the path
  have hclose : '}' ∉ name := by
    intro hin
    obtain ⟨front, back, rfl, hfront⟩ := List.eq_append_cons_of_mem hin
    rw [List.append_assoc, List.cons_append] at hlast
    have hopen : '{' ∉ back ++ ['}'] := fun hmem => hname <| by
      rcases List.mem_append.1 hmem with hmem | hmem
      · exact List.mem_append_right _ (List.mem_cons_of_mem _ hmem)
      · exact absurd hmem (by decide)
    exact (hlast.behind hfront).not_mem_close hopen (List.mem_append_right _ List.mem_cons_self)
  rw [normalizeList_append (hbraced path hpath), normalizeList_char (by decide) (by decide),
    normalizeList_pair hname hclose]
  rfl

end Generator

/-- A kind and one whose entities' path begins its list path. -/
def Above (k a : Kind) : Prop :=
  ∃ gp, a.getPath = some gp ∧ Braced gp.toList ∧ Text.endsWith "\x7d" gp = true ∧
    normalizeList false gp.toList = normalizeList false a.listPath.toList ++ ['/', '{', '}'] ∧
    normalizeList false gp.toList ++ ['/'] <+: normalizeList false k.listPath.toList

theorem Above.trans {k a b : Kind} (h : Above k a) (h' : Above a b) : Above k b := by
  obtain ⟨gp, -, -, -, hgp, hprefix⟩ := h
  obtain ⟨gp', hgp', hbraced, hend, hentity, hprefix'⟩ := h'
  refine ⟨gp', hgp', hbraced, hend, hentity, hprefix'.trans (.trans ?_ hprefix)⟩
  rw [hgp, List.append_assoc]
  exact List.prefix_append _ _

theorem placeholderCount_eq (path : String) : placeholderCount path = (normalizeList false path.toList).count '{' :=
  (count_normalizeList false path.toList).symm

theorem Above.count {k a : Kind} (h : Above k a) : ∃ gp, a.getPath = some gp ∧
    placeholderCount gp = placeholderCount a.listPath + 1 ∧ placeholderCount gp ≤ placeholderCount k.listPath := by
  obtain ⟨gp, hget, -, -, hgp, hprefix⟩ := h
  refine ⟨gp, hget, ?_, ?_⟩
  · rw [placeholderCount_eq, hgp, List.count_append, placeholderCount_eq]
    rfl
  · rw [placeholderCount_eq, placeholderCount_eq]
    exact ((List.prefix_append _ _).trans hprefix).sublist.count_le _

/-- An ancestor has fewer placeholders. -/
theorem Above.lt {k a : Kind} (h : Above k a) : placeholderCount a.listPath < placeholderCount k.listPath := by
  obtain ⟨gp, -, hcount, hle⟩ := h.count
  omega

section
variable {doc : Document} {catalog : Catalog}

/-- The parent of a kind is above it. -/
theorem above_of_parentOf (hwhole : ∀ e ∈ doc.paths, WholeSegments e.1)
    (hlaid : Laid doc (catalog.map Kind.standing)) {k p : Kind} (h : Kind.ParentOf catalog k p) :
    p ∈ catalog ∧ Above k p := by
  obtain ⟨hk, hp⟩ := h
  obtain ⟨id, hparent, hfind⟩ := Option.bind_eq_some_iff.1 hp
  have hmem := List.mem_of_find?_eq_some hfind
  have hid : p.id = id := beq_iff_eq.1 (List.find?_some (p := fun k : Kind => k.id == id) hfind)
  refine ⟨hmem, ?_⟩
  obtain ⟨s, hs, hsid, gp, hgp, hstart⟩ := hlaid.parents _ (List.mem_map_of_mem hk) id hparent
  -- the kind of the id is the one that is found
  obtain rfl : s = p.standing :=
    List.inj_on_of_nodup_map hlaid.ids hs (List.mem_map_of_mem hmem) (hsid.trans hid.symm)
  obtain ⟨hpath, hget⟩ := hlaid.paths _ hs
  obtain ⟨hbraced, hend, hentity⟩ := normalizeList_getPath hwhole hpath (hget.symm.trans hgp)
  obtain ⟨rest, hrest⟩ := startsWith_iff.1 hstart
  refine ⟨gp, hgp, hbraced, hend, hentity, rest, ?_⟩
  rw [String.toList_append, toList_normalize, toList_normalize] at hrest
  exact hrest.symm

/-- What fills a list path fills the path of an entity above it and what is behind that. -/
theorem suppliesAt_of_above {k a : Kind} (hk : Braced k.listPath.toList) (h : Above k a) :
    SuppliesAt k.listPath (placeholderCount a.listPath) a := by
  obtain ⟨gp', hget', hcount, -⟩ := h.count
  obtain ⟨gp, hget, hbraced, hend, -, rest, hrest⟩ := h
  obtain rfl : gp' = gp := Option.some.inj (hget'.symm.trans hget)
  have hbelow : Generator.normalize k.listPath = Generator.normalize gp' ++ "/" ++ String.ofList rest := by
    refine String.toList_injective ?_
    rw [String.toList_append, String.toList_append, toList_normalize, toList_normalize, @String.toList_ofList rest,
      ← hrest]
    rfl
  refine ⟨gp', String.ofList rest, hget, hend, hcount, hbelow, fun values hvalues => ?_⟩
  rw [← hcount]
  exact fillPlaceholders_below hk hbraced hbelow hvalues

theorem parentChain_go (n : ℕ) (start : Option Kind) :
    Kind.parentChain.go catalog n start = Climb.climb (fun p => p.parent.bind catalog.kind) n start := by
  induction n generalizing start with
  | zero => rfl
  | succ n ih =>
      cases start with
      | none => rfl
      | some p => exact congrArg (p :: ·) (ih _)

theorem length_of_fromParent {k : Kind} {display : String} (h : k.reach catalog = .fromParent display) :
    (k.parentChain catalog).length = placeholderCount k.listPath := by
  rw [Kind.reach] at h
  split_ifs at h with hneeds
  have hlength := (Bool.or_eq_false_iff.1 (Bool.eq_false_of_not_eq_true hneeds)).2
  rw [bne_eq_false_iff_eq] at hlength
  exact hlength.trans List.count_eq_length_filter.symm

/-- Each of the ancestors is above the one before it. -/
theorem isChain_above (hparent : ∀ k p, Kind.ParentOf catalog k p → p ∈ catalog ∧ Above k p) {k : Kind}
    (hk : k ∈ catalog) :
    List.IsChain Above
      (k :: Climb.climb (fun p => p.parent.bind catalog.kind) catalog.length (k.parent.bind catalog.kind)) := by
  have hchain : List.IsChain (fun a b : Kind => a.parent.bind catalog.kind = some b)
      (k :: Climb.climb (fun p => p.parent.bind catalog.kind) catalog.length (k.parent.bind catalog.kind)) :=
    Climb.isChain_climb catalog.length k
  have hmem := Climb.mem_of_isChain (fun a ha b hb => (hparent a b ⟨ha, hb⟩).1) hk hchain
  exact hchain.imp_of_mem_imp fun a b ha _ hb => (hparent a b ⟨hmem a ha, hb⟩).2

/-- **Drilling supplies what a child list needs.**  No kind is above itself, and the ancestors of a kind end with
one that has no parent.  When they are as many as the placeholders of the list path, they supply them one by
one. -/
theorem drill_supplies {kinds : List KindModel} {unattached : List ActionModel}
    (h : parseNamespaceFull doc = .ok (kinds, unattached)) (hwhole : ∀ e ∈ doc.paths, WholeSegments e.1)
    (hcatalog : catalog.map Kind.standing = kinds.map KindModel.standing) :
    (∀ k, ¬ Relation.TransGen (Kind.ParentOf catalog) k k) ∧
      ∀ k ∈ catalog, (((k.parentChain catalog).head?.getD k).parent.bind catalog.kind) = none ∧
        ∀ display, k.reach catalog = .fromParent display → Supplies (k.parentChain catalog) k.listPath := by
  have hlaid : Laid doc (catalog.map Kind.standing) := hcatalog ▸ laid_parse h
  have hbraced : ∀ k ∈ catalog, Braced k.listPath.toList := by
    intro k hk
    obtain ⟨e, he, hpath⟩ := List.mem_map.1 (hlaid.paths _ (List.mem_map_of_mem hk)).1
    exact braced_of_wholeSegments (show WholeSegments k.standing.listPath from hpath ▸ hwhole e he)
  have hparent : ∀ k p, Kind.ParentOf catalog k p → p ∈ catalog ∧ Above k p :=
    fun k p => above_of_parentOf hwhole hlaid
  refine ⟨Climb.not_transGen_self (r := fun k : Kind => placeholderCount k.listPath)
    fun k p hp => (hparent k p hp).2.lt, fun k hk => ⟨?_, fun display hreach => ?_⟩⟩
  · rw [Kind.parentChain, List.head?_reverse, parentChain_go, ← List.getLastD_eq_getLast?]
    exact Climb.climb_ends (r := fun k : Kind => placeholderCount k.listPath)
      (fun k hk p hp => (hparent k p ⟨hk, hp⟩).imp_right Above.lt) hk
  · have hlength := length_of_fromParent hreach
    refine ⟨hlength, fun i a ha => ?_⟩
    rw [Kind.parentChain, List.length_reverse, parentChain_go] at hlength
    rw [Kind.parentChain, parentChain_go] at ha
    have hchain := isChain_above hparent hk
    have hrank : placeholderCount a.listPath = i := Climb.rank_of_length_eq
      (r := fun k : Kind => placeholderCount k.listPath) (hchain.imp fun _ _ => Above.lt) hlength ha
    have habove : Above k a := by
      have hmem := List.mem_reverse.1 (List.mem_of_getElem? ha)
      have : Trans Above Above Above := ⟨Above.trans⟩
      exact List.rel_of_pairwise_cons (List.isChain_iff_pairwise.1 hchain) hmem
    rw [← hrank]
    exact suppliesAt_of_above (hbraced k hk) habove

end

namespace Generator

/-- The document with the disks of a virtual machine. -/
def disksDocument : Document :=
  { vmsDocument with paths := vmsDocument.paths ++
    [("/vmm/v4.0/config/vms/{vmExtId}/disks", .obj
      [("get", .obj [("responses", .obj [("200", .obj [("content", .obj
        [("application/json", .obj [("schema", .obj [])])])])])])])] }

/-- A kind that stands where another does. -/
def rendered (k : KindModel) : Kind :=
  { id := k.id, display := k.id, listPath := k.listPath, getPath := k.getPath, parent := k.parent }

/-- The disks are reached from the virtual machine they are of. -/
theorem drill_supplies_disks : ∃ kinds unattached, parseNamespaceFull disksDocument = .ok (kinds, unattached) ∧
    ∃ k ∈ kinds.map rendered, k.reach (kinds.map rendered) = .fromParent "vmm.config.vms" ∧
      Supplies (k.parentChain (kinds.map rendered)) k.listPath := by
  have hok : ((parseNamespaceFull disksDocument).toOption.any fun parsed =>
      (parsed.1.map rendered).any fun k =>
        k.reach (parsed.1.map rendered) == .fromParent "vmm.config.vms") = true := by decide +kernel
  obtain ⟨⟨kinds, unattached⟩, hparse, hany⟩ := exists_ok_of_any hok
  obtain ⟨k, hk, hreach⟩ := List.any_eq_true.1 hany
  have hreach := beq_iff_eq.1 hreach
  have hwhole : ∀ e ∈ disksDocument.paths, WholeSegments e.1 := by decide +kernel
  have hcatalog : (kinds.map rendered).map Kind.standing = kinds.map KindModel.standing := List.map_map
  exact ⟨kinds, unattached, hparse, k, hk, hreach,
    ((drill_supplies hparse hwhole hcatalog).2 k hk).2 _ hreach⟩

end Generator

end Nutsh
