import HiddenNames.Proofs.Assoc
import HiddenNames.Proofs.Containers.Walk
import HiddenNames.Surface.Layout

/-!
What a generated text depends on. Of the types around a target and of the target's place, all but
the members counts; of the target and the types inside of it, the hidden names count in order, and
nested types in the order of their metadata names. Two targets that agree in this have one text,
whichever way they were described.
-/

namespace HiddenNames

/-! Lists in order. -/

theorem nodup_eraseDups {α : Type} [DecidableEq α] (xs : List α) : xs.eraseDups.Nodup := by
  induction length : xs.length using Nat.strong_induction_on generalizing xs with
  | _ n ih =>
    cases xs with
    | nil => exact List.nodup_nil
    | cons x rest =>
      rw [List.eraseDups_cons, List.nodup_cons, List.mem_eraseDups]
      refine ⟨by simp, ih _ ?_ _ rfl⟩
      rw [← length, List.length_cons, Nat.lt_succ_iff]
      exact List.length_filter_le _ _

theorem mergeSort_sorted {α : Type} (key : α → String) (xs : List α) :
    (xs.mergeSort fun a b => decide (key a ≤ key b)).Pairwise fun a b => key a ≤ key b := by
  refine List.Pairwise.imp (fun h => of_decide_eq_true h) (List.pairwise_mergeSort ?_ ?_ xs)
  · intro a b c first second
    exact decide_eq_true (String.le_trans (of_decide_eq_true first) (of_decide_eq_true second))
  · intro a b
    rcases String.le_total (key a) (key b) with below | above
    · simp [below]
    · simp [above]

theorem mergeSort_eq_of_perm {α : Type} (key : α → String) {xs ys : List α} (perm : xs.Perm ys)
    (distinct : (xs.map key).Nodup) :
    xs.mergeSort (fun a b => decide (key a ≤ key b)) =
      ys.mergeSort fun a b => decide (key a ≤ key b) := by
  refine List.Perm.eq_of_pairwise ?_ (mergeSort_sorted key xs) (mergeSort_sorted key ys)
    ((List.mergeSort_perm _ _).trans (perm.trans (List.mergeSort_perm _ _).symm))
  intro a b inXs inYs below above
  exact List.inj_on_of_nodup_map distinct (List.mem_mergeSort.mp inXs)
    (perm.mem_iff.mpr (List.mem_mergeSort.mp inYs)) (String.le_antisymm below above)

theorem inOrder_congr {xs ys : List String} (same : ∀ name, name ∈ xs ↔ name ∈ ys) :
    inOrder xs = inOrder ys := by
  have perm : xs.eraseDups.Perm ys.eraseDups := by
    refine (List.perm_ext_iff_of_nodup (nodup_eraseDups xs) (nodup_eraseDups ys)).mpr fun name => ?_
    rw [List.mem_eraseDups, List.mem_eraseDups, same]
  exact mergeSort_eq_of_perm id perm (by rw [List.map_id]; exact nodup_eraseDups xs)

theorem mem_inOrder {names : List String} {name : String} :
    name ∈ inOrder names ↔ name ∈ names := by
  rw [inOrder, List.mem_mergeSort, List.mem_eraseDups]

theorem inOrder_increasing (names : List String) : (inOrder names).Pairwise (· < ·) := by
  have distinct : (inOrder names).Nodup :=
    (List.mergeSort_perm _ _).nodup_iff.mpr (nodup_eraseDups names)
  refine ((mergeSort_sorted id names.eraseDups).and distinct).imp ?_
  rintro a b ⟨below, apart⟩
  by_contra notBelow
  exact apart (String.le_antisymm below notBelow)

theorem inOrder_inOrder (names : List String) : inOrder (inOrder names) = inOrder names :=
  inOrder_congr fun _ => mem_inOrder

/-! Heads. -/

namespace TypeHead

/-- All that a declaration says about itself but its members. -/
def face (h : TypeHead) : TypeHead := { h with members := [] }

def hidden (tier : Tier) (h : TypeHead) : List String :=
  inOrder ((h.members.filter (Member.isHidden tier)).map Member.name)

def hiddenMember (name : String) : Member := { name, kind := .field, visibility := .priv }

def settled (tier : Tier) (h : TypeHead) : TypeHead :=
  { h with members := (h.hidden tier).map hiddenMember }

theorem congr_of_face {α : Type} {f : TypeHead → α} (faces : ∀ h, f (TypeHead.face h) = f h)
    {a b : TypeHead} (same : a.face = b.face) : f a = f b := by
  rw [← faces, same, faces]

theorem settled_congr {tier tier' : Tier} {a b : TypeHead} (face : a.face = b.face)
    (names : a.hidden tier = b.hidden tier') : a.settled tier = b.settled tier' := by
  have whole : ∀ (tier : Tier) (h : TypeHead), h.settled tier =
      { h.face with members := (h.hidden tier).map hiddenMember } := fun _ _ => rfl
  rw [whole, whole, face, names]

theorem not_synthesized_of_hidden {tier : Tier} {m : Member} (h : m.isHidden tier = true) :
    isSynthesizedName m.name = false := by
  cases tier <;>
    simp only [Member.isHidden, Member.isHiddenInSource, Member.isHiddenOutside,
      Member.isSynthesized, Bool.and_eq_true, Bool.not_eq_true'] at h
  all_goals exact h.1.2

theorem hidden_settled (tier : Tier) (h : TypeHead) :
    (h.settled tier).hidden .metadata = h.hidden tier := by
  have kept : ((h.settled tier).members.filter (Member.isHidden .metadata)) =
      (h.hidden tier).map hiddenMember := by
    refine List.filter_eq_self.mpr fun m held => ?_
    obtain ⟨name, among, rfl⟩ := List.mem_map.mp held
    obtain ⟨original, listed, rfl⟩ := List.mem_map.mp (mem_inOrder.mp among)
    have ownName := not_synthesized_of_hidden (List.mem_filter.mp listed).2
    simp only [Member.isHidden, Member.isHiddenOutside, Member.isSynthesized, hiddenMember, ownName]
    rfl
  rw [hidden, kept, List.map_map]
  have names : Member.name ∘ hiddenMember = id := rfl
  rw [names, List.map_id, hidden, inOrder_inOrder]

/-- What is read off a declaration besides its members and its constraints. -/
def outline (h : TypeHead) : TypeHead := { h with members := [], constraints := [] }

structure Recasts (f : TypeHead → TypeHead) (tier tier' : Tier) : Prop where
  outline : ∀ h, (f h).outline = h.outline
  hidden : ∀ h, (f h).hidden tier' = h.hidden tier

theorem recasts_settled (tier : Tier) : Recasts (settled tier) tier .metadata :=
  ⟨fun _ => rfl, hidden_settled tier⟩

/-- What is read off the outline of a declaration is the same for declarations of one outline. -/
theorem congr_of_outline {α : Type} {g : TypeHead → α} (reads : ∀ h, g (outline h) = g h)
    {a b : TypeHead} (same : a.outline = b.outline) : g a = g b := by
  rw [← reads, same, reads]

variable {f : TypeHead → TypeHead}

theorem name_of_outline (kept : ∀ h, (f h).outline = h.outline) (h : TypeHead) :
    (f h).name = h.name := congr_of_outline (g := name) (fun _ => rfl) (kept h)

theorem metadataName_of_outline (kept : ∀ h, (f h).outline = h.outline) (h : TypeHead) :
    (f h).metadataName = h.metadataName :=
  congr_of_outline (g := metadataName) (fun _ => rfl) (kept h)

end TypeHead

/-! Trees. -/

namespace TypeTree

mutual

def mapHeads (f : TypeHead → TypeHead) : TypeTree → TypeTree
  | .node head nested => .node (f head) (mapAll f nested)

def mapAll (f : TypeHead → TypeHead) : List TypeTree → List TypeTree
  | [] => []
  | t :: rest => mapHeads f t :: mapAll f rest

end

/-- What counts of a tree: the types with names of their own, in the order of their metadata names,
and their hidden names. -/
def settled (tier : Tier) (t : TypeTree) : TypeTree := t.arranged.mapHeads (TypeHead.settled tier)

theorem eta (t : TypeTree) : .node t.head t.nested = t := by
  cases t
  rfl

theorem mapAll_eq (f : TypeHead → TypeHead) (ts : List TypeTree) :
    mapAll f ts = ts.map (mapHeads f) := by
  induction ts with
  | nil => rfl
  | cons t rest ih => rw [mapAll, ih, List.map_cons]

@[simp]
theorem mapHeads_head (f : TypeHead → TypeHead) (t : TypeTree) :
    (t.mapHeads f).head = f t.head := by
  cases t
  rfl

@[simp]
theorem mapHeads_nested (f : TypeHead → TypeHead) (t : TypeTree) :
    (t.mapHeads f).nested = mapAll f t.nested := by
  cases t
  rfl

@[simp]
theorem settled_head (tier : Tier) (t : TypeTree) :
    (t.settled tier).head = t.head.settled tier := by
  simp [settled]

theorem arrangedAll_eq (ts : List TypeTree) :
    arrangedAll ts = (ts.filter fun t => !isSynthesizedName t.head.name).map arranged := by
  induction ts with
  | nil => rfl
  | cons t rest ih =>
    rw [arrangedAll, ih, List.filter_cons]
    cases isSynthesizedName t.head.name <;> rfl

def cast (f : TypeHead → TypeHead) (t : TypeTree) : TypeTree := t.arranged.mapHeads f

section cast

variable {f g : TypeHead → TypeHead}

@[simp]
theorem cast_head (f : TypeHead → TypeHead) (t : TypeTree) : (t.cast f).head = f t.head := by
  simp [cast]

theorem cast_node (kept : ∀ h, (f h).outline = h.outline) (head : TypeHead)
    (nested : List TypeTree) :
    (TypeTree.node head nested).cast f = .node (f head)
      (((nested.filter fun t => !isSynthesizedName t.head.name).map (cast f)).mergeSort
        fun a b => decide (a.head.metadataName ≤ b.head.metadataName)) := by
  rw [cast, arranged, mapHeads, mapAll_eq, arrangedAll_eq]
  rw [List.map_mergeSort (f := mapHeads f)
    (s := fun a b => decide (a.head.metadataName ≤ b.head.metadataName)), List.map_map]
  · rfl
  · intro a _ b _
    simp [TypeHead.metadataName_of_outline kept]

/-- Nodes whose heads and nested types are cast alike, the latter in any order, are cast alike. -/
theorem cast_eq_of_perm (keptF : ∀ h, (f h).outline = h.outline)
    (keptG : ∀ h, (g h).outline = h.outline) {head head' : TypeHead}
    {nested nested' : List TypeTree}
    (heads : f head = g head') (inside : (nested.map (cast f)).Perm (nested'.map (cast g)))
    (distinct : (nested.map fun t => t.head.metadataName).Nodup) :
    (TypeTree.node head nested).cast f = (TypeTree.node head' nested').cast g := by
  -- Casting changes no name, so the types with names of their own may be picked afterwards.
  have picked : ∀ {f : TypeHead → TypeHead}, (∀ h, (f h).outline = h.outline) →
      ∀ ts : List TypeTree, (ts.filter fun t => !isSynthesizedName t.head.name).map (cast f) =
        (ts.map (cast f)).filter fun t => !isSynthesizedName t.head.name := by
    intro f kept ts
    rw [List.filter_map]
    congr 2
    funext t
    simp [TypeHead.name_of_outline kept]
  have names : (nested.map (cast f)).map (fun t => t.head.metadataName) =
      nested.map fun t => t.head.metadataName := by
    rw [List.map_map]
    refine List.map_congr_left fun t _ => ?_
    simp [TypeHead.metadataName_of_outline keptF]
  have keys : (((nested.map (cast f)).filter fun t => !isSynthesizedName t.head.name).map
      fun t => t.head.metadataName).Nodup := by
    rw [← names] at distinct
    exact distinct.sublist (List.filter_sublist.map _)
  have own := inside.filter fun t => !isSynthesizedName t.head.name
  have sorted := mergeSort_eq_of_perm (fun t : TypeTree => t.head.metadataName) own keys
  rw [cast_node keptF, cast_node keptG, heads, picked keptF, picked keptG]
  exact congrArg (TypeTree.node _) sorted

end cast

/-- Nodes of one face whose hidden names and nested types are the same, the latter in any order, are
settled alike. -/
theorem settled_eq_of_perm {tier tier' : Tier} {head head' : TypeHead}
    {nested nested' : List TypeTree} (heads : head.settled tier = head'.settled tier')
    (inside : (nested.map (settled tier)).Perm (nested'.map (settled tier')))
    (distinct : (nested.map fun t => t.head.metadataName).Nodup) :
    (TypeTree.node head nested).settled tier = (TypeTree.node head' nested').settled tier' :=
  cast_eq_of_perm (f := TypeHead.settled tier) (g := TypeHead.settled tier') (fun _ => rfl)
    (fun _ => rfl) heads inside distinct

end TypeTree

/-! Views. -/

namespace TypeView

/-- A view without members and nested types, whichever way it was described. -/
def bare (v : TypeView) : TypeView where
  tier := .metadata
  inSource := v.inSource
  space? := v.space?
  outer := v.outer.map TypeHead.face
  tree := .node v.head.face []

/-- Two views agree in all that a generated text depends on. -/
structure ShowsSame (v w : TypeView) : Prop where
  bare : v.bare = w.bare
  tree : v.tree.settled v.tier = w.tree.settled w.tier

variable {v w : TypeView}

theorem bare_chain (v : TypeView) : v.bare.chain = v.chain.map TypeHead.face := by
  rw [chain, chain, List.map_append]
  rfl

theorem bare_child (h : v.bare = w.bare) {t t' : TypeTree} (face : t.head.face = t'.head.face) :
    (v.child t).bare = (w.child t').bare := by
  have chains : v.chain.map TypeHead.face = w.chain.map TypeHead.face := by
    rw [← bare_chain, ← bare_chain, h]
  have space : v.bare.space? = w.bare.space? := by rw [h]
  have inSource : v.bare.inSource = w.bare.inSource := by rw [h]
  rw [bare, bare, TypeView.mk.injEq]
  refine ⟨rfl, inSource, space, chains, ?_⟩
  rw [head, head, child, child, face]

theorem hiddenNames_eq (v : TypeView) : v.hiddenNames = v.head.hidden v.tier := rfl

structure SameOutline (v w : TypeView) : Prop where
  space : v.space? = w.space?
  outer : v.outer.map TypeHead.outline = w.outer.map TypeHead.outline
  head : v.head.outline = w.head.outline

namespace SameOutline

theorem chain (h : v.SameOutline w) :
    v.chain.map TypeHead.outline = w.chain.map TypeHead.outline := by
  rw [TypeView.chain, TypeView.chain, List.map_append, List.map_append, h.outer, List.map_singleton,
    List.map_singleton, h.head]

theorem chain_map (h : v.SameOutline w) {α : Type} {g : TypeHead → α}
    (reads : ∀ head, g (TypeHead.outline head) = g head) : v.chain.map g = w.chain.map g := by
  have through : g ∘ TypeHead.outline = g := funext reads
  rw [← through, ← List.map_map, h.chain, List.map_map]

theorem child (h : v.SameOutline w) {t t' : TypeTree} (head : t.head.outline = t'.head.outline) :
    (v.child t).SameOutline (w.child t') := ⟨h.space, h.chain, head⟩

theorem fullName (h : v.SameOutline w) : v.fullName = w.fullName := by
  rw [TypeView.fullName, TypeView.fullName, fullNameOf, fullNameOf, h.space,
    h.chain_map (g := TypeHead.metadataName) fun _ => rfl]

theorem identity (h : v.SameOutline w) : v.identity = w.identity := by
  rw [TypeView.identity, TypeView.identity, spaceParts, spaceParts, h.space,
    h.chain_map (g := TypeHead.metadataName) fun _ => rfl]

theorem isExposed (h : v.SameOutline w) (outside : Bool) (exposure : Exposure) :
    v.isExposed outside exposure = w.isExposed outside exposure := by
  have own : v.head.visibility = w.head.visibility :=
    TypeHead.congr_of_outline (g := TypeHead.visibility) (fun _ => rfl) h.head
  have around : (v.outer.all fun head => head.visibility.isBroad outside) =
      w.outer.all fun head => head.visibility.isBroad outside := by
    have outlines := congrArg (List.all · fun head => head.visibility.isBroad outside) h.outer
    rw [List.all_map, List.all_map] at outlines
    exact outlines
  rw [TypeView.isExposed, TypeView.isExposed, own, around]

theorem claimParameters_outline (scope : Identifier.Scope) (heads : List TypeHead) :
    claimParameters scope (heads.map TypeHead.outline) = claimParameters scope heads := by
  induction heads generalizing scope with
  | nil => rfl
  | cons head rest ih =>
    simp only [List.map_cons, claimParameters, ih]
    rfl

theorem claimed (h : v.SameOutline w) (scope : Identifier.Scope) :
    claimParameters scope v.chain = claimParameters scope w.chain := by
  rw [← claimParameters_outline, h.chain, claimParameters_outline]

theorem parameterized_map (h : v.SameOutline w) {α : Type} {g : TypeHead × List String → α}
    (reads : ∀ head names, g (TypeHead.outline head, names) = g (head, names)) :
    v.parameterized.map g = w.parameterized.map g := by
  have through : ∀ u : TypeView, u.parameterized.map g =
      ((u.chain.map TypeHead.outline).zip
        (claimParameters (Identifier.Scope.ofReserved []) u.chain)).map g := by
    intro u
    rw [List.zip_map_left, List.map_map]
    exact List.map_congr_left fun (head, names) _ => (reads head names).symm
  rw [through, through, h.chain, h.claimed]

theorem expression (h : v.SameOutline w) : v.expression = w.expression := by
  simp only [TypeView.expression]
  rw [h.space, h.parameterized_map fun _ _ => rfl]

theorem stubLevels (h : v.SameOutline w) : v.stubLevels = w.stubLevels :=
  h.parameterized_map fun _ _ => rfl

theorem parameters (h : v.SameOutline w) :
    v.parameterized.flatMap Prod.snd = w.parameterized.flatMap Prod.snd := by
  rw [List.flatMap_def, List.flatMap_def, h.parameterized_map fun _ _ => rfl]

theorem clauses (h : v.SameOutline w)
    (same : v.chain.map constraintClauses = w.chain.map constraintClauses) :
    (v.parameterized.flatMap fun (head, names) => constraintClauses head names) =
      w.parameterized.flatMap fun (head, names) => constraintClauses head names := by
  have through : ∀ u : TypeView,
      (u.parameterized.flatMap fun (head, names) => constraintClauses head names) =
        ((u.chain.map constraintClauses).zip
          (claimParameters (Identifier.Scope.ofReserved []) u.chain)).flatMap
            fun (clauses, names) => clauses names := by
    intro u
    rw [List.zip_map_left, List.flatMap_map]
    rfl
  rw [through, through, same, h.claimed]

end SameOutline

theorem bare_outline (v : TypeView) : v.bare.SameOutline v := by
  refine ⟨rfl, ?_, rfl⟩
  rw [bare, List.map_map]
  rfl

theorem ShowsSame.outline (h : v.ShowsSame w) : v.SameOutline w := by
  have own := v.bare_outline
  have other := w.bare_outline
  rw [← h.bare] at other
  exact ⟨own.space.symm.trans other.space, own.outer.symm.trans other.outer,
    own.head.symm.trans other.head⟩

theorem ShowsSame.clauses (h : v.ShowsSame w) :
    v.chain.map constraintClauses = w.chain.map constraintClauses := by
  have faces : ∀ u : TypeView,
      u.bare.chain.map constraintClauses = u.chain.map constraintClauses := by
    intro u
    rw [bare_chain, List.map_map]
    rfl
  rw [← faces, h.bare, faces]

theorem ShowsSame.inSource (h : v.ShowsSame w) : v.inSource = w.inSource := by
  have same : v.bare.inSource = w.bare.inSource := by rw [h.bare]
  exact same

theorem ShowsSame.hiddenNames (h : v.ShowsSame w) : v.hiddenNames = w.hiddenNames := by
  have heads : v.head.settled v.tier = w.head.settled w.tier := by
    rw [head, head, ← TypeTree.settled_head, h.tree, TypeTree.settled_head]
  rw [hiddenNames_eq, hiddenNames_eq, ← TypeHead.hidden_settled v.tier, heads,
    TypeHead.hidden_settled w.tier]

end TypeView

/-! Containers. -/

namespace ContainerTree

open TypeTree (mapHeads mapAll)

variable {outlook : Outlook} {f g : TypeHead → TypeHead}

theorem canonicalName_congr {path path' : List TypeHead}
    (outlines : path.map TypeHead.outline = path'.map TypeHead.outline) :
    canonicalName path = canonicalName path' := by
  have segments : ∀ heads : List TypeHead,
      heads.map TypeHead.chainSegment = (heads.map TypeHead.outline).map TypeHead.chainSegment := by
    intro heads
    rw [List.map_map]
    rfl
  rw [canonicalName, canonicalName, segments, outlines, ← segments]

/-- Types of one outline with the same hidden names get the same container. -/
theorem add_congr {v w : TypeView} (outlines : v.SameOutline w)
    (names : v.hiddenNames = w.hiddenNames) {path path' : List TypeHead}
    (paths : path.map TypeHead.outline = path'.map TypeHead.outline) (tree : ContainerTree)
    (restricted : Bool) (parent? : Option String) :
    tree.add v path restricted parent? = tree.add w path' restricted parent? := by
  have simpleName : v.head.name = w.head.name :=
    TypeHead.congr_of_outline (g := TypeHead.name) (fun _ => rfl) outlines.head
  have length : path.length = path'.length := by
    rw [← List.length_map TypeHead.outline, paths, List.length_map]
  simp only [add, insert, canonicalName_congr paths, outlines.fullName, simpleName, length, names]

mutual

/-- A walk over a tree with its heads recast finds what a walk over the tree finds. -/
theorem visit_recast {owner owner' : TypeView} (outlines : owner'.SameOutline owner)
    (recasts : TypeHead.Recasts f owner.tier owner'.tier) {path path' : List TypeHead}
    (paths : path'.map TypeHead.outline = path.map TypeHead.outline) (parent? : Option String)
    (tree : ContainerTree) (t : TypeTree) :
    visit outlook owner' path' parent? tree (t.mapHeads f) =
      visit outlook owner path parent? tree t := by
  cases t with
  | node head nested =>
    have inside : (owner'.child ((TypeTree.node head nested).mapHeads f)).SameOutline
        (owner.child (.node head nested)) := outlines.child (recasts.outline head)
    have names : (owner'.child ((TypeTree.node head nested).mapHeads f)).hiddenNames =
        (owner.child (.node head nested)).hiddenNames := recasts.hidden head
    have restricted : (owner'.child ((TypeTree.node head nested).mapHeads f)).isRestricted
          outlook.outside outlook.exposure =
        (owner.child (.node head nested)).isRestricted outlook.outside outlook.exposure := by
      rw [TypeView.isRestricted, inside.isExposed, ← TypeView.isRestricted]
    have longer : (path' ++ [f head]).map TypeHead.outline =
        (path ++ [head]).map TypeHead.outline := by
      rw [List.map_append, List.map_append, paths, List.map_singleton, recasts.outline,
        List.map_singleton]
    rw [mapHeads] at inside names restricted ⊢
    simp only [visit, restricted]
    by_cases skipped : (parent?.isNone && !(owner.child (.node head nested)).isRestricted
        outlook.outside outlook.exposure) = true
    · rw [if_pos skipped, if_pos skipped]
      exact visitAll_recast inside recasts rfl none tree nested
    · rw [if_neg skipped, if_neg skipped, add_congr inside names longer]
      exact visitAll_recast inside recasts longer _ _ nested

theorem visitAll_recast {owner owner' : TypeView} (outlines : owner'.SameOutline owner)
    (recasts : TypeHead.Recasts f owner.tier owner'.tier) {path path' : List TypeHead}
    (paths : path'.map TypeHead.outline = path.map TypeHead.outline) (parent? : Option String)
    (tree : ContainerTree) (ts : List TypeTree) :
    visitAll outlook owner' path' parent? tree (mapAll f ts) =
      visitAll outlook owner path parent? tree ts := by
  cases ts with
  | nil => rfl
  | cons t rest =>
    rw [mapAll, visitAll, visitAll, visit_recast outlines recasts paths parent? tree t]
    exact visitAll_recast outlines recasts paths parent? _ rest

end

theorem ofTarget_congr_of_cast {v w : TypeView} (outlines : v.SameOutline w)
    (recasts : TypeHead.Recasts f v.tier .metadata) (recasts' : TypeHead.Recasts g w.tier .metadata)
    (same : v.tree.cast f = w.tree.cast g) (outlook : Outlook) (reserved : List String) :
    ofTarget v outlook reserved = ofTarget w outlook reserved := by
  have walk : ∀ {f : TypeHead → TypeHead} {u : TypeView}, v.SameOutline u →
      TypeHead.Recasts f u.tier .metadata → ofTarget u outlook reserved =
        visitAll outlook { v with tier := .metadata } [] none (empty reserved)
          (u.tree.cast f).nested := by
    intro f u outlines recasts
    have based : ({ v with tier := .metadata } : TypeView).SameOutline u :=
      ⟨outlines.space, outlines.outer, outlines.head⟩
    rw [TypeTree.cast, TypeTree.mapHeads_nested]
    exact (visitAll_recast based recasts rfl none (empty reserved) u.tree.arranged.nested).symm
  rw [walk ⟨rfl, rfl, rfl⟩ recasts, walk outlines recasts', same]

theorem ofTarget_congr {v w : TypeView} (h : v.ShowsSame w) (outlook : Outlook)
    (reserved : List String) : ofTarget v outlook reserved = ofTarget w outlook reserved :=
  ofTarget_congr_of_cast h.outline (TypeHead.recasts_settled v.tier)
    (TypeHead.recasts_settled w.tier) h.tree outlook reserved

end ContainerTree

namespace Resolved

variable {r r' : Resolved}

/-- The unit of a target depends on its outline, its hidden names, its clauses and its
containers. -/
theorem unit_of_outline (outlines : r.view.SameOutline r'.view)
    (inSource : r.view.inSource = r'.view.inSource)
    (names : r.view.hiddenNames = r'.view.hiddenNames)
    (clauses : r.view.chain.map constraintClauses = r'.view.chain.map constraintClauses)
    (found : ∀ outlook reserved, ContainerTree.ofTarget r.view outlook reserved =
      ContainerTree.ofTarget r'.view outlook reserved)
    (access : Access) (exposure : Exposure) (identity? : Option String) :
    r.unit access exposure identity? = r'.unit access exposure identity? := by
  have exposed := outlines.isExposed true exposure
  have identityOr : r.identityOr identity? = r'.identityOr identity? := by
    rw [Resolved.identityOr, Resolved.identityOr, outlines.identity]
  have containers : r.containers exposure identity? = r'.containers exposure identity? := by
    rw [Resolved.containers, Resolved.containers, identityOr, inSource, found]
  have visibility : r.wrapperVisibility access exposure = r'.wrapperVisibility access exposure := by
    rw [wrapperVisibility, wrapperVisibility, exposed]
  have needed : r.needsStub exposure = r'.needsStub exposure := by
    rw [needsStub, needsStub, inSource, exposed]
  simp only [unit, names, outlines.space, outlines.fullName, outlines.expression,
    outlines.stubLevels, outlines.parameters, outlines.clauses clauses, identityOr, containers,
    visibility, needed]

theorem unit_congr (h : r.view.ShowsSame r'.view) (access : Access) (exposure : Exposure)
    (identity? : Option String) :
    r.unit access exposure identity? = r'.unit access exposure identity? :=
  unit_of_outline h.outline h.inSource h.hiddenNames h.clauses
    (fun outlook reserved => ContainerTree.ofTarget_congr h outlook reserved)
    access exposure identity?

theorem render_congr (h : r.view.ShowsSame r'.view) (access : Access) (exposure : Exposure)
    (identity? : Option String) :
    r.render access exposure identity? = r'.render access exposure identity? := by
  rw [render, render, unit_congr h]

end Resolved

end HiddenNames
