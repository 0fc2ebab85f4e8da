import HiddenNames.Proofs.Containers.Forest
import HiddenNames.Proofs.Identifier.Apart

/-!
What containers are called. The walk claims one name for each covered type, in the order in which it
comes to them, and only for the first of several types that have one full name. So the names of an
arena are those that one scope hands out for the joined names of the types with a container.
-/

namespace HiddenNames

namespace Descendant

/-- The joined name of the types from the first restricted one down to a descendant. -/
def canonical (outlook : Outlook) (d : Descendant) : String :=
  canonicalName ((inside outlook d.above ++ [d.view]).map TypeView.head)

end Descendant

namespace ContainerTree

variable {outlook : Outlook} {reserved : List String} {tree : ContainerTree}

/-- Descendants whose full name is not known yet, and of those with one full name the first. -/
def newOf (known : List String) : List Descendant → List Descendant
  | [] => []
  | d :: rest =>
    if d.fullName ∈ known then newOf known rest else d :: newOf (known ++ [d.fullName]) rest

theorem newOf_append (known : List String) (ds ds' : List Descendant) :
    newOf known (ds ++ ds') =
      newOf known ds ++ newOf (known ++ (newOf known ds).map Descendant.fullName) ds' := by
  induction ds generalizing known with
  | nil => rw [List.nil_append, newOf, List.nil_append, List.map_nil, List.append_nil]
  | cons d rest ih =>
    rw [List.cons_append, newOf, newOf]
    by_cases there : d.fullName ∈ known
    · rw [if_pos there, if_pos there]
      exact ih known
    · rw [if_neg there, if_neg there, ih, List.map_cons, List.cons_append, List.append_assoc,
        List.singleton_append]

structure Claims (outlook : Outlook) (tree : ContainerTree) (ds : List Descendant)
    (tree' : ContainerTree) : Prop where
  identities : tree'.identities =
    tree.identities ++ (newOf tree.identities ds).map Descendant.fullName
  names : tree'.names = tree.names ++
    (tree.scope.claimAll ((newOf tree.identities ds).map (Descendant.canonical outlook))).1
  scope : tree'.scope =
    (tree.scope.claimAll ((newOf tree.identities ds).map (Descendant.canonical outlook))).2

theorem Claims.nil (tree : ContainerTree) : Claims outlook tree [] tree :=
  ⟨(List.append_nil _).symm, (List.append_nil _).symm, rfl⟩

theorem Claims.append {tree' tree'' : ContainerTree} {ds ds' : List Descendant}
    (h : Claims outlook tree ds tree') (h' : Claims outlook tree' ds' tree'') :
    Claims outlook tree (ds ++ ds') tree'' := by
  constructor
  · rw [h'.identities, newOf_append, List.map_append, h.identities, List.append_assoc]
  · rw [h'.names, newOf_append, List.map_append, Identifier.Scope.claimAll_append, h.names,
      h.identities, h.scope, List.append_assoc]
  · rw [h'.scope, newOf_append, List.map_append, Identifier.Scope.claimAll_append, h.identities,
      h.scope]

theorem add_claims (tree : ContainerTree) (d : Descendant) {chain : List TypeHead}
    (named : canonicalName chain = d.canonical outlook) (restricted : Bool)
    (parent? : Option String) :
    Claims outlook tree [d] (tree.add d.view chain restricted parent?).2 := by
  cases there : tree.nodeFor? d.view.fullName with
  | some node =>
    have known : d.fullName ∈ tree.identities := by
      refine Decidable.byContradiction fun fresh => ?_
      rw [Descendant.fullName, ← nodeFor_none_iff, there] at fresh
      cases fresh
    have old : newOf tree.identities [d] = [] := by rw [newOf, if_pos known, newOf]
    simp only [ContainerTree.add, there]
    constructor
    · simp [old]
    · simp [old, Identifier.Scope.claimAll]
    · simp [old, Identifier.Scope.claimAll]
  | none =>
    have fresh : d.fullName ∉ tree.identities := (nodeFor_none_iff tree _).mp there
    have new : newOf tree.identities [d] = [d] := by rw [newOf, if_neg fresh, newOf]
    simp only [ContainerTree.add, there]
    constructor
    · simp [new, Descendant.fullName]
    · simp [new, named, Identifier.Scope.claimAll, Identifier.Scope.claim]
    · simp [new, named, Identifier.Scope.claimAll, Identifier.Scope.claim]

mutual

/-- A walk through a tree claims names for the covered types of it. -/
theorem visit_claims {owner : TypeView} {above : List TypeView} {chain : List TypeHead}
    {parent? : Option String} (placed : chain = (Descendant.inside outlook above).map TypeView.head)
    (under : parent?.isNone = (Descendant.inside outlook above).isEmpty) (tree : ContainerTree)
    (t : TypeTree) :
    Claims outlook tree (coveredOf outlook (t.descendants owner above))
      (visit outlook owner chain parent? tree t) := by
  rw [coveredOf_descendants]
  cases t with
  | node head nested =>
    let v := owner.child (.node head nested)
    have outside : parent?.isNone = true ↔
        ¬∃ u ∈ above, u.isRestricted outlook.outside outlook.exposure = true := by
      rw [under, List.isEmpty_iff, Descendant.inside_nil_iff]
    have skips : (parent?.isNone && !v.isRestricted outlook.outside outlook.exposure) = true ↔
        ¬Descendant.IsCovered outlook ⟨above, v⟩ := by
      rw [Bool.and_eq_true, outside, Bool.not_eq_true', ← Bool.not_eq_true, and_comm]
      exact not_or.symm
    rw [visit]
    by_cases covered : Descendant.IsCovered outlook ⟨above, v⟩
    · rw [if_neg fun skipped => skips.mp skipped covered, if_pos covered]
      have deeper : chain ++ [head] =
          (Descendant.inside outlook (above ++ [v])).map TypeView.head := by
        rw [Descendant.inside_append covered, List.map_append, placed]
        rfl
      have below : (some (tree.add v (chain ++ [head])
          (v.isRestricted outlook.outside outlook.exposure) parent?).1).isNone =
            (Descendant.inside outlook (above ++ [v])).isEmpty := by
        rw [Descendant.inside_append covered]
        simp
      have named : canonicalName (chain ++ [head]) = Descendant.canonical outlook ⟨above, v⟩ := by
        rw [Descendant.canonical, ← Descendant.inside_append covered, ← deeper]
      exact (add_claims tree ⟨above, v⟩ named _ parent?).append
        (visitAll_claims deeper below _ nested)
    · -- Neither this type nor one above it is restricted: nothing is claimed for it.
      rw [if_pos (skips.mpr covered), if_neg covered, List.nil_append]
      have exposed : Descendant.inside outlook (above ++ [v]) = [] :=
        Descendant.inside_nil_iff.mpr (mt Descendant.covered_iff.mpr covered)
      apply visitAll_claims
      · rw [exposed]
        rfl
      · rw [exposed]
        rfl

theorem visitAll_claims {owner : TypeView} {above : List TypeView} {chain : List TypeHead}
    {parent? : Option String} (placed : chain = (Descendant.inside outlook above).map TypeView.head)
    (under : parent?.isNone = (Descendant.inside outlook above).isEmpty) (tree : ContainerTree)
    (ts : List TypeTree) :
    Claims outlook tree (coveredOf outlook (TypeTree.descendantsAll owner above ts))
      (visitAll outlook owner chain parent? tree ts) := by
  cases ts with
  | nil =>
    rw [TypeTree.descendantsAll, visitAll]
    exact .nil tree
  | cons t rest =>
    rw [TypeTree.descendantsAll, coveredOf_append, visitAll]
    exact (visit_claims placed under tree t).append (visitAll_claims placed under _ rest)

end

def containedTypes (outlook : Outlook) (target : TypeView) : List Descendant :=
  newOf [] (coveredOf outlook (arrangedTarget target).descendants)

/-- Containers are called as a scope that knows the reserved names declares the types they stand
for. -/
theorem ofTarget_names (outlook : Outlook) (target : TypeView) (reserved : List String) :
    (ofTarget target outlook reserved).names =
      ((Identifier.Scope.ofReserved reserved).claimAll
        ((containedTypes outlook target).map (Descendant.canonical outlook))).1 := by
  have walk : Claims outlook (empty reserved)
      (coveredOf outlook (arrangedTarget target).descendants)
      (visitAll outlook (arrangedTarget target) [] none (empty reserved)
        (arrangedTarget target).tree.nested) := visitAll_claims rfl rfl (empty reserved) _
  rw [ofTarget_eq, walk.names]
  rfl

end ContainerTree

end HiddenNames
