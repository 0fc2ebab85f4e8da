import HiddenNames.Containers.Build
import HiddenNames.Proofs.Assoc

/-!
Which types get a container. The walk adds the full names of the restricted types and of all types
inside them, each once. Neither the keys of containers nor reserved names have a part in that.
-/

namespace HiddenNames

namespace ContainerTree

def identities (tree : ContainerTree) : List String := tree.nodes.map Container.identity

def names (tree : ContainerTree) : List String := tree.nodes.map Container.name

mutual

/-- The full names that a walk adds. `inside` tells whether the owner has a container. -/
def covered (outlook : Outlook) (owner : TypeView) (inside : Bool) : TypeTree → List String
  | .node head nested =>
    let v := owner.child (.node head nested)
    if !inside && !v.isRestricted outlook.outside outlook.exposure then
      coveredAll outlook v false nested
    else v.fullName :: coveredAll outlook v true nested

def coveredAll (outlook : Outlook) (owner : TypeView) (inside : Bool) : List TypeTree → List String
  | [] => []
  | t :: rest => covered outlook owner inside t ++ coveredAll outlook owner inside rest

end

@[simp]
theorem identities_length (tree : ContainerTree) : tree.identities.length = tree.size :=
  List.length_map Container.identity

section changes

variable (tree : ContainerTree) (parent? : Option String) (key : String) (v : TypeView)
  (chain : List TypeHead) (restricted : Bool)

theorem map_link {α : Type} {field : Container → α}
    (kept : ∀ node children, field { node with children } = field node) :
    (tree.link parent? key).nodes.map field = tree.nodes.map field := by
  cases parent? with
  | none => rfl
  | some parent =>
    rw [link, List.map_map]
    refine List.map_congr_left fun node _ => ?_
    rw [Function.comp_apply]
    split
    · exact kept node _
    · rfl

@[simp]
theorem link_names : (tree.link parent? key).names = tree.names :=
  tree.map_link parent? key fun _ _ => rfl

@[simp]
theorem link_identities : (tree.link parent? key).identities = tree.identities :=
  tree.map_link parent? key fun _ _ => rfl

@[simp]
theorem link_scope : (tree.link parent? key).scope = tree.scope := by cases parent? <;> rfl

@[simp]
theorem insert_names : (tree.insert v chain restricted).names =
    tree.names ++ [tree.scope.choose (canonicalName chain)] := List.map_append

@[simp]
theorem insert_identities :
    (tree.insert v chain restricted).identities = tree.identities ++ [v.fullName] := List.map_append

@[simp]
theorem insert_scope : (tree.insert v chain restricted).scope =
    tree.scope.take (tree.scope.choose (canonicalName chain)) := rfl

end changes

theorem nodeFor_none_iff (tree : ContainerTree) (identity : String) :
    tree.nodeFor? identity = none ↔ identity ∉ tree.identities := find?_key_none_iff

theorem add_identities (tree : ContainerTree) (v : TypeView) (chain : List TypeHead)
    (restricted : Bool) (parent? : Option String) :
    (tree.add v chain restricted parent?).2.identities = appendNew tree.identities v.fullName := by
  cases there : tree.nodeFor? v.fullName with
  | none =>
    have fresh : v.fullName ∉ tree.identities := (nodeFor_none_iff tree _).mp there
    simp [add, there, appendNew, if_neg fresh]
  | some node =>
    have known : v.fullName ∈ tree.identities := by
      refine Decidable.byContradiction fun fresh => ?_
      rw [(nodeFor_none_iff tree _).mpr fresh] at there
      cases there
    simp [add, there, appendNew, if_pos known]

mutual

/-- A walk adds what it covers, whatever the keys of its containers are. -/
theorem visit_identities (outlook : Outlook) (owner : TypeView) (chain : List TypeHead)
    (parent? : Option String) (tree : ContainerTree) (t : TypeTree) :
    (visit outlook owner chain parent? tree t).identities =
      (covered outlook owner parent?.isSome t).foldl appendNew tree.identities := by
  cases t with
  | node head nested =>
    have outermost : parent?.isNone = !parent?.isSome := by cases parent? <;> rfl
    by_cases skipped : (!parent?.isSome && !(owner.child (.node head nested)).isRestricted
        outlook.outside outlook.exposure) = true
    · rw [visit, covered, outermost, if_pos skipped, if_pos skipped]
      exact visitAll_identities outlook _ [] none tree nested
    · rw [visit, covered, outermost, if_neg skipped, if_neg skipped, List.foldl_cons,
        ← add_identities tree _ (chain ++ [head]) _ parent?]
      exact visitAll_identities outlook _ (chain ++ [head]) (some _) _ nested

theorem visitAll_identities (outlook : Outlook) (owner : TypeView) (chain : List TypeHead)
    (parent? : Option String) (tree : ContainerTree) (ts : List TypeTree) :
    (visitAll outlook owner chain parent? tree ts).identities =
      (coveredAll outlook owner parent?.isSome ts).foldl appendNew tree.identities := by
  cases ts with
  | nil => rw [visitAll, coveredAll, List.foldl_nil]
  | cons t rest =>
    rw [visitAll, coveredAll, List.foldl_append,
      visitAll_identities outlook owner chain parent? _ rest,
      visit_identities outlook owner chain parent? tree t]

end

theorem ofTarget_identities (target : TypeView) (outlook : Outlook) (reserved : List String) :
    (ofTarget target outlook reserved).identities =
      (coveredAll outlook target false target.tree.arranged.nested).foldl appendNew [] :=
  visitAll_identities outlook target [] none (empty reserved) target.tree.arranged.nested

/-- Reserved names change what containers are called, but not how many there are. -/
theorem ofTarget_size (target : TypeView) (outlook : Outlook) (reserved : List String) :
    (ofTarget target outlook reserved).size = (ofTarget target outlook).size := by
  rw [← identities_length, ← identities_length, ofTarget_identities, ofTarget_identities]

end ContainerTree

end HiddenNames
