import HiddenNames.Containers.Tree

/-!
The containers of a target. The walk goes through all nested types, except those with synthesized
names, in the order of their metadata names. A nested type gets a container if it or a type between
it and the target is restricted.
-/

namespace HiddenNames

namespace TypeTree

mutual

/-- The tree without types of synthesized names, siblings in the order of their metadata names. -/
def arranged : TypeTree → TypeTree
  | .node head nested =>
    .node head ((arrangedAll nested).mergeSort fun a b =>
      decide (a.head.metadataName ≤ b.head.metadataName))

def arrangedAll : List TypeTree → List TypeTree
  | [] => []
  | t :: rest =>
    if isSynthesizedName t.head.name then arrangedAll rest
    else arranged t :: arrangedAll rest

end

end TypeTree

structure Outlook where
  outside : Bool := false
  exposure : Exposure := .chain
  deriving DecidableEq, Repr

namespace ContainerTree

mutual

/-- Adds the containers of a type and of all types inside it. `chain` holds the types from the
first one with a container down to the owner, and `parent?` is the key of the owner's container. -/
def visit (outlook : Outlook) (owner : TypeView) (chain : List TypeHead) (parent? : Option String)
    (tree : ContainerTree) : TypeTree → ContainerTree
  | .node head nested =>
    let v := owner.child (.node head nested)
    let restricted := v.isRestricted outlook.outside outlook.exposure
    if parent?.isNone && !restricted then visitAll outlook v [] none tree nested
    else
      let path := chain ++ [head]
      let (key, tree) := tree.add v path restricted parent?
      visitAll outlook v path (some key) tree nested

def visitAll (outlook : Outlook) (owner : TypeView) (chain : List TypeHead)
    (parent? : Option String) (tree : ContainerTree) : List TypeTree → ContainerTree
  | [] => tree
  | t :: rest =>
    visitAll outlook owner chain parent? (visit outlook owner chain parent? tree t) rest

end

/-- The containers of the restricted types nested in a target. Reserved names are never used as
keys. -/
def ofTarget (target : TypeView) (outlook : Outlook := {}) (reserved : List String := []) :
    ContainerTree :=
  visitAll outlook target [] none (empty reserved) target.tree.arranged.nested

end ContainerTree

namespace TypeTree

def firstError (walks : List (String × Option ArityError)) : Option ArityError :=
  (walks.mergeSort fun a b => decide (a.1 ≤ b.1)).findSome? Prod.snd

mutual

/-- The first name error that a walk through the containers meets. All nested types of a type are
looked at before the walk enters the first of them. -/
def walkError : TypeTree → Option ArityError
  | .node _ nested =>
    (nested.findSome? fun t => t.head.nameError) <|> firstError (walkErrors nested)

def walkErrors : List TypeTree → List (String × Option ArityError)
  | [] => []
  | t :: rest =>
    if isSynthesizedName t.head.name then walkErrors rest
    else (t.head.metadataName, walkError t) :: walkErrors rest

end

end TypeTree

end HiddenNames
