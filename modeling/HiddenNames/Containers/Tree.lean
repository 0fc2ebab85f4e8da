import HiddenNames.Exposure
import HiddenNames.Identifier

/-!
Containers stand for the nested types of a target that cannot be named. They live in one arena,
keyed by names that are unique in it; a container knows its children by those keys. Adding a type
that is already there makes no second container, and only links it to one more parent.
-/

namespace HiddenNames

/-- Stands for one nested type of the target. A container that is restricted only through a type
around it passes through: it has no members of its own. -/
structure Container where
  name : String
  identity : String
  simpleName : String
  restricted : Bool
  depth : Int
  members : List String := []
  children : List String := []
  deriving DecidableEq, Repr

/-- A name in the joined name of a chain; generic types are marked with their arity. -/
def TypeHead.chainSegment (head : TypeHead) : String :=
  if head.arity = 0 then head.name else head.name ++ "_Generated_" ++ toString head.arity

def canonicalName (chain : List TypeHead) : String :=
  "_".intercalate (chain.map TypeHead.chainSegment)

structure ContainerTree where
  nodes : List Container := []
  rootKeys : List String := []
  scope : Identifier.Scope

namespace ContainerTree

def empty (reserved : List String) : ContainerTree :=
  { scope := Identifier.Scope.ofReserved reserved }

def size (tree : ContainerTree) : Nat := tree.nodes.length

def get? (tree : ContainerTree) (key : String) : Option Container :=
  tree.nodes.find? fun node => node.name = key

def nodeFor? (tree : ContainerTree) (identity : String) : Option Container :=
  tree.nodes.find? fun node => node.identity = identity

def roots (tree : ContainerTree) : List Container := tree.rootKeys.filterMap tree.get?

def children (tree : ContainerTree) (node : Container) : List Container :=
  node.children.filterMap tree.get?

def appendNew (keys : List String) (key : String) : List String :=
  if key ∈ keys then keys else keys ++ [key]

def link (tree : ContainerTree) (parent? : Option String) (key : String) : ContainerTree :=
  match parent? with
  | none => { tree with rootKeys := appendNew tree.rootKeys key }
  | some parent =>
    { tree with
      nodes := tree.nodes.map fun node =>
        if node.name = parent then { node with children := appendNew node.children key }
        else node }

def insert (tree : ContainerTree) (v : TypeView) (chain : List TypeHead) (restricted : Bool) :
    ContainerTree :=
  let (key, scope) := tree.scope.claim (canonicalName chain)
  let node : Container :=
    { name := key, identity := v.fullName, simpleName := v.head.name, restricted,
      depth := (chain.length : Int) - 1, members := if restricted then v.hiddenNames else [] }
  { tree with nodes := tree.nodes ++ [node], scope }

/-- Adds a type below a parent. The answer has the key of its container, which is the one it had
when the type is there already. -/
def add (tree : ContainerTree) (v : TypeView) (chain : List TypeHead) (restricted : Bool)
    (parent? : Option String) : String × ContainerTree :=
  match tree.nodeFor? v.fullName with
  | some node => (node.name, tree.link parent? node.name)
  | none =>
    let key := tree.scope.choose (canonicalName chain)
    (key, (tree.insert v chain restricted).link parent? key)

end ContainerTree

end HiddenNames
