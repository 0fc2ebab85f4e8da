import HiddenNames.Types.Arity
import HiddenNames.Types.Basic
import HiddenNames.Types.Reference

/-!
One shape for all types, whichever tier described them. A `TypeTree` is a type with the types
declared inside it; a `TypeView` puts a tree in its place, with the namespace and the enclosing
types.
-/

namespace HiddenNames

/-- What a type says about itself, apart from its nested types. `nameError` tells why the arity in
its compiled name could not be read, if so. -/
structure TypeHead where
  name : String
  kind : TypeKind
  visibility : Visibility
  parameters : List String := []
  members : List Member := []
  constraints : List (String × List String) := []
  nameError : Option ArityError := none
  deriving DecidableEq, Repr

namespace TypeHead

def arity (head : TypeHead) : Nat := head.parameters.length

def metadataName (head : TypeHead) : String := withArity head.name head.arity

end TypeHead

inductive TypeTree where
  | node (head : TypeHead) (nested : List TypeTree)

namespace TypeTree

def head : TypeTree → TypeHead
  | .node head _ => head

def nested : TypeTree → List TypeTree
  | .node _ nested => nested

end TypeTree

/-- A type in its place. `outer` lists the enclosing types, outermost first, and `space?` is the
namespace of the outermost type. -/
structure TypeView where
  tier : Tier
  inSource : Bool := false
  space? : Option String := none
  outer : List TypeHead := []
  tree : TypeTree

def namedSpace (space? : Option String) : Option String := space?.filter (· ≠ "")

def qualified (space? : Option String) (name : String) : String :=
  match namedSpace space? with
  | some space => space ++ "." ++ name
  | none => name

namespace TypeView

def head (v : TypeView) : TypeHead := v.tree.head

def chain (v : TypeView) : List TypeHead := v.outer ++ [v.head]

def child (v : TypeView) (tree : TypeTree) : TypeView :=
  { v with outer := v.chain, tree := tree }

def nested (v : TypeView) : List TypeView := v.tree.nested.map v.child

def fullNameOf (space? : Option String) (chain : List TypeHead) : String :=
  qualified space? ("+".intercalate (chain.map TypeHead.metadataName))

def fullName (v : TypeView) : String := fullNameOf v.space? v.chain

def chainNames (v : TypeView) : List String :=
  (List.range v.chain.length).map fun k => fullNameOf v.space? (v.chain.take (k + 1))

def spaceParts (v : TypeView) : List String :=
  match namedSpace v.space? with
  | some space => Text.split '.' space
  | none => []

def path (v : TypeView) : List (String × Nat) :=
  v.spaceParts.map (fun part => (part, 0)) ++ v.chain.map fun head => (head.name, head.arity)

def descend (v : TypeView) : List String → Option TypeView
  | [] => some v
  | name :: rest =>
    match v.nested.find? (fun n => n.head.metadataName = name) with
    | some n => n.descend rest
    | none => none

def nestedError (v : TypeView) : Option ArityError :=
  v.tree.nested.findSome? fun t => t.head.nameError

/-- The first name error met on the way down, the nested types of the last type not included. -/
def descentError (v : TypeView) : List String → Option ArityError
  | [] => none
  | name :: rest =>
    match v.nestedError with
    | some e => some e
    | none =>
      match v.nested.find? (fun n => n.head.metadataName = name) with
      | some n => n.descentError rest
      | none => none

def findNested (v : TypeView) (names : List String) : Except ArityError (Option TypeView) :=
  match v.descentError names with
  | some e => .error e
  | none => .ok (v.descend names)

end TypeView

end HiddenNames
