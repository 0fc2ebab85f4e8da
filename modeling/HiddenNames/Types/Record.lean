import HiddenNames.Types.View

/-!
Types as compiled modules list them, and the view of such a type. A record keeps the name with its
arity suffix; the view splits it.
-/

namespace HiddenNames

structure RecordHead where
  name : String
  space? : Option String := none
  kind : TypeKind := .classKind
  visibility : Visibility := .pub
  parameters : List String := []
  members : List Member := []
  deriving DecidableEq, Repr, Inhabited

inductive TypeRecord where
  | node (head : RecordHead) (nested : List TypeRecord)
  deriving Inhabited

namespace RecordHead

/-- The head of the view. A name whose arity cannot be read stands whole. -/
def typeHead (r : RecordHead) : TypeHead where
  name := match splitArity r.name with
    | .ok (name, _) => name
    | .error _ => r.name
  kind := r.kind
  visibility := r.visibility
  parameters := r.parameters
  members := r.members
  nameError := match splitArity r.name with
    | .ok _ => none
    | .error e => some e

end RecordHead

namespace TypeRecord

def head : TypeRecord → RecordHead
  | .node head _ => head

def nested : TypeRecord → List TypeRecord
  | .node _ nested => nested

mutual

def tree : TypeRecord → TypeTree
  | .node head nested => .node head.typeHead (trees nested)

def trees : List TypeRecord → List TypeTree
  | [] => []
  | r :: rest => tree r :: trees rest

end

def view (r : TypeRecord) (tier : Tier) : TypeView where
  tier := tier
  space? := r.head.space?
  tree := r.tree

def view? (r : TypeRecord) (tier : Tier) : Except ArityError TypeView :=
  match r.tree.head.nameError with
  | some e => .error e
  | none => .ok (r.view tier)

/-- Names that stand for the parameters of a type whose own names for them are not known. -/
def parameterNames : Nat → List String
  | 0 => []
  | 1 => ["T"]
  | arity => (List.range arity).map fun i => "T" ++ toString (i + 1)

end TypeRecord

end HiddenNames
