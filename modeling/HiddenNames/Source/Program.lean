import HiddenNames.Assoc
import HiddenNames.CSharp.Reader
import HiddenNames.Identifier
import HiddenNames.Types.View

/-!
The types that a program declares. All declarations of one type are merged into one entry, found by
its full name; entries stand in the order of their first declarations.
-/

namespace HiddenNames

/-- A type of the program. `outer` lists the names and arities of the enclosing types, outermost
first, and `space?` is the namespace of the outermost one. -/
structure SourceType where
  space? : Option String := none
  outer : List (String × Nat) := []
  name : String
  kind : TypeKind
  visibility : Visibility
  parameters : List String := []
  constraints : List (String × List String) := []
  members : List Member := []
  deriving DecidableEq, Repr

namespace SourceType

def arity (t : SourceType) : Nat := t.parameters.length

def chain (t : SourceType) : List (String × Nat) := t.outer ++ [(t.name, t.arity)]

def chainName (space? : Option String) (chain : List (String × Nat)) : String :=
  qualified space? ("+".intercalate (chain.map fun (name, arity) => withArity name arity))

def fullName (t : SourceType) : String := chainName t.space? t.chain

def ownerName (t : SourceType) : Option String :=
  if t.outer.isEmpty then none else some (chainName t.space? t.outer)

def path (t : SourceType) : List (String × Nat) :=
  (match namedSpace t.space? with
    | some space => (Text.split '.' space).map fun part => (part, 0)
    | none => []) ++ t.chain

def ref (t : SourceType) : TypeRef :=
  .mk (some "global") (t.path.map fun (name, arity) => .mk name (List.replicate arity none))

end SourceType

/-- An attribute that may be a marker, and where it stands. `declared?` is the full name of the type
it is applied to. -/
structure SourceMarker where
  text : String
  declared? : Option String
  path : String
  line : Nat
  deriving DecidableEq, Repr

structure SourceProgram where
  assemblyName : String := "Program"
  types : List SourceType := []
  markers : List SourceMarker := []

namespace SourceProgram

open CSharp (Declaration TypeHeader AttributeText)

def get? (p : SourceProgram) (fullName : String) : Option SourceType :=
  p.types.find? fun t => t.fullName = fullName

def update (p : SourceProgram) (fullName : String) (f : SourceType → SourceType) : SourceProgram :=
  { p with types := p.types.map fun t => if t.fullName = fullName then f t else t }

/-- The type that a reference names. A full match wins; otherwise the reference may name the tail
of one type only, or of one type only in the namespace that it is written in. -/
def find (p : SourceProgram) (ref : TypeRef) (space? : Option String := none) :
    Option SourceType :=
  match matchRef SourceType.path p.types ref with
  | (t :: _, _) => some t
  | ([], [t]) => some t
  | ([], tails) =>
    match space? with
    | none => none
    | some space =>
      match tails.filter fun t => t.space? = some space with
      | [t] => some t
      | _ => none

def visibilityOf (modifiers : List String) (default : Visibility) : Visibility :=
  let has := fun word : String => decide (word ∈ modifiers)
  if has "public" then .pub
  else if has "protected" && has "internal" then .protInternal
  else if has "private" && has "protected" then .privProt
  else if has "internal" || has "file" then .internal
  else if has "protected" then .prot
  else if has "private" then .priv
  else default

def accessWords : List String := ["public", "protected", "internal", "private", "file"]

def defaultInside (kind : TypeKind) : Visibility :=
  if kind = .interfaceKind then .pub else .priv

/-- Takes in one more declaration of a type that is there already. Its accessibility counts if it
states one, its constraints count if there were none. -/
def mergePart (declared : SourceType) (modifiers : List String) (t : SourceType) : SourceType :=
  { t with
    visibility := if modifiers.any (· ∈ accessWords) then declared.visibility else t.visibility
    constraints := if t.constraints.isEmpty then declared.constraints else t.constraints }

def declare (p : SourceProgram) (declared : SourceType) (modifiers : List String) :
    SourceProgram :=
  match p.get? declared.fullName with
  | some _ => p.update declared.fullName (mergePart declared modifiers)
  | none => { p with types := p.types ++ [declared] }

def addMarkers (p : SourceProgram) (path : String) (declared? : Option String)
    (attributes : List AttributeText) : SourceProgram :=
  { p with
    markers := p.markers ++ attributes.map fun a => ⟨a.text, declared?, path, a.line⟩ }

def declaredType (header : TypeHeader) (space? : Option String) (owner? : Option SourceType) :
    SourceType :=
  let base : SourceType :=
    { space?, name := header.name, kind := header.kind, visibility := .internal,
      parameters := header.parameters, constraints := header.constraints }
  match owner? with
  | none => { base with visibility := visibilityOf header.modifiers .internal }
  | some owner =>
    { base with
      space? := owner.space?
      outer := owner.chain
      visibility := visibilityOf header.modifiers (defaultInside owner.kind) }

def addMembers (p : SourceProgram) (owner : String) (kind : MemberKind) (modifiers : List String)
    (names : List String) : SourceProgram :=
  p.update owner fun t =>
    let visibility := visibilityOf modifiers (defaultInside t.kind)
    { t with members := t.members ++ names.map fun name => { name, kind, visibility } }

def spaceInside (outer? : Option String) (name : String) : String :=
  match namedSpace outer? with
  | some outer => outer ++ "." ++ name
  | none => name

mutual

def visitScope (path : String) (space? : Option String) (p : SourceProgram) :
    Declaration → SourceProgram
  | .namespaceBlock name body => visitScopes path (some (spaceInside space? name)) p body
  | .namespaceLine _ => p
  | .assemblyAttributes attributes => p.addMarkers path none attributes
  | .type header body =>
    let declared := declaredType header space? none
    let p := (p.declare declared header.modifiers).addMarkers path (some declared.fullName)
      header.attributes
    if hasBody p declared.fullName header then visitBodies path declared.fullName p body else p
  | .members _ _ _ => p
  | .group body => visitScopes path space? p body

def visitScopes (path : String) (space? : Option String) (p : SourceProgram) :
    List Declaration → SourceProgram
  | [] => p
  | .namespaceLine name :: rest => visitScopes path (some (spaceInside space? name)) p rest
  | d :: rest => visitScopes path space? (visitScope path space? p d) rest

def visitBody (path : String) (owner : String) (p : SourceProgram) : Declaration → SourceProgram
  | .type header body =>
    let declared := declaredType header none (p.get? owner)
    let p := (p.declare declared header.modifiers).addMarkers path (some declared.fullName)
      header.attributes
    if hasBody p declared.fullName header then visitBodies path declared.fullName p body else p
  | .members kind modifiers names => p.addMembers owner kind modifiers names
  | .group body => visitBodies path owner p body
  | .namespaceBlock _ _ => p
  | .namespaceLine _ => p
  | .assemblyAttributes _ => p

def visitBodies (path : String) (owner : String) (p : SourceProgram) :
    List Declaration → SourceProgram
  | [] => p
  | d :: rest => visitBodies path owner (visitBody path owner p d) rest

/-- Whether the body of a declaration is looked at. The members of enumerations and delegates are
not. -/
def hasBody (p : SourceProgram) (fullName : String) (header : TypeHeader) : Bool :=
  !header.isDelegate && (p.get? fullName).all fun t => t.kind ≠ .enumKind

end

def addDeclarations (p : SourceProgram) (path : String) (declarations : List Declaration) :
    SourceProgram :=
  visitScopes path none p declarations

def constraintWords : List String :=
  ["class", "class?", "struct", "unmanaged", "notnull", "default", "new()"]

def isDottedPart (cs : List Char) : Bool :=
  let word := match cs with
    | '@' :: rest => rest
    | _ => cs
  !word.isEmpty && word.all Unicode.isWord

def isDottedName (constraint : String) : Bool :=
  let cs := constraint.toList
  let named := if "global::".toList.isPrefixOf cs then cs.drop "global::".length else cs
  (Text.splitAt '.' named).all isDottedPart

def qualify (p : SourceProgram) (t : SourceType) (constraint : String) : String :=
  if constraint ∈ constraintWords || constraint ∈ t.parameters || !isDottedName constraint then
    constraint
  else
    let written := String.ofList (constraint.toList.filter (· ≠ '@'))
    match p.find (TypeRef.ofDotted written) t.space? with
    | some found =>
      if found.arity = 0 then
        "global::" ++ ".".intercalate (found.path.map fun part => Identifier.legalize part.1)
      else constraint
    | none => constraint

def headOf (p : SourceProgram) (t : SourceType) : TypeHead where
  name := t.name
  kind := t.kind
  visibility := t.visibility
  parameters := t.parameters
  members := t.members
  constraints := t.constraints.map fun (name, parts) => (name, parts.map (p.qualify t))

/-- The trees of the types inside an owner. A type stands after the type around it in the list, so
the rest of the list has all that is inside. -/
def treesIn (p : SourceProgram) (owner : String) : List SourceType → List TypeTree
  | [] => []
  | t :: rest =>
    if t.ownerName = some owner then
      .node (p.headOf t) (treesIn p t.fullName rest) :: treesIn p owner rest
    else treesIn p owner rest

def headsAround (p : SourceProgram) (t : SourceType) : List TypeHead :=
  (List.range t.outer.length).filterMap fun k =>
    (p.get? (SourceType.chainName t.space? (t.outer.take (k + 1)))).map p.headOf

def view (p : SourceProgram) (t : SourceType) : TypeView where
  tier := .static
  inSource := true
  space? := t.space?
  outer := p.headsAround t
  tree := .node (p.headOf t) (p.treesIn t.fullName p.types)

end SourceProgram

end HiddenNames
