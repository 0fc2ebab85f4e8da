import HiddenNames.Assoc
import HiddenNames.CSharp.Literal
import HiddenNames.Containers.Build

/-!
The model of one generated file. It declares a wrapper class with an extension block for the target,
one structure per container, and a placeholder for the target when nothing else makes it nameable.
-/

namespace HiddenNames

structure Resolved where
  tier : Tier
  view : TypeView
  module? : Option String := none

structure Accessor where
  identifier : String
  value : String
  deriving DecidableEq, Repr

structure Forward where
  identifier : String
  container : String
  deriving DecidableEq, Repr

structure ContainerView where
  name : String
  display : String
  summary : String
  accessors : List Accessor
  forwards : List Forward
  deriving DecidableEq, Repr

structure StubLevel where
  keyword : String
  isSealed : Bool
  hasConstructor : Bool
  name : String
  parameters : String
  deriving DecidableEq, Repr

/-- A generated file. `stub` lists the levels of the placeholder, outermost first, and is empty when
there is none. -/
structure UnitView where
  space? : Option String
  wrapper : String
  visibility : Access
  display : String
  target : String
  parameters : String
  constraints : String
  accessors : List Accessor
  forwards : List Forward
  containers : List ContainerView
  stub : List StubLevel
  deriving DecidableEq, Repr

def TypeView.identity (v : TypeView) : String :=
  Identifier.flatten ("_".intercalate (v.spaceParts ++ v.chain.map TypeHead.metadataName))

def hintName (identity : String) : String := "Nameof." ++ identity ++ ".g.cs"

def wrapperName (identity : String) : String := "Nameof_" ++ identity

def claimParameters (scope : Identifier.Scope) : List TypeHead → List (List String)
  | [] => []
  | head :: rest =>
    let (names, scope) := scope.claimAll head.parameters
    names :: claimParameters scope rest

/-- Each type of the chain with its type parameters, which are unique over the whole chain. -/
def TypeView.parameterized (v : TypeView) : List (TypeHead × List String) :=
  v.chain.zip (claimParameters (Identifier.Scope.ofReserved []) v.chain)

def parameterList (names : List String) : String :=
  if names.isEmpty then "" else "<" ++ ", ".intercalate names ++ ">"

/-- What each declared parameter is now called. Of a repeated parameter the last name counts. -/
def spellings (declared unique : List String) : List (String × String) :=
  assignAll (declared.zip unique)

def wordRuns : List Char → List (List Char)
  | [] => []
  | c :: rest =>
    match wordRuns rest with
    | [] => [[c]]
    | run :: more =>
      if Unicode.isWord c && run.head?.any Unicode.isWord then (c :: run) :: more
      else [c] :: run :: more

def renameWords (renames : List (String × String)) (constraint : String) : String :=
  String.join ((wordRuns constraint.toList).map fun run =>
    let word := String.ofList run
    if run.all Unicode.isWord then (renames.lookup word).getD word else word)

def constraintClauses (head : TypeHead) (unique : List String) : List String :=
  let renames := spellings head.parameters unique
  renames.filterMap fun (declared, name) =>
    match head.constraints.lookup declared with
    | some (part :: more) =>
      some (" where " ++ name ++ " : " ++
        ", ".intercalate ((part :: more).map (renameWords renames)))
    | _ => none

def TypeView.expression (v : TypeView) : String :=
  let parts := v.parameterized.map fun (head, names) =>
    Identifier.legalize head.name ++ parameterList names
  "global::" ++ qualified v.space? (".".intercalate parts)

namespace Resolved

/-- Whether the target can only be named through a placeholder. -/
def needsStub (r : Resolved) (exposure : Exposure) : Bool :=
  !r.view.inSource && !r.view.isExposed true exposure

/-- The requested visibility, narrowed for a target that is not public. -/
def wrapperVisibility (r : Resolved) (access : Access) (exposure : Exposure) : Access :=
  if r.view.isExposed true exposure then access else .internal

end Resolved

/-- The placeholder for one type: a class is sealed and cannot be constructed. -/
def StubLevel.ofHead (head : TypeHead) (names : List String) : StubLevel where
  keyword := head.kind.text
  isSealed := head.kind = .classKind
  hasConstructor := head.kind = .classKind
  name := Identifier.legalize head.name
  parameters := parameterList names

def TypeView.stubLevels (v : TypeView) : List StubLevel :=
  v.parameterized.map fun (head, names) => .ofHead head names

def claimProperties (scope : Identifier.Scope) (names : List String) (nodes : List Container) :
    List Accessor × List Forward :=
  let (accessors, scope) := scope.claimAll names
  let (forwards, _) := scope.claimAll (nodes.map Container.simpleName)
  ((accessors.zip names).map fun (identifier, name) => ⟨identifier, CSharp.Literal.regular name⟩,
    (forwards.zip nodes).map fun (identifier, node) => ⟨identifier, node.name⟩)

namespace ContainerTree

def viewOf (tree : ContainerTree) (node : Container) : ContainerView :=
  let scope := Identifier.Scope.ofReserved [node.name, "ToString"]
  let (accessors, forwards) := claimProperties scope node.members (tree.children node)
  { name := node.name, display := CSharp.Literal.regular node.simpleName,
    summary := node.simpleName, accessors, forwards }

def views (tree : ContainerTree) : List ContainerView :=
  (tree.nodes.mergeSort fun a b => decide (a.name ≤ b.name)).map tree.viewOf

end ContainerTree

namespace Resolved

def identityOr (r : Resolved) (identity? : Option String) : String :=
  (namedSpace identity?).getD r.view.identity

/-- The containers of a unit, none of which may be called like its wrapper. -/
def containers (r : Resolved) (exposure : Exposure) (identity? : Option String) : ContainerTree :=
  ContainerTree.ofTarget r.view ⟨!r.view.inSource, exposure⟩ [wrapperName (r.identityOr identity?)]

/-- The unit of a target, or nothing when there is no name to show. -/
def unit (r : Resolved) (access : Access := .pub) (exposure : Exposure := .chain)
    (identity? : Option String := none) : Option UnitView :=
  let v := r.view
  let members := v.hiddenNames
  let wrapper := wrapperName (r.identityOr identity?)
  let tree := r.containers exposure identity?
  if members.isEmpty && tree.nodes.isEmpty then none
  else
    let scope := Identifier.Scope.ofReserved [wrapper]
    let (accessors, forwards) := claimProperties scope members tree.roots
    some
      { space? := v.space?
        wrapper
        visibility := r.wrapperVisibility access exposure
        display := v.fullName
        target := v.expression
        parameters := parameterList (v.parameterized.flatMap Prod.snd)
        constraints := String.join (v.parameterized.flatMap fun (head, names) =>
          constraintClauses head names)
        accessors
        forwards
        containers := tree.views
        stub := if r.needsStub exposure then v.stubLevels else [] }

end Resolved

end HiddenNames
