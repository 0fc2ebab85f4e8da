import HiddenNames.Assoc
import HiddenNames.CSharp.Node
import HiddenNames.Types.Basic

/-!
Declarations of a source file, as far as surfaces need them: namespaces, types with what they say
about themselves, the names of members, and the attributes on types and on the assembly. They are
read from nested tokens. A list of nodes is first cut into items, one per declaration or statement;
then each item is read on its own. What is no declaration is skipped.
-/

namespace HiddenNames.CSharp

/-- The text of one attribute and the line that it starts on, counted from one. -/
structure AttributeText where
  text : String
  line : Nat
  deriving DecidableEq, Repr

/-- What one declaration of a type says. A type may have several. -/
structure TypeHeader where
  name : String
  kind : TypeKind
  isDelegate : Bool := false
  modifiers : List String := []
  parameters : List String := []
  constraints : List (String × List String) := []
  attributes : List AttributeText := []
  deriving DecidableEq, Repr

/-- A declaration. `namespaceLine` holds for all declarations after it in the same list; a `group`
is a part of the file under a condition. -/
inductive Declaration where
  | namespaceBlock (name : String) (body : List Declaration)
  | namespaceLine (name : String)
  | assemblyAttributes (attributes : List AttributeText)
  | type (header : TypeHeader) (body : List Declaration)
  | members (kind : MemberKind) (modifiers : List String) (names : List String)
  | group (body : List Declaration)

end HiddenNames.CSharp

namespace HiddenNames.CSharp.Reader

open Node (isLeaf isTree word? splitCommas afterAngles)

def bareName (text : String) : String := Identifier.plain text

def modifierWords : List String :=
  ["abstract", "async", "const", "extern", "file", "fixed", "internal", "new", "override",
   "partial", "private", "protected", "public", "readonly", "ref", "required", "scoped", "sealed",
   "static", "unsafe", "virtual", "volatile"]

/-! Attributes. -/

def attributeTarget (inner : List Node) : Option String × List Node :=
  match inner with
  | first :: colon :: rest =>
    match word? first with
    | some target => if colon.isLeaf ":" then (some target, rest) else (none, inner)
    | none => (none, inner)
  | _ => (none, inner)

def isGlobalList : Node → Bool
  | .tree opening inner _ =>
    opening.is "[" && (attributeTarget inner).1.any (· ∈ ["assembly", "module"])
  | _ => false

def followsBlanks (n : Node) : Bool :=
  (n.firstToken.map fun t => t.before.all Unicode.isBlank).getD true

def isAssemblyList : Node → Bool
  | .tree _ (first :: colon :: _) _ =>
    first.isLeaf "assembly" && colon.isLeaf ":" && followsBlanks first && followsBlanks colon
  | _ => false

def attributeText (nodes : List Node) : Option AttributeText :=
  (nodes.head?.bind Node.firstToken).map fun t => ⟨Node.slice nodes, t.line⟩

def attributesOf : Node → List AttributeText
  | .tree _ inner _ => (splitCommas 0 (attributeTarget inner).2).filterMap attributeText
  | _ => []

def isAttributeList (n : Node) : Bool := n.isTree "[" && !isGlobalList n

def holdsAttributes : Node → Bool
  | .branches bodies =>
    bodies.any (fun body => !body.isEmpty) && bodies.all fun body => body.all isAttributeList
  | _ => false

/-! Items. -/

/-- What the nodes of an item so far say about its end. `bound` means that an equals sign or arrow
was met, after which only a semicolon ends the item; `symbol` that the name of an operator is being
read. -/
structure ItemState where
  bound : Bool := false
  symbol : Bool := false

def ItemState.after (s : ItemState) (n : Node) : ItemState :=
  if n.isLeaf "operator" then { s with symbol := true }
  else if n.isTree "(" then { s with symbol := false }
  else if n.isLeaf "=>" || (n.isLeaf "=" && !s.symbol) then { s with bound := true }
  else s

/-- Cuts nodes into items. `current` holds the item so far, its last node first. -/
def items (current : List Node) (s : ItemState) : List Node → List (List Node)
  | [] => if current.isEmpty then [] else [current.reverse]
  | n :: rest =>
    if current.isEmpty && n.isLeaf ";" then items [] {} rest
    else if current.isEmpty && (isGlobalList n ||
        (match n with | .branches _ => !holdsAttributes n | _ => false)) then
      [n] :: items [] {} rest
    else if n.isLeaf ";" ||
        (n.isTree "\x7b" && !s.bound && !(rest.head?.any (isLeaf "="))) then
      (n :: current).reverse :: items [] {} rest
    else items (n :: current) (s.after n) rest

/-- Splits off the attribute lists at the front of an item. Those under a condition do not count. -/
def takeAttributes : List Node → List AttributeText × List Node
  | [] => ([], [])
  | n :: rest =>
    if isAttributeList n then
      let (more, after) := takeAttributes rest
      (attributesOf n ++ more, after)
    else if holdsAttributes n then takeAttributes rest
    else ([], n :: rest)

def takeModifiers : List Node → List String × List Node
  | [] => ([], [])
  | n :: rest =>
    match word? n with
    | some word =>
      if word ∈ modifierWords then
        let (more, after) := takeModifiers rest
        (word :: more, after)
      else ([], n :: rest)
    | none => ([], n :: rest)

/-! Types and names inside an item. -/

/-- Drops the marks after a type: nullable, pointer, and array ranks. -/
def skipSuffixes : List Node → List Node
  | [] => []
  | n :: rest =>
    if n.isLeaf "?" || n.isLeaf "*" then skipSuffixes rest
    else
      match n with
      | .tree opening inner _ =>
        if opening.is "[" && inner.all (isLeaf ",") then skipSuffixes rest else n :: rest
      | _ => n :: rest

def skipNamed : Nat → List Node → Option (List Node)
  | 0, _ => none
  | fuel + 1, ns =>
    match ns with
    | n :: rest =>
      if (word? n).isNone then none
      else
        let after := match rest with
          | open' :: inner => if open'.isLeaf "<" then (afterAngles 0 inner).getD [] else rest
          | [] => []
        match after with
        | dot :: more =>
          if dot.isLeaf "." || dot.isLeaf "::" then skipNamed fuel more else some after
        | [] => some []
    | [] => none

def skipType (ns : List Node) : Option (List Node) :=
  match ns with
  | [] => none
  | n :: rest =>
    if n.isTree "(" then some (skipSuffixes rest)
    else if n.isLeaf "delegate" then
      let after := rest.dropWhile fun m => !m.isLeaf "<"
      (afterAngles 0 (after.drop 1)).map skipSuffixes
    else (skipNamed ns.length ns).map skipSuffixes

/-- The names of type parameters between angle brackets: the last word of each. -/
def parameterNames (inner : List Node) : List String :=
  (splitCommas 0 inner).filterMap fun piece => (piece.filterMap word?).getLast?.map bareName

def takeParameters (ns : List Node) : List String × List Node :=
  match ns with
  | n :: rest =>
    if n.isLeaf "<" then
      match afterAngles 0 rest with
      | some after =>
        (parameterNames (rest.take (rest.length - after.length - 1)), after)
      | none => ([], ns)
    else ([], ns)
  | [] => ([], [])

def startsClause : List Node → Bool
  | keyword :: name :: colon :: _ =>
    keyword.isLeaf "where" && (word? name).isSome && colon.isLeaf ":"
  | _ => false

def clauseNodes : List Node → List Node
  | [] => []
  | n :: rest =>
    if startsClause (n :: rest) || n.isTree "\x7b" || n.isLeaf ";" || n.isLeaf "=>" then []
    else n :: clauseNodes rest

/-- A constraint as it is kept: without blanks, and a blank after each comma. -/
def constraintText (nodes : List Node) : String :=
  String.join ((Node.dense nodes).toList.map fun c => if c = ',' then ", " else c.toString)

def clauses : List Node → List (String × List String)
  | [] => []
  | n :: rest =>
    if startsClause (n :: rest) then
      let name := (rest.head?.bind word?).getD ""
      let parts := (splitCommas 0 (clauseNodes (rest.drop 2))).filter fun piece => !piece.isEmpty
      (bareName name, parts.map constraintText) :: clauses rest
    else clauses rest

def isTypeLike (n : Node) : Bool :=
  match n with
  | .leaf t => t.kind = .word || t.is "." || t.is "," || t.is "?" || t.is "*" || t.is "::" ||
      t.is "<" || t.is ">"
  | .tree opening _ _ => opening.is "(" || opening.is "["
  | .branches _ => false

def afterArguments (rest : List Node) : Option (List Node) :=
  match afterAngles 0 rest with
  | some after =>
    let inner := rest.take (rest.length - after.length - 1)
    let next := after.head?
    if inner.all isTypeLike &&
        (next.isNone || next.any fun n =>
          (word? n).isNone && (match n with | .leaf t => t.kind ≠ .literal | _ => true))
    then some after else none
  | none => none

def afterComma : Nat → List Node → Option (List Node)
  | 0, _ => none
  | fuel + 1, ns =>
    match ns with
    | [] => none
    | n :: rest =>
      if n.isLeaf "," then some rest
      else if n.isLeaf "<" then afterComma fuel ((afterArguments rest).getD rest)
      else afterComma fuel rest

def declaratorNames : Nat → List Node → List String
  | 0, _ => []
  | fuel + 1, ns =>
    match ns with
    | n :: rest =>
      match word? n with
      | some name =>
        bareName name ::
          match afterComma rest.length rest with
          | some more => declaratorNames fuel more
          | none => []
      | none => []
    | [] => []

inductive MemberShape where
  | variables (names : List String)
  | property (name : String)
  | method (name : String)
  | other
  deriving DecidableEq, Repr

/-- The shape of a member from its name on. A name with a dot after it belongs to an interface that
the member implements, and such members cannot be reached by name. -/
def shapeAt (ns : List Node) : MemberShape :=
  match ns with
  | n :: next :: _ =>
    match word? n with
    | none => .other
    | some name =>
      if name = "this" || next.isLeaf "." || next.isLeaf "::" then .other
      else if next.isTree "(" then .method (bareName name)
      else if next.isLeaf "<" then
        match afterAngles 0 (ns.drop 2) with
        | some (m :: _) => if m.isTree "(" then .method (bareName name) else .other
        | _ => .other
      else if next.isTree "\x7b" || next.isLeaf "=>" then .property (bareName name)
      else .variables (declaratorNames ns.length ns)
  | _ => .other

/-- The shape of a member that starts with its type. A name and parentheses alone are a
constructor. -/
def memberShape (ns : List Node) : MemberShape :=
  match ns with
  | n :: next :: _ =>
    if (word? n).isSome && next.isTree "(" then .other
    else
      match skipType ns with
      | some rest => shapeAt rest
      | none => .other
  | _ => .other

def memberOf (modifiers : List String) (ns : List Node) : List Declaration :=
  if ns.any (isLeaf "operator") && !(ns.takeWhile fun n => !n.isLeaf "operator").any
      (fun n => n.isTree "(" || n.isLeaf "=" || n.isLeaf "=>" || n.isTree "\x7b") then []
  else
    match ns with
    | [] => []
    | n :: rest =>
      if n.isLeaf "event" then
        match memberShape rest with
        | .variables names => [.members .event modifiers names]
        | .property name => [.members .event modifiers [name]]
        | _ => []
      else
        match memberShape ns with
        | .variables names => [.members .field modifiers names]
        | .property name => [.members .property modifiers [name]]
        | .method name => [.members .method modifiers [name]]
        | .other => []

/-! Type declarations. -/

def typeKeyword (ns : List Node) : Option (TypeKind × List Node) :=
  match ns with
  | [] => none
  | n :: rest =>
    match word? n with
    | some "class" => some (.classKind, rest)
    | some "struct" => some (.structKind, rest)
    | some "interface" => some (.interfaceKind, rest)
    | some "enum" => some (.enumKind, rest)
    | some "record" =>
      match rest with
      | m :: more =>
        if m.isLeaf "struct" then some (.structKind, more)
        else if m.isLeaf "class" then some (.classKind, more)
        else if (word? m).isSome && more.head?.any (fun k =>
            k.isTree "(" || k.isTree "\x7b" || k.isLeaf "<" || k.isLeaf ":" || k.isLeaf ";" ||
              k.isLeaf "where") then some (.classKind, rest)
        else none
      | [] => none
    | _ => none

def takeHeader (ns : List Node) : Option (String × List String × List Node) :=
  match ns with
  | [] => none
  | n :: rest =>
    (word? n).map fun name =>
      let (parameters, after) := takeParameters rest
      (bareName name, parameters, after)

def bodyOf (ns : List Node) : List Node :=
  match ns.getLast? with
  | some (.tree opening inner _) => if opening.is "\x7b" then inner else []
  | _ => []

def typeHeader (kind : TypeKind) (isDelegate : Bool) (attributes : List AttributeText)
    (modifiers : List String) (ns : List Node) : Option TypeHeader :=
  (takeHeader ns).map fun (name, parameters, after) =>
    { name, kind, isDelegate, modifiers, parameters, attributes,
      constraints := assignAll (clauses after) }

/-- The delegate that an item declares, from the nodes after its keyword. Its result may be a
reference, marked by words before the type. -/
def delegateHeader (attributes : List AttributeText) (modifiers : List String) (ns : List Node) :
    Option TypeHeader :=
  (skipType (takeModifiers ns).2).bind fun rest =>
    typeHeader .classKind true attributes modifiers rest

def namespaceParts (ns : List Node) : String × Option (List Node) :=
  match ns.getLast? with
  | some (.tree _ inner _) => (Node.dense ns.dropLast, some inner)
  | _ => (Node.dense ns.dropLast, none)

inductive Item where
  | namespaceBlock (name : String) (body : List Node)
  | namespaceLine (name : String)
  | assembly (attributes : List AttributeText)
  | type (header : TypeHeader) (body : List Node)
  | group (bodies : List (List Node))
  | members (declarations : List Declaration)

def itemOf (ns : List Node) : Item :=
  match ns with
  | [.branches bodies] => .group bodies
  | [n] =>
    if isGlobalList n then .assembly (if isAssemblyList n then attributesOf n else [])
    else .members []
  | _ =>
    let (attributes, rest) := takeAttributes ns
    let (modifiers, rest) := takeModifiers rest
    match rest with
    | [] => .members []
    | n :: after =>
      if n.isLeaf "namespace" then
        match namespaceParts after with
        | (name, some body) => .namespaceBlock name body
        | (name, none) => .namespaceLine name
      else
        match typeKeyword rest with
        | some (kind, named) =>
          match typeHeader kind false attributes modifiers named with
          | some header => .type header (if kind = .enumKind then [] else bodyOf named)
          | none => .members []
        | none =>
          if n.isLeaf "delegate" && !(after.head?.any (isLeaf "*")) then
            match delegateHeader attributes modifiers after with
            | some header => .type header []
            | none => .members []
          else .members (memberOf modifiers rest)

mutual

/-- The declarations of a list of nodes, with an allowance for the depth of nesting. -/
def declarations : Nat → List Node → List Declaration
  | 0, _ => []
  | fuel + 1, ns => (items [] {} ns).flatMap fun item =>
    match itemOf item with
    | .namespaceBlock name body => [.namespaceBlock name (declarations fuel body)]
    | .namespaceLine name => [.namespaceLine name]
    | .assembly attributes => [.assemblyAttributes attributes]
    | .type header body => [.type header (declarations fuel body)]
    | .group bodies => [groupOf fuel bodies]
    | .members found => found

/-- The parts under a condition. Each further part belongs to the one before it. -/
def groupOf : Nat → List (List Node) → Declaration
  | 0, _ => .group []
  | _, [] => .group []
  | fuel + 1, [body] => .group (declarations fuel body)
  | fuel + 1, body :: more => .group (declarations fuel body ++ [groupOf fuel more])

end

def read (text : String) : List Declaration :=
  let tokens := Token.scan text.toList
  declarations (2 * tokens.length + 2) (Node.ofTokens tokens)

end HiddenNames.CSharp.Reader
