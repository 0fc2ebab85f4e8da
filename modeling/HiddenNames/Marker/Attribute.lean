import HiddenNames.Marker.Token
import HiddenNames.Types.Reference

/-!
The grammar of attributes: a dotted name with an optional alias, type arguments, and arguments in
parentheses that are type expressions, strings or constants, each with or without a name.
-/

namespace HiddenNames.Marker

structure DottedName where
  alias? : Option String
  parts : List String
  deriving DecidableEq, Repr

/-- The value of an argument. A literal keeps its raw text. -/
inductive Value where
  | typeOf (ref : TypeRef)
  | regular (raw : List Char)
  | verbatim (raw : List Char)
  | constant (name : DottedName)

structure Argument where
  name? : Option String
  value : Value

structure Attribute where
  name : DottedName
  typeArguments : List (Option TypeRef)
  arguments : List Argument

def nameOf (text : String) : String := String.ofList (text.toList.dropWhile (· = '@'))

/-- The commas of an open argument list and the tokens after its closing bracket. -/
def openList : List Token → Option (Nat × List Token)
  | .comma :: rest => (openList rest).map fun (commas, after) => (commas + 1, after)
  | .greater :: rest => some (0, rest)
  | _ => none

def takeAlias : List Token → Option String × List Token
  | .ident text :: .doubleColon :: rest => (some (nameOf text), rest)
  | ts => (none, ts)

mutual

def takeRef : Nat → List Token → Option (TypeRef × List Token)
  | 0, _ => none
  | fuel + 1, ts =>
    let (alias?, rest) := takeAlias ts
    (takeSegments fuel rest).map fun (segments, after) => (.mk alias? segments, after)

def takeSegments : Nat → List Token → Option (List TypeSegment × List Token)
  | 0, _ => none
  | fuel + 1, ts =>
    match ts with
    | .ident text :: rest =>
      match takeTypeArguments fuel rest with
      | some (arguments, .dot :: after) =>
        (takeSegments fuel after).map fun (more, after) =>
          (.mk (nameOf text) arguments :: more, after)
      | some (arguments, after) => some ([.mk (nameOf text) arguments], after)
      | none => none
    | _ => none

def takeTypeArguments : Nat → List Token → Option (List (Option TypeRef) × List Token)
  | 0, _ => none
  | fuel + 1, ts =>
    match ts with
    | .less :: rest =>
      match openList rest with
      | some (commas, after) => some (List.replicate (commas + 1) none, after)
      | none => takeRefs fuel rest
    | _ => some ([], ts)

def takeRefs : Nat → List Token → Option (List (Option TypeRef) × List Token)
  | 0, _ => none
  | fuel + 1, ts =>
    match takeRef fuel ts with
    | some (ref, .comma :: after) =>
      (takeRefs fuel after).map fun (more, after) => (some ref :: more, after)
    | some (ref, .greater :: after) => some ([some ref], after)
    | _ => none

end

def takeParts : List Token → Option (List String × List Token)
  | .ident text :: .dot :: rest =>
    (takeParts rest).map fun (more, after) => (nameOf text :: more, after)
  | .ident text :: rest => some ([nameOf text], rest)
  | _ => none

def takeDottedName (ts : List Token) : Option (DottedName × List Token) :=
  let (alias?, rest) := takeAlias ts
  (takeParts rest).map fun (parts, after) => (⟨alias?, parts⟩, after)

/-- Steps enough for the references among so many tokens: no more than three nested calls are made
before a token is taken. -/
def refFuel (ts : List Token) : Nat := 4 * ts.length + 4

def takeValue : List Token → Option (Value × List Token)
  | .ident "typeof" :: .opening :: rest =>
    match takeRef (refFuel rest) rest with
    | some (ref, .closing :: after) => some (.typeOf ref, after)
    | _ => none
  | .regular raw :: rest => some (.regular raw, rest)
  | .verbatim raw :: rest => some (.verbatim raw, rest)
  | ts => (takeDottedName ts).map fun (name, after) => (.constant name, after)

def takeArgument : List Token → Option (Argument × List Token)
  | .ident text :: .colon :: rest =>
    (takeValue rest).map fun (value, after) => (⟨some (nameOf text), value⟩, after)
  | ts => (takeValue ts).map fun (value, after) => (⟨none, value⟩, after)

def takeArguments : Nat → List Token → Option (List Argument × List Token)
  | 0, _ => none
  | fuel + 1, ts =>
    match takeArgument ts with
    | some (argument, .comma :: after) =>
      (takeArguments fuel after).map fun (more, after) => (argument :: more, after)
    | some (argument, .closing :: after) => some ([argument], after)
    | _ => none

def takeArgumentList : List Token → Option (List Argument × List Token)
  | .opening :: .closing :: rest => some ([], rest)
  | .opening :: rest => takeArguments rest.length rest
  | ts => some ([], ts)

def Attribute.ofTokens? (ts : List Token) : Option Attribute :=
  match takeDottedName ts with
  | none => none
  | some (name, rest) =>
    match takeTypeArguments (refFuel rest) rest with
    | none => none
    | some (typeArguments, rest) =>
      match takeArgumentList rest with
      | some (arguments, []) => some ⟨name, typeArguments, arguments⟩
      | _ => none

def Attribute.parse? (text : String) : Option Attribute :=
  (Token.scan text.toList).bind Attribute.ofTokens?

end HiddenNames.Marker
