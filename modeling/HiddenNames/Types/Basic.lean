/-!
The vocabulary of declarations: how visible a type or member is, what kind of thing it is, and which
of the three ways of looking at a program described it.
-/

namespace HiddenNames

inductive Visibility where
  | pub
  | protInternal
  | internal
  | prot
  | privProt
  | priv
  deriving DecidableEq, Repr

namespace Visibility

def text : Visibility → String
  | .pub => "public"
  | .protInternal => "protected internal"
  | .internal => "internal"
  | .prot => "protected"
  | .privProt => "private protected"
  | .priv => "private"

def byBreadth : List Visibility :=
  [.pub, .protInternal, .internal, .prot, .privProt, .priv]

def broadest (found : List Visibility) : Visibility :=
  (byBreadth.find? (· ∈ found)).getD .priv

end Visibility

inductive TypeKind where
  | classKind
  | structKind
  | interfaceKind
  | enumKind
  deriving DecidableEq, Repr

def TypeKind.text : TypeKind → String
  | .classKind => "class"
  | .structKind => "struct"
  | .interfaceKind => "interface"
  | .enumKind => "enum"

inductive MemberKind where
  | field
  | property
  | event
  | method
  deriving DecidableEq, Repr

def MemberKind.text : MemberKind → String
  | .field => "field"
  | .property => "property"
  | .event => "event"
  | .method => "method"

/-- The way a type came to be described: from the program's sources, by reflection over a loaded
module, or from the metadata tables of a file. -/
inductive Tier where
  | static
  | loaded
  | metadata
  deriving DecidableEq, Repr

def Tier.text : Tier → String
  | .static => "static"
  | .loaded => "loaded"
  | .metadata => "metadata"

/-- How much of the nesting chain decides whether a type is exposed: the type with every type around
it, or its own declaration alone. -/
inductive Exposure where
  | chain
  | declared
  deriving DecidableEq, Repr

def Exposure.text : Exposure → String
  | .chain => "chain"
  | .declared => "declared"

inductive Access where
  | pub
  | internal
  deriving DecidableEq, Repr

def Access.text : Access → String
  | .pub => "public"
  | .internal => "internal"

def isSynthesizedName (name : String) : Bool := name.toList.head? == some '<'

/-- One declared member. `special` marks constructors, operators and the methods behind properties
and events. -/
structure Member where
  name : String
  kind : MemberKind
  visibility : Visibility
  special : Bool := false
  deriving DecidableEq, Repr

def Member.isSynthesized (m : Member) : Bool := isSynthesizedName m.name

end HiddenNames
