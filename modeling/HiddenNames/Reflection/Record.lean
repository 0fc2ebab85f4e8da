import HiddenNames.Types.Record

/-!
Type records from what a running module tells about its types.
-/

namespace HiddenNames.Reflection

structure MemberTraits where
  isPublic : Bool := false
  isFamilyOrAssembly : Bool := false
  isAssembly : Bool := false
  isFamily : Bool := false
  isFamilyAndAssembly : Bool := false
  isSpecialName : Bool := false
  deriving DecidableEq, Repr

structure TypeTraits where
  isPublic : Bool := false
  isNestedPublic : Bool := false
  isNestedPrivate : Bool := false
  isNestedFamily : Bool := false
  isNestedFamilyAndAssembly : Bool := false
  isNestedFamilyOrAssembly : Bool := false
  isInterface : Bool := false
  isEnum : Bool := false
  isValueType : Bool := false
  deriving DecidableEq, Repr

structure MemberInfo where
  name : String
  traits : MemberTraits := {}
  deriving DecidableEq, Repr

structure GroupInfo where
  name : String
  accessors : List (Option MemberInfo) := []
  deriving DecidableEq, Repr

structure TypeInfo where
  name : String
  space? : Option String := none
  traits : TypeTraits := {}
  fields : List MemberInfo := []
  properties : List GroupInfo := []
  events : List GroupInfo := []
  methods : List MemberInfo := []
  deriving DecidableEq, Repr, Inhabited

inductive ReflectedType where
  | node (info : TypeInfo) (nested : List ReflectedType)
  deriving Inhabited

def ReflectedType.info : ReflectedType → TypeInfo
  | .node info _ => info

def ReflectedType.nested : ReflectedType → List ReflectedType
  | .node _ nested => nested

def TypeTraits.visibility (t : TypeTraits) : Visibility :=
  if t.isPublic || t.isNestedPublic then .pub
  else if t.isNestedPrivate then .priv
  else if t.isNestedFamily then .prot
  else if t.isNestedFamilyAndAssembly then .privProt
  else if t.isNestedFamilyOrAssembly then .protInternal
  else .internal

def TypeTraits.kind (t : TypeTraits) : TypeKind :=
  if t.isInterface then .interfaceKind
  else if t.isEnum then .enumKind
  else if t.isValueType then .structKind
  else .classKind

def MemberTraits.visibility (t : MemberTraits) : Visibility :=
  if t.isPublic then .pub
  else if t.isFamilyOrAssembly then .protInternal
  else if t.isAssembly then .internal
  else if t.isFamily then .prot
  else if t.isFamilyAndAssembly then .privProt
  else .priv

def GroupInfo.visibility (g : GroupInfo) : Visibility :=
  Visibility.broadest (g.accessors.filterMap fun m => m.map fun m => m.traits.visibility)

def TypeInfo.members (t : TypeInfo) : List Member :=
  (t.fields.map fun f => { name := f.name, kind := .field, visibility := f.traits.visibility })
    ++ (t.properties.map fun g => { name := g.name, kind := .property, visibility := g.visibility })
    ++ (t.events.map fun g => { name := g.name, kind := .event, visibility := g.visibility })
    ++ t.methods.map fun m =>
      { name := m.name, kind := .method, visibility := m.traits.visibility,
        special := m.traits.isSpecialName }

/-- The head of a type's record. An empty namespace is none. -/
def TypeInfo.head (t : TypeInfo) (arity : Nat) (members : List Member) : RecordHead where
  name := t.name
  space? := namedSpace t.space?
  kind := t.traits.kind
  visibility := t.traits.visibility
  parameters := TypeRecord.parameterNames arity
  members := members

mutual

def ReflectedType.record : ReflectedType → Except ArityError TypeRecord
  | .node info nested =>
    match splitArity info.name with
    | .error e => .error e
    | .ok (_, arity) =>
      match records nested with
      | .error e => .error e
      | .ok nested => .ok (.node (info.head arity info.members) nested)

def records : List ReflectedType → Except ArityError (List TypeRecord)
  | [] => .ok []
  | t :: rest =>
    match t.record with
    | .error e => .error e
    | .ok r => (records rest).map (r :: ·)

end

/-- The record of an enclosing type, without members and nested types. -/
def TypeInfo.shell (t : TypeInfo) : Except ArityError RecordHead :=
  (splitArity t.name).map fun (_, arity) => t.head arity []

structure Found where
  outer : List RecordHead
  record : TypeRecord

def shells : List TypeInfo → Except ArityError (List RecordHead)
  | [] => .ok []
  | t :: rest =>
    match t.shell with
    | .error e => .error e
    | .ok head => (shells rest).map (head :: ·)

def Found.view (f : Found) : TypeView where
  tier := .loaded
  space? := match f.outer with
    | head :: _ => head.space?
    | [] => f.record.head.space?
  outer := f.outer.map RecordHead.typeHead
  tree := f.record.tree

structure Listed where
  fullName : String
  outer : List TypeInfo
  type : ReflectedType

def TypeInfo.outermostName (t : TypeInfo) : String := qualified t.space? t.name

mutual

def listing (outer : List TypeInfo) (fullName : String) : ReflectedType → List Listed
  | .node info nested =>
    ⟨fullName, outer, .node info nested⟩ :: listings (outer ++ [info]) fullName nested

def listings (outer : List TypeInfo) (ownerName : String) : List ReflectedType → List Listed
  | [] => []
  | t :: rest =>
    listing outer (ownerName ++ "+" ++ t.info.name) t ++ listings outer ownerName rest

end

def allTypes (types : List ReflectedType) : List Listed :=
  types.flatMap fun t => listing [] t.info.outermostName t

def describe (listed : Listed) : Except ArityError Found :=
  match listed.type.record with
  | .error e => .error e
  | .ok record => (shells listed.outer).map fun outer => ⟨outer, record⟩

def findType (types : List ReflectedType) (fullName : String) : Except ArityError (Option Found) :=
  match (allTypes types).find? fun listed => listed.fullName = fullName with
  | none => .ok none
  | some listed => (describe listed).map some

end HiddenNames.Reflection
