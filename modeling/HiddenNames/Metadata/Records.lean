import HiddenNames.Assoc
import HiddenNames.Types.Record

/-!
Type records from the rows of metadata tables. Rows name the types around them by index; the result
is a forest, keyed by the full names of its outermost types. Rows that lie on a cycle of enclosing
types, or lead to one, are in no tree.
-/

namespace HiddenNames.Metadata

structure RawMember where
  name : String
  flags : Int
  deriving DecidableEq, Repr

structure RawGroup where
  name : String
  accessorFlags : List Int := []
  deriving DecidableEq, Repr

structure RawType where
  index : Int
  name : String
  space : String := ""
  flags : Int := 0
  extends? : Option String := none
  fields : List RawMember := []
  methods : List RawMember := []
  properties : List RawGroup := []
  events : List RawGroup := []
  deriving DecidableEq, Repr

/-! Flags. -/

def typeVisibility (flags : Int) : Visibility :=
  match (flags % 8).toNat with
  | 0 => .internal
  | 1 => .pub
  | 2 => .pub
  | 3 => .priv
  | 4 => .prot
  | 5 => .internal
  | 6 => .privProt
  | _ => .protInternal

def memberVisibility (flags : Int) : Visibility :=
  match (flags % 8).toNat with
  | 2 => .privProt
  | 3 => .internal
  | 4 => .prot
  | 5 => .protInternal
  | 6 => .pub
  | _ => .priv

/-- Whether a bit is set, in two's complement for negative flags. -/
def hasBit (bit : Nat) (flags : Int) : Bool := (flags >>> bit) % 2 = 1

def isInterface (flags : Int) : Bool := hasBit 5 flags

def isSpecialName (flags : Int) : Bool := hasBit 11 flags

/-! Rows. -/

def RawType.key (raw : RawType) : String := qualified (some raw.space) raw.name

def RawType.kind (raw : RawType) : TypeKind :=
  if isInterface raw.flags then .interfaceKind
  else if raw.space ++ "." ++ raw.name = "System.Enum" then .classKind
  else if raw.extends? = some "System.Enum" then .enumKind
  else if raw.extends? = some "System.ValueType" then .structKind
  else .classKind

/-- A property or event is as visible as its most visible accessor. -/
def RawGroup.visibility (group : RawGroup) : Visibility :=
  Visibility.broadest (group.accessorFlags.map memberVisibility)

def RawType.members (raw : RawType) : List Member :=
  (raw.fields.map fun f =>
    { name := f.name, kind := .field, visibility := memberVisibility f.flags })
    ++ (raw.methods.map fun m =>
      { name := m.name, kind := .method, visibility := memberVisibility m.flags,
        special := isSpecialName m.flags })
    ++ (raw.properties.map fun g =>
      { name := g.name, kind := .property, visibility := g.visibility })
    ++ raw.events.map fun g => { name := g.name, kind := .event, visibility := g.visibility }

def RawType.head (raw : RawType) (arity : Nat) : RecordHead where
  name := raw.name
  space? := if raw.space = "" then none else some raw.space
  kind := raw.kind
  visibility := typeVisibility raw.flags
  parameters := TypeRecord.parameterNames arity
  members := raw.members

def RawType.arity (raw : RawType) : Nat :=
  match splitArity raw.name with
  | .ok (_, arity) => arity
  | .error _ => 0

/-- The name of the type that holds what belongs to no type. -/
def moduleType : String := "<Module>"

/-- Types of a module by full name, in the order of their rows. -/
abbrev Records := List (String × TypeRecord)

/-- The rows that count: of several with one index the last. -/
def distinctRows (rows : List RawType) : List RawType :=
  (assignAll (rows.map fun raw => (raw.index, raw))).map Prod.snd

def orderedRows (rows : List RawType) : List RawType :=
  (distinctRows rows).mergeSort fun a b => decide (a.index ≤ b.index)

/-- Index pairs as a map from a type to the type around it. The last pair for a type counts. -/
def enclosingOf (nesting : List (Int × Int)) : List (Int × Int) := assignAll nesting

def ownerOf (rows : List RawType) (enclosing : List (Int × Int)) (raw : RawType) : Option Int :=
  (enclosing.lookup raw.index).filter fun owner => rows.any fun r => r.index = owner

/-- The record of a row with all rows inside it. The number of rows bounds the depth of nesting. -/
def recordOf (rows : List RawType) (enclosing : List (Int × Int)) : Nat → RawType → TypeRecord
  | 0, raw => .node (raw.head raw.arity) []
  | fuel + 1, raw =>
    .node (raw.head raw.arity)
      ((rows.filter fun r => ownerOf rows enclosing r = some raw.index).map
        (recordOf rows enclosing fuel))

/-- The records of all rows, whose names all have arities that can be read. Of several outermost
types of one name the last counts. -/
def forest (rows : List RawType) (nesting : List (Int × Int)) : Records :=
  let rows := orderedRows rows
  let enclosing := enclosingOf nesting
  let outermost := rows.filter fun raw =>
    (ownerOf rows enclosing raw).isNone && raw.name ≠ moduleType
  assignAll (outermost.map fun raw => (raw.key, recordOf rows enclosing rows.length raw))

def arityError (rows : List RawType) : Option ArityError :=
  (distinctRows rows).findSome? fun raw =>
    match splitArity raw.name with
    | .ok _ => none
    | .error e => some e

def buildRecords (rows : List RawType) (nesting : List (Int × Int)) : Except ArityError Records :=
  match arityError rows with
  | some e => .error e
  | none => .ok (forest rows nesting)

/-- The type with a full name, in which plus signs lead to nested types. -/
def findType (records : Records) (fullName : String) (tier : Tier) :
    Except ArityError (Option TypeView) :=
  match Text.split '+' fullName with
  | [] => .ok none
  | outer :: nested =>
    match records.lookup outer with
    | none => .ok none
    | some record =>
      match record.view? tier with
      | .error e => .error e
      | .ok v => v.findNested nested

end HiddenNames.Metadata
