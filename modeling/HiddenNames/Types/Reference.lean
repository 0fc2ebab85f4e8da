import HiddenNames.Text.Basic

/-!
Type references as a program writes them: an optional alias and dotted segments, each with type
arguments of its own. An argument left open, as in a dictionary of unnamed types, is `none`.
-/

namespace HiddenNames

mutual

inductive TypeRef where
  | mk (alias? : Option String) (segments : List TypeSegment)

inductive TypeSegment where
  | mk (name : String) (arguments : List (Option TypeRef))

end

namespace TypeSegment

def name : TypeSegment → String
  | .mk name _ => name

def arguments : TypeSegment → List (Option TypeRef)
  | .mk _ arguments => arguments

def arity (segment : TypeSegment) : Nat := segment.arguments.length

end TypeSegment

namespace TypeRef

def alias? : TypeRef → Option String
  | .mk alias? _ => alias?

def segments : TypeRef → List TypeSegment
  | .mk _ segments => segments

def dotted (ref : TypeRef) : String := ".".intercalate (ref.segments.map TypeSegment.name)

def arity (ref : TypeRef) : Nat := (ref.segments.getLast?.map TypeSegment.arity).getD 0

def path (ref : TypeRef) : List (String × Nat) :=
  ref.segments.map fun segment => (segment.name, segment.arity)

/-- The alias as it is written in front of a reference. An empty alias is not written. -/
def aliasText : Option String → String
  | some text => if text = "" then "" else text ++ "::"
  | none => ""

mutual

def text : TypeRef → String
  | .mk alias? segments => aliasText alias? ++ ".".intercalate (segmentTexts segments)

def segmentTexts : List TypeSegment → List String
  | [] => []
  | segment :: rest => segmentText segment :: segmentTexts rest

def segmentText : TypeSegment → String
  | .mk name [] => name
  | .mk name (argument :: rest) =>
    name ++ "<" ++ ", ".intercalate (argumentTexts (argument :: rest)) ++ ">"

def argumentTexts : List (Option TypeRef) → List String
  | [] => []
  | argument :: rest => argumentText argument :: argumentTexts rest

def argumentText : Option TypeRef → String
  | none => ""
  | some ref => text ref

end

def cutAlias : List Char → Option (List Char × List Char)
  | [] => none
  | ':' :: ':' :: rest => some ([], rest)
  | c :: rest => (cutAlias rest).map fun (before, name) => (c :: before, name)

def ofDotted (name : String) : TypeRef :=
  match cutAlias name.toList with
  | some (before, rest) => .mk (some (String.ofList before)) (segmentsOf (String.ofList rest))
  | none => .mk none (segmentsOf name)
where
  segmentsOf (dotted : String) : List TypeSegment :=
    (Text.split '.' dotted).map fun part => .mk part []

def names (ref : TypeRef) (declared : List (String × Nat)) : Bool := declared = ref.path

/-- Whether a declared path ends in the written one, the written one being shorter. Only references
without an alias leave out a namespace. -/
def namesTail (ref : TypeRef) (declared : List (String × Nat)) : Bool :=
  ref.alias?.isNone && !ref.segments.isEmpty && declared ≠ ref.path &&
    ref.path.isSuffixOf declared

end TypeRef

def matchRef {α : Type} (pathOf : α → List (String × Nat)) (candidates : List α) (ref : TypeRef) :
    List α × List α :=
  (candidates.filter fun c => ref.names (pathOf c),
    candidates.filter fun c => ref.namesTail (pathOf c))

end HiddenNames
