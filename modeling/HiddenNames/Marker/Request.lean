import HiddenNames.CSharp.Literal
import HiddenNames.Marker.Attribute
import HiddenNames.Request

/-!
What a marker asks for. Attributes of other names are no markers and are not read; a marker that
cannot be read, or whose arguments make no request, is an error.
-/

namespace HiddenNames

/-- A marker that was read. Without a request it asks for every type of the program. -/
structure Marker where
  request? : Option Request
  access : Option Access := none

namespace Marker

def markerNames : List String := ["GenerateNameof", "GenerateNameofAttribute"]

inductive Fault where
  | notReadable (text : String)
  | badEscape (sequence : String)
  | oneTypeArgument
  | unknownAccess (name : String)
  | unsupportedArgument (name : String)
  | oneAnchor
  | moduleNeeded
  | unsupportedArguments
  | notMarker (text : String)
  | noType (text : String)
  deriving DecidableEq, Repr

def Fault.message : Fault → String
  | .notReadable text => "Cannot parse marker " ++ Text.quoted text
  | .badEscape sequence => "Invalid escape sequence " ++ sequence
  | .oneTypeArgument => "GenerateNameof<T> takes exactly one type argument"
  | .unknownAccess name => "Unknown access modifier " ++ name
  | .unsupportedArgument name => "Unsupported argument " ++ name
  | .oneAnchor => "GenerateNameof(fullTypeName, ...) takes one anchor"
  | .moduleNeeded => "GenerateNameof(fullTypeName) needs assemblyOf or assemblyName"
  | .unsupportedArguments => "Unsupported GenerateNameof arguments"
  | .notMarker text => Text.quoted text ++ " is not a GenerateNameof attribute"
  | .noType text => Text.quoted text ++ " does not name a type"

def isNameChar (c : Char) : Bool := Unicode.isWord c || c = '.' || c = '@'

def afterAlias (cs : List Char) : Option (List Char) :=
  let word := match cs with
    | '@' :: rest => rest
    | _ => cs
  if (word.takeWhile Unicode.isWord).isEmpty then none
  else
    match (word.dropWhile Unicode.isWord).dropWhile Unicode.isBlank with
    | ':' :: ':' :: rest => some (rest.dropWhile Unicode.isBlank)
    | _ => none

/-- The dotted name at the front of a text, after an alias if one stands there. -/
def leadingName (cs : List Char) : List Char :=
  let start := cs.dropWhile Unicode.isBlank
  let named := ((afterAlias start).getD []).takeWhile isNameChar
  if named.isEmpty then start.takeWhile isNameChar else named

def isMarkerName (text : String) : Bool :=
  match (Text.splitAt '.' (leadingName text.toList)).getLast? with
  | some part => String.ofList (part.dropWhile (· = '@')) ∈ markerNames
  | none => false

inductive Meaning where
  | typeOf (ref : TypeRef)
  | string (text : String)
  | constant (parts : List String)

def Value.meaning : Value → Except Fault Meaning
  | .typeOf ref => .ok (.typeOf ref)
  | .regular raw =>
    match CSharp.Literal.readRegular raw with
    | .ok cs => .ok (.string (String.ofList cs))
    | .error sequence => .error (.badEscape sequence)
  | .verbatim raw => .ok (.string (String.ofList (CSharp.Literal.readVerbatim raw)))
  | .constant name => .ok (.constant name.parts)

/-- The access that a constant stands for, which its last part tells in any case of letters. -/
def accessOf (parts : List String) : Except Fault Access :=
  let last := String.ofList ((parts.getLast?.getD "").toList.map Char.toLower)
  if last = Access.pub.text then .ok .pub
  else if last = Access.internal.text then .ok .internal
  else .error (.unknownAccess (".".intercalate parts))

structure Arguments where
  positional : List Meaning := []
  access : Option Access := none
  anchor : Option TypeRef := none
  module? : Option String := none

namespace Arguments

/-- Takes one more argument. Of repeated ones the last counts. -/
def insert (args : Arguments) (name? : Option String) (value : Meaning) : Except Fault Arguments :=
  match name?, value with
  | none, .constant parts => (accessOf parts).map fun access => { args with access := some access }
  | none, value => .ok { args with positional := args.positional ++ [value] }
  | some name, value =>
    if name = "accessModifier" then
      match value with
      | .constant parts => (accessOf parts).map fun access => { args with access := some access }
      | _ => .error (.unsupportedArgument name)
    else if name ∈ ["assemblyOf", "inAssemblyOf", "assemblyWhere"] then
      match value with
      | .typeOf ref => .ok { args with anchor := some ref }
      | _ => .error (.unsupportedArgument name)
    else if name = "assemblyName" then
      match value with
      | .string text => .ok { args with module? := some text }
      | _ => .error (.unsupportedArgument name)
    else .error (.unsupportedArgument name)

def collect (args : Arguments) : List (Option String × Meaning) → Except Fault Arguments
  | [] => .ok args
  | (name?, value) :: rest =>
    match args.insert name? value with
    | .ok args => args.collect rest
    | .error e => .error e

def marker (args : Arguments) (declared? : Option TypeRef) : Except Fault Marker :=
  match args.positional with
  | [] =>
    if args.anchor.isNone && args.module?.isNone then
      .ok ⟨declared?.map fun ref => Request.direct ref args.access, args.access⟩
    else .error .unsupportedArguments
  | [.typeOf ref] =>
    if args.anchor.isNone then .ok ⟨some (Request.direct ref args.access), args.access⟩
    else .error .unsupportedArguments
  | .string fullName :: rest =>
    match rest, args.anchor with
    | [], anchor =>
      match Home.ofParts? anchor args.module? with
      | none => .error .moduleNeeded
      | some home => .ok ⟨some ⟨.textual fullName, home, args.access⟩, args.access⟩
    | [.typeOf ref], none =>
      .ok ⟨some ⟨.textual fullName, Home.anchored ref args.module?, args.access⟩, args.access⟩
    | _, _ => .error .oneAnchor
  | _ => .error .unsupportedArguments

end Arguments

def meanings : List Argument → Except Fault (List (Option String × Meaning))
  | [] => .ok []
  | argument :: rest =>
    match argument.value.meaning with
    | .error e => .error e
    | .ok value => (meanings rest).map ((argument.name?, value) :: ·)

/-- The marker that an attribute is. Type arguments decide alone when there are any. -/
def Attribute.marker (attr : Attribute) (declared? : Option TypeRef) :
    Except Fault Marker :=
  match meanings attr.arguments with
  | .error e => .error e
  | .ok values =>
    match attr.typeArguments with
    | [] =>
      match Arguments.collect {} values with
      | .error e => .error e
      | .ok args => args.marker declared?
    | [some ref] => .ok ⟨some (Request.direct ref), none⟩
    | _ => .error .oneTypeArgument

/-- Reads the text of an attribute. The answer is `none` for attributes that are no markers. -/
def read (text : String) (declared? : Option TypeRef) : Except Fault (Option Marker) :=
  if !isMarkerName text then .ok none
  else
    match Attribute.parse? text with
    | none => .error (.notReadable text)
    | some attr => (attr.marker declared?).map some

/-- What stands inside the brackets of an attribute, without the word that makes it apply to the
assembly. A text without brackets stands for itself. -/
def unbracketed (text : String) : String :=
  match Text.trimBlanks text.toList with
  | '[' :: rest =>
    match rest.reverse with
    | ']' :: inner =>
      String.ofList (Text.trimBlanks (afterAssembly (Text.trimBlanks inner.reverse)))
    | _ => text
  | _ => text
where
  afterAssembly (cs : List Char) : List Char :=
    if "assembly".toList.isPrefixOf cs then
      match (cs.drop "assembly".length).dropWhile Unicode.isBlank with
      | ':' :: rest => rest
      | _ => cs
    else cs

def readExtra (text : String) : Except Fault Request :=
  match read (unbracketed text) none with
  | .error e => .error e
  | .ok none => .error (.notMarker text)
  | .ok (some marker) =>
    match marker.request? with
    | none => .error (.noType text)
    | some request => .ok request

end Marker

end HiddenNames
