import HiddenNames.Text.Basic

/-!
Identifiers of generated declarations. `legalize` turns any text into a legal identifier and leaves
legal ones alone; a `Scope` hands out legal identifiers that differ from all it gave before. Two
identifiers that differ only in a leading `@` are the same name, so a scope remembers names without
it.
-/

namespace HiddenNames.Identifier

def reservedWords : List String :=
  ["abstract", "as", "base", "bool", "break", "byte", "case", "catch", "char", "checked", "class",
   "const", "continue", "decimal", "default", "delegate", "do", "double", "else", "enum", "event",
   "explicit", "extern", "false", "finally", "fixed", "float", "for", "foreach", "goto", "if",
   "implicit", "in", "int", "interface", "internal", "is", "lock", "long", "namespace", "new",
   "null", "object", "operator", "out", "override", "params", "private", "protected", "public",
   "readonly", "ref", "return", "sbyte", "sealed", "short", "sizeof", "stackalloc", "static",
   "string", "struct", "switch", "this", "throw", "true", "try", "typeof", "uint", "ulong",
   "unchecked", "unsafe", "ushort", "using", "virtual", "void", "volatile", "while"]

def contextualWords : List String :=
  ["add", "alias", "allows", "and", "args", "ascending", "async", "await", "by", "descending",
   "dynamic", "equals", "extension", "field", "file", "from", "get", "global", "group", "init",
   "into", "join", "let", "managed", "nameof", "nint", "not", "notnull", "nuint", "on", "or",
   "orderby", "partial", "record", "remove", "required", "scoped", "select", "set", "unmanaged",
   "value", "var", "when", "where", "with", "yield"]

def isKeyword (name : String) : Bool := name ∈ reservedWords || name ∈ contextualWords

def isStart (c : Char) : Bool := c == '_' || Unicode.isLetter c || Unicode.isLetterNumber c

def isPart (c : Char) : Bool :=
  isStart c || Unicode.isDecimalDigit c || Unicode.within Unicode.connectors c.toNat ||
    Unicode.within Unicode.combiningMarks c.toNat || Unicode.within Unicode.formats c.toNat

/-- An identifier without a verbatim mark; keywords count. -/
def isBareChars : List Char → Bool
  | [] => false
  | c :: rest => isStart c && rest.all isPart

def isBare (name : String) : Bool := isBareChars name.toList

/-- An identifier that a declaration can use as it stands: bare and no keyword, or `@` and then
bare. -/
def isLegal (name : String) : Bool :=
  match name.toList with
  | '@' :: rest => isBareChars rest
  | cs => isBareChars cs && !isKeyword name

def escapeKeyword (name : String) : String := if isKeyword name then "@" ++ name else name

/-- One underscore for each character that no identifier may hold, and one more in front of a text
that is empty or has no character to begin with. -/
def repair (cs : List Char) : List Char :=
  let fixed := cs.map fun c => if isPart c then c else '_'
  match cs with
  | c :: _ => if isStart c then fixed else '_' :: fixed
  | [] => '_' :: fixed

def legalize (name : String) : String :=
  match name.toList with
  | '@' :: rest =>
    if isBareChars rest then name else escapeKeyword (String.ofList (repair ('@' :: rest)))
  | cs => if isBareChars cs then escapeKeyword name else escapeKeyword (String.ofList (repair cs))

/-- A dotted or decorated name as one token of word characters. -/
def flatten (name : String) : String :=
  String.ofList (name.toList.map fun c => if Unicode.isWord c then c else '_')

def plain (name : String) : String :=
  match name.toList with
  | '@' :: rest => String.ofList rest
  | _ => name

/-- The least number from `k` on that is free, looking at no more than `fuel` numbers. With as much
fuel as there are taken numbers the answer is always free. -/
def leastFree (free : Nat → Bool) : Nat → Nat → Nat
  | 0, k => k
  | fuel + 1, k => if free k then k else leastFree free fuel (k + 1)

def numbered (name : String) (k : Nat) : String := name ++ "_" ++ toString k

structure Scope where
  taken : List String
  deriving Repr

namespace Scope

def ofReserved (reserved : List String) : Scope := ⟨reserved.map plain⟩

def isFree (scope : Scope) (identifier : String) : Bool := plain identifier ∉ scope.taken

def take (scope : Scope) (identifier : String) : Scope := ⟨plain identifier :: scope.taken⟩

/-- The legal form of a name if it is free, else the plain form with the least free number from two
on. -/
def choose (scope : Scope) (name : String) : String :=
  let identifier := legalize name
  if scope.isFree identifier then identifier
  else
    let candidate := fun k => legalize (numbered (plain identifier) k)
    candidate (leastFree (fun k => scope.isFree (candidate k)) scope.taken.length 2)

def claim (scope : Scope) (name : String) : String × Scope :=
  let identifier := scope.choose name
  (identifier, scope.take identifier)

def claimAll (scope : Scope) : List String → List String × Scope
  | [] => ([], scope)
  | name :: rest =>
    let (identifier, scope) := scope.claim name
    let (more, scope) := scope.claimAll rest
    (identifier :: more, scope)

end Scope

end HiddenNames.Identifier

namespace HiddenNames

/-! Full names that a textual request may give: plain top-level types, without any of the signs for
arities, nested types, arrays, pointers and type arguments. -/

def unsupportedSigns : List Char := ['\x60', '+', '[', ']', '*', '&', ',', '<', '>']

def isSupportedFullName (fullName : String) : Bool :=
  fullName ≠ "" && !(fullName.toList.any (· ∈ unsupportedSigns)) &&
    (Text.split '.' fullName).all Identifier.isBare

end HiddenNames
