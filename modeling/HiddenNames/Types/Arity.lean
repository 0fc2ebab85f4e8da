import HiddenNames.Text.Basic

/-!
Names with a generic arity, such as `List` with one parameter, which compiled modules spell as the
name, a grave accent and the count. A suffix that is no numeral belongs to the name; one made of
digit forms that are not all decimal digits is an error.
-/

namespace HiddenNames

inductive ArityError where
  | notDecimal (suffix : String)
  | tooLong (digits : Nat)
  deriving DecidableEq, Repr

def longestNumeral : Nat := 4300

def ArityError.message : ArityError → String
  | .notDecimal suffix =>
    "invalid literal for int() with base 10: " ++
      String.ofList ((Text.quoted suffix).toList.take 200)
  | .tooLong digits =>
    "Exceeds the limit (" ++ toString longestNumeral ++
      " digits) for integer string conversion: value has " ++ toString digits ++
      " digits; use sys.set_int_max_str_digits() to increase the limit"

def numeralValue (digits : List Nat) : Nat := digits.foldl (fun value d => 10 * value + d) 0

/-- Reads a numeral written in decimal digits of any script. The limit on its length counts the
decimal digits it begins with. -/
def readNumeral (cs : List Char) : Except ArityError Nat :=
  let leading := (cs.takeWhile Unicode.isDecimalDigit).length
  if longestNumeral < leading then .error (.tooLong leading)
  else
    match cs.mapM Unicode.digitValue? with
    | none => .error (.notDecimal (String.ofList cs))
    | some digits => .ok (numeralValue digits)

def arityMark : Char := '\x60'

/-- The name and arity of a metadata name. Without a numeral after the first mark the whole text is
the name and the arity is zero. -/
def splitArity (metadataName : String) : Except ArityError (String × Nat) :=
  match Text.cutAt arityMark metadataName.toList with
  | none => .ok (metadataName, 0)
  | some (name, suffix) =>
    if suffix.isEmpty || !suffix.all Unicode.isDigitForm then .ok (metadataName, 0)
    else (readNumeral suffix).map fun arity => (String.ofList name, arity)

def withArity (name : String) (arity : Nat) : String :=
  if arity = 0 then name else name ++ String.ofList [arityMark] ++ toString arity

end HiddenNames
