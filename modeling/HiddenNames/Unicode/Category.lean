import HiddenNames.Unicode.Letters
import HiddenNames.Unicode.Numbers
import HiddenNames.Unicode.Marks
import HiddenNames.Unicode.Signs

/-!
Classes of characters that the readers and printers of this library ask for. Every class is a union
of tables, so that "a character that may start a name may also continue one" and the like hold by
the definitions alone.
-/

namespace HiddenNames.Unicode

/-- Membership in a list of ascending, disjoint ranges. The search stops at the first range above
the code point, which for ASCII is one of the first few. -/
def within : List (Nat × Nat) → Nat → Bool
  | [], _ => false
  | (lo, hi) :: rest, n => if n < lo then false else n ≤ hi || within rest n

def isLetter (c : Char) : Bool := within letters c.toNat

def isDecimalDigit (c : Char) : Bool := within decimalDigits c.toNat

/-- A single digit, raised and enclosed forms included. -/
def isDigitForm (c : Char) : Bool := isDecimalDigit c || within digitForms c.toNat

def isLetterNumber (c : Char) : Bool := within letterNumbers c.toNat

def isNumber (c : Char) : Bool :=
  isDecimalDigit c || isLetterNumber c || within otherNumbers c.toNat

def isAlphanumeric (c : Char) : Bool := isLetter c || isNumber c

def isWord (c : Char) : Bool := isAlphanumeric c || c == '_'

def isBlank (c : Char) : Bool := within blanks c.toNat

/-- A character that shows as itself when text is quoted for a reader. Of the blanks only the plain
space does. -/
def isPrintable (c : Char) : Bool :=
  isLetter c || isNumber c || c == ' ' || within punctuation c.toNat || within symbols c.toNat ||
    within connectors c.toNat || within combiningMarks c.toNat || within enclosingMarks c.toNat

def valueWithin : List (Nat × Nat) → Nat → Option Nat
  | [], _ => none
  | (lo, hi) :: rest, n =>
    if n < lo then none else if n ≤ hi then some ((n - lo) % 10) else valueWithin rest n

def digitValue? (c : Char) : Option Nat := valueWithin decimalDigits c.toNat

end HiddenNames.Unicode
