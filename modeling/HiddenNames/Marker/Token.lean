import HiddenNames.Text.Basic

/-!
Tokens of an attribute. Each token is the longest one at its place; blanks may stand around tokens.
String literals keep what stands between their quotes as it is written.
-/

namespace HiddenNames.Marker

inductive Token where
  | ident (text : String)
  | regular (raw : List Char)
  | verbatim (raw : List Char)
  | less
  | greater
  | comma
  | dot
  | opening
  | closing
  | colon
  | doubleColon
  deriving DecidableEq, Repr

namespace Token

def isSpace (c : Char) : Bool := c ∈ [' ', '\t', '\x0c', '\r', '\n']

def isNameStart (c : Char) : Bool := c.isAlpha || c = '_'

def isNamePart (c : Char) : Bool := c.isAlphanum || c = '_'

/-- What stands before the closing quote of a regular literal, and what comes after the quote. A
backslash takes the character after it along, unless that is a line feed. -/
def regularBody : List Char → Option (List Char × List Char)
  | [] => none
  | '"' :: rest => some ([], rest)
  | ['\\'] => none
  | '\\' :: c :: rest =>
    if c = '\n' then none
    else (regularBody rest).map fun (raw, after) => ('\\' :: c :: raw, after)
  | c :: rest => (regularBody rest).map fun (raw, after) => (c :: raw, after)

/-- What stands before the closing quote of a verbatim literal, and what comes after the quote. Two
quotes in a row do not close it. -/
def verbatimBody : List Char → Option (List Char × List Char)
  | [] => none
  | '"' :: '"' :: rest => (verbatimBody rest).map fun (raw, after) => ('"' :: '"' :: raw, after)
  | '"' :: rest => some ([], rest)
  | c :: rest => (verbatimBody rest).map fun (raw, after) => (c :: raw, after)

def first : List Char → Option (Token × List Char)
  | '<' :: rest => some (.less, rest)
  | '>' :: rest => some (.greater, rest)
  | ',' :: rest => some (.comma, rest)
  | '.' :: rest => some (.dot, rest)
  | '(' :: rest => some (.opening, rest)
  | ')' :: rest => some (.closing, rest)
  | ':' :: ':' :: rest => some (.doubleColon, rest)
  | ':' :: rest => some (.colon, rest)
  | '"' :: rest => (regularBody rest).map fun (raw, after) => (.regular raw, after)
  | '@' :: '"' :: rest => (verbatimBody rest).map fun (raw, after) => (.verbatim raw, after)
  | '@' :: c :: rest =>
    if isNameStart c then
      some (.ident (String.ofList ('@' :: c :: rest.takeWhile isNamePart)),
        rest.dropWhile isNamePart)
    else none
  | c :: rest =>
    if isNameStart c then
      some (.ident (String.ofList (c :: rest.takeWhile isNamePart)), rest.dropWhile isNamePart)
    else none
  | [] => none

def scanSteps : Nat → List Char → Option (List Token)
  | 0, _ => none
  | steps + 1, cs =>
    match cs.dropWhile isSpace with
    | [] => some []
    | c :: rest =>
      match first (c :: rest) with
      | some (token, after) => (scanSteps steps after).map (token :: ·)
      | none => none

/-- All tokens of a text. Every step takes a character, so there are steps enough. -/
def scan (cs : List Char) : Option (List Token) := scanSteps (cs.length + 1) cs

end Token

end HiddenNames.Marker
