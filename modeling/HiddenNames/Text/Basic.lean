import HiddenNames.Unicode.Category

/-!
Small operations on text: cutting at a separator, trimming blanks, splitting into lines, writing
numbers in base sixteen, and quoting. Messages quote a text in single quotes unless only double
quotes avoid an escape, with every character that would not show written as an escape.
-/

namespace HiddenNames.Text

/-- The pieces between occurrences of a separator. There is always at least one piece. -/
def splitAt (sep : Char) : List Char → List (List Char)
  | [] => [[]]
  | c :: rest =>
    match splitAt sep rest with
    | [] => [[c]]
    | piece :: more => if c = sep then [] :: piece :: more else (c :: piece) :: more

def split (sep : Char) (s : String) : List String :=
  (splitAt sep s.toList).map String.ofList

def cutAt (sep : Char) : List Char → Option (List Char × List Char)
  | [] => none
  | c :: rest =>
    if c = sep then some ([], rest)
    else (cutAt sep rest).map fun (before, after) => (c :: before, after)

def trimBlanks (cs : List Char) : List Char :=
  ((cs.dropWhile Unicode.isBlank).reverse.dropWhile Unicode.isBlank).reverse

/-- Characters after which a new line of text begins. A carriage return and the line feed after it
count as one break. -/
def isLineBreak (c : Char) : Bool :=
  c ∈ ['\n', '\r', '\x0b', '\x0c', '\x1c', '\x1d', '\x1e', '\u0085', '\u2028', '\u2029']

/-- The lines of a text without their breaks. A break at the end opens no further line. -/
def linesOf : List Char → List (List Char)
  | [] => []
  | '\r' :: '\n' :: rest => [] :: linesOf rest
  | c :: rest =>
    if isLineBreak c then [] :: linesOf rest
    else
      match linesOf rest with
      | [] => [[c]]
      | line :: more => (c :: line) :: more

/-- Shifts every line that is not empty to the right, the first one even when it is empty. All line
breaks become line feeds. -/
def indent (width : Nat) (s : String) : String :=
  let margin := String.ofList (List.replicate width ' ')
  match linesOf (s.toList ++ ['\n']) with
  | [] => margin
  | first :: more =>
    margin ++ String.ofList first ++
      String.join (more.map fun line =>
        if line.isEmpty then "\n" else "\n" ++ margin ++ String.ofList line)

def hex (width n : Nat) : String :=
  let digits := Nat.toDigits 16 n
  String.ofList (List.replicate (width - digits.length) '0' ++ digits)

def quotedChar (quote c : Char) : String :=
  if c = quote ∨ c = '\\' then String.ofList ['\\', c]
  else if c = '\n' then "\\n"
  else if c = '\r' then "\\r"
  else if c = '\t' then "\\t"
  else if Unicode.isPrintable c then c.toString
  else if c.toNat < 0x100 then "\\x" ++ hex 2 c.toNat
  else if c.toNat < 0x10000 then "\\u" ++ hex 4 c.toNat
  else "\\U" ++ hex 8 c.toNat

def quoted (s : String) : String :=
  let quote := if '\'' ∈ s.toList ∧ '"' ∉ s.toList then '"' else '\''
  quote.toString ++ String.join (s.toList.map (quotedChar quote)) ++ quote.toString

end HiddenNames.Text
