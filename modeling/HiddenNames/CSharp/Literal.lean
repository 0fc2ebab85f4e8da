import HiddenNames.Text.Basic

/-!
String literals of C#. `regular` and `verbatim` write a text between quotes, `readRegular` and
`readVerbatim` recover the text from what stands between them.
-/

namespace HiddenNames.CSharp.Literal

/-- A character inside a regular literal. Only the quote, the backslash and control characters below
the space are escaped. -/
def escape (c : Char) : List Char :=
  if c = '\\' then ['\\', '\\']
  else if c = '"' then ['\\', '"']
  else if c = '\n' then ['\\', 'n']
  else if c = '\r' then ['\\', 'r']
  else if c = '\t' then ['\\', 't']
  else if c.toNat < 0x20 then '\\' :: 'u' :: (Text.hex 4 c.toNat).toList
  else [c]

def regular (s : String) : String :=
  String.ofList ('"' :: s.toList.flatMap escape ++ ['"'])

def verbatim (s : String) : String :=
  String.ofList
    ('@' :: '"' :: s.toList.flatMap (fun c => if c = '"' then ['"', '"'] else [c]) ++ ['"'])

def simpleEscape : Char → Option Char
  | '\'' => some '\''
  | '"' => some '"'
  | '\\' => some '\\'
  | '0' => some '\x00'
  | 'a' => some '\x07'
  | 'b' => some '\x08'
  | 'e' => some '\x1b'
  | 'f' => some '\x0c'
  | 'n' => some '\n'
  | 'r' => some '\r'
  | 't' => some '\t'
  | 'v' => some '\x0b'
  | _ => none

def hexDigit? (c : Char) : Option Nat :=
  if '0' ≤ c ∧ c ≤ '9' then some (c.toNat - '0'.toNat)
  else if 'a' ≤ c ∧ c ≤ 'f' then some (c.toNat - 'a'.toNat + 10)
  else if 'A' ≤ c ∧ c ≤ 'F' then some (c.toNat - 'A'.toNat + 10)
  else none

def hexValue (digits : List Char) : Nat :=
  digits.foldl (fun value c => 16 * value + (hexDigit? c).getD 0) 0

def hexRun (limit : Nat) (cs : List Char) : List Char :=
  (cs.take limit).takeWhile fun c => (hexDigit? c).isSome

def codeDigits (letter : Char) (rest : List Char) : Option (List Char) :=
  if letter = 'u' then
    let run := hexRun 4 rest
    if run.length = 4 then some run else none
  else if letter = 'U' then
    let run := hexRun 8 rest
    if run.length = 8 then some run else none
  else if letter = 'x' then
    let run := hexRun 4 rest
    if run.isEmpty then none else some run
  else none

/-- The text between the quotes of a regular literal, or the first escape that has no meaning. -/
def readRegular : List Char → Except String (List Char)
  | [] => .ok []
  | '\\' :: letter :: rest =>
    match codeDigits letter rest with
    | some digits =>
      if hexValue digits ≤ 0x10FFFF then
        (readRegular (rest.drop digits.length)).map (Char.ofNat (hexValue digits) :: ·)
      else .error (String.ofList ('\\' :: letter :: digits))
    | none =>
      match simpleEscape letter with
      | some c => (readRegular rest).map (c :: ·)
      | none => .error (String.ofList ['\\', letter])
  | c :: rest => (readRegular rest).map (c :: ·)
termination_by cs => cs.length
decreasing_by all_goals simp <;> omega

def readVerbatim : List Char → List Char
  | [] => []
  | '"' :: '"' :: rest => '"' :: readVerbatim rest
  | c :: rest => c :: readVerbatim rest

end HiddenNames.CSharp.Literal
