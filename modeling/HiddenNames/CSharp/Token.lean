import HiddenNames.Identifier

/-!
Tokens of C# source text. A token carries the text that stands between it and the token before:
blanks, comments, and directives other than the conditional ones. So the text of a run of tokens is
that of the file, character for character.
-/

namespace HiddenNames.CSharp

inductive TokenKind where
  | word
  | literal
  | sign
  | conditional
  deriving DecidableEq, Repr

structure Token where
  kind : TokenKind
  before : List Char
  text : List Char
  line : Nat
  deriving DecidableEq, Repr

namespace Token

def is (t : Token) (text : String) : Bool := t.text = text.toList

/-! Lengths of literals, counted after what opens them. -/

/-- Up to the closing mark of a literal in which a backslash takes the next character along. -/
def escapedLength (mark : Char) : List Char → Nat
  | [] => 0
  | '\\' :: _ :: rest => 2 + escapedLength mark rest
  | c :: rest => if c = mark then 1 else 1 + escapedLength mark rest

def doubledLength : List Char → Nat
  | [] => 0
  | '"' :: '"' :: rest => 2 + doubledLength rest
  | c :: rest => if c = '"' then 1 else 1 + doubledLength rest

def quotes (cs : List Char) : Nat := (cs.takeWhile (· = '"')).length

def rawLength (count : Nat) : List Char → Nat
  | [] => 0
  | c :: rest =>
    if count ≤ quotes (c :: rest) then quotes (c :: rest) else 1 + rawLength count rest

def stringMarks (cs : List Char) : List Char := cs.takeWhile fun c => c = '@' || c = '$'

def startsString (cs : List Char) : Bool :=
  (cs.drop (stringMarks cs).length).head? = some '"'

mutual

def stringLength : Nat → List Char → Nat
  | 0, cs => cs.length
  | fuel + 1, cs =>
    let marks := stringMarks cs
    let rest := cs.drop marks.length
    let count := quotes rest
    if 3 ≤ count && '@' ∉ marks then marks.length + count + rawLength count (rest.drop count)
    else
      let inner := rest.drop 1
      marks.length + 1 +
        if '$' ∈ marks then templateLength fuel (decide ('@' ∈ marks)) inner
        else if '@' ∈ marks then doubledLength inner
        else escapedLength '"' inner

def templateLength : Nat → Bool → List Char → Nat
  | 0, _, cs => cs.length
  | fuel + 1, doubled, cs =>
    match cs with
    | [] => 0
    | '{' :: '{' :: rest => 2 + templateLength fuel doubled rest
    | '{' :: rest =>
      let hole := holeLength fuel 0 rest
      1 + hole + templateLength fuel doubled (rest.drop hole)
    | '"' :: rest =>
      if doubled && rest.head? = some '"' then 2 + templateLength fuel doubled (rest.drop 1) else 1
    | c :: rest =>
      if c = '\\' && !doubled then 2 + templateLength fuel doubled (rest.drop 1)
      else 1 + templateLength fuel doubled rest

/-- Up to the brace that closes a hole. A colon outside of all brackets starts a format. -/
def holeLength : Nat → Nat → List Char → Nat
  | 0, _, cs => cs.length
  | fuel + 1, depth, cs =>
    match cs with
    | [] => 0
    | c :: rest =>
      if startsString cs then
        let length := stringLength fuel cs
        length + holeLength fuel depth (cs.drop length)
      else if c = '\'' then
        let length := 1 + escapedLength '\'' rest
        length + holeLength fuel depth (cs.drop length)
      else if c = '(' || c = '[' || c = '{' then 1 + holeLength fuel (depth + 1) rest
      else if c = '}' && depth = 0 then 1
      else if c = ')' || c = ']' || c = '}' then 1 + holeLength fuel (depth - 1) rest
      else if c = ':' && depth = 0 then
        if rest.head? = some ':' then 2 + holeLength fuel depth (rest.drop 1)
        else 1 + (rest.takeWhile (· ≠ '}')).length + 1
      else 1 + holeLength fuel depth rest

end

/-- A character that may begin a word. The backslash begins an escaped one. -/
def isWordStart (c : Char) : Bool := Identifier.isStart c || c = '\\'

def isWordPart (c : Char) : Bool := Identifier.isPart c || c = '\\'

def numberLength : List Char → Nat
  | [] => 0
  | '.' :: d :: rest => if d.isDigit then 2 + numberLength rest else 0
  | c :: rest => if c.isAlphanum || c = '_' then 1 + numberLength rest else 0

def measure (cs : List Char) : TokenKind × Nat :=
  match cs with
  | [] => (.sign, 0)
  | c :: rest =>
    if startsString cs then (.literal, stringLength (cs.length + 1) cs)
    else if c = '\'' then (.literal, 1 + escapedLength '\'' rest)
    else if c.isDigit then (.literal, 1 + numberLength rest)
    else if isWordStart c || (c = '@' && rest.head?.any isWordStart) then
      (.word, 1 + (rest.takeWhile isWordPart).length)
    else if c = '=' && rest.head? = some '>' then (.sign, 2)
    else if c = ':' && rest.head? = some ':' then (.sign, 2)
    else (.sign, 1)

def lineLength (cs : List Char) : Nat := (cs.takeWhile (· ≠ '\n')).length

/-- Up to the end of the line, in a comment that goes no further. A carriage return ends it too. -/
def lineCommentLength (cs : List Char) : Nat :=
  (cs.takeWhile fun c => c ≠ '\n' && c ≠ '\r').length

def commentLength : List Char → Nat
  | [] => 0
  | '*' :: '/' :: _ => 2
  | _ :: rest => 1 + commentLength rest

def directiveWord (cs : List Char) : List Char :=
  ((cs.drop 1).dropWhile fun c => c = ' ' || c = '\t').takeWhile Char.isAlpha

def conditionalWords : List String := ["if", "elif", "else", "endif"]

def isConditional (cs : List Char) : Bool := String.ofList (directiveWord cs) ∈ conditionalWords

/-- A blank between tokens. The mark of a byte order counts as one. -/
def isSpace (c : Char) : Bool := Unicode.isBlank c || c = '\ufeff'

/-- The length of one piece of text between tokens, zero when a token stands at the front. -/
def gapLength (cs : List Char) : Nat :=
  match cs with
  | '/' :: '/' :: _ => lineCommentLength cs
  | '/' :: '*' :: rest => 2 + commentLength rest
  | '#' :: _ => if isConditional cs then 0 else lineLength cs
  | c :: _ => if isSpace c then 1 else 0
  | [] => 0

def gap : Nat → List Char → List Char
  | 0, _ => []
  | fuel + 1, cs =>
    let length := gapLength cs
    if length = 0 then [] else cs.take length ++ gap fuel (cs.drop length)

def lineFeeds (cs : List Char) : Nat := cs.count '\n'

def scanSteps : Nat → Nat → List Char → List Token
  | 0, _, _ => []
  | steps + 1, line, cs =>
    let before := gap cs.length cs
    let rest := cs.drop before.length
    if rest.isEmpty then []
    else
      let line := line + lineFeeds before
      if rest.head? = some '#' then
        let length := lineLength rest
        ⟨.conditional, before, directiveWord rest, line⟩ :: scanSteps steps line (rest.drop length)
      else
        let (kind, length) := measure rest
        let text := rest.take length
        ⟨kind, before, text, line⟩ :: scanSteps steps (line + lineFeeds text) (rest.drop length)

def scan (cs : List Char) : List Token := scanSteps (cs.length + 1) 1 cs

end Token

end HiddenNames.CSharp
