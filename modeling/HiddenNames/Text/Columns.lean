import HiddenNames.Text.Basic
import HiddenNames.Unicode.Widths

/-!
Text on a terminal, measured in columns: how wide it is, how it breaks into lines of a given width,
and how it is cut and filled up to a width. Breaking puts whole words on a line for as long as they
fit; blanks after a word stay with it.
-/

namespace HiddenNames.Text

def columnsOf (c : Char) : Nat :=
  if Unicode.within Unicode.unspaced c.toNat then 0
  else if Unicode.within Unicode.doubled c.toNat then 2
  else 1

def columns (cs : List Char) : Nat := cs.foldr (fun c rest => columnsOf c + rest) 0

def fitting (width : Nat) : List Char → List Char
  | [] => []
  | c :: rest => if columnsOf c ≤ width then c :: fitting (width - columnsOf c) rest else []

def blanks (n : Nat) : List Char := List.replicate n ' '

def padEnd (width : Nat) (cs : List Char) : List Char := cs ++ blanks (width - columns cs)

def padStart (width : Nat) (cs : List Char) : List Char := blanks (width - columns cs) ++ cs

def cut (width : Nat) (cs : List Char) : List Char :=
  if columns cs ≤ width then cs else padEnd width (fitting width cs)

def cutShort (width : Nat) (cs : List Char) : List Char :=
  if columns cs ≤ width then cs else padEnd (width - 1) (fitting (width - 1) cs) ++ ['…']

def cutBlanks (width : Nat) (cs : List Char) : List Char :=
  let trailing := (cs.reverse.takeWhile Unicode.isBlank).length
  cs.take (cs.length - min trailing (cs.length - width))

def dropTrailing (cs : List Char) : List Char := (cs.reverse.dropWhile Unicode.isBlank).reverse

def breakWords : List Char → List Char × List (List Char)
  | [] => ([], [])
  | c :: rest =>
    match breakWords rest with
    | (lead, words) =>
      if Unicode.isBlank c then (c :: lead, words)
      else if lead.isEmpty then
        match words with
        | [] => ([], [[c]])
        | word :: more => ([], (c :: word) :: more)
      else ([], (c :: lead) :: words)

/-- Cuts a text into pieces of at most a width; the first may begin with columns in use. -/
def chopFrom (width used : Nat) : List Char → List Char × List (List Char)
  | [] => ([], [])
  | c :: rest =>
    if used + columnsOf c ≤ width then
      let (piece, more) := chopFrom width (used + columnsOf c) rest
      (c :: piece, more)
    else
      let (piece, more) := chopFrom width (columnsOf c) rest
      ([], (c :: piece) :: more)

structure Filling where
  done : List (List Char) := []
  current : List Char := []
  used : Nat := 0

namespace Filling

def lines (f : Filling) : List (List Char) := f.done ++ [f.current]

/-- The lines before a break. Nothing breaks before the first word. -/
def broken (f : Filling) : List (List Char) :=
  if f.done.isEmpty && f.current.isEmpty then [] else f.lines

/-- Puts a word on the line, or on a new one when only that has room. A word without room on any
line is folded if it may be. -/
def place (fold : Bool) (width : Nat) (f : Filling) (word : List Char) : Filling :=
  let bare := columns (dropTrailing word)
  if f.used + bare ≤ width then
    { f with current := f.current ++ word, used := f.used + columns word }
  else if fold && width < bare then
    let (piece, more) := chopFrom width 0 word
    let last := (piece :: more).getLast?.getD []
    { done := f.broken ++ (piece :: more).dropLast, current := last, used := columns last }
  else { done := f.broken, current := word, used := columns word }

end Filling

def breakLine (fold : Bool) (width : Nat) (line : List Char) : List (List Char) :=
  match breakWords line with
  | (_, []) => [line]
  | (lead, word :: more) =>
    (((lead ++ word) :: more).foldl (Filling.place fold width) {}).lines

def wrap (fold : Bool) (width : Nat) (cs : List Char) : List (List Char) :=
  (splitAt '\n' cs).flatMap fun line => (breakLine fold width line).map (cutBlanks width)

def shown (s : String) : List Char :=
  s.toList.filter fun c => c ∉ ['\x07', '\x08', '\x0b', '\x0c', '\r']

def paragraph (width : Nat) (s : String) : List String :=
  (wrap true width (shown s)).map fun line => String.ofList (cut width line)

end HiddenNames.Text
