import HiddenNames.Text.Basic

/-!
Paths of files and folders, as parts. A relative path without parts is the working folder itself.
-/

namespace HiddenNames

structure Path where
  rooted : Bool := false
  parts : List String := []
  deriving DecidableEq, Repr, Inhabited

namespace Path

/-- The path that a text spells. Empty parts and single dots do not count. -/
def ofText (text : String) : Path where
  rooted := text.toList.head? = some '/'
  parts := (Text.split '/' text).filter fun part => part ≠ "" && part ≠ "."

def text (p : Path) : String :=
  if p.rooted then "/" ++ "/".intercalate p.parts
  else if p.parts.isEmpty then "."
  else "/".intercalate p.parts

/-- Whether a text can only stand for a folder, because its last part is empty or a single dot. -/
def spellsFolder (text : String) : Bool :=
  let last := (Text.split '/' text).getLast?.getD ""
  last = "" || last = "."

/-- A path inside a folder. A rooted path stays where it is. -/
def join (folder inner : Path) : Path :=
  if inner.rooted then inner else { folder with parts := folder.parts ++ inner.parts }

def child (folder : Path) (name : String) : Path := { folder with parts := folder.parts ++ [name] }

def parent (p : Path) : Path := { p with parts := p.parts.dropLast }

def name (p : Path) : String := p.parts.getLast?.getD ""

def lastDot (cs : List Char) : Option Nat :=
  if '.' ∈ cs then some (cs.length - 1 - cs.reverse.idxOf '.') else none

/-- The name without its extension. A dot at either end of the name starts no extension. -/
def stem (p : Path) : String :=
  let cs := p.name.toList
  match lastDot cs with
  | some i => if 0 < i ∧ i + 1 < cs.length then String.ofList (cs.take i) else p.name
  | none => p.name

/-- Paths in one folder compare by their parts. -/
def before (a b : Path) : Bool := !decide (b.parts < a.parts)

end Path

end HiddenNames
