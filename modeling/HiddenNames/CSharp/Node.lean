import HiddenNames.CSharp.Token

/-!
Tokens nested by their brackets. Parentheses, brackets and braces make trees; the parts of the file
under a condition stand side by side in one node.
-/

namespace HiddenNames.CSharp

inductive Node where
  | leaf (token : Token)
  | tree (opening : Token) (inner : List Node) (closing : Option Token)
  | branches (bodies : List (List Node))
  deriving Inhabited

namespace Node

/-- A bracket or condition that is still open. `done` holds the nodes inside so far, the last one
first, and `bodies` the finished parts of a condition. -/
structure Frame where
  opening : Token
  done : List Node := []
  bodies : List (List Node) := []

def Frame.push (f : Frame) (n : Node) : Frame := { f with done := n :: f.done }

def isOpening (t : Token) : Bool := t.kind = .sign && (t.is "(" || t.is "[" || t.is "\x7b")

def isClosing (t : Token) : Bool := t.kind = .sign && (t.is ")" || t.is "]" || t.is "\x7d")

def Frame.node (f : Frame) (closing : Option Token) : Node :=
  if f.opening.kind = .conditional then .branches (f.bodies ++ [f.done.reverse])
  else .tree f.opening f.done.reverse closing

/-- Open frames, the innermost first, and the nodes outside of all of them, the last one first. -/
structure Stack where
  frames : List Frame := []
  done : List Node := []

namespace Stack

def push (s : Stack) (n : Node) : Stack :=
  match s.frames with
  | f :: rest => { s with frames := f.push n :: rest }
  | [] => { s with done := n :: s.done }

def close (s : Stack) (closing : Option Token) : Stack :=
  match s.frames with
  | f :: rest => push { s with frames := rest } (f.node closing)
  | [] => s

def next (s : Stack) (t : Token) : Stack :=
  if t.kind = .conditional then
    if t.is "if" then { s with frames := ⟨t, [], []⟩ :: s.frames }
    else if t.is "endif" then s.close (some t)
    else
      match s.frames with
      | f :: rest => { s with frames := ⟨f.opening, [], f.bodies ++ [f.done.reverse]⟩ :: rest }
      | [] => s
  else if isOpening t then { s with frames := ⟨t, [], []⟩ :: s.frames }
  else if isClosing t then s.close (some t)
  else s.push (.leaf t)

def finish : Nat → Stack → List Node
  | 0, s => s.done.reverse
  | fuel + 1, s => if s.frames.isEmpty then s.done.reverse else finish fuel (s.close none)

end Stack

def ofTokens (ts : List Token) : List Node :=
  let s := ts.foldl Stack.next {}
  s.finish s.frames.length

def isLeaf (text : String) : Node → Bool
  | .leaf t => t.kind ≠ .literal && t.is text
  | _ => false

def word? : Node → Option String
  | .leaf t => if t.kind = .word then some (String.ofList t.text) else none
  | _ => none

def isTree (opening : String) : Node → Bool
  | .tree t _ _ => t.is opening
  | _ => false

mutual

def chars : Node → List Char
  | .leaf t => t.before ++ t.text
  | .tree opening inner closing =>
    opening.before ++ opening.text ++ allChars inner ++
      match closing with
      | some t => t.before ++ t.text
      | none => []
  | .branches _ => []

def allChars : List Node → List Char
  | [] => []
  | n :: rest => chars n ++ allChars rest

end

def firstToken : Node → Option Token
  | .leaf t => some t
  | .tree t _ _ => some t
  | .branches _ => none

def slice (nodes : List Node) : String :=
  let before := ((nodes.head?.bind firstToken).map fun t => t.before.length).getD 0
  String.ofList ((allChars nodes).drop before)

def dense (nodes : List Node) : String :=
  String.ofList ((slice nodes).toList.filter fun c => !Unicode.isBlank c)

/-- The nodes between commas that stand outside of angle brackets. -/
def splitCommas (depth : Nat) : List Node → List (List Node)
  | [] => [[]]
  | n :: rest =>
    if depth = 0 && n.isLeaf "," then [] :: splitCommas 0 rest
    else
      let depth := if n.isLeaf "<" then depth + 1 else if n.isLeaf ">" then depth - 1 else depth
      match splitCommas depth rest with
      | piece :: more => (n :: piece) :: more
      | [] => [[n]]

def afterAngles : Nat → List Node → Option (List Node)
  | _, [] => none
  | depth, n :: rest =>
    if n.isLeaf "<" then afterAngles (depth + 1) rest
    else if n.isLeaf ">" then if depth = 0 then some rest else afterAngles (depth - 1) rest
    else afterAngles depth rest

end Node

end HiddenNames.CSharp
