import HiddenNames.Text.Basic

/-!
Records as JSON text. A document is an object of lists of records; every record, field and list item
stands on a line of its own, and all characters beyond ASCII are escaped.
-/

namespace HiddenNames.Text.Json

inductive Scalar where
  | null
  | number (n : Nat)
  | text (s : String)
  deriving DecidableEq, Repr

abbrev Fields := List (String × Scalar)

def escapedUnit (n : Nat) : String := "\\u" ++ hex 4 n

/-- One character of a text. One beyond sixteen bits is written as two halves. -/
def escaped (c : Char) : String :=
  match c with
  | '"' => "\\\""
  | '\\' => "\\\\"
  | '\n' => "\\n"
  | '\r' => "\\r"
  | '\t' => "\\t"
  | '\x08' => "\\b"
  | '\x0c' => "\\f"
  | c =>
    let n := c.toNat
    if 0x20 ≤ n ∧ n < 0x7f then c.toString
    else if n < 0x10000 then escapedUnit n
    else escapedUnit (0xd800 + (n - 0x10000) / 0x400) ++
      escapedUnit (0xdc00 + (n - 0x10000) % 0x400)

def quoted (s : String) : String := "\"" ++ String.join (s.toList.map escaped) ++ "\""

def Scalar.render : Scalar → String
  | .null => "null"
  | .number n => toString n
  | .text s => quoted s

def margin (depth : Nat) : String := String.ofList (List.replicate (2 * depth) ' ')

def block (opening closing : String) (depth : Nat) (items : List String) : String :=
  if items.isEmpty then opening ++ closing
  else
    opening ++ "\n" ++ ",\n".intercalate (items.map (margin (depth + 1) ++ ·)) ++ "\n" ++
      margin depth ++ closing

def object (depth : Nat) (fields : List (String × String)) : String :=
  block "\x7b" "\x7d" depth (fields.map fun (name, value) => quoted name ++ ": " ++ value)

def list (depth : Nat) (items : List String) : String := block "[" "]" depth items

def document (sections : List (String × List Fields)) : String :=
  object 0 (sections.map fun (name, records) =>
    (name, list 1 (records.map fun fields =>
      object 2 (fields.map fun (field, value) => (field, value.render)))))

end HiddenNames.Text.Json
