/-!
The layout of metadata tables. Tables have numbers, and the columns of each are fixed; how wide a
column is depends on how many rows the tables have that it refers to, and on the size of the heaps.
-/

namespace HiddenNames.Metadata

/-- What a column holds. A coded column names, in its low bits, the table that the rest refers
to. -/
inductive Column where
  | fixed (width : Nat)
  | text
  | guid
  | blob
  | row (table : Nat)
  | coded (bits : Nat) (tables : List Nat)
  deriving DecidableEq, Repr

/-! Numbers of the tables that types are read from. -/

def typeRefTable : Nat := 0x01

def typeDefTable : Nat := 0x02

def fieldTable : Nat := 0x04

def methodTable : Nat := 0x06

def eventMapTable : Nat := 0x12

def eventTable : Nat := 0x14

def propertyMapTable : Nat := 0x15

def propertyTable : Nat := 0x17

def semanticsTable : Nat := 0x18

def nestingTable : Nat := 0x29

namespace Column

/-! Columns that can refer to several tables. -/

def typeDefOrRef : Column := coded 2 [0x02, 0x01, 0x1b]

def hasConstant : Column := coded 2 [0x04, 0x08, 0x17]

def hasAttribute : Column :=
  coded 5 [0x06, 0x04, 0x01, 0x02, 0x08, 0x09, 0x0a, 0x00, 0x0e, 0x17, 0x14, 0x11, 0x1a, 0x1b, 0x20,
    0x23, 0x26, 0x27, 0x28, 0x2a, 0x2c, 0x2b]

def hasMarshal : Column := coded 1 [0x04, 0x08]

def hasSecurity : Column := coded 2 [0x02, 0x06, 0x20]

def memberParent : Column := coded 3 [0x02, 0x01, 0x1a, 0x06, 0x1b]

def hasSemantics : Column := coded 1 [0x14, 0x17]

def methodDefOrRef : Column := coded 1 [0x06, 0x0a]

def memberForwarded : Column := coded 1 [0x04, 0x06]

def implementation : Column := coded 2 [0x26, 0x23, 0x27]

def attributeType : Column := coded 3 [0x06, 0x0a]

def resolutionScope : Column := coded 2 [0x00, 0x1a, 0x23, 0x01]

def typeOrMethod : Column := coded 1 [0x02, 0x06]

end Column

open Column in
def schema : List (Nat × List Column) :=
  [(0x00, [fixed 2, text, guid, guid, guid]),
   (0x01, [resolutionScope, text, text]),
   (0x02, [fixed 4, text, text, typeDefOrRef, row 0x04, row 0x06]),
   (0x03, [row 0x04]),
   (0x04, [fixed 2, text, blob]),
   (0x05, [row 0x06]),
   (0x06, [fixed 4, fixed 2, fixed 2, text, blob, row 0x08]),
   (0x07, [row 0x08]),
   (0x08, [fixed 2, fixed 2, text]),
   (0x09, [row 0x02, typeDefOrRef]),
   (0x0a, [memberParent, text, blob]),
   (0x0b, [fixed 2, hasConstant, blob]),
   (0x0c, [hasAttribute, attributeType, blob]),
   (0x0d, [hasMarshal, blob]),
   (0x0e, [fixed 2, hasSecurity, blob]),
   (0x0f, [fixed 2, fixed 4, row 0x02]),
   (0x10, [fixed 4, row 0x04]),
   (0x11, [blob]),
   (0x12, [row 0x02, row 0x14]),
   (0x13, [row 0x14]),
   (0x14, [fixed 2, text, typeDefOrRef]),
   (0x15, [row 0x02, row 0x17]),
   (0x16, [row 0x17]),
   (0x17, [fixed 2, text, blob]),
   (0x18, [fixed 2, row 0x06, hasSemantics]),
   (0x19, [row 0x02, methodDefOrRef, methodDefOrRef]),
   (0x1a, [text]),
   (0x1b, [blob]),
   (0x1c, [fixed 2, memberForwarded, text, row 0x1a]),
   (0x1d, [fixed 4, row 0x04]),
   (0x1e, [fixed 4, fixed 4]),
   (0x1f, [fixed 4]),
   (0x20, [fixed 4, fixed 2, fixed 2, fixed 2, fixed 2, fixed 4, blob, text, text]),
   (0x21, [fixed 4]),
   (0x22, [fixed 4, fixed 4, fixed 4]),
   (0x23, [fixed 2, fixed 2, fixed 2, fixed 2, fixed 4, blob, text, text, blob]),
   (0x24, [fixed 4, row 0x23]),
   (0x25, [fixed 4, fixed 4, fixed 4, row 0x23]),
   (0x26, [fixed 4, text, blob]),
   (0x27, [fixed 4, fixed 4, text, text, implementation]),
   (0x28, [fixed 4, fixed 4, text, implementation]),
   (0x29, [row 0x02, row 0x02]),
   (0x2a, [fixed 2, fixed 2, typeOrMethod, text]),
   (0x2b, [methodDefOrRef, blob]),
   (0x2c, [row 0x2a, typeDefOrRef])]

structure Sizes where
  counts : List (Nat × Nat)
  wideText : Bool
  wideGuid : Bool
  wideBlob : Bool
  deriving DecidableEq, Repr

namespace Sizes

def count (sizes : Sizes) (table : Nat) : Nat := (sizes.counts.lookup table).getD 0

def width (sizes : Sizes) : Column → Nat
  | .fixed width => width
  | .text => if sizes.wideText then 4 else 2
  | .guid => if sizes.wideGuid then 4 else 2
  | .blob => if sizes.wideBlob then 4 else 2
  | .row table => if 65536 < sizes.count table then 4 else 2
  | .coded bits tables => if tables.all fun t => sizes.count t ≤ Nat.pow 2 (16 - bits) then 2 else 4

def widths (sizes : Sizes) (table : Nat) : List Nat :=
  ((schema.lookup table).getD []).map sizes.width

def placeOf (sizes : Sizes) (table start : Nat) : Nat :=
  (sizes.counts.filter fun (t, _) => t < table).foldl
    (fun place (t, count) => place + count * (sizes.widths t).foldl Nat.add 0) start

end Sizes

end HiddenNames.Metadata
