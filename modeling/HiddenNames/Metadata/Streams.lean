import HiddenNames.Metadata.Image

/-!
The streams of an assembly. The header of managed code leads to the root of the metadata, and the
root lists named streams, of which two matter here: the tables and the texts that they refer to.
-/

namespace HiddenNames.Metadata

/-- A stream as the root lists it. The offset counts from the root. -/
structure StreamEntry where
  name : List UInt8
  offset : Nat
  size : Nat
  deriving DecidableEq, Repr

structure Streams where
  tables : ByteArray
  texts : ByteArray

namespace Streams

def managedHeader : Nat := 72

def rootMark : List UInt8 := [0x42, 0x53, 0x4a, 0x42]

def aligned (n : Nat) : Nat := (n + 3) / 4 * 4

/-- The entries of a list of streams, as far as they can be read. A name takes whole groups of four
bytes with the zero that ends it. -/
def entriesFrom (root : ByteArray) (place : Nat) : Nat → List StreamEntry
  | 0 => []
  | count + 1 =>
    match number? root place 4, number? root (place + 4) 4 with
    | some offset, some size =>
      let name := untilZero root (place + 8)
      if place + 8 + name.length < root.size then
        { name, offset, size } :: entriesFrom root (place + 8 + aligned (name.length + 1)) count
      else []
    | _, _ => []

def entriesOf (root : ByteArray) : List StreamEntry :=
  if standsAt rootMark root 0 then
    let list := 16 + number root 12 4
    entriesFrom root (list + 4) (number root (list + 2) 2)
  else []

/-- Names of the stream of tables: with and without order among rows. -/
def tableNames : List (List UInt8) := [[0x23, 0x7e], [0x23, 0x2d]]

def textName : List UInt8 := [0x23, 0x53, 0x74, 0x72, 0x69, 0x6e, 0x67, 0x73]

def ofImage? (image : Image) : Option Streams :=
  let header := image.data image.managed.1 image.managed.2
  if image.managed.1 = 0 ∨ header.size < managedHeader then none
  else
    let address := number header 8 4
    let entries := entriesOf (image.data address (number header 12 4))
    let content := fun (entry : StreamEntry) => image.data (address + entry.offset) entry.size
    (entries.find? fun entry => tableNames.contains entry.name).map fun tables =>
      { tables := content tables
        texts := ((entries.find? fun entry => entry.name == textName).map content).getD
          ByteArray.empty }

end Streams

end HiddenNames.Metadata
