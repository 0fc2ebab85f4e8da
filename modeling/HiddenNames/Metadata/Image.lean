/-!
Portable executable images. An image is a file with headers in front; the headers say where its
sections lie in memory, and one entry of their directory leads to the header of managed code. Data
is found by its address in memory. Numbers stand in blocks of bytes with their lowest byte first.
-/

namespace HiddenNames.Metadata

def number? (block : ByteArray) (place : Nat) : Nat → Option Nat
  | 0 => some 0
  | width + 1 =>
    match block[place]? with
    | some byte => (number? block (place + 1) width).map fun rest => byte.toNat + 256 * rest
    | none => none

/-- The number in the bytes from a place on. Bytes after the end of the block count as zero. -/
def number (block : ByteArray) (place : Nat) : Nat → Nat
  | 0 => 0
  | width + 1 =>
    match block[place]? with
    | some byte => byte.toNat + 256 * number block (place + 1) width
    | none => 0

def portion (block : ByteArray) (place length : Nat) : ByteArray :=
  block.extract place (place + length)

def untilZero (block : ByteArray) (place : Nat) : List UInt8 :=
  ((block.extract place block.size).toList).takeWhile (· ≠ 0)

/-- The text at a place, which ends before the next zero. It is empty when it is not written in
eight-bit units that are sound. -/
def textAt (block : ByteArray) (place : Nat) : String :=
  (String.fromUTF8? (ByteArray.mk (untilZero block place).toArray)).getD ""

def standsAt (expected : List UInt8) (block : ByteArray) (place : Nat) : Bool :=
  (portion block place expected.length).toList == expected

structure Segment where
  address : Nat
  memorySize : Nat
  offset : Nat
  fileSize : Nat
  deriving DecidableEq, Repr

namespace Segment

def inOrder (segments : List Segment) : List Segment :=
  segments.mergeSort fun a b => decide (a.address ≤ b.address)

theorem inOrder_ascending (segments : List Segment) :
    (inOrder segments).Pairwise fun a b => a.address ≤ b.address := by
  refine (List.pairwise_mergeSort ?_ ?_ segments).imp of_decide_eq_true
  · intro a b c first second
    exact decide_eq_true (Nat.le_trans (of_decide_eq_true first) (of_decide_eq_true second))
  · intro a b
    simpa using Nat.le_total a.address b.address

end Segment

/-- A file whose headers were read. -/
structure Image where
  bytes : ByteArray
  segments : List Segment
  ascending : segments.Pairwise fun a b => a.address ≤ b.address
  /-- Address and size of the header of managed code; address zero stands for none. -/
  managed : Nat × Nat

namespace Image

def headerPlace (bytes : ByteArray) : Option Nat :=
  let place := number bytes 60 4
  if 64 ≤ bytes.size ∧ standsAt [0x4d, 0x5a] bytes 0 ∧ standsAt [0x50, 0x45, 0, 0] bytes place then
    some place
  else none

def wideMagic : Nat := 0x20b

/-- Sizes of a segment's entry, of a directory's entry and of the fixed header. -/
def segmentEntry : Nat := 40

def directoryEntry : Nat := 8

def fixedHeader : Nat := 24

def managedEntry : Nat := 14

/-- How much of the optional header must be there. The rest counts as zero. -/
def leastOptionalHeader (magic : Nat) : Nat := if magic = wideMagic then 73 else 69

def directoryPlace (magic : Nat) : Nat := if magic = wideMagic then 108 else 92

def managedOf (bytes : ByteArray) (optional : Nat) : Nat × Nat :=
  let lengthPlace := optional + directoryPlace (number bytes optional 2)
  let entry := lengthPlace + 4 + directoryEntry * managedEntry
  if managedEntry < number bytes lengthPlace 4 then
    (number bytes entry 4, number bytes (entry + 4) 4)
  else (0, 0)

def sector : Nat := 512

def segmentAt (bytes : ByteArray) (place : Nat) : Segment where
  memorySize := number bytes (place + 8) 4
  address := number bytes (place + 12) 4
  fileSize := number bytes (place + 16) 4
  offset := number bytes (place + 20) 4 / sector * sector

/-- The segments in a table with a number of entries. An entry of zeros or the end of the file ends
the table early; nothing comes of a table with a broken entry. -/
def segmentsFrom (bytes : ByteArray) (place : Nat) : Nat → Option (List Segment)
  | 0 => some []
  | count + 1 =>
    let entry := portion bytes place segmentEntry
    if entry.size = 0 then some []
    else if entry.size < segmentEntry then none
    else if entry.toList.all (· == 0) then some []
    else (segmentsFrom bytes (place + segmentEntry) count).map (segmentAt bytes place :: ·)

def ofBytes? (bytes : ByteArray) : Option Image := do
  let header ← headerPlace bytes
  let optional := header + fixedHeader
  if bytes.size < optional + leastOptionalHeader (number bytes optional 2) then none
  else
    let segments ← segmentsFrom bytes (optional + number bytes (header + 20) 2)
      (number bytes (header + 6) 2)
    some
      { bytes
        segments := Segment.inOrder segments
        ascending := Segment.inOrder_ascending segments
        managed := managedOf bytes optional }

/-- How much memory a segment covers, up to the next one. Of a segment that the file does not hold
whole only the size in memory counts. -/
def extent (image : Image) (segment : Segment) (next? : Option Segment) : Nat :=
  let size :=
    if image.bytes.size < segment.offset + segment.fileSize then segment.memorySize
    else max segment.fileSize segment.memorySize
  match next? with
  | some next =>
    if segment.address < next.address then min size (next.address - segment.address) else size
  | none => size

def segmentOf (image : Image) (address : Nat) : List Segment → Option Segment
  | [] => none
  | segment :: rest =>
    if segment.address ≤ address
        ∧ address < segment.address + image.extent segment rest.head? then some segment
    else segmentOf image address rest

/-- What lies at an address, as far as the file has it. Outside all segments, addresses are places
in the file. -/
def data (image : Image) (address length : Nat) : ByteArray :=
  match segmentOf image address image.segments with
  | some segment =>
    let skipped := address - segment.address
    portion image.bytes (segment.offset + skipped) (min length (segment.fileSize - skipped))
  | none => portion image.bytes address length

end Image

end HiddenNames.Metadata
