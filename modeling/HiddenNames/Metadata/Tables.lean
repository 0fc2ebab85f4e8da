import HiddenNames.Metadata.Schema
import HiddenNames.Metadata.Streams
import HiddenNames.Metadata.Records

/-!
From the rows of metadata tables to rows that define types. Tables refer to rows by number, from one
on. What belongs to a row of one table is a run of rows of another: it begins at the row that the
owner names and ends before the row that the next owner names.
-/

namespace HiddenNames.Metadata

abbrev Row := List Nat

def Row.cell (row : Row) (column : Nat) : Nat := row[column]?.getD 0

structure Tables where
  rows : List (Nat × List Row)
  texts : ByteArray

namespace Tables

def headerSize : Nat := 24

def announced (bits : Nat) : List Nat := (List.range 64).filter fun i => bits.testBit i

def rowAt? (block : ByteArray) (place : Nat) : List Nat → Option Row
  | [] => some []
  | width :: rest => do
    let value ← number? block place width
    let others ← rowAt? block (place + width) rest
    some (value :: others)

/-- Reads rows one after another, as many as are whole. -/
def rowsFrom (block : ByteArray) (widths : List Nat) (place : Nat) : Nat → List Row
  | 0 => []
  | count + 1 =>
    match rowAt? block place widths with
    | none => []
    | some row => row :: rowsFrom block widths (place + widths.foldl Nat.add 0) count

def sizesOf? (block : ByteArray) : Option (Sizes × Nat) := do
  let heaps ← number? block 6 1
  let bits ← number? block 8 8
  let tables := announced bits
  let counts ← rowAt? block headerSize (tables.map fun _ => 4)
  let extra := if heaps.testBit 6 then 4 else 0
  some
    ({ counts := tables.zip counts
       wideText := heaps.testBit 0
       wideGuid := heaps.testBit 1
       wideBlob := heaps.testBit 2 },
     headerSize + 4 * tables.length + extra)

def ofStreams (streams : Streams) : Tables where
  texts := streams.texts
  rows :=
    match sizesOf? streams.tables with
    | none => []
    | some (sizes, start) =>
      sizes.counts.map fun (table, count) =>
        (table,
          rowsFrom streams.tables (sizes.widths table) (sizes.placeOf table start)
            (if (sizes.widths table).isEmpty then 0 else count))

def rowsOf (tables : Tables) (table : Nat) : List Row := (tables.rows.lookup table).getD []

def row? (tables : Tables) (table : Nat) : Nat → Option Row
  | 0 => none
  | i + 1 => (tables.rowsOf table)[i]?

def text (tables : Tables) (row : Row) (column : Nat) : String :=
  textAt tables.texts (row.cell column)

def runs (count : Nat) : List Nat → List (List Nat)
  | [] => []
  | [start] => [List.range' start (count + 1 - start)]
  | start :: next :: rest =>
    List.range' start (min next (count + 1) - start) :: runs count (next :: rest)

def belonging (tables : Tables) (owner column table : Nat) : List (List (Nat × Row)) :=
  let owned := runs (tables.rowsOf table).length ((tables.rowsOf owner).map (·.cell column))
  owned.map fun numbers => numbers.filterMap fun n => (tables.row? table n).map (n, ·)

/-- The flags of the methods that act for a property or event. The low bit of an association tells
the one from the other. -/
def accessorFlags (tables : Tables) (table number : Nat) : List Int :=
  let tag := if table = propertyTable then 1 else 0
  (tables.rowsOf semanticsTable).filterMap fun row =>
    if row.cell 2 = 2 * number + tag then
      (tables.row? methodTable (row.cell 1)).map fun method => Int.ofNat (method.cell 2)
    else none

/-- The properties or events of the type with a number. A type can own several runs. -/
def groupsOf (tables : Tables) (map table number : Nat) : List RawGroup :=
  ((tables.rowsOf map).zip (tables.belonging map 1 table)).flatMap fun (owner, rows) =>
    if owner.cell 0 = number then
      rows.map fun (n, row) =>
        { name := tables.text row 1, accessorFlags := tables.accessorFlags table n }
    else []

/-- The name of the type that a row extends: one of this assembly or one that it refers to. -/
def baseName (tables : Tables) (row : Row) : Option String :=
  let base := row.cell 3
  let table? :=
    match base % 4 with
    | 0 => some typeDefTable
    | 1 => some typeRefTable
    | _ => none
  table?.bind fun table =>
    (tables.row? table (base / 4)).map fun row =>
      qualified (some (tables.text row 2)) (tables.text row 1)

def members (tables : Tables) (flags name : Nat) (rows : List (Nat × Row)) : List RawMember :=
  rows.map fun (_, row) => { name := tables.text row name, flags := Int.ofNat (row.cell flags) }

def types (tables : Tables) : List RawType :=
  let rows := tables.rowsOf typeDefTable
  let fields := tables.belonging typeDefTable 4 fieldTable
  let methods := tables.belonging typeDefTable 5 methodTable
  (rows.zip (fields.zip methods)).zipIdx 1 |>.map fun ((row, fields, methods), number) =>
    { index := Int.ofNat number
      name := tables.text row 1
      space := tables.text row 2
      flags := Int.ofNat (row.cell 0)
      extends? := tables.baseName row
      fields := tables.members 0 1 fields
      methods := tables.members 2 3 methods
      properties := tables.groupsOf propertyMapTable propertyTable number
      events := tables.groupsOf eventMapTable eventTable number }

def nesting (tables : Tables) : List (Int × Int) :=
  (tables.rowsOf nestingTable).map fun row => (Int.ofNat (row.cell 0), Int.ofNat (row.cell 1))

end Tables

end HiddenNames.Metadata
