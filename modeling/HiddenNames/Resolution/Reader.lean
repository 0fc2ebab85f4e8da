import HiddenNames.Files.Disk
import HiddenNames.Metadata.Tables

/-!
Reading the metadata of assembly files. What a file holds is kept under its rooted path; a file that
cannot be read is tried again.
-/

namespace HiddenNames

open Metadata (Records)

inductive ReadError where
  | missing (path : Path)
  | unreadable (path : Path)
  | notAssembly (path : Path)
  | arity (error : ArityError)
  deriving DecidableEq, Repr

def ReadError.message : ReadError → String
  | .missing path => path.text ++ " does not exist"
  | .unreadable path => "Cannot read " ++ path.text
  | .notAssembly path => path.text ++ " is not a .NET assembly"
  | .arity error => error.message

abbrev Decoder := Path → ByteArray → Except ReadError Records

/-- The records in the bytes of an assembly. The bytes must be an image, the image must hold
metadata tables, and every name in the table of types must have an arity that can be read. -/
def Metadata.decode : Decoder := fun path bytes =>
  match Image.ofBytes? bytes with
  | none => .error (.unreadable path)
  | some image =>
    match Streams.ofImage? image with
    | none => .error (.notAssembly path)
    | some streams =>
      let tables := Tables.ofStreams streams
      (buildRecords tables.types tables.nesting).mapError ReadError.arity

/-- Records that were read, and every attempt to read a file, in order. -/
structure Reader where
  cache : List (Path × Records) := []
  reads : List Path := []

namespace Reader

def content (disk : Disk) (decode : Decoder) (path : Path) : Except ReadError Records :=
  match disk.read? path with
  | none => .error (.missing path)
  | some bytes => decode path bytes

def read (disk : Disk) (decode : Decoder) (reader : Reader) (path : Path) :
    Except ReadError Records × Reader :=
  let path := disk.resolve path
  match reader.cache.lookup path with
  | some records => (.ok records, reader)
  | none =>
    let reads := reader.reads ++ [path]
    match content disk decode path with
    | .ok records => (.ok records, { cache := reader.cache ++ [(path, records)], reads })
    | .error e => (.error e, { reader with reads })

end Reader

end HiddenNames
