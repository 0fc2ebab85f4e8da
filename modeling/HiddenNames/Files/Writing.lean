import HiddenNames.Files.Disk

/-!
Making folders and files. Whether that works depends on what stands on the way to the new entry and
in its place.
-/

namespace HiddenNames

inductive FileFault where
  | missing
  | isFolder
  | notFolder
  | taken
  | longName
  deriving DecidableEq, Repr

def FileFault.message : FileFault → String
  | .missing => "No such file or folder"
  | .isFolder => "Is a folder"
  | .notFolder => "Not a folder"
  | .taken => "File exists"
  | .longName => "File name too long"

namespace Disk

def longestName : Nat := 255

/-- The place that parts lead to from a folder. All that stands on the way must be folders; what is
at the end need not exist. -/
def reach (disk : Disk) (place : List String) : List String → Except FileFault (List String)
  | [] => .ok place
  | part :: rest =>
    match disk.entryAt place with
    | none => .error .missing
    | some (.file _ _) => .error .notFolder
    | some .folder =>
      if longestName < part.utf8ByteSize then .error .longName
      else reach disk (if part = ".." then place.dropLast else place ++ [part]) rest

def put (disk : Disk) (place : List String) (entry : Entry) : Except FileFault Disk :=
  if taken : disk.isFolderAt place = true then .error .isFolder
  else if above : disk.isFolderAt place.dropLast = true then
    .ok { disk with entries := disk.entries.put place entry above (Bool.eq_false_iff.mpr taken) }
  else .error .missing

def write (disk : Disk) (p : Path) (content : ByteArray) : Except FileFault Disk :=
  match disk.reach (disk.start p) p.parts with
  | .error e => .error e
  | .ok place => disk.put place (.file content false)

/-- Writes a file at the place that a text spells. A text that stands for a folder names no file. -/
def writeAt (disk : Disk) (text : String) (content : ByteArray) : Except FileFault Disk :=
  if text = "" then .error .missing
  else if Path.spellsFolder text then
    match disk.reach (disk.start (Path.ofText text)) (Path.ofText text).parts with
    | .error e => .error e
    | .ok place =>
      match disk.entryAt place with
      | some (.file _ _) => .error .notFolder
      | some .folder => .error .isFolder
      | none => .error (if text.endsWith "/" then .isFolder else .missing)
  else disk.write (Path.ofText text) content

def makeFolder (disk : Disk) (p : Path) : Except FileFault Disk :=
  match disk.reach (disk.start p) p.parts with
  | .error e => .error e
  | .ok place =>
    match disk.entryAt place with
    | some _ => .error .taken
    | none => disk.put place .folder

def ensureFolder (disk : Disk) (p : Path) : Except FileFault Disk :=
  match disk.makeFolder p with
  | .ok disk => .ok disk
  | .error .missing => .error .missing
  | .error e => if disk.isFolder p then .ok disk else .error e

def ensureFolders (disk : Disk) (p : Path) : Except FileFault Disk :=
  match disk.ensureFolder p with
  | .error .missing =>
    if p.parts.isEmpty then .error .missing
    else
      match ensureFolders disk p.parent with
      | .error e => .error e
      | .ok disk => disk.ensureFolder p
  | outcome => outcome
termination_by p.parts.length
decreasing_by
  simp only [Path.parent, List.length_dropLast]
  have : p.parts ≠ [] := by simpa using ‹¬p.parts.isEmpty = true›
  have := List.length_pos_iff.2 this
  omega

end Disk

end HiddenNames
