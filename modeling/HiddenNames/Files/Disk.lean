import HiddenNames.Assoc
import HiddenNames.Files.Path

/-!
The files and folders that a run sees. A disk does not change while it is looked at.
-/

namespace HiddenNames

inductive Entry where
  | folder
  | file (content : ByteArray) (executable : Bool)

/-- What stands at a rooted place. The root is a folder. -/
def entryIn (entries : List (List String × Entry)) (place : List String) : Option Entry :=
  if place.isEmpty then some .folder else entries.lookup place

def isFolderIn (entries : List (List String × Entry)) (place : List String) : Bool :=
  match entryIn entries place with
  | some .folder => true
  | _ => false

/-- Files and folders by the parts of their rooted paths. -/
structure Entries where
  toList : List (List String × Entry)
  distinct : (toList.map Prod.fst).Nodup
  /-- Every folder on the way to an entry is an entry too. -/
  closed : ∀ place ∈ toList.map Prod.fst, isFolderIn toList place.dropLast = true

section

variable {entries : List (List String × Entry)} {place : List String}

@[simp] theorem isFolderIn_nil : isFolderIn entries [] = true := rfl

theorem isFolderIn_iff :
    isFolderIn entries place = true ↔ entryIn entries place = some .folder := by
  unfold isFolderIn
  split <;> simp_all

@[simp] theorem entryIn_assign (inside : place ≠ []) (entry : Entry) (other : List String) :
    entryIn (assign entries place entry) other =
      if other = place then some entry else entryIn entries other := by
  cases other with
  | nil => simp [entryIn, Ne.symm inside]
  | cons part rest => simp [entryIn]

end

namespace Entries

/-- Puts an entry into a folder. It takes the place of a file, but not of a folder. -/
def put (entries : Entries) (place : List String) (entry : Entry)
    (above : isFolderIn entries.toList place.dropLast = true)
    (free : isFolderIn entries.toList place = false) : Entries where
  toList := assign entries.toList place entry
  distinct := assign_distinct entries.distinct place entry
  closed := by
    have inside : place ≠ [] := by
      rintro rfl
      simp at free
    intro other held
    have before : isFolderIn entries.toList other.dropLast = true := by
      obtain ⟨found, among, rfl⟩ := List.mem_map.mp held
      rcases mem_of_mem_assign among with old | rfl
      · exact entries.closed _ (List.mem_map_of_mem old)
      · exact above
    have apart : other.dropLast ≠ place := fun same => by simp [same, free] at before
    rw [isFolderIn_iff, entryIn_assign inside, if_neg apart]
    exact isFolderIn_iff.mp before

/-- Adds an entry unless its place is taken. What is in no folder is left out. -/
def add (entries : Entries) (entry : List String × Entry) : Entries :=
  match found : entryIn entries.toList entry.1 with
  | some _ => entries
  | none =>
    if above : isFolderIn entries.toList entry.1.dropLast = true then
      entries.put entry.1 entry.2 above (by simp [isFolderIn, found])
    else entries

/-- Entries that are listed one after the other, each behind the folders on the way to it. -/
def ofList (listed : List (List String × Entry)) : Entries :=
  listed.foldl add ⟨[], .nil, nofun⟩

instance : Coe (List (List String × Entry)) Entries := ⟨ofList⟩

end Entries

/-- The files and folders of a run. `working` holds the parts of the working folder. -/
structure Disk where
  working : List String
  entries : Entries

namespace Disk

def entryAt (disk : Disk) (place : List String) : Option Entry :=
  entryIn disk.entries.toList place

def isFolderAt (disk : Disk) (place : List String) : Bool := isFolderIn disk.entries.toList place

theorem isFolderAt_iff {disk : Disk} {place : List String} :
    disk.isFolderAt place = true ↔ disk.entryAt place = some .folder := isFolderIn_iff

/-- Goes along the parts of a path from a folder. Two dots lead back out. -/
def walk (disk : Disk) (place : List String) : List String → Option (List String)
  | [] => some place
  | part :: rest =>
    if disk.isFolderAt place then
      walk disk (if part = ".." then place.dropLast else place ++ [part]) rest
    else none

def start (disk : Disk) (p : Path) : List String := if p.rooted then [] else disk.working

def entry? (disk : Disk) (p : Path) : Option Entry :=
  (disk.walk (disk.start p) p.parts).bind disk.entryAt

def isFolder (disk : Disk) (p : Path) : Bool :=
  match disk.entry? p with
  | some .folder => true
  | _ => false

def isFile (disk : Disk) (p : Path) : Bool :=
  match disk.entry? p with
  | some (.file _ _) => true
  | _ => false

def isExecutable (disk : Disk) (p : Path) : Bool :=
  match disk.entry? p with
  | some (.file _ executable) => executable
  | _ => false

def read? (disk : Disk) (p : Path) : Option ByteArray :=
  match disk.entry? p with
  | some (.file content _) => some content
  | _ => none

def normalize (place : List String) : List String → List String
  | [] => place
  | part :: rest => normalize (if part = ".." then place.dropLast else place ++ [part]) rest

def resolve (disk : Disk) (p : Path) : Path :=
  { rooted := true, parts := normalize (disk.start p) p.parts }

def listing (disk : Disk) (p : Path) : List (String × Entry) :=
  match disk.walk (disk.start p) p.parts with
  | none => []
  | some place =>
    disk.entries.toList.filterMap fun (parts, entry) =>
      match parts.getLast? with
      | some name => if parts.dropLast = place then some (name, entry) else none
      | none => none

def foldersIn (disk : Disk) (p : Path) : List Path :=
  (disk.listing p).filterMap fun (name, entry) =>
    match entry with
    | .folder => some (p.child name)
    | .file _ _ => none

def below (disk : Disk) (p : Path) : List (List String) :=
  match disk.walk (disk.start p) p.parts with
  | none => []
  | some place =>
    disk.entries.toList.filterMap fun (parts, _) =>
      if place.length < parts.length ∧ place.isPrefixOf parts then some (parts.drop place.length)
      else none

end Disk

end HiddenNames
