import HiddenNames.Files.Disk
import HiddenNames.Types.Arity

/-!
Where the file of a module may be: a reference of that name, or a file of that name in one of a list
of folders. The folders of installed frameworks come last, newer versions before older ones.
-/

namespace HiddenNames

def numbersIn (name : String) : List Nat := (runs name.toList).map numeralValue
where
  /-- Runs of decimal digits, as the values of their digits. -/
  runs : List Char → List (List Nat)
    | [] => []
    | c :: rest =>
      match Unicode.digitValue? c with
      | none => runs rest
      | some d =>
        match rest.head?.bind Unicode.digitValue?, runs rest with
        | some _, run :: more => (d :: run) :: more
        | _, more => [d] :: more

/-- Folders of installed versions, the newest first. Versions compare by their numbers. -/
def newestFirst (versions : List Path) : List Path :=
  versions.mergeSort fun a b => !decide (numbersIn a.name < numbersIn b.name)

def byName (folders : List Path) : List Path := folders.mergeSort Path.before

def sharedFrameworkFolders (disk : Disk) (root : Path) : List Path :=
  (byName (disk.foldersIn (root.child "shared"))).flatMap fun framework =>
    newestFirst (disk.foldersIn framework)

/-- What tells where installations are: a variable of the environment, the folders that commands are
found in, the home folder, and folders to try in the end. -/
structure Installations where
  chosen? : Option String := none
  commandFolders : List String := []
  home : Path := { rooted := true }
  defaults : List String := []

def usualRoots : List String :=
  ["/usr/share/dotnet", "/usr/lib/dotnet", "/usr/local/share/dotnet", "~/.dotnet",
   "C:/Program Files/dotnet"]

namespace Installations

def expand (i : Installations) (text : String) : Path :=
  let path := Path.ofText text
  match path.rooted, path.parts with
  | false, "~" :: rest => i.home.join { parts := rest }
  | _, _ => path

def commandRoot (i : Installations) (disk : Disk) : Option Path :=
  let commands := i.commandFolders.map fun folder => (Path.ofText folder).child "dotnet"
  (commands.find? disk.isExecutable).map fun command => (disk.resolve command).parent

/-- The installations that have frameworks, the most specific first, none of them twice. -/
def roots (i : Installations) (disk : Disk) : List Path :=
  let chosen := (i.chosen?.filter (· ≠ "")).toList.map i.expand
  let candidates := chosen ++ (i.commandRoot disk).toList ++ i.defaults.map i.expand
  candidates.foldl (fun roots root =>
    if root ∉ roots && disk.isFolder (root.child "shared") then roots ++ [root] else roots) []

end Installations

/-- The folders and files that modules are looked for in. The roots of installations are those
given, unless it is said where to find them. -/
structure Locator where
  searchPaths : List Path := []
  references : List Path := []
  runtimeFolder? : Option Path := none
  roots : List Path := []
  installations? : Option Installations := none

namespace Locator

def foundRoots (locator : Locator) (disk : Disk) : List Path :=
  match locator.installations? with
  | some installations => installations.roots disk
  | none => locator.roots

/-- The folder of the runtime, and the same version of the frameworks beside it. -/
def runtimeFolders (locator : Locator) (disk : Disk) : List Path :=
  match locator.runtimeFolder? with
  | none => []
  | some folder =>
    folder ::
      if 2 ≤ folder.parts.length then
        (byName (disk.foldersIn folder.parent.parent)).map fun framework =>
          framework.child folder.name
      else []

/-- All folders to look in. `loaded?` is the file of the module if it is loaded already. -/
def candidateFolders (locator : Locator) (disk : Disk) (loaded? : Option Path) : List Path :=
  (loaded?.map Path.parent).toList ++ locator.searchPaths ++
    locator.references.map Path.parent ++ locator.runtimeFolders disk ++
    locator.roots.flatMap (sharedFrameworkFolders disk)

def extensions : List String := [".dll", ".exe"]

def filesIn (identity : String) (folder : Path) : List Path :=
  extensions.map fun suffix => folder.join (Path.ofText (identity ++ suffix))

/-- The first file of a module in the folders, none of which is looked at twice. -/
def searchFolders (disk : Disk) (identity : String) (seen : List Path) :
    List Path → Option Path
  | [] => none
  | folder :: rest =>
    if folder ∈ seen then searchFolders disk identity seen rest
    else
      match (filesIn identity folder).find? disk.isFile with
      | some file => some file
      | none => searchFolders disk identity (folder :: seen) rest

def locate (locator : Locator) (disk : Disk) (loaded? : Option Path) (identity : String) :
    Option Path :=
  match locator.references.find? fun p => p.stem = identity && disk.isFile p with
  | some file => some file
  | none => searchFolders disk identity [] (locator.candidateFolders disk loaded?)

end Locator

end HiddenNames
