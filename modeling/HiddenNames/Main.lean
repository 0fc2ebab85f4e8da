import HiddenNames.CommandLine.Run

/-!
The program. It takes a picture of the folders that a command line can mean, works out what is to be
done, and does it.
-/

namespace HiddenNames.CommandLine

def deepest : Nat := 64

def isContentNeeded (named : Bool) (name : String) : Bool :=
  named || [".cs", ".dll", ".exe"].any fun ending => name.endsWith ending

def rootedText (parts : List String) : String := "/" ++ "/".intercalate parts

def gatherTree (named : Bool) : Nat → List String → IO (List (List String × Entry))
  | 0, _ => return []
  | depth + 1, parts => do
    try
      let here ← IO.FS.realPath (rootedText parts)
      if ← here.isDir then
        let mut found := [(parts, Entry.folder)]
        for entry in ← here.readDir do
          found := found ++ (← gatherTree false depth (parts ++ [entry.fileName]))
        return found
      else if ← here.pathExists then
        let content ←
          if isContentNeeded named (parts.getLast?.getD "") then IO.FS.readBinFile here
          else pure ByteArray.empty
        return [(parts, .file content true)]
      else return []
    catch _ => return []

def foldersAbove (parts : List String) : List (List String × Entry) :=
  (List.range parts.length).map fun n => (parts.take n, .folder)

def pathsIn (argument : String) : List String :=
  match Text.cutAt '=' argument.toList with
  | some (_, value) => [argument, String.ofList value]
  | none => [argument]

def installations : IO Installations := do
  return {
    chosen? := ← IO.getEnv "DOTNET_ROOT"
    commandFolders := Text.split ':' ((← IO.getEnv "PATH").getD "")
    home := Path.ofText ((← IO.getEnv "HOME").getD "/")
    defaults := usualRoots }

def placesFor (working : List String) (known : Installations) (arguments : List String) :
    List (List String) :=
  let rooted := fun (p : Path) => Disk.normalize (if p.rooted then [] else working) p.parts
  let roots := (known.chosen?.toList ++ known.defaults).map known.expand
  let commands := known.commandFolders.map fun folder => (Path.ofText folder).child "dotnet"
  working ::
    ((arguments.flatMap pathsIn).map Path.ofText ++ roots.map (Path.child · "shared") ++
      commands).map rooted

def snapshot (known : Installations) (arguments : List String) : IO Disk := do
  let working := (Path.ofText (← IO.currentDir).toString).parts
  let mut entries := []
  for place in placesFor working known arguments do
    let found ← gatherTree true deepest place
    if !found.isEmpty then entries := entries ++ foldersAbove place ++ found
  return { working, entries }

def perform (effect : Effect) : IO UInt32 := do
  if let some folder := effect.folder? then IO.FS.createDirAll folder.text
  for (path, text) in effect.files do
    IO.FS.writeFile path.text text
  IO.print effect.out
  IO.eprint effect.err
  if let some fault := effect.fault? then IO.eprintln fault.message
  return UInt32.ofNat effect.exitCode

end HiddenNames.CommandLine

open HiddenNames HiddenNames.CommandLine in
def main (arguments : List String) : IO UInt32 := do
  let known ← installations
  let disk ← snapshot known arguments
  let columns := ((← IO.getEnv "COLUMNS").bind String.toNat?).getD 80
  perform (run { columns, roots := known.roots disk } disk arguments)
