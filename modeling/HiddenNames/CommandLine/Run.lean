import HiddenNames.CommandLine.Command
import HiddenNames.CommandLine.Summary
import HiddenNames.Emission.Pass
import HiddenNames.Files.Writing
import HiddenNames.Marker.Collect
import HiddenNames.Resolution.Reader
import HiddenNames.Source.Files

/-!
What a command line does: the texts that it prints, the files that it writes, and the code that it
ends with. A run looks at the disk as it was at the start and says what is to be written; it does
not write itself.
-/

namespace HiddenNames.CommandLine

structure Surroundings where
  columns : Nat := 80
  roots : List Path := []

/-- What comes of a run. Files count in order up to a fault, which is none of the usage. -/
structure Effect where
  exitCode : Nat := 0
  out : String := ""
  err : String := ""
  fault? : Option FileFault := none
  folder? : Option Path := none
  files : List (Path × String) := []
  deriving DecidableEq, Repr

def Effect.failed (message : String) : Effect :=
  { exitCode := 1, err := "Error: " ++ message ++ "\n" }

/-- Runs a pass over the requests of sources and markers. No runtime is asked to load modules. -/
def runPass (around : Surroundings) (disk : Disk) (a : PassArguments) (emitCore : Bool) :
    Except String PassResult := do
  let program ← (SourceProgram.ofPaths disk a.sources a.assemblyName).mapError
    UnreadableSource.message
  let requests ← (Marker.collect program a.markers).mapError Marker.Fault.message
  let world : World := { disk, decode := Metadata.decode, modules := fun _ => none }
  let resolver := Resolver.standard program world
    { searchPaths := a.searchPaths, references := a.references ++ a.assembly?.toList,
      roots := around.roots }
  let options : PassOptions :=
    { access := if a.internal then .internal else .pub, exposure := a.exposure, emitCore }
  return (Pass.run resolver.backend options {} {} requests).1

def writeAll (disk : Disk) : List (Path × String) → List (Path × String) × Option FileFault
  | [] => ([], none)
  | (path, text) :: rest =>
    match disk.write path text.toUTF8 with
    | .error fault => ([], some fault)
    | .ok disk =>
      let (files, fault?) := writeAll disk rest
      ((path, text) :: files, fault?)

def filesOf (folder : Path) (result : PassResult) : List (Path × String) :=
  result.units.map fun u => (folder.child u.hintName, u.source)

def emit (disk : Disk) (folder : Path) (result : PassResult) : Effect :=
  match disk.ensureFolders folder with
  | .error fault => { exitCode := 1, fault? := some fault }
  | .ok disk =>
    match writeAll disk (filesOf folder result) with
    | (files, some fault) =>
      { exitCode := 1, fault? := some fault, folder? := some folder, files }
    | (files, none) =>
      { folder? := some folder, files
        err := String.join (result.diagnostics.map fun d => diagnosticLine ": " d ++ "\n") }

def emitCore (disk : Disk) : Option String → Effect
  | none => { out := coreText }
  | some file =>
    match disk.writeAt file coreText.toUTF8 with
    | .error fault => { exitCode := 1, fault? := some fault }
    | .ok _ => { files := [(Path.ofText file, coreText)] }

def runCommand (around : Surroundings) (disk : Disk) : Command → Effect
  | .gen pass folder withCore =>
    match runPass around disk pass withCore with
    | .error message => .failed message
    | .ok result => emit disk folder result
  | .info pass asJson =>
    match runPass around disk pass false with
    | .error message => .failed message
    | .ok result =>
      { out := if asJson then jsonSummary result else plainSummary around.columns result }
  | .core file? => emitCore disk file?

def usage : String :=
  String.join
    ["Usage: [-v] gen SOURCES... -o FOLDER [--no-core] [OPTIONS]\n",
     "       [-v] info SOURCES... [--json] [OPTIONS]\n",
     "       [-v] core [-o FILE]\n",
     "\n",
     "Options: -r, --reference FILE    --search-path FOLDER\n",
     "         --assembly-name NAME    --assembly FILE\n",
     "         -m, --marker MARKER     --internal\n",
     "         --exposure chain|declared\n",
     "         -j, --jobs COUNT        --runtime coreclr|mono|netfx\n"]

def run (around : Surroundings) (disk : Disk) (arguments : List String) : Effect :=
  match intentOf disk arguments with
  | .error fault => { exitCode := 2, err := usage ++ "\nError: " ++ fault.message ++ "\n" }
  | .ok .help => { out := usage }
  | .ok (.run command) => runCommand around disk command

end HiddenNames.CommandLine
