import HiddenNames.Files.Disk
import HiddenNames.Reflection.Record

/-!
Modules of the running process. Whether a module can be loaded is found out once; the answer, good
or bad, is kept. A process uses an assembly that is there already; otherwise it loads one by its
name, and if that fails from the first known file of that name.
-/

namespace HiddenNames

inductive Mishap where
  | arity (error : ArityError)
  | broken (reason : String)
  deriving DecidableEq, Repr

def Mishap.message : Mishap → String
  | .arity error => error.message
  | .broken reason => reason

structure LoadedModule where
  identity : String
  location? : Option Path := none
  find : String → Except Mishap (Option TypeView)

abbrev ModuleSource := String → Option LoadedModule

/-- The modules that were asked for, in the order of the first request, with what came of it. -/
structure Loader where
  decided : List (String × Option LoadedModule) := []

namespace Loader

def load (source : ModuleSource) (loader : Loader) (identity : String) :
    Option LoadedModule × Loader :=
  match loader.decided.lookup identity with
  | some outcome => (outcome, loader)
  | none =>
    let outcome := source identity
    (outcome, { decided := loader.decided ++ [(identity, outcome)] })

def location? (loader : Loader) (identity : String) : Option Path :=
  (loader.decided.lookup identity).bind fun outcome => outcome.bind LoadedModule.location?

def calls (loader : Loader) : List String := loader.decided.map Prod.fst

end Loader

structure Assembly where
  name : String
  location : String := ""
  types : List Reflection.ReflectedType := []

def Assembly.module (a : Assembly) (identity : String) : LoadedModule where
  identity := identity
  location? := if a.location = "" then none else some (Path.ofText a.location)
  find fullName :=
    match Reflection.findType a.types fullName with
    | .error e => .error (.arity e)
    | .ok found => .ok (found.map Reflection.Found.view)

/-- A process that assemblies can be loaded into. `byFile` finds the assembly of a file. -/
structure Host where
  present : List Assembly := []
  byName : String → Option Assembly
  byFile : Path → Option Assembly

namespace Host

def load (host : Host) (disk : Disk) (knownPaths : List Path) (identity : String) :
    Option Assembly :=
  match host.present.find? fun a => a.name = identity with
  | some a => some a
  | none =>
    match host.byName identity with
    | some a => some a
    | none =>
      match knownPaths.find? fun p => p.stem = identity && disk.isFile p with
      | some p => host.byFile p
      | none => none

def source (host : Host) (disk : Disk) (knownPaths : List Path) : ModuleSource :=
  fun identity => (host.load disk knownPaths identity).map fun a => a.module identity

end Host

end HiddenNames
