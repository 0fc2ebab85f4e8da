import HiddenNames.CommandLine.Arguments
import HiddenNames.Files.Disk
import HiddenNames.Types.Arity
import HiddenNames.Types.Basic

/-!
Commands. `gen` writes the files of a pass, `info` says what would become of each request, and
`core` gives the file that all others share.
-/

namespace HiddenNames.CommandLine

inductive Runtime where
  | coreclr
  | mono
  | netfx
  deriving DecidableEq, Repr

def Runtime.text : Runtime → String
  | .coreclr => "coreclr"
  | .mono => "mono"
  | .netfx => "netfx"

/-- What a pass is to work on. The number of jobs has no influence on the result. -/
structure PassArguments where
  sources : List Path
  references : List Path := []
  searchPaths : List Path := []
  assemblyName : String := "Program"
  assembly? : Option Path := none
  markers : List String := []
  internal : Bool := false
  exposure : Exposure := .chain
  jobs : Nat := 1
  runtime? : Option Runtime := none
  deriving DecidableEq, Repr

inductive Command where
  | gen (pass : PassArguments) (folder : Path) (withCore : Bool)
  | info (pass : PassArguments) (asJson : Bool)
  | core (file? : Option String)
  deriving DecidableEq, Repr

inductive Intent where
  | help
  | run (command : Command)
  deriving DecidableEq, Repr

/-! Options. -/

def helpRule : OptionRule := { name := "help", takesValue := false }

def generalRules : List OptionRule :=
  [{ name := "verbose", letter? := some 'v', takesValue := false }, helpRule]

def passRules : List OptionRule :=
  [{ name := "reference", letter? := some 'r' },
   { name := "search-path" },
   { name := "assembly-name" },
   { name := "assembly" },
   { name := "marker", letter? := some 'm' },
   { name := "internal", takesValue := false },
   { name := "exposure" },
   { name := "jobs", letter? := some 'j' },
   { name := "runtime" },
   helpRule]

def outputRule : OptionRule := { name := "output", letter? := some 'o' }

def genRules : List OptionRule :=
  outputRule :: { name := "no-core", takesValue := false } :: passRules

def infoRules : List OptionRule := { name := "json", takesValue := false } :: passRules

def coreRules : List OptionRule := [outputRule, helpRule]

/-! Values. -/

def exists? (disk : Disk) (text : String) : Bool :=
  text ≠ "" &&
    if Path.spellsFolder text then disk.isFolder (Path.ofText text)
    else (disk.entry? (Path.ofText text)).isSome

def dropSeparators : List Char → Option (List Char)
  | [] => some []
  | '_' :: _ => none
  | [c] => some [c]
  | c :: '_' :: d :: rest => if d = '_' then none else (dropSeparators (d :: rest)).map (c :: ·)
  | c :: rest => (dropSeparators rest).map (c :: ·)

/-- A positive count in decimal digits. Blanks around it and a plus sign do not matter. -/
def readCount (text : String) : Option Nat :=
  let digits := match Text.trimBlanks text.toList with
    | '+' :: rest => rest
    | cs => cs
  match dropSeparators digits with
  | none | some [] => none
  | some cs =>
    match readNumeral cs with
    | .error _ => none
    | .ok n => if n = 0 then none else some n

def choose {α : Type} (option : String) (text : α → String) (choices : List α) (value : String) :
    Except UsageFault α :=
  match choices.find? fun choice => text choice = value with
  | some choice => .ok choice
  | none => .error (.unknownChoice option value)

def choice? {α : Type} (a : Arguments) (option : String) (text : α → String) (choices : List α) :
    Except UsageFault (Option α) :=
  match a.value? option with
  | none => .ok none
  | some value => (choose option text choices value).map some

def jobs (a : Arguments) : Except UsageFault Nat :=
  match a.value? "jobs" with
  | none => .ok 1
  | some value =>
    match readCount value with
    | some n => .ok n
    | none => .error (.notCount "jobs" value)

def sources (disk : Disk) (a : Arguments) : Except UsageFault (List Path) :=
  if a.operands.isEmpty then .error .operandMissing
  else
    match a.operands.find? fun text => !exists? disk text with
    | some text => .error (.noSuchPath text)
    | none => .ok (a.operands.map Path.ofText)

def passArguments (disk : Disk) (a : Arguments) : Except UsageFault PassArguments := do
  let sources ← sources disk a
  let exposure? ← choice? a "exposure" Exposure.text [.chain, .declared]
  let jobs ← jobs a
  let runtime? ← choice? a "runtime" Runtime.text [.coreclr, .mono, .netfx]
  return {
    sources, jobs, runtime?
    references := (a.values "reference").map Path.ofText
    searchPaths := (a.values "search-path").map Path.ofText
    assemblyName := (a.value? "assembly-name").getD "Program"
    assembly? := (a.value? "assembly").map Path.ofText
    markers := a.values "marker"
    internal := a.isGiven "internal"
    exposure := exposure?.getD .chain }

/-! Commands. -/

/-- Reads the arguments of a command. A request for help outranks all that is wrong with values. -/
def withArguments (rules : List OptionRule) (texts : List String)
    (meaning : Arguments → Except UsageFault Command) : Except UsageFault Intent := do
  let a ← Arguments.read rules true texts
  if a.isGiven "help" then return .help
  return .run (← meaning a)

def genOf (disk : Disk) (a : Arguments) : Except UsageFault Command := do
  let pass ← passArguments disk a
  match a.value? "output" with
  | none => throw (.optionMissing "output")
  | some folder => return .gen pass (Path.ofText folder) (!a.isGiven "no-core")

def infoOf (disk : Disk) (a : Arguments) : Except UsageFault Command := do
  let pass ← passArguments disk a
  return .info pass (a.isGiven "json")

def coreOf (a : Arguments) : Except UsageFault Command :=
  match a.operands with
  | text :: _ => .error (.operandRefused text)
  | [] => .ok (.core (a.value? "output"))

def intentOf (disk : Disk) (texts : List String) : Except UsageFault Intent := do
  let a ← Arguments.read generalRules false texts
  if a.isGiven "help" then return .help
  match a.operands with
  | [] => throw .commandMissing
  | "gen" :: rest => withArguments genRules rest (genOf disk)
  | "info" :: rest => withArguments infoRules rest (infoOf disk)
  | "core" :: rest => withArguments coreRules rest coreOf
  | name :: _ => throw (.unknownCommand name)

end HiddenNames.CommandLine
