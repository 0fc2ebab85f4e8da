import HiddenNames.Text.Basic

/-!
Arguments of a command line. Options may stand between operands, up to two dashes alone; a long
option takes its value after an equals sign or from the next argument, and letters that take no
value can share one dash.
-/

namespace HiddenNames.CommandLine

structure OptionRule where
  name : String
  letter? : Option Char := none
  takesValue : Bool := true
  deriving DecidableEq, Repr

inductive UsageFault where
  | commandMissing
  | unknownCommand (name : String)
  | unknownOption (text : String)
  | valueMissing (option : String)
  | valueRefused (option : String)
  | optionMissing (option : String)
  | unknownChoice (option value : String)
  | notCount (option value : String)
  | operandMissing
  | operandRefused (text : String)
  | noSuchPath (text : String)
  deriving DecidableEq, Repr

def UsageFault.message : UsageFault → String
  | .commandMissing => "A command is missing"
  | .unknownCommand name => "There is no command " ++ name
  | .unknownOption text => "There is no option " ++ text
  | .valueMissing option => "--" ++ option ++ " needs a value"
  | .valueRefused option => "--" ++ option ++ " takes no value"
  | .optionMissing option => "--" ++ option ++ " is needed"
  | .unknownChoice option value => value ++ " is no choice for --" ++ option
  | .notCount option value => value ++ " is no positive count for --" ++ option
  | .operandMissing => "A source is missing"
  | .operandRefused text => "Nothing can be done with " ++ text
  | .noSuchPath text => "There is no " ++ text

/-- An option that was given, with its value. The value of a switch is empty. -/
structure Given where
  option : OptionRule
  value : String := ""
  deriving DecidableEq, Repr

structure Arguments where
  given : List Given := []
  operands : List String := []
  deriving DecidableEq, Repr

/-- Options that one argument gives, and the one whose value is the next argument. -/
abbrev Opened := List Given × Option OptionRule

def readLong (rules : List OptionRule) (body : List Char) : Except UsageFault Opened :=
  let (name, value?) := match Text.cutAt '=' body with
    | some (name, value) => (String.ofList name, some (String.ofList value))
    | none => (String.ofList body, none)
  match rules.find? fun rule => rule.name = name, value? with
  | none, _ => .error (.unknownOption ("--" ++ name))
  | some rule, some value =>
    if rule.takesValue then .ok ([⟨rule, value⟩], none) else .error (.valueRefused name)
  | some rule, none => if rule.takesValue then .ok ([], some rule) else .ok ([⟨rule, ""⟩], none)

/-- Reads letters after one dash. What follows a letter that takes a value is its value. -/
def readLetters (rules : List OptionRule) : List Char → Except UsageFault Opened
  | [] => .ok ([], none)
  | c :: rest =>
    match rules.find? fun rule => rule.letter? = some c with
    | none => .error (.unknownOption (String.ofList ['-', c]))
    | some rule =>
      if !rule.takesValue then
        (readLetters rules rest).map fun (given, open?) => (⟨rule, ""⟩ :: given, open?)
      else if rest.isEmpty then .ok ([], some rule)
      else .ok ([⟨rule, String.ofList rest⟩], none)

namespace Arguments

def giving (more : List Given) (a : Arguments) : Arguments := { a with given := more ++ a.given }

/-- Reads arguments in order. Without `mixed`, everything from the first operand on is an
operand. -/
def read (rules : List OptionRule) (mixed : Bool) : List String → Except UsageFault Arguments
  | [] => .ok {}
  | text :: rest =>
    let opened := match text.toList with
      | '-' :: '-' :: body => some (readLong rules body)
      | '-' :: c :: body => some (readLetters rules (c :: body))
      | _ => none
    if text = "--" then .ok { operands := rest }
    else
      match opened with
      | some (.error fault) => .error fault
      | some (.ok (given, none)) => (read rules mixed rest).map (giving given)
      | some (.ok (given, some rule)) =>
        match rest with
        | [] => .error (.valueMissing rule.name)
        | value :: rest => (read rules mixed rest).map (giving (given ++ [⟨rule, value⟩]))
      | none =>
        if mixed then
          (read rules mixed rest).map fun a => { a with operands := text :: a.operands }
        else .ok { operands := text :: rest }

def values (a : Arguments) (name : String) : List String :=
  (a.given.filter fun g => g.option.name = name).map Given.value

/-- The value of an option. The last one given counts. -/
def value? (a : Arguments) (name : String) : Option String := (a.values name).getLast?

def isGiven (a : Arguments) (name : String) : Bool := (a.value? name).isSome

end Arguments

end HiddenNames.CommandLine
