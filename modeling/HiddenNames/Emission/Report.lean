import HiddenNames.Identifier
import HiddenNames.Types.Basic

/-!
What a pass hands out: generated files, diagnostics, and one report for each request.
-/

namespace HiddenNames

/-- A generated file. Only the shared file has no tier. -/
structure EmissionUnit where
  hintName : String
  source : String
  target : String
  tier? : Option Tier := none
  deriving DecidableEq, Repr

inductive Severity where
  | info
  | warning
  deriving DecidableEq, Repr

def Severity.text : Severity → String
  | .info => "info"
  | .warning => "warning"

inductive Problem where
  | unsupportedShape
  | resolutionExhausted
  | synthesisFailure
  deriving DecidableEq, Repr

def Problem.code : Problem → String
  | .unsupportedShape => "NAMEOF001"
  | .resolutionExhausted => "NAMEOF002"
  | .synthesisFailure => "NAMEOF003"

/-- A target that no tier knows is no fault of the program. -/
def Problem.severity : Problem → Severity
  | .resolutionExhausted => .info
  | _ => .warning

structure Diagnostic where
  problem : Problem
  message : String
  target : String
  deriving DecidableEq, Repr

inductive Status where
  | emitted
  | empty
  | duplicate
  | unsupported
  | unresolved
  | failed
  deriving DecidableEq, Repr

def Status.text : Status → String
  | .emitted => "emitted"
  | .empty => "empty"
  | .duplicate => "duplicate"
  | .unsupported => "unsupported"
  | .unresolved => "unresolved"
  | .failed => "failed"

structure Report where
  target : String
  status : Status
  tier? : Option Tier := none
  module? : Option String := none
  memberCount : Nat := 0
  containerCount : Nat := 0
  hintName? : Option String := none
  deriving DecidableEq, Repr

structure Outcome where
  report : Report
  diagnostic? : Option Diagnostic := none
  unit? : Option EmissionUnit := none
  deriving DecidableEq, Repr

/-- The result of a pass. Diagnostics and reports stand in the order of the requests. -/
structure PassResult where
  units : List EmissionUnit := []
  diagnostics : List Diagnostic := []
  reports : List Report := []
  deriving DecidableEq, Repr

/-! What has been generated already: the targets that were asked for, and the identities of the
files. Passes over one program may share a registry, so that none repeats the work of another. -/

structure Registry where
  keys : List String := []
  identities : List String := []
  deriving DecidableEq, Repr

namespace Registry

/-- Takes a key. The answer is whether it was free. -/
def claim (r : Registry) (key : String) : Bool × Registry :=
  if key ∈ r.keys then (false, r) else (true, { r with keys := key :: r.keys })

/-- The identity that a file gets: the one asked for if it is free, else that one with the least
free number from two on. -/
def chooseIdentity (r : Registry) (identity : String) : String :=
  if identity ∈ r.identities then
    Identifier.numbered identity
      (Identifier.leastFree (fun k => Identifier.numbered identity k ∉ r.identities)
        r.identities.length 2)
  else identity

def claimIdentity (r : Registry) (identity : String) : String × Registry :=
  let chosen := r.chooseIdentity identity
  (chosen, { r with identities := chosen :: r.identities })

end Registry

end HiddenNames
