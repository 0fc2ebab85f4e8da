import HiddenNames.Emission.Report
import HiddenNames.Text.Json
import HiddenNames.Text.Table

/-!
The result of a pass for a reader: as a table with the diagnostics below it, or as JSON.
-/

namespace HiddenNames.CommandLine

open Text (Table TableColumn)
open Text.Json (Scalar)

def reportColumns : List TableColumn :=
  [⟨"Target", false⟩, ⟨"Status", false⟩, ⟨"Tier", false⟩, ⟨"Members", true⟩, ⟨"Containers", true⟩,
   ⟨"File", false⟩]

def reportCells (r : Report) : List String :=
  [r.target, r.status.text, (r.tier?.map Tier.text).getD "", toString r.memberCount,
   toString r.containerCount, r.hintName?.getD ""]

def reportTable (result : PassResult) : Table where
  columns := reportColumns
  rows := result.reports.map reportCells

def diagnosticLine (separator : String) (d : Diagnostic) : String :=
  d.problem.severity.text ++ " " ++ d.problem.code ++ separator ++ d.message

def diagnosticLines (width : Nat) (diagnostics : List Diagnostic) : List String :=
  if diagnostics.isEmpty then []
  else
    "" :: "Diagnostics" ::
      diagnostics.flatMap fun d => Text.paragraph width (diagnosticLine " " d)

def plainSummary (width : Nat) (result : PassResult) : String :=
  String.join
    (("Targets" :: (reportTable result).render width ++
      diagnosticLines width result.diagnostics).map (· ++ "\n"))

def optionalText : Option String → Scalar
  | none => .null
  | some text => .text text

def reportFields (r : Report) : Text.Json.Fields :=
  [("target", .text r.target), ("status", .text r.status.text),
   ("tier", optionalText (r.tier?.map Tier.text)), ("module", optionalText r.module?),
   ("member_count", .number r.memberCount), ("container_count", .number r.containerCount),
   ("hint_name", optionalText r.hintName?)]

def diagnosticFields (d : Diagnostic) : Text.Json.Fields :=
  [("id", .text d.problem.code), ("severity", .text d.problem.severity.text),
   ("message", .text d.message), ("target", .text d.target)]

def jsonSummary (result : PassResult) : String :=
  Text.Json.document
    [("targets", result.reports.map reportFields),
     ("diagnostics", result.diagnostics.map diagnosticFields)] ++ "\n"

end HiddenNames.CommandLine
