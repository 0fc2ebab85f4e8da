import HiddenNames.Emission.Report
import HiddenNames.Identifier
import HiddenNames.Resolution.Resolver
import HiddenNames.Surface.Core
import HiddenNames.Surface.Layout

/-!
A pass over requests. All requests are bound first, and repeated ones dropped; then the targets are
resolved, then the files are generated. A request that fails on the way only reports itself.
-/

namespace HiddenNames

structure PassOptions where
  access : Access := .pub
  exposure : Exposure := .chain
  emitCore : Bool := true
  deriving DecidableEq, Repr

structure Backend (σ : Type) where
  bind : σ → Request → Except Mishap Target × σ
  resolve : σ → Target → Except Mishap (Option Resolved) × σ

/-- A resolver as a backend. It never fails to resolve. -/
def Resolver.backend (r : Resolver) : Backend Session where
  bind := r.bind
  resolve s target :=
    let (found, s) := r.resolve s target
    (.ok found, s)

namespace Pass

def coreKey : String := "<core>"

def outcomeOf (problem : Problem) (message : String) (report : Report) : Outcome :=
  { report, diagnostic? := some ⟨problem, message, report.target⟩ }

def failure (request : Request) (error : Mishap) : Outcome :=
  outcomeOf .synthesisFailure
    ("Failed generating nameof extension for '" ++ request.text ++ "': " ++ error.message)
    { target := request.text, status := .failed }

def unsupportedName (request : Request) (fullName : String) : Outcome :=
  outcomeOf .unsupportedShape
    ("GenerateNameof(\"" ++ fullName ++
      "\") is not supported. Only non-generic, non-nested full type names are supported")
    { target := request.text, status := .unsupported }

def duplicate (request : Request) (target : Target) : Outcome :=
  { report := { target := request.text, status := .duplicate, module? := target.module? } }

def unresolvedMessage (request : Request) : String :=
  match request.subject, request.home with
  | .textual fullName, home =>
    "Could not resolve runtime type \"" ++ fullName ++ "\" using inAssemblyOf \"" ++
      home.text ++ "\". No members were generated."
  | .direct ref, _ => "Could not resolve type \"" ++ ref.text ++ "\". No members were generated."

def unresolved (request : Request) (target : Target) : Outcome :=
  outcomeOf .resolutionExhausted (unresolvedMessage request)
    { target := request.text, status := .unresolved, module? := target.module? }

def inaccessible (request : Request) (resolved : Resolved) : Outcome :=
  outcomeOf .unsupportedShape
    ("'" ++ resolved.view.fullName ++ "' is not accessible outside its enclosing type. " ++
      "Its members are named through the enclosing type's nameof extension")
    { target := request.text, status := .unsupported, module? := resolved.module? }

def unsupportedName? (request : Request) : Option String :=
  match request.subject with
  | .textual fullName => if isSupportedFullName fullName then none else some fullName
  | .direct _ => none

inductive Progress where
  | finished (outcome : Outcome)
  | bound (request : Request) (target : Target)

def bindOne {σ : Type} (b : Backend σ) (registry : Registry) (s : σ) (request : Request) :
    Progress × Registry × σ :=
  match unsupportedName? request with
  | some fullName => (.finished (unsupportedName request fullName), registry, s)
  | none =>
    match b.bind s request with
    | (.error e, s) => (.finished (failure request e), registry, s)
    | (.ok target, s) =>
      match registry.claim target.key with
      | (true, registry) => (.bound request target, registry, s)
      | (false, registry) => (.finished (duplicate request target), registry, s)

def bindAll {σ : Type} (b : Backend σ) (registry : Registry) (s : σ) :
    List Request → List Progress × Registry × σ
  | [] => ([], registry, s)
  | request :: rest =>
    let (progress, registry, s) := bindOne b registry s request
    let (more, registry, s) := bindAll b registry s rest
    (progress :: more, registry, s)

inductive Stage where
  | finished (outcome : Outcome)
  | resolved (request : Request) (target : Target) (answer : Except Mishap (Option Resolved))

def resolveAll {σ : Type} (b : Backend σ) (s : σ) : List Progress → List Stage × σ
  | [] => ([], s)
  | .finished outcome :: rest =>
    let (more, s) := resolveAll b s rest
    (.finished outcome :: more, s)
  | .bound request target :: rest =>
    let (answer, s) := b.resolve s target
    let (more, s) := resolveAll b s rest
    (.resolved request target answer :: more, s)

/-- Generates the file of a type that can be named. The identity is taken only if there is a
file. -/
def emit (options : PassOptions) (registry : Registry) (request : Request) (resolved : Resolved) :
    Outcome × Registry :=
  match resolved.view.tree.walkError with
  | some e => (failure request (.arity e), registry)
  | none =>
    let access := request.access.getD options.access
    let exposure := options.exposure
    let containers := ContainerTree.ofTarget resolved.view ⟨!resolved.view.inSource, exposure⟩
    let report : Report :=
      { target := request.text, status := .empty, tier? := some resolved.tier,
        module? := resolved.module?, memberCount := resolved.view.hiddenNames.length,
        containerCount := containers.size }
    match resolved.render access exposure (some resolved.view.identity) with
    | none => ({ report }, registry)
    | some first =>
      let (identity, registry) := registry.claimIdentity resolved.view.identity
      let source :=
        if identity = resolved.view.identity then first
        else (resolved.render access exposure (some identity)).getD first
      let hint := hintName identity
      ({ report := { report with status := .emitted, hintName? := some hint },
         unit? := some ⟨hint, source, request.text, some resolved.tier⟩ }, registry)

def synthesizeOne (options : PassOptions) (registry : Registry) : Stage → Outcome × Registry
  | .finished outcome => (outcome, registry)
  | .resolved request _ (.error e) => (failure request e, registry)
  | .resolved request target (.ok none) => (unresolved request target, registry)
  | .resolved request _ (.ok (some resolved)) =>
    if resolved.view.inSource && !resolved.view.isExposed then
      (inaccessible request resolved, registry)
    else emit options registry request resolved

def synthesizeAll (options : PassOptions) (registry : Registry) :
    List Stage → List Outcome × Registry
  | [] => ([], registry)
  | stage :: rest =>
    let (outcome, registry) := synthesizeOne options registry stage
    let (more, registry) := synthesizeAll options registry rest
    (outcome :: more, registry)

def coreUnits (options : PassOptions) (registry : Registry) : List EmissionUnit × Registry :=
  if options.emitCore then
    match registry.claim coreKey with
    | (true, registry) => ([⟨coreHintName, coreText, "Nameof", none⟩], registry)
    | (false, registry) => ([], registry)
  else ([], registry)

def resultOf (core : List EmissionUnit) (outcomes : List Outcome) : PassResult where
  units := core ++ outcomes.filterMap Outcome.unit?
  diagnostics := outcomes.filterMap Outcome.diagnostic?
  reports := outcomes.map Outcome.report

def run {σ : Type} (b : Backend σ) (options : PassOptions) (registry : Registry) (s : σ)
    (requests : List Request) : PassResult × Registry × σ :=
  let (core, registry) := coreUnits options registry
  let (progress, registry, s) := bindAll b registry s requests
  let (stages, s) := resolveAll b s progress
  let (outcomes, registry) := synthesizeAll options registry stages
  (resultOf core outcomes, registry, s)

/-! Several workers resolve targets in an order of their own. What they find is put back where the
requests stand before any file is generated. -/

def waiting (place : Nat) : List Progress → List (Nat × Target)
  | [] => []
  | .finished _ :: rest => waiting (place + 1) rest
  | .bound _ target :: rest => (place, target) :: waiting (place + 1) rest

def resolveEach {σ : Type} (b : Backend σ) (s : σ) :
    List (Nat × Target) → List (Nat × Except Mishap (Option Resolved)) × σ
  | [] => ([], s)
  | (place, target) :: rest =>
    let (answer, s) := b.resolve s target
    let (more, s) := resolveEach b s rest
    ((place, answer) :: more, s)

def settle (answers : List (Nat × Except Mishap (Option Resolved))) (place : Nat) :
    List Progress → List Stage
  | [] => []
  | .finished outcome :: rest => .finished outcome :: settle answers (place + 1) rest
  | .bound request target :: rest =>
    .resolved request target ((answers.lookup place).getD (.ok none)) ::
      settle answers (place + 1) rest

/-- Runs a pass in which the workers take up the bound targets in the order of a schedule. -/
def runScheduled {σ : Type} (b : Backend σ) (options : PassOptions)
    (schedule : List (Nat × Target) → List (Nat × Target)) (registry : Registry) (s : σ)
    (requests : List Request) : PassResult × Registry × σ :=
  let (core, registry) := coreUnits options registry
  let (progress, registry, s) := bindAll b registry s requests
  let (answers, s) := resolveEach b s (schedule (waiting 0 progress))
  let (outcomes, registry) := synthesizeAll options registry (settle answers 0 progress)
  (resultOf core outcomes, registry, s)

end Pass

end HiddenNames
