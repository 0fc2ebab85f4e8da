import HiddenNames.Request
import HiddenNames.Resolution.Locator
import HiddenNames.Resolution.References
import HiddenNames.Source.Program
import HiddenNames.Surface.Unit

/-!
Requests become targets, and targets become types. Binding works out what a request names without
touching any module; resolution then tries the tiers one after the other, and a tier that fails is
passed over.
-/

namespace HiddenNames

/-- What a request names. `key` tells repeated requests; a target in the sources has its type. -/
structure Target where
  key : String
  request : Request
  source? : Option SourceType := none
  fullName : String
  module? : Option String := none

/-- One way of describing a target. `failing` is a tier that never works. -/
inductive TierStep where
  | static
  | loaded
  | metadata
  | failing (reason : String)
  deriving DecidableEq, Repr

structure World where
  disk : Disk
  decode : Decoder
  modules : ModuleSource

/-- What is remembered between requests. The roots of installations are found when a module is first
looked for. -/
structure Session where
  loader : Loader := {}
  reader : Reader := {}
  roots? : Option (List Path) := none

/-- Binds requests and resolves targets. Without `asksLoader` the locator does not know which
modules are loaded. -/
structure Resolver where
  program : SourceProgram
  world : World
  locator : Locator := {}
  asksLoader : Bool := true
  tiers : List TierStep := [.static, .loaded, .metadata]
  references? : Option (List Path) := none

namespace Resolver

def standard (program : SourceProgram) (world : World) (locator : Locator) : Resolver :=
  { program, world, locator, references? := some locator.references }

def key (module fullName : String) : String := module ++ "|" ++ fullName

def sourceTarget (r : Resolver) (request : Request) (t : SourceType) : Target where
  key := key r.program.assemblyName t.fullName
  request := request
  source? := some t
  fullName := t.fullName
  module? := some r.program.assemblyName

def findReferenced (r : Resolver) (s : Session) (ref : TypeRef) :
    Except Mishap (Option References.Place) × Session :=
  match r.references? with
  | none => (.ok none, s)
  | some paths =>
    let (found, reader) := References.find r.world.disk r.world.decode paths s.reader ref
    (found, { s with reader })

/-- The target of a reference to no type of the program: the referenced type that it names, else
what is written. -/
def directTarget (request : Request) (ref : TypeRef) : Option References.Place → Target
  | some (module, fullName) =>
    { key := key module fullName, request, fullName, module? := some module }
  | none => { key := ref.text, request, fullName := withArity ref.dotted ref.arity }

/-- Binds a reference to a type of the program, else to a referenced type, else to what is
written. -/
def bindDirect (r : Resolver) (s : Session) (request : Request) (ref : TypeRef) :
    Except Mishap Target × Session :=
  match r.program.find ref with
  | some t => (.ok (r.sourceTarget request t), s)
  | none =>
    let (found, s) := r.findReferenced s ref
    (found.map (directTarget request ref), s)

def anchorModule (r : Resolver) (s : Session) (anchor : TypeRef) :
    Except Mishap (Option String) × Session :=
  match r.program.find anchor with
  | some _ => (.ok (some r.program.assemblyName), s)
  | none =>
    let (found, s) := r.findReferenced s anchor
    (found.map fun place => place.map Prod.fst, s)

def homeModule (r : Resolver) (s : Session) : Home → Except Mishap (Option String) × Session
  | .named module => (.ok (some module), s)
  | .anchored _ (some module) => (.ok (some module), s)
  | .anchored anchor none => r.anchorModule s anchor

/-- The target of a textual request whose module is known or not. An anchor that nothing is known of
stands in the key as it is written. -/
def textualTarget (r : Resolver) (request : Request) (fullName : String) (home : Home)
    (module? : Option String) : Target :=
  match module? with
  | none => { key := key home.text fullName, request, fullName }
  | some module =>
    let other : Target := { key := key module fullName, request, fullName, module? := some module }
    if module = r.program.assemblyName then
      match r.program.get? fullName with
      | some t => r.sourceTarget request t
      | none => other
    else other

def bind (r : Resolver) (s : Session) (request : Request) : Except Mishap Target × Session :=
  match request.subject, request.home with
  | .direct ref, _ => r.bindDirect s request ref
  | .textual fullName, home =>
    let (module?, s) := r.homeModule s home
    (module?.map (r.textualTarget request fullName home), s)

def knownLocation (r : Resolver) (s : Session) (module : String) : Option Path :=
  if r.asksLoader then s.loader.location? module else none

def locate (r : Resolver) (s : Session) (module : String) : Option Path × Session :=
  let roots := s.roots?.getD (r.locator.foundRoots r.world.disk)
  ({ r.locator with roots }.locate r.world.disk (r.knownLocation s module) module,
    { s with roots? := some roots })

def tryTier (r : Resolver) (s : Session) (target : Target) :
    TierStep → Except Mishap (Option Resolved) × Session
  | .static =>
    (.ok (target.source?.map fun t =>
      { tier := .static, view := r.program.view t, module? := some r.program.assemblyName }), s)
  | .failing reason => (.error (.broken reason), s)
  | .loaded =>
    match target.module? with
    | none => (.ok none, s)
    | some module =>
      let (outcome, loader) := s.loader.load r.world.modules module
      let s := { s with loader }
      match outcome with
      | none => (.ok none, s)
      | some loaded =>
        match loaded.find target.fullName with
        | .error e => (.error e, s)
        | .ok found =>
          (.ok (found.map fun v => { tier := .loaded, view := v, module? := some module }), s)
  | .metadata =>
    match target.module? with
    | none => (.ok none, s)
    | some module =>
      match r.locate s module with
      | (none, s) => (.ok none, s)
      | (some path, s) =>
        let (content, reader) := s.reader.read r.world.disk r.world.decode path
        let s := { s with reader }
        match content with
        | .error e => (.error (.broken e.message), s)
        | .ok records =>
          match Metadata.findType records target.fullName .metadata with
          | .error e => (.error (.arity e), s)
          | .ok found =>
            (.ok (found.map fun v => { tier := .metadata, view := v, module? := some module }), s)

/-- Tries tiers in order. One that fails, or does not know the target, gives way to the next. -/
def tryTiers (r : Resolver) (target : Target) (s : Session) :
    List TierStep → Option Resolved × Session
  | [] => (none, s)
  | tier :: rest =>
    match r.tryTier s target tier with
    | (.ok (some resolved), s) => (some resolved, s)
    | (_, s) => r.tryTiers target s rest

def resolve (r : Resolver) (s : Session) (target : Target) : Option Resolved × Session :=
  r.tryTiers target s r.tiers

end Resolver

end HiddenNames
