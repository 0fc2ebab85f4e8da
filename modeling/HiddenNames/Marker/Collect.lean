import HiddenNames.Exposure
import HiddenNames.Marker.Request
import HiddenNames.Source.Program

/-!
All requests of a program: those of its markers in the order in which they stand, then those given
outside the sources. A marker that cannot be read is skipped; one given outside is an error.
-/

namespace HiddenNames.Marker

structure Skipped where
  path : String
  line : Nat
  fault : Fault
  deriving DecidableEq, Repr

def isEnabled (p : SourceProgram) (t : SourceType) : Bool :=
  (t.kind = .classKind || t.kind = .structKind) && (p.view t).isExposed

def requestsForAll (p : SourceProgram) (access : Option Access) : List Request :=
  (p.types.filter (isEnabled p)).map fun t => Request.direct t.ref access

def requestsOf (p : SourceProgram) (m : SourceMarker) : Except Fault (List Request) :=
  match read m.text ((m.declared?.bind p.get?).map SourceType.ref) with
  | .error e => .error e
  | .ok none => .ok []
  | .ok (some marker) =>
    match marker.request? with
    | some request => .ok [request]
    | none => .ok (requestsForAll p marker.access)

def sourceRequests (p : SourceProgram) : List Request :=
  p.markers.flatMap fun m =>
    match requestsOf p m with
    | .ok requests => requests
    | .error _ => []

def skippedMarkers (p : SourceProgram) : List Skipped :=
  p.markers.filterMap fun m =>
    match requestsOf p m with
    | .ok _ => none
    | .error fault => some ⟨m.path, m.line, fault⟩

def readAllExtra : List String → Except Fault (List Request)
  | [] => .ok []
  | text :: rest =>
    (readExtra text).bind fun request => (readAllExtra rest).map fun more => request :: more

def collect (p : SourceProgram) (extra : List String) : Except Fault (List Request) :=
  (readAllExtra extra).map fun requests => sourceRequests p ++ requests

end HiddenNames.Marker
