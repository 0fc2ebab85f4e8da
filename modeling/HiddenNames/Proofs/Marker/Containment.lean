import HiddenNames.Proofs.Marker.Plain
import Mathlib.Data.List.Forall2
import Mathlib.Data.List.Flatten

/-!
What goes wrong with a marker stays with it. Reading a marker can fail in its grammar, on the walk
over its tree, in its arguments, and in the parts of the request that is made of them. Read with all
that may be raised on the way, a marker raises nothing but a fault of its own, and each request that
is made has parts that fit together. So a marker in the sources that cannot be read adds nothing to
the requests of the others, and one given outside is refused alone.
-/

namespace HiddenNames

theorem map_mapError {ε ε' α β : Type} (f : α → β) (g : ε → ε') (x : Except ε α) :
    (x.mapError g).map f = (x.map f).mapError g := by
  cases x <;> rfl

theorem error_of_isNone {ε α : Type} {x : Except ε α} (h : x.toOption.isNone = true) :
    ∃ e, x = .error e := by
  cases x with
  | error e => exact ⟨e, rfl⟩
  | ok a => cases h

namespace Request

def ref? (r : Request) : Option TypeRef :=
  match r.subject with
  | .direct ref => some ref
  | .textual _ => none

def fullName? (r : Request) : Option String :=
  match r.subject with
  | .direct _ => none
  | .textual fullName => some fullName

/-- The request is made of its own parts, which therefore fit together. -/
def IsSound (r : Request) : Prop :=
  ofParts r.ref? r.fullName? r.anchor r.module? r.access = .ok r

theorem isSound (r : Request) : r.IsSound := by
  obtain ⟨ref | fullName, home, access⟩ := r
  · rcases home with _ | anchor | module <;> rfl
  · rcases home with anchor | module <;> rfl

end Request

namespace Marker

/-- What is raised while a marker is read: an error of the grammar, a fault of the marker, an error
of the parts of a request, or one of these wrapped by the walk over the tree. -/
inductive Raised where
  | grammar
  | fault (fault : Fault)
  | parts (error : RequestError)
  | walk (cause : Raised)

namespace Raised

def ofText (text : String) : Raised → Raised
  | .grammar => .fault (.notReadable text)
  | raised => raised

def ofWalk : Raised → Raised
  | .walk (.fault own) => .fault own
  | raised => raised

end Raised

def requestRaising (args : Arguments) (ref : Option TypeRef) (fullName : Option String)
    (anchor : Option TypeRef) (module? : Option String) : Except Raised Marker :=
  ((Request.ofParts ref fullName anchor module? args.access).mapError Raised.parts).map
    fun request => ⟨some request, args.access⟩

def anchorRaising (rest : List Meaning) (anchor : Option TypeRef) :
    Except Raised (Option TypeRef) :=
  match rest, anchor with
  | [.typeOf ref], none => .ok (some ref)
  | [], anchor => .ok anchor
  | _, _ => .error (.fault .oneAnchor)

def markerRaising (args : Arguments) (declared? : Option TypeRef) : Except Raised Marker :=
  if args.positional.isEmpty && args.anchor.isNone && args.module?.isNone then
    match declared? with
    | some ref => requestRaising args (some ref) none none none
    | none => .ok ⟨none, args.access⟩
  else
    match args.positional, args.anchor with
    | [.typeOf ref], none => requestRaising args (some ref) none none none
    | .string fullName :: rest, anchor =>
      (anchorRaising rest anchor).bind fun anchor =>
        if anchor.isNone && args.module?.isNone then .error (.fault .moduleNeeded)
        else requestRaising args none (some fullName) anchor args.module?
    | _, _ => .error (.fault .unsupportedArguments)

def buildRaising (attr : Attribute) (values : List (Option String × Meaning))
    (declared? : Option TypeRef) : Except Raised Marker :=
  match attr.typeArguments with
  | [] => ((Arguments.collect {} values).mapError Raised.fault).bind fun args =>
      markerRaising args declared?
  | [some ref] => requestRaising {} (some ref) none none none
  | _ => .error (.fault .oneTypeArgument)

def parseRaising (text : String) : Except Raised Attribute :=
  match Attribute.parse? text with
  | some attr => .ok attr
  | none => .error .grammar

def valuesRaising (attr : Attribute) : Except Raised (List (Option String × Meaning)) :=
  (meanings attr.arguments).mapError fun fault => .walk (.fault fault)

/-- Reads a marker, stage by stage. Errors of the grammar are made faults, and faults are taken out
of the walk; whatever else is raised is left as it is. -/
def readRaising (text : String) (declared? : Option TypeRef) : Except Raised (Option Marker) :=
  if !isMarkerName text then .ok none
  else
    ((parseRaising text).mapError (Raised.ofText text)).bind fun attr =>
      (((valuesRaising attr).mapError Raised.ofWalk).bind fun values =>
        buildRaising attr values declared?).map some

theorem markerRaising_eq (args : Arguments) (declared? : Option TypeRef) :
    markerRaising args declared? = (args.marker declared?).mapError Raised.fault := by
  unfold markerRaising Arguments.marker
  rcases positional : args.positional with _ | ⟨first, rest⟩
  · cases unplaced : args.anchor.isNone && args.module?.isNone with
    | true =>
      simp only [List.isEmpty_nil, Bool.true_and, unplaced, if_true]
      cases declared? <;> rfl
    | false =>
      simp only [List.isEmpty_nil, Bool.true_and, unplaced, Bool.false_eq_true, if_false]
      rfl
  · simp only [List.isEmpty_cons, Bool.false_and, Bool.false_eq_true, if_false]
    cases first with
    | typeOf ref =>
      rcases rest with _ | ⟨second, more⟩
      · cases args.anchor <;> rfl
      · rfl
    | string fullName =>
      rcases rest with _ | ⟨second, more⟩
      · cases args.anchor <;> cases args.module? <;> rfl
      · cases second with
        | typeOf ref =>
          cases more with
          | nil =>
            cases args.anchor <;> rfl
          | cons third more => rfl
        | string text => rfl
        | constant parts => rfl
    | constant parts => rfl

theorem buildRaising_eq (attr : Attribute) (declared? : Option TypeRef) :
    ((valuesRaising attr).mapError Raised.ofWalk).bind
        (fun values => buildRaising attr values declared?) =
      (attr.marker declared?).mapError Raised.fault := by
  unfold Attribute.marker valuesRaising
  cases meanings attr.arguments with
  | error fault => rfl
  | ok values =>
    simp only [Except.mapError, Except.bind]
    rcases typed : attr.typeArguments with _ | ⟨first, _ | ⟨second, more⟩⟩
    · simp only [buildRaising, typed]
      cases Arguments.collect {} values with
      | error fault => rfl
      | ok args => exact markerRaising_eq args declared?
    · simp only [buildRaising, typed]
      cases first <;> rfl
    · simp only [buildRaising, typed]

/-- Whatever a text is, reading it raises nothing but faults. -/
theorem readRaising_eq (text : String) (declared? : Option TypeRef) :
    readRaising text declared? = (read text declared?).mapError Raised.fault := by
  unfold readRaising read
  cases marked : isMarkerName text with
  | false => rfl
  | true =>
    simp only [Bool.not_true, Bool.false_eq_true, if_false, parseRaising]
    cases Attribute.parse? text with
    | none => rfl
    | some attr =>
      have built := buildRaising_eq attr declared?
      change Except.map some (Except.bind _ _) = _
      rw [built]
      exact map_mapError some Raised.fault _

/-! The requests of markers. -/

variable {p : SourceProgram}

def declaredRef? (p : SourceProgram) (m : SourceMarker) : Option TypeRef :=
  (m.declared?.bind p.get?).map SourceType.ref

def contribution (p : SourceProgram) (m : SourceMarker) : List Request :=
  sourceRequests { p with markers := [m] }

/-- What reading one marker of the sources adds to the requests of those behind it. A marker with a
fault is passed over; whatever else is raised ends the reading. -/
def addRaising (p : SourceProgram) (more : Except Raised (List Request)) :
    Except Raised (Option Marker) → Except Raised (List Request)
  | .error (.fault _) => more
  | .error raised => .error raised
  | .ok none => more
  | .ok (some ⟨some request, _⟩) => more.map fun more => request :: more
  | .ok (some ⟨none, access⟩) => more.map fun more => requestsForAll p access ++ more

def sourcesRaising (p : SourceProgram) : List SourceMarker → Except Raised (List Request)
  | [] => .ok []
  | m :: rest => addRaising p (sourcesRaising p rest) (readRaising m.text (declaredRef? p m))

def namedRaising (text : String) : Option Marker → Except Raised Request
  | none => .error (.fault (.notMarker text))
  | some ⟨none, _⟩ => .error (.fault (.noType text))
  | some ⟨some request, _⟩ => .ok request

def extraRaising (text : String) : Except Raised Request :=
  (readRaising (unbracketed text) none).bind (namedRaising text)

def extrasRaising : List String → Except Raised (List Request)
  | [] => .ok []
  | text :: rest =>
    (extraRaising text).bind fun request => (extrasRaising rest).map fun more => request :: more

def collectRaising (p : SourceProgram) (extra : List String) : Except Raised (List Request) :=
  (sourcesRaising p p.markers).bind fun own => (extrasRaising extra).map fun more => own ++ more

theorem contribution_eq (p : SourceProgram) (m : SourceMarker) : contribution p m =
    match requestsOf p m with
    | .ok requests => requests
    | .error _ => [] := by
  have alone : contribution p m = (match requestsOf { p with markers := [m] } m with
      | .ok requests => requests
      | .error _ => []) ++ [] := rfl
  rw [alone, List.append_nil]
  rfl

/-- A marker with a fault and an attribute that is no marker add nothing. -/
theorem contribution_nil (p : SourceProgram) {m : SourceMarker}
    (h : (∃ fault, read m.text (declaredRef? p m) = .error fault) ∨
      read m.text (declaredRef? p m) = .ok none) : contribution p m = [] := by
  rw [declaredRef?] at h
  rw [contribution_eq]
  unfold requestsOf
  rcases h with ⟨fault, refused⟩ | other
  · rw [refused]
  · rw [other]

theorem sourceRequests_eq (p : SourceProgram) :
    sourceRequests p = p.markers.flatMap (contribution p) :=
  List.flatMap_congr fun m _ => (contribution_eq p m).symm

/-- Nothing ends the reading of the markers in the sources. -/
theorem sourcesRaising_eq (p : SourceProgram) (markers : List SourceMarker) :
    sourcesRaising p markers = .ok (markers.flatMap (contribution p)) := by
  induction markers with
  | nil => rfl
  | cons m rest ih =>
    have own := contribution_eq p m
    unfold requestsOf at own
    rw [← declaredRef?] at own
    have answer := readRaising_eq m.text (declaredRef? p m)
    rw [List.flatMap_cons, own, sourcesRaising, answer, ih]
    generalize read m.text (declaredRef? p m) = outcome
    cases outcome with
    | error fault => rfl
    | ok marker? =>
      cases marker? with
      | none => rfl
      | some marker =>
        obtain ⟨request?, access⟩ := marker
        cases request? <;> rfl

theorem extraRaising_eq (text : String) :
    extraRaising text = (readExtra text).mapError Raised.fault := by
  have answer := readRaising_eq (unbracketed text) none
  unfold extraRaising readExtra
  rw [answer]
  generalize read (unbracketed text) none = outcome
  cases outcome with
  | error fault => rfl
  | ok marker? =>
    cases marker? with
    | none => rfl
    | some marker =>
      obtain ⟨request?, access⟩ := marker
      cases request? <;> rfl

theorem extrasRaising_eq (texts : List String) :
    extrasRaising texts = (readAllExtra texts).mapError Raised.fault := by
  induction texts with
  | nil => rfl
  | cons text rest ih =>
    rw [extrasRaising, extraRaising_eq, ih, readAllExtra]
    cases readExtra text with
    | error fault => rfl
    | ok request => exact map_mapError _ _ _

/-- A marker outside the sources that makes no request: it has a fault, is no marker, or names no
type. -/
def IsRefused (text : String) : Prop :=
  (∃ fault, read (unbracketed text) none = .error fault) ∨
    read (unbracketed text) none = .ok none ∨
    ∃ access, read (unbracketed text) none = .ok (some ⟨none, access⟩)

theorem isRefused_iff (text : String) :
    IsRefused text ↔ ∃ fault, readExtra text = .error fault := by
  unfold IsRefused readExtra
  cases read (unbracketed text) none with
  | error fault => simp
  | ok marker? =>
    cases marker? with
    | none => simp
    | some marker =>
      obtain ⟨request?, access⟩ := marker
      cases request? <;> simp

theorem readAllExtra_ok_iff (texts : List String) (requests : List Request) :
    readAllExtra texts = .ok requests ↔
      List.Forall₂ (fun text request => readExtra text = .ok request) texts requests := by
  induction texts generalizing requests with
  | nil =>
    rw [List.forall₂_nil_left_iff]
    exact ⟨fun h => (Except.ok.inj h).symm, fun h => congrArg Except.ok h.symm⟩
  | cons text rest ih =>
    rw [readAllExtra, List.forall₂_cons_left_iff]
    constructor
    · intro h
      obtain ⟨request, first, later⟩ := ok_of_bind h
      obtain ⟨more, others, rfl⟩ := ok_of_map later
      exact ⟨request, more, first, (ih more).mp others, rfl⟩
    · rintro ⟨request, more, first, others, rfl⟩
      rw [first, (ih more).mpr others]
      rfl

theorem not_refused_of_ok {text : String} {request : Request} (h : readExtra text = .ok request) :
    ¬IsRefused text := by
  rw [isRefused_iff, h]
  rintro ⟨fault, same⟩
  cases same

theorem not_refused_of_readAllExtra {texts : List String} {requests : List Request}
    (h : readAllExtra texts = .ok requests) : ∀ text ∈ texts, ¬IsRefused text := by
  induction texts generalizing requests with
  | nil => exact List.forall_mem_nil _
  | cons text rest ih =>
    rw [readAllExtra] at h
    obtain ⟨request, own, later⟩ := ok_of_bind h
    obtain ⟨more, others, _⟩ := ok_of_map later
    exact List.forall_mem_cons.mpr ⟨not_refused_of_ok own, ih others⟩

/-- The first marker that is refused ends the reading with its own fault. -/
theorem readAllExtra_error_iff (texts : List String) (fault : Fault) :
    readAllExtra texts = .error fault ↔ ∃ before text after, texts = before ++ text :: after ∧
      (∀ other ∈ before, ¬IsRefused other) ∧ readExtra text = .error fault := by
  induction texts with
  | nil =>
    constructor
    · intro failed
      cases failed
    · rintro ⟨before, text, after, empty, _⟩
      simp at empty
  | cons text rest ih =>
    rw [readAllExtra]
    cases own : readExtra text with
    | error e =>
      have refused : IsRefused text := (isRefused_iff text).mpr ⟨e, own⟩
      constructor
      · intro same
        rw [← Except.error.inj same]
        exact ⟨[], text, rest, rfl, List.forall_mem_nil _, own⟩
      · rintro ⟨before, first, after, split, passed, failed⟩
        cases before with
        | nil =>
          obtain ⟨rfl, -⟩ := List.cons.inj split
          rw [Except.error.inj (own.symm.trans failed)]
          rfl
        | cons other more =>
          obtain ⟨rfl, -⟩ := List.cons.inj split
          exact absurd refused (passed text List.mem_cons_self)
    | ok request =>
      have kept : ¬IsRefused text := not_refused_of_ok own
      have later : (Except.ok request : Except Fault Request).bind
          (fun request => (readAllExtra rest).map fun more => request :: more) = .error fault ↔
            readAllExtra rest = .error fault := by
        cases readAllExtra rest <;> simp [Except.bind, Except.map]
      rw [later, ih]
      constructor
      · rintro ⟨before, first, after, rfl, passed, failed⟩
        exact ⟨text :: before, first, after, rfl, List.forall_mem_cons.mpr ⟨kept, passed⟩, failed⟩
      · rintro ⟨before, first, after, split, passed, failed⟩
        cases before with
        | nil =>
          obtain ⟨rfl, -⟩ := List.cons.inj split
          rw [own] at failed
          cases failed
        | cons other more =>
          obtain ⟨-, rfl⟩ := List.cons.inj split
          exact ⟨more, first, after, rfl, (List.forall_mem_cons.mp passed).2, failed⟩

theorem collectRaising_eq (p : SourceProgram) (extra : List String) :
    collectRaising p extra = (collect p extra).mapError Raised.fault := by
  rw [collectRaising, sourcesRaising_eq, extrasRaising_eq, collect, sourceRequests_eq]
  exact map_mapError _ _ _

theorem collect_ok_iff (p : SourceProgram) (extra : List String) (requests : List Request) :
    collect p extra = .ok requests ↔ ∃ own,
      List.Forall₂ (fun text request => readExtra text = .ok request) extra own ∧
        requests = p.markers.flatMap (contribution p) ++ own := by
  rw [collect, sourceRequests_eq]
  constructor
  · intro h
    obtain ⟨own, others, rfl⟩ := ok_of_map h
    exact ⟨own, (readAllExtra_ok_iff extra own).mp others, rfl⟩
  · rintro ⟨own, others, rfl⟩
    rw [(readAllExtra_ok_iff extra own).mpr others]
    rfl

theorem collect_error_iff (p : SourceProgram) (extra : List String) (fault : Fault) :
    collect p extra = .error fault ↔ readAllExtra extra = .error fault := by
  rw [collect]
  cases readAllExtra extra <;> simp [Except.map]

theorem collect_refused_iff (p : SourceProgram) (extra : List String) :
    (∃ fault, collect p extra = .error fault) ↔ ∃ text ∈ extra, IsRefused text := by
  constructor
  · rintro ⟨fault, failed⟩
    obtain ⟨before, text, after, rfl, _, own⟩ :=
      (readAllExtra_error_iff extra fault).mp ((collect_error_iff p extra fault).mp failed)
    exact ⟨text, List.mem_append_right _ List.mem_cons_self, (isRefused_iff text).mpr ⟨fault, own⟩⟩
  · rintro ⟨text, among, refused⟩
    cases outcome : collect p extra with
    | error fault => exact ⟨fault, rfl⟩
    | ok requests =>
      obtain ⟨own, others, -⟩ := ok_of_map outcome
      exact absurd refused (not_refused_of_readAllExtra others text among)

/-- What goes wrong with markers stays with them: nothing but faults is raised; a marker in the
sources that cannot be read is passed over, and one outside the sources that makes no request is
refused. -/
structure Contained (p : SourceProgram) (extra : List String) : Prop where
  raised : collectRaising p extra = (collect p extra).mapError Raised.fault
  collected : ∀ requests, collect p extra = .ok requests ↔ ∃ own,
    List.Forall₂ (fun text request => readExtra text = .ok request) extra own ∧
      requests = p.markers.flatMap (contribution p) ++ own
  silent : ∀ m ∈ p.markers, (∃ fault, read m.text (declaredRef? p m) = .error fault) ∨
    read m.text (declaredRef? p m) = .ok none → contribution p m = []
  refused : (∃ fault, collect p extra = .error fault) ↔ ∃ text ∈ extra, IsRefused text
  first : ∀ fault, collect p extra = .error fault ↔ ∃ before text after,
    extra = before ++ text :: after ∧ (∀ other ∈ before, ¬IsRefused other) ∧
      readExtra text = .error fault
  sound : ∀ requests, collect p extra = .ok requests → ∀ request ∈ requests, request.IsSound

/-- Reading any text raises nothing but faults, and a marker that is read makes a request of parts
that fit together. Over every program and all markers given outside its sources, what goes wrong
with one marker stays with it. -/
theorem malformed_markers_contained :
    (∀ text declared?, readRaising text declared? = (read text declared?).mapError Raised.fault ∧
      ∀ marker, read text declared? = .ok (some marker) →
        ∀ request, marker.request? = some request → request.IsSound) ∧
    ∀ p extra, Contained p extra := by
  refine ⟨fun text declared? => ⟨readRaising_eq text declared?, ?_⟩, fun p extra => ?_⟩
  · exact fun _ _ request _ => request.isSound
  · constructor
    · exact collectRaising_eq p extra
    · exact collect_ok_iff p extra
    · exact fun m _ => contribution_nil p
    · exact collect_refused_iff p extra
    · intro fault
      rw [collect_error_iff]
      exact readAllExtra_error_iff extra fault
    · exact fun _ _ request _ => request.isSound

def unplaced : SourceMarker := ⟨"GenerateNameof(\"A.B\")", some "C", "a.cs", 1⟩

/-- A class with two markers that cannot be read, an attribute that is no marker, and a marker. -/
def mismarked : SourceProgram where
  types := [{ name := "C", kind := .classKind, visibility := .pub }]
  markers := [unplaced, ⟨"GenerateNameof(\"\\q\")", some "C", "a.cs", 2⟩,
    ⟨"Obsolete", some "C", "a.cs", 3⟩, ⟨"GenerateNameof", some "C", "a.cs", 4⟩]

theorem mismarked_contained :
    let extra := ["[assembly: GenerateNameof(\"A.B\", assemblyName: \"M\")]"]
    Contained mismarked extra ∧ contribution mismarked unplaced = [] ∧
      (collect mismarked extra).toOption.map (List.map Request.text) =
        some ["global::C", "A.B (in assembly of M)"] ∧
      ∃ fault, collect mismarked (extra ++ ["GenerateNameof"]) = .error fault := by
  intro extra
  have contained := malformed_markers_contained.2 mismarked extra
  have more := malformed_markers_contained.2 mismarked (extra ++ ["GenerateNameof"])
  have unread : (read unplaced.text (declaredRef? mismarked unplaced)).toOption.isNone = true := by
    decide +kernel
  have unnamed : (readExtra "GenerateNameof").toOption.isNone = true := by decide +kernel
  refine ⟨contained, contained.silent unplaced List.mem_cons_self (Or.inl ?_),
    by decide +kernel, ?_⟩
  · exact error_of_isNone unread
  · refine more.refused.mpr ⟨"GenerateNameof", List.mem_append_right _ List.mem_cons_self, ?_⟩
    exact (isRefused_iff _).mpr (error_of_isNone unnamed)

end Marker

end HiddenNames
