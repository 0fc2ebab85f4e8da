import HiddenNames.Text.Basic
import HiddenNames.Types.Basic
import HiddenNames.Types.Reference

/-!
Requests for a surface of names. A request names its type either by a reference, or by a full name
together with what tells the module: a type that lives in it, or the module's name.
-/

namespace HiddenNames

inductive Subject where
  | direct (ref : TypeRef)
  | textual (fullName : String)

/-- What tells a module. Beside an anchor, a name that is given decides. -/
inductive Home where
  | anchored (anchor : TypeRef) (module? : Option String)
  | named (module : String)

namespace Home

def ofParts? : Option TypeRef → Option String → Option Home
  | some anchor, module? => some (.anchored anchor module?)
  | none, some module => some (.named module)
  | none, none => none

def anchor? : Home → Option TypeRef
  | .anchored anchor _ => some anchor
  | .named _ => none

def module? : Home → Option String
  | .anchored _ module? => module?
  | .named module => some module

def text : Home → String
  | .anchored anchor _ => anchor.text
  | .named module => module

theorem ofParts?_eq_some_iff {anchor : Option TypeRef} {module? : Option String} {home : Home} :
    ofParts? anchor module? = some home ↔ anchor = home.anchor? ∧ module? = home.module? := by
  cases home <;> cases anchor <;> cases module? <;> simp [ofParts?, Home.anchor?, Home.module?]

end Home

/-- What is told of the module. A full name cannot do without. -/
def Subject.Home : Subject → Type
  | .direct _ => Option HiddenNames.Home
  | .textual _ => HiddenNames.Home

structure Request where
  subject : Subject
  home : subject.Home
  access : Option Access := none

inductive RequestError where
  | oneSubjectNeeded
  | moduleNeeded (fullName : String)
  deriving DecidableEq, Repr

def RequestError.message : RequestError → String
  | .oneSubjectNeeded => "A target needs either a type reference or a full name"
  | .moduleNeeded fullName =>
    "Full name request " ++ Text.quoted fullName ++ " needs an anchor type or module"

namespace Request

def ofParts (ref : Option TypeRef) (fullName : Option String) (anchor : Option TypeRef)
    (module? : Option String) (access : Option Access) : Except RequestError Request :=
  match ref, fullName with
  | some ref, none => .ok ⟨.direct ref, Home.ofParts? anchor module?, access⟩
  | none, some fullName =>
    match Home.ofParts? anchor module? with
    | some home => .ok ⟨.textual fullName, home, access⟩
    | none => .error (.moduleNeeded fullName)
  | _, _ => .error .oneSubjectNeeded

def direct (ref : TypeRef) (access : Option Access := none) : Request := ⟨.direct ref, none, access⟩

def home? (r : Request) : Option Home :=
  match r.subject, r.home with
  | .direct _, home? => home?
  | .textual _, home => some home

def anchor (r : Request) : Option TypeRef := r.home?.bind Home.anchor?

def module? (r : Request) : Option String := r.home?.bind Home.module?

def text (r : Request) : String :=
  match r.subject, r.home with
  | .direct ref, _ => ref.text
  | .textual fullName, home => fullName ++ " (in assembly of " ++ home.text ++ ")"

theorem text_of_direct {r : Request} {ref : TypeRef} (asked : r.subject = .direct ref) :
    r.text = ref.text := by
  obtain ⟨_, home, access⟩ := r
  subst asked
  rfl

theorem text_of_anchor {r : Request} {fullName : String} {anchor : TypeRef}
    (asked : r.subject = .textual fullName) (anchored : r.anchor = some anchor) :
    r.text = fullName ++ " (in assembly of " ++ anchor.text ++ ")" := by
  obtain ⟨_, home, access⟩ := r
  subst asked
  cases home with
  | anchored other module? =>
    cases anchored
    rfl
  | named module => cases anchored

end Request

end HiddenNames
