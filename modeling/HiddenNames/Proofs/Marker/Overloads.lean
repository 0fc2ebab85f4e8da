import HiddenNames.Proofs.Marker.Literals
import HiddenNames.Proofs.Marker.Printed
import HiddenNames.Surface.Core

/-!
Applications of the constructors that the shared file declares. The operands of a marker are
collected one by one, so what a whole list of them comes to is a fold. A marker is read as its
constructor means it, unless its operands are two strings: that constructor is declared and its
applications are refused.
-/

namespace HiddenNames.Marker

variable {operands : List Operand} {texts : List String} {name : String}
  {declared? : Option TypeRef}

/-! Constructors. -/

inductive Parameter where
  | access
  | type
  | string
  deriving DecidableEq, Repr

def Parameter.shown : Parameter → String
  | .access => "NameofAccessModifier"
  | .type => "global::System.Type"
  | .string => "string"

def constructors : List (List (Parameter × String)) :=
  [[], [(.access, "accessModifier")], [(.type, "type")],
    [(.type, "type"), (.access, "accessModifier")],
   [(.string, "fullTypeName"), (.type, "assemblyOf")],
   [(.string, "fullTypeName"), (.string, "assemblyName")]]

def constructorLine (parameters : List (Parameter × String)) : String :=
  "        public GenerateNameofAttribute(" ++
    ", ".intercalate (parameters.map fun (parameter, name) => parameter.shown ++ " " ++ name) ++
    ") \x7b \x7d"

/-- The body of the attribute in the shared file declares these constructors and nothing else. -/
theorem constructors_declared :
    (coreLines.drop 27).takeWhile (· ≠ "    \x7d") = constructors.map constructorLine := by
  decide +kernel

/-! Operands. -/

inductive Operand where
  | access (access : Access)
  | type (ref : TypeRef)
  | string (text : String)

namespace Operand

def parameter : Operand → Parameter
  | .access _ => .access
  | .type _ => .type
  | .string _ => .string

inductive IsMeaning : Operand → Meaning → Prop where
  | access {parts : List String} {access : Access} (h : accessOf parts = .ok access) :
      IsMeaning (.access access) (.constant parts)
  | type {ref : TypeRef} : IsMeaning (.type ref) (.typeOf ref)
  | string {text : String} : IsMeaning (.string text) (.string text)

def IsWritten (operand : Operand) (text : String) : Prop :=
  ∃ value meaning, (Phrase.value value).IsWritten text ∧ value.meaning = .ok meaning ∧
    operand.IsMeaning meaning

theorem written_access {name : DottedName} {access : Access} {text : String}
    (h : (Phrase.dotted name).IsWritten text) (known : accessOf name.parts = .ok access) :
    (Operand.access access).IsWritten text := by
  obtain ⟨rest, derived, blank⟩ := h
  exact ⟨.constant name, _, ⟨rest, .constant derived, blank⟩, rfl, .access known⟩

theorem written_type {ref : TypeRef} {text : String} (h : (Phrase.ref ref).IsWritten text) :
    (Operand.type ref).IsWritten ("typeof(" ++ text ++ ")") :=
  ⟨.typeOf ref, _, written_typeOf h, rfl, .type⟩

theorem written_string (kind : CSharp.Literal.Kind) (text : String) :
    (Operand.string text).IsWritten (kind.write text) := by
  obtain ⟨value, written, meant⟩ := written_literal kind text
  exact ⟨value, _, written, meant, .string⟩

theorem written_member {owner member : String} (front : Terminal.ident.Spells owner.toList)
    (back : Terminal.ident.Spells member.toList) :
    (Phrase.dotted ⟨none, [nameOf owner, nameOf member]⟩).IsWritten (owner ++ "." ++ member) := by
  have dot := ends_before (c := '.') (by decide) (member.toList ++ [])
  have last : Derives (.parts [named member.toList]) (member.toList ++ []) [] :=
    .lastPart (takes_name back nofun)
  have derived := Derives.dotted .noAlias
    (.part (takes_name front dot) (takes_literal "." _) last)
  rw [named_toList, named_toList] at derived
  refine ⟨[], ?_, nofun⟩
  rw [Text.toList_between, ← List.append_nil member.toList]
  exact derived

def constant : Access → String
  | .pub => "NameofAccessModifier" ++ "." ++ "Public"
  | .internal => "NameofAccessModifier" ++ "." ++ "Internal"

theorem written_constant (access : Access) :
    (Operand.access access).IsWritten (constant access) := by
  have owner : Terminal.ident.Spells "NameofAccessModifier".toList :=
    spells_name (c := 'N') (by decide) (by decide)
  cases access with
  | pub =>
    have member : Terminal.ident.Spells "Public".toList :=
      spells_name (c := 'P') (by decide) (by decide)
    exact written_access (written_member owner member) (by decide)
  | internal =>
    have member : Terminal.ident.Spells "Internal".toList :=
      spells_name (c := 'I') (by decide) (by decide)
    exact written_access (written_member owner member) (by decide)

end Operand

/-! Collecting. -/

def Arguments.add (args : Arguments) : Operand → Arguments
  | .access access => { args with access := some access }
  | .type ref => { args with positional := args.positional ++ [.typeOf ref] }
  | .string text => { args with positional := args.positional ++ [.string text] }

theorem insert_of_isMeaning {operand : Operand} {meaning : Meaning} (h : operand.IsMeaning meaning)
    (args : Arguments) : args.insert none meaning = .ok (args.add operand) := by
  cases h with
  | access known =>
    rw [Arguments.insert, known]
    rfl
  | type => rfl
  | string => rfl

/-- Texts for operands are texts for arguments that are collected to what the operands come to. -/
theorem exists_arguments (h : List.Forall₂ Operand.IsWritten operands texts) :
    ∃ arguments values, AreWritten arguments texts ∧ meanings arguments = .ok values ∧
      ∀ args : Arguments, args.collect values = .ok (operands.foldl Arguments.add args) := by
  induction h with
  | nil => exact ⟨[], [], .nil, rfl, fun _ => rfl⟩
  | cons first _ ih =>
    obtain ⟨value, meaning, written, meant, known⟩ := first
    obtain ⟨arguments, values, others, meantLater, collected⟩ := ih
    refine ⟨⟨none, value⟩ :: arguments, (none, meaning) :: values,
      .cons (written_positional written) others, ?_, ?_⟩
    · rw [meanings, meant, meantLater]
      rfl
    · intro args
      rw [Arguments.collect, insert_of_isMeaning known]
      exact collected (args.add _)

theorem read_operands (named : name ∈ markerNames)
    (written : List.Forall₂ Operand.IsWritten operands texts) (declared? : Option TypeRef) :
    read (applied name texts) declared? =
      ((operands.foldl Arguments.add {}).marker declared?).map some := by
  obtain ⟨arguments, values, areWritten, meant, collected⟩ := exists_arguments written
  rw [read_applied named areWritten]
  simp only [Attribute.marker, meant, collected]

/-! Requests. -/

/-- What an application of a constructor asks for. Other operands are not an application. -/
def requested? (declared? : Option TypeRef) : List Operand → Option Marker
  | [] => some ⟨declared?.map fun ref => Request.direct ref none, none⟩
  | [.access access] =>
    some ⟨declared?.map fun ref => Request.direct ref (some access), some access⟩
  | [.type ref] => some ⟨some (Request.direct ref none), none⟩
  | [.type ref, .access access] => some ⟨some (Request.direct ref (some access)), some access⟩
  | [.string fullName, .type anchor] =>
    some ⟨some ⟨.textual fullName, Home.anchored anchor none, none⟩, none⟩
  | [.string fullName, .string module] =>
    some ⟨some ⟨.textual fullName, Home.named module, none⟩, none⟩
  | _ => none

/-- An application of a constructor asks for something, and nothing else does. -/
theorem requested_isSome_iff : (requested? declared? operands).isSome = true ↔
    operands.map Operand.parameter ∈ constructors.map (List.map Prod.fst) := by
  match operands with
  | [] => simp [requested?, constructors]
  | [a] => cases a <;> simp [requested?, constructors, Operand.parameter]
  | [a, b] => cases a <;> cases b <;> simp [requested?, constructors, Operand.parameter]
  | a :: b :: c :: more => cases a <;> cases b <;> simp [requested?, constructors]

theorem marker_of_requested {marker : Marker} (h : requested? declared? operands = some marker) :
    (operands.foldl Arguments.add {}).marker declared? =
      if operands.map Operand.parameter = [.string, .string] then .error .oneAnchor
      else .ok marker := by
  unfold requested? at h
  split at h
  all_goals cases h
  all_goals rfl

/-- An application of a declared constructor is read as what it asks for, whatever the values of its
operands and whichever texts they are given by, unless both of its operands are strings: a full name
with the name of a module has too many operands for the reader. -/
theorem read_application (named : name ∈ markerNames)
    (written : List.Forall₂ Operand.IsWritten operands texts)
    (fits : operands.map Operand.parameter ∈ constructors.map (List.map Prod.fst))
    (declared? : Option TypeRef) :
    ∃ marker, requested? declared? operands = some marker ∧
      (read (applied name texts) declared? =
        if operands.map Operand.parameter = [.string, .string] then .error .oneAnchor
        else .ok (some marker)) ∧
      (operands = [] → read name declared? = .ok (some marker)) := by
  obtain ⟨marker, asked⟩ := Option.isSome_iff_exists.mp (requested_isSome_iff.mpr fits)
  refine ⟨marker, asked, ?_, ?_⟩
  · rw [read_operands named written, marker_of_requested asked]
    split
    · rfl
    · rfl
  · rintro rfl
    obtain rfl := Option.some.inj asked
    exact read_bare named declared?

theorem read_application_of_type_and_access :
    [Operand.type nested, .access .internal].map Operand.parameter ∈
        constructors.map (List.map Prod.fst) ∧
      read (applied "GenerateNameof"
          ["typeof(" ++ nested.text ++ ")", Operand.constant .internal]) none =
        .ok (some ⟨some (Request.direct nested (some .internal)), some .internal⟩) := by
  have fits : [Operand.type nested, .access .internal].map Operand.parameter ∈
      constructors.map (List.map Prod.fst) := by decide
  have operand := Operand.written_type ⟨[], derives_text nested nested_writable, nofun⟩
  obtain ⟨marker, asked, given, _⟩ := read_application List.mem_cons_self
    (.cons operand (.cons (Operand.written_constant .internal) .nil)) fits none
  obtain rfl := Option.some.inj asked
  exact ⟨fits, given⟩

/-- A full name and the name of a module are an application of a constructor, and are not read. -/
theorem strings_are_not_read :
    ∃ marker, requested? none [.string "N.T", .string "Lib"] = some marker ∧
      read "GenerateNameof(\"N.T\", \"Lib\")" none ≠ .ok (some marker) := by
  have text : "GenerateNameof(\"N.T\", \"Lib\")" = applied "GenerateNameof"
      [CSharp.Literal.Kind.regular.write "N.T", CSharp.Literal.Kind.regular.write "Lib"] := by
    decide
  have refused : read "GenerateNameof(\"N.T\", \"Lib\")" none = .error .oneAnchor := by
    rw [text, read_operands List.mem_cons_self (.cons (Operand.written_string .regular "N.T")
      (.cons (Operand.written_string .regular "Lib") .nil)) none]
    rfl
  refine ⟨_, rfl, ?_⟩
  rw [refused]
  nofun

end HiddenNames.Marker
