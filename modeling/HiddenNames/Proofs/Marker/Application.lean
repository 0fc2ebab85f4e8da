import HiddenNames.Marker.Request
import HiddenNames.Proofs.Marker.Context
import Mathlib.Data.List.Forall2

/-!
Markers that are put together from texts for their arguments. A text that is written for a value may
stand wherever an argument may, with b around it or not, and the marker is read with that value.
-/

namespace HiddenNames.Marker

/-- The text, but for b at its end, derives the phrase. -/
def Phrase.IsWritten (phrase : Phrase) (text : String) : Prop :=
  ∃ r, Derives phrase text.toList r ∧ ∀ c ∈ r, Token.isSpace c = true

def applied (name : String) (arguments : List String) : String :=
  name ++ "(" ++ ", ".intercalate arguments ++ ")"

def parameterized (name argument : String) : String := name ++ "<" ++ argument ++ ">"

variable {s t r b : List Char} {name text : String} {texts : List String} {value : Value}
  {argument : Argument} {arguments : List Argument} {ref : TypeRef}

/-! Arguments. -/

theorem written_typeOf (h : (Phrase.ref ref).IsWritten text) :
    (Phrase.value (.typeOf ref)).IsWritten ("typeof(" ++ text ++ ")") := by
  obtain ⟨r, derived, blank⟩ := h
  have inside := derived.append (r := ")".toList) rfl (ends_before (by decide) [])
  have closing : Takes (.literal ")") ")".toList (r ++ ")".toList) [] :=
    (takes_literal ")" []).behind blank
  refine ⟨[], ?_, nofun⟩
  rw [Text.toList_between]
  exact .typeOf (takes_literal "typeof" _) (takes_literal "(" _) inside closing

theorem written_positional (h : (Phrase.value value).IsWritten text) :
    (Phrase.argument ⟨none, value⟩).IsWritten text := by
  obtain ⟨r, derived, blank⟩ := h
  exact ⟨r, derived.positional, blank⟩

theorem written_named (spelled : Terminal.ident.Spells name.toList)
    (h : (Phrase.value value).IsWritten text) :
    (Phrase.argument ⟨some (nameOf name), value⟩).IsWritten (name ++ ": " ++ text) := by
  obtain ⟨r, derived, blank⟩ := h
  have later := derives_value_behind (b := [' ']) derived (List.all_eq_true.mp rfl)
  have derived := Derives.named
    (takes_name spelled (ends_before (c := ':') (by decide) (' ' :: text.toList)))
    (takes_literal ":" _) later
  rw [named_toList] at derived
  refine ⟨r, ?_, blank⟩
  rw [Text.toList_between]
  exact derived

theorem derives_argument_behind (h : Derives (.argument argument) s t)
    (blank : ∀ c ∈ b, Token.isSpace c = true) :
    Derives (.argument argument) (b ++ s) t := by
  cases h with
  | positional value => exact .positional (derives_value_behind value blank)
  | named name colon value => exact .named (name.behind blank) colon value

theorem derives_argument_append (h : Derives (.argument argument) s t)
    (blank : ∀ c ∈ t, Token.isSpace c = true) (ends : EndsArgument r) :
    Derives (.argument argument) (s ++ r) (t ++ r) := by
  cases h with
  | positional value => exact .positional (derives_value_append value blank ends)
  | named name colon value =>
    exact .named (takes_ident_append name ends.noName) (takes_literal_append colon r)
      (derives_value_append value blank ends)

def AreWritten (arguments : List Argument) (texts : List String) : Prop :=
  List.Forall₂ (fun argument text => (Phrase.argument argument).IsWritten text) arguments texts

theorem derives_arguments (h : AreWritten (argument :: arguments) (text :: texts))
    (blank : ∀ c ∈ b, Token.isSpace c = true) (r : List Char) :
    ∃ mid, Derives (.arguments (argument :: arguments))
        (b ++ ((", ".intercalate (text :: texts)).toList ++ (")".toList ++ r))) mid ∧
      Takes (.literal ")") ")".toList mid r := by
  induction texts generalizing argument arguments text b with
  | nil =>
    obtain ⟨⟨after, derived, spaces⟩, last⟩ := List.forall₂_cons.mp h
    obtain rfl := List.forall₂_nil_right_iff.mp last
    have own := derives_argument_append (r := ")".toList ++ r) derived spaces (Or.inr rfl)
    rw [String.intercalate_singleton]
    exact ⟨_, .lastArgument (derives_argument_behind own blank),
      (takes_literal ")" r).behind spaces⟩
  | cons second texts ih =>
    obtain ⟨⟨after, derived, spaces⟩, others⟩ := List.forall₂_cons.mp h
    obtain ⟨next, arguments, rfl⟩ : ∃ next more, arguments = next :: more := by
      cases others
      exact ⟨_, _, rfl⟩
    obtain ⟨mid, later, closing⟩ := ih (b := [' ']) others (List.all_eq_true.mp rfl)
    refine ⟨mid, ?_, closing⟩
    rw [String.intercalate_cons_cons, String.toList_append, String.toList_append, List.append_assoc,
      List.append_assoc]
    -- The blanks that a text ends with are taken by the comma behind it.
    have own := derives_argument_append derived spaces (r := ", ".toList ++
      ((", ".intercalate (second :: texts)).toList ++ (")".toList ++ r))) (Or.inl rfl)
    have comma := (takes_literal "," ([' '] ++ ((", ".intercalate (second :: texts)).toList ++
      (")".toList ++ r)))).behind spaces
    exact .moreArguments (derives_argument_behind own blank) comma later

/-! Attributes. -/

theorem isWritten_bare (spelled : Terminal.ident.Spells name.toList) :
    Attribute.IsWritten ⟨⟨none, [nameOf name]⟩, [], []⟩ name := by
  have front : Derives (.dotted ⟨none, [nameOf name]⟩) (name.toList ++ []) [] :=
    derives_name spelled nofun
  rw [List.append_nil] at front
  exact ⟨[], .whole front .noTypeArguments .noList, nofun⟩

/-- Texts for arguments, joined by commas between parentheses, derive the list. -/
theorem derives_argumentList (h : AreWritten arguments texts) :
    Derives (.argumentList arguments)
      ("(".toList ++ ((", ".intercalate texts).toList ++ (")".toList ++ []))) [] := by
  cases h with
  | nil => exact .emptyList (takes_literal "(" _) (takes_literal ")" [])
  | cons first others =>
    obtain ⟨mid, inside, closing⟩ := derives_arguments (b := []) (.cons first others) nofun []
    exact .list (takes_literal "(" _) inside closing

theorem isWritten_applied (spelled : Terminal.ident.Spells name.toList)
    (h : AreWritten arguments texts) :
    Attribute.IsWritten ⟨⟨none, [nameOf name]⟩, [], arguments⟩ (applied name texts) := by
  have text : (applied name texts).toList =
      name.toList ++ ("(".toList ++ ((", ".intercalate texts).toList ++ (")".toList ++ []))) := by
    simp only [applied, String.toList_append, List.append_assoc, List.append_nil]
  have front := derives_name spelled (ends_before (c := '(') (by decide)
    ((", ".intercalate texts).toList ++ (")".toList ++ [])))
  refine ⟨[], ?_, nofun⟩
  rw [text]
  exact .whole front .noTypeArguments (derives_argumentList h)

theorem isWritten_parameterized (spelled : Terminal.ident.Spells name.toList)
    (h : (Phrase.ref ref).IsWritten text) :
    Attribute.IsWritten ⟨⟨none, [nameOf name]⟩, [some ref], []⟩ (parameterized name text) := by
  obtain ⟨r, derived, blank⟩ := h
  have inside := derived.append (r := ">".toList) rfl (ends_before (by decide) [])
  have closing : Takes (.literal ">") ">".toList (r ++ ">".toList) [] :=
    (takes_literal ">" []).behind blank
  have listed := Derives.bound (takes_literal "<" _) (.lastRef inside) closing
  have front :=
    derives_name spelled (ends_before (c := '<') (by decide) (text.toList ++ ">".toList))
  refine ⟨[], ?_, nofun⟩
  rw [parameterized, Text.toList_between, String.toList_append, List.append_assoc]
  exact .whole front listed .noList

/-! Reading. -/

theorem markerName_cases (h : name ∈ markerNames) :
    name = "GenerateNameof" ∨ name = "GenerateNameofAttribute" := by
  rcases List.mem_cons.mp h with short | other
  · exact Or.inl short
  · exact Or.inr (List.mem_singleton.mp other)

theorem spells_markerName (h : name ∈ markerNames) :
    Terminal.ident.Spells name.toList ∧ nameOf name = name := by
  rcases markerName_cases h with rfl | rfl
  · exact ⟨spells_name (c := 'G') (by decide) (by decide), by decide⟩
  · exact ⟨spells_name (c := 'G') (by decide) (by decide), by decide⟩

theorem isMarkerName_append (h : name ∈ markerNames)
    (opens : text.toList.head? = some '(' ∨ text.toList.head? = some '<') :
    isMarkerName (name ++ text) = true := by
  have leading : leadingName (name ++ text).toList = name.toList := by
    rw [String.toList_append]
    rcases opens with sign | sign
    all_goals
      obtain ⟨more, same⟩ := List.head?_eq_some_iff.mp sign
      rw [same]
      rcases markerName_cases h with rfl | rfl
      · rfl
      · rfl
  delta isMarkerName
  rw [leading]
  rcases markerName_cases h with rfl | rfl
  · decide
  · decide

theorem read_of_written {attr : Attribute} (front : isMarkerName text = true)
    (h : attr.IsWritten text) (declared? : Option TypeRef) :
    read text declared? = (attr.marker declared?).map some := by
  rw [read, front, parse_of_written h]
  rfl

theorem read_applied (h : name ∈ markerNames) (written : AreWritten arguments texts)
    (declared? : Option TypeRef) : read (applied name texts) declared? =
      (Attribute.marker ⟨⟨none, [name]⟩, [], arguments⟩ declared?).map some := by
  obtain ⟨spelled, own⟩ := spells_markerName h
  have front : isMarkerName (applied name texts) = true := by
    rw [applied, String.append_assoc, String.append_assoc]
    exact isMarkerName_append h (Or.inl (by rw [String.toList_append]; rfl))
  rw [read_of_written front (isWritten_applied spelled written), own]

theorem read_typeOf (written : (Phrase.ref ref).IsWritten text) (declared? : Option TypeRef) :
    read ("GenerateNameof(typeof(" ++ text ++ "))") declared? =
      .ok (some ⟨some (Request.direct ref), none⟩) := by
  have operand : AreWritten [⟨none, .typeOf ref⟩] ["typeof(" ++ text ++ ")"] :=
    .cons (written_positional (written_typeOf written)) .nil
  have shape : "GenerateNameof(typeof(" ++ text ++ "))" =
      applied "GenerateNameof" ["typeof(" ++ text ++ ")"] := by
    rw [applied, String.intercalate_singleton, ← String.toList_inj]
    simp [String.toList_append]
  rw [shape, read_applied List.mem_cons_self operand declared?]
  rfl

theorem read_parameterized (h : name ∈ markerNames) (written : (Phrase.ref ref).IsWritten text)
    (declared? : Option TypeRef) : read (parameterized name text) declared? =
      .ok (some ⟨some (Request.direct ref), none⟩) := by
  obtain ⟨spelled, _⟩ := spells_markerName h
  have front : isMarkerName (parameterized name text) = true := by
    rw [parameterized, String.append_assoc, String.append_assoc]
    exact isMarkerName_append h (Or.inr (by rw [String.toList_append]; rfl))
  rw [read_of_written front (isWritten_parameterized spelled written)]
  rfl

theorem read_bare (h : name ∈ markerNames) (declared? : Option TypeRef) :
    read name declared? = .ok (some ⟨declared?.map fun ref => Request.direct ref none, none⟩) := by
  obtain ⟨spelled, _⟩ := spells_markerName h
  have front : isMarkerName name = true := by
    rcases markerName_cases h with rfl | rfl
    · decide
    · decide
  rw [read_of_written front (isWritten_bare spelled)]
  rfl

end HiddenNames.Marker
