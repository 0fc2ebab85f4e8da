import HiddenNames.Proofs.Identifier.Words
import HiddenNames.Proofs.Surface.WholeLines

/-!
Which names of a unit can be written as they stand. The names of types are made legal, whatever they
are, but those of namespaces are taken over, and the wrapper is called after a flattened name. Main
statement: over namespaces of identifiers the only names of a target that cannot be written are the
reserved words in its namespace, and the wrapper is an identifier unless a type of the chain has a
number in its name that no identifier may hold.
-/

namespace HiddenNames

open Identifier (isBare isBareChars isLegal isPart reservedWords)
open Unicode (isOtherNumber)

namespace Identifier

/-- An identifier that can be written as it stands: not a reserved word, or behind the verbatim
mark. Words that are reserved in some places only can be written. -/
def isUsable (name : String) : Bool :=
  match name.toList with
  | '@' :: rest => isBareChars rest
  | cs => isBareChars cs && name ∉ reservedWords

theorem isUsable_of_isLegal {name : String} (h : isLegal name = true) : isUsable name = true := by
  unfold isLegal at h
  unfold isUsable
  split
  · rename_i rest shape
    rw [shape] at h
    exact h
  · rename_i unmarked
    split at h
    · rename_i rest shape
      exact (unmarked rest shape).elim
    · simp only [isKeyword, Bool.and_eq_true, Bool.not_eq_true', Bool.or_eq_false_iff] at h
      simp only [h.1, h.2.1, decide_not, Bool.not_false, Bool.and_true]

theorem isUsable_eq_false_iff {name : String} (bare : isBare name = true) :
    isUsable name = false ↔ name ∈ reservedWords := by
  unfold isUsable
  split
  · rename_i rest shape
    rw [isBare, shape, isBareChars_cons] at bare
    exact absurd bare.1 (by decide)
  · rw [isBare] at bare
    simp only [bare, Bool.true_and, decide_eq_false_iff_not, not_not]

theorem not_mem_of_isLegal {name : String} (h : isLegal name = true) {c : Char}
    (mark : c ≠ '@') (part : isPart c = false) : c ∉ name.toList := by
  intro held
  have bare := isBare_plain_of_isLegal h
  have isPart : Identifier.isPart c = true := by
    rcases toList_eq_plain name with unmarked | marked
    · exact isPart_of_isBareChars bare (unmarked ▸ held)
    · rw [marked] at held
      rcases List.mem_cons.mp held with same | inside
      · exact absurd same mark
      · exact isPart_of_isBareChars bare inside
  rw [part] at isPart
  cases isPart

end Identifier

/-- The names of a fully qualified spelling, lists of type parameters aside. -/
def namesIn (expression : String) : List String :=
  (Text.splitAt '.' (expression.toList.drop "global::".length)).map fun piece =>
    String.ofList (piece.takeWhile (· ≠ '<'))

def UnitView.spaceNames (u : UnitView) : List String :=
  ((namedSpace u.space?).map (Text.split '.')).getD []

theorem parameterList_eq (names : List String) :
    parameterList names = "" ∨ ∃ rest, (parameterList names).toList = '<' :: rest := by
  rw [parameterList]
  split
  · exact Or.inl rfl
  · exact Or.inr ⟨_, Text.toList_between "<" _ ">"⟩

theorem dot_not_mem_parameterList {names : List String}
    (legal : ∀ name ∈ names, isLegal name = true) : '.' ∉ (parameterList names).toList := by
  intro held
  rcases mem_parameterList held with sign | ⟨name, among, inside⟩
  · exact absurd sign (by decide)
  · exact Identifier.not_mem_of_isLegal (legal name among) (by decide) (by decide +kernel) inside

namespace TypeView

variable {v : TypeView}

/-- A part of the expression has neither dots nor brackets before its list of parameters. -/
theorem part_clean (bare : ∀ part ∈ v.spaceParts, isBare part = true) {part : ExpressionPart}
    (held : part ∈ v.expressionParts) :
    '.' ∉ part.full.toList ∧ String.ofList (part.full.toList.takeWhile (· ≠ '<')) = part.text := by
  have shape : ('.' ∉ part.text.toList ∧ '<' ∉ part.text.toList) ∧
      ∀ name ∈ part.parameters, isLegal name = true := by
    rcases List.mem_append.mp held with space | inside
    · obtain ⟨name, among, rfl⟩ := List.mem_map.mp space
      have parts := fun c (inside : c ∈ name.toList) =>
        Identifier.isPart_of_isBareChars (bare name among) inside
      refine ⟨⟨fun dot => ?_, fun bracket => ?_⟩, fun _ none => absurd none List.not_mem_nil⟩
      · exact absurd (parts '.' dot) (by decide +kernel)
      · exact absurd (parts '<' bracket) (by decide +kernel)
    · obtain ⟨⟨head, names⟩, among, rfl⟩ := List.mem_map.mp inside
      have legal := Identifier.isLegal_legalize head.name
      refine ⟨⟨?_, ?_⟩, names_isLegal among⟩
      · exact Identifier.not_mem_of_isLegal legal (by decide) (by decide +kernel)
      · exact Identifier.not_mem_of_isLegal legal (by decide) (by decide +kernel)
  obtain ⟨⟨dot, bracket⟩, legal⟩ := shape
  have front : part.text.toList.takeWhile (· ≠ '<') = part.text.toList :=
    List.takeWhile_eq_self_iff.mpr
      fun c inside => decide_eq_true fun same => bracket (same ▸ inside)
  constructor
  · rw [ExpressionPart.full, String.toList_append, List.mem_append, not_or]
    exact ⟨dot, dot_not_mem_parameterList legal⟩
  · rw [ExpressionPart.full, String.toList_append]
    rcases parameterList_eq part.parameters with none | ⟨rest, some⟩
    · rw [none, String.toList_empty, List.append_nil, front, String.ofList_toList]
    · have plain : ∀ c ∈ part.text.toList, decide (c ≠ '<') = true :=
        fun c inside => decide_eq_true fun same => bracket (same ▸ inside)
      rw [some, List.takeWhile_append_of_pos plain, List.takeWhile_cons_of_neg (by decide),
        List.append_nil, String.ofList_toList]

/-- The names in an expression are those of the namespace, as they are, and those of the chain, made
legal. -/
theorem namesIn_expression (bare : ∀ part ∈ v.spaceParts, isBare part = true) :
    namesIn v.expression = v.spaceParts ++ v.chain.map fun head =>
      Identifier.legalize head.name := by
  have cut : Text.split '.' (".".intercalate (v.expressionParts.map ExpressionPart.full)) =
      v.expressionParts.map ExpressionPart.full :=
    Text.split_intercalate '.' (fun none => expressionParts_ne_nil v (List.map_eq_nil_iff.mp none))
      (List.forall_mem_map.mpr fun part held => (part_clean bare held).1)
  have pieces :
      Text.splitAt '.' (".".intercalate (v.expressionParts.map ExpressionPart.full)).toList =
      v.expressionParts.map fun part => part.full.toList := by
    have plain : String.toList ∘ String.ofList = id := funext fun _ => String.toList_ofList
    have spelled := congrArg (List.map String.toList) cut
    rw [Text.split, List.map_map, List.map_map, plain, List.map_id] at spelled
    exact spelled
  have texts : v.expressionParts.map ExpressionPart.text =
      v.spaceParts ++ v.chain.map fun head => Identifier.legalize head.name := by
    rw [expressionParts, List.map_append, List.map_map, List.map_map, ← parameterized_fst,
      List.map_map]
    exact congrArg (· ++ _) (List.map_id v.spaceParts)
  rw [namesIn, expression_eq, String.toList_append, ← texts]
  have behind : ∀ rest, ("global::".toList ++ rest).drop "global::".toList.length = rest :=
    fun _ => List.drop_left
  rw [show "global::".length = "global::".toList.length from rfl, behind, pieces, List.map_map]
  exact List.map_congr_left fun part held => (part_clean bare held).2

/-- The names of an expression that cannot be written are the reserved words of the namespace. -/
theorem unusable_iff (bare : ∀ part ∈ v.spaceParts, isBare part = true) (name : String) :
    name ∈ namesIn v.expression ∧ Identifier.isUsable name = false ↔
      name ∈ v.spaceParts ∧ name ∈ reservedWords := by
  rw [namesIn_expression bare, List.mem_append]
  constructor
  · rintro ⟨space | inside, unusable⟩
    · exact ⟨space, (Identifier.isUsable_eq_false_iff (bare name space)).mp unusable⟩
    · obtain ⟨head, _, rfl⟩ := List.mem_map.mp inside
      rw [Identifier.isUsable_of_isLegal (Identifier.isLegal_legalize head.name)] at unusable
      cases unusable
  · rintro ⟨space, reserved⟩
    exact ⟨Or.inl space, (Identifier.isUsable_eq_false_iff (bare name space)).mpr reserved⟩

theorem metadataName_plain_iff (head : TypeHead) :
    (∀ c ∈ head.metadataName.toList, isOtherNumber c = false) ↔
      ∀ c ∈ head.name.toList, isOtherNumber c = false := by
  rw [TypeHead.metadataName, withArity]
  split
  · rfl
  · have digits : ∀ c ∈ (toString head.arity).toList, isOtherNumber c = false := by
      intro c held
      rw [Nat.toString_eq_ofList_toDigits, String.toList_ofList] at held
      have digit := Nat.isDigit_of_mem_toDigits (by decide) (by decide) held
      exact Identifier.not_isOtherNumber_of_isPart (Identifier.isPart_of_isDigit digit)
    rw [Text.toList_between, List.forall_mem_append, List.forall_mem_append, String.toList_ofList,
      List.forall_mem_singleton, iff_true_intro digits, and_true]
    exact and_iff_left (by decide)

/-- The class that a unit declares is called by an identifier unless a type of the chain has a
number in its name that no identifier may hold. -/
theorem isBare_wrapper_iff (bare : ∀ part ∈ v.spaceParts, isBare part = true) :
    isBare (wrapperName v.identity) = true ↔
      ∀ head ∈ v.chain, ∀ c ∈ head.name.toList, isOtherNumber c = false := by
  rw [wrapperName, identity, Identifier.isBare_before_flatten_iff (by decide +kernel)]
  constructor
  · intro plain head around
    rw [← metadataName_plain_iff]
    exact fun c held => plain c (Text.mem_intercalate_of_mem (List.mem_append_right _
      (List.mem_map_of_mem around)) held)
  · intro plain c held
    rcases Text.mem_intercalate held with between | ⟨piece, among, inside⟩
    · rw [List.mem_singleton.mp between]
      decide
    · rcases List.mem_append.mp among with space | name
      · exact Identifier.not_isOtherNumber_of_isPart
          (Identifier.isPart_of_isBareChars (bare piece space) inside)
      · obtain ⟨head, around, rfl⟩ := List.mem_map.mp name
        exact (metadataName_plain_iff head).mpr (plain head around) c inside

end TypeView

namespace Resolved

variable {r : Resolved}

/-- Where the namespace of a target consists of identifiers, whatever its types are called: the
wrapper is an identifier just when no type of the chain has a number in its name that no identifier
may hold, and the names of the target and of the namespace that cannot be written as they stand are
the reserved words among the parts of the namespace. -/
theorem legal_spelling_iff (bare : ∀ part ∈ r.view.spaceParts, isBare part = true) :
    (isBare (wrapperName r.view.identity) = true ↔
      ∀ head ∈ r.view.chain, ∀ c ∈ head.name.toList, isOtherNumber c = false) ∧
    (∀ name, name ∈ namesIn r.view.expression ∧ Identifier.isUsable name = false ↔
      name ∈ r.view.spaceParts ∧ name ∈ reservedWords) ∧
    ∀ access exposure u, r.unit access exposure none = some u →
      u.wrapper = wrapperName r.view.identity ∧ u.target = r.view.expression ∧
        u.spaceNames = r.view.spaceParts ∧
        ∀ name, name ∈ u.spaceNames ∧ Identifier.isUsable name = false ↔
          name ∈ r.view.spaceParts ∧ name ∈ reservedWords := by
  refine ⟨TypeView.isBare_wrapper_iff bare, TypeView.unusable_iff bare,
    fun access exposure u built => ?_⟩
  obtain ⟨space, _, target, _⟩ := unit_target built
  have parts : u.spaceNames = r.view.spaceParts := by
    rw [UnitView.spaceNames, space, TypeView.spaceParts]
    cases namedSpace r.view.space? <;> rfl
  refine ⟨(unit_shows built).wrapper_named, target, parts, fun name => ?_⟩
  rw [parts]
  exact and_congr_right fun held => Identifier.isUsable_eq_false_iff (bare name held)

/-- Words that are reserved in some places only, and numbers that are letters, can be written. -/
theorem roman_record_spelled :
    let r := oneMember (some "N.record") "Ⅷ" "x"
    (∀ part ∈ r.view.spaceParts, isBare part = true) ∧
      isBare (wrapperName r.view.identity) = true ∧
      ∀ name ∈ namesIn r.view.expression, Identifier.isUsable name = true := by
  intro r
  have bare : ∀ part ∈ r.view.spaceParts, isBare part = true := by decide +kernel
  have parts : r.view.spaceParts = ["N", "record"] := by decide +kernel
  have unreserved : ∀ part ∈ ["N", "record"], part ∉ reservedWords := by decide +kernel
  have plain :
      (r.view.chain.all fun head => head.name.toList.all fun c => !isOtherNumber c) = true := by
    decide +kernel
  simp only [List.all_eq_true, Bool.not_eq_true'] at plain
  obtain ⟨wrapper, names, _⟩ := legal_spelling_iff bare
  refine ⟨bare, wrapper.mpr plain, fun name among => ?_⟩
  rw [← Bool.not_eq_false]
  intro unusable
  obtain ⟨space, reserved⟩ := (names name).mp ⟨among, unusable⟩
  exact unreserved name (parts ▸ space) reserved

/-- A superscript in the name of a type is left in that of the wrapper, and a reserved word in a
namespace is left without its mark. -/
theorem superscript_and_reserved_space_misspelled :
    ((∀ part ∈ (oneMember (some "N") "T²" "x").view.spaceParts, isBare part = true) ∧
      isBare (wrapperName (oneMember (some "N") "T²" "x").view.identity) = false) ∧
    (∀ part ∈ (oneMember (some "event") "T" "x").view.spaceParts, isBare part = true) ∧
      "event" ∈ namesIn (oneMember (some "event") "T" "x").view.expression ∧
      Identifier.isUsable "event" = false := by
  decide +kernel

end Resolved

end HiddenNames
