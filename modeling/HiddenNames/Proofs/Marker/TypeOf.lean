import HiddenNames.Proofs.Marker.Application
import HiddenNames.Proofs.Surface.Expression

/-!
Markers that name a type by the expression for it. They are read when all texts in the expression
are names that tokens can hold, and what is read has the parts of the expression; no other character
of an identifier gets through the scanner.
-/

namespace HiddenNames

namespace Marker

open Identifier (isBare plain)

def ofExpression (expression : String) : String := "GenerateNameof(typeof(" ++ expression ++ "))"

theorem toList_ofExpression (expression : String) : (ofExpression expression).toList =
    "GenerateNameof(typeof(".toList ++ (expression.toList ++ "))".toList) :=
  Text.toList_between _ _ _

/-! Texts as names. -/

theorem nameOf_eq_plain {text : String} (bare : isBare (plain text) = true) :
    nameOf text = plain text := by
  have unmarked : (plain text).toList.dropWhile (· = '@') = (plain text).toList := by
    cases shape : (plain text).toList with
    | nil => rfl
    | cons c rest =>
      rw [isBare, shape, Identifier.isBareChars_cons] at bare
      refine List.dropWhile_cons_of_neg fun mark => ?_
      rw [of_decide_eq_true mark] at bare
      exact absurd bare.1 (by decide)
  rw [nameOf]
  rcases Identifier.toList_eq_plain text with same | marked
  · rw [same, unmarked, String.ofList_toList]
  · rw [marked, List.dropWhile_cons_of_pos (by decide), unmarked, String.ofList_toList]

theorem spells_of_plain {text : String} (bare : isBare (plain text) = true)
    (word : IsWord (plain text)) : Terminal.ident.Spells text.toList := by
  obtain ⟨c, rest, shape⟩ := List.exists_cons_of_ne_nil word.filled
  rw [isBare, shape, Identifier.isBareChars_cons] at bare
  have parts := word.spelled
  rw [shape, List.forall_mem_cons] at parts
  have start : Token.isNameStart c = true := by
    have noDigit := Identifier.not_isDigit_of_isStart bare.1
    have part := parts.1
    simp only [Token.isNamePart, Char.isAlphanum, noDigit, Bool.or_false] at part
    exact part
  rcases Identifier.toList_eq_plain text with same | marked
  · exact ⟨[], c, rest, Or.inl rfl, same.trans shape, start, parts.2⟩
  · exact ⟨['@'], c, rest, Or.inr rfl, by rw [marked, shape]; rfl, start, parts.2⟩

end Marker

namespace ExpressionPart

open Marker

variable {part : ExpressionPart} {rest : List Char}

def IsSpelled (part : ExpressionPart) : Prop :=
  ∀ text ∈ part.texts, Terminal.ident.Spells text.toList

def parameterRef (name : String) : TypeRef := .mk none [.mk (nameOf name) []]

def segment (part : ExpressionPart) : TypeSegment :=
  .mk (nameOf part.text) ((part.parameters.map parameterRef).map some)

theorem derives_parameter (blanks : List Char) {name : String}
    (blank : ∀ c ∈ blanks, Token.isSpace c = true) (spelled : Terminal.ident.Spells name.toList)
    (ends : ∀ d ∈ rest.head?, Token.isNamePart d = false) :
    Derives (.ref (parameterRef name)) (blanks ++ (name.toList ++ rest)) rest := by
  have taken := (takes_name spelled ends).behind blank
  have derived := Derives.ref .noAlias (.lastSegment taken .noTypeArguments)
  rwa [named_toList] at derived

theorem derives_parameters (blanks : List Char) {name : String} {more : List String}
    (blank : ∀ c ∈ blanks, Token.isSpace c = true)
    (spelled : ∀ other ∈ name :: more, Terminal.ident.Spells other.toList) (rest : List Char) :
    Derives (.refs ((name :: more).map parameterRef))
      (blanks ++ ((", ".intercalate (name :: more)).toList ++ '>' :: rest)) ('>' :: rest) := by
  induction more generalizing blanks name with
  | nil =>
    rw [String.intercalate_singleton]
    exact .lastRef (derives_parameter blanks blank (spelled name List.mem_cons_self)
      (ends_before (by decide) rest))
  | cons second more ih =>
    obtain ⟨own, others⟩ := List.forall_mem_cons.mp spelled
    rw [String.intercalate_cons_cons, String.toList_append, String.toList_append, List.append_assoc,
      List.append_assoc]
    exact .moreRefs (derives_parameter blanks blank own (ends_before (by decide) _))
      (takes_literal "," _) (ih [' '] (List.all_eq_true.mp rfl) others)

theorem derives_typeArguments (spelled : part.IsSpelled) (rest : List Char) :
    Derives (.typeArguments part.segment.arguments)
      ((parameterList part.parameters).toList ++ rest) rest := by
  obtain ⟨text, parameters⟩ := part
  cases parameters with
  | nil => exact .noTypeArguments
  | cons name more =>
    have inside := derives_parameters [] nofun
      (fun other held => spelled other (List.mem_cons_of_mem _ held)) rest
    have written : (parameterList (name :: more)).toList ++ rest =
        '<' :: ((", ".intercalate (name :: more)).toList ++ '>' :: rest) := by
      simp [parameterList]
    rw [written]
    exact .bound (takes_literal "<" _) inside (takes_literal ">" rest)

theorem ends_name (parameters : List String) (ends : ∀ d ∈ rest.head?, Token.isNamePart d = false) :
    ∀ d ∈ ((parameterList parameters).toList ++ rest).head?, Token.isNamePart d = false := by
  cases parameters with
  | nil => exact ends
  | cons name more =>
    rintro d first
    simp only [parameterList, List.isEmpty_cons, Bool.false_eq_true, if_false, String.toList_append,
      List.append_assoc] at first
    cases first
    decide

theorem derives_segments {part : ExpressionPart} {more : List ExpressionPart}
    (spelled : ∀ other ∈ part :: more, other.IsSpelled)
    (ends : ∀ d ∈ rest.head?, Token.isNamePart d = false) :
    Derives (.segments ((part :: more).map segment))
      ((".".intercalate ((part :: more).map full)).toList ++ rest) rest := by
  induction more generalizing part with
  | nil =>
    have own := spelled part List.mem_cons_self
    have taken := takes_name (own part.text List.mem_cons_self)
      (ends_name part.parameters ends)
    have derived := Derives.lastSegment taken (derives_typeArguments own rest)
    rw [named_toList] at derived
    rw [List.map_singleton, List.map_singleton, String.intercalate_singleton, full,
      String.toList_append, List.append_assoc]
    exact derived
  | cons second more ih =>
    obtain ⟨own, others⟩ := List.forall_mem_cons.mp spelled
    have later := ih others
    rw [List.map_cons, List.map_cons] at later
    rw [List.map_cons, List.map_cons, List.map_cons, List.map_cons,
      String.intercalate_cons_cons, full, String.toList_append, String.toList_append,
      String.toList_append, List.append_assoc, List.append_assoc, List.append_assoc]
    generalize (".".intercalate (full second :: more.map full)).toList ++ rest = after at later ⊢
    have taken := takes_name (own part.text List.mem_cons_self)
      (ends_name part.parameters (ends_before (c := '.') (by decide) after))
    have derived :=
      Derives.segment taken (derives_typeArguments own _) (takes_literal "." after) later
    rwa [named_toList] at derived

end ExpressionPart

namespace TypeView

open Marker

variable {v : TypeView}

def writtenRef (v : TypeView) : TypeRef :=
  .mk (some "global") (v.expressionParts.map ExpressionPart.segment)

theorem derives_expression (spelled : ∀ part ∈ v.expressionParts, part.IsSpelled) {rest : List Char}
    (ends : ∀ d ∈ rest.head?, Token.isNamePart d = false) :
    Derives (.ref v.writtenRef) (v.expression.toList ++ rest) rest := by
  have front : Terminal.ident.Spells "global".toList :=
    spells_name (c := 'g') (by decide) (by decide)
  obtain ⟨part, more, parts⟩ := List.exists_cons_of_ne_nil v.expressionParts_ne_nil
  have chained := ExpressionPart.derives_segments (parts ▸ spelled) ends
  rw [writtenRef, expression_eq, parts, String.toList_append, List.append_assoc]
  generalize (".".intercalate ((part :: more).map ExpressionPart.full)).toList ++ rest = names
    at chained ⊢
  have aliased := derives_alias front names
  rw [show nameOf "global" = "global" by decide] at aliased
  exact .ref aliased chained

end TypeView

namespace Marker

theorem isMarkerName_ofExpression (expression : String) :
    isMarkerName (ofExpression expression) = true := by
  have leading : leadingName (ofExpression expression).toList = "GenerateNameof".toList := by
    rw [toList_ofExpression]
    generalize expression.toList ++ "))".toList = rest
    rfl
  delta isMarkerName
  rw [leading]
  decide

/-- Outside of strings, tokens hold those characters of identifiers only that names are made of. -/
theorem isNamePart_of_scan {cs : List Char} {ts : List Token} (h : Token.scan cs = some ts)
    (quoteless : '"' ∉ cs) {c : Char} (held : c ∈ cs) (part : Identifier.isPart c = true) :
    Token.isNamePart c = true := by
  have solid : Token.isSpace c = false := Token.not_space_of (by decide) part
  induction ts generalizing cs with
  | nil => exact absurd (Token.scan_nil_iff.mp h c held) (by rw [solid]; decide)
  | cons token ts ih =>
    obtain ⟨after, ⟨blanks, body, blank, rfl, longest⟩, further⟩ := takes_of_scan h
    obtain rfl := longest.front
    rw [List.mem_append, List.mem_append, not_or, not_or] at quoteless
    rcases List.mem_append.mp held with between | inside
    · exact absurd (blank c between) (by rw [solid]; decide)
    · rcases List.mem_append.mp inside with own | behind
      · have signs : ∀ sign : Char, Identifier.isPart sign = false → c ≠ sign := by
          rintro sign other rfl
          rw [part] at other
          cases other
        cases token with
        | ident text =>
          obtain ⟨mark, d, name, marked, spelled, start, parts⟩ := longest.spelled
          rw [spelled] at own
          rcases List.mem_append.mp own with isMark | inName
          · rcases marked with rfl | rfl
            · cases isMark
            · exact absurd (List.mem_singleton.mp isMark) (signs '@' (by decide))
          · rcases List.mem_cons.mp inName with rfl | later
            · exact Token.start_is_part start
            · exact parts c later
        | regular raw => exact absurd List.mem_cons_self quoteless.2.1
        | verbatim raw => exact absurd (List.mem_cons_of_mem '@' List.mem_cons_self) quoteless.2.1
        | doubleColon =>
          simp only [Token.word, List.mem_cons, List.not_mem_nil, or_false, or_self] at own
          exact absurd own (signs ':' (by decide))
        | _ => exact absurd (List.mem_singleton.mp own) (signs _ (by decide))
      · exact ih further quoteless.2.2 behind

end Marker

namespace TypeView

open Identifier (plain)
open Marker

variable {v : TypeView}

theorem parts_spelled (h : v.HasIdentifiers) (words : ∀ name ∈ v.names, IsWord (plain name)) :
    ∀ part ∈ v.expressionParts, part.IsSpelled := by
  intro part held text own
  obtain ⟨name, among, written⟩ := texts_written h held own
  exact spells_of_plain (written.bare (h.bare among)) (written.isWord (words name among))

theorem quote_not_mem_ofExpression (h : v.HasIdentifiers) :
    '"' ∉ (ofExpression v.expression).toList := by
  rw [toList_ofExpression, List.mem_append, List.mem_append, not_or, not_or]
  refine ⟨by decide, fun held => ?_, by decide⟩
  rcases mem_expression held with sign | ⟨part, among, text, own, inside⟩
  · exact absurd sign (by decide)
  · obtain ⟨name, listed, written⟩ := texts_written h among own
    have bare := written.bare (h.bare listed)
    rcases Identifier.toList_eq_plain text with same | marked
    · rw [same] at inside
      exact absurd (Identifier.isPart_of_isBareChars bare inside) (by decide)
    · rw [marked, List.mem_cons] at inside
      rcases inside with mark | inName
      · cases mark
      · exact absurd (Identifier.isPart_of_isBareChars bare inName) (by decide)

theorem words_of_scan (h : v.HasIdentifiers) {ts : List Token}
    (scanned : Token.scan (ofExpression v.expression).toList = some ts) :
    ∀ name ∈ v.names, IsWord (plain name) := by
  intro name held
  have bare := h.bare held
  obtain ⟨part, among, text, own, written⟩ := names_written h held
  constructor
  · intro empty
    rw [Identifier.isBare, empty] at bare
    cases bare
  · intro c inside
    have shown : c ∈ (ofExpression v.expression).toList := by
      rw [toList_ofExpression]
      exact List.mem_append_right _
        (List.mem_append_left _ (mem_expression_of_mem among own (written.mem inside)))
    exact isNamePart_of_scan scanned (quote_not_mem_ofExpression h) shown
      (Identifier.isPart_of_isBareChars bare inside)

theorem read_ofExpression (spelled : ∀ part ∈ v.expressionParts, part.IsSpelled)
    (declared? : Option TypeRef) : Marker.read (ofExpression v.expression) declared? =
      .ok (some ⟨some (Request.direct v.writtenRef), none⟩) := by
  have whole : Derives (.ref v.writtenRef) (v.expression.toList ++ []) [] :=
    derives_expression spelled nofun
  rw [List.append_nil] at whole
  exact read_typeOf ⟨[], whole, nofun⟩ declared?

/-- A marker for an expression is read when all names, marks aside, are words. -/
theorem read_ofExpression_iff (h : v.HasIdentifiers) (declared? : Option TypeRef) :
    (∃ marker, Marker.read (ofExpression v.expression) declared? = .ok (some marker)) ↔
      ∀ name ∈ v.names, IsWord (plain name) := by
  constructor
  · rintro ⟨marker, read⟩
    rw [Marker.read, isMarkerName_ofExpression] at read
    cases parsed : Attribute.parse? (ofExpression v.expression) with
    | none => rw [parsed] at read; cases read
    | some attr =>
      obtain ⟨ts, scanned, _⟩ := Option.bind_eq_some_iff.mp parsed
      exact words_of_scan h scanned
  · exact fun words => ⟨_, read_ofExpression (parts_spelled h words) declared?⟩

/-- What is read names the type by its path, but for the marks of its namespace. -/
theorem writtenRef_path (h : v.HasIdentifiers) :
    v.writtenRef.path = v.spaceParts.map (fun name => (plain name, 0)) ++
      v.chain.map fun head => (head.name, head.arity) := by
  rw [← expressionParts_path h, TypeRef.path, writtenRef, TypeRef.segments, List.map_map]
  apply List.map_congr_left
  intro part held
  obtain ⟨name, among, written⟩ := texts_written h held List.mem_cons_self
  have named : nameOf part.text = plain part.text := nameOf_eq_plain (written.bare (h.bare among))
  refine Prod.ext named ?_
  simp only [Function.comp_apply, TypeSegment.arity, ExpressionPart.segment, TypeSegment.arguments,
    List.length_map]

end TypeView

end HiddenNames
