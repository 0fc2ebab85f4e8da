import HiddenNames.Identifier
import HiddenNames.Marker.Token
import HiddenNames.Proofs.Text.Pieces
import HiddenNames.Types.Reference

/-!
How references of plain names are spelled: out of the characters of names and a few signs, beginning
with a character of a name. Supported full names are spelled out of identifiers and dots.
-/

namespace HiddenNames

structure IsWord (name : String) : Prop where
  filled : name.toList ≠ []
  spelled : ∀ c ∈ name.toList, Marker.Token.isNamePart c = true

theorem isWord_iff {name : String} :
    IsWord name ↔ name.toList ≠ [] ∧ name.toList.all Marker.Token.isNamePart = true := by
  rw [List.all_eq_true]
  exact ⟨fun ⟨filled, spelled⟩ => ⟨filled, spelled⟩, fun ⟨filled, spelled⟩ => ⟨filled, spelled⟩⟩

instance (name : String) : Decidable (IsWord name) := decidable_of_iff _ isWord_iff.symm

mutual

def TypeRef.IsPlain : TypeRef → Prop
  | .mk alias? segments =>
    (∀ name, alias? = some name → IsWord name) ∧ segments ≠ [] ∧ TypeSegment.ArePlain segments

def TypeSegment.ArePlain : List TypeSegment → Prop
  | [] => True
  | segment :: rest => TypeSegment.IsPlain segment ∧ TypeSegment.ArePlain rest

def TypeSegment.IsPlain : TypeSegment → Prop
  | .mk name arguments => IsWord name ∧ TypeRef.ArgumentsPlain arguments

def TypeRef.ArgumentsPlain : List (Option TypeRef) → Prop
  | [] => True
  | argument :: rest => TypeRef.ArgumentPlain argument ∧ TypeRef.ArgumentsPlain rest

def TypeRef.ArgumentPlain : Option TypeRef → Prop
  | none => True
  | some ref => TypeRef.IsPlain ref

end

def BeginsAsWord (text : String) : Prop :=
  ∃ c rest, text.toList = c :: rest ∧ Marker.Token.isNamePart c = true

theorem IsWord.begins {name : String} (h : IsWord name) : BeginsAsWord name := by
  obtain ⟨c, rest, shape⟩ := List.exists_cons_of_ne_nil h.filled
  exact ⟨c, rest, shape, h.spelled c (shape ▸ List.mem_cons_self)⟩

theorem BeginsAsWord.append {text : String} (h : BeginsAsWord text) (more : String) :
    BeginsAsWord (text ++ more) := by
  obtain ⟨c, rest, shape, part⟩ := h
  exact ⟨c, rest ++ more.toList, by rw [String.toList_append, shape, List.cons_append], part⟩

def spellingSigns : List Char := [':', '.', '<', '>', ',', ' ']

def IsSpelling (c : Char) : Prop := Marker.Token.isNamePart c = true ∨ c ∈ spellingSigns

theorem IsWord.spelling {name : String} (h : IsWord name) {c : Char} (held : c ∈ name.toList) :
    IsSpelling c := Or.inl (h.spelled c held)

namespace TypeRef

theorem aliasText_spelling {alias? : Option String}
    (h : ∀ name, alias? = some name → IsWord name) {c : Char}
    (held : c ∈ (aliasText alias?).toList) : IsSpelling c := by
  cases alias? with
  | none => simp [aliasText] at held
  | some name =>
    have filled : name ≠ "" := fun empty => (h name rfl).filled (by rw [empty]; rfl)
    rw [aliasText, if_neg filled, String.toList_append, List.mem_append] at held
    rcases held with inside | colon
    · exact (h name rfl).spelling inside
    · have same : c = ':' := by simpa using colon
      exact Or.inr (by rw [same]; decide)

mutual

theorem text_spelling (ref : TypeRef) (h : ref.IsPlain) :
    ∀ c ∈ ref.text.toList, IsSpelling c := by
  intro c held
  cases ref with
  | mk alias? segments =>
    obtain ⟨aliased, _, plain⟩ := h
    rw [text, String.toList_append, List.mem_append] at held
    rcases held with front | names
    · exact aliasText_spelling aliased front
    · rcases Text.mem_intercalate names with dot | ⟨piece, among, inside⟩
      · have same : c = '.' := by simpa using dot
        exact Or.inr (by rw [same]; decide)
      · exact segmentTexts_spelling segments plain piece among c inside

theorem segmentTexts_spelling (segments : List TypeSegment) (h : TypeSegment.ArePlain segments) :
    ∀ piece ∈ segmentTexts segments, ∀ c ∈ piece.toList, IsSpelling c := by
  intro piece among c held
  cases segments with
  | nil => cases among
  | cons segment rest =>
    obtain ⟨first, others⟩ := h
    rcases List.mem_cons.mp among with rfl | later
    · exact segmentText_spelling segment first c held
    · exact segmentTexts_spelling rest others piece later c held

theorem segmentText_spelling (segment : TypeSegment) (h : segment.IsPlain) :
    ∀ c ∈ (segmentText segment).toList, IsSpelling c := by
  intro c held
  match segment, h with
  | .mk name [], ⟨word, _⟩ => exact word.spelling held
  | .mk name (argument :: rest), ⟨word, plain⟩ =>
    simp only [segmentText, String.toList_append, List.mem_append] at held
    rcases held with ((named | opening) | inside) | closing
    · exact word.spelling named
    · have same : c = '<' := by simpa using opening
      exact Or.inr (by rw [same]; decide)
    · rcases Text.mem_intercalate inside with between | ⟨piece, among, inside⟩
      · have same : c = ',' ∨ c = ' ' := by simpa using between
        rcases same with rfl | rfl
        · exact Or.inr (by decide)
        · exact Or.inr (by decide)
      · exact argumentTexts_spelling (argument :: rest) plain piece among c inside
    · have same : c = '>' := by simpa using closing
      exact Or.inr (by rw [same]; decide)

theorem argumentTexts_spelling (arguments : List (Option TypeRef))
    (h : TypeRef.ArgumentsPlain arguments) :
    ∀ piece ∈ argumentTexts arguments, ∀ c ∈ piece.toList, IsSpelling c := by
  intro piece among c held
  cases arguments with
  | nil => cases among
  | cons argument rest =>
    obtain ⟨first, others⟩ := h
    rcases List.mem_cons.mp among with rfl | later
    · exact argumentText_spelling argument first c held
    · exact argumentTexts_spelling rest others piece later c held

theorem argumentText_spelling (argument : Option TypeRef) (h : TypeRef.ArgumentPlain argument) :
    ∀ c ∈ (argumentText argument).toList, IsSpelling c := by
  intro c held
  cases argument with
  | none => simp [argumentText] at held
  | some ref => exact text_spelling ref h c held

end

theorem segmentText_begins {segment : TypeSegment} (h : segment.IsPlain) :
    BeginsAsWord (segmentText segment) := by
  match segment, h with
  | .mk name [], ⟨word, _⟩ => exact word.begins
  | .mk name (argument :: rest), ⟨word, _⟩ =>
    rw [segmentText, String.append_assoc, String.append_assoc]
    exact word.begins.append _

theorem text_begins {ref : TypeRef} (h : ref.IsPlain) : BeginsAsWord ref.text := by
  obtain ⟨alias?, segments⟩ := ref
  obtain ⟨aliased, filled, plain⟩ := h
  cases alias? with
  | some name =>
    have word := aliased name rfl
    have written : name ≠ "" := fun empty => word.filled (by rw [empty]; rfl)
    rw [text, aliasText, if_neg written, String.append_assoc]
    exact word.begins.append _
  | none =>
    rw [text, aliasText, String.empty_append]
    cases segments with
    | nil => exact (filled rfl).elim
    | cons segment rest =>
      have first := segmentText_begins plain.1
      rw [segmentTexts]
      by_cases alone : segmentTexts rest = []
      · rw [alone, String.intercalate_singleton]
        exact first
      · rw [String.intercalate_cons_of_ne_nil alone, String.append_assoc]
        exact first.append _

end TypeRef

theorem TypeRef.IsPlain.not_mem {ref : TypeRef} (h : ref.IsPlain) {c : Char}
    (part : Marker.Token.isNamePart c = false) (sign : c ∉ spellingSigns) :
    c ∉ ref.text.toList := by
  intro held
  rcases TypeRef.text_spelling ref h c held with isPart | isSign
  · rw [part] at isPart
    cases isPart
  · exact sign isSign

theorem supported_not_mem {fullName : String} (h : isSupportedFullName fullName = true) {c : Char}
    (dot : c ≠ '.') (part : Identifier.isPart c = false) : c ∉ fullName.toList := by
  intro held
  simp only [isSupportedFullName, Bool.and_eq_true, List.all_eq_true] at h
  rcases Text.mem_splitAt '.' held with same | ⟨piece, among, inside⟩
  · exact dot same
  · have bare := h.2 (String.ofList piece) (List.mem_map_of_mem among)
    rw [Identifier.isBare, String.toList_ofList] at bare
    cases piece with
    | nil => cases inside
    | cons d rest =>
      simp only [Identifier.isBareChars, Bool.and_eq_true, List.all_eq_true] at bare
      have isPart : Identifier.isPart c = true := by
        rcases List.mem_cons.mp inside with rfl | later
        · simp only [Identifier.isPart, bare.1, Bool.true_or]
        · exact bare.2 c later
      rw [part] at isPart
      cases isPart

end HiddenNames
