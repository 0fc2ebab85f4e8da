import HiddenNames.Proofs.Marker.Application

/-!
String literals in markers. Whatever a text is, a regular literal and a verbatim literal of it end
where they should, and what is read back from either is the text.
-/

namespace HiddenNames

namespace CSharp.Literal

/-! Escapes. -/

theorem control_digits : ∀ n < 0x20,
    (Text.hex 4 n).toList.length = 4 ∧
      (Text.hex 4 n).toList.all (fun d => (hexDigit? d).isSome) = true ∧
      hexValue (Text.hex 4 n).toList = n := by
  decide

/-- How a character is written: by a letter that stands for it, by its code point, or as it is. -/
theorem escape_cases (c : Char) :
    (∃ letter, escape c = ['\\', letter] ∧ letter ≠ '\n' ∧ simpleEscape letter = some c ∧
      ∀ rest, codeDigits letter rest = none) ∨
    (∃ digits, escape c = '\\' :: 'u' :: digits ∧ digits.length = 4 ∧
      (∀ d ∈ digits, (hexDigit? d).isSome = true) ∧ hexValue digits = c.toNat) ∨
    (escape c = [c] ∧ c ≠ '\\' ∧ c ≠ '"') := by
  by_cases slash : c = '\\'
  · exact Or.inl ⟨'\\', by rw [slash]; rfl, by decide, by rw [slash]; rfl, fun _ => rfl⟩
  by_cases quote : c = '"'
  · exact Or.inl ⟨'"', by rw [quote]; rfl, by decide, by rw [quote]; rfl, fun _ => rfl⟩
  by_cases feed : c = '\n'
  · exact Or.inl ⟨'n', by rw [feed]; rfl, by decide, by rw [feed]; rfl, fun _ => rfl⟩
  by_cases back : c = '\r'
  · exact Or.inl ⟨'r', by rw [back]; rfl, by decide, by rw [back]; rfl, fun _ => rfl⟩
  by_cases tab : c = '\t'
  · exact Or.inl ⟨'t', by rw [tab]; rfl, by decide, by rw [tab]; rfl, fun _ => rfl⟩
  have written : escape c =
      if c.toNat < 0x20 then '\\' :: 'u' :: (Text.hex 4 c.toNat).toList else [c] := by
    rw [escape, if_neg slash, if_neg quote, if_neg feed, if_neg back, if_neg tab]
  by_cases control : c.toNat < 0x20
  · obtain ⟨four, digits, value⟩ := control_digits c.toNat control
    rw [if_pos control] at written
    exact Or.inr (Or.inl ⟨_, written, four, List.all_eq_true.mp digits, value⟩)
  · rw [if_neg control] at written
    exact Or.inr (Or.inr ⟨written, slash, quote⟩)

theorem codeDigits_append {digits : List Char} (four : digits.length = 4)
    (known : ∀ d ∈ digits, (hexDigit? d).isSome = true) (rest : List Char) :
    codeDigits 'u' (digits ++ rest) = some digits := by
  have run : hexRun 4 (digits ++ rest) = digits := by
    rw [hexRun, List.take_left' four, List.takeWhile_eq_self_iff]
    exact known
  rw [codeDigits, if_pos rfl, run]
  exact if_pos four

theorem readRegular_escape_append (c : Char) (rest : List Char) :
    readRegular (escape c ++ rest) = (readRegular rest).map (c :: ·) := by
  rcases escape_cases c with ⟨letter, written, _, simple, noCode⟩ |
    ⟨digits, written, four, known, value⟩ | ⟨written, slash, _⟩
  · rw [written, List.cons_append, List.singleton_append, readRegular, noCode, simple]
  · have bound : c.toNat ≤ 0x10FFFF := by
      rcases c.valid with low | high
      · exact Nat.le_of_lt (Nat.lt_trans low (by decide))
      · exact Nat.le_of_lt_succ high.2
    rw [written, List.cons_append, List.cons_append, readRegular, codeDigits_append four known]
    simp only [value, if_pos bound, List.drop_left', Char.ofNat_toNat]
  · rw [written, List.singleton_append, readRegular]
    exact fun letter _ same => absurd same slash

theorem readRegular_escape (cs : List Char) : readRegular (cs.flatMap escape) = .ok cs := by
  induction cs with
  | nil => rw [List.flatMap_nil, readRegular]
  | cons c rest ih =>
    rw [List.flatMap_cons, readRegular_escape_append, ih]
    rfl

theorem escaped_append {plain cs : List Char} (h : Marker.Escaped cs)
    (ordinary : ∀ c ∈ plain, c ≠ '"' ∧ c ≠ '\\') : Marker.Escaped (plain ++ cs) := by
  induction plain with
  | nil => exact h
  | cons c rest ih =>
    obtain ⟨own, others⟩ := List.forall_mem_cons.mp ordinary
    exact .plain own.1 own.2 (ih others)

theorem escaped_escape (cs : List Char) : Marker.Escaped (cs.flatMap escape) := by
  induction cs with
  | nil => exact .nil
  | cons c rest ih =>
    rw [List.flatMap_cons]
    rcases escape_cases c with ⟨letter, written, inLine, _, _⟩ | ⟨digits, written, _, known, _⟩ |
      ⟨written, slash, quote⟩
    · rw [written]
      exact .pair inLine ih
    · rw [written]
      refine .pair (by decide) (escaped_append ih fun d held => ?_)
      have digit := known d held
      constructor
      · rintro rfl
        exact absurd digit (by decide)
      · rintro rfl
        exact absurd digit (by decide)
    · rw [written]
      exact .plain quote slash ih

/-! Doubled quotes. -/

def double (c : Char) : List Char := if c = '"' then ['"', '"'] else [c]

theorem toList_verbatim (s : String) :
    (verbatim s).toList = '@' :: '"' :: s.toList.flatMap double ++ ['"'] := String.toList_ofList

theorem toList_regular (s : String) :
    (regular s).toList = '"' :: s.toList.flatMap escape ++ ['"'] := String.toList_ofList

theorem readVerbatim_double (cs : List Char) : readVerbatim (cs.flatMap double) = cs := by
  induction cs with
  | nil => rfl
  | cons c rest ih =>
    rw [List.flatMap_cons]
    by_cases quote : c = '"'
    · rw [quote, double, if_pos rfl, List.cons_append, List.singleton_append, readVerbatim, ih]
    · rw [double, if_neg quote, List.singleton_append, readVerbatim, ih]
      exact fun _ same => absurd same quote

theorem doubled_double (cs : List Char) : Marker.Doubled (cs.flatMap double) := by
  induction cs with
  | nil => exact .nil
  | cons c rest ih =>
    rw [List.flatMap_cons]
    by_cases quote : c = '"'
    · rw [quote]
      exact .pair ih
    · rw [double, if_neg quote]
      exact .plain quote ih

inductive Kind where
  | regular
  | verbatim
  deriving DecidableEq, Repr

def Kind.write : Kind → String → String
  | .regular => CSharp.Literal.regular
  | .verbatim => CSharp.Literal.verbatim

end CSharp.Literal

namespace Marker

open CSharp

theorem written_literal (kind : Literal.Kind) (s : String) :
    ∃ value : Value, (Phrase.value value).IsWritten (kind.write s) ∧
      value.meaning = .ok (.string s) := by
  cases kind with
  | regular =>
    refine ⟨.regular (s.toList.flatMap Literal.escape), ⟨[], ?_, List.forall_mem_nil _⟩, ?_⟩
    · rw [Literal.Kind.write, Literal.toList_regular]
      exact .regular ⟨[], _, List.forall_mem_nil _, rfl,
        longest_regular (Literal.escaped_escape s.toList)⟩
    · rw [Value.meaning, Literal.readRegular_escape]
      exact congrArg (fun text => Except.ok (Meaning.string text)) String.ofList_toList
  | verbatim =>
    refine ⟨.verbatim (s.toList.flatMap Literal.double), ⟨[], ?_, List.forall_mem_nil _⟩, ?_⟩
    · have alone : ([] : List Char).head? ≠ some '"' := by decide
      rw [Literal.Kind.write, Literal.toList_verbatim]
      exact .verbatim ⟨[], _, List.forall_mem_nil _, rfl,
        longest_verbatim (Literal.doubled_double s.toList) alone⟩
    · rw [Value.meaning, Literal.readVerbatim_double, String.ofList_toList]

/-- A marker that gives a full name and the name of a module, each by a literal of either kind, asks
for the type of that full name in that module. -/
theorem read_literals (fullName module : String) (kind kind' : Literal.Kind)
    (declared? : Option TypeRef) :
    read ("GenerateNameof(" ++ kind.write fullName ++ ", assemblyName: " ++
      kind'.write module ++ ")")
        declared? =
      .ok (some ⟨some ⟨.textual fullName, Home.named module, none⟩, none⟩) := by
  obtain ⟨name, nameWritten, nameMeant⟩ := written_literal kind fullName
  obtain ⟨place, placeWritten, placeMeant⟩ := written_literal kind' module
  have label : Terminal.ident.Spells "assemblyName".toList :=
    spells_name (c := 'a') (by decide) (by decide)
  have written : AreWritten [⟨none, name⟩, ⟨some (nameOf "assemblyName"), place⟩]
      [kind.write fullName, "assemblyName" ++ ": " ++ kind'.write module] :=
    .cons (written_positional nameWritten) (.cons (written_named label placeWritten) .nil)
  have text :
      "GenerateNameof(" ++ kind.write fullName ++ ", assemblyName: " ++ kind'.write module ++
      ")" = applied "GenerateNameof" [kind.write fullName,
        "assemblyName" ++ ": " ++ kind'.write module] := by
    rw [applied, String.intercalate_cons_cons, String.intercalate_singleton]
    generalize kind.write fullName = a, kind'.write module = b
    rw [← String.toList_inj]
    simp [String.toList_append]
  rw [text, read_applied List.mem_cons_self written declared?, Attribute.marker]
  simp only [meanings, nameMeant, placeMeant]
  rfl

end Marker

end HiddenNames
