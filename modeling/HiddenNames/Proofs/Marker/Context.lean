import HiddenNames.Proofs.Marker.Parsing
import HiddenNames.Proofs.Text.Pieces

/-!
What a phrase takes does not depend on what stands around it. Blanks may stand in front, and any
text behind that goes on with none of its names; only the end of a verbatim string must not meet
another quote. So a text that derives a phrase of its own does so as a piece of a longer text.
-/

namespace HiddenNames.Marker

variable {terminal : Terminal} {phrase : Phrase} {w s t r b : List Char} {text : String}

/-! Terminals at the front of a text. -/

theorem named_toList (text : String) : named text.toList = nameOf text := named_word text

theorem takes_name (spelled : Terminal.ident.Spells text.toList)
    (ends : ∀ d ∈ r.head?, Token.isNamePart d = false) :
    Takes .ident text.toList (text.toList ++ r) r :=
  ⟨[], _, nofun, rfl, longest_ident_iff.mpr ⟨rfl, spelled, ends⟩⟩

theorem ends_before {c : Char} (other : Token.isNamePart c = false) (r : List Char) :
    ∀ d ∈ (c :: r).head?, Token.isNamePart d = false := by
  rintro d first
  cases first
  exact other

theorem takes_literal (text : String) (r : List Char) :
    Takes (.literal text) text.toList (text.toList ++ r) r :=
  ⟨[], _, nofun, rfl, longest_literal rfl r⟩

theorem derives_alias (spelled : Terminal.ident.Spells text.toList) (r : List Char) :
    Derives (.alias? (some (nameOf text))) (text.toList ++ ("::".toList ++ r)) r := by
  have taken := takes_name spelled (ends_before (c := ':') (by decide) (':' :: r))
  have derived := Derives.inFront taken (takes_literal "::" r)
  rwa [named_toList] at derived

theorem derives_name (spelled : Terminal.ident.Spells text.toList)
    (ends : ∀ d ∈ r.head?, Token.isNamePart d = false) :
    Derives (.dotted ⟨none, [nameOf text]⟩) (text.toList ++ r) r := by
  have derived := Derives.dotted .noAlias (.lastPart (takes_name spelled ends))
  rwa [named_toList] at derived

/-! Terminals in their places. -/

theorem Takes.behind (h : Takes terminal w s t) (blank : ∀ c ∈ b, Token.isSpace c = true) :
    Takes terminal w (b ++ s) t := by
  obtain ⟨more, body, spaces, rfl, longest⟩ := h
  refine ⟨b ++ more, body, ?_, (List.append_assoc _ _ _).symm, longest⟩
  exact List.forall_mem_append.mpr ⟨blank, spaces⟩

theorem Takes.append_of (h : Takes terminal w s t)
    (longest : Longest terminal.Spells (w ++ t) w t →
      Longest terminal.Spells (w ++ (t ++ r)) w (t ++ r)) :
    Takes terminal w (s ++ r) (t ++ r) := by
  obtain ⟨b, body, blank, rfl, own⟩ := h
  obtain rfl := own.front
  refine ⟨b, w ++ (t ++ r), blank, ?_, longest own⟩
  rw [List.append_assoc, List.append_assoc]

theorem takes_ident_append (h : Takes .ident w s t)
    (ends : ∀ d ∈ r.head?, Token.isNamePart d = false) :
    Takes .ident w (s ++ r) (t ++ r) := by
  refine h.append_of fun own => ?_
  obtain ⟨_, spelled, after⟩ := longest_ident_iff.mp own
  refine longest_ident_iff.mpr ⟨rfl, spelled, ?_⟩
  cases t with
  | nil => exact ends
  | cons c more => exact after

theorem takes_literal_append (h : Takes (.literal text) w s t) (r : List Char) :
    Takes (.literal text) w (s ++ r) (t ++ r) :=
  h.append_of fun own => longest_literal own.spelled _

theorem takes_regular_append (h : Takes .regular w s t) (r : List Char) :
    Takes .regular w (s ++ r) (t ++ r) := by
  refine h.append_of fun own => ?_
  obtain ⟨raw, escaped, rfl⟩ := own.spelled
  have longest : Longest Terminal.regular.Spells _ _ (t ++ r) := longest_regular escaped
  rwa [longest.front] at longest

theorem takes_verbatim_append (h : Takes .verbatim w s t) (alone : (t ++ r).head? ≠ some '"') :
    Takes .verbatim w (s ++ r) (t ++ r) := by
  refine h.append_of fun own => ?_
  obtain ⟨raw, doubled, rfl⟩ := own.spelled
  have longest : Longest Terminal.verbatim.Spells _ _ (t ++ r) := longest_verbatim doubled alone
  rwa [longest.front] at longest

/-! Phrases. -/

def Phrase.IsNominal : Phrase → Bool
  | .alias? _ | .parts _ | .dotted _ | .ref _ | .segments _ | .refs _ | .commas _
  | .typeArguments _ => true
  | .value _ | .argument _ | .arguments _ | .argumentList _ | .whole _ => false

/-- What a phrase without strings takes it takes in front of any text that ends names. -/
theorem Derives.append (h : Derives phrase s t) (nominal : phrase.IsNominal = true)
    (ends : ∀ d ∈ r.head?, Token.isNamePart d = false) :
    Derives phrase (s ++ r) (t ++ r) := by
  induction h with
  | noAlias => exact .noAlias
  | inFront name sign =>
    exact .inFront (takes_ident_append name ends) (takes_literal_append sign r)
  | lastPart name => exact .lastPart (takes_ident_append name ends)
  | part name dot _ ih =>
    exact .part (takes_ident_append name ends) (takes_literal_append dot r) (ih rfl)
  | dotted _ _ front names => exact .dotted (front rfl) (names rfl)
  | ref _ _ front names => exact .ref (front rfl) (names rfl)
  | lastSegment name _ ih => exact .lastSegment (takes_ident_append name ends) (ih rfl)
  | segment name _ dot _ arguments more =>
    exact .segment (takes_ident_append name ends) (arguments rfl) (takes_literal_append dot r)
      (more rfl)
  | lastRef _ ih => exact .lastRef (ih rfl)
  | moreRefs _ comma _ first more =>
    exact .moreRefs (first rfl) (takes_literal_append comma r) (more rfl)
  | noComma => exact .noComma
  | comma sign _ ih => exact .comma (takes_literal_append sign r) (ih rfl)
  | noTypeArguments => exact .noTypeArguments
  | bound opening _ closing ih =>
    exact .bound (takes_literal_append opening r) (ih rfl) (takes_literal_append closing r)
  | unbound opening _ closing ih =>
    exact .unbound (takes_literal_append opening r) (ih rfl) (takes_literal_append closing r)
  | typeOf | regular | verbatim | constant | positional | named | lastArgument | moreArguments
  | noList | emptyList | list | whole => cases nominal

theorem derives_dotted_behind {name : DottedName} (h : Derives (.dotted name) s t)
    (blank : ∀ c ∈ b, Token.isSpace c = true) : Derives (.dotted name) (b ++ s) t := by
  cases h with
  | dotted front names =>
    cases front with
    | inFront name sign => exact .dotted (.inFront (name.behind blank) sign) names
    | noAlias =>
      cases names with
      | lastPart name => exact .dotted .noAlias (.lastPart (name.behind blank))
      | part name dot more => exact .dotted .noAlias (.part (name.behind blank) dot more)

theorem derives_ref_behind {ref : TypeRef} (h : Derives (.ref ref) s t)
    (blank : ∀ c ∈ b, Token.isSpace c = true) : Derives (.ref ref) (b ++ s) t := by
  cases h with
  | ref front names =>
    cases front with
    | inFront name sign => exact .ref (.inFront (name.behind blank) sign) names
    | noAlias =>
      cases names with
      | lastSegment name arguments =>
        exact .ref .noAlias (.lastSegment (name.behind blank) arguments)
      | segment name arguments dot more =>
        exact .ref .noAlias (.segment (name.behind blank) arguments dot more)

theorem derives_refs_behind {refs : List TypeRef} (h : Derives (.refs refs) s t)
    (blank : ∀ c ∈ b, Token.isSpace c = true) : Derives (.refs refs) (b ++ s) t := by
  cases h with
  | lastRef ref => exact .lastRef (derives_ref_behind ref blank)
  | moreRefs ref comma more => exact .moreRefs (derives_ref_behind ref blank) comma more

theorem derives_value_behind {value : Value} (h : Derives (.value value) s t)
    (blank : ∀ c ∈ b, Token.isSpace c = true) : Derives (.value value) (b ++ s) t := by
  cases h with
  | typeOf keyword opening ref closing => exact .typeOf (keyword.behind blank) opening ref closing
  | regular taken => exact .regular (taken.behind blank)
  | verbatim taken => exact .verbatim (taken.behind blank)
  | constant name => exact .constant (derives_dotted_behind name blank)

def EndsArgument (r : List Char) : Prop := r.head? = some ',' ∨ r.head? = some ')'

theorem EndsArgument.noName (h : EndsArgument r) :
    ∀ d ∈ r.head?, Token.isNamePart d = false := by
  rintro d first
  rcases h with comma | closing
  · obtain rfl := Option.some.inj (comma.symm.trans first)
    decide
  · obtain rfl := Option.some.inj (closing.symm.trans first)
    decide

theorem EndsArgument.noQuote (h : EndsArgument r) (blank : ∀ c ∈ t, Token.isSpace c = true) :
    (t ++ r).head? ≠ some '"' := by
  cases t with
  | nil =>
    rcases h with comma | closing
    · rw [List.nil_append, comma]
      decide
    · rw [List.nil_append, closing]
      decide
  | cons c more =>
    rintro same
    obtain rfl := Option.some.inj same
    exact absurd (blank '"' List.mem_cons_self) (by decide)

theorem derives_value_append {value : Value} (h : Derives (.value value) s t)
    (blank : ∀ c ∈ t, Token.isSpace c = true) (ends : EndsArgument r) :
    Derives (.value value) (s ++ r) (t ++ r) := by
  cases h with
  | typeOf keyword opening ref closing =>
    exact .typeOf (takes_literal_append keyword r) (takes_literal_append opening r)
      (ref.append rfl ends.noName) (takes_literal_append closing r)
  | regular taken => exact .regular (takes_regular_append taken r)
  | verbatim taken => exact .verbatim (takes_verbatim_append taken (ends.noQuote blank))
  | constant name => exact .constant (name.append rfl ends.noName)

end HiddenNames.Marker
