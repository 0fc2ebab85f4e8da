import HiddenNames.Proofs.Marker.Application

/-!
A reference that is printed into a marker is read back. Its names must be names to a token, without
the verbatim mark, and every argument list must be left open as a whole or given as a whole; then
the text of the reference derives the reference, however deep its arguments go.
-/

namespace HiddenNames

structure IsName (name : String) : Prop where
  word : IsWord name
  start : ∀ c ∈ name.toList.head?, Marker.Token.isNameStart c = true

theorem isName_iff {name : String} :
    IsName name ↔ IsWord name ∧ name.toList.head?.all Marker.Token.isNameStart = true := by
  rw [Option.all_eq_true]
  exact ⟨fun ⟨word, start⟩ => ⟨word, start⟩, fun ⟨word, start⟩ => ⟨word, start⟩⟩

instance (name : String) : Decidable (IsName name) := decidable_of_iff _ isName_iff.symm

mutual

/-- There is a segment, all names are names, and no argument list is open in part. -/
def TypeRef.IsWritable : TypeRef → Prop
  | .mk alias? segments =>
    (∀ name, alias? = some name → IsName name) ∧ segments ≠ [] ∧ TypeSegment.AreWritable segments

def TypeSegment.AreWritable : List TypeSegment → Prop
  | [] => True
  | segment :: rest => TypeSegment.IsWritable segment ∧ TypeSegment.AreWritable rest

def TypeSegment.IsWritable : TypeSegment → Prop
  | .mk name arguments =>
    IsName name ∧ ((∀ argument ∈ arguments, argument = none) ∨ TypeRef.AreGiven arguments)

def TypeRef.AreGiven : List (Option TypeRef) → Prop
  | [] => True
  | argument :: rest => TypeRef.IsGiven argument ∧ TypeRef.AreGiven rest

def TypeRef.IsGiven : Option TypeRef → Prop
  | none => False
  | some ref => TypeRef.IsWritable ref

end

namespace Marker

variable {r b : List Char} {name : String}

theorem spells_of_name (h : IsName name) :
    Terminal.ident.Spells name.toList ∧ nameOf name = name := by
  obtain ⟨c, more, shape⟩ := List.exists_cons_of_ne_nil h.word.filled
  have start : Token.isNameStart c = true := h.start c (by rw [shape]; rfl)
  have parts : ∀ d ∈ more, Token.isNamePart d = true := fun d held =>
    h.word.spelled d (shape ▸ List.mem_cons_of_mem c held)
  refine ⟨⟨[], c, more, Or.inl rfl, shape, start, parts⟩, ?_⟩
  have unmarked : ¬decide (c = '@') = true := by
    rw [decide_eq_true_eq]
    rintro rfl
    exact absurd start (by decide)
  rw [nameOf, shape, List.dropWhile_cons_of_neg (p := (decide <| · = '@')) unmarked, ← shape,
    String.ofList_toList]

/-! Open arguments. -/

theorem argumentTexts_replicate (count : Nat) :
    TypeRef.argumentTexts (List.replicate count none) = List.replicate count "" := by
  induction count with
  | zero => rfl
  | succ count ih =>
    rw [List.replicate_succ, List.replicate_succ, TypeRef.argumentTexts, TypeRef.argumentText, ih]

/-- Between open arguments there are commas and b, one comma fewer than arguments. -/
theorem derives_commas (blank : ∀ c ∈ b, Token.isSpace c = true) (count : Nat)
    (rest : List Char) : ∃ after, (∀ c ∈ after, Token.isSpace c = true) ∧
      Derives (.commas count)
        (b ++ ((", ".intercalate (List.replicate (count + 1) "")).toList ++ rest))
        (after ++ rest) := by
  induction count generalizing b with
  | zero => exact ⟨b, blank, .noComma⟩
  | succ count ih =>
    obtain ⟨after, spaces, more⟩ := ih (b := [' ']) (List.all_eq_true.mp rfl)
    refine ⟨after, spaces, ?_⟩
    rw [List.replicate_succ, List.replicate_succ, String.intercalate_cons_cons, String.empty_append,
      ← List.replicate_succ, String.toList_append, List.append_assoc]
    exact .comma ((takes_literal "," _).behind blank) more

/-! Names and segments. -/

theorem takes_printed (h : IsName name) (ends : ∀ d ∈ r.head?, Token.isNamePart d = false) :
    Takes .ident name.toList (name.toList ++ r) r :=
  takes_name (spells_of_name h).1 ends

def bracketed : List (Option TypeRef) → String
  | [] => ""
  | argument :: rest => "<" ++ ", ".intercalate (TypeRef.argumentTexts (argument :: rest)) ++ ">"

theorem segmentText_eq (name : String) (arguments : List (Option TypeRef)) :
    TypeRef.segmentText (.mk name arguments) = name ++ bracketed arguments := by
  cases arguments with
  | nil => rw [TypeRef.segmentText, bracketed, String.append_empty]
  | cons argument rest =>
    rw [TypeRef.segmentText, bracketed, String.append_assoc, String.append_assoc,
      String.append_assoc]

theorem bracketed_ends (arguments : List (Option TypeRef))
    (ends : ∀ d ∈ r.head?, Token.isNamePart d = false) :
    ∀ d ∈ ((bracketed arguments).toList ++ r).head?, Token.isNamePart d = false := by
  cases arguments with
  | nil => exact ends
  | cons argument more =>
    rw [bracketed, Text.toList_between, List.append_assoc]
    exact ends_before (by decide) _

theorem derives_open {arguments : List (Option TypeRef)}
    (left : ∀ argument ∈ arguments, argument = none) :
    Derives (.typeArguments arguments) (bracketed arguments).toList [] := by
  cases shape : arguments.length with
  | zero =>
    obtain rfl := List.length_eq_zero_iff.mp shape
    exact .noTypeArguments
  | succ count =>
    obtain rfl := List.eq_replicate_iff.mpr ⟨shape, left⟩
    obtain ⟨after, spaces, commas⟩ := derives_commas (b := []) nofun count ">".toList
    have closing := (takes_literal ">" []).behind spaces
    rw [List.replicate_succ, bracketed, ← List.replicate_succ, argumentTexts_replicate,
      Text.toList_between]
    exact .unbound (takes_literal "<" _) commas closing

theorem derives_printed_segments {arguments : List (Option TypeRef)} {more : List TypeSegment}
    (known : IsName name)
    (inside : Derives (.typeArguments arguments) (bracketed arguments).toList [])
    (later : more ≠ [] →
      Derives (.segments more) (".".intercalate (TypeRef.segmentTexts more)).toList []) :
    Derives (.segments (.mk name arguments :: more))
      (".".intercalate (TypeRef.segmentTexts (.mk name arguments :: more))).toList [] := by
  have own : named name.toList = name := (named_toList name).trans (spells_of_name known).2
  cases more with
  | nil =>
    have taken := takes_printed known (bracketed_ends (r := []) arguments nofun)
    have derived := Derives.lastSegment taken (inside.append rfl nofun)
    rw [own, List.append_nil] at derived
    rw [TypeRef.segmentTexts, TypeRef.segmentTexts, String.intercalate_singleton, segmentText_eq,
      String.toList_append]
    exact derived
  | cons next more =>
    have later := later (List.cons_ne_nil _ _)
    have shape :
        (".".intercalate (TypeRef.segmentTexts (.mk name arguments :: next :: more))).toList =
        name.toList ++ ((bracketed arguments).toList ++ (".".toList ++
          (".".intercalate (TypeRef.segmentTexts (next :: more))).toList)) := by
      rw [TypeRef.segmentTexts, TypeRef.segmentTexts, String.intercalate_cons_cons, segmentText_eq,
        ← TypeRef.segmentTexts]
      simp only [String.toList_append, List.append_assoc]
    rw [shape]
    generalize (".".intercalate (TypeRef.segmentTexts (next :: more))).toList = after at later ⊢
    have dot := ends_before (c := '.') (by decide) after
    have taken := takes_printed known (bracketed_ends arguments dot)
    have derived := Derives.segment taken (inside.append rfl dot) (takes_literal "." after) later
    rwa [own] at derived

theorem derives_given {arguments : List (Option TypeRef)}
    (h : arguments ≠ [] → ∃ refs : List TypeRef, arguments = refs.map some ∧
      Derives (.refs refs) (", ".intercalate (TypeRef.argumentTexts arguments)).toList []) :
    Derives (.typeArguments arguments) (bracketed arguments).toList [] := by
  cases arguments with
  | nil => exact .noTypeArguments
  | cons argument more =>
    obtain ⟨refs, same, inside⟩ := h (List.cons_ne_nil argument more)
    have closed := inside.append (r := ">".toList) rfl (ends_before (by decide) [])
    have derived := Derives.bound (takes_literal "<" _) closed (takes_literal ">" [])
    rw [bracketed, Text.toList_between]
    rwa [← same] at derived

mutual

/-- The text of a reference derives the reference. -/
theorem derives_text (ref : TypeRef) (h : ref.IsWritable) :
    Derives (.ref ref) ref.text.toList [] := by
  cases ref with
  | mk alias? segments =>
    obtain ⟨aliased, filled, writable⟩ := h
    have names := derives_segmentTexts segments writable filled
    rw [TypeRef.text, String.toList_append]
    cases alias? with
    | none => exact .ref .noAlias names
    | some name =>
      have known := aliased name rfl
      have written : name ≠ "" := fun empty => known.word.filled (by rw [empty]; rfl)
      obtain ⟨spelled, own⟩ := spells_of_name known
      have front := derives_alias spelled (".".intercalate (TypeRef.segmentTexts segments)).toList
      rw [own] at front
      rw [TypeRef.aliasText, if_neg written, String.toList_append, List.append_assoc]
      exact .ref front names

theorem derives_segmentTexts (segments : List TypeSegment) (h : TypeSegment.AreWritable segments)
    (filled : segments ≠ []) :
    Derives (.segments segments) (".".intercalate (TypeRef.segmentTexts segments)).toList [] := by
  cases segments with
  | nil => exact absurd rfl filled
  | cons segment more =>
    obtain ⟨own, others⟩ := h
    cases segment with
    | mk name arguments =>
      obtain ⟨known, whole⟩ := own
      refine derives_printed_segments known ?_ (derives_segmentTexts more others)
      rcases whole with left | given
      · exact derives_open left
      · exact derives_given (derives_argumentTexts arguments given)

theorem derives_argumentTexts (arguments : List (Option TypeRef)) (h : TypeRef.AreGiven arguments)
    (filled : arguments ≠ []) : ∃ refs : List TypeRef, arguments = refs.map some ∧
      Derives (.refs refs) (", ".intercalate (TypeRef.argumentTexts arguments)).toList [] := by
  cases arguments with
  | nil => exact absurd rfl filled
  | cons argument more =>
    obtain ⟨own, others⟩ := h
    cases argument with
    | none => exact own.elim
    | some ref =>
      have derived := derives_text ref own
      cases more with
      | nil =>
        refine ⟨[ref], rfl, ?_⟩
        rw [TypeRef.argumentTexts, TypeRef.argumentTexts, String.intercalate_singleton]
        exact .lastRef derived
      | cons next more =>
        obtain ⟨refs, same, later⟩ :=
          derives_argumentTexts (next :: more) others (List.cons_ne_nil next more)
        have first := derived.append (r := ", ".toList ++
          (", ".intercalate (TypeRef.argumentTexts (next :: more))).toList) rfl
          (ends_before (by decide) _)
        have behind := derives_refs_behind (b := [' ']) later (List.all_eq_true.mp rfl)
        refine ⟨ref :: refs, congrArg (some ref :: ·) same, ?_⟩
        rw [TypeRef.argumentTexts, TypeRef.argumentTexts, String.intercalate_cons_cons,
          ← TypeRef.argumentTexts, TypeRef.argumentText, String.toList_append, String.toList_append,
          List.append_assoc]
        exact .moreRefs first (takes_literal "," _) behind

end

/-- A marker reads back the reference that its argument was printed from, whether it gives it as the
operand of `typeof` or as its type argument. -/
theorem read_printed {ref : TypeRef} (h : ref.IsWritable) (declared? : Option TypeRef) :
    read ("GenerateNameof(typeof(" ++ ref.text ++ "))") declared? =
        .ok (some ⟨some (Request.direct ref none), none⟩) ∧
      read ("GenerateNameof<" ++ ref.text ++ ">") declared? =
        .ok (some ⟨some (Request.direct ref none), none⟩) := by
  have written : (Phrase.ref ref).IsWritten ref.text := ⟨[], derives_text ref h, nofun⟩
  have name : "GenerateNameof" ∈ markerNames := List.mem_cons_self
  exact ⟨read_typeOf written declared?, read_parameterized name written declared?⟩

/-- Aliases stand at every depth, `typeof` is a name, and lists of arguments are open and given. -/
def nested : TypeRef :=
  .mk (some "global") [.mk "N" [], .mk "typeof" [some (.mk none [.mk "A" [none, none]]),
    some (.mk (some "x") [.mk "B" [some (.mk none [.mk "C" []])]])], .mk "D" [none]]

theorem nested_writable : nested.IsWritable := by
  have known : ∀ {name given : String}, IsName given → some given = some name → IsName name := by
    rintro name given own same
    exact Option.some.inj same ▸ own
  have unbound : TypeRef.IsWritable (.mk none [.mk "A" [none, none]]) :=
    ⟨nofun, List.cons_ne_nil _ _, ⟨by decide, .inl (by simp)⟩, trivial⟩
  have inner : TypeRef.IsWritable (.mk none [.mk "C" []]) :=
    ⟨nofun, List.cons_ne_nil _ _, ⟨by decide, .inl nofun⟩, trivial⟩
  have bound : TypeRef.IsWritable (.mk (some "x") [.mk "B" [some (.mk none [.mk "C" []])]]) :=
    ⟨fun _ => known (by decide), List.cons_ne_nil _ _, ⟨by decide, .inr ⟨inner, trivial⟩⟩, trivial⟩
  exact ⟨fun _ => known (by decide), List.cons_ne_nil _ _, ⟨by decide, .inl nofun⟩,
    ⟨by decide, .inr ⟨unbound, bound, trivial⟩⟩, ⟨by decide, .inl (by simp)⟩, trivial⟩

theorem read_printed_nested :
    nested.IsWritable ∧ nested.text = "global::N.typeof<A<, >, x::B<C>>.D<>" ∧
      read ("GenerateNameof(typeof(" ++ nested.text ++ "))") none =
        .ok (some ⟨some (Request.direct nested none), none⟩) ∧
      read ("GenerateNameof<" ++ nested.text ++ ">") none =
        .ok (some ⟨some (Request.direct nested none), none⟩) :=
  ⟨nested_writable, by decide, read_printed nested_writable none⟩

end Marker

end HiddenNames
