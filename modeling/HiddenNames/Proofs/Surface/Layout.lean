import HiddenNames.Proofs.Text.Lines
import HiddenNames.Surface.Layout
import Mathlib.Algebra.GroupWithZero.Nat
import Mathlib.Data.Bool.AllAny

/-!
The lines of a generated file. They are planned from the parts of the unit, in a number that its
shape tells. The text has just these lines when no part breaks one, and more lines otherwise. Inside
a namespace the text is shifted, so there more characters break a line.
-/

namespace HiddenNames

open Text (EndsWhole Unbroken endsWhole_append indent isLineBreak isTerminator linesOf shift
  sourceLines unbroken_append)

theorem joinLines_nested (before more : List String) {inner : List String} (filled : inner ≠ []) :
    joinLines (before ++ joinLines inner :: more) = joinLines (before ++ (inner ++ more)) := by
  obtain ⟨first, rest, rfl⟩ := List.exists_cons_of_ne_nil filled
  cases before with
  | nil =>
    simp only [joinLines, List.nil_append, List.cons_append, Text.intercalate_cons, List.map_append,
      String.join_append, String.append_assoc]
  | cons opening before =>
    simp only [joinLines, List.cons_append, Text.intercalate_cons, List.map_append, List.map_cons,
      String.join_append, String.join_cons, String.append_assoc]

/-! Placeholders. -/

def StubLevel.opening (level : StubLevel) : List String :=
  summaryLines ""
      "This type was auto-generated for referencing non-accessible type within nameof expressions."
    ++ ["internal " ++ (if level.isSealed then "sealed " else "") ++ level.keyword ++ " " ++
          level.name ++ level.parameters,
        "\x7b"]
    ++ (if level.hasConstructor then ["    private " ++ level.name ++ "() \x7b \x7d"] else [])

def stubLines : List StubLevel → List String
  | [] => []
  | level :: inner => level.opening ++ (stubLines inner).map (shift 4) ++ ["\x7d"]

structure StubLevel.IsUnbroken (level : StubLevel) : Prop where
  keyword : Unbroken isLineBreak level.keyword
  name : Unbroken isLineBreak level.name
  parameters : Unbroken isLineBreak level.parameters

theorem StubLevel.IsUnbroken.opening {level : StubLevel} (h : level.IsUnbroken) :
    ∀ line ∈ level.opening, Unbroken isLineBreak line := by
  have fixed : ∀ line ∈ summaryLines ""
      "This type was auto-generated for referencing non-accessible type within nameof expressions.",
      Unbroken isLineBreak line := by decide +kernel
  have start : Unbroken isLineBreak "internal " := by decide
  have sealing : Unbroken isLineBreak (if level.isSealed then "sealed " else "") := by
    split <;> decide
  have space : Unbroken isLineBreak " " := by decide
  have brace : Unbroken isLineBreak "\x7b" := by decide
  have access : Unbroken isLineBreak "    private " := by decide
  have empty : Unbroken isLineBreak "() \x7b \x7d" := by decide
  intro line held
  rw [StubLevel.opening, List.mem_append, List.mem_append] at held
  rcases held with (summary | declaration) | constructor
  · exact fixed line summary
  · rw [List.mem_cons, List.mem_singleton] at declaration
    rcases declaration with rfl | rfl
    · simp only [unbroken_append]
      exact ⟨⟨⟨⟨⟨start, sealing⟩, h.keyword⟩, space⟩, h.name⟩, h.parameters⟩
    · exact brace
  · split at constructor
    · rw [List.mem_singleton.mp constructor]
      simp only [unbroken_append]
      exact ⟨⟨access, h.name⟩, empty⟩
    · cases constructor

theorem stubLines_unbroken {levels : List StubLevel} (h : ∀ level ∈ levels, level.IsUnbroken) :
    ∀ line ∈ stubLines levels, Unbroken isLineBreak line := by
  induction levels with
  | nil => exact List.forall_mem_nil _
  | cons level inner ih =>
    obtain ⟨own, others⟩ := List.forall_mem_cons.mp h
    have brace : Unbroken isLineBreak "\x7d" := by decide
    simp only [stubLines, List.forall_mem_append, List.forall_mem_map, List.forall_mem_singleton]
    exact ⟨⟨own.opening, fun line held => Text.unbroken_shift (ih others line held)⟩, brace⟩

theorem stubText_eq {levels : List StubLevel} (h : ∀ level ∈ levels, level.IsUnbroken) :
    stubText levels = joinLines (stubLines levels) := by
  induction levels with
  | nil => rfl
  | cons level inner ih =>
    obtain ⟨_, others⟩ := List.forall_mem_cons.mp h
    rw [stubText, ih others, stubLines]
    cases inner with
    | nil => rfl
    | cons next deeper =>
      have begins : ∃ more, stubLines (next :: deeper) = "/// <summary>" :: more := ⟨_, rfl⟩
      obtain ⟨more, lines⟩ := begins
      have shifted : indent 4 (joinLines (stubLines (next :: deeper))) =
          joinLines ((stubLines (next :: deeper)).map (shift 4)) := by
        have clean := stubLines_unbroken others
        rw [lines] at clean ⊢
        exact Text.indent_join (by decide) clean
      have filled : (stubLines (next :: deeper)).map (shift 4) ≠ [] := by
        rw [lines]
        exact List.cons_ne_nil _ _
      have nested := joinLines_nested level.opening ["\x7d"] filled
      rw [← List.append_assoc] at nested
      rw [shifted, List.isEmpty_cons, if_neg Bool.false_ne_true, List.append_assoc]
      exact nested

theorem stubLines_length (levels : List StubLevel) : (stubLines levels).length =
    (levels.map fun level => 6 + level.hasConstructor.toNat).sum := by
  induction levels with
  | nil => rfl
  | cons level inner ih =>
    have opening : level.opening.length = 5 + level.hasConstructor.toNat := by
      rw [StubLevel.opening]
      cases level.hasConstructor <;> rfl
    rw [stubLines, List.length_append, List.length_append, List.length_map, ih, opening,
      List.length_singleton, List.map_cons, List.sum_cons]
    omega

/-! Units. -/

/-- How many parts of each kind a unit has: whether it is in a namespace, which levels of the
placeholder have a constructor, how many accessors and forwards the extension block has, and how
many each container. -/
structure UnitShape where
  spaced : Bool
  stub : List Bool
  accessors : Nat
  forwards : Nat
  containers : List (Nat × Nat)
  deriving DecidableEq

/-- The number of lines of a unit, the empty one behind the last line break included. -/
def UnitShape.lineCount (s : UnitShape) : Nat :=
  13 + (if s.spaced then 3 else 0) + (if s.stub.isEmpty then 0 else 1) +
    (s.stub.map fun constructor => 6 + constructor.toNat).sum + s.accessors + s.forwards +
    (s.containers.map fun (accessors, forwards) => 7 + accessors + forwards).sum

/-- Characters that break a line of a unit. What is in a namespace is shifted line by line, at any
line break. -/
def breaksIn (spaced : Bool) : Char → Bool := if spaced then isLineBreak else isTerminator

theorem Text.Unbroken.breaksIn {s : String} (h : Unbroken isLineBreak s) (spaced : Bool) :
    Unbroken (breaksIn spaced) s := by
  cases spaced with
  | false => exact h.terminators
  | true => exact h

namespace UnitView

def spaced (u : UnitView) : Bool := (namedSpace u.space?).isSome

def shape (u : UnitView) : UnitShape where
  spaced := u.spaced
  stub := u.stub.map StubLevel.hasConstructor
  accessors := u.accessors.length
  forwards := u.forwards.length
  containers := u.containers.map fun c => (c.accessors.length, c.forwards.length)

def bodyLines (u : UnitView) : List String :=
  (if u.stub.isEmpty then [] else stubLines u.stub ++ [""]) ++ u.wrapperLines

def plannedLines (u : UnitView) : List String :=
  ["// <auto-generated/>", "#nullable enable", ""] ++
    (match namedSpace u.space? with
      | some space => ["namespace " ++ space, "\x7b"] ++ u.bodyLines.map (shift 4) ++ ["\x7d"]
      | none => u.bodyLines) ++
    [""]

theorem bodyLines_length (u : UnitView) : u.bodyLines.length =
    (if u.stub.isEmpty then 0 else 1) + (stubLines u.stub).length + 9 + u.accessors.length +
      u.forwards.length +
      (u.containers.map fun c => 7 + c.accessors.length + c.forwards.length).sum := by
  have container : ∀ c : ContainerView,
      c.lines.length = 7 + c.accessors.length + c.forwards.length := by
    intro c
    simp only [ContainerView.lines, summaryLines, List.length_append, List.length_map,
      List.length_cons, List.length_nil]
    omega
  have front : (if u.stub.isEmpty then [] else stubLines u.stub ++ [""]).length =
      (if u.stub.isEmpty then 0 else 1) + (stubLines u.stub).length := by
    cases u.stub with
    | nil => rfl
    | cons level inner =>
      rw [List.isEmpty_cons, if_neg Bool.false_ne_true, if_neg Bool.false_ne_true,
        List.length_append, List.length_singleton, Nat.add_comm]
  rw [bodyLines, List.length_append, front]
  simp only [wrapperLines, summaryLines, List.length_append, List.length_map, List.length_cons,
    List.length_nil, List.length_flatMap, container]
  omega

theorem plannedLines_length (u : UnitView) : u.plannedLines.length = u.shape.lineCount := by
  have body := u.bodyLines_length
  rw [stubLines_length] at body
  simp only [plannedLines, UnitShape.lineCount, shape, spaced, List.map_map, Function.comp_def,
    List.isEmpty_map]
  split
  · rename_i space named
    simp only [List.length_append, List.length_cons, List.length_nil, List.length_map, body, named,
      Option.isSome_some, if_true]
    omega
  · rename_i named
    simp only [List.length_append, List.length_cons, List.length_nil, body, named,
      Option.isSome_none, Bool.false_eq_true, if_false]
    omega

theorem bodyLines_begin (u : UnitView) : ∃ more, u.bodyLines = "/// <summary>" :: more := by
  rw [bodyLines]
  cases u.stub with
  | nil => exact ⟨_, rfl⟩
  | cons level inner => exact ⟨_, rfl⟩

theorem bodyLines_ne_nil (u : UnitView) : u.bodyLines ≠ [] := by
  obtain ⟨more, lines⟩ := u.bodyLines_begin
  rw [lines]
  exact List.cons_ne_nil _ _

theorem body_eq {u : UnitView} (stub : ∀ level ∈ u.stub, level.IsUnbroken) :
    u.body = joinLines u.bodyLines := by
  rw [body, bodyLines, stubText_eq stub]
  cases shape : u.stub with
  | nil => rfl
  | cons level inner =>
    rw [List.isEmpty_cons, if_neg Bool.false_ne_true, if_neg Bool.false_ne_true, List.append_assoc]
    exact joinLines_nested [] ("" :: u.wrapperLines) (List.cons_ne_nil _ _)

/-- The text of a unit is joined from its first lines, its body and an empty line. -/
theorem text_eq (u : UnitView) : u.text = joinLines
    (["// <auto-generated/>", "#nullable enable", ""] ++
      ((match namedSpace u.space? with
        | some space => ["namespace " ++ space, "\x7b", indent 4 u.body, "\x7d"]
        | none => [u.body]) ++
      [""])) := by
  have start : ∀ rest, "// <auto-generated/>\n#nullable enable\n\n" ++ rest =
      joinLines ["// <auto-generated/>", "#nullable enable", "", rest] := by
    intro rest
    simp only [joinLines, Text.intercalate_cons, List.map_cons, List.map_nil, String.join_cons,
      String.join_nil, String.append_empty, ← String.append_assoc]
    rfl
  have around : ∀ space body, "namespace " ++ space ++ "\n\x7b\n" ++ body ++ "\n\x7d\n" =
      joinLines ["namespace " ++ space, "\x7b", body, "\x7d", ""] := by
    intro space body
    have opening : "\n" ++ "\x7b" ++ "\n" = "\n\x7b\n" := rfl
    have closing : "\n" ++ "\x7d" ++ "\n" = "\n\x7d\n" := rfl
    simp only [joinLines, Text.intercalate_cons, List.map_cons, List.map_nil, String.join_cons,
      String.join_nil, String.append_empty, ← opening, ← closing, String.append_assoc]
  have alone : ∀ body, body ++ "\n" = joinLines [body, ""] := by
    intro body
    simp only [joinLines, Text.intercalate_cons, List.map_cons, List.map_nil, String.join_cons,
      String.join_nil, String.append_empty]
  have joined : ∀ rest lines, lines ≠ [] → rest = joinLines lines →
      "// <auto-generated/>\n#nullable enable\n\n" ++ rest =
        joinLines (["// <auto-generated/>", "#nullable enable", ""] ++ lines) := by
    intro rest lines filled same
    have nested := joinLines_nested ["// <auto-generated/>", "#nullable enable", ""] [] filled
    rw [List.append_nil, ← same] at nested
    exact (start rest).trans nested
  unfold text
  cases namedSpace u.space? with
  | none => exact joined _ _ (List.cons_ne_nil _ _) (alone u.body)
  | some space => exact joined _ _ (List.cons_ne_nil _ _) (around space _)

theorem text_eq_of_named {u : UnitView} (stub : ∀ level ∈ u.stub, level.IsUnbroken) {space : String}
    (named : namedSpace u.space? = some space)
    (clean : ∀ line ∈ u.bodyLines, Unbroken isLineBreak line) :
    u.text = joinLines u.plannedLines := by
  obtain ⟨more, lines⟩ := u.bodyLines_begin
  have shifted : indent 4 u.body = joinLines (u.bodyLines.map (shift 4)) := by
    rw [body_eq stub]
    rw [lines] at clean ⊢
    exact Text.indent_join (by decide) clean
  have filled : u.bodyLines.map (shift 4) ≠ [] := List.map_eq_nil_iff.not.mpr u.bodyLines_ne_nil
  have nested := joinLines_nested
    ["// <auto-generated/>", "#nullable enable", "", "namespace " ++ space, "\x7b"] ["\x7d", ""]
    filled
  rw [← shifted] at nested
  rw [text_eq, plannedLines, named]
  simpa using nested

theorem text_eq_of_unnamed {u : UnitView} (stub : ∀ level ∈ u.stub, level.IsUnbroken)
    (unnamed : namedSpace u.space? = none) : u.text = joinLines u.plannedLines := by
  have nested := joinLines_nested ["// <auto-generated/>", "#nullable enable", ""] [""]
    u.bodyLines_ne_nil
  rw [← body_eq stub] at nested
  rw [text_eq, plannedLines, unnamed]
  simpa using nested

theorem plannedLines_ne_nil (u : UnitView) : u.plannedLines ≠ [] := List.cons_ne_nil _ _

structure KeepsPlan (u : UnitView) : Prop where
  space : ∀ text, namedSpace u.space? = some text → Unbroken isTerminator text
  body : ∀ line ∈ u.bodyLines, Unbroken (breaksIn u.spaced) line

theorem KeepsPlan.planned {u : UnitView} (h : u.KeepsPlan) :
    ∀ line ∈ u.plannedLines, Unbroken isTerminator line := by
  have fixed : ∀ line ∈ ["// <auto-generated/>", "#nullable enable", ""],
      Unbroken isTerminator line := by decide
  have empty : ∀ line ∈ [""], Unbroken isTerminator line := by decide
  have body := h.body
  rw [plannedLines, List.forall_mem_append, List.forall_mem_append]
  refine ⟨⟨fixed, ?_⟩, empty⟩
  cases named : namedSpace u.space? with
  | none =>
    rw [spaced, named] at body
    exact body
  | some space =>
    rw [spaced, named] at body
    have keyword : Unbroken isTerminator "namespace " := by decide
    have braces : ∀ line ∈ ["\x7b"], Unbroken isTerminator line := by decide
    have brace : ∀ line ∈ ["\x7d"], Unbroken isTerminator line := by decide
    simp only [List.forall_mem_append, List.forall_mem_map]
    refine ⟨⟨List.forall_mem_cons.mpr ⟨?_, braces⟩, fun line held => ?_⟩, brace⟩
    · exact unbroken_append.mpr ⟨keyword, h.space space named⟩
    · have clean : Unbroken isLineBreak line := body line held
      exact (Text.unbroken_shift clean).terminators

theorem KeepsPlan.lines {u : UnitView} (h : u.KeepsPlan)
    (stub : ∀ level ∈ u.stub, level.IsUnbroken) :
    sourceLines u.text = u.plannedLines.map String.toList := by
  have text : u.text = joinLines u.plannedLines := by
    cases named : namedSpace u.space? with
    | none => exact text_eq_of_unnamed stub named
    | some space =>
      have body := h.body
      rw [spaced, named] at body
      exact text_eq_of_named stub named body
  rw [text]
  exact Text.sourceLines_join_of_unbroken u.plannedLines_ne_nil h.planned

/-- A text with as many lines as are planned has these lines. Only a carriage return at the end of a
line could be lost when the text is shifted. -/
theorem keepsPlan_of_length {u : UnitView} (stub : ∀ level ∈ u.stub, level.IsUnbroken)
    (ends : ∀ line ∈ u.bodyLines, EndsWhole line)
    (count : (sourceLines u.text).length = u.plannedLines.length) : u.KeepsPlan := by
  cases named : namedSpace u.space? with
  | none =>
    rw [text_eq_of_unnamed stub named] at count
    have clean := (Text.sourceLines_join_length_iff u.plannedLines_ne_nil).mp count
    refine ⟨fun text space => ?_, fun line held => ?_⟩
    · rw [named] at space
      cases space
    · rw [spaced, named]
      apply clean line
      rw [plannedLines, named]
      exact List.mem_append_left _ (List.mem_append_right _ held)
  | some space =>
    have text : (sourceLines u.text).length = 6 +
        (sourceLines ("namespace " ++ space)).length + (sourceLines (indent 4 u.body)).length := by
      have fixed : ∀ line ∈ ["// <auto-generated/>", "#nullable enable", "", "\x7b", "\x7d"],
          sourceLines line = [line.toList] := by decide
      simp only [List.forall_mem_cons] at fixed
      obtain ⟨comment, nullable, empty, opening, closing, _⟩ := fixed
      have joined := Text.sourceLines_join (List.cons_ne_nil "// <auto-generated/>"
        ["#nullable enable", "", "namespace " ++ space, "\x7b", indent 4 u.body, "\x7d", ""])
      rw [text_eq, named]
      refine (congrArg List.length joined).trans ?_
      simp only [List.flatMap_cons, List.flatMap_nil, List.length_append, List.length_singleton,
        List.length_nil, comment, nullable, empty, opening, closing]
      omega
    have planned : u.plannedLines.length = 7 + u.bodyLines.length := by
      rw [plannedLines, named]
      simp only [List.length_append, List.length_cons, List.length_nil, List.length_map]
      omega
    have least := Text.length_le_linesOf_join u.bodyLines_ne_nil
    have some_line := List.length_pos_iff.mpr (Text.sourceLines_ne_nil ("namespace " ++ space))
    rw [text, planned, Text.sourceLines_indent_length, body_eq stub, joinLines] at count
    have clean := (Text.linesOf_join_length_iff u.bodyLines_ne_nil ends).mp (by omega)
    have opening : Unbroken isTerminator ("namespace " ++ space) :=
      Text.unbroken_of_sourceLines (by omega)
    refine ⟨fun text same => ?_, fun line held => ?_⟩
    · rw [named] at same
      exact Option.some.inj same ▸ (unbroken_append.mp opening).2
    · rw [spaced, named]
      exact clean line held

structure IsFramed (u : UnitView) : Prop where
  wrapper : Unbroken isLineBreak u.wrapper
  parameters : Unbroken isLineBreak u.parameters
  constraints : Unbroken isLineBreak u.constraints
  accessors : ∀ a ∈ u.accessors, Unbroken isLineBreak a.identifier
  forwards : ∀ f ∈ u.forwards, Unbroken isLineBreak f.identifier ∧ Unbroken isLineBreak f.container
  containers : ∀ c ∈ u.containers, Unbroken isLineBreak c.name ∧
    (∀ a ∈ c.accessors, Unbroken isLineBreak a.identifier) ∧
    ∀ f ∈ c.forwards, Unbroken isLineBreak f.identifier ∧ Unbroken isLineBreak f.container
  stub : ∀ level ∈ u.stub, level.IsUnbroken

/-- The placeholder in front of the wrapper, and the empty line between them, are unbroken. -/
theorem IsFramed.front {u : UnitView} (h : u.IsFramed) :
    ∀ line ∈ (if u.stub.isEmpty then [] else stubLines u.stub ++ [""]),
      Unbroken isLineBreak line := by
  have empty : Unbroken isLineBreak "" := by decide
  split
  · exact List.forall_mem_nil _
  · exact List.forall_mem_append.mpr ⟨stubLines_unbroken h.stub,
      List.forall_mem_singleton.mpr empty⟩

theorem visibility_unbroken (u : UnitView) : Unbroken isLineBreak u.visibility.text := by
  cases u.visibility <;> decide

end UnitView

section Lines

variable {spaced : Bool}

theorem unbroken_fixed {text : String} (fixed : Unbroken isLineBreak text) :
    Unbroken (breaksIn spaced) text ↔ True := iff_true_intro (fixed.breaksIn spaced)

def markup (c : Char) : String :=
  if c = '&' then "&amp;"
  else if c = '<' then "&lt;"
  else if c = '>' then "&gt;"
  else if c = '\'' then "&#39;"
  else if c = '"' then "&#34;"
  else c.toString

theorem markup_unbroken (c : Char) :
    Unbroken (breaksIn spaced) (markup c) ↔ breaksIn spaced c = false := by
  by_cases special : c ∈ ['&', '<', '>', '\'', '"']
  · have fixed : ∀ d ∈ ['&', '<', '>', '\'', '"'],
        Unbroken isLineBreak (markup d) ∧ Unbroken isLineBreak (String.singleton d) :=
      List.all_iff_forall_prop.mp (by decide)
    obtain ⟨written, alone⟩ := fixed c special
    rw [unbroken_fixed written, true_iff]
    exact alone.breaksIn spaced c (by simp)
  · simp only [List.mem_cons, List.not_mem_nil, or_false, not_or] at special
    obtain ⟨ampersand, less, greater, quote, double⟩ := special
    rw [markup, if_neg ampersand, if_neg less, if_neg greater, if_neg quote, if_neg double]
    simp [Unbroken]

theorem unbroken_markupSafe {s : String} :
    Unbroken (breaksIn spaced) (markupSafe s) ↔ Unbroken (breaksIn spaced) s := by
  have written : (markupSafe s).toList = s.toList.flatMap fun c => (markup c).toList := by
    rw [markupSafe, String.toList_join, List.flatMap_map]
    rfl
  rw [Unbroken, written, List.forall_mem_flatMap]
  exact forall₂_congr fun c _ => markup_unbroken c

theorem Accessor.line_unbroken {a : Accessor} {modifiers : String}
    (fixed : Unbroken isLineBreak modifiers) (identifier : Unbroken isLineBreak a.identifier) :
    Unbroken (breaksIn spaced) (a.line modifiers) ↔ Unbroken (breaksIn spaced) a.value := by
  simp (disch := first | assumption | decide +kernel) only [Accessor.line, unbroken_append,
    unbroken_fixed, true_and, and_true]

theorem Forward.line_unbroken {f : Forward} {modifiers : String}
    (fixed : Unbroken isLineBreak modifiers) (identifier : Unbroken isLineBreak f.identifier)
    (container : Unbroken isLineBreak f.container) :
    Unbroken (breaksIn spaced) (f.line modifiers) ↔ True := by
  simp (disch := first | assumption | decide +kernel) only [Forward.line, unbroken_append,
    unbroken_fixed, and_true]

theorem summaryLines_unbroken {margin text : String} (fixed : Unbroken isLineBreak margin) :
    (∀ line ∈ summaryLines margin text, Unbroken (breaksIn spaced) line) ↔
      Unbroken (breaksIn spaced) text := by
  simp (disch := first | assumption | decide +kernel) only [summaryLines, List.forall_mem_cons,
    List.not_mem_nil, false_imp_iff, implies_true, unbroken_append, unbroken_fixed, true_and,
    and_true]

theorem ContainerView.lines_unbroken {c : ContainerView} (name : Unbroken isLineBreak c.name)
    (accessors : ∀ a ∈ c.accessors, Unbroken isLineBreak a.identifier)
    (forwards : ∀ f ∈ c.forwards,
      Unbroken isLineBreak f.identifier ∧ Unbroken isLineBreak f.container) :
    (∀ line ∈ c.lines, Unbroken (breaksIn spaced) line) ↔
      Unbroken (breaksIn spaced) c.summary ∧ Unbroken (breaksIn spaced) c.display ∧
        ∀ a ∈ c.accessors, Unbroken (breaksIn spaced) a.value := by
  have properties : (∀ a ∈ c.accessors, Unbroken (breaksIn spaced) (a.line "public ")) ↔
      ∀ a ∈ c.accessors, Unbroken (breaksIn spaced) a.value :=
    forall₂_congr fun a held => Accessor.line_unbroken (by decide) (accessors a held)
  have ways : ∀ f ∈ c.forwards, Unbroken (breaksIn spaced) (f.line "public ") := by
    intro f held
    exact (Forward.line_unbroken (by decide) (forwards f held).1 (forwards f held).2).mpr trivial
  simp (disch := first | assumption | decide +kernel)
    only [ContainerView.lines, List.forall_mem_append, List.forall_mem_cons, List.not_mem_nil,
      false_imp_iff, implies_true, List.forall_mem_map, summaryLines_unbroken, unbroken_append,
      unbroken_markupSafe, unbroken_fixed, true_and, and_true, properties, iff_true_intro ways]
  constructor
  · rintro ⟨⟨summary, values⟩, display⟩
    exact ⟨summary, display, values⟩
  · rintro ⟨summary, display, values⟩
    exact ⟨⟨summary, values⟩, display⟩

/-- The body of a framed unit is broken only by the names and the target that it shows. -/
theorem UnitView.IsFramed.bodyLines_unbroken {u : UnitView} (h : u.IsFramed) (spaced : Bool) :
    (∀ line ∈ u.bodyLines, Unbroken (breaksIn spaced) line) ↔
      Unbroken (breaksIn spaced) u.display ∧ Unbroken (breaksIn spaced) u.target ∧
        (∀ a ∈ u.accessors, Unbroken (breaksIn spaced) a.value) ∧
        ∀ c ∈ u.containers, Unbroken (breaksIn spaced) c.summary ∧
          Unbroken (breaksIn spaced) c.display ∧
          ∀ a ∈ c.accessors, Unbroken (breaksIn spaced) a.value := by
  have stub : ∀ line ∈ (if u.stub.isEmpty then [] else stubLines u.stub ++ [""]),
      Unbroken (breaksIn spaced) line :=
    fun line held => (h.front line held).breaksIn spaced
  have properties : (∀ a ∈ u.accessors, Unbroken (breaksIn spaced) (a.line "public static ")) ↔
      ∀ a ∈ u.accessors, Unbroken (breaksIn spaced) a.value :=
    forall₂_congr fun a held => Accessor.line_unbroken (by decide) (h.accessors a held)
  have ways : ∀ f ∈ u.forwards, Unbroken (breaksIn spaced) (f.line "public static ") := by
    intro f held
    exact (Forward.line_unbroken (by decide)
      (h.forwards f held).1 (h.forwards f held).2).mpr trivial
  have structures : (∀ line ∈ u.containers.flatMap ContainerView.lines,
      Unbroken (breaksIn spaced) line) ↔ ∀ c ∈ u.containers, Unbroken (breaksIn spaced) c.summary ∧
        Unbroken (breaksIn spaced) c.display ∧
          ∀ a ∈ c.accessors, Unbroken (breaksIn spaced) a.value := by
    rw [List.forall_mem_flatMap]
    refine forall₂_congr fun c held => ?_
    obtain ⟨name, accessors, forwards⟩ := h.containers c held
    exact ContainerView.lines_unbroken name accessors forwards
  have visibility := u.visibility_unbroken
  have wrapper := h.wrapper
  have parameters := h.parameters
  have constraints := h.constraints
  simp (disch := first | assumption | decide +kernel)
    only [UnitView.bodyLines, UnitView.wrapperLines, List.forall_mem_append, List.forall_mem_cons,
      List.not_mem_nil, false_imp_iff, implies_true, List.forall_mem_map, summaryLines_unbroken,
      unbroken_append, unbroken_markupSafe, unbroken_fixed, true_and, and_true, properties,
      structures, iff_true_intro ways, iff_true_intro stub]
  rw [and_assoc, and_assoc]

end Lines

/-! No line of a framed unit ends in a carriage return, whatever it shows. -/

theorem Accessor.line_endsWhole (a : Accessor) (modifiers : String) :
    EndsWhole (a.line modifiers) := endsWhole_append (by decide) (by decide)

theorem Forward.line_endsWhole (f : Forward) (modifiers : String) :
    EndsWhole (f.line modifiers) := endsWhole_append (by decide) (by decide)

theorem ContainerView.lines_endWhole {c : ContainerView} (name : Unbroken isLineBreak c.name) :
    ∀ line ∈ c.lines, EndsWhole line := by
  have struct : Unbroken isLineBreak ("    public readonly struct " ++ c.name) :=
    unbroken_append.mpr ⟨by decide, name⟩
  have summary : EndsWhole ("    " ++ "/// " ++
      ("Auto-generated names of the non-accessible members of nested type " ++
        markupSafe c.summary ++ ".")) :=
    endsWhole_append (by simp) (endsWhole_append (by decide) (by decide))
  have display : EndsWhole ("        public override string ToString() => " ++ c.display ++ ";") :=
    endsWhole_append (by decide) (by decide)
  simp only [ContainerView.lines, summaryLines, List.forall_mem_append, List.forall_mem_cons,
    List.not_mem_nil, false_imp_iff, implies_true, and_true, List.forall_mem_map]
  exact ⟨⟨⟨⟨⟨by decide, summary, by decide⟩, struct.endsWhole, by decide⟩,
    fun a _ => a.line_endsWhole _⟩, fun f _ => f.line_endsWhole _⟩, display, by decide⟩

theorem UnitView.IsFramed.bodyLines_endWhole {u : UnitView} (h : u.IsFramed) :
    ∀ line ∈ u.bodyLines, EndsWhole line := by
  have stub : ∀ line ∈ (if u.stub.isEmpty then [] else stubLines u.stub ++ [""]),
      EndsWhole line := fun line held => (h.front line held).endsWhole
  have summary : EndsWhole ("" ++ "/// " ++
      ("Auto-generated names of the non-accessible members of " ++ markupSafe u.display ++ ".")) :=
    endsWhole_append (by simp) (endsWhole_append (by decide) (by decide))
  have wrapper : Unbroken isLineBreak (u.visibility.text ++ " static class " ++ u.wrapper) :=
    unbroken_append.mpr ⟨unbroken_append.mpr ⟨u.visibility_unbroken, by decide⟩, h.wrapper⟩
  have extension : EndsWhole ("    extension" ++ u.parameters ++ "(global::Nameof.nameof<" ++
      u.target ++ ">)" ++ u.constraints) := by
    have back : Unbroken isLineBreak (">)" ++ u.constraints) :=
      unbroken_append.mpr ⟨by decide, h.constraints⟩
    rw [String.append_assoc]
    exact endsWhole_append (by simp) back.endsWhole
  have structures : ∀ line ∈ u.containers.flatMap ContainerView.lines, EndsWhole line := by
    rw [List.forall_mem_flatMap]
    exact fun c held => ContainerView.lines_endWhole (h.containers c held).1
  simp only [UnitView.bodyLines, UnitView.wrapperLines, summaryLines, List.forall_mem_append,
    List.forall_mem_cons, List.not_mem_nil, false_imp_iff, implies_true, and_true,
    List.forall_mem_map]
  exact ⟨stub, ⟨⟨⟨⟨⟨⟨by decide, summary, by decide⟩, wrapper.endsWhole, by decide, extension,
    by decide⟩, fun a _ => a.line_endsWhole _⟩, fun f _ => f.line_endsWhole _⟩, by decide⟩,
    structures⟩, by decide⟩

/-- The text of a framed unit has as many lines as its shape tells just when its plan is kept. -/
theorem UnitView.IsFramed.lineCount_iff {u : UnitView} (h : u.IsFramed) :
    (sourceLines u.text).length = u.shape.lineCount ↔ u.KeepsPlan := by
  rw [← u.plannedLines_length]
  constructor
  · exact UnitView.keepsPlan_of_length h.stub h.bodyLines_endWhole
  · intro kept
    rw [kept.lines h.stub, List.length_map]

end HiddenNames
