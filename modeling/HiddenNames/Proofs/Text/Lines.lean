import HiddenNames.Proofs.Text.Pieces
import Mathlib.Data.List.Basic

/-!
Lines of text. A source text is cut at every character that ends a line of C#; text that is shifted
to the right is cut at more characters than that. A text that is joined from lines has as many lines
as these, or more if one of them is broken itself.
-/

namespace HiddenNames.Text

def isTerminator (c : Char) : Bool := c ∈ ['\n', '\r', '\u0085', '\u2028', '\u2029']

/-- The lines of a source text. A carriage return and a line feed after it end a line each. -/
def sourceLines (s : String) : List (List Char) := s.toList.splitOnP isTerminator

def Unbroken (breaks : Char → Bool) (s : String) : Prop := ∀ c ∈ s.toList, breaks c = false

instance (breaks : Char → Bool) (s : String) : Decidable (Unbroken breaks s) :=
  List.decidableBAll (fun c => breaks c = false) s.toList

theorem isLineBreak_of_isTerminator {c : Char} (h : isTerminator c = true) :
    isLineBreak c = true := by
  have all : ['\n', '\r', '\u0085', '\u2028', '\u2029'].all isLineBreak = true := by decide
  exact List.all_eq_true.mp all c (of_decide_eq_true h)

theorem Unbroken.terminators {s : String} (h : Unbroken isLineBreak s) :
    Unbroken isTerminator s := by
  intro c held
  rw [← Bool.not_eq_true]
  intro ends
  exact absurd (isLineBreak_of_isTerminator ends) (Bool.eq_false_iff.mp (h c held))

theorem unbroken_append {breaks : Char → Bool} {s s' : String} :
    Unbroken breaks (s ++ s') ↔ Unbroken breaks s ∧ Unbroken breaks s' := by
  simp only [Unbroken, String.toList_append, List.forall_mem_append]

theorem unbroken_intercalate {breaks : Char → Bool} {sep : String} (clean : Unbroken breaks sep)
    {pieces : List String} :
    Unbroken breaks (sep.intercalate pieces) ↔ ∀ piece ∈ pieces, Unbroken breaks piece := by
  constructor
  · exact fun whole piece among c held => whole c (mem_intercalate_of_mem among held)
  · intro all c held
    rcases mem_intercalate held with between | ⟨piece, among, inside⟩
    · exact clean c between
    · exact all piece among c inside

/-- A text can be followed by a line feed without one break of two characters coming about. -/
def EndsWhole (s : String) : Prop := s.toList.getLast? ≠ some '\r'

instance (s : String) : Decidable (EndsWhole s) :=
  inferInstanceAs (Decidable (s.toList.getLast? ≠ some '\r'))

theorem Unbroken.endsWhole {s : String} (h : Unbroken isLineBreak s) : EndsWhole s := by
  intro last
  have plain := h '\r' (List.mem_of_getLast? last)
  exact absurd plain (by decide)

theorem endsWhole_append {s s' : String} (filled : s' ≠ "") (h : EndsWhole s') :
    EndsWhole (s ++ s') := by
  have some_char : s'.toList ≠ [] := mt String.toList_eq_nil_iff.mp filled
  rw [EndsWhole, String.toList_append, List.getLast?_append_of_ne_nil _ some_char]
  exact h

/-! A list of which every piece gives at least one line has as many lines as pieces just when every
piece gives one. -/

theorem length_le_flatMap {α β : Type} {f : α → List β} (filled : ∀ a, f a ≠ [])
    (items : List α) : items.length ≤ (items.flatMap f).length := by
  induction items with
  | nil => exact Nat.le_refl 0
  | cons a rest ih =>
    have one := List.length_pos_iff.mpr (filled a)
    rw [List.flatMap_cons, List.length_append, List.length_cons]
    omega

theorem flatMap_length_eq_iff {α β : Type} {f : α → List β} (filled : ∀ a, f a ≠ [])
    (items : List α) :
    (items.flatMap f).length = items.length ↔ ∀ a ∈ items, (f a).length = 1 := by
  induction items with
  | nil => simp
  | cons a rest ih =>
    have one := List.length_pos_iff.mpr (filled a)
    have more := length_le_flatMap filled rest
    rw [List.flatMap_cons, List.length_append, List.length_cons, List.forall_mem_cons]
    constructor
    · exact fun same => ⟨by omega, ih.mp (by omega)⟩
    · rintro ⟨own, single⟩
      have same := ih.mpr single
      omega

/-! Source lines. -/

theorem sourceLines_ne_nil (s : String) : sourceLines s ≠ [] := List.splitOnP_ne_nil _ _

theorem sourceLines_of_unbroken {s : String} (h : Unbroken isTerminator s) :
    sourceLines s = [s.toList] :=
  List.splitOnP_eq_singleton h

theorem sourceLines_append (s s' : String) :
    sourceLines (s ++ "\n" ++ s') = sourceLines s ++ sourceLines s' := by
  have shape : (s ++ "\n" ++ s').toList = s.toList ++ '\n' :: s'.toList := by simp
  rw [sourceLines, shape]
  exact List.splitOnP_append_cons _ _ (by decide)

theorem sourceLines_join {lines : List String} (filled : lines ≠ []) :
    sourceLines ("\n".intercalate lines) = lines.flatMap sourceLines := by
  induction lines with
  | nil => exact absurd rfl filled
  | cons first more ih =>
    by_cases alone : more = []
    · rw [alone, String.intercalate_singleton, List.flatMap_singleton]
    · rw [String.intercalate_cons_of_ne_nil alone, sourceLines_append, ih alone, List.flatMap_cons]

theorem unbroken_of_sourceLines {s : String} (h : (sourceLines s).length = 1) :
    Unbroken isTerminator s := by
  intro c held
  rw [← Bool.not_eq_true]
  intro ends
  obtain ⟨before, after, shape⟩ := List.append_of_mem held
  have first := List.length_pos_iff.mpr (List.splitOnP_ne_nil isTerminator before)
  have second := List.length_pos_iff.mpr (List.splitOnP_ne_nil isTerminator after)
  rw [sourceLines, shape, List.splitOnP_append_cons _ _ ends, List.length_append] at h
  omega

theorem unbroken_of_mem_sourceLines {s : String} {line : List Char} (h : line ∈ sourceLines s) :
    ∀ c ∈ line, isTerminator c = false := by
  have pieces : ∀ cs : List Char, ∀ line ∈ cs.splitOnP isTerminator, ∀ c ∈ line,
      isTerminator c = false := by
    intro cs
    induction cs with
    | nil =>
      intro line held c inside
      rw [List.splitOnP_nil, List.mem_singleton] at held
      rw [held] at inside
      cases inside
    | cons d rest ih =>
      intro line held c inside
      rw [List.splitOnP_cons_eq_if_modifyHead] at held
      split at held
      · rcases List.mem_cons.mp held with rfl | later
        · cases inside
        · exact ih line later c inside
      · rename_i plain
        obtain ⟨first, more, shape⟩ :=
          List.exists_cons_of_ne_nil (List.splitOnP_ne_nil isTerminator rest)
        rw [shape] at held ih
        rcases List.mem_cons.mp held with rfl | later
        · rcases List.mem_cons.mp inside with rfl | behind
          · exact Bool.eq_false_iff.mpr plain
          · exact ih first List.mem_cons_self c behind
        · exact ih line (List.mem_cons_of_mem _ later) c inside
  exact pieces s.toList line h

/-! Lines that are shifted. -/

theorem linesOf_crlf (rest : List Char) : linesOf ('\r' :: '\n' :: rest) = [] :: linesOf rest := by
  rw [linesOf]

theorem linesOf_break {c : Char} (isBreak : isLineBreak c = true) {rest : List Char}
    (whole : c = '\r' → rest.head? ≠ some '\n') : linesOf (c :: rest) = [] :: linesOf rest := by
  rw [linesOf, if_pos isBreak]
  rintro more rfl rfl
  exact whole rfl rfl

theorem linesOf_plain {c : Char} (plain : isLineBreak c = false) {rest line : List Char}
    {more : List (List Char)} (shape : linesOf rest = line :: more) :
    linesOf (c :: rest) = (c :: line) :: more := by
  rw [linesOf, if_neg (Bool.eq_false_iff.mp plain), shape]
  rintro _ rfl
  exact absurd plain (by decide)

theorem linesOf_ne_nil (c : Char) (rest : List Char) : linesOf (c :: rest) ≠ [] := by
  unfold linesOf
  split
  · rename_i shape
    cases shape
  · exact List.cons_ne_nil _ _
  · split
    · exact List.cons_ne_nil _ _
    · split <;> exact List.cons_ne_nil _ _

theorem linesOf_feed (rest : List Char) : linesOf ('\n' :: rest) = [] :: linesOf rest :=
  linesOf_break (by decide) fun same => absurd same (by decide)

/-- A text begins with two characters that are one break, with a break or with something else. -/
theorem linesOf_induct {motive : List Char → Prop} (nil : motive [])
    (crlf : ∀ rest, motive rest → motive ('\r' :: '\n' :: rest))
    (ends : ∀ c rest, isLineBreak c = true → (c = '\r' → rest.head? ≠ some '\n') → motive rest →
      motive (c :: rest))
    (plain : ∀ c rest, isLineBreak c = false → motive rest → motive (c :: rest)) :
    ∀ cs, motive cs := by
  intro cs
  induction cs using linesOf.induct with
  | case1 => exact nil
  | case2 rest ih => exact crlf rest ih
  | case3 c rest apart isBreak ih =>
    refine ends c rest isBreak (fun isReturn feed => ?_) ih
    obtain ⟨d, more, shape⟩ := List.exists_cons_of_ne_nil (l := rest) (by rintro rfl; cases feed)
    rw [shape, List.head?_cons, Option.some_inj] at feed
    exact apart more isReturn (feed ▸ shape)
  | case4 c rest _ notBreak _ ih => exact plain c rest (Bool.eq_false_iff.mpr notBreak) ih
  | case5 c rest _ notBreak _ _ _ ih => exact plain c rest (Bool.eq_false_iff.mpr notBreak) ih

theorem linesOf_concat_ne_nil (cs : List Char) (rest : List Char) :
    linesOf (cs ++ '\n' :: rest) ≠ [] := by
  cases cs with
  | nil => exact linesOf_ne_nil _ _
  | cons c more => exact linesOf_ne_nil _ _

theorem linesOf_append (cs ds : List Char) :
    linesOf (cs ++ '\n' :: ds) = linesOf (cs ++ ['\n']) ++ linesOf ds := by
  induction cs using linesOf_induct with
  | nil =>
    rw [List.nil_append, List.nil_append, linesOf_feed, linesOf_feed]
    rfl
  | crlf rest ih =>
    simp only [List.cons_append]
    rw [linesOf_crlf, linesOf_crlf, ih]
    rfl
  | ends c rest isBreak apart ih =>
    by_cases alone : rest = [] ∧ c = '\r'
    · obtain ⟨rfl, rfl⟩ := alone
      simp only [List.cons_append, List.nil_append]
      rw [linesOf_crlf, linesOf_crlf]
      rfl
    · have whole : ∀ tail, c = '\r' → (rest ++ '\n' :: tail).head? ≠ some '\n' := by
        intro tail isReturn
        cases rest with
        | nil => exact absurd ⟨rfl, isReturn⟩ alone
        | cons d rest => exact apart isReturn
      rw [List.cons_append, List.cons_append, linesOf_break isBreak (whole ds),
        linesOf_break isBreak (whole []), ih]
      rfl
  | plain c rest plain ih =>
    obtain ⟨line, more, shape⟩ := List.exists_cons_of_ne_nil (linesOf_concat_ne_nil rest [])
    rw [shape, List.cons_append] at ih
    rw [List.cons_append, List.cons_append, linesOf_plain plain ih, linesOf_plain plain shape]
    rfl

theorem linesOf_of_unbroken {s : String} (h : Unbroken isLineBreak s) :
    linesOf (s.toList ++ ['\n']) = [s.toList] := by
  have lines : ∀ cs : List Char, (∀ c ∈ cs, isLineBreak c = false) →
      linesOf (cs ++ ['\n']) = [cs] := by
    intro cs clean
    induction cs with
    | nil => rfl
    | cons c rest ih =>
      rw [List.forall_mem_cons] at clean
      rw [List.cons_append, linesOf_plain clean.1 (ih clean.2)]
  exact lines s.toList h

/-- A text that is one line has no break, save for a carriage return at its end. -/
theorem unbroken_of_linesOf {s : String} (h : (linesOf (s.toList ++ ['\n'])).length = 1)
    (last : EndsWhole s) : Unbroken isLineBreak s := by
  have clean : ∀ cs : List Char, (linesOf (cs ++ ['\n'])).length = 1 → cs.getLast? ≠ some '\r' →
      ∀ c ∈ cs, isLineBreak c = false := by
    intro cs
    induction cs using linesOf_induct with
    | nil => exact fun _ _ _ held => absurd held List.not_mem_nil
    | crlf rest ih =>
      intro one _
      have more := List.length_pos_iff.mpr (linesOf_concat_ne_nil rest [])
      simp only [List.cons_append] at one
      rw [linesOf_crlf, List.length_cons] at one
      omega
    | ends c rest isBreak apart ih =>
      intro one last
      have whole : c = '\r' → (rest ++ ['\n']).head? ≠ some '\n' := by
        intro isReturn
        cases rest with
        | nil => exact absurd (isReturn ▸ List.getLast?_singleton) last
        | cons d rest => exact apart isReturn
      have more := List.length_pos_iff.mpr (linesOf_concat_ne_nil rest [])
      rw [List.cons_append, linesOf_break isBreak whole, List.length_cons] at one
      omega
    | plain c rest plain ih =>
      intro one last
      obtain ⟨line, more, shape⟩ := List.exists_cons_of_ne_nil (linesOf_concat_ne_nil rest [])
      rw [List.cons_append, linesOf_plain plain shape, List.length_cons] at one
      rw [shape, List.length_cons] at ih
      refine List.forall_mem_cons.mpr ⟨plain, ih one ?_⟩
      cases rest with
      | nil => simp
      | cons d rest => exact List.getLast?_cons_cons ▸ last
  exact clean s.toList h last

theorem unbroken_of_mem_linesOf {cs line : List Char} (h : line ∈ linesOf cs) :
    ∀ c ∈ line, isLineBreak c = false := by
  induction cs using linesOf_induct generalizing line with
  | nil => cases h
  | crlf rest ih =>
    rw [linesOf_crlf] at h
    rcases List.mem_cons.mp h with rfl | later
    · exact List.forall_mem_nil _
    · exact ih later
  | ends c rest isBreak apart ih =>
    rw [linesOf_break isBreak apart] at h
    rcases List.mem_cons.mp h with rfl | later
    · exact List.forall_mem_nil _
    · exact ih later
  | plain c rest plain ih =>
    cases shape : linesOf rest with
    | nil =>
      rw [linesOf, if_neg (Bool.eq_false_iff.mp plain), shape, List.mem_singleton] at h
      · exact h ▸ List.forall_mem_singleton.mpr plain
      · rintro _ rfl
        exact absurd plain (by decide)
    | cons first more =>
      rw [linesOf_plain plain shape] at h
      rcases List.mem_cons.mp h with rfl | later
      · exact List.forall_mem_cons.mpr ⟨plain, ih (shape ▸ List.mem_cons_self)⟩
      · exact ih (shape ▸ List.mem_cons_of_mem _ later)

theorem linesOf_join {lines : List String} (filled : lines ≠ []) :
    linesOf (("\n".intercalate lines).toList ++ ['\n']) =
      lines.flatMap fun line => linesOf (line.toList ++ ['\n']) := by
  induction lines with
  | nil => exact absurd rfl filled
  | cons first more ih =>
    by_cases alone : more = []
    · rw [alone, String.intercalate_singleton, List.flatMap_singleton]
    · have shape : ("\n".intercalate (first :: more)).toList ++ ['\n'] =
          first.toList ++ '\n' :: (("\n".intercalate more).toList ++ ['\n']) := by
        rw [String.intercalate_cons_of_ne_nil alone]
        simp
      rw [shape, linesOf_append, ih alone, List.flatMap_cons]

/-! A joined text has as many lines as it is joined from just when none of them is broken. -/

theorem sourceLines_join_length_iff {lines : List String} (filled : lines ≠ []) :
    (sourceLines ("\n".intercalate lines)).length = lines.length ↔
      ∀ line ∈ lines, Unbroken isTerminator line := by
  rw [sourceLines_join filled, flatMap_length_eq_iff sourceLines_ne_nil]
  refine forall₂_congr fun line _ => ⟨unbroken_of_sourceLines, fun clean => ?_⟩
  rw [sourceLines_of_unbroken clean]
  rfl

theorem length_le_linesOf_join {lines : List String} (filled : lines ≠ []) :
    lines.length ≤ (linesOf (("\n".intercalate lines).toList ++ ['\n'])).length := by
  rw [linesOf_join filled]
  exact length_le_flatMap (fun line => linesOf_concat_ne_nil line.toList []) lines

theorem linesOf_join_length_iff {lines : List String} (filled : lines ≠ [])
    (ends : ∀ line ∈ lines, EndsWhole line) :
    (linesOf (("\n".intercalate lines).toList ++ ['\n'])).length = lines.length ↔
      ∀ line ∈ lines, Unbroken isLineBreak line := by
  have some_line : ∀ line : String, linesOf (line.toList ++ ['\n']) ≠ [] :=
    fun line => linesOf_concat_ne_nil line.toList []
  rw [linesOf_join filled, flatMap_length_eq_iff some_line]
  refine forall₂_congr fun line held => ⟨fun one => unbroken_of_linesOf one (ends line held), ?_⟩
  intro clean
  rw [linesOf_of_unbroken clean]
  rfl

theorem sourceLines_join_of_unbroken {lines : List String} (filled : lines ≠ [])
    (clean : ∀ line ∈ lines, Unbroken isTerminator line) :
    sourceLines ("\n".intercalate lines) = lines.map String.toList := by
  rw [sourceLines_join filled, List.map_eq_flatMap]
  exact List.flatMap_congr fun line held => sourceLines_of_unbroken (clean line held)

/-! Shifting. -/

def margin (width : Nat) : String := String.ofList (List.replicate width ' ')

def shift (width : Nat) (line : String) : String :=
  if line = "" then "" else margin width ++ line

theorem intercalate_cons (sep first : String) (more : List String) :
    sep.intercalate (first :: more) = first ++ String.join (more.map (sep ++ ·)) := by
  induction more generalizing first with
  | nil => rw [String.intercalate_singleton, List.map_nil, String.join_nil, String.append_empty]
  | cons second more ih =>
    rw [String.intercalate_cons_of_ne_nil (List.cons_ne_nil _ _), ih, List.map_cons,
      String.join_cons, String.append_assoc, String.append_assoc]

/-- What is shifted is joined from its lines again, each behind the margin. -/
theorem indent_eq {width : Nat} {s : String} {first : List Char} {more : List (List Char)}
    (shape : linesOf (s.toList ++ ['\n']) = first :: more) :
    indent width s = "\n".intercalate ((margin width ++ String.ofList first) ::
      more.map fun line => shift width (String.ofList line)) := by
  have behind : ∀ line : List Char,
      (if line.isEmpty then "\n" else "\n" ++ margin width ++ String.ofList line) =
        "\n" ++ shift width (String.ofList line) := by
    intro line
    cases line with
    | nil => rfl
    | cons c rest => simp [shift, String.append_assoc]
  rw [intercalate_cons, List.map_map]
  simp only [indent, shape]
  exact congrArg _ (congrArg _ (List.map_congr_left fun line _ => behind line))

theorem unbroken_margin (width : Nat) : Unbroken isLineBreak (margin width) := by
  intro c held
  rw [margin, String.toList_ofList] at held
  rw [List.eq_of_mem_replicate held]
  decide

theorem unbroken_shift {width : Nat} {line : String} (h : Unbroken isLineBreak line) :
    Unbroken isLineBreak (shift width line) := by
  rw [shift]
  split
  · exact List.forall_mem_nil _
  · exact unbroken_append.mpr ⟨unbroken_margin width, h⟩

theorem sourceLines_indent_length (width : Nat) (s : String) :
    (sourceLines (indent width s)).length = (linesOf (s.toList ++ ['\n'])).length := by
  obtain ⟨first, more, shape⟩ := List.exists_cons_of_ne_nil (linesOf_concat_ne_nil s.toList [])
  have clean : ∀ line ∈ first :: more, Unbroken isLineBreak (String.ofList line) := by
    intro line held c inside
    rw [String.toList_ofList] at inside
    exact unbroken_of_mem_linesOf (shape ▸ held) c inside
  rw [List.forall_mem_cons] at clean
  have lines := (sourceLines_join_length_iff (List.cons_ne_nil
    (margin width ++ String.ofList first)
    (more.map fun line => shift width (String.ofList line)))).mpr
  rw [indent_eq shape, shape, lines, List.length_cons, List.length_cons, List.length_map]
  rw [List.forall_mem_cons, List.forall_mem_map]
  exact ⟨(unbroken_append.mpr ⟨unbroken_margin width, clean.1⟩).terminators,
    fun line held => (unbroken_shift (clean.2 line held)).terminators⟩

/-- Unbroken lines of which the first is not empty are shifted one by one. -/
theorem indent_join {width : Nat} {first : String} {more : List String} (filled : first ≠ "")
    (clean : ∀ line ∈ first :: more, Unbroken isLineBreak line) :
    indent width ("\n".intercalate (first :: more)) =
      "\n".intercalate ((first :: more).map (shift width)) := by
  have shape : linesOf (("\n".intercalate (first :: more)).toList ++ ['\n']) =
      (first :: more).map String.toList := by
    rw [linesOf_join (List.cons_ne_nil _ _), List.map_eq_flatMap]
    exact List.flatMap_congr fun line held => linesOf_of_unbroken (clean line held)
  rw [indent_eq shape, List.map_map, List.map_cons, shift, if_neg filled, String.ofList_toList]
  congr 2
  apply List.map_congr_left
  intro line _
  rw [Function.comp_apply, String.ofList_toList]

end HiddenNames.Text
