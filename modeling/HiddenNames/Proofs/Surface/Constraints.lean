import HiddenNames.Proofs.Assoc
import HiddenNames.Proofs.Source.Order
import HiddenNames.Proofs.Surface.Clauses
import HiddenNames.Proofs.Surface.Spaces
import Mathlib.Data.Bool.AllAny

/-!
What the constraint clauses of a source type say. Every clause is for the parameter that stands for
the declared one. Inside a constraint, a name that its own type declares is spelled like the
parameter that stands for it, but a name that only a type around declares stays as it is written:
the clause is wrong there if that type's parameter got another name.
-/

namespace HiddenNames

open Identifier (isBare isLegal isPart plain Scope)

namespace SourceProgram

variable {p : SourceProgram} {t : SourceType}

def chainOf (p : SourceProgram) (t : SourceType) : List SourceType :=
  (List.range t.outer.length).filterMap (fun k =>
    p.get? (SourceType.chainName t.space? (t.outer.take (k + 1)))) ++ [t]

structure Level where
  declaring : SourceType
  names : List String
  deriving DecidableEq

def levels (p : SourceProgram) (t : SourceType) : List Level :=
  List.zipWith Level.mk (p.chainOf t) (claimParameters (Scope.ofReserved []) (p.view t).chain)

/-- The name of the parameter that the type declares under a name, the last one if it repeats it. -/
def Level.standsFor (l : Level) (declared : String) : Option String :=
  (l.declaring.parameters.zip l.names).reverse.lookup declared

/-- The name of the parameter that a name means inside the last of some types, each declared in the
one before. A type hides the names of the types around it. -/
def denoted (levels : List Level) (name : String) : Option String :=
  levels.reverse.findSome? fun l => l.standsFor name

def clauses (p : SourceProgram) (l : Level) : List String :=
  constraintClauses (p.headOf l.declaring) l.names

def spelled (p : SourceProgram) (l : Level) (constraint : String) : String :=
  renameWords (spellings l.declaring.parameters l.names) (p.qualify l.declaring constraint)

theorem view_chain_eq (p : SourceProgram) (t : SourceType) :
    (p.view t).chain = (p.chainOf t).map p.headOf := by
  rw [TypeView.chain, chainOf, List.map_append, List.map_filterMap]
  rfl

theorem view_parameterized (p : SourceProgram) (t : SourceType) :
    (p.view t).parameterized = (p.levels t).map fun l => (p.headOf l.declaring, l.names) := by
  rw [TypeView.parameterized, levels, List.map_zipWith, view_chain_eq, List.zip_map_left, List.zip,
    List.map_zipWith]
  rfl

theorem levels_declaring (p : SourceProgram) (t : SourceType) :
    (p.levels t).map Level.declaring = p.chainOf t := by
  have length : (p.chainOf t).length ≤
      (claimParameters (Scope.ofReserved []) (p.view t).chain).length := by
    rw [claimParameters_length, view_chain_eq, List.length_map]
  rw [levels, List.map_zipWith, ← List.map_uncurry_zip_eq_zipWith]
  exact List.map_fst_zip length

namespace Level

theorem claimed {l : Level} (held : l ∈ p.levels t) :
    ∃ before : Scope, l.names = (before.claimAll l.declaring.parameters).1 := by
  have among : (p.headOf l.declaring, l.names) ∈ (p.view t).parameterized := by
    rw [view_parameterized]
    exact List.mem_map_of_mem held
  exact (claimed_of_mem among).2

theorem mem_names {l : Level} {declared unique : String} (h : l.standsFor declared = some unique) :
    unique ∈ l.names :=
  (List.of_mem_zip (List.mem_reverse.mp (mem_of_lookup h))).2

theorem legal {l : Level} (held : l ∈ p.levels t) {unique : String} (among : unique ∈ l.names) :
    isLegal unique = true := by
  obtain ⟨before, names⟩ := claimed held
  exact (before.claimAll_apart _).legal unique (names ▸ among)

theorem standsFor_none_iff {l : Level} (held : l ∈ p.levels t) {name : String} :
    l.standsFor name = none ↔ name ∉ l.declaring.parameters := by
  obtain ⟨before, names⟩ := claimed held
  have length : l.declaring.parameters.length ≤ l.names.length := by
    rw [names, Scope.claimAll_length]
  have declared : (l.declaring.parameters.zip l.names).map Prod.fst = l.declaring.parameters :=
    List.map_fst_zip length
  rw [standsFor, List.lookup_eq_none_iff]
  constructor
  · intro absent among
    rw [← declared] at among
    obtain ⟨entry, paired, rfl⟩ := List.mem_map.mp among
    simpa using absent entry (List.mem_reverse.mpr paired)
  · intro absent entry paired
    have among := (List.of_mem_zip (List.mem_reverse.mp paired)).1
    exact bne_iff_ne.mpr fun same => absent (same ▸ among)

theorem lookup_spellings (l : Level) (name : String) :
    (spellings l.declaring.parameters l.names).lookup name = l.standsFor name :=
  lookup_assignAll_reverse _ name

end Level

theorem denoted_concat (above : List Level) (l : Level) (name : String) :
    denoted (above ++ [l]) name = (l.standsFor name).or (denoted above name) := by
  rw [denoted, List.reverse_append, List.reverse_singleton, List.singleton_append,
    List.findSome?_cons]
  cases l.standsFor name <;> rfl

/-- There is one clause for each constrained parameter, and it is for the name that stands for
it. -/
theorem mem_clauses {l : Level} {clause : String} : clause ∈ p.clauses l ↔
    ∃ declared unique constraints, l.standsFor declared = some unique ∧
      l.declaring.constraints.lookup declared = some constraints ∧ constraints ≠ [] ∧
      clause = " where " ++ unique ++ " : " ++
        ", ".intercalate (constraints.map (p.spelled l)) := by
  have paired : ∀ declared unique, (declared, unique) ∈ spellings l.declaring.parameters l.names ↔
      l.standsFor declared = some unique := by
    intro declared unique
    rw [← l.lookup_spellings declared]
    exact (lookup_iff_mem (assignAll_distinct _)).symm
  have constrained : ∀ declared, (p.headOf l.declaring).constraints.lookup declared =
      (l.declaring.constraints.lookup declared).map (List.map (p.qualify l.declaring)) :=
    lookup_map_snd _ _
  rw [clauses, constraintClauses, List.mem_filterMap]
  constructor
  · rintro ⟨⟨declared, unique⟩, among, made⟩
    refine ⟨declared, unique, ?_⟩
    simp only [constrained] at made
    cases written : l.declaring.constraints.lookup declared with
    | none =>
      rw [written] at made
      cases made
    | some constraints =>
      cases constraints with
      | nil =>
        rw [written] at made
        cases made
      | cons first more =>
        refine ⟨first :: more, (paired declared unique).mp among, rfl, List.cons_ne_nil _ _, ?_⟩
        rw [written] at made
        rw [← Option.some.inj made, List.map_cons, List.map_map]
        rfl
  · rintro ⟨declared, unique, constraints, stands, written, filled, rfl⟩
    refine ⟨(declared, unique), (paired declared unique).mpr stands, ?_⟩
    obtain ⟨first, more, rfl⟩ := List.exists_cons_of_ne_nil filled
    simp only [constrained, written, Option.map_some, List.map_cons, List.map_map]
    rfl

/-- A character that may stand beside a simple name: none of a word, of a dotted or qualified name
or of a verbatim mark. -/
def standsBeside (c : Char) : Bool :=
  !(isPart c || Unicode.isWord c || c ∈ ['.', ':', '@'])

/-- An occurrence of a simple name in a constraint: an identifier, with or without `@`, that is no
part of a longer name, has no type arguments and, unmarked, is no word of the language. -/
structure SimpleName (constraint : String) where
  before : List Char
  marked : Bool
  name : String
  after : List Char
  written : constraint.toList = before ++ (if marked then ['@'] else []) ++ name.toList ++ after
  bare : isBare name = true
  opens : before.getLast?.all standsBeside = true
  closes : after.head?.all (fun c => standsBeside c && c ≠ '<') = true
  free : marked = false → name ∉ Identifier.reservedWords ∧ constraint ∉ constraintWords

namespace SimpleName

variable {constraint : String}

/-- In the text that a constraint is written as, this occurrence is spelled like an identifier,
marks aside, and what stands around it is written as it would be alone. -/
def IsSpelled (o : SimpleName constraint) (renames : List (String × String))
    (text identifier : String) : Prop :=
  ∃ spelling, text = renameWords renames (String.ofList o.before) ++ spelling ++
    renameWords renames (String.ofList o.after) ∧ plain spelling = plain identifier

def withMark (o : SimpleName constraint) (name : String) : String :=
  if o.marked then "@" ++ name else name

theorem constraint_eq (o : SimpleName constraint) :
    constraint = String.ofList (o.before ++ ((if o.marked then ['@'] else []) ++
      (o.name.toList ++ o.after))) := by
  have characters := o.written
  rw [List.append_assoc, List.append_assoc] at characters
  rw [← characters, String.ofList_toList]

theorem boundary_before (o : SimpleName constraint) (back : List Char) :
    IsBoundary o.before back := by
  rintro ⟨word, _⟩
  have opens := o.opens
  cases last : o.before.getLast? with
  | none => simp [last] at word
  | some c =>
    simp only [last, Option.any_some] at word
    simp [last, standsBeside, word] at opens

theorem boundary_after (o : SimpleName constraint) (front : List Char) :
    IsBoundary front o.after := by
  rintro ⟨_, word⟩
  have closes := o.closes
  cases first : o.after.head? with
  | none => simp [first] at word
  | some c =>
    simp only [first, Option.any_some] at word
    simp [first, standsBeside, word] at closes

theorem name_ne_empty (o : SimpleName constraint) : o.name ≠ "" := by
  intro empty
  have bare := o.bare
  rw [empty] at bare
  cases bare

/-- A constraint is written with the name spelled anew and the mark kept. -/
theorem renamed (o : SimpleName constraint) (renames : List (String × String))
    (wordy : ∀ c ∈ o.name.toList, Unicode.isWord c = true) :
    renameWords renames constraint = renameWords renames (String.ofList o.before) ++
      o.withMark ((renames.lookup o.name).getD o.name) ++
        renameWords renames (String.ofList o.after) := by
  have whole := congrArg (renameWords renames) o.constraint_eq
  have mark : Unicode.isWord '@' = false := by decide
  have marking : ∀ back, IsBoundary ['@'] back := by
    rintro back ⟨word, _⟩
    simp [mark] at word
  have named : renameWords renames (String.ofList o.name.toList) =
      (renames.lookup o.name).getD o.name := by
    rw [String.ofList_toList]
    exact renameWords_word renames o.name_ne_empty wordy
  rw [whole, renameWords_append renames (o.boundary_before _), withMark]
  cases o.marked with
  | false =>
    rw [if_neg Bool.false_ne_true, if_neg Bool.false_ne_true, List.nil_append,
      renameWords_append renames (o.boundary_after _), named, String.append_assoc]
  | true =>
    rw [if_pos rfl, if_pos rfl, renameWords_append renames (marking _),
      renameWords_sign renames mark, renameWords_append renames (o.boundary_after _), named]
    simp only [String.append_assoc]

theorem isSpelled_iff (o : SimpleName constraint) (renames : List (String × String))
    (wordy : ∀ c ∈ o.name.toList, Unicode.isWord c = true) (identifier : String) :
    o.IsSpelled renames (renameWords renames constraint) identifier ↔
      plain (o.withMark ((renames.lookup o.name).getD o.name)) = plain identifier := by
  rw [IsSpelled, o.renamed renames wordy]
  constructor
  · rintro ⟨spelling, same, spells⟩
    have same' : o.withMark ((renames.lookup o.name).getD o.name) = spelling := by
      simpa using same
    rw [same']
    exact spells
  · exact fun spells => ⟨_, rfl, spells⟩

end SimpleName

theorem characters_of_isDottedName {constraint : String} (dotted : isDottedName constraint = true)
    {c : Char} (held : c ∈ constraint.toList) : standsBeside c = false := by
  have part : ∀ cs, isDottedPart cs = true → ∀ c ∈ cs, standsBeside c = false := by
    intro cs named c among
    have word : ∀ ds : List Char,
        ds.all Unicode.isWord = true → c ∈ ds → standsBeside c = false := by
      intro ds all inside
      simp [standsBeside, List.all_eq_true.mp all c inside]
    unfold isDottedPart at named
    split at named
    · rcases List.mem_cons.mp among with rfl | inside
      · decide
      · exact word _ ((Bool.and_eq_true _ _).mp named).2 inside
    · exact word _ ((Bool.and_eq_true _ _).mp named).2 among
  have body : ∀ cs : List Char, (Text.splitAt '.' cs).all isDottedPart = true → ∀ c ∈ cs,
      standsBeside c = false := by
    intro cs named c among
    rcases Text.mem_splitAt '.' among with rfl | ⟨piece, cut, inside⟩
    · decide
    · exact part piece (List.all_eq_true.mp named piece cut) c inside
  simp only [isDottedName] at dotted
  split at dotted
  · rename_i rooted
    obtain ⟨rest, shape⟩ := List.isPrefixOf_iff_prefix.mp rooted
    rw [← shape] at dotted held
    rcases List.mem_append.mp held with root | inside
    · have signs : ∀ c ∈ "global::".toList, standsBeside c = false :=
        List.all_iff_forall_prop.mp (by decide)
      exact signs c root
    · exact body rest dotted c inside
  · exact body _ dotted c held

theorem qualify_of_not_dotted {constraint : String} (h : isDottedName constraint = false) :
    p.qualify t constraint = constraint := by
  rw [qualify, h, Bool.not_false, Bool.or_true, if_pos rfl]

/-- What is taken for a type of the program is a dotted name, and gets colons. -/
theorem qualify_cases (p : SourceProgram) (t : SourceType) (constraint : String) :
    p.qualify t constraint = constraint ∨
      isDottedName constraint = true ∧ ':' ∈ (p.qualify t constraint).toList := by
  cases dotted : isDottedName constraint with
  | false => exact Or.inl (qualify_of_not_dotted dotted)
  | true =>
    rw [qualify]
    split
    · exact Or.inl rfl
    · simp only
      split
      · split
        · refine Or.inr ⟨trivial, ?_⟩
          rw [String.toList_append]
          exact List.mem_append_left _ (by decide)
        · exact Or.inl rfl
      · exact Or.inl rfl

namespace SimpleName

variable {constraint : String}

theorem alone (o : SimpleName constraint) (dotted : isDottedName constraint = true) :
    o.before = [] ∧ o.after = [] := by
  have inside : ∀ c, c ∈ o.before ∨ c ∈ o.after → standsBeside c = false := by
    intro c held
    apply characters_of_isDottedName dotted
    rw [o.written]
    simp only [List.mem_append]
    exact held.imp (fun before => Or.inl (Or.inl before)) id
  constructor
  · refine Decidable.byContradiction fun filled => ?_
    have opens := o.opens
    rw [List.getLast?_eq_getLast_of_ne_nil filled, Option.all_some,
      inside _ (Or.inl (List.getLast_mem filled))] at opens
    cases opens
  · cases rest : o.after with
    | nil => rfl
    | cons c more =>
      have closes := o.closes
      rw [rest, List.head?_cons, Option.all_some,
        inside c (Or.inr (rest ▸ List.mem_cons_self))] at closes
      cases closes

/-- Where a constraint is taken for a type of the program, no identifier is spelled there. -/
theorem not_isSpelled (o : SimpleName constraint) (renames : List (String × String))
    {identifier : String} (legal : isLegal identifier = true)
    (taken : p.qualify t constraint ≠ constraint) :
    ¬o.IsSpelled renames (renameWords renames (p.qualify t constraint)) identifier := by
  obtain ⟨dotted, colon⟩ := (p.qualify_cases t constraint).resolve_left taken
  obtain ⟨before, after⟩ := o.alone dotted
  have colons := mem_renameWords renames (by decide) colon
  rintro ⟨spelling, same, spells⟩
  have nothing : renameWords renames (String.ofList []) = "" := by
    simp [renameWords, wordRuns]
  rw [before, after, nothing, String.empty_append, String.append_empty] at same
  rw [same] at colons
  have kept : ':' ∈ (plain spelling).toList := by
    rcases Identifier.toList_eq_plain spelling with unmarked | marked
    · exact unmarked ▸ colons
    · rw [marked, List.mem_cons] at colons
      exact colons.resolve_left (by decide)
  rw [spells] at kept
  have part := Identifier.isPart_of_isBareChars (Identifier.isBare_plain_of_isLegal legal) kept
  exact absurd part (by decide)

end SimpleName

theorem plain_withMark {constraint : String} (o : SimpleName constraint) (text : String) :
    plain (o.withMark text) = if o.marked then text else plain text := by
  rw [SimpleName.withMark]
  cases o.marked with
  | false => rfl
  | true => exact Identifier.plain_marked text

/-- A name in a constraint is spelled like the parameter that it means just when the constraint is
not taken for a type of the program and either the declaring type has the parameter, whose new name
has no mark where the old one is marked, or a type around has it and its name is the one that is
written. -/
theorem isSpelled_denoted_iff {l : Level} (held : l ∈ p.levels t) (above : List Level)
    (outer : ∀ l' ∈ above, l' ∈ p.levels t) {constraint : String} (o : SimpleName constraint)
    (wordy : ∀ c ∈ o.name.toList, Unicode.isWord c = true) {unique : String}
    (means : denoted (above ++ [l]) o.name = some unique) :
    o.IsSpelled (spellings l.declaring.parameters l.names) (p.spelled l constraint) unique ↔
      p.qualify l.declaring constraint = constraint ∧
        (o.name ∈ l.declaring.parameters → o.marked = true → plain unique = unique) ∧
        (o.name ∉ l.declaring.parameters → plain unique = o.name) := by
  have legal : isLegal unique = true := by
    have known : ∀ l' ∈ (above ++ [l]).reverse, l' ∈ p.levels t := by
      intro l' among
      rcases List.mem_append.mp (List.mem_reverse.mp among) with around | own
      · exact outer l' around
      · exact List.mem_singleton.mp own ▸ held
    obtain ⟨l', among, stands⟩ := List.exists_of_findSome?_eq_some means
    exact Level.legal (known l' among) (Level.mem_names stands)
  by_cases taken : p.qualify l.declaring constraint = constraint
  · rw [spelled, taken, o.isSpelled_iff _ wordy, Level.lookup_spellings, plain_withMark]
    rw [denoted_concat] at means
    cases own : l.standsFor o.name with
    | none =>
      have absent := (Level.standsFor_none_iff held).mp own
      have same : plain o.name = o.name := Identifier.plain_of_isBare o.bare
      simp only [Option.getD_none, same, ite_self]
      exact ⟨fun spells => ⟨trivial, fun declared => absurd declared absent, fun _ => spells.symm⟩,
        fun right => (right.2.2 absent).symm⟩
    | some name =>
      have declared : o.name ∈ l.declaring.parameters := by
        refine Decidable.byContradiction fun absent => ?_
        rw [(Level.standsFor_none_iff held).mpr absent] at own
        cases own
      rw [own, Option.some_or, Option.some_inj] at means
      subst means
      rw [Option.getD_some]
      cases o.marked with
      | false =>
        simp only [Bool.false_eq_true, if_false, true_iff]
        exact ⟨trivial, fun _ marked => absurd marked nofun, fun absent => absurd declared absent⟩
      | true =>
        simp only [if_true]
        exact ⟨fun spells =>
          ⟨trivial, fun _ _ => spells.symm, fun absent => absurd declared absent⟩,
          fun right => (right.2.1 declared trivial).symm⟩
  · constructor
    · exact fun spells => absurd spells (o.not_isSpelled _ legal taken)
    · exact fun right => absurd right.1 taken

/-- The unit of a source type declares the names of all levels and states the clauses of all levels,
outermost first. -/
theorem unit_clauses {access : Access} {exposure : Exposure} {identity? : Option String}
    {u : UnitView} (h : (p.described t).unit access exposure identity? = some u) :
    u.parameters = parameterList ((p.levels t).flatMap Level.names) ∧
      u.constraints = String.join ((p.levels t).flatMap p.clauses) := by
  have parameterized : (p.described t).view.parameterized =
      (p.levels t).map fun l => (p.headOf l.declaring, l.names) := p.view_parameterized t
  simp only [Resolved.unit] at h
  split at h
  · cases h
  · cases h
    simp only [parameterized, List.flatMap_map]
    exact ⟨trivial, rfl⟩

/-- Whatever the parameters and constraints of a source type and the types around it are called,
each clause is for the name that stands for the declared parameter. A name in a constraint is
spelled like the parameter that it means just when the constraint is not taken for a type of the
program and either the declaring type has the parameter, whose new name has no mark where the old
one is marked, or a type around has it and its name in the extension block is the one that is
written. -/
theorem clause_names_iff (p : SourceProgram) (t : SourceType) {above below : List Level} {l : Level}
    (place : p.levels t = above ++ l :: below) :
    (p.levels t).map Level.declaring = p.chainOf t ∧
    (∀ access exposure identity? u, (p.described t).unit access exposure identity? = some u →
      u.parameters = parameterList ((p.levels t).flatMap Level.names) ∧
        u.constraints = String.join ((p.levels t).flatMap p.clauses)) ∧
    (∀ clause, clause ∈ p.clauses l ↔
      ∃ declared unique constraints, l.standsFor declared = some unique ∧
        l.declaring.constraints.lookup declared = some constraints ∧ constraints ≠ [] ∧
        clause = " where " ++ unique ++ " : " ++ ", ".intercalate (constraints.map (p.spelled l))) ∧
    (∀ constraint (o : SimpleName constraint) unique,
      (∀ c ∈ o.name.toList, Unicode.isWord c = true) →
      denoted (above ++ [l]) o.name = some unique →
      (o.IsSpelled (spellings l.declaring.parameters l.names) (p.spelled l constraint) unique ↔
        p.qualify l.declaring constraint = constraint ∧
          (o.name ∈ l.declaring.parameters → o.marked = true → plain unique = unique) ∧
          (o.name ∉ l.declaring.parameters → plain unique = o.name))) := by
  have held : l ∈ p.levels t := place ▸ List.mem_append_right above List.mem_cons_self
  have outer : ∀ l' ∈ above, l' ∈ p.levels t := by
    intro l' among
    rw [place]
    exact List.mem_append_left _ among
  refine ⟨p.levels_declaring t, fun _ _ _ _ => unit_clauses, fun _ => mem_clauses, ?_⟩
  intro constraint o unique wordy means
  exact isSpelled_denoted_iff held above outer o wordy means

/-- Three types, each in the one before. The inner two have constraints on a name that the outer two
declare. -/
def repeatedParameters : SourceProgram :=
  ({} : SourceProgram).addSource
    ("public class A<T> " ++
      "{ public class B<T> where T : I<T> { public class C<U> where U : I<T> { int x; } } }")
    "a.cs"

def outermost : SourceType where
  name := "A"
  kind := .classKind
  visibility := .pub
  parameters := ["T"]

def middle : SourceType where
  outer := [("A", 1)]
  name := "B"
  kind := .classKind
  visibility := .pub
  parameters := ["T"]
  constraints := [("T", ["I<T>"])]

def innermost : SourceType where
  outer := [("A", 1), ("B", 1)]
  name := "C"
  kind := .classKind
  visibility := .pub
  parameters := ["U"]
  constraints := [("U", ["I<T>"])]
  members := [{ name := "x", kind := .field, visibility := .priv }]

def argumentName : SimpleName "I<T>" where
  before := ['I', '<']
  marked := false
  name := "T"
  after := ['>']
  written := by decide
  bare := by decide
  opens := by decide
  closes := by decide
  free := by decide

theorem levels_of_repeated : repeatedParameters.levels innermost =
    [⟨outermost, ["T"]⟩, ⟨middle, ["T_2"]⟩, ⟨innermost, ["U"]⟩] := by decide +kernel

theorem argument_of_constraint_spelled :
    denoted [⟨outermost, ["T"]⟩, ⟨middle, ["T_2"]⟩] argumentName.name = some "T_2" ∧
      argumentName.IsSpelled (spellings middle.parameters ["T_2"])
        (repeatedParameters.spelled ⟨middle, ["T_2"]⟩ "I<T>") "T_2" := by
  have place : repeatedParameters.levels innermost =
      [⟨outermost, ["T"]⟩] ++ ⟨middle, ["T_2"]⟩ :: [⟨innermost, ["U"]⟩] := levels_of_repeated
  have means : denoted ([⟨outermost, ["T"]⟩] ++ [⟨middle, ["T_2"]⟩]) argumentName.name =
      some "T_2" := by decide
  have kept : repeatedParameters.qualify middle "I<T>" = "I<T>" := qualify_of_not_dotted (by decide)
  have spelled := (clause_names_iff repeatedParameters innermost place).2.2.2
  have wordy : ∀ c ∈ argumentName.name.toList, Unicode.isWord c = true :=
    List.all_eq_true.mp (by decide)
  exact ⟨means, (spelled "I<T>" argumentName "T_2" wordy means).mpr ⟨kept, by decide, by decide⟩⟩

/-- The innermost type's constraint means the parameter of the type around it, which is called `T_2`
in the extension block, and its clause says `T`. -/
theorem argument_of_constraint_misspelled :
    ∃ u, (repeatedParameters.described innermost).unit = some u ∧
      u.parameters = "<T, T_2, U>" ∧
      u.constraints = " where T_2 : I<T_2> where U : I<T>" ∧
      repeatedParameters.levels innermost =
        [⟨outermost, ["T"]⟩, ⟨middle, ["T_2"]⟩, ⟨innermost, ["U"]⟩] ∧
      denoted (repeatedParameters.levels innermost) argumentName.name = some "T_2" ∧
      ¬argumentName.IsSpelled (spellings innermost.parameters ["U"])
        (repeatedParameters.spelled ⟨innermost, ["U"]⟩ "I<T>") "T_2" := by
  have shape : ((repeatedParameters.described innermost).unit).map
      (fun u => (u.parameters, u.constraints)) =
        some ("<T, T_2, U>", " where T_2 : I<T_2> where U : I<T>") := by
    decide +kernel
  have kept : repeatedParameters.qualify innermost "I<T>" = "I<T>" :=
    qualify_of_not_dotted (by decide)
  obtain ⟨u, built, parts⟩ := Option.map_eq_some_iff.mp shape
  obtain ⟨parameters, constraints⟩ := Prod.mk.inj parts
  refine ⟨u, built, parameters, constraints, levels_of_repeated, ?_, ?_⟩
  · rw [levels_of_repeated]
    decide
  · rw [spelled, kept, argumentName.isSpelled_iff _ (List.all_eq_true.mp (by decide))]
    decide

end SourceProgram

end HiddenNames
