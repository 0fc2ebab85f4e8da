import HiddenNames.Proofs.Marker.Literals
import HiddenNames.Proofs.Surface.Clauses
import HiddenNames.Proofs.Surface.Layout
import HiddenNames.Proofs.Surface.Spaces

/-!
Names that break the lines of a generated file. Names are legal identifiers where they are declared,
but members are shown in literals and types in comments too. There a text keeps the lines of its
unit just when no type of it has a line break in its name and no member one of the three line ends
that literals leave as they are.
-/

namespace HiddenNames

open Identifier (AreApart Scope isLegal isPart plain)
open Text (Unbroken isLineBreak isTerminator sourceLines unbroken_append unbroken_intercalate)

/-! Identifiers. -/

def Text.breakers : List Char :=
  ['\n', '\r', '\x0b', '\x0c', '\x1c', '\x1d', '\x1e', '\u0085', '\u2028', '\u2029']

theorem Text.isLineBreak_of {kind : Char → Bool} (none : breakers.all (fun d => !kind d) = true)
    {c : Char} (h : kind c = true) : isLineBreak c = false := by
  rw [← Bool.not_eq_true]
  intro isBreak
  have other := List.all_eq_true.mp none c (of_decide_eq_true isBreak)
  rw [h] at other
  cases other

theorem Text.isLineBreak_of_isPart {c : Char} (h : isPart c = true) : isLineBreak c = false :=
  isLineBreak_of (by decide +kernel) h

theorem Text.isLineBreak_of_isWord {c : Char} (h : Unicode.isWord c = true) :
    isLineBreak c = false := isLineBreak_of (by decide +kernel) h

theorem unbroken_of_isLegal {name : String} (h : isLegal name = true) :
    Unbroken isLineBreak name := by
  have bare := Identifier.isBare_plain_of_isLegal h
  have parts : ∀ c ∈ (plain name).toList, isLineBreak c = false :=
    fun c held => Text.isLineBreak_of_isPart (Identifier.isPart_of_isBareChars bare held)
  intro c held
  rcases Identifier.toList_eq_plain name with unmarked | marked
  · exact parts c (unmarked ▸ held)
  · rw [marked] at held
    rcases List.mem_cons.mp held with rfl | inside
    · decide
    · exact parts c inside

theorem unbroken_parameterList {names : List String} (h : ∀ name ∈ names, isLegal name = true) :
    Unbroken isLineBreak (parameterList names) := by
  rw [parameterList]
  split
  · decide
  · rw [unbroken_append, unbroken_append, unbroken_intercalate (by decide)]
    exact ⟨⟨by decide, fun name held => unbroken_of_isLegal (h name held)⟩, by decide⟩

theorem unbroken_flatten (name : String) : Unbroken isLineBreak (Identifier.flatten name) := by
  intro c held
  rw [Identifier.flatten, String.toList_ofList] at held
  obtain ⟨d, _, rfl⟩ := List.mem_map.mp held
  split
  · rename_i word
    exact Text.isLineBreak_of_isWord word
  · decide

/-! Literals. -/

def CSharp.Literal.isLeft (c : Char) : Bool := c ∈ ['\u0085', '\u2028', '\u2029']

theorem CSharp.Literal.escape_unbroken {spaced : Bool} (c : Char) :
    Unbroken (breaksIn spaced) (String.ofList (escape c)) ↔ isLeft c = false := by
  by_cases special : c ∈ ['\\', '"', '\n', '\r', '\t']
  · have fixed : ∀ d ∈ ['\\', '"', '\n', '\r', '\t'],
        Unbroken isLineBreak (String.ofList (escape d)) ∧ isLeft d = false :=
      List.all_iff_forall_prop.mp (by decide)
    obtain ⟨written, escaped⟩ := fixed c special
    rw [unbroken_fixed written, escaped, eq_self]
  · simp only [List.mem_cons, List.not_mem_nil, or_false, not_or] at special
    obtain ⟨slash, quote, feed, back, tab⟩ := special
    rw [escape, if_neg slash, if_neg quote, if_neg feed, if_neg back, if_neg tab]
    by_cases control : c.toNat < 0x20
    · have written : ∀ n < 0x20,
          Unbroken isLineBreak (String.ofList ('\\' :: 'u' :: (Text.hex 4 n).toList)) := by decide
      have escaped : isLeft c = false := by
        rw [← Bool.not_eq_true]
        intro left
        have large : ∀ d ∈ ['\u0085', '\u2028', '\u2029'], 0x20 ≤ d.toNat :=
          List.all_iff_forall_prop.mp (by decide)
        exact absurd (large c (of_decide_eq_true left)) (Nat.not_le.mpr control)
      rw [if_pos control, unbroken_fixed (written _ control), escaped, eq_self]
    · rw [if_neg control]
      have large : ∀ d ∈ ['\x0b', '\x0c', '\x1c', '\x1d', '\x1e'], c ≠ d := by
        have small : ∀ d ∈ ['\x0b', '\x0c', '\x1c', '\x1d', '\x1e'], d.toNat < 0x20 :=
          List.all_iff_forall_prop.mp (by decide)
        exact fun d held same => control (same ▸ small d held)
      have same : breaksIn spaced c = isLeft c := by
        simp only [List.forall_mem_cons] at large
        cases spaced
        · simp [breaksIn, isTerminator, isLeft, feed, back]
        · simp [breaksIn, isLineBreak, isLeft, feed, back, large]
      simp [Unbroken, same]

theorem CSharp.Literal.regular_unbroken {spaced : Bool} {s : String} :
    Unbroken (breaksIn spaced) (regular s) ↔ Unbroken isLeft s := by
  have quote : breaksIn spaced '"' = false := by
    cases spaced <;> decide
  rw [Unbroken, toList_regular]
  simp only [List.cons_append, List.forall_mem_cons, List.forall_mem_append,
    List.forall_mem_flatMap, quote, List.not_mem_nil, false_imp_iff, implies_true, and_true,
    true_and]
  refine forall₂_congr fun c _ => ?_
  have one : Unbroken (breaksIn spaced) (String.ofList (escape c)) ↔ isLeft c = false :=
    escape_unbroken c
  rw [Unbroken, String.toList_ofList] at one
  exact one

/-! Types. -/

namespace TypeView

variable {spaced : Bool} {v : TypeView}

theorem metadataName_unbroken {head : TypeHead} :
    Unbroken (breaksIn spaced) head.metadataName ↔ Unbroken (breaksIn spaced) head.name := by
  have digits : Unbroken isLineBreak (toString head.arity) := by
    intro c held
    have shape : (toString head.arity).toList = Nat.toDigits 10 head.arity := String.toList_ofList
    have digit : c.isDigit = true :=
      Nat.isDigit_of_mem_toDigits (by decide) (by decide) (shape ▸ held)
    exact Text.isLineBreak_of_isPart (Identifier.isPart_of_isDigit digit)
  have mark : Unbroken isLineBreak (String.ofList [arityMark]) := by decide
  rw [TypeHead.metadataName, withArity]
  split
  · rfl
  · rw [unbroken_append, unbroken_append, unbroken_fixed digits, unbroken_fixed mark, and_true,
      and_true]

/-- The full name of a type is broken where its namespace or a name of its chain is. -/
theorem fullName_unbroken : Unbroken (breaksIn spaced) v.fullName ↔
    (∀ space, namedSpace v.space? = some space → Unbroken (breaksIn spaced) space) ∧
      ∀ head ∈ v.chain, Unbroken (breaksIn spaced) head.name := by
  have plus : Unbroken (breaksIn spaced) "+" := Text.Unbroken.breaksIn (by decide) spaced
  have chain : Unbroken (breaksIn spaced) ("+".intercalate (v.chain.map TypeHead.metadataName)) ↔
      ∀ head ∈ v.chain, Unbroken (breaksIn spaced) head.name := by
    rw [unbroken_intercalate plus, List.forall_mem_map]
    exact forall₂_congr fun head _ => metadataName_unbroken
  rw [fullName, fullNameOf, qualified]
  cases namedSpace v.space? with
  | none =>
    simp only [chain, reduceCtorEq, false_imp_iff, implies_true, true_and]
  | some space =>
    have dot : Unbroken (breaksIn spaced) "." := Text.Unbroken.breaksIn (by decide) spaced
    simp only [unbroken_append, chain, Option.some_inj, forall_eq', iff_true_intro dot, and_true]

theorem names_isLegal {head : TypeHead} {names : List String}
    (held : (head, names) ∈ v.parameterized) : ∀ name ∈ names, isLegal name = true := by
  obtain ⟨_, before, rfl⟩ := claimed_of_mem held
  exact (before.claimAll_apart head.parameters).legal

theorem expression_unbroken
    (space : ∀ space, namedSpace v.space? = some space → Unbroken (breaksIn spaced) space) :
    Unbroken (breaksIn spaced) v.expression := by
  have dot : Unbroken (breaksIn spaced) "." := Text.Unbroken.breaksIn (by decide) spaced
  have chain : Unbroken (breaksIn spaced) (".".intercalate (v.parameterized.map fun entry =>
      Identifier.legalize entry.1.name ++ parameterList entry.2)) := by
    rw [unbroken_intercalate dot, List.forall_mem_map]
    rintro ⟨head, names⟩ held
    apply Text.Unbroken.breaksIn
    rw [unbroken_append]
    exact ⟨unbroken_of_isLegal (Identifier.isLegal_legalize head.name),
      unbroken_parameterList (names_isLegal held)⟩
  rw [expression, unbroken_append, unbroken_fixed (by decide), true_and, qualified]
  cases named : namedSpace v.space? with
  | none => exact chain
  | some text =>
    simp only [unbroken_append]
    exact ⟨⟨space text named, dot⟩, chain⟩

theorem stubLevels_unbroken : ∀ level ∈ v.stubLevels, level.IsUnbroken := by
  rw [stubLevels, List.forall_mem_map]
  rintro ⟨head, names⟩ held
  constructor
  · have written : ∀ kind : TypeKind, Unbroken isLineBreak kind.text := by
      intro kind
      cases kind <;> decide
    exact written head.kind
  · exact unbroken_of_isLegal (Identifier.isLegal_legalize head.name)
  · exact unbroken_parameterList (names_isLegal held)

end TypeView

/-- The constraints of a type's parameters do not break a line of the clauses made of them. -/
theorem constraintClauses_unbroken {head : TypeHead} {names : List String}
    (legal : ∀ name ∈ names, isLegal name = true)
    (constraints : ∀ entry ∈ head.constraints, ∀ part ∈ entry.2, Unbroken isLineBreak part) :
    ∀ clause ∈ constraintClauses head names, Unbroken isLineBreak clause := by
  have given : ∀ entry ∈ spellings head.parameters names, Unbroken isLineBreak entry.2 := by
    intro entry held
    have among := (List.of_mem_zip (mem_of_mem_assignAll held)).2
    exact unbroken_of_isLegal (legal entry.2 among)
  have spelled : ∀ part, Unbroken isLineBreak part →
      Unbroken isLineBreak (renameWords (spellings head.parameters names) part) := by
    intro part plain c held
    rcases mem_of_mem_renameWords _ held with kept | ⟨entry, among, inside⟩
    · exact plain c kept
    · exact given entry among c inside
  intro clause held
  obtain ⟨⟨declared, name⟩, among, made⟩ := List.mem_filterMap.mp held
  simp only at made
  split at made
  · rename_i part more found
    have written := constraints _ (mem_of_lookup found)
    rw [← Option.some.inj made, unbroken_append, unbroken_append, unbroken_append,
      unbroken_intercalate (by decide), List.forall_mem_map]
    refine ⟨⟨⟨by decide, given _ among⟩, by decide⟩, fun text inside => ?_⟩
    exact spelled text (written text inside)
  · cases made

/-! Units. -/

namespace ContainerTree

theorem isLegal_name {outlook : Outlook} {target : TypeView} {reserved : List String}
    {node : Container} (held : node ∈ (ofTarget target outlook reserved).nodes) :
    isLegal node.name = true :=
  (ofTarget_apart outlook target reserved).legal node.name (List.mem_map_of_mem held)

theorem mem_of_mem_filterMap_get? {tree : ContainerTree} {keys : List String} {node : Container}
    (h : node ∈ keys.filterMap tree.get?) : node ∈ tree.nodes := by
  obtain ⟨key, _, found⟩ := List.mem_filterMap.mp h
  exact List.mem_of_find?_eq_some found

end ContainerTree

namespace Resolved

variable {r : Resolved} {access : Access} {exposure : Exposure} {identity? : Option String}
  {u : UnitView}

theorem unit_target (h : r.unit access exposure identity? = some u) :
    u.space? = r.view.space? ∧ u.display = r.view.fullName ∧ u.target = r.view.expression ∧
      u.constraints = String.join (r.view.parameterized.flatMap fun entry =>
        constraintClauses entry.1 entry.2) ∧
      ∀ level ∈ u.stub, level ∈ r.view.stubLevels := by
  simp only [unit] at h
  split at h
  · cases h
  · cases h
    refine ⟨rfl, rfl, rfl, rfl, fun level held => ?_⟩
    simp only at held
    split at held
    · exact held
    · cases held

theorem unit_wrapper_unbroken (h : r.unit access exposure identity? = some u)
    (given : ∀ identity, namedSpace identity? = some identity → Unbroken isLineBreak identity) :
    Unbroken isLineBreak u.wrapper := by
  have identity : Unbroken isLineBreak (r.identityOr identity?) := by
    rw [identityOr]
    cases named : namedSpace identity? with
    | none => exact unbroken_flatten _
    | some identity => exact given identity named
  rw [(unit_shows h).wrapper_named, wrapperName, unbroken_append]
  exact ⟨by decide, identity⟩

/-- Around the names that it shows, a unit has nothing that breaks a line, if neither the identity
that it is given nor a constraint does. -/
theorem unit_framed (h : r.unit access exposure identity? = some u)
    (given : ∀ identity, namedSpace identity? = some identity → Unbroken isLineBreak identity)
    (constraints : ∀ head ∈ r.view.chain, ∀ entry ∈ head.constraints, ∀ part ∈ entry.2,
      Unbroken isLineBreak part) : u.IsFramed := by
  obtain ⟨_, _, _, clauses, stub⟩ := unit_target h
  obtain ⟨extension, parameters⟩ := unit_extension h
  obtain ⟨_, roots⟩ := unit_properties h
  obtain ⟨containers, _⟩ := unit_containers h
  have identifier :
      ∀ text ∈ u.accessors.map Accessor.identifier ++ u.forwards.map Forward.identifier,
      Unbroken isLineBreak text := fun text held => unbroken_of_isLegal (extension.legal text held)
  rw [List.forall_mem_append, List.forall_mem_map, List.forall_mem_map] at identifier
  constructor
  · exact unit_wrapper_unbroken h given
  · rw [parameters, TypeView.extensionParameters_eq]
    exact unbroken_parameterList ((Scope.ofReserved []).claimAll_apart _).legal
  · rw [clauses, Unbroken, String.toList_join, List.forall_mem_flatMap, List.forall_mem_flatMap]
    rintro ⟨head, names⟩ held
    have known : head ∈ r.view.chain := (claimed_of_mem held).1
    exact constraintClauses_unbroken (TypeView.names_isLegal held) (constraints head known)
  · exact identifier.1
  · intro f held
    refine ⟨identifier.2 f held, ?_⟩
    have leads : f.container ∈ u.forwards.map Forward.container := List.mem_map_of_mem held
    rw [roots] at leads
    obtain ⟨node, root, same⟩ := List.mem_map.mp leads
    rw [← same]
    have known := ContainerTree.mem_of_mem_filterMap_get? root
    exact unbroken_of_isLegal (ContainerTree.isLegal_name known)
  · intro c held
    rw [containers] at held
    obtain ⟨node, among, rfl⟩ := ContainerTree.mem_views.mp held
    have own := ((r.containers exposure identity?).viewOf_apart node).legal
    rw [List.forall_mem_append, List.forall_mem_map, List.forall_mem_map] at own
    refine ⟨unbroken_of_isLegal (ContainerTree.isLegal_name among),
      fun a inside => unbroken_of_isLegal (own.1 a inside), fun f inside => ?_⟩
    refine ⟨unbroken_of_isLegal (own.2 f inside), ?_⟩
    have leads : f.container ∈ ((r.containers exposure identity?).viewOf node).forwards.map
        Forward.container := List.mem_map_of_mem inside
    rw [ContainerTree.viewOf, claimProperties_containers] at leads
    obtain ⟨child, below, same⟩ := List.mem_map.mp leads
    rw [← same]
    have known := ContainerTree.mem_of_mem_filterMap_get? below
    exact unbroken_of_isLegal (ContainerTree.isLegal_name known)
  · exact fun level held => TypeView.stubLevels_unbroken level (stub level held)

def isSpaced (r : Resolved) : Bool := (namedSpace r.view.space?).isSome

/-- No namespace, type or container of a target has a character in its name that breaks a line of
its text, and no member shown has one of the line ends that literals leave as they are. -/
structure NamesUnbroken (r : Resolved) (exposure : Exposure) (identity? : Option String) :
    Prop where
  space : ∀ space, namedSpace r.view.space? = some space → Unbroken isLineBreak space
  chain : ∀ head ∈ r.view.chain, Unbroken (breaksIn r.isSpaced) head.name
  members : ∀ name ∈ r.view.hiddenNames, Unbroken CSharp.Literal.isLeft name
  inside : ∀ node ∈ (r.containers exposure identity?).nodes,
    Unbroken (breaksIn r.isSpaced) node.simpleName ∧
      ∀ name ∈ node.members, Unbroken CSharp.Literal.isLeft name

def HasLine (lines : List (List Char)) (text : String) : Prop :=
  ∃ margin, (∀ c ∈ margin, c = ' ') ∧ margin ++ text.toList ∈ lines

def Denotes (literal text : String) : Prop :=
  ∃ inside, literal.toList = '"' :: inside ++ ['"'] ∧ Marker.Escaped inside ∧
    CSharp.Literal.readRegular inside = .ok text.toList

def ShowsMember (lines : List (List Char)) (modifiers : String) (a : Accessor) (name : String) :
    Prop :=
  HasLine lines (modifiers ++ "string " ++ a.identifier ++ " => " ++ a.value ++ ";") ∧
    Denotes a.value name

/-- The lines of a unit's text are whole: those of accessors, those of comments that show a type's
name, and there are as many as the unit's shape tells. -/
structure KeepsLines (r : Resolved) (exposure : Exposure) (identity? : Option String)
    (u : UnitView) : Prop where
  accessors : List.Forall₂ (ShowsMember (sourceLines u.text) "public static ") u.accessors
    r.view.hiddenNames
  inside :
    ∀ c ∈ u.containers, ∃ node ∈ (r.containers exposure identity?).nodes, c.name = node.name ∧
    List.Forall₂ (ShowsMember (sourceLines u.text) "public ") c.accessors node.members
  summary : HasLine (sourceLines u.text) ("/// " ++
    ("Auto-generated names of the non-accessible members of " ++ markupSafe u.display ++ "."))
  summaries : ∀ c ∈ u.containers, HasLine (sourceLines u.text) ("/// " ++
    ("Auto-generated names of the non-accessible members of nested type " ++ markupSafe c.summary ++
      "."))
  count : (sourceLines u.text).length = u.shape.lineCount

/-- The values of accessors are broken where a name that they show has a line end left. -/
theorem values_unbroken {spaced : Bool} {accessors : List Accessor} {names : List String}
    (values : accessors.map Accessor.value = names.map CSharp.Literal.regular) :
    (∀ a ∈ accessors, Unbroken (breaksIn spaced) a.value) ↔
      ∀ name ∈ names, Unbroken CSharp.Literal.isLeft name := by
  calc (∀ a ∈ accessors, Unbroken (breaksIn spaced) a.value)
      ↔ ∀ text ∈ accessors.map Accessor.value, Unbroken (breaksIn spaced) text := by
        rw [List.forall_mem_map]
    _ ↔ ∀ name ∈ names, Unbroken (breaksIn spaced) (CSharp.Literal.regular name) := by
        rw [values, List.forall_mem_map]
    _ ↔ ∀ name ∈ names, Unbroken CSharp.Literal.isLeft name :=
        forall₂_congr fun _ _ => CSharp.Literal.regular_unbroken

theorem isLeft_unbroken {spaced : Bool} {text : String} (h : Unbroken (breaksIn spaced) text) :
    Unbroken CSharp.Literal.isLeft text := by
  intro c held
  rw [← Bool.not_eq_true]
  intro left
  have ends : ∀ d ∈ ['\u0085', '\u2028', '\u2029'], breaksIn spaced d = true :=
    List.all_iff_forall_prop.mp (by cases spaced <;> decide)
  have plain := h c held
  rw [ends c (of_decide_eq_true left)] at plain
  cases plain

theorem keepsPlan_iff (h : r.unit access exposure identity? = some u) (framed : u.IsFramed) :
    u.KeepsPlan ↔ r.NamesUnbroken exposure identity? := by
  obtain ⟨space, display, target, _, _⟩ := unit_target h
  obtain ⟨values, _⟩ := unit_properties h
  obtain ⟨containers, _⟩ := unit_containers h
  have spaced : u.spaced = r.isSpaced := by rw [UnitView.spaced, space, isSpaced]
  have body := framed.bodyLines_unbroken u.spaced
  rw [spaced, display, target, TypeView.fullName_unbroken, values_unbroken values] at body
  have within : (∀ space, namedSpace r.view.space? = some space →
      Unbroken (breaksIn r.isSpaced) space) ↔
        ∀ space, namedSpace r.view.space? = some space → Unbroken isLineBreak space := by
    refine forall₂_congr fun text named => ?_
    rw [isSpaced, named]
    rfl
  have shown : (∀ c ∈ u.containers, Unbroken (breaksIn r.isSpaced) c.summary ∧
      Unbroken (breaksIn r.isSpaced) c.display ∧
        ∀ a ∈ c.accessors, Unbroken (breaksIn r.isSpaced) a.value) ↔
      ∀ node ∈ (r.containers exposure identity?).nodes,
        Unbroken (breaksIn r.isSpaced) node.simpleName ∧
          ∀ name ∈ node.members, Unbroken CSharp.Literal.isLeft name := by
    have one : ∀ node, (Unbroken (breaksIn r.isSpaced) node.simpleName ∧
        Unbroken (breaksIn r.isSpaced) (CSharp.Literal.regular node.simpleName) ∧
          ∀ a ∈ ((r.containers exposure identity?).viewOf node).accessors,
            Unbroken (breaksIn r.isSpaced) a.value) ↔
        Unbroken (breaksIn r.isSpaced) node.simpleName ∧
          ∀ name ∈ node.members, Unbroken CSharp.Literal.isLeft name := by
      intro node
      rw [values_unbroken (ContainerTree.viewOf_values _ node), CSharp.Literal.regular_unbroken]
      constructor
      · rintro ⟨name, _, members⟩
        exact ⟨name, members⟩
      · rintro ⟨name, members⟩
        exact ⟨name, isLeft_unbroken name, members⟩
    rw [containers]
    constructor
    · intro all node held
      exact (one node).mp (all _ (ContainerTree.mem_views.mpr ⟨node, held, rfl⟩))
    · intro all c held
      obtain ⟨node, among, rfl⟩ := ContainerTree.mem_views.mp held
      exact (one node).mpr (all node among)
  rw [within, shown] at body
  constructor
  · intro kept
    have clean := kept.body
    rw [spaced] at clean
    obtain ⟨⟨space, chain⟩, _, members, inside⟩ := body.mp clean
    exact ⟨space, chain, members, inside⟩
  · rintro ⟨unbroken, chain, members, inside⟩
    constructor
    · rw [space]
      exact fun text named => (unbroken text named).terminators
    · rw [spaced]
      exact body.mpr ⟨⟨unbroken, chain⟩, TypeView.expression_unbroken (within.mpr unbroken),
        members, inside⟩

theorem denotes_regular (text : String) : Denotes (CSharp.Literal.regular text) text :=
  ⟨text.toList.flatMap CSharp.Literal.escape, CSharp.Literal.toList_regular text,
    CSharp.Literal.escaped_escape text.toList, CSharp.Literal.readRegular_escape text.toList⟩

/-- A line of the body stands in the text, shifted when the target is in a namespace. -/
theorem hasLine_of_body (kept : u.KeepsPlan) (framed : u.IsFramed) (margin : String) {text : String}
    (blank : ∀ c ∈ margin.toList, c = ' ') (filled : text ≠ "")
    (planned : margin ++ text ∈ u.bodyLines) : HasLine (sourceLines u.text) text := by
  have line : ∃ front : List Char, (∀ c ∈ front, c = ' ') ∧
      String.ofList front ++ (margin ++ text) ∈ u.plannedLines := by
    rw [UnitView.plannedLines]
    cases namedSpace u.space? with
    | none =>
      refine ⟨[], List.forall_mem_nil _, List.mem_append_left _ (List.mem_append_right _ ?_)⟩
      rw [String.ofList_nil, String.empty_append]
      exact planned
    | some space =>
      refine ⟨List.replicate 4 ' ', fun c held => List.eq_of_mem_replicate held, ?_⟩
      have shifted : Text.shift 4 (margin ++ text) =
          String.ofList (List.replicate 4 ' ') ++ (margin ++ text) := by
        rw [Text.shift, if_neg (by simp [filled])]
        rfl
      have held := List.mem_map_of_mem (f := Text.shift 4) planned
      rw [shifted] at held
      exact List.mem_append_left _ (List.mem_append_right _
        (List.mem_append_left _ (List.mem_append_right _ held)))
  obtain ⟨front, blanks, held⟩ := line
  refine ⟨front ++ margin.toList, List.forall_mem_append.mpr ⟨blanks, blank⟩, ?_⟩
  rw [kept.lines framed.stub]
  have among := List.mem_map_of_mem (f := String.toList) held
  simpa using among

theorem forall₂_of_map_eq {α β γ : Type} {f : α → γ} {g : β → γ} {P : α → Prop} :
    ∀ {items : List α} {others : List β}, items.map f = others.map g → (∀ a ∈ items, P a) →
      List.Forall₂ (fun a b => f a = g b ∧ P a) items others
  | [], [], _, _ => .nil
  | a :: items, b :: others, same, all => by
    rw [List.map_cons, List.map_cons, List.cons.injEq] at same
    rw [List.forall_mem_cons] at all
    exact .cons ⟨same.1, all.1⟩ (forall₂_of_map_eq same.2 all.2)

theorem mem_summaryLines (margin text : String) :
    margin ++ ("/// " ++ text) ∈ summaryLines margin text := by
  rw [← String.append_assoc]
  exact List.mem_cons_of_mem _ List.mem_cons_self

/-- Accessors whose lines are in the body are shown, each with the name that its value is made
of. -/
theorem showsMembers {modifiers : String} (kept : u.KeepsPlan) (framed : u.IsFramed)
    {accessors : List Accessor} {names : List String}
    (values : accessors.map Accessor.value = names.map CSharp.Literal.regular)
    (planned : ∀ a ∈ accessors, a.line modifiers ∈ u.bodyLines) :
    List.Forall₂ (ShowsMember (sourceLines u.text) modifiers) accessors names := by
  have lines : ∀ a ∈ accessors, HasLine (sourceLines u.text)
      (modifiers ++ "string " ++ a.identifier ++ " => " ++ a.value ++ ";") := by
    intro a held
    apply hasLine_of_body kept framed "        " (List.all_iff_forall_prop.mp (by decide)) (by simp)
    have line := planned a held
    simp only [Accessor.line, String.append_assoc] at line ⊢
    exact line
  refine (forall₂_of_map_eq values lines).imp fun a name shown => ⟨shown.2, ?_⟩
  rw [shown.1]
  exact denotes_regular name

/-- Whatever a target's types and members are called, the lines of its text are whole just when its
namespace and its types have no line break in their names and its members no line end that literals
leave as it is. Outside of a namespace only the line ends of source text are line breaks. -/
theorem keeps_lines_iff (h : r.unit access exposure identity? = some u)
    (given : ∀ identity, namedSpace identity? = some identity → Unbroken isLineBreak identity)
    (constraints : ∀ head ∈ r.view.chain, ∀ entry ∈ head.constraints, ∀ part ∈ entry.2,
      Unbroken isLineBreak part) :
    r.render access exposure identity? = some u.text ∧
      (r.KeepsLines exposure identity? u ↔ r.NamesUnbroken exposure identity?) := by
  have framed := unit_framed h given constraints
  have counted := framed.lineCount_iff
  rw [keepsPlan_iff h framed] at counted
  refine ⟨by rw [render, h, Option.map_some], fun kept => counted.mp kept.count, fun names => ?_⟩
  have kept := (keepsPlan_iff h framed).mpr names
  obtain ⟨values, _⟩ := unit_properties h
  obtain ⟨containers, _⟩ := unit_containers h
  have body : ∀ line ∈ u.wrapperLines, line ∈ u.bodyLines :=
    fun line held => List.mem_append_right _ held
  have structures : ∀ c ∈ u.containers, ∀ line ∈ c.lines, line ∈ u.bodyLines := by
    intro c held line inside
    apply body
    simp only [UnitView.wrapperLines, List.mem_append, List.mem_flatMap]
    exact Or.inl (Or.inr ⟨c, held, inside⟩)
  constructor
  · apply showsMembers kept framed values
    intro a held
    apply body
    simp only [UnitView.wrapperLines, List.mem_append]
    exact Or.inl (Or.inl (Or.inl (Or.inl (Or.inr (List.mem_map_of_mem held)))))
  · intro c held
    have known := held
    rw [containers] at known
    obtain ⟨node, among, rfl⟩ := ContainerTree.mem_views.mp known
    refine ⟨node, among, rfl, showsMembers kept framed (ContainerTree.viewOf_values _ node) ?_⟩
    intro a inside
    apply structures _ held
    simp only [ContainerView.lines, List.mem_append]
    exact Or.inl (Or.inl (Or.inr (List.mem_map_of_mem inside)))
  · apply hasLine_of_body kept framed "" (List.all_iff_forall_prop.mp (by decide)) (by simp)
    apply body
    simp only [UnitView.wrapperLines, List.mem_append]
    exact Or.inl (Or.inl (Or.inl (Or.inl (Or.inl (Or.inl (mem_summaryLines _ _))))))
  · intro c held
    apply hasLine_of_body kept framed "    " (List.all_iff_forall_prop.mp (by decide)) (by simp)
    apply structures c held
    simp only [ContainerView.lines, List.mem_append]
    exact Or.inl (Or.inl (Or.inl (Or.inl (mem_summaryLines _ _))))
  · exact counted.mpr names

/-- A compiled class with one hidden member, and with a hidden class inside of it if that has a
name. -/
def oneMember (space? : Option String) (name member : String) (inner? : Option String := none) :
    Resolved where
  tier := .metadata
  view :=
    { tier := .metadata
      space?
      tree := .node
        { name, kind := .classKind, visibility := .pub,
          members := [{ name := member, kind := .field, visibility := .priv }] }
        (inner?.toList.map fun name => .node { name, kind := .classKind, visibility := .priv } []) }

/-- Quotes, line feeds and markup in names break no line where they are escaped. -/
theorem escaped_names_keep_lines :
    ∃ u, (oneMember (some "N") "T" "a\n\"b" (some "<x>&y")).unit = some u ∧
      (oneMember (some "N") "T" "a\n\"b" (some "<x>&y")).KeepsLines .chain none u := by
  let r := oneMember (some "N") "T" "a\n\"b" (some "<x>&y")
  have shown : r.unit.isSome = true := by decide +kernel
  obtain ⟨u, built⟩ := Option.isSome_iff_exists.mp shown
  have names : r.NamesUnbroken .chain none := by
    constructor
    · intro space named
      cases named
      decide
    · decide +kernel
    · decide +kernel
    · decide +kernel
  exact ⟨u, built, (keeps_lines_iff built (by decide) (by decide)).2.mpr names⟩

theorem HasLine.unbroken {s text : String} (h : HasLine (sourceLines s) text) :
    Unbroken isTerminator text := by
  obtain ⟨margin, _, held⟩ := h
  exact fun c inside => Text.unbroken_of_mem_sourceLines held c (List.mem_append_right _ inside)

/-- A member's name can break the line of its accessor, and a type's name that of the comment which
shows it. -/
theorem line_ends_break_lines :
    (∃ u, (oneMember (some "N") "T" "a\u2028b").unit = some u ∧
      u.accessors = [⟨"a_b", "\"a\u2028b\""⟩] ∧
      ¬(oneMember (some "N") "T" "a\u2028b").KeepsLines .chain none u) ∧
    (∃ u, (oneMember none "T\nclass Evil \x7b \x7d" "a").unit = some u ∧
      u.display = "T\nclass Evil \x7b \x7d" ∧
      ¬(oneMember none "T\nclass Evil \x7b \x7d" "a").KeepsLines .chain none u) := by
  constructor
  · have shape : (oneMember (some "N") "T" "a\u2028b").unit.map UnitView.accessors =
        some [⟨"a_b", "\"a\u2028b\""⟩] := by decide +kernel
    obtain ⟨u, built, accessors⟩ := Option.map_eq_some_iff.mp shape
    refine ⟨u, built, accessors, fun kept => ?_⟩
    have shown := kept.accessors
    rw [accessors, List.forall₂_cons_left_iff] at shown
    obtain ⟨_, _, first, _, _⟩ := shown
    exact absurd first.1.unbroken (by decide)
  · have shape : (oneMember none "T\nclass Evil \x7b \x7d" "a").unit.map UnitView.display =
        some "T\nclass Evil \x7b \x7d" := by decide +kernel
    obtain ⟨u, built, display⟩ := Option.map_eq_some_iff.mp shape
    refine ⟨u, built, display, fun kept => ?_⟩
    have shown := kept.summary.unbroken
    rw [display] at shown
    exact absurd shown (by decide +kernel)

end Resolved

end HiddenNames
