import HiddenNames.Proofs.Marker.TypeOf
import HiddenNames.Proofs.Resolution.Sources

/-!
Whether a marker can name a type by the spelling that its own unit has for it. It can when the names
of the namespace, of the chain and of the type parameters are words of unaccented letters, digits
and underscores. Other letters do not get through the scanner of markers; a namespace with the
verbatim mark is read without it, and so is not found.
-/

namespace HiddenNames

namespace SourceProgram

open Identifier (isBare plain)

variable {p : SourceProgram}

/-- The names of all types are identifiers; those of namespaces may have the verbatim mark. -/
def HasIdentifiers (p : SourceProgram) : Prop :=
  ∀ t ∈ p.types, isBare t.name = true ∧ (∀ name ∈ t.parameters, isBare name = true) ∧
    ∀ name ∈ (p.view t).spaceParts, isBare (plain name) = true

instance (p : SourceProgram) : Decidable p.HasIdentifiers :=
  inferInstanceAs (Decidable (∀ t ∈ p.types, _ ∧ _ ∧ _))

theorem view_hasIdentifiers (h : p.IsIndexed) (identifiers : p.HasIdentifiers) :
    ∀ t ∈ p.types, (p.view t).HasIdentifiers := by
  have own : ∀ t ∈ p.types, isBare (p.headOf t).name = true ∧
      ∀ name ∈ (p.headOf t).parameters, isBare name = true := fun t held =>
    ⟨(identifiers t held).1, (identifiers t held).2.1⟩
  have chain : ∀ t ∈ p.types, ∀ head ∈ (p.view t).chain,
      isBare head.name = true ∧ ∀ name ∈ head.parameters, isBare name = true := by
    refine h.induct (motive := fun t => ∀ head ∈ (p.view t).chain, _) ?_ ?_
    · intro t held top head among
      rw [TypeView.chain, view, headsAround_outermost top, List.nil_append] at among
      rw [List.mem_singleton.mp among]
      exact own t held
    · intro t held owner known inside ih head among
      rw [view_chain_inside h known inside, List.mem_append] at among
      rcases among with around | last
      · exact ih head around
      · rw [List.mem_singleton.mp last]
        exact own t held
  exact fun t held => ⟨(identifiers t held).2.2, chain t held⟩

theorem path_eq_view (h : p.IsIndexed) {t : SourceType} (held : t ∈ p.types) :
    t.path = (p.view t).path := by
  have space : (p.view t).space? = t.space? := rfl
  rw [SourceType.path, TypeView.path, view_chain h t held, TypeView.spaceParts, space]
  cases namedSpace t.space? <;> rfl

/-- The text is a marker, whatever it is applied to, and all resolvers of the program bind what it
requests to the type. -/
def IsNamedBy (p : SourceProgram) (t : SourceType) (text : String) : Prop :=
  ∀ declared?, ∃ marker request, Marker.read text declared? = .ok (some marker) ∧
    marker.request? = some request ∧ ∀ r : Resolver, r.program = p → ∀ s, ∃ target,
      (r.bind s request).1 = .ok target ∧ target.source? = some t

end SourceProgram

open Identifier (plain)

theorem IsWord.plain {name : String} (h : IsWord name) : plain name = name := by
  rcases Identifier.toList_eq_plain name with same | marked
  · exact (String.toList_inj.mp same).symm
  · exact absurd (h.spelled '@' (marked ▸ List.mem_cons_self)) (by decide)

namespace Resolver

/-- A reference with an alias is bound to a type of the program when it gives the path of the
type. -/
theorem bind_source_iff {r : Resolver} {ref : TypeRef} (aliased : ref.alias?.isNone = false)
    {t : SourceType} (held : t ∈ r.program.types)
    (unique : ∀ u ∈ r.program.types, u.path = t.path → u = t) (s : Session) :
    (∃ target, (r.bind s (.direct ref)).1 = .ok target ∧ target.source? = some t) ↔
      ref.path = t.path := by
  change (∃ target, (r.bindDirect s (.direct ref) ref).1 = .ok target ∧ _) ↔ _
  constructor
  · rintro ⟨target, bound, source⟩
    rw [bindDirect] at bound
    cases found : r.program.find ref with
    | some u =>
      rw [found] at bound
      cases bound
      obtain rfl : u = t := Option.some.inj source
      exact SourceProgram.path_of_find aliased found
    | none =>
      rw [found] at bound
      obtain ⟨place?, _, rfl⟩ := ok_of_map bound
      cases place? <;> cases source
  · intro named
    rw [bindDirect, SourceProgram.find_of_path held unique named]
    exact ⟨_, rfl, rfl⟩

end Resolver

namespace SourceProgram

variable {p : SourceProgram} {t : SourceType}

/-- An expression gives the path of its type when the namespace has no verbatim marks. -/
theorem writtenRef_path_iff (h : p.IsIndexed) (identifiers : (p.view t).HasIdentifiers)
    (held : t ∈ p.types) :
    (p.view t).writtenRef.path = t.path ↔ ∀ name ∈ (p.view t).spaceParts, plain name = name := by
  rw [TypeView.writtenRef_path identifiers, path_eq_view h held, TypeView.path,
    List.append_cancel_right_eq, List.map_inj_left]
  exact forall₂_congr fun name _ => by rw [Prod.mk.injEq, and_iff_left rfl]

/-- What is bound to the type was read, so its names are words; and it gives the path of the type,
so they have no marks. -/
theorem words_of_isNamedBy (h : p.IsIndexed) (identifiers : p.HasIdentifiers) (held : t ∈ p.types)
    (unique : ∀ u ∈ p.types, u.path = t.path → u = t)
    (named : p.IsNamedBy t (Marker.ofExpression (p.view t).expression)) :
    ∀ name ∈ (p.view t).names, IsWord name := by
  have own := view_hasIdentifiers h identifiers t held
  obtain ⟨marker, request, taken, asked, binds⟩ := named none
  have words := (TypeView.read_ofExpression_iff own none).mp ⟨marker, taken⟩
  rw [TypeView.read_ofExpression (TypeView.parts_spelled own words)] at taken
  cases taken
  cases asked
  have bound := binds (Resolver.alone p) rfl {}
  have path := (Resolver.bind_source_iff (r := Resolver.alone p) rfl held unique {}).mp bound
  have unmarked := (writtenRef_path_iff h own held).mp path
  intro name among
  have word := words name among
  rcases List.mem_append.mp among with space | inside
  · rwa [unmarked name space] at word
  · rwa [Identifier.plain_of_isBare (own.inside inside)] at word

theorem isNamedBy_of_words (h : p.IsIndexed) (identifiers : p.HasIdentifiers) (held : t ∈ p.types)
    (unique : ∀ u ∈ p.types, u.path = t.path → u = t)
    (words : ∀ name ∈ (p.view t).names, IsWord name) :
    p.IsNamedBy t (Marker.ofExpression (p.view t).expression) := by
  have own := view_hasIdentifiers h identifiers t held
  have spelled := TypeView.parts_spelled own fun name among => by
    rw [(words name among).plain]
    exact words name among
  refine fun declared? => ⟨_, _, TypeView.read_ofExpression spelled declared?, rfl, ?_⟩
  rintro r rfl s
  refine (Resolver.bind_source_iff rfl held unique s).mpr ?_
  exact (writtenRef_path_iff h own held).mpr fun name space =>
    (words name (List.mem_append_left _ space)).plain

/-- A marker for the expression of a type is read exactly when its names, marks aside, are words,
and it names the type exactly when they are words as they stand. -/
theorem isNamedBy_expression_iff (read : p.IsRead) (identifiers : p.HasIdentifiers)
    (held : t ∈ p.types) (unique : ∀ u ∈ p.types, u.path = t.path → u = t) :
    (∀ declared?, (∃ marker,
        Marker.read (Marker.ofExpression (p.view t).expression) declared? = .ok (some marker)) ↔
      ∀ name ∈ (p.view t).names, IsWord (plain name)) ∧
    (p.IsNamedBy t (Marker.ofExpression (p.view t).expression) ↔
      ∀ name ∈ (p.view t).names, IsWord name) :=
  ⟨TypeView.read_ofExpression_iff (view_hasIdentifiers read.indexed identifiers t held),
    words_of_isNamedBy read.indexed identifiers held unique,
    isNamedBy_of_words read.indexed identifiers held unique⟩

/-- A class that is called like a keyword, with a type inside of it whose parameter has the same
name as its own. -/
def keywordClass : SourceProgram :=
  ({} : SourceProgram).addSource
    "namespace N { class @class<T> { class Inner<T> { int x; } } }" "a.cs"

def keywordInner : SourceType where
  space? := some "N"
  outer := [("class", 1)]
  name := "Inner"
  kind := .classKind
  visibility := .priv
  parameters := ["T"]
  members := [{ name := "x", kind := .field, visibility := .priv }]

theorem keyword_inner_is_named :
    (keywordClass.view keywordInner).expression = "global::N.@class<T>.Inner<T_2>" ∧
      keywordClass.IsNamedBy keywordInner
        (Marker.ofExpression (keywordClass.view keywordInner).expression) := by
  have known : keywordClass.HasIdentifiers ∧ keywordInner ∈ keywordClass.types ∧
      (∀ u ∈ keywordClass.types, u.path = keywordInner.path → u = keywordInner) ∧
      (keywordClass.view keywordInner).expression = "global::N.@class<T>.Inner<T_2>" ∧
      ∀ name ∈ (keywordClass.view keywordInner).names, IsWord name := by decide +kernel
  obtain ⟨identifiers, held, unique, expression, words⟩ := known
  exact ⟨expression, (isNamedBy_expression_iff (.addSource (.empty "Program") _ _) identifiers held
    unique).2.mpr words⟩

def keywordSpace : SourceProgram :=
  ({} : SourceProgram).addSource "namespace @event { public class T { private int x; } }" "a.cs"

def accentedClass : SourceProgram :=
  ({} : SourceProgram).addSource "public class É { private int x; }" "a.cs"

/-- The program is read from sources with identifiers for names, and it has a type of a path of its
own that a marker with its expression does not name. -/
def HasUnnamed (p : SourceProgram) : Prop :=
  p.IsRead ∧ p.HasIdentifiers ∧ ∃ t ∈ p.types, (∀ u ∈ p.types, u.path = t.path → u = t) ∧
    ¬p.IsNamedBy t (Marker.ofExpression (p.view t).expression)

theorem hasUnnamed_of (read : p.IsRead)
    (found : p.HasIdentifiers ∧ ∃ t ∈ p.types, (∀ u ∈ p.types, u.path = t.path → u = t) ∧
      ¬∀ name ∈ (p.view t).names, IsWord name) : p.HasUnnamed := by
  obtain ⟨identifiers, t, held, unique, other⟩ := found
  exact ⟨read, identifiers, t, held, unique, fun named =>
    other (words_of_isNamedBy read.indexed identifiers held unique named)⟩

theorem keyword_space_and_accent_are_unnamed :
    keywordSpace.HasUnnamed ∧ accentedClass.HasUnnamed :=
  ⟨hasUnnamed_of (.addSource (.empty "Program") _ _) (by decide +kernel),
    hasUnnamed_of (.addSource (.empty "Program") _ _) (by decide +kernel)⟩

end SourceProgram

end HiddenNames
