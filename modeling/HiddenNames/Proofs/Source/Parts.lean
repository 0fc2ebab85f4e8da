import HiddenNames.Proofs.Source.Index
import HiddenNames.Proofs.Source.Names

/-!
What sources say of types, one fact after the other: that a type has one more part, or some more
members. The facts are read off the declarations alone, without what was taken in before. An entry
merges what it was told when it stands where all its parts do, has what one of them says for all of
them, and has all members in turn.
-/

namespace HiddenNames

open CSharp (Declaration TypeHeader IsWordName)
open SourceProgram (visibilityOf defaultInside accessWords spaceInside)

/-- One declaration of a type in its place. `outer` lists the names and arities of the types around
it, and `default` is the visibility of a type that states none there. -/
structure SourcePart where
  space? : Option String
  outer : List (String × Nat) := []
  default : Visibility := .internal
  header : TypeHeader
  deriving DecidableEq, Repr

namespace SourcePart

def chain (part : SourcePart) : List (String × Nat) :=
  part.outer ++ [(part.header.name, part.header.parameters.length)]

def fullName (part : SourcePart) : String := SourceType.chainName part.space? part.chain

def inner (part : SourcePart) (header : TypeHeader) : SourcePart where
  space? := part.space?
  outer := part.chain
  default := defaultInside part.header.kind
  header := header

def visibility (part : SourcePart) : Visibility := visibilityOf part.header.modifiers part.default

def StatesAccess (part : SourcePart) : Prop := part.header.modifiers.any (· ∈ accessWords) = true

def StatesConstraints (part : SourcePart) : Prop := part.header.constraints ≠ []

def hasBody (part : SourcePart) : Bool := !part.header.isDelegate && part.header.kind ≠ .enumKind

structure IsWritten (part : SourcePart) : Prop where
  space : part.space? ≠ some ""
  name : IsWordName part.header.name

/-- Two parts do not contradict each other as parts of one type. Constraints are the same when they
are for each parameter, in whatever order they stand. -/
structure Agrees (part other : SourcePart) : Prop where
  kind : part.header.kind = other.header.kind
  parameters : part.header.parameters = other.header.parameters
  visibility : part.StatesAccess → other.StatesAccess → part.visibility = other.visibility
  constraints : part.StatesConstraints → other.StatesConstraints →
    ∀ name, part.header.constraints.lookup name = other.header.constraints.lookup name

instance (part : SourcePart) : Decidable part.StatesAccess :=
  inferInstanceAs (Decidable (_ = true))

instance (part : SourcePart) : Decidable part.StatesConstraints :=
  inferInstanceAs (Decidable (_ ≠ []))

-- The characters are checked one after the other: to quantify over them would try every character.
instance (part : SourcePart) : Decidable part.IsWritten :=
  decidable_of_iff (part.space? ≠ some "" ∧
      part.header.name.toList.all CSharp.Token.isWordPart = true)
    ⟨fun ⟨space, name⟩ => ⟨space, List.all_eq_true.mp name⟩,
      fun ⟨space, name⟩ => ⟨space, List.all_eq_true.mpr name⟩⟩

/-- Constraints need comparing for the parameters alone that either part has some for. -/
theorem sameConstraints_iff (part other : SourcePart) :
    (∀ name, part.header.constraints.lookup name = other.header.constraints.lookup name) ↔
      ∀ name ∈ (part.header.constraints ++ other.header.constraints).map Prod.fst,
        part.header.constraints.lookup name = other.header.constraints.lookup name := by
  constructor
  · exact fun same name _ => same name
  · intro same name
    by_cases named : name ∈ (part.header.constraints ++ other.header.constraints).map Prod.fst
    · exact same name named
    · have unnamed : ∀ entry ∈ part.header.constraints ++ other.header.constraints,
          (name == entry.1) = false := by
        intro entry held
        apply beq_false_of_ne
        rintro rfl
        exact named (List.mem_map_of_mem held)
      rw [List.forall_mem_append] at unnamed
      rw [List.lookup_eq_none_iff.mpr (by simpa using unnamed.1),
        List.lookup_eq_none_iff.mpr (by simpa using unnamed.2)]

instance (part other : SourcePart) : Decidable (part.Agrees other) :=
  decidable_of_iff (part.header.kind = other.header.kind ∧
      part.header.parameters = other.header.parameters ∧
      (part.StatesAccess → other.StatesAccess → part.visibility = other.visibility) ∧
      (part.StatesConstraints → other.StatesConstraints →
        ∀ name ∈ (part.header.constraints ++ other.header.constraints).map Prod.fst,
          part.header.constraints.lookup name = other.header.constraints.lookup name)) <| by
    rw [← sameConstraints_iff]
    exact ⟨fun ⟨kind, parameters, visibility, constraints⟩ =>
        ⟨kind, parameters, visibility, constraints⟩,
      fun ⟨kind, parameters, visibility, constraints⟩ =>
        ⟨kind, parameters, visibility, constraints⟩⟩

end SourcePart

inductive SourceFact where
  | part (part : SourcePart)
  | members (owner : String) (members : List Member)
  deriving DecidableEq, Repr

namespace SourceFact

def subject : SourceFact → String
  | .part declared => declared.fullName
  | .members owner _ => owner

def part? : SourceFact → Option SourcePart
  | .part declared => some declared
  | .members _ _ => none

def newMembers : SourceFact → List Member
  | .part _ => []
  | .members _ added => added

def ofMembers (owner : SourcePart) (kind : MemberKind) (modifiers names : List String) :
    SourceFact :=
  .members owner.fullName (names.map fun name =>
    { name, kind, visibility := visibilityOf modifiers (defaultInside owner.header.kind) })

mutual

def ofBody (owner : SourcePart) : Declaration → List SourceFact
  | .type header body =>
    .part (owner.inner header) ::
      if (owner.inner header).hasBody then ofBodies (owner.inner header) body else []
  | .members kind modifiers names => [ofMembers owner kind modifiers names]
  | .group body => ofBodies owner body
  | .namespaceBlock _ _ => []
  | .namespaceLine _ => []
  | .assemblyAttributes _ => []

def ofBodies (owner : SourcePart) : List Declaration → List SourceFact
  | [] => []
  | d :: rest => ofBody owner d ++ ofBodies owner rest

end

mutual

def ofScope (space? : Option String) : Declaration → List SourceFact
  | .namespaceBlock name body => ofScopes (some (spaceInside space? name)) body
  | .type header body =>
    .part { space?, header } ::
      if ({ space?, header } : SourcePart).hasBody then ofBodies { space?, header } body else []
  | .group body => ofScopes space? body
  | .namespaceLine _ => []
  | .assemblyAttributes _ => []
  | .members _ _ _ => []

def ofScopes (space? : Option String) : List Declaration → List SourceFact
  | [] => []
  | .namespaceLine name :: rest => ofScopes (some (spaceInside space? name)) rest
  | d :: rest => ofScope space? d ++ ofScopes space? rest

end

end SourceFact

theorem SourceFact.ofScopes_cons (space? : Option String) {d : Declaration}
    (other : ∀ name, d ≠ .namespaceLine name) (rest : List Declaration) :
    ofScopes space? (d :: rest) = ofScope space? d ++ ofScopes space? rest := by
  cases d with
  | namespaceLine name => exact absurd rfl (other name)
  | _ => rfl

def partsOf (facts : List SourceFact) : List SourcePart := facts.filterMap SourceFact.part?

theorem partsOf_append (facts more : List SourceFact) :
    partsOf (facts ++ more) = partsOf facts ++ partsOf more := List.filterMap_append

theorem mem_partsOf {facts : List SourceFact} {part : SourcePart} :
    part ∈ partsOf facts ↔ .part part ∈ facts := by
  rw [partsOf, List.mem_filterMap]
  constructor
  · rintro ⟨fact, held, same⟩
    cases fact with
    | part other =>
      obtain rfl := Option.some.inj same
      exact held
    | members owner members => cases same
  · intro held
    exact ⟨_, held, rfl⟩

def PartsAgree (parts : List SourcePart) : Prop :=
  ∀ part ∈ parts, ∀ other ∈ parts, part.fullName = other.fullName → part.Agrees other

instance (parts : List SourcePart) : Decidable (PartsAgree parts) :=
  inferInstanceAs (Decidable (∀ part ∈ parts, ∀ other ∈ parts, _ → _))

structure SpeaksFor (States : SourcePart → Prop) (parts : List SourcePart) (part : SourcePart) :
    Prop where
  among : part ∈ parts
  states : States part ∨ ∀ other ∈ parts, ¬States other

namespace SpeaksFor

variable {States : SourcePart → Prop} {parts : List SourcePart} {part other : SourcePart}

theorem last (states : States other ∨ ∀ earlier ∈ parts, ¬States earlier) :
    SpeaksFor States (parts ++ [other]) other := by
  refine ⟨List.mem_append_right _ List.mem_cons_self, ?_⟩
  by_cases own : States other
  · exact Or.inl own
  · right
    rw [List.forall_mem_append, List.forall_mem_singleton]
    exact ⟨states.resolve_left own, own⟩

theorem still (h : SpeaksFor States parts part) (states : States part ∨ ¬States other) :
    SpeaksFor States (parts ++ [other]) part := by
  refine ⟨List.mem_append_left _ h.among, ?_⟩
  by_cases own : States part
  · exact Or.inl own
  · right
    rw [List.forall_mem_append, List.forall_mem_singleton]
    exact ⟨h.states.resolve_left own, states.resolve_left own⟩

theorem perm {parts' : List SourcePart} (h : SpeaksFor States parts part)
    (perm : parts.Perm parts') : SpeaksFor States parts' part :=
  ⟨perm.mem_iff.mp h.among, h.states.imp_right fun none other held =>
    none other (perm.mem_iff.mpr held)⟩

theorem both (h : SpeaksFor States parts part) (h' : SpeaksFor States parts other) :
    (States part ∧ States other) ∨ (¬States part ∧ ¬States other) := by
  by_cases own : States part
  · left
    refine ⟨own, h'.states.resolve_right fun none => ?_⟩
    exact none part h.among own
  · right
    refine ⟨own, ?_⟩
    exact (h.states.resolve_left own) other h'.among

end SpeaksFor

namespace SourcePart

structure Shapes (part : SourcePart) (t : SourceType) : Prop where
  space : t.space? = part.space?
  outer : t.outer = part.outer
  name : t.name = part.header.name
  kind : t.kind = part.header.kind
  parameters : t.parameters = part.header.parameters

structure Makes (part : SourcePart) (t : SourceType) : Prop where
  shape : part.Shapes t
  visibility : t.visibility = part.visibility
  constraints : t.constraints = part.header.constraints
  members : t.members = []

variable {part : SourcePart} {t : SourceType}

theorem Shapes.chain (h : part.Shapes t) : t.chain = part.chain := by
  rw [SourceType.chain, SourceType.arity, SourcePart.chain, h.outer, h.name, h.parameters]

theorem Shapes.fullName (h : part.Shapes t) : t.fullName = part.fullName := by
  rw [SourceType.fullName, SourcePart.fullName, h.space, h.chain]

theorem makes_outermost (space? : Option String) (header : TypeHeader) :
    ({ space?, header } : SourcePart).Makes (SourceProgram.declaredType header space? none) :=
  ⟨⟨rfl, rfl, rfl, rfl, rfl⟩, rfl, rfl, rfl⟩

theorem Shapes.makes_inner (h : part.Shapes t) (header : TypeHeader) :
    (part.inner header).Makes (SourceProgram.declaredType header none (some t)) := by
  refine ⟨⟨h.space, h.chain, rfl, rfl, rfl⟩, ?_, rfl, rfl⟩
  rw [visibility, inner, ← h.kind]
  rfl

end SourcePart

structure Merges (told : List SourceFact) (t : SourceType) : Prop where
  shape : ∀ part ∈ partsOf told, part.Shapes t
  visibility : ∃ part, SpeaksFor SourcePart.StatesAccess (partsOf told) part ∧
    t.visibility = part.visibility
  constraints : ∃ part, SpeaksFor SourcePart.StatesConstraints (partsOf told) part ∧
    t.constraints = part.header.constraints
  members : t.members = told.flatMap SourceFact.newMembers

namespace Merges

variable {told : List SourceFact} {t declared : SourceType} {part : SourcePart}

theorem first (makes : part.Makes declared) : Merges [.part part] declared := by
  have none : ∀ (States : SourcePart → Prop), ∀ earlier ∈ partsOf [], ¬States earlier :=
    fun _ _ held => absurd held List.not_mem_nil
  constructor
  · intro other held
    rw [List.mem_singleton.mp held]
    exact makes.shape
  · exact ⟨part, .last (Or.inr (none _)), makes.visibility⟩
  · exact ⟨part, .last (Or.inr (none _)), makes.constraints⟩
  · exact makes.members

theorem next (h : Merges told t) (shapes : part.Shapes t) (makes : part.Makes declared) :
    Merges (told ++ [.part part])
      (SourceProgram.mergePart declared part.header.modifiers t) := by
  have parts : partsOf (told ++ [.part part]) = partsOf told ++ [part] := partsOf_append _ _
  constructor
  · rw [parts, List.forall_mem_append, List.forall_mem_singleton]
    have same : ∀ {other : SourcePart}, other.Shapes t →
        other.Shapes (SourceProgram.mergePart declared part.header.modifiers t) :=
      fun shape => ⟨shape.space, shape.outer, shape.name, shape.kind, shape.parameters⟩
    exact ⟨fun other held => same (h.shape other held), same shapes⟩
  · rw [parts]
    by_cases states : part.StatesAccess
    · refine ⟨part, .last (Or.inl states), ?_⟩
      exact (if_pos states).trans makes.visibility
    · obtain ⟨speaker, speaks, same⟩ := h.visibility
      refine ⟨speaker, speaks.still (Or.inr states), ?_⟩
      exact (if_neg states).trans same
  · rw [parts]
    obtain ⟨speaker, speaks, same⟩ := h.constraints
    by_cases known : t.constraints = []
    · have unstated : ¬speaker.StatesConstraints := fun states => states (same.symm.trans known)
      refine ⟨part, .last (Or.inr (speaks.states.resolve_left unstated)), ?_⟩
      exact (if_pos (List.isEmpty_iff.mpr known)).trans makes.constraints
    · have stated : speaker.StatesConstraints := fun none => known (same.trans none)
      refine ⟨speaker, speaks.still (Or.inl stated), ?_⟩
      exact (if_neg fun empty => known (List.isEmpty_iff.mp empty)).trans same
  · rw [List.flatMap_append, ← h.members]
    exact (List.append_nil _).symm

theorem newMembers (h : Merges told t) (owner : String) (members : List Member) :
    Merges (told ++ [.members owner members]) { t with members := t.members ++ members } := by
  have parts : partsOf (told ++ [.members owner members]) = partsOf told := by
    rw [partsOf_append]
    exact List.append_nil _
  constructor
  · rw [parts]
    intro part held
    obtain ⟨space, outer, name, kind, parameters⟩ := h.shape part held
    exact ⟨space, outer, name, kind, parameters⟩
  · rw [parts]
    exact h.visibility
  · rw [parts]
    exact h.constraints
  · rw [List.flatMap_append, ← h.members]
    exact congrArg (t.members ++ ·) (List.append_nil members).symm

theorem exists_part (h : Merges told t) : ∃ part ∈ partsOf told, part.Shapes t := by
  obtain ⟨part, speaks, _⟩ := h.visibility
  exact ⟨part, speaks.among, h.shape part speaks.among⟩

end Merges

end HiddenNames
