import HiddenNames.Proofs.Source.Parts

/-!
Programs describe the facts that their sources tell. Every entry merges the facts about its type,
and there are entries for just the types that something is told about. One more fact keeps this up
as long as the parts of each type agree, so a program describes all that its sources tell.
-/

namespace HiddenNames

open CSharp (Declaration TypeHeader IsWordName)
open SourceProgram (defaultInside declaredType spaceInside)

def about (name : String) (facts : List SourceFact) : List SourceFact :=
  facts.filter fun fact => fact.subject = name

section about

variable {name : String} {facts : List SourceFact} {fact : SourceFact}

theorem about_next (same : fact.subject = name) :
    about name (facts ++ [fact]) = about name facts ++ [fact] := by
  rw [about, List.filter_append, List.filter_singleton, decide_eq_true same]
  rfl

theorem about_other (other : fact.subject ≠ name) :
    about name (facts ++ [fact]) = about name facts := by
  rw [about, List.filter_append, List.filter_singleton, decide_eq_false other]
  exact List.append_nil _

theorem about_nil (none : name ∉ facts.map SourceFact.subject) : about name facts = [] := by
  apply List.filter_eq_nil_iff.mpr
  intro fact held same
  exact none (List.mem_map.mpr ⟨fact, held, of_decide_eq_true same⟩)

theorem mem_partsOf_about {part : SourcePart} :
    part ∈ partsOf (about name facts) ↔ part ∈ partsOf facts ∧ part.fullName = name := by
  rw [mem_partsOf, mem_partsOf, about, List.mem_filter, decide_eq_true_eq]
  rfl

end about

theorem PartsAgree.of_subset {parts parts' : List SourcePart} (h : PartsAgree parts)
    (inside : parts' ⊆ parts) : PartsAgree parts' :=
  fun part held other held' => h part (inside held) other (inside held')

theorem PartsAgree.earlier {facts more : List SourceFact}
    (h : PartsAgree (partsOf (facts ++ more))) : PartsAgree (partsOf facts) := by
  rw [partsOf_append] at h
  exact h.of_subset (List.subset_append_left _ _)

namespace SourcePart

variable {part other owner : SourcePart}

structure IsPlaced (part : SourcePart) : Prop where
  space : part.space? ≠ some ""
  words : SourceType.AreWords part.chain

theorem chain_ne_nil (part : SourcePart) : part.chain ≠ [] := by
  rw [chain]
  exact List.append_ne_nil_of_right_ne_nil _ (List.cons_ne_nil _ _)

theorem IsWritten.placed {space? : Option String} {header : TypeHeader}
    (h : ({ space?, header } : SourcePart).IsWritten) :
    ({ space?, header } : SourcePart).IsPlaced := by
  refine ⟨h.space, ?_⟩
  intro entry held
  rw [List.mem_singleton.mp held]
  exact h.name

theorem IsPlaced.inner (h : owner.IsPlaced) {header : TypeHeader} (named : IsWordName header.name) :
    (owner.inner header).IsPlaced := by
  refine ⟨h.space, ?_⟩
  intro entry held
  rcases List.mem_append.mp held with around | own
  · exact h.words entry around
  · rw [List.mem_singleton.mp own]
    exact named

theorem IsPlaced.name (h : part.IsPlaced) : IsWordName part.header.name :=
  h.words _ (List.mem_append_right _ List.mem_cons_self)

theorem namedSpace_of_ne {space? : Option String} (named : space? ≠ some "") :
    namedSpace space? = space? := by
  cases space? with
  | none => rfl
  | some space =>
    have filled : space ≠ "" := fun empty => named (congrArg some empty)
    rw [namedSpace, Option.filter_some, decide_eq_true filled, if_pos rfl]

theorem IsPlaced.eq_of_fullName (h : part.IsPlaced) (h' : other.IsPlaced)
    (same : part.fullName = other.fullName) :
    part.space? = other.space? ∧ part.chain = other.chain := by
  obtain ⟨spaces, chains⟩ :=
    SourceType.chainName_injective h.words h'.words part.chain_ne_nil other.chain_ne_nil same
  rw [namedSpace_of_ne h.space, namedSpace_of_ne h'.space] at spaces
  exact ⟨spaces, chains⟩

def IsGrounded (parts : List SourcePart) (part : SourcePart) : Prop :=
  (∃ space? header, part = { space?, header }) ∨
    ∃ owner ∈ parts, ∃ header, part = owner.inner header

theorem IsGrounded.of_subset {parts parts' : List SourcePart} (h : part.IsGrounded parts)
    (inside : parts ⊆ parts') : part.IsGrounded parts' := by
  rcases h with outermost | ⟨owner, held, header, same⟩
  · exact Or.inl outermost
  · exact Or.inr ⟨owner, inside held, header, same⟩

end SourcePart

namespace SourceProgram

structure Describes (p : SourceProgram) (facts : List SourceFact) : Prop where
  indexed : p.IsIndexed
  known : ∀ name, name ∈ p.types.map SourceType.fullName ↔ name ∈ facts.map SourceFact.subject
  merges : ∀ t ∈ p.types, Merges (about t.fullName facts) t
  placed : ∀ part ∈ partsOf facts, part.IsPlaced
  grounded : ∀ part ∈ partsOf facts, part.IsGrounded (partsOf facts)

namespace Describes

variable {p : SourceProgram} {facts : List SourceFact} {part owner : SourcePart}

theorem empty (assemblyName : String) : Describes { assemblyName } [] where
  indexed := .empty assemblyName
  known := fun _ => Iff.rfl
  merges := fun _ held => absurd held List.not_mem_nil
  placed := fun _ held => absurd held List.not_mem_nil
  grounded := fun _ held => absurd held List.not_mem_nil

theorem addMarkers (h : Describes p facts) (path : String) (declared? : Option String)
    (attributes : List CSharp.AttributeText) :
    Describes (p.addMarkers path declared? attributes) facts :=
  ⟨h.indexed.addMarkers path declared? attributes, h.known, h.merges, h.placed, h.grounded⟩

theorem entry (h : Describes p facts) (held : part ∈ partsOf facts) :
    ∃ t, p.get? part.fullName = some t ∧ part.Shapes t := by
  have told : part.fullName ∈ facts.map SourceFact.subject :=
    List.mem_map.mpr ⟨_, mem_partsOf.mp held, rfl⟩
  obtain ⟨t, among, same⟩ := List.mem_map.mp ((h.known _).mpr told)
  refine ⟨t, same ▸ h.indexed.get? among, ?_⟩
  exact (h.merges t among).shape part (mem_partsOf_about.mpr ⟨held, same.symm⟩)

theorem shapes (h : Describes p facts) (placed : part.IsPlaced)
    (agree : PartsAgree (partsOf facts ++ [part])) {t : SourceType} (held : t ∈ p.types)
    (same : t.fullName = part.fullName) : part.Shapes t := by
  obtain ⟨earlier, told, shape⟩ := (h.merges t held).exists_part
  obtain ⟨among, _⟩ := mem_partsOf_about.mp told
  have names : part.fullName = earlier.fullName := same.symm.trans shape.fullName
  have agrees := agree part (List.mem_append_right _ List.mem_cons_self) earlier
    (List.mem_append_left _ among) names
  -- The place is the same because the full name is, the shape because the parts agree.
  obtain ⟨spaces, chains⟩ := placed.eq_of_fullName (h.placed earlier among) names
  obtain ⟨outer, last⟩ := List.append_inj' chains rfl
  have name : part.header.name = earlier.header.name :=
    congrArg Prod.fst (List.singleton_inj.mp last)
  constructor
  · rw [spaces, shape.space]
  · rw [outer, shape.outer]
  · rw [name, shape.name]
  · rw [agrees.kind, shape.kind]
  · rw [agrees.parameters, shape.parameters]

variable {fact : SourceFact}

theorem subjects (h : Describes p facts) (name : String) :
    name ∈ (facts ++ [fact]).map SourceFact.subject ↔
      name ∈ p.types.map SourceType.fullName ∨ name = fact.subject := by
  rw [List.map_append, List.mem_append, h.known, List.map_singleton, List.mem_singleton]

theorem placed_next (h : Describes p facts) (placed : ∀ part ∈ partsOf [fact], part.IsPlaced) :
    ∀ part ∈ partsOf (facts ++ [fact]), part.IsPlaced := by
  rw [partsOf_append, List.forall_mem_append]
  exact ⟨h.placed, placed⟩

theorem grounded_next (h : Describes p facts)
    (grounded : ∀ part ∈ partsOf [fact], part.IsGrounded (partsOf facts)) :
    ∀ part ∈ partsOf (facts ++ [fact]), part.IsGrounded (partsOf (facts ++ [fact])) := by
  have earlier : partsOf facts ⊆ partsOf facts ++ partsOf [fact] := List.subset_append_left _ _
  rw [partsOf_append, List.forall_mem_append]
  exact ⟨fun part held => (h.grounded part held).of_subset earlier,
    fun part held => (grounded part held).of_subset earlier⟩

theorem update (h : Describes p facts) {f : SourceType → SourceType}
    (kept : ∀ t, SourceType.SamePlace t (f t)) (indexed : (p.update fact.subject f).IsIndexed)
    (known : fact.subject ∈ p.types.map SourceType.fullName)
    (merges : ∀ t ∈ p.types, t.fullName = fact.subject →
      Merges (about t.fullName facts ++ [fact]) (f t))
    (placed : ∀ part ∈ partsOf [fact], part.IsPlaced)
    (grounded : ∀ part ∈ partsOf [fact], part.IsGrounded (partsOf facts)) :
    Describes (p.update fact.subject f) (facts ++ [fact]) := by
  refine ⟨indexed, ?_, ?_, h.placed_next placed, h.grounded_next grounded⟩
  · intro name
    rw [h.subjects, p.update_fullNames _ kept]
    constructor
    · exact Or.inl
    · rintro (before | rfl)
      · exact before
      · exact known
  · intro t held
    obtain ⟨old, among, rfl⟩ := List.mem_map.mp held
    by_cases same : old.fullName = fact.subject
    · rw [if_pos same, (kept old).fullName, about_next same.symm]
      exact merges old among same
    · rw [if_neg same, about_other fun here => same here.symm]
      exact h.merges old among

theorem create (h : Describes p facts) {declared : SourceType} (makes : part.Makes declared)
    (indexed : IsIndexed { p with types := p.types ++ [declared] })
    (fresh : part.fullName ∉ p.types.map SourceType.fullName) (placed : part.IsPlaced)
    (grounded : part.IsGrounded (partsOf facts)) :
    Describes { p with types := p.types ++ [declared] } (facts ++ [.part part]) := by
  have subject : (SourceFact.part part).subject = declared.fullName := makes.shape.fullName.symm
  refine ⟨indexed, ?_, ?_, h.placed_next (List.forall_mem_singleton.mpr placed),
    h.grounded_next (List.forall_mem_singleton.mpr grounded)⟩
  · intro name
    rw [h.subjects, subject, List.map_append, List.mem_append, List.map_singleton,
      List.mem_singleton]
  · intro t held
    rcases List.mem_append.mp held with before | last
    · have other : (SourceFact.part part).subject ≠ t.fullName := by
        intro same
        apply fresh
        change (SourceFact.part part).subject ∈ _
        rw [same]
        exact List.mem_map_of_mem before
      rw [about_other other]
      exact h.merges t before
    · have first : about declared.fullName facts = [] := by
        rw [makes.shape.fullName]
        exact about_nil fun told => fresh ((h.known _).mpr told)
      rw [List.mem_singleton.mp last, about_next subject, first]
      exact .first makes

theorem declare (h : Describes p facts) {declared : SourceType} (makes : part.Makes declared)
    (placed : part.IsPlaced) (grounded : part.IsGrounded (partsOf facts))
    (stands : declared.outer = [] ∨ ∃ owner ∈ p.types, declared.IsIn owner)
    (agree : PartsAgree (partsOf facts ++ [part])) :
    Describes (p.declare declared part.header.modifiers) (facts ++ [.part part]) := by
  have named : IsWordName declared.name := makes.shape.name ▸ placed.name
  have ordinary : ∀ m ∈ declared.members, m.special = false := by
    rw [makes.members]
    exact fun _ held => absurd held List.not_mem_nil
  have indexed := h.indexed.declare part.header.modifiers stands named ordinary
  cases found : p.get? declared.fullName with
  | none =>
    simp only [SourceProgram.declare, found] at indexed ⊢
    rw [makes.shape.fullName] at found
    exact h.create makes indexed (get?_none found) placed grounded
  | some t =>
    obtain ⟨held, same⟩ := get?_some found
    have subject : (SourceFact.part part).subject = declared.fullName := makes.shape.fullName.symm
    simp only [SourceProgram.declare, found] at indexed ⊢
    rw [← subject] at indexed ⊢
    refine h.update (fun _ => ⟨rfl, rfl, rfl, rfl⟩) indexed ?_ ?_
      (List.forall_mem_singleton.mpr placed) (List.forall_mem_singleton.mpr grounded)
    · rw [subject, ← same]
      exact List.mem_map_of_mem held
    · intro old among here
      exact (h.merges old among).next (h.shapes placed agree among here) makes

theorem addMembers (h : Describes p facts) (held : owner ∈ partsOf facts) (kind : MemberKind)
    (modifiers names : List String) :
    Describes (p.addMembers owner.fullName kind modifiers names)
      (facts ++ [.ofMembers owner kind modifiers names]) := by
  obtain ⟨t, found, _⟩ := h.entry held
  obtain ⟨among, same⟩ := get?_some found
  have indexed := h.indexed.addMembers owner.fullName kind modifiers names
  have subject : owner.fullName = (SourceFact.ofMembers owner kind modifiers names).subject := rfl
  rw [SourceProgram.addMembers, subject] at indexed ⊢
  refine h.update (fun _ => ⟨rfl, rfl, rfl, rfl⟩) indexed ?_ ?_ ?_ ?_
  · exact List.mem_map.mpr ⟨t, among, same⟩
  · intro old known here
    have shape := (h.merges old known).shape owner (mem_partsOf_about.mpr ⟨held, here.symm⟩)
    have merged := (h.merges old known).newMembers owner.fullName (names.map fun name =>
      { name, kind, visibility := visibilityOf modifiers (defaultInside owner.header.kind) })
    rw [← shape.kind] at merged
    rw [SourceFact.ofMembers, ← shape.kind]
    exact merged
  · exact fun _ none => absurd none List.not_mem_nil
  · exact fun _ none => absurd none List.not_mem_nil

theorem hasBody (h : Describes p facts) (held : part ∈ partsOf facts) :
    SourceProgram.hasBody p part.fullName part.header = part.hasBody := by
  obtain ⟨t, found, shape⟩ := h.entry held
  rw [SourceProgram.hasBody, found, Option.all_some, shape.kind]
  rfl

/-- A header goes in first, then what stands inside of it, if that is looked at. -/
theorem visitHeader (h : Describes p facts) {declared : SourceType} (makes : part.Makes declared)
    (placed : part.IsPlaced) (grounded : part.IsGrounded (partsOf facts))
    (stands : declared.outer = [] ∨ ∃ owner ∈ p.types, declared.IsIn owner) (path : String)
    {body : List Declaration}
    (written : ∀ inner ∈ partsOf (.part part ::
      if part.hasBody then SourceFact.ofBodies part body else []), inner.IsWritten)
    (agree : PartsAgree (partsOf (facts ++ .part part ::
      if part.hasBody then SourceFact.ofBodies part body else [])))
    (inside : ∀ {p' : SourceProgram}, Describes p' (facts ++ [.part part]) →
      part ∈ partsOf (facts ++ [.part part]) →
      (∀ inner ∈ partsOf (SourceFact.ofBodies part body), inner.IsWritten) →
      PartsAgree (partsOf (facts ++ [.part part] ++ SourceFact.ofBodies part body)) →
      Describes (visitBodies path part.fullName p' body)
        (facts ++ [.part part] ++ SourceFact.ofBodies part body)) :
    let p' := (p.declare declared part.header.modifiers).addMarkers path (some declared.fullName)
      part.header.attributes
    Describes
      (if SourceProgram.hasBody p' declared.fullName part.header then
        visitBodies path declared.fullName p' body else p')
      (facts ++ .part part :: if part.hasBody then SourceFact.ofBodies part body else []) := by
  intro p'
  rw [List.append_cons] at agree ⊢
  have first : PartsAgree (partsOf facts ++ [part]) := by
    have own := agree.earlier
    rw [partsOf_append] at own
    exact own
  have described : Describes p' (facts ++ [.part part]) :=
    (h.declare makes placed grounded stands first).addMarkers path _ _
  have held : part ∈ partsOf (facts ++ [.part part]) :=
    mem_partsOf.mpr (List.mem_append_right _ List.mem_cons_self)
  rw [makes.shape.fullName, described.hasBody held]
  by_cases looked : part.hasBody = true
  · rw [if_pos looked] at written agree
    rw [if_pos looked, if_pos looked]
    apply inside described held _ agree
    intro inner among
    exact written inner (mem_partsOf.mpr (List.mem_cons_of_mem _ (mem_partsOf.mp among)))
  · rw [if_neg looked, if_neg looked, List.append_nil]
    exact described

end Describes

theorem visitScopes_cons (path : String) (space? : Option String) (p : SourceProgram)
    {d : Declaration} (other : ∀ name, d ≠ .namespaceLine name) (rest : List Declaration) :
    visitScopes path space? p (d :: rest) =
      visitScopes path space? (visitScope path space? p d) rest := by
  cases d with
  | namespaceLine name => exact absurd rfl (other name)
  | _ => rfl

-- By the recursion of the visit. What is carried along is that the program describes all facts told
-- so far, and that the part around a body is among them.
mutual

theorem visitBody_describes (path : String) {p : SourceProgram} {facts : List SourceFact}
    {owner : SourcePart} (h : Describes p facts) (held : owner ∈ partsOf facts) (d : Declaration)
    (written : ∀ part ∈ partsOf (SourceFact.ofBody owner d), part.IsWritten)
    (agree : PartsAgree (partsOf (facts ++ SourceFact.ofBody owner d))) :
    Describes (visitBody path owner.fullName p d) (facts ++ SourceFact.ofBody owner d) := by
  cases d with
  | namespaceBlock name body =>
    rw [SourceFact.ofBody, List.append_nil]
    exact h
  | namespaceLine name =>
    rw [SourceFact.ofBody, List.append_nil]
    exact h
  | assemblyAttributes attributes =>
    rw [SourceFact.ofBody, List.append_nil]
    exact h
  | type header body =>
    rw [SourceFact.ofBody] at written agree ⊢
    have own := written (owner.inner header) (mem_partsOf.mpr List.mem_cons_self)
    have placed := (h.placed owner held).inner own.name
    obtain ⟨t, found, shape⟩ := h.entry held
    have stands : (declaredType header none (some t)).IsIn t := ⟨rfl, rfl⟩
    rw [visitBody, found]
    refine h.visitHeader (shape.makes_inner header) placed (Or.inr ⟨owner, held, header, rfl⟩)
      (Or.inr ⟨t, (get?_some found).1, stands⟩) path written agree ?_
    intro p' described among words alike
    exact visitBodies_describes path described among body words alike
  | members kind modifiers names =>
    rw [SourceFact.ofBody]
    exact h.addMembers held kind modifiers names
  | group body => exact visitBodies_describes path h held body written agree

theorem visitBodies_describes (path : String) {p : SourceProgram} {facts : List SourceFact}
    {owner : SourcePart} (h : Describes p facts) (held : owner ∈ partsOf facts)
    (ds : List Declaration)
    (written : ∀ part ∈ partsOf (SourceFact.ofBodies owner ds), part.IsWritten)
    (agree : PartsAgree (partsOf (facts ++ SourceFact.ofBodies owner ds))) :
    Describes (visitBodies path owner.fullName p ds) (facts ++ SourceFact.ofBodies owner ds) := by
  cases ds with
  | nil =>
    rw [SourceFact.ofBodies, List.append_nil]
    exact h
  | cons d rest =>
    rw [SourceFact.ofBodies, partsOf_append, List.forall_mem_append] at written
    rw [SourceFact.ofBodies, ← List.append_assoc] at agree ⊢
    have one := visitBody_describes path h held d written.1 agree.earlier
    have still : owner ∈ partsOf (facts ++ SourceFact.ofBody owner d) := by
      rw [partsOf_append]
      exact List.mem_append_left _ held
    rw [visitBodies]
    exact visitBodies_describes path one still rest written.2 agree

end

mutual

theorem visitScope_describes (path : String) (space? : Option String) {p : SourceProgram}
    {facts : List SourceFact} (h : Describes p facts) (d : Declaration)
    (written : ∀ part ∈ partsOf (SourceFact.ofScope space? d), part.IsWritten)
    (agree : PartsAgree (partsOf (facts ++ SourceFact.ofScope space? d))) :
    Describes (visitScope path space? p d) (facts ++ SourceFact.ofScope space? d) := by
  cases d with
  | namespaceBlock name body =>
    exact visitScopes_describes path (some (spaceInside space? name)) h body written agree
  | namespaceLine name =>
    rw [SourceFact.ofScope, List.append_nil]
    exact h
  | assemblyAttributes attributes =>
    rw [SourceFact.ofScope, List.append_nil]
    exact h.addMarkers path none attributes
  | type header body =>
    rw [SourceFact.ofScope] at written agree ⊢
    have own := written { space?, header } (mem_partsOf.mpr List.mem_cons_self)
    rw [visitScope]
    refine h.visitHeader (SourcePart.makes_outermost space? header) own.placed
      (Or.inl ⟨space?, header, rfl⟩) (Or.inl rfl) path written agree ?_
    intro p' described among words alike
    exact visitBodies_describes path described among body words alike
  | members kind modifiers names =>
    rw [SourceFact.ofScope, List.append_nil]
    exact h
  | group body => exact visitScopes_describes path space? h body written agree

theorem visitScopes_describes (path : String) (space? : Option String) {p : SourceProgram}
    {facts : List SourceFact} (h : Describes p facts) (ds : List Declaration)
    (written : ∀ part ∈ partsOf (SourceFact.ofScopes space? ds), part.IsWritten)
    (agree : PartsAgree (partsOf (facts ++ SourceFact.ofScopes space? ds))) :
    Describes (visitScopes path space? p ds) (facts ++ SourceFact.ofScopes space? ds) := by
  cases ds with
  | nil =>
    rw [SourceFact.ofScopes, List.append_nil]
    exact h
  | cons d rest =>
    have others : (∀ name, d ≠ .namespaceLine name) →
        Describes (visitScopes path space? p (d :: rest))
          (facts ++ SourceFact.ofScopes space? (d :: rest)) := by
      intro other
      rw [SourceFact.ofScopes_cons _ other, partsOf_append, List.forall_mem_append] at written
      rw [SourceFact.ofScopes_cons _ other, ← List.append_assoc] at agree ⊢
      have one := visitScope_describes path space? h d written.1 agree.earlier
      rw [visitScopes_cons _ _ _ other]
      exact visitScopes_describes path space? one rest written.2 agree
    -- A namespace line says nothing itself, but the rest of the list is in its namespace.
    cases d with
    | namespaceLine name =>
      exact visitScopes_describes path (some (spaceInside space? name)) h rest written agree
    | namespaceBlock name body => exact others fun _ same => by cases same
    | assemblyAttributes attributes => exact others fun _ same => by cases same
    | type header body => exact others fun _ same => by cases same
    | members kind modifiers names => exact others fun _ same => by cases same
    | group body => exact others fun _ same => by cases same

end

end SourceProgram

end HiddenNames
