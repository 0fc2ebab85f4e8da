import HiddenNames.Proofs.Assoc
import HiddenNames.Proofs.CSharp.Words
import HiddenNames.Source.Files
import Mathlib.Data.List.Nodup

/-!
The index of a program that was read from sources. No two entries have one full name, and the type
around an entry has an entry before it. What a source adds is a new entry at the end or a part of an
entry that is there, so every source keeps the index in order.
-/

namespace HiddenNames

namespace SourceType

structure IsIn (t owner : SourceType) : Prop where
  space : t.space? = owner.space?
  outer : t.outer = owner.chain

structure SamePlace (t t' : SourceType) : Prop where
  space : t'.space? = t.space?
  outer : t'.outer = t.outer
  name : t'.name = t.name
  parameters : t'.parameters = t.parameters

variable {t t' : SourceType}

theorem SamePlace.chain (h : SamePlace t t') : t'.chain = t.chain := by
  rw [SourceType.chain, SourceType.chain, arity, arity, h.outer, h.name, h.parameters]

theorem SamePlace.fullName (h : SamePlace t t') : t'.fullName = t.fullName := by
  rw [SourceType.fullName, SourceType.fullName, h.space, h.chain]

theorem SamePlace.refl (t : SourceType) : SamePlace t t := ⟨rfl, rfl, rfl, rfl⟩

end SourceType

/-- Every entry stands for a type of a namespace or for one inside the type of an earlier entry. -/
inductive Owned : List SourceType → Prop where
  | nil : Owned []
  | add {types : List SourceType} (owned : Owned types) {t : SourceType}
      (placed : t.outer = [] ∨ ∃ owner ∈ types, t.IsIn owner) : Owned (types ++ [t])

namespace Owned

variable {types : List SourceType}

theorem map (h : Owned types) {f : SourceType → SourceType}
    (kept : ∀ t ∈ types, SourceType.SamePlace t (f t)) : Owned (types.map f) := by
  induction h with
  | nil => exact .nil
  | @add types owned t placed ih =>
    have before : ∀ t ∈ types, SourceType.SamePlace t (f t) :=
      fun t held => kept t (List.mem_append_left _ held)
    have own := kept t (List.mem_append_right _ List.mem_cons_self)
    rw [List.map_append]
    apply Owned.add (ih before)
    rcases placed with outermost | ⟨owner, held, inside⟩
    · exact Or.inl (own.outer.trans outermost)
    · have around := before owner held
      refine Or.inr ⟨f owner, List.mem_map_of_mem held, ?_, ?_⟩
      · rw [own.space, around.space, inside.space]
      · rw [own.outer, around.chain, inside.outer]

theorem earlier (h : Owned types) {before after : List SourceType} {t : SourceType}
    (split : types = before ++ t :: after) : t.outer = [] ∨ ∃ owner ∈ before, t.IsIn owner := by
  induction h generalizing after with
  | nil => simp at split
  | @add types owned last placed ih =>
    rcases List.eq_nil_or_concat after with rfl | ⟨inner, other, rfl⟩
    · obtain ⟨rfl, same⟩ := List.append_inj' split rfl
      obtain rfl := List.singleton_inj.mp same
      exact placed
    · rw [List.concat_eq_append, ← List.cons_append, ← List.append_assoc] at split
      obtain ⟨shorter, _⟩ := List.append_inj' split rfl
      exact ih shorter

theorem owner (h : Owned types) {t : SourceType} (held : t ∈ types) :
    t.outer = [] ∨ ∃ owner ∈ types, t.IsIn owner := by
  obtain ⟨before, after, split⟩ := List.append_of_mem held
  rcases h.earlier split with outermost | ⟨owner, among, inside⟩
  · exact Or.inl outermost
  · refine Or.inr ⟨owner, ?_, inside⟩
    rw [split]
    exact List.mem_append_left _ among

end Owned

namespace SourceProgram

open CSharp (Declaration TypeHeader IsWordName)

inductive IsRead : SourceProgram → Prop where
  | empty (assemblyName : String) : IsRead { assemblyName }
  | addSource {p : SourceProgram} (read : IsRead p) (text path : String) :
      IsRead (p.addSource text path)

theorem isRead_addFiles {disk : Disk} {p p' : SourceProgram} {paths : List Path} (read : p.IsRead)
    (h : addFiles disk p paths = .ok p') : p'.IsRead := by
  induction paths generalizing p with
  | nil =>
    cases h
    exact read
  | cons path rest ih =>
    unfold addFiles at h
    split at h
    · exact ih (read.addSource _ _) h
    · cases h

theorem isRead_ofPaths {disk : Disk} {paths : List Path} {assemblyName : String}
    {p : SourceProgram} (h : ofPaths disk paths assemblyName = .ok p) : p.IsRead :=
  isRead_addFiles (.empty assemblyName) h

structure IsIndexed (p : SourceProgram) : Prop where
  distinct : (p.types.map SourceType.fullName).Nodup
  owned : Owned p.types
  named : ∀ t ∈ p.types, IsWordName t.name
  ordinary : ∀ t ∈ p.types, ∀ m ∈ t.members, m.special = false

variable {p : SourceProgram}

theorem get?_some {fullName : String} {t : SourceType} (h : p.get? fullName = some t) :
    t ∈ p.types ∧ t.fullName = fullName := find?_key_some h

theorem get?_none {fullName : String} (h : p.get? fullName = none) :
    fullName ∉ p.types.map SourceType.fullName := find?_key_none_iff.mp h

theorem update_fullNames (p : SourceProgram) (fullName : String) {f : SourceType → SourceType}
    (kept : ∀ t, SourceType.SamePlace t (f t)) :
    (p.update fullName f).types.map SourceType.fullName = p.types.map SourceType.fullName := by
  rw [update, List.map_map]
  apply List.map_congr_left
  intro t _
  rw [Function.comp_apply]
  split
  · exact (kept t).fullName
  · rfl

namespace IsIndexed

theorem eq_of_fullName (h : p.IsIndexed) {t t' : SourceType} (held : t ∈ p.types)
    (held' : t' ∈ p.types) (same : t.fullName = t'.fullName) : t = t' :=
  List.inj_on_of_nodup_map h.distinct held held' same

theorem get? (h : p.IsIndexed) {t : SourceType} (held : t ∈ p.types) :
    p.get? t.fullName = some t := by
  cases found : p.get? t.fullName with
  | none => exact absurd (List.mem_map_of_mem held) (get?_none found)
  | some other =>
    obtain ⟨among, same⟩ := get?_some found
    rw [h.eq_of_fullName among held same]

theorem empty (assemblyName : String) : IsIndexed { assemblyName } :=
  ⟨List.nodup_nil, .nil, fun _ held => absurd held List.not_mem_nil,
    fun _ held => absurd held List.not_mem_nil⟩

theorem update (h : p.IsIndexed) (fullName : String) {f : SourceType → SourceType}
    (kept : ∀ t, SourceType.SamePlace t (f t))
    (ordinary : ∀ t, (∀ m ∈ t.members, m.special = false) → ∀ m ∈ (f t).members,
      m.special = false) :
    (p.update fullName f).IsIndexed := by
  have place : ∀ t, SourceType.SamePlace t (if t.fullName = fullName then f t else t) := by
    intro t
    split
    · exact kept t
    · exact SourceType.SamePlace.refl t
  refine ⟨p.update_fullNames fullName kept ▸ h.distinct, h.owned.map fun t _ => place t, ?_, ?_⟩
  · intro t held
    obtain ⟨old, among, rfl⟩ := List.mem_map.mp held
    rw [(place old).name]
    exact h.named old among
  · intro t held
    obtain ⟨old, among, rfl⟩ := List.mem_map.mp held
    split
    · exact ordinary old (h.ordinary old among)
    · exact h.ordinary old among

theorem declare (h : p.IsIndexed) {t : SourceType} (modifiers : List String)
    (placed : t.outer = [] ∨ ∃ owner ∈ p.types, t.IsIn owner) (named : IsWordName t.name)
    (ordinary : ∀ m ∈ t.members, m.special = false) : (p.declare t modifiers).IsIndexed := by
  unfold SourceProgram.declare
  split
  · exact h.update t.fullName (fun _ => ⟨rfl, rfl, rfl, rfl⟩) fun _ members => members
  · rename_i unknown
    refine ⟨?_, h.owned.add placed, ?_, ?_⟩
    · rw [List.map_append]
      apply h.distinct.append (List.nodup_singleton _)
      intro name held same
      rw [List.mem_singleton.mp same] at held
      exact get?_none unknown held
    · intro other held
      rcases List.mem_append.mp held with before | last
      · exact h.named other before
      · rw [List.mem_singleton.mp last]
        exact named
    · intro other held
      rcases List.mem_append.mp held with before | last
      · exact h.ordinary other before
      · rw [List.mem_singleton.mp last]
        exact ordinary

theorem addMembers (h : p.IsIndexed) (owner : String) (kind : MemberKind) (modifiers : List String)
    (names : List String) : (p.addMembers owner kind modifiers names).IsIndexed := by
  refine h.update owner (fun _ => ⟨rfl, rfl, rfl, rfl⟩) fun t members m held => ?_
  rcases List.mem_append.mp held with before | added
  · exact members m before
  · obtain ⟨name, _, rfl⟩ := List.mem_map.mp added
    rfl

theorem addMarkers (h : p.IsIndexed) (path : String) (declared? : Option String)
    (attributes : List CSharp.AttributeText) : (p.addMarkers path declared? attributes).IsIndexed :=
  ⟨h.distinct, h.owned, h.named, h.ordinary⟩

/-- A header is taken in below a type that is there, or outside of all types. -/
theorem declareHeader (h : p.IsIndexed) {header : TypeHeader} (named : IsWordName header.name)
    (space? : Option String) {owner? : Option SourceType}
    (known : ∀ owner, owner? = some owner → owner ∈ p.types) (path : String)
    (declared? : Option String) :
    ((p.declare (declaredType header space? owner?) header.modifiers).addMarkers path declared?
      header.attributes).IsIndexed := by
  apply IsIndexed.addMarkers
  cases owner? with
  | none => exact h.declare _ (Or.inl rfl) named fun _ held => absurd held List.not_mem_nil
  | some owner =>
    have inside : (declaredType header space? (some owner)).IsIn owner := ⟨rfl, rfl⟩
    exact h.declare _ (Or.inr ⟨owner, known owner rfl, inside⟩) named
      fun _ held => absurd held List.not_mem_nil

end IsIndexed

mutual

theorem visitScope_indexed (path : String) (space? : Option String) {p : SourceProgram}
    (h : p.IsIndexed) (d : Declaration) (named : d.IsNamed) :
    (visitScope path space? p d).IsIndexed := by
  cases d with
  | namespaceBlock name body =>
    exact visitScopes_indexed path (some (spaceInside space? name)) h body named
  | namespaceLine name => exact h
  | assemblyAttributes attributes => exact h.addMarkers path none attributes
  | type header body =>
    have none : ∀ owner : SourceType, Option.none = some owner → owner ∈ p.types := nofun
    have declared := h.declareHeader named.1 space? none path
      (some (declaredType header space? .none).fullName)
    rw [visitScope]
    split
    · exact visitBodies_indexed path _ declared body named.2
    · exact declared
  | members kind modifiers names => exact h
  | group body => exact visitScopes_indexed path space? h body named

theorem visitScopes_indexed (path : String) (space? : Option String) {p : SourceProgram}
    (h : p.IsIndexed) (ds : List Declaration) (named : Declaration.AreNamed ds) :
    (visitScopes path space? p ds).IsIndexed := by
  cases ds with
  | nil => exact h
  | cons d rest =>
    have one := visitScope_indexed path space? h d named.1
    have others := visitScopes_indexed path space? one rest named.2
    cases d with
    | namespaceLine name =>
      exact visitScopes_indexed path (some (spaceInside space? name)) h rest named.2
    | namespaceBlock name body => exact others
    | assemblyAttributes attributes => exact others
    | type header body => exact others
    | members kind modifiers names => exact others
    | group body => exact others

theorem visitBody_indexed (path owner : String) {p : SourceProgram} (h : p.IsIndexed)
    (d : Declaration) (named : d.IsNamed) : (visitBody path owner p d).IsIndexed := by
  cases d with
  | namespaceBlock name body => exact h
  | namespaceLine name => exact h
  | assemblyAttributes attributes => exact h
  | type header body =>
    have known : ∀ o, p.get? owner = some o → o ∈ p.types := fun o found => (get?_some found).1
    have declared := h.declareHeader named.1 none known path
      (some (declaredType header none (p.get? owner)).fullName)
    rw [visitBody]
    split
    · exact visitBodies_indexed path _ declared body named.2
    · exact declared
  | members kind modifiers names => exact h.addMembers owner kind modifiers names
  | group body => exact visitBodies_indexed path owner h body named

theorem visitBodies_indexed (path owner : String) {p : SourceProgram} (h : p.IsIndexed)
    (ds : List Declaration) (named : Declaration.AreNamed ds) :
    (visitBodies path owner p ds).IsIndexed := by
  cases ds with
  | nil => exact h
  | cons d rest =>
    rw [visitBodies]
    exact visitBodies_indexed path owner (visitBody_indexed path owner h d named.1) rest named.2

end

/-- The index of a program that was read is in order. -/
theorem IsRead.indexed (read : p.IsRead) : p.IsIndexed := by
  induction read with
  | empty assemblyName => exact IsIndexed.empty assemblyName
  | addSource _ text path ih =>
    have named := CSharp.Reader.read_named text
    unfold SourceProgram.addSource addDeclarations
    -- How the declarations were read has no part in what follows.
    generalize CSharp.Reader.read text = declarations at named ⊢
    exact visitScopes_indexed path none ih _ ((Declaration.areNamed_iff declarations).mpr named)

end SourceProgram

end HiddenNames
