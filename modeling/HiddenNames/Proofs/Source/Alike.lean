import HiddenNames.Proofs.Source.Merging

/-!
Programs that describe the same facts, told in any order. The parts that speak for a type are the
same in both, so each entry of the one program has its like in the other: all is equal but the order
of members and of constraints. References are bound to entries of the same paths, and constraints
are qualified alike.
-/

namespace HiddenNames

open SourceProgram (visibilityOf defaultInside accessWords)

theorem visibilityOf_unstated {modifiers : List String}
    (unstated : ¬modifiers.any (· ∈ accessWords) = true) (default : Visibility) :
    visibilityOf modifiers default = default := by
  have absent : ∀ word ∈ accessWords, word ∉ modifiers := by
    intro word known held
    apply unstated
    exact List.any_eq_true.mpr ⟨word, held, decide_eq_true known⟩
  have noPublic := absent "public" (by decide)
  have noProtected := absent "protected" (by decide)
  have noInternal := absent "internal" (by decide)
  have noPrivate := absent "private" (by decide)
  have noFile := absent "file" (by decide)
  simp [visibilityOf, noPublic, noProtected, noInternal, noPrivate, noFile]

theorem SourcePart.IsGrounded.default_eq {parts : List SourcePart} (agree : PartsAgree parts)
    {part other : SourcePart} (grounded : part.IsGrounded parts)
    (grounded' : other.IsGrounded parts)
    (spaces : part.space? = other.space?) (outer : part.outer = other.outer) :
    part.default = other.default := by
  rcases grounded with ⟨space?, header, rfl⟩ | ⟨owner, held, header, rfl⟩
  · rcases grounded' with ⟨space'?, header', rfl⟩ | ⟨owner', held', header', rfl⟩
    · rfl
    · exact absurd outer.symm owner'.chain_ne_nil
  · rcases grounded' with ⟨space'?, header', rfl⟩ | ⟨owner', held', header', rfl⟩
    · exact absurd outer owner.chain_ne_nil
    · have names : owner.fullName = owner'.fullName :=
        congrArg₂ SourceType.chainName spaces outer
      have kinds := (agree owner held owner' held' names).kind
      exact congrArg defaultInside kinds

namespace SourceType

/-- Two entries say the same of one type, constraints for each parameter and members in any
order. -/
structure Alike (t t' : SourceType) : Prop where
  place : SamePlace t t'
  kind : t'.kind = t.kind
  visibility : t'.visibility = t.visibility
  constraints : ∀ name, t'.constraints.lookup name = t.constraints.lookup name
  members : t.members.Perm t'.members

variable {t t' : SourceType}

theorem Alike.path (h : t.Alike t') : t'.path = t.path := by
  rw [SourceType.path, SourceType.path, h.place.space, h.place.chain]

theorem Alike.ownerName (h : t.Alike t') : t'.ownerName = t.ownerName := by
  rw [SourceType.ownerName, SourceType.ownerName, h.place.space, h.place.outer]

structure BindingKey where
  space? : Option String
  path : List (String × Nat)
  arity : Nat

def bindingKey (t : SourceType) : BindingKey := ⟨t.space?, t.path, t.arity⟩

theorem Alike.bindingKey (h : t.Alike t') : t'.bindingKey = t.bindingKey := by
  rw [SourceType.bindingKey, SourceType.bindingKey, h.place.space, h.path, arity, arity,
    h.place.parameters]

end SourceType

/-- What an entry merges does not depend on the order it is told in. -/
theorem Merges.alike {told told' : List SourceFact} {t t' : SourceType} (h : Merges told t)
    (h' : Merges told' t') (perm : told.Perm told')
    (agree : ∀ part ∈ partsOf told, ∀ other ∈ partsOf told, part.Agrees other)
    (defaults : ∀ part ∈ partsOf told, ∀ other ∈ partsOf told, part.default = other.default) :
    t.Alike t' := by
  have parts : (partsOf told').Perm (partsOf told) := (perm.filterMap _).symm
  obtain ⟨part, among, shape⟩ := h.exists_part
  have shape' := h'.shape part (parts.mem_iff.mpr among)
  constructor
  · constructor
    · rw [shape.space, shape'.space]
    · rw [shape.outer, shape'.outer]
    · rw [shape.name, shape'.name]
    · rw [shape.parameters, shape'.parameters]
  · rw [shape.kind, shape'.kind]
  · obtain ⟨speaker, speaks, same⟩ := h.visibility
    obtain ⟨other, speaks', same'⟩ := h'.visibility
    have speaks' := speaks'.perm parts
    rw [same, same']
    -- Where no part states it, both have the default of the place, which is one for all of them.
    rcases speaks.both speaks' with ⟨states, states'⟩ | ⟨unstated, unstated'⟩
    · exact ((agree speaker speaks.among other speaks'.among).visibility states states').symm
    · calc other.visibility = other.default := visibilityOf_unstated unstated' _
        _ = speaker.default := defaults other speaks'.among speaker speaks.among
        _ = speaker.visibility := (visibilityOf_unstated unstated _).symm
  · obtain ⟨speaker, speaks, same⟩ := h.constraints
    obtain ⟨other, speaks', same'⟩ := h'.constraints
    have speaks' := speaks'.perm parts
    rw [same, same']
    rcases speaks.both speaks' with ⟨states, states'⟩ | ⟨unstated, unstated'⟩
    · intro name
      exact ((agree speaker speaks.among other speaks'.among).constraints states states' name).symm
    · rw [not_not.mp unstated, not_not.mp unstated']
      exact fun _ => rfl
  · rw [h.members, h'.members]
    exact perm.flatMap_right _

namespace SourceProgram

structure Alike (p p' : SourceProgram) : Prop where
  forth : ∀ t ∈ p.types, ∃ t' ∈ p'.types, t.Alike t'
  back : ∀ t' ∈ p'.types, ∃ t ∈ p.types, t.Alike t'

variable {p p' : SourceProgram}

section facts

variable {facts facts' : List SourceFact}

theorem Describes.alike_entry (h : Describes p facts) (h' : Describes p' facts')
    (perm : facts.Perm facts') (agree : PartsAgree (partsOf facts)) {t t' : SourceType}
    (held : t ∈ p.types) (held' : t' ∈ p'.types) (same : t'.fullName = t.fullName) :
    t.Alike t' := by
  have told : (about t.fullName facts).Perm (about t'.fullName facts') := by
    rw [same]
    exact perm.filter _
  refine (h.merges t held).alike (h'.merges t' held') told ?_ ?_
  · intro part among other among'
    obtain ⟨known, name⟩ := mem_partsOf_about.mp among
    obtain ⟨known', name'⟩ := mem_partsOf_about.mp among'
    exact agree part known other known' (name.trans name'.symm)
  · intro part among other among'
    obtain ⟨known, _⟩ := mem_partsOf_about.mp among
    obtain ⟨known', _⟩ := mem_partsOf_about.mp among'
    have shape := (h.merges t held).shape part among
    have shape' := (h.merges t held).shape other among'
    exact (h.grounded part known).default_eq agree (h.grounded other known')
      (shape.space.symm.trans shape'.space) (shape.outer.symm.trans shape'.outer)

theorem Describes.alike (h : Describes p facts) (h' : Describes p' facts')
    (perm : facts.Perm facts') (agree : PartsAgree (partsOf facts)) : p.Alike p' := by
  have names : ∀ name, name ∈ p.types.map SourceType.fullName ↔
      name ∈ p'.types.map SourceType.fullName := by
    intro name
    rw [h.known, h'.known]
    exact (perm.map _).mem_iff
  constructor
  · intro t held
    obtain ⟨t', held', same⟩ := List.mem_map.mp ((names _).mp (List.mem_map_of_mem held))
    exact ⟨t', held', h.alike_entry h' perm agree held held' same⟩
  · intro t' held'
    obtain ⟨t, held, same⟩ := List.mem_map.mp ((names _).mpr (List.mem_map_of_mem held'))
    exact ⟨t, held, h.alike_entry h' perm agree held held' same.symm⟩

end facts

/-! References. -/

def only {α : Type} : List α → Option α
  | [x] => some x
  | _ => none

theorem only_map {α β : Type} (f : α → β) (xs : List α) : (only xs).map f = only (xs.map f) := by
  rcases xs with _ | ⟨x, _ | ⟨y, rest⟩⟩ <;> rfl

theorem only_of_perm {α : Type} {xs ys : List α} (perm : xs.Perm ys) : only xs = only ys := by
  rcases xs with _ | ⟨x, _ | ⟨y, rest⟩⟩
  · rw [perm.nil_eq]
  · rw [perm.singleton_eq]
  · rcases ys with _ | ⟨x', _ | ⟨y', rest'⟩⟩
    · rfl
    · cases perm.length_eq
    · rfl

/-- A full match counts if it is the only one, then the only tail, then the only one in the
namespace that the reference is written in. -/
theorem find_eq (distinct : (p.types.map SourceType.path).Nodup) (ref : TypeRef)
    (space? : Option String) :
    let tails := p.types.filter fun t => ref.namesTail t.path
    p.find ref space? = (only (p.types.filter fun t => ref.names t.path)).or
      ((only tails).or (space?.bind fun space =>
        only (tails.filter fun t => t.space? = some space))) := by
  intro tails
  have listed : matchRef SourceType.path p.types ref =
      (p.types.filter fun t => ref.names t.path, tails) := rfl
  rw [find, listed]
  cases full : p.types.filter fun t => ref.names t.path with
  | nil =>
    rcases tails with _ | ⟨t, _ | ⟨u, rest⟩⟩
    · cases space? <;> rfl
    · rfl
    · cases space? with
      | none => rfl
      | some space =>
        dsimp only [Option.or, Option.bind, only]
        generalize List.filter _ (t :: u :: rest) = scope
        rcases scope with _ | ⟨v, _ | ⟨w, more⟩⟩ <;> rfl
  | cons t rest =>
    cases rest with
    | nil => rfl
    | cons u rest =>
      -- Two full matches would have one path.
      have both : [t, u].Sublist (p.types.filter fun t => ref.names t.path) := by
        rw [full]
        exact ((List.nil_sublist rest).cons_cons u).cons_cons t
      have paths := distinct.sublist ((both.trans List.filter_sublist).map SourceType.path)
      have names : ∀ v ∈ [t, u], v.path = ref.path :=
        fun v held => of_decide_eq_true (List.mem_filter.mp (both.subset held)).2
      rw [List.map_cons, List.map_singleton, names t List.mem_cons_self,
        names u (List.mem_cons_of_mem _ List.mem_cons_self)] at paths
      exact absurd List.mem_cons_self (List.nodup_cons.mp paths).1

def findKey (keys : List SourceType.BindingKey) (ref : TypeRef) (space? : Option String) :
    Option SourceType.BindingKey :=
  let tails := keys.filter fun key => ref.namesTail key.path
  (only (keys.filter fun key => ref.names key.path)).or
    ((only tails).or (space?.bind fun space =>
      only (tails.filter fun key => key.space? = some space)))

theorem findKey_of_perm {keys keys' : List SourceType.BindingKey} (perm : keys.Perm keys')
    (ref : TypeRef) (space? : Option String) :
    findKey keys ref space? = findKey keys' ref space? := by
  have tails := perm.filter fun key => ref.namesTail key.path
  rw [findKey, findKey, only_of_perm (perm.filter _), only_of_perm tails]
  congr 2
  cases space? with
  | none => rfl
  | some space => exact only_of_perm (tails.filter _)

theorem find_key (distinct : (p.types.map SourceType.path).Nodup) (ref : TypeRef)
    (space? : Option String) :
    (p.find ref space?).map SourceType.bindingKey =
      findKey (p.types.map SourceType.bindingKey) ref space? := by
  rw [find_eq distinct, findKey, List.filter_map, List.filter_map, ← only_map, ← only_map,
    Option.map_or, Option.map_or]
  congr 2
  cases space? with
  | none => rfl
  | some space =>
    rw [Option.bind_some, Option.bind_some, List.filter_map, ← only_map]
    rfl

end SourceProgram

end HiddenNames
