import HiddenNames.Proofs.Resolution.Sources
import HiddenNames.Proofs.Source.Alike
import HiddenNames.Types.Reference
import Mathlib.Data.List.Infix

/-!
Which type of the program a reference names. A reference names the path that it gives in full, and
the tail of a path when it has no alias; one without segments names nothing. The reference and the
namespace that it is written in say it on their own: the type of the written path, else the one type
whose path ends so, of all types or of those of the namespace. The search through the entries comes
to just this type, in whatever order they stand.
-/

namespace HiddenNames

namespace TypeRef

/-- A declared path ends in the written one. With an alias nothing is left out, and without a
segment nothing is written. -/
structure IsTailOf (ref : TypeRef) (declared : List (String × Nat)) : Prop where
  whole : ref.alias? = none
  written : ref.segments ≠ []
  ends : ref.path <:+ declared

variable {ref : TypeRef} {declared : List (String × Nat)}

instance (ref : TypeRef) (declared : List (String × Nat)) : Decidable (ref.IsTailOf declared) :=
  decidable_of_iff (ref.alias?.isNone = true ∧ ref.segments.isEmpty = false ∧
    ref.path <:+ declared) <| by
    rw [Option.isNone_iff_eq_none, List.isEmpty_eq_false_iff]
    exact ⟨fun ⟨whole, written, ends⟩ => ⟨whole, written, ends⟩,
      fun tail => ⟨tail.whole, tail.written, tail.ends⟩⟩

theorem names_iff : ref.names declared = true ↔ declared = ref.path := by
  rw [names, decide_eq_true_eq]

theorem namesTail_iff :
    ref.namesTail declared = true ↔ declared ≠ ref.path ∧ ref.IsTailOf declared := by
  rw [namesTail, Bool.and_eq_true, Bool.and_eq_true, Bool.and_eq_true, Option.isNone_iff_eq_none,
    Bool.not_eq_true', List.isEmpty_eq_false_iff, decide_eq_true_eq, List.isSuffixOf_iff_suffix]
  constructor
  · rintro ⟨⟨⟨whole, written⟩, longer⟩, ends⟩
    exact ⟨longer, whole, written, ends⟩
  · rintro ⟨longer, whole, written, ends⟩
    exact ⟨⟨⟨whole, written⟩, longer⟩, ends⟩

end TypeRef

namespace SourceProgram

/-- No type has the written path, and of the types whose paths end so this is the one that is meant:
it is the only one, or the only one in the namespace that the reference is written in. -/
structure IsTail (p : SourceProgram) (ref : TypeRef) (space? : Option String) (t : SourceType) :
    Prop where
  absent : ∀ u ∈ p.types, u.path ≠ ref.path
  ends : ref.IsTailOf t.path
  chosen : (∀ u ∈ p.types, ref.IsTailOf u.path → u = t) ∨
    ∃ space, space? = some space ∧ t.space? = some space ∧
      ∀ u ∈ p.types, ref.IsTailOf u.path → u.space? = some space → u = t

def Names (p : SourceProgram) (ref : TypeRef) (space? : Option String) (t : SourceType) : Prop :=
  t ∈ p.types ∧ (t.path = ref.path ∨ p.IsTail ref space? t)

variable {p q : SourceProgram} {ref : TypeRef} {space? : Option String} {t : SourceType}

theorem only_eq_some {α : Type} {xs : List α} {x : α} : only xs = some x ↔ xs = [x] := by
  rcases xs with _ | ⟨y, _ | ⟨z, rest⟩⟩ <;> simp [only]

theorem eq_singleton_iff {α : Type} {xs : List α} (distinct : xs.Nodup) {x : α} :
    xs = [x] ↔ x ∈ xs ∧ ∀ y ∈ xs, y = x := by
  constructor
  · rintro rfl
    exact ⟨List.mem_singleton_self x, fun y held => List.mem_singleton.mp held⟩
  · rintro ⟨held, alone⟩
    exact List.perm_singleton.mp <|
      (List.perm_ext_iff_of_nodup distinct (List.nodup_singleton x)).mpr fun y =>
        ⟨fun among => List.mem_singleton.mpr (alone y among), fun same =>
          List.mem_singleton.mp same ▸ held⟩

theorem only_eq_some_iff {α : Type} {xs : List α} (distinct : xs.Nodup) {x : α} :
    only xs = some x ↔ x ∈ xs ∧ ∀ y ∈ xs, y = x :=
  only_eq_some.trans (eq_singleton_iff distinct)

theorem only_full_iff (distinct : (p.types.map SourceType.path).Nodup) :
    only (p.types.filter fun u => ref.names u.path) = some t ↔ t ∈ p.types ∧ t.path = ref.path := by
  rw [only_eq_some_iff ((List.Nodup.of_map _ distinct).filter _), List.mem_filter,
    TypeRef.names_iff, and_iff_left_iff_imp]
  rintro ⟨held, full⟩ u among
  obtain ⟨known, same⟩ := List.mem_filter.mp among
  exact List.inj_on_of_nodup_map distinct known held ((TypeRef.names_iff.mp same).trans full.symm)

/-- Without a type of the written path, the tails that are gone through are those of the
reference. -/
theorem mem_tails_iff (absent : ∀ u ∈ p.types, u.path ≠ ref.path) :
    t ∈ p.types.filter (fun u => ref.namesTail u.path) ↔ t ∈ p.types ∧ ref.IsTailOf t.path := by
  rw [List.mem_filter, TypeRef.namesTail_iff]
  exact and_congr_right fun held => and_iff_right (absent t held)

theorem find_tail_iff (distinct : (p.types.map SourceType.path).Nodup)
    (absent : ∀ u ∈ p.types, u.path ≠ ref.path) :
    p.find ref space? = some t ↔ t ∈ p.types ∧ p.IsTail ref space? t := by
  have apart : (p.types.filter fun u => ref.namesTail u.path).Nodup :=
    (List.Nodup.of_map _ distinct).filter _
  have full : only (p.types.filter fun u => ref.names u.path) = none :=
    Option.eq_none_iff_forall_ne_some.mpr fun u found =>
      absent u ((only_full_iff distinct).mp found).1 ((only_full_iff distinct).mp found).2
  have tail : ∀ u, only (p.types.filter fun u => ref.namesTail u.path) = some u ↔
      (u ∈ p.types ∧ ref.IsTailOf u.path) ∧ ∀ v ∈ p.types, ref.IsTailOf v.path → v = u := by
    intro u
    simp only [only_eq_some_iff apart, mem_tails_iff absent, and_imp]
  have inside : ∀ space u, only ((p.types.filter fun u => ref.namesTail u.path).filter
      fun u => u.space? = some space) = some u ↔ ((u ∈ p.types ∧ ref.IsTailOf u.path) ∧
        u.space? = some space) ∧ ∀ v ∈ p.types, ref.IsTailOf v.path → v.space? = some space →
          v = u := by
    intro space u
    simp only [only_eq_some_iff (apart.filter _), List.mem_filter (p := fun u => decide _),
      mem_tails_iff absent, decide_eq_true_eq, and_imp]
  rw [find_eq distinct, full, Option.none_or, Option.or_eq_some_iff, tail]
  simp only [Option.bind_eq_some_iff, inside]
  constructor
  · rintro (⟨⟨held, ends⟩, alone⟩ | ⟨-, space, given, ⟨⟨held, ends⟩, own⟩, alone⟩)
    · exact ⟨held, absent, ends, .inl alone⟩
    · exact ⟨held, absent, ends, .inr ⟨space, given, own, alone⟩⟩
  · rintro ⟨held, -, ends, alone | ⟨space, given, own, alone⟩⟩
    · exact .inl ⟨⟨held, ends⟩, alone⟩
    · -- The namespace is asked only where there is no single tail; a single one would be this type.
      cases single : only (p.types.filter fun u => ref.namesTail u.path) with
      | none => exact .inr ⟨rfl, space, given, ⟨⟨held, ends⟩, own⟩, alone⟩
      | some u =>
        obtain ⟨-, every⟩ := (tail u).mp single
        exact .inl ⟨⟨held, ends⟩,
          fun v known inner => (every v known inner).trans (every t held ends).symm⟩

theorem find_eq_some_iff (distinct : (p.types.map SourceType.path).Nodup) :
    p.find ref space? = some t ↔ p.Names ref space? t := by
  by_cases full : ∃ u ∈ p.types, u.path = ref.path
  · obtain ⟨u, known, same⟩ := full
    have found : only (p.types.filter fun v => ref.names v.path) = some u :=
      (only_full_iff distinct).mpr ⟨known, same⟩
    rw [find_eq distinct, found, Option.some_or, Option.some.injEq]
    constructor
    · rintro rfl
      exact ⟨known, .inl same⟩
    · rintro ⟨held, own | tail⟩
      · exact List.inj_on_of_nodup_map distinct known held (same.trans own.symm)
      · exact absurd same (tail.absent u known)
  · have absent : ∀ u ∈ p.types, u.path ≠ ref.path := fun u known same => full ⟨u, known, same⟩
    rw [find_tail_iff distinct absent]
    exact and_congr_right fun held => (or_iff_right (absent t held)).symm

theorem names_of_perm (order : q.types.Perm p.types) :
    q.Names ref space? t ↔ p.Names ref space? t := by
  have isTail : q.IsTail ref space? t ↔ p.IsTail ref space? t := by
    constructor
    · rintro ⟨absent, ends, chosen⟩
      simp only [order.mem_iff] at absent chosen
      exact ⟨absent, ends, chosen⟩
    · rintro ⟨absent, ends, chosen⟩
      simp only [← order.mem_iff] at absent chosen
      exact ⟨absent, ends, chosen⟩
  rw [Names, Names, order.mem_iff, isTail]

/-- Where paths tell types apart, what is found is the type that the reference names, and nothing is
found where it names none; the order of declarations has no part in it, and every type is found by
its own full reference. -/
theorem find_decides (distinct : (p.types.map SourceType.path).Nodup) :
    (∀ ref space? t, p.find ref space? = some t ↔ p.Names ref space? t) ∧
      (∀ ref space?, p.find ref space? = none ↔ ∀ t, ¬p.Names ref space? t) ∧
      (∀ q : SourceProgram, q.types.Perm p.types →
        ∀ ref space?, q.find ref space? = p.find ref space?) ∧
      ∀ t ∈ p.types, ∀ space?, p.find t.ref space? = some t := by
  refine ⟨fun ref space? t => find_eq_some_iff distinct, fun ref space? => ?_, ?_, ?_⟩
  · rw [Option.eq_none_iff_forall_ne_some]
    exact forall_congr' fun t => not_congr (find_eq_some_iff distinct)
  · intro q order ref space?
    have distinct' := ((order.map SourceType.path).nodup_iff).mpr distinct
    refine Option.ext fun t => ?_
    rw [find_eq_some_iff distinct', find_eq_some_iff distinct, names_of_perm order]
  · intro t held space?
    exact (find_eq_some_iff distinct).mpr ⟨held, .inl (ref_path t).symm⟩

def twin (space : String) : SourceType where
  space? := some space
  name := "T"
  kind := .classKind
  visibility := .pub

def twinSpaces : SourceProgram where
  types := [twin "N.A", twin "N.B"]

/-- The name of both classes names neither of them, and in a namespace it names the one that stands
there. A full reference names its class in any namespace, also where the classes change places. -/
theorem twinSpaces_find : (twinSpaces.types.map SourceType.path).Nodup ∧
    twinSpaces.find (.mk none [.mk "T" []]) = none ∧
    twinSpaces.find (.mk none [.mk "T" []]) (some "N.B") = some (twin "N.B") ∧
    { twinSpaces with types := [twin "N.B", twin "N.A"] }.find (twin "N.A").ref (some "N.B") =
      some (twin "N.A") := by
  have distinct : (twinSpaces.types.map SourceType.path).Nodup := by decide
  obtain ⟨names, -, order, whole⟩ := find_decides distinct
  refine ⟨distinct, rfl, ?_, ?_⟩
  · apply (names _ _ _).mpr
    exact ⟨by decide, .inr ⟨by decide, by decide, .inr ⟨"N.B", rfl, rfl, by decide⟩⟩⟩
  · rw [order _ (List.Perm.swap _ _ _)]
    exact whole (twin "N.A") (by decide) (some "N.B")

end SourceProgram

end HiddenNames
