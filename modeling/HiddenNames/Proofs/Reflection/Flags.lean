import HiddenNames.Proofs.Metadata.Rows
import HiddenNames.Reflection.Record

/-!
What a running module tells of a type whose row in the tables is known. The flags of the row decide
the accessibility and the kind, constructors are no methods there, and accessors may be missing.
Both descriptions say the same of the type, and hide the same names of its members.
-/

namespace HiddenNames

namespace Metadata

def RawMember.isConstructor (m : RawMember) : Bool := m.name = ".ctor" || m.name = ".cctor"

structure RawType.IsLawful (raw : RawType) : Prop where
  constructors : ∀ m ∈ raw.methods, m.isConstructor = true → isSpecialName m.flags = true
  enumBase : raw.space = "System" → raw.name = "Enum" → raw.extends? ≠ some "System.Enum"

end Metadata

namespace Reflection

open Metadata (RawMember RawGroup RawType)

def memberTraits (flags : Int) : MemberTraits where
  isPublic := flags % 8 = 6
  isFamilyOrAssembly := flags % 8 = 5
  isAssembly := flags % 8 = 3
  isFamily := flags % 8 = 4
  isFamilyAndAssembly := flags % 8 = 2
  isSpecialName := flags / 0x800 % 2 = 1

def typeTraits (raw : RawType) : TypeTraits where
  isPublic := raw.flags % 8 = 1
  isNestedPublic := raw.flags % 8 = 2
  isNestedPrivate := raw.flags % 8 = 3
  isNestedFamily := raw.flags % 8 = 4
  isNestedFamilyAndAssembly := raw.flags % 8 = 6
  isNestedFamilyOrAssembly := raw.flags % 8 = 7
  isInterface := raw.flags / 0x20 % 2 = 1
  isEnum := raw.extends? = some "System.Enum"
  isValueType := raw.extends? = some "System.Enum" ∨
    raw.extends? = some "System.ValueType" ∧ ¬(raw.space = "System" ∧ raw.name = "Enum")

def memberInfo (m : RawMember) : MemberInfo := ⟨m.name, memberTraits m.flags⟩

def GroupInfo.told (g : GroupInfo) : String × List MemberTraits :=
  (g.name, g.accessors.filterMap fun m => m.map MemberInfo.traits)

def groupTold (g : RawGroup) : String × List MemberTraits :=
  (g.name, g.accessorFlags.map memberTraits)

/-- The running module tells of a type what its row and the flags in it say. Members may be told in
any order. The namespace is that of the outermost type. -/
structure TypeInfo.Tells (info : TypeInfo) (space : String) (raw : RawType) : Prop where
  name : info.name = raw.name
  space : namedSpace info.space? = namedSpace (some space)
  traits : info.traits = typeTraits raw
  fields : info.fields.Perm (raw.fields.map memberInfo)
  methods : info.methods.Perm ((raw.methods.filter fun m => !m.isConstructor).map memberInfo)
  properties : (info.properties.map GroupInfo.told).Perm (raw.properties.map groupTold)
  events : (info.events.map GroupInfo.told).Perm (raw.events.map groupTold)

/-! Flags. -/

theorem hasBit_eq (bit : Nat) (flags : Int) :
    Metadata.hasBit bit flags = decide (flags / 2 ^ bit % 2 = 1) := by
  rw [Metadata.hasBit, Int.shiftRight_eq_div_pow]
  rfl

theorem low_bits (flags : Int) :
    flags % 8 = 0 ∨ flags % 8 = 1 ∨ flags % 8 = 2 ∨ flags % 8 = 3 ∨ flags % 8 = 4 ∨ flags % 8 = 5 ∨
      flags % 8 = 6 ∨ flags % 8 = 7 := by
  omega

@[simp]
theorem memberTraits_visibility (flags : Int) :
    (memberTraits flags).visibility = Metadata.memberVisibility flags := by
  rw [MemberTraits.visibility, memberTraits, Metadata.memberVisibility]
  rcases low_bits flags with bits | bits | bits | bits | bits | bits | bits | bits <;>
    rw [bits] <;> rfl

@[simp]
theorem typeTraits_visibility (raw : RawType) :
    (typeTraits raw).visibility = Metadata.typeVisibility raw.flags := by
  rw [TypeTraits.visibility, typeTraits, Metadata.typeVisibility]
  rcases low_bits raw.flags with bits | bits | bits | bits | bits | bits | bits | bits <;>
    rw [bits] <;> rfl

@[simp]
theorem memberTraits_special (flags : Int) :
    (memberTraits flags).isSpecialName = Metadata.isSpecialName flags :=
  (hasBit_eq 11 flags).symm

/-- Only one namespace and name make up the full name of the base of all enumerations. -/
theorem enum_name_iff (raw : RawType) :
    raw.space ++ "." ++ raw.name = "System.Enum" ↔ raw.space = "System" ∧ raw.name = "Enum" := by
  constructor
  · intro same
    have chars : raw.space.toList ++ '.' :: raw.name.toList =
        "System".toList ++ '.' :: "Enum".toList := by
      rw [← String.toList_inj, String.toList_append, String.toList_append,
        List.append_assoc] at same
      exact same
    rcases (Text.append_cons_eq_iff ..).mp chars with parts | ⟨x, cut, _⟩ | ⟨x, _, cut⟩
    · exact ⟨String.toList_inj.mp parts.1, String.toList_inj.mp parts.2⟩
    · have dot : '.' ∈ "System".toList := by
        rw [cut]
        exact List.mem_append_right _ List.mem_cons_self
      exact absurd dot (by decide)
    · have dot : '.' ∈ "Enum".toList := by
        rw [cut]
        exact List.mem_append_right _ List.mem_cons_self
      exact absurd dot (by decide)
  · rintro ⟨space, name⟩
    rw [space, name]
    rfl

theorem typeTraits_kind {raw : RawType} (h : raw.IsLawful) : (typeTraits raw).kind = raw.kind := by
  have interface : (typeTraits raw).isInterface = Metadata.isInterface raw.flags :=
    (hasBit_eq 5 raw.flags).symm
  rw [TypeTraits.kind, RawType.kind, interface]
  simp only [enum_name_iff]
  by_cases base : raw.space = "System" ∧ raw.name = "Enum"
  · have other := h.enumBase base.1 base.2
    simp only [typeTraits, other, base]
    simp
  · simp only [typeTraits, base]
    by_cases enum : raw.extends? = some "System.Enum"
    · simp [enum]
    · simp [enum]

/-! Members. -/

def groupMember (kind : MemberKind) (told : String × List MemberTraits) : Member where
  name := told.1
  kind := kind
  visibility := Visibility.broadest (told.2.map MemberTraits.visibility)

def methodMember (m : MemberInfo) : Member where
  name := m.name
  kind := .method
  visibility := m.traits.visibility
  special := m.traits.isSpecialName

def fieldMember (f : MemberInfo) : Member where
  name := f.name
  kind := .field
  visibility := f.traits.visibility

theorem GroupInfo.visibility_eq (g : GroupInfo) :
    g.visibility = Visibility.broadest (g.told.2.map MemberTraits.visibility) := by
  rw [GroupInfo.visibility, GroupInfo.told, List.map_filterMap]
  simp only [Option.map_map]
  rfl

theorem groupTold_visibility (g : RawGroup) :
    g.visibility = Visibility.broadest ((groupTold g).2.map MemberTraits.visibility) := by
  rw [RawGroup.visibility, groupTold, List.map_map]
  exact congrArg Visibility.broadest
    (List.map_congr_left fun f _ => (memberTraits_visibility f).symm)

theorem TypeInfo.members_eq (info : TypeInfo) : info.members =
    info.fields.map fieldMember ++
      (info.properties.map GroupInfo.told).map (groupMember .property) ++
      (info.events.map GroupInfo.told).map (groupMember .event) ++
      info.methods.map methodMember := by
  simp only [TypeInfo.members, List.map_map, GroupInfo.visibility_eq]
  rfl

theorem rowMembers_eq (raw : RawType) : raw.members =
    (raw.fields.map memberInfo).map fieldMember ++ (raw.methods.map memberInfo).map methodMember ++
      (raw.properties.map groupTold).map (groupMember .property) ++
      (raw.events.map groupTold).map (groupMember .event) := by
  simp only [RawType.members, List.map_map, groupTold_visibility, ← memberTraits_visibility,
    ← memberTraits_special]
  rfl

variable {info : TypeInfo} {space : String} {raw : RawType}

/-- Both list the same members, except for those that are marked as special. -/
theorem TypeInfo.Tells.mem_members (h : info.Tells space raw) (lawful : raw.IsLawful) {m : Member}
    (ordinary : m.special = false) : m ∈ info.members ↔ m ∈ raw.members := by
  have fields := (h.fields.map fieldMember).mem_iff (a := m)
  have properties := (h.properties.map (groupMember .property)).mem_iff (a := m)
  have events := (h.events.map (groupMember .event)).mem_iff (a := m)
  have methods : m ∈ info.methods.map methodMember ↔
      m ∈ (raw.methods.map memberInfo).map methodMember := by
    rw [(h.methods.map methodMember).mem_iff, List.map_map, List.map_map, List.mem_map,
      List.mem_map]
    refine exists_congr fun method => and_congr_left fun same => ?_
    rw [List.mem_filter, and_iff_left_of_imp]
    intro listed
    rw [Bool.not_eq_true', ← Bool.not_eq_true]
    intro constructs
    have special := lawful.constructors method listed constructs
    rw [← same] at ordinary
    rw [← memberTraits_special] at special
    exact Bool.noConfusion (special.symm.trans ordinary)
  rw [TypeInfo.members_eq, rowMembers_eq]
  simp only [List.mem_append, fields, properties, events, methods]
  grind

theorem TypeInfo.Tells.face (h : info.Tells space raw) (lawful : raw.IsLawful)
    (members : List Member) : (info.head raw.arity members).typeHead.face = raw.typeHead.face := by
  have kind : info.traits.kind = raw.kind := by rw [h.traits, typeTraits_kind lawful]
  have visibility : info.traits.visibility = Metadata.typeVisibility raw.flags := by
    rw [h.traits, typeTraits_visibility]
  simp only [TypeHead.face, RecordHead.typeHead, TypeInfo.head, RawType.typeHead,
    RawType.head, h.name, kind, visibility]

theorem TypeInfo.Tells.settled (h : info.Tells space raw) (lawful : raw.IsLawful) :
    (info.head raw.arity info.members).typeHead.settled .loaded =
    raw.typeHead.settled .metadata := by
  refine TypeHead.settled_congr (h.face lawful info.members) (inOrder_congr fun name => ?_)
  simp only [List.mem_map, List.mem_filter]
  refine exists_congr fun m => and_congr_left fun _ => and_congr_left fun hides => ?_
  have ordinary : m.special = false := by
    simp only [Member.isHidden, Member.isHiddenOutside, Bool.and_eq_true,
      Bool.not_eq_true'] at hides
    exact hides.2
  exact h.mem_members lawful ordinary

end Reflection

end HiddenNames
