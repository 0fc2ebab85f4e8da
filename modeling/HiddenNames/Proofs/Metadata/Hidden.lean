import HiddenNames.Metadata.Records
import HiddenNames.Proofs.Surface.Settled
import Mathlib.Data.Int.Bitwise
import Mathlib.Tactic.IntervalCases

/-!
The members of a compiled type that are hidden, read off the bits of its row. Flags are words in
two's complement, of which only the access bits and the bit for special names count. Main statement:
the view over the record of a row lists, in order, the names of the members that the bits hide.
-/

namespace HiddenNames

namespace Metadata

/-! Bits of flags. -/

def accessMask : Int := 0x7

def publicAccess : Int := 0x6

def specialNameMask : Int := 0x800

def IsPublic (flags : Int) : Prop := Int.land flags accessMask = publicAccess

instance (flags : Int) : Decidable (IsPublic flags) :=
  inferInstanceAs (Decidable (Int.land flags accessMask = publicAccess))

def IsSpecial (flags : Int) : Prop := Int.land flags specialNameMask ≠ 0

instance (flags : Int) : Decidable (IsSpecial flags) :=
  inferInstanceAs (Decidable (Int.land flags specialNameMask ≠ 0))

theorem land_zero (flags : Int) : Int.land flags 0 = 0 := by
  cases flags with
  | ofNat n => exact congrArg Int.ofNat (Nat.and_zero n)
  | negSucc n =>
    refine congrArg Int.ofNat (Nat.eq_of_testBit_eq fun i => ?_)
    rw [Nat.testBit_ldiff, Nat.zero_testBit, Bool.false_and]

/-- The lowest bit of a word counts one, the others twice what they count in the rest. -/
theorem land_bits (flags mask : Int) (low : Bool) :
    Int.land flags (Int.bit low mask) =
      2 * Int.land (flags / 2) mask + cond (flags.bodd && low) 1 0 := by
  conv_lhs => rw [← Int.bit_decomp flags]
  rw [Int.land_bit, Int.bit_val, Int.div2_val]

theorem bodd_eq (flags : Int) : cond flags.bodd 1 0 = flags % 2 := by
  have parts := Int.bodd_add_div2 flags
  rw [Int.div2_val] at parts
  omega

theorem land_low (k : Nat) (flags : Int) : Int.land flags (2 ^ k - 1) = flags % 2 ^ k := by
  induction k generalizing flags with
  | zero => simp [land_zero]
  | succ k ih =>
    have mask : (2 ^ (k + 1) - 1 : Int) = Int.bit true (2 ^ k - 1) := by
      rw [Int.bit_val, pow_succ]
      simp only [cond_true]
      omega
    have rest : flags % 2 ^ (k + 1) = 2 * (flags / 2 % 2 ^ k) + flags % 2 := by
      rw [pow_succ', Int.emod_def, Int.emod_def (flags / 2), Int.ediv_ediv_of_nonneg (by decide),
        mul_assoc]
      omega
    rw [mask, land_bits, ih, Bool.and_true, bodd_eq, rest]

theorem land_bit_ne_zero_iff (k : Nat) (flags : Int) :
    Int.land flags (2 ^ k) ≠ 0 ↔ flags / 2 ^ k % 2 = 1 := by
  induction k generalizing flags with
  | zero =>
    have mask : (2 ^ 0 : Int) = Int.bit true 0 := by decide
    rw [mask, land_bits, land_zero, Bool.and_true, bodd_eq, ← mask]
    omega
  | succ k ih =>
    have mask : (2 ^ (k + 1) : Int) = Int.bit false (2 ^ k) := by
      rw [Int.bit_val, pow_succ]
      simp only [cond_false]
      omega
    have down : flags / 2 ^ (k + 1) = flags / 2 / 2 ^ k := by
      rw [pow_succ', Int.ediv_ediv_of_nonneg (by decide)]
    rw [mask, land_bits, Bool.and_false, cond_false, ← mask, down, ← ih]
    omega

theorem memberVisibility_eq_pub_iff (flags : Int) :
    memberVisibility flags = .pub ↔ IsPublic flags := by
  have low : Int.land flags accessMask = flags % 8 := land_low 3 flags
  obtain ⟨bits, small, same⟩ : ∃ bits < 8, flags % 8 = Int.ofNat bits :=
    ⟨(flags % 8).toNat, by omega, (Int.toNat_of_nonneg (by omega)).symm⟩
  rw [IsPublic, low, memberVisibility, same]
  interval_cases bits <;> decide

theorem isSpecialName_iff (flags : Int) : isSpecialName flags = true ↔ IsSpecial flags := by
  have bit : IsSpecial flags ↔ flags / 2 ^ 11 % 2 = 1 := land_bit_ne_zero_iff 11 flags
  rw [bit, isSpecialName, hasBit, decide_eq_true_eq, Int.shiftRight_eq_div_pow]
  rfl

theorem broadest_eq_pub_iff (found : List Visibility) :
    Visibility.broadest found = .pub ↔ .pub ∈ found := by
  have others : ∀ v ∈ Visibility.byBreadth.tail, v ≠ .pub := by decide
  rw [Visibility.broadest, show Visibility.byBreadth = .pub :: Visibility.byBreadth.tail from rfl,
    List.find?_cons]
  by_cases seen : Visibility.pub ∈ found
  · simp [seen]
  · simp only [seen, decide_false, iff_false]
    cases first : Visibility.byBreadth.tail.find? (· ∈ found) with
    | none => exact nofun
    | some v => exact others v (List.mem_of_find?_eq_some first)

theorem RawGroup.visibility_eq_pub_iff (group : RawGroup) :
    group.visibility = .pub ↔ ∃ flags ∈ group.accessorFlags, IsPublic flags := by
  rw [RawGroup.visibility, broadest_eq_pub_iff, List.mem_map]
  simp only [memberVisibility_eq_pub_iff]

/-! Members of rows. -/

/-- The row has a hidden member of the name: a field or an ordinary method that is not public, or a
property or event without a public accessor. -/
def RawType.Hides (raw : RawType) (name : String) : Prop :=
  (∃ f ∈ raw.fields, f.name = name ∧ ¬IsPublic f.flags) ∨
  (∃ m ∈ raw.methods, m.name = name ∧ ¬IsPublic m.flags ∧ ¬IsSpecial m.flags) ∨
  ∃ g ∈ raw.properties ++ raw.events, g.name = name ∧ ∀ flags ∈ g.accessorFlags, ¬IsPublic flags

/-- A member of a compiled type is hidden where it is neither public nor special, and not one that a
compiler made up. -/
theorem exists_hidden_iff {α : Type} (xs : List α) (member : α → Member) (name : String) :
    (∃ m ∈ xs.map member, m.isHiddenOutside = true ∧ m.name = name) ↔
      name.toList.head? ≠ some '<' ∧ ∃ x ∈ xs, (member x).name = name ∧
        (member x).visibility ≠ .pub ∧ (member x).special = false := by
  simp only [List.mem_map, exists_exists_and_eq_and, Member.isHiddenOutside, Member.isSynthesized,
    isSynthesizedName, Bool.and_eq_true, Bool.not_eq_true', decide_eq_true_eq, beq_eq_false_iff_ne]
  constructor
  · rintro ⟨x, held, ⟨⟨hidden, plain⟩, ordinary⟩, rfl⟩
    exact ⟨plain, x, held, rfl, hidden, ordinary⟩
  · rintro ⟨plain, x, held, rfl, hidden, ordinary⟩
    exact ⟨x, held, ⟨⟨hidden, plain⟩, ordinary⟩, rfl⟩

theorem exists_hidden_member_iff (raw : RawType) (name : String) :
    (∃ m ∈ raw.members, m.isHiddenOutside = true ∧ m.name = name) ↔
      name.toList.head? ≠ some '<' ∧ raw.Hides name := by
  rw [RawType.members, RawType.Hides]
  simp only [List.mem_append, or_and_right, exists_or, exists_hidden_iff, Ne,
    memberVisibility_eq_pub_iff, RawGroup.visibility_eq_pub_iff, ← isSpecialName_iff, not_exists,
    not_and, Bool.not_eq_true, and_true, ← and_or_left, or_assoc]

@[simp]
theorem recordOf_members (rows : List RawType) (enclosing : List (Int × Int)) (fuel : Nat)
    (raw : RawType) : (recordOf rows enclosing fuel raw).tree.head.members = raw.members := by
  cases fuel <;> rfl

/-- Whichever rows the record of a row is made from, and wherever the type stands, the view over the
record hides the names that the bits of the row hide, except for those a compiler made up: each
once, in ascending order. -/
theorem hiddenNames_of_row (rows : List RawType) (enclosing : List (Int × Int)) (fuel : Nat)
    (raw : RawType) (space? : Option String) (outer : List TypeHead) :
    let v : TypeView :=
      { tier := .metadata, space?, outer, tree := (recordOf rows enclosing fuel raw).tree }
    v.hiddenNames.Pairwise (· < ·) ∧
      ∀ name, name ∈ v.hiddenNames ↔ name.toList.head? ≠ some '<' ∧ raw.Hides name := by
  intro v
  refine ⟨inOrder_increasing _, fun name => ?_⟩
  have members : v.head.members = raw.members := recordOf_members rows enclosing fuel raw
  rw [TypeView.hiddenNames, mem_inOrder, members, List.mem_map]
  simp only [List.mem_filter, and_assoc]
  exact exists_hidden_member_iff raw name

end Metadata

end HiddenNames
