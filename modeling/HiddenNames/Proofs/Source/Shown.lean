import HiddenNames.Proofs.Source.Nested
import HiddenNames.Proofs.Surface.Counts

/-!
When a type of a program has something to show: a private member, or a type inside of it, at any
depth, that is neither public nor internal. The names of the types that a source declares can all be
read, so nothing goes wrong on the walk through them.
-/

namespace HiddenNames

theorem inOrder_nil_iff (names : List String) : inOrder names = [] ↔ names = [] := by
  constructor
  · intro none
    have length := congrArg List.length none
    rw [inOrder, List.length_mergeSort] at length
    cases names with
    | nil => rfl
    | cons name rest =>
      rw [List.eraseDups_cons] at length
      cases length
  · rintro rfl
    rw [inOrder, List.eraseDups_nil, List.mergeSort_nil]

namespace SourceProgram

variable {p : SourceProgram}

theorem treesIn_readable (owner : String) (types : List SourceType) :
    ∀ t ∈ p.treesIn owner types, t.head.nameError = none ∧ t.walkError = none := by
  induction types generalizing owner with
  | nil => exact fun _ held => absurd held List.not_mem_nil
  | cons first rest ih =>
    intro t held
    rw [treesIn] at held
    split at held
    · rcases List.mem_cons.mp held with rfl | later
      · exact ⟨rfl, TypeTree.walkError_none (ih first.fullName)⟩
      · exact ih owner t later
    · exact ih owner t held

@[simp]
theorem view_walkError (p : SourceProgram) (t : SourceType) : (p.view t).tree.walkError = none :=
  TypeTree.walkError_none (treesIn_readable t.fullName p.types)

/-- A private member with a name of its own, or a type inside that is neither public nor
internal. -/
def HasHiddenNames (p : SourceProgram) (t : SourceType) : Prop :=
  (∃ m ∈ t.members, m.visibility = .priv ∧ m.isSynthesized = false) ∨
    ∃ inner ∈ p.types, inner.IsWithin t ∧ inner.visibility ≠ .pub ∧ inner.visibility ≠ .internal

instance (p : SourceProgram) (t : SourceType) : Decidable (p.HasHiddenNames t) :=
  inferInstanceAs (Decidable (_ ∨ _))

theorem isBroad_false_iff (visibility : Visibility) :
    visibility.isBroad false = false ↔ visibility ≠ .pub ∧ visibility ≠ .internal := by
  cases visibility <;> decide

theorem hiddenNames_nil_iff (h : p.IsIndexed) {t : SourceType} (held : t ∈ p.types) :
    (p.view t).hiddenNames = [] ↔
      ∀ m ∈ t.members, m.visibility = .priv → m.isSynthesized = true := by
  have hidden : (p.view t).hiddenNames =
      inOrder ((t.members.filter Member.isHiddenInSource).map Member.name) := rfl
  rw [hidden, inOrder_nil_iff, List.map_eq_nil_iff, List.filter_eq_nil_iff]
  apply forall₂_congr
  intro m among
  have ordinary := h.ordinary t held m among
  simp only [Member.isHiddenInSource, ordinary, Bool.and_false, Bool.not_false, Bool.and_true,
    Bool.and_eq_true, decide_eq_true_eq, Bool.not_eq_true', not_and, Bool.not_eq_false]

/-- A type that can be named from everywhere has a unit exactly when there is something to show. -/
theorem unit_isSome_iff (h : p.IsIndexed) {t : SourceType} (held : t ∈ p.types)
    (isOpen : p.IsOpen t) (access : Access) (exposure : Exposure) (identity? : Option String) :
    ((p.described t).unit access exposure identity?).isSome = true ↔ p.HasHiddenNames t := by
  have members := hiddenNames_nil_iff h held
  have containers := containers_nil_iff h held isOpen exposure []
  have count : (p.described t).containerCount exposure = 0 ↔
      (ContainerTree.ofTarget (p.view t) ⟨false, exposure⟩ []).nodes = [] :=
    List.length_eq_zero_iff
  rw [Resolved.unit_isSome, Bool.not_eq_true', ← Bool.not_eq_true, Bool.and_eq_true,
    List.isEmpty_iff, beq_iff_eq, count, containers]
  have view : (p.described t).view = p.view t := rfl
  rw [view, members, HasHiddenNames, not_and_or]
  apply or_congr
  · push Not
    simp only [Bool.not_eq_true]
  · push Not
    simp only [Bool.not_eq_true, isBroad_false_iff]

end SourceProgram

end HiddenNames
