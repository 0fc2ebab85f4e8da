import HiddenNames.Proofs.Containers.Walk
import HiddenNames.Proofs.Source.Views
import HiddenNames.Surface.Unit
import Mathlib.Tactic.ByContra
import Mathlib.Tactic.Push

/-!
The containers of a type of a program. The walk comes to the types inside of it, at any depth, and
gives a container to those that are restricted or inside of a restricted one. If the type can be
named from everywhere, these are the types that something between keeps from being named, in both
modes of exposure.
-/

namespace HiddenNames

open ContainerTree (Walked arrangedTarget)

theorem not_synthesized_of_word {name : String} (h : CSharp.IsWordName name) :
    isSynthesizedName name = false := by
  apply beq_eq_false_iff_ne.mpr
  intro mark
  have held := List.mem_of_mem_head? (Option.mem_def.mpr mark)
  exact absurd (h '<' held) (by decide)

theorem SourceType.IsWithin.shorter {t around : SourceType} (h : t.IsWithin around) :
    around.outer.length < t.outer.length := by
  have length := h.outer.length_le
  rw [chain, List.length_append, List.length_singleton] at length
  exact length

namespace SourceProgram

variable {p : SourceProgram} {outlook : Outlook}

def described (p : SourceProgram) (t : SourceType) : Resolved where
  tier := .static
  view := p.view t
  module? := some p.assemblyName

theorem mem_arranged_nested (h : p.IsIndexed) {t : SourceType} (held : t ∈ p.types)
    {tree : TypeTree} : tree ∈ (arrangedTarget (p.view t)).tree.nested ↔
      ∃ inner ∈ p.types, inner.IsIn t ∧ tree = (p.view inner).tree.arranged := by
  refine TypeTree.mem_arranged_nested.trans ?_
  constructor
  · rintro ⟨nested, among, _, rfl⟩
    obtain ⟨inner, known, inside, rfl⟩ := (mem_view_nested h held).mp among
    exact ⟨inner, known, inside, rfl⟩
  · rintro ⟨inner, known, inside, rfl⟩
    have among := (mem_view_nested h held).mpr ⟨inner, known, inside, rfl⟩
    exact ⟨_, among, not_synthesized_of_word (h.named inner known), rfl⟩

theorem arranged_child (h : p.IsIndexed) {t inner : SourceType} (held : t ∈ p.types)
    (inside : inner.IsIn t) :
    (arrangedTarget (p.view t)).child (p.view inner).tree.arranged =
      arrangedTarget (p.view inner) := by
  rw [ContainerTree.arrangedTarget_child, view_child h held inside]

def IsCovered (p : SourceProgram) (outlook : Outlook) (target t : SourceType) : Prop :=
  ∃ w ∈ p.types, (w = t ∨ t.IsWithin w) ∧ w.IsWithin target ∧
    (p.view w).isRestricted outlook.outside outlook.exposure = true

theorem not_covered_self (target : SourceType) : ¬p.IsCovered outlook target target := by
  rintro ⟨w, _, rfl | outside, inside, _⟩
  · exact absurd inside.shorter (Nat.lt_irrefl _)
  · exact absurd (inside.shorter.trans outside.shorter) (Nat.lt_irrefl _)

/-- A type is covered when the type around it is, or when it is restricted itself. -/
theorem isCovered_inside (h : p.IsIndexed) {target t inner : SourceType} (held : t ∈ p.types)
    (known : inner ∈ p.types) (inside : inner.IsIn t) (among : t = target ∨ t.IsWithin target) :
    p.IsCovered outlook target inner ↔ p.IsCovered outlook target t ∨
      (p.view inner).isRestricted outlook.outside outlook.exposure = true := by
  have below : inner.IsWithin target := by
    rcases among with rfl | within
    · exact inside.within
    · exact inside.within.trans within
  constructor
  · rintro ⟨w, knownW, rfl | outside, within, restricted⟩
    · exact Or.inr restricted
    · refine Or.inl ⟨w, knownW, ?_, within, restricted⟩
      exact (h.within_iff held knownW inside).mp outside
  · rintro (⟨w, knownW, around, within, restricted⟩ | restricted)
    · refine ⟨w, knownW, Or.inr ?_, within, restricted⟩
      exact (h.within_iff held knownW inside).mpr around
    · exact ⟨inner, known, Or.inl rfl, below, restricted⟩

/-- The walk comes to types inside the target only, and knows which of them are covered. -/
theorem walked_within (h : p.IsIndexed) {target : SourceType} (held : target ∈ p.types)
    {v : TypeView} {inside : Bool}
    (walked : Walked outlook (arrangedTarget (p.view target)) v inside) :
    ∃ t ∈ p.types, v = arrangedTarget (p.view t) ∧ (t = target ∨ t.IsWithin target) ∧
      (inside = true ↔ p.IsCovered outlook target t) := by
  induction walked with
  | start =>
    exact ⟨target, held, rfl, Or.inl rfl, iff_of_false nofun (not_covered_self target)⟩
  | @enter owner inside _ tree nested ih =>
    obtain ⟨t, known, rfl, among, covered⟩ := ih
    obtain ⟨inner, knownInner, isIn, rfl⟩ := (mem_arranged_nested h known).mp nested
    have here := arranged_child h known isIn
    refine ⟨inner, knownInner, here, Or.inr ?_, ?_⟩
    · rcases among with rfl | within
      · exact isIn.within
      · exact isIn.within.trans within
    · rw [isCovered_inside h known knownInner isIn among, ← covered, Bool.or_eq_true, here,
        ContainerTree.arrangedTarget_restricted]

theorem walked_of_within (h : p.IsIndexed) {target : SourceType} (held : target ∈ p.types) :
    ∀ t ∈ p.types, t.IsWithin target →
      ∃ inside,
        Walked outlook (arrangedTarget (p.view target)) (arrangedTarget (p.view t)) inside := by
  refine h.induct (motive := fun t => t.IsWithin target → ∃ inside, Walked outlook _ _ inside) ?_ ?_
  · intro t _ top within
    exact absurd top within.inside
  · intro t known owner among isIn ih within
    have nested := (mem_arranged_nested h among).mpr ⟨t, known, isIn, rfl⟩
    rw [← arranged_child h among isIn]
    rcases (h.within_iff among held isIn).mp within with rfl | outside
    · exact ⟨_, .enter .start nested⟩
    · obtain ⟨inside, walked⟩ := ih outside
      exact ⟨_, .enter walked nested⟩

theorem eq_of_arranged (h : p.IsIndexed) {t t' : SourceType} (known : t ∈ p.types)
    (known' : t' ∈ p.types) (same : arrangedTarget (p.view t) = arrangedTarget (p.view t')) :
    t = t' := by
  apply h.eq_of_fullName known known'
  rw [← view_fullName h known, ← view_fullName h known', ← ContainerTree.arrangedTarget_fullName,
    same, ContainerTree.arrangedTarget_fullName]

theorem walked_iff (h : p.IsIndexed) {target t : SourceType} (held : target ∈ p.types)
    (known : t ∈ p.types) (within : t.IsWithin target) :
    Walked outlook (arrangedTarget (p.view target)) (arrangedTarget (p.view t)) true ↔
      p.IsCovered outlook target t := by
  have flag : ∀ {inside : Bool}, Walked outlook (arrangedTarget (p.view target))
      (arrangedTarget (p.view t)) inside → (inside = true ↔ p.IsCovered outlook target t) := by
    intro inside walked
    obtain ⟨other, among, same, _, covered⟩ := walked_within h held walked
    obtain rfl := eq_of_arranged h known among same
    exact covered
  constructor
  · exact fun walked => (flag walked).mp rfl
  · intro covered
    obtain ⟨inside, walked⟩ := @walked_of_within p outlook h target held t known within
    rw [(flag walked).mpr covered] at walked
    exact walked

/-! Targets that can be named from everywhere. -/

/-- Inside such a target, a type is covered when it or a type around it inside the target is neither
public nor internal, whichever mode of exposure is asked for. -/
theorem isCovered_iff (h : p.IsIndexed) {target : SourceType} (held : target ∈ p.types)
    (isOpen : p.IsOpen target) (exposure : Exposure) (t : SourceType) :
    p.IsCovered ⟨false, exposure⟩ target t ↔
      ∃ w ∈ p.types, (w = t ∨ t.IsWithin w) ∧ w.IsWithin target ∧
        w.visibility.isBroad false = false := by
  constructor
  · rintro ⟨w, known, around, within, restricted⟩
    cases exposure with
    | declared =>
      rw [TypeView.isRestricted, isExposed_declared, Bool.not_eq_true'] at restricted
      exact ⟨w, known, around, within, restricted⟩
    | chain =>
      have closed : ¬p.IsOpen w := by
        rw [← isExposed_iff h w known]
        rw [TypeView.isRestricted, Bool.not_eq_true'] at restricted
        rw [restricted]
        exact Bool.false_ne_true
      -- Either the type itself is narrow, or one around it; that one stands inside the target,
      -- because the target and all around it are open.
      by_cases broad : w.visibility.isBroad false = true
      · have others : ∃ u ∈ p.types, w.IsWithin u ∧ ¬u.visibility.isBroad false = true := by
          by_contra none
          push Not at none
          exact closed ⟨broad, none⟩
        obtain ⟨u, knownU, outside, narrow⟩ := others
        have inside : u.IsWithin target := by
          rcases h.within_total knownU held w known outside within with rfl | inside | beyond
          · exact absurd isOpen.1 narrow
          · exact inside
          · exact absurd (isOpen.2 u knownU beyond) narrow
        refine ⟨u, knownU, Or.inr ?_, inside, Bool.eq_false_iff.mpr narrow⟩
        rcases around with rfl | outer
        · exact outside
        · exact outer.trans outside
      · exact ⟨w, known, around, within, Bool.eq_false_iff.mpr broad⟩
  · rintro ⟨w, known, around, within, narrow⟩
    refine ⟨w, known, around, within, ?_⟩
    have head : (p.view w).head.visibility.isBroad false = false := narrow
    rw [TypeView.isRestricted, TypeView.isExposed, head]
    rfl

/-- A target that can be named from everywhere has containers when some type inside of it is neither
public nor internal. -/
theorem containers_nil_iff (h : p.IsIndexed) {target : SourceType} (held : target ∈ p.types)
    (isOpen : p.IsOpen target) (exposure : Exposure) (reserved : List String) :
    (ContainerTree.ofTarget (p.view target) ⟨false, exposure⟩ reserved).nodes = [] ↔
      ∀ t ∈ p.types, t.IsWithin target → t.visibility.isBroad false = true := by
  rw [ContainerTree.ofTarget_nodes_nil]
  constructor
  · intro none t known within
    by_contra narrow
    have covered := (isCovered_iff h held isOpen exposure t).mpr
      ⟨t, known, Or.inl rfl, within, Bool.eq_false_iff.mpr narrow⟩
    exact none ⟨_, (walked_iff h held known within).mpr covered⟩
  · rintro all ⟨v, walked⟩
    obtain ⟨t, _, _, _, covered⟩ := walked_within h held walked
    obtain ⟨w, known, _, within, narrow⟩ :=
      (isCovered_iff h held isOpen exposure t).mp (covered.mp rfl)
    rw [all w known within] at narrow
    cases narrow

/-- What cannot be named from everywhere, though the target can, is covered. -/
theorem covered_of_closed (h : p.IsIndexed) {target t : SourceType} (held : target ∈ p.types)
    (known : t ∈ p.types) (isOpen : p.IsOpen target) (closed : ¬p.IsOpen t)
    (within : t.IsWithin target) (exposure : Exposure) :
    p.IsCovered ⟨false, exposure⟩ target t := by
  have covered : p.IsCovered ⟨false, .chain⟩ target t := by
    refine ⟨t, known, Or.inl rfl, within, ?_⟩
    rw [← isExposed_iff h t known, Bool.not_eq_true] at closed
    rw [TypeView.isRestricted, closed]
    rfl
  exact (isCovered_iff h held isOpen exposure t).mpr
    ((isCovered_iff h held isOpen .chain t).mp covered)

end SourceProgram

end HiddenNames
