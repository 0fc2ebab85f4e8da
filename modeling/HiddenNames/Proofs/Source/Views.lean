import HiddenNames.Exposure
import HiddenNames.Proofs.Source.Index

/-!
Views of the types of a program whose index is in order. The view of a type has the full name of its
entry; its enclosing types are those that the entry is inside of, and its nested types are the views
of the entries that are inside of it.
-/

namespace HiddenNames

namespace SourceType

structure IsWithin (t around : SourceType) : Prop where
  space : t.space? = around.space?
  outer : around.chain <+: t.outer

instance (t around : SourceType) : Decidable (t.IsWithin around) :=
  decidable_of_iff (t.space? = around.space? ∧ around.chain <+: t.outer)
    ⟨fun ⟨space, outer⟩ => ⟨space, outer⟩, fun ⟨space, outer⟩ => ⟨space, outer⟩⟩

theorem chain_ne_nil (t : SourceType) : t.chain ≠ [] := by
  rw [chain]
  exact List.append_ne_nil_of_right_ne_nil _ (List.cons_ne_nil _ _)

theorem IsWithin.inside {t around : SourceType} (h : t.IsWithin around) : t.outer ≠ [] := by
  intro top
  have outer := h.outer
  rw [top, List.prefix_nil] at outer
  exact around.chain_ne_nil outer

theorem IsIn.within {t owner : SourceType} (h : t.IsIn owner) : t.IsWithin owner :=
  ⟨h.space, h.outer ▸ List.prefix_refl _⟩

theorem IsWithin.trans {t around outermost : SourceType} (h : t.IsWithin around)
    (h' : around.IsWithin outermost) : t.IsWithin outermost := by
  refine ⟨h.space.trans h'.space, h'.outer.trans ?_⟩
  exact (List.prefix_append around.outer [(around.name, around.arity)]).trans h.outer

theorem IsIn.fullName {t owner : SourceType} (h : t.IsIn owner) :
    chainName t.space? t.outer = owner.fullName := by
  rw [SourceType.fullName, h.space, h.outer]

theorem IsIn.ownerName {t owner : SourceType} (h : t.IsIn owner) :
    t.ownerName = some owner.fullName := by
  have inside : t.outer.isEmpty = false := by
    rw [h.outer, List.isEmpty_eq_false_iff]
    exact owner.chain_ne_nil
  rw [SourceType.ownerName, inside, ← h.fullName]
  rfl

end SourceType

namespace SourceProgram

variable {p : SourceProgram}

namespace IsIndexed

/-- What holds of types in namespaces and goes on from each type to those inside of it holds of all
types. -/
theorem induct (h : p.IsIndexed) {motive : SourceType → Prop}
    (outermost : ∀ t ∈ p.types, t.outer = [] → motive t)
    (inside : ∀ t ∈ p.types, ∀ owner ∈ p.types, t.IsIn owner → motive owner → motive t) :
    ∀ t ∈ p.types, motive t := by
  have bounded : ∀ n, ∀ t ∈ p.types, t.outer.length ≤ n → motive t := by
    intro n
    induction n with
    | zero =>
      intro t held short
      exact outermost t held (List.length_eq_zero_iff.mp (Nat.le_zero.mp short))
    | succ n ih =>
      intro t held short
      rcases h.owned.owner held with top | ⟨owner, among, within⟩
      · exact outermost t held top
      · refine inside t held owner among within (ih owner among ?_)
        rw [within.outer, SourceType.chain, List.length_append, List.length_singleton] at short
        omega
  exact fun t held => bounded t.outer.length t held (Nat.le_refl _)

/-- An entry names its owner by the full name of the entry that it is inside of. -/
theorem ownerName_iff (h : p.IsIndexed) {t owner : SourceType} (held : t ∈ p.types)
    (among : owner ∈ p.types) : t.ownerName = some owner.fullName ↔ t.IsIn owner := by
  constructor
  · intro named
    rcases h.owned.owner held with top | ⟨other, known, inside⟩
    · simp [SourceType.ownerName, top] at named
    · have same : other.fullName = owner.fullName :=
        Option.some.inj (inside.ownerName.symm.trans named)
      rw [← h.eq_of_fullName known among same]
      exact inside
  · exact SourceType.IsIn.ownerName

/-- What a type is within is what it is inside of, or what that is within. -/
theorem within_iff (h : p.IsIndexed) {t owner around : SourceType} (among : owner ∈ p.types)
    (known : around ∈ p.types) (inside : t.IsIn owner) :
    t.IsWithin around ↔ around = owner ∨ owner.IsWithin around := by
  constructor
  · rintro ⟨space, outer⟩
    have sameSpace : owner.space? = around.space? := inside.space.symm.trans space
    rw [inside.outer] at outer
    rcases List.prefix_concat_iff.mp outer with whole | shorter
    · left
      apply h.eq_of_fullName known among
      rw [SourceType.fullName, SourceType.fullName, ← sameSpace, whole]
      rfl
    · exact Or.inr ⟨sameSpace, shorter⟩
  · rintro (rfl | outside)
    · exact inside.within
    · exact inside.within.trans outside

theorem within_total (h : p.IsIndexed) {around other : SourceType} (known : around ∈ p.types)
    (known' : other ∈ p.types) : ∀ t ∈ p.types, t.IsWithin around → t.IsWithin other →
      around = other ∨ around.IsWithin other ∨ other.IsWithin around := by
  refine h.induct (motive := fun t => t.IsWithin around → t.IsWithin other → _) ?_ ?_
  · intro t _ top within _
    exact absurd top within.inside
  · intro t _ owner among inside ih within within'
    rcases (h.within_iff among known inside).mp within with rfl | deeper
    · rcases (h.within_iff among known' inside).mp within' with rfl | deeper'
      · exact Or.inl rfl
      · exact Or.inr (Or.inl deeper')
    · rcases (h.within_iff among known' inside).mp within' with rfl | deeper'
      · exact Or.inr (Or.inr deeper)
      · exact ih deeper deeper'

end IsIndexed

/-! The types around a type. -/

theorem headsAround_outermost {t : SourceType} (top : t.outer = []) : p.headsAround t = [] := by
  rw [headsAround, top]
  rfl

theorem headsAround_inside (h : p.IsIndexed) {t owner : SourceType} (among : owner ∈ p.types)
    (inside : t.IsIn owner) : p.headsAround t = p.headsAround owner ++ [p.headOf owner] := by
  have length : t.outer.length = owner.outer.length + 1 := by
    rw [inside.outer, SourceType.chain, List.length_append, List.length_singleton]
  rw [headsAround, length, List.range_succ, List.filterMap_append]
  congr 1
  · rw [headsAround]
    apply List.filterMap_congr
    intro k below
    have bound := List.mem_range.mp below
    rw [inside.space, inside.outer, SourceType.chain, List.take_append_of_le_length (by omega)]
  · have whole : t.outer.take (owner.outer.length + 1) = t.outer := by
      rw [← length, List.take_length]
    rw [List.filterMap_cons, whole, inside.fullName, h.get? among]
    rfl

theorem view_chain_inside (h : p.IsIndexed) {t owner : SourceType} (among : owner ∈ p.types)
    (inside : t.IsIn owner) : (p.view t).chain = (p.view owner).chain ++ [p.headOf t] := by
  have around := headsAround_inside h among inside
  rw [TypeView.chain, TypeView.chain, view, around]
  rfl

theorem view_chain (h : p.IsIndexed) :
    ∀ t ∈ p.types, (p.view t).chain.map (fun head => (head.name, head.arity)) = t.chain := by
  refine h.induct (motive := fun t => (p.view t).chain.map _ = t.chain) ?_ ?_
  · intro t _ top
    rw [TypeView.chain, view, headsAround_outermost top, SourceType.chain, top]
    rfl
  · intro t _ owner among inside ih
    rw [view_chain_inside h among inside, List.map_append, ih, ← inside.outer]
    rfl

theorem view_fullName (h : p.IsIndexed) {t : SourceType} (held : t ∈ p.types) :
    (p.view t).fullName = t.fullName := by
  rw [SourceType.fullName, ← view_chain h t held, SourceType.chainName, List.map_map]
  rfl

/-! The types inside a type. -/

theorem treesIn_append {owner : String} {before : List SourceType} (rest : List SourceType)
    (none : ∀ t ∈ before, t.ownerName ≠ some owner) :
    p.treesIn owner (before ++ rest) = p.treesIn owner rest := by
  induction before with
  | nil => rfl
  | cons first more ih =>
    rw [List.forall_mem_cons] at none
    rw [List.cons_append, treesIn, if_neg none.1]
    exact ih none.2

theorem not_inside_before (h : p.IsIndexed) {before after : List SourceType} {t : SourceType}
    (split : p.types = before ++ t :: after) :
    ∀ other ∈ before ++ [t], other.ownerName ≠ some t.fullName := by
  have held : t ∈ p.types := split ▸ List.mem_append_right before List.mem_cons_self
  have distinct : p.types.Nodup := List.Nodup.of_map _ h.distinct
  -- A type inside `t` that stood before it would have its owner, which is `t`, still earlier.
  intro other early named
  have among : other ∈ p.types := by
    rw [split, List.append_cons]
    exact List.mem_append_left _ early
  have inside := (h.ownerName_iff among held).mp named
  obtain ⟨front, back, parts⟩ := List.append_of_mem early
  have place : p.types = front ++ other :: (back ++ after) := by
    rw [split, List.append_cons, parts, List.append_assoc, List.cons_append]
  rcases h.owned.earlier place with top | ⟨owner, first, around⟩
  · rw [inside.outer] at top
    exact t.chain_ne_nil top
  · have known : owner ∈ p.types := place ▸ List.mem_append_left _ first
    have same : owner = t := by
      apply h.eq_of_fullName known held
      rw [← around.fullName, inside.fullName]
    have length := congrArg List.length parts
    simp only [List.length_append, List.length_cons, List.length_nil] at length
    have front_of : front <+: before ++ [t] := parts ▸ List.prefix_append front _
    have shorter : front <+: before :=
      List.prefix_of_prefix_length_le front_of (List.prefix_append before [t]) (by omega)
    rw [split, List.nodup_append] at distinct
    exact distinct.2.2 t (shorter.subset (same ▸ first)) t List.mem_cons_self rfl

/-- All types inside a type stand after it, so nothing is lost by looking at the rest alone. -/
theorem treesIn_rest (h : p.IsIndexed) {before after : List SourceType} {t : SourceType}
    (split : p.types = before ++ t :: after) :
    p.treesIn t.fullName after = p.treesIn t.fullName p.types := by
  rw [split, List.append_cons, treesIn_append after (not_inside_before h split)]

/-- What goes on from the types inside each type to the type itself holds of all types. -/
theorem IsIndexed.induct_inward (h : p.IsIndexed) {motive : SourceType → Prop}
    (step : ∀ t ∈ p.types, (∀ inner ∈ p.types, inner.IsIn t → motive inner) → motive t) :
    ∀ t ∈ p.types, motive t := by
  have rest : ∀ before after, p.types = before ++ after → ∀ t ∈ after, motive t := by
    intro before after
    induction after generalizing before with
    | nil => exact fun _ t held => absurd held List.not_mem_nil
    | cons first after ih =>
      intro split
      have later := ih (before ++ [first]) (by rw [split, List.append_cons])
      have known : first ∈ p.types := split ▸ List.mem_append_right before List.mem_cons_self
      refine List.forall_mem_cons.mpr ⟨step first known fun inner among inside => ?_, later⟩
      rw [split, List.append_cons] at among
      rcases List.mem_append.mp among with early | late
      · exact absurd inside.ownerName (not_inside_before h split inner early)
      · exact later inner late
  exact rest [] p.types rfl

/-- The trees of the types inside a type are those of the entries that name it as their owner. -/
theorem treesIn_eq (h : p.IsIndexed) (owner : String) :
    p.treesIn owner p.types =
      (p.types.filter fun t => t.ownerName = some owner).map fun t => (p.view t).tree := by
  have rest : ∀ before after, p.types = before ++ after → p.treesIn owner after =
      (after.filter fun t => t.ownerName = some owner).map fun t => (p.view t).tree := by
    intro before after
    induction after generalizing before with
    | nil => exact fun _ => rfl
    | cons t after ih =>
      intro split
      have later := ih (before ++ [t]) (by rw [split, List.append_cons])
      rw [treesIn, List.filter_cons]
      by_cases named : t.ownerName = some owner
      · rw [if_pos named, if_pos (decide_eq_true named), List.map_cons, later, treesIn_rest h split]
        rfl
      · rw [if_neg named, if_neg (by simpa using named), later]
  exact rest [] p.types rfl

theorem siblings_distinct (h : p.IsIndexed) {t : SourceType} (held : t ∈ p.types) :
    ((p.types.filter fun u => u.ownerName = some t.fullName).map fun u =>
      withArity u.name u.arity).Nodup := by
  apply List.Nodup.map_on _ ((List.Nodup.of_map _ h.distinct).filter _)
  intro u among v among' same
  obtain ⟨known, named⟩ := List.mem_filter.mp among
  obtain ⟨known', named'⟩ := List.mem_filter.mp among'
  have inside := (h.ownerName_iff known held).mp (of_decide_eq_true named)
  have inside' := (h.ownerName_iff known' held).mp (of_decide_eq_true named')
  apply h.eq_of_fullName known known'
  simp only [SourceType.fullName, SourceType.chainName, SourceType.chain, inside.space,
    inside'.space, inside.outer, inside'.outer, List.map_append, List.map_cons, List.map_nil, same]

theorem mem_view_nested (h : p.IsIndexed) {t : SourceType} (held : t ∈ p.types) {tree : TypeTree} :
    tree ∈ (p.view t).tree.nested ↔
      ∃ inner ∈ p.types, inner.IsIn t ∧ tree = (p.view inner).tree := by
  change tree ∈ p.treesIn t.fullName p.types ↔ _
  rw [treesIn_eq h, List.mem_map]
  constructor
  · rintro ⟨inner, kept, rfl⟩
    obtain ⟨among, named⟩ := List.mem_filter.mp kept
    exact ⟨inner, among, (h.ownerName_iff among held).mp (of_decide_eq_true named), rfl⟩
  · rintro ⟨inner, among, inside, rfl⟩
    exact ⟨inner, List.mem_filter.mpr ⟨among, decide_eq_true inside.ownerName⟩, rfl⟩

theorem view_child (h : p.IsIndexed) {t inner : SourceType} (held : t ∈ p.types)
    (inside : inner.IsIn t) : (p.view t).child (p.view inner).tree = p.view inner := by
  have around : p.headsAround inner = (p.view t).chain := headsAround_inside h held inside
  rw [TypeView.child, ← around, view, view, inside.space]

/-! Exposure. -/

/-- Judged by its own declaration alone, a type is exposed when it is public or internal. -/
theorem isExposed_declared (p : SourceProgram) (t : SourceType) :
    (p.view t).isExposed false .declared = t.visibility.isBroad false := Bool.and_true _

def IsOpen (p : SourceProgram) (t : SourceType) : Prop :=
  t.visibility.isBroad false = true ∧
    ∀ around ∈ p.types, t.IsWithin around → around.visibility.isBroad false = true

instance (p : SourceProgram) (t : SourceType) : Decidable (p.IsOpen t) :=
  inferInstanceAs (Decidable (_ ∧ _))

theorem isExposed_inside (h : p.IsIndexed) {t owner : SourceType} (among : owner ∈ p.types)
    (inside : t.IsIn owner) :
    (p.view t).isExposed = (t.visibility.isBroad false && (p.view owner).isExposed) := by
  have around := headsAround_inside h among inside
  simp only [TypeView.isExposed, view, around, List.all_append, List.all_cons, List.all_nil,
    Bool.and_true]
  rw [Bool.and_comm (List.all _ _)]
  rfl

theorem isExposed_iff (h : p.IsIndexed) :
    ∀ t ∈ p.types, ((p.view t).isExposed = true ↔ p.IsOpen t) := by
  refine h.induct (motive := fun t => (p.view t).isExposed = true ↔ p.IsOpen t) ?_ ?_
  · intro t _ top
    have alone : (p.view t).isExposed = t.visibility.isBroad false := by
      simp only [TypeView.isExposed, view, headsAround_outermost top, List.all_nil, Bool.or_true,
        Bool.and_true]
      rfl
    rw [alone]
    exact ⟨fun broad => ⟨broad, fun _ _ within => absurd top within.inside⟩, And.left⟩
  · intro t _ owner among inside ih
    rw [isExposed_inside h among inside, Bool.and_eq_true, ih]
    constructor
    · rintro ⟨broad, ownerBroad, others⟩
      refine ⟨broad, fun around known within => ?_⟩
      rcases (h.within_iff among known inside).mp within with rfl | outside
      · exact ownerBroad
      · exact others around known outside
    · rintro ⟨broad, others⟩
      refine ⟨broad, others owner among inside.within, fun around known outside => ?_⟩
      exact others around known (inside.within.trans outside)

end SourceProgram

end HiddenNames
