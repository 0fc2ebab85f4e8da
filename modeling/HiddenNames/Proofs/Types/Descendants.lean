import HiddenNames.Proofs.Containers.Walk

/-!
The types inside a type, each with the types strictly between. Arranging a type drops what is at or
below a synthesized name, and changes nothing about the others but their order.
-/

namespace HiddenNames

/-- A type inside another one. `above` lists the types strictly between the two, outermost first. -/
structure Descendant where
  above : List TypeView
  view : TypeView

namespace TypeTree

mutual

def descendants (owner : TypeView) (above : List TypeView) : TypeTree → List Descendant
  | .node head nested =>
    let v := owner.child (.node head nested)
    ⟨above, v⟩ :: descendantsAll v (above ++ [v]) nested

def descendantsAll (owner : TypeView) (above : List TypeView) : List TypeTree → List Descendant
  | [] => []
  | t :: rest => descendants owner above t ++ descendantsAll owner above rest

end

theorem descendants_eq (owner : TypeView) (above : List TypeView) (t : TypeTree) :
    t.descendants owner above =
      ⟨above, owner.child t⟩ ::
        descendantsAll (owner.child t) (above ++ [owner.child t]) t.nested := by
  cases t with
  | node head nested =>
    rw [descendants]
    rfl

theorem descendantsAll_eq_flatMap (owner : TypeView) (above : List TypeView) (ts : List TypeTree) :
    descendantsAll owner above ts = ts.flatMap (descendants owner above) := by
  induction ts with
  | nil => rw [descendantsAll, List.flatMap_nil]
  | cons t rest ih => rw [descendantsAll, ih, List.flatMap_cons]

end TypeTree

def TypeView.descendants (v : TypeView) : List Descendant :=
  TypeTree.descendantsAll v [] v.tree.nested

namespace Descendant

def IsNamed (d : Descendant) : Prop :=
  ∀ v ∈ d.above ++ [d.view], isSynthesizedName v.head.name = false

instance (d : Descendant) : Decidable d.IsNamed :=
  inferInstanceAs (Decidable (∀ v ∈ d.above ++ [d.view], isSynthesizedName v.head.name = false))

def fullName (d : Descendant) : String := d.view.fullName

def arranged (d : Descendant) : Descendant :=
  ⟨d.above.map ContainerTree.arrangedTarget, ContainerTree.arrangedTarget d.view⟩

theorem arranged_fullName (d : Descendant) : d.arranged.fullName = d.fullName :=
  ContainerTree.arrangedTarget_fullName d.view

end Descendant

namespace TypeView

def namedDescendants (v : TypeView) : List Descendant :=
  v.descendants.filter fun d => d.IsNamed

end TypeView

namespace TypeTree

open ContainerTree (arrangedTarget arrangedTarget_child)

theorem descendantsAll_perm (owner : TypeView) (above : List TypeView) {ts ts' : List TypeTree}
    (same : ts.Perm ts') :
    (descendantsAll owner above ts).Perm (descendantsAll owner above ts') := by
  rw [descendantsAll_eq_flatMap, descendantsAll_eq_flatMap]
  exact same.flatMap_right _

mutual

theorem descendants_above {owner : TypeView} {above : List TypeView} {d : Descendant}
    (t : TypeTree) (held : d ∈ t.descendants owner above) :
    above ++ [owner.child t] <+: d.above ++ [d.view] := by
  cases t with
  | node head nested =>
    rw [descendants] at held
    rcases List.mem_cons.mp held with rfl | below
    · exact List.prefix_rfl
    · exact (descendantsAll_above nested below).trans (List.prefix_append _ _)

theorem descendantsAll_above {owner : TypeView} {above : List TypeView} {d : Descendant}
    (ts : List TypeTree) (held : d ∈ descendantsAll owner above ts) : above <+: d.above := by
  cases ts with
  | nil =>
    rw [descendantsAll] at held
    cases held
  | cons t rest =>
    rw [descendantsAll] at held
    rcases List.mem_append.mp held with first | later
    · rcases List.prefix_concat_iff.mp (descendants_above t first) with whole | part
      · have same : above = d.above := (List.append_inj' whole rfl).1
        exact same ▸ List.prefix_rfl
      · exact (List.prefix_append above _).trans part
    · exact descendantsAll_above rest later

end

mutual

theorem descendants_between {owner : TypeView} {above before after : List TypeView} {d : Descendant}
    {v : TypeView} (t : TypeTree) (held : d ∈ t.descendants owner above)
    (split : d.above = above ++ before ++ v :: after) :
    ⟨above ++ before, v⟩ ∈ t.descendants owner above := by
  cases t with
  | node head nested =>
    rw [descendants] at held ⊢
    rcases List.mem_cons.mp held with rfl | below
    · have lengths := congrArg List.length split
      simp only [List.length_append, List.length_cons] at lengths
      omega
    · obtain ⟨rest, whole⟩ := descendantsAll_above nested below
      rw [← whole, List.append_assoc, List.append_assoc, List.append_cancel_left_eq] at split
      cases before with
      | nil =>
        obtain ⟨rfl, _⟩ := List.cons.inj split
        rw [List.append_nil]
        exact List.mem_cons_self
      | cons first others =>
        obtain ⟨rfl, rfl⟩ := List.cons.inj split
        apply List.mem_cons_of_mem
        rw [List.append_cons above _ others]
        apply descendantsAll_between nested below
        rw [← whole, List.append_assoc _ others]
        rfl

theorem descendantsAll_between {owner : TypeView} {above before after : List TypeView}
    {d : Descendant} {v : TypeView} (ts : List TypeTree) (held : d ∈ descendantsAll owner above ts)
    (split : d.above = above ++ before ++ v :: after) :
    ⟨above ++ before, v⟩ ∈ descendantsAll owner above ts := by
  cases ts with
  | nil =>
    rw [descendantsAll] at held
    cases held
  | cons t rest =>
    rw [descendantsAll] at held ⊢
    rcases List.mem_append.mp held with first | later
    · exact List.mem_append_left _ (descendants_between t first split)
    · exact List.mem_append_right _ (descendantsAll_between rest later split)

end

theorem descendants_unnamed (owner : TypeView) (above : List TypeView) {t : TypeTree}
    (synthesized : isSynthesizedName t.head.name = true) :
    (t.descendants owner above).filter (fun d => decide d.IsNamed) = [] := by
  apply List.filter_eq_nil_iff.mpr
  intro d held kept
  have named : d.IsNamed := of_decide_eq_true kept
  have among : owner.child t ∈ d.above ++ [d.view] :=
    (descendants_above t held).subset (List.mem_append_right _ List.mem_cons_self)
  have own : isSynthesizedName t.head.name = false := named (owner.child t) among
  rw [synthesized] at own
  cases own

mutual

theorem descendants_arranged {owner : TypeView} {above : List TypeView}
    (named : ∀ v ∈ above, isSynthesizedName v.head.name = false) (t : TypeTree)
    (own : isSynthesizedName t.head.name = false) :
    (t.arranged.descendants (arrangedTarget owner) (above.map arrangedTarget)).Perm
      (((t.descendants owner above).filter fun d => d.IsNamed).map Descendant.arranged) := by
  cases t with
  | node head nested =>
    have deeper : ∀ v ∈ above ++ [owner.child (.node head nested)],
        isSynthesizedName v.head.name = false :=
      List.forall_mem_append.mpr ⟨named, List.forall_mem_singleton.mpr own⟩
    have first : Descendant.IsNamed ⟨above, owner.child (.node head nested)⟩ := deeper
    have inner := descendantsAll_arranged (owner.child (.node head nested)) deeper nested
    rw [List.map_append, List.map_singleton] at inner
    rw [descendants_eq, arrangedTarget_child, descendants,
      List.filter_cons_of_pos (by simpa using first), List.map_cons]
    apply List.Perm.cons
    rw [arranged]
    exact (descendantsAll_perm _ _ (List.mergeSort_perm _ _)).trans inner

theorem descendantsAll_arranged (owner : TypeView) {above : List TypeView}
    (named : ∀ v ∈ above, isSynthesizedName v.head.name = false) (ts : List TypeTree) :
    (descendantsAll (arrangedTarget owner) (above.map arrangedTarget) (arrangedAll ts)).Perm
      (((descendantsAll owner above ts).filter fun d => d.IsNamed).map Descendant.arranged) := by
  cases ts with
  | nil =>
    rw [arrangedAll, descendantsAll, descendantsAll]
    exact List.Perm.refl _
  | cons t rest =>
    have others := descendantsAll_arranged owner named rest
    rw [descendantsAll, List.filter_append, List.map_append, arrangedAll]
    by_cases synthesized : isSynthesizedName t.head.name = true
    · rw [if_pos synthesized, descendants_unnamed owner above synthesized]
      exact others
    · rw [if_neg synthesized, descendantsAll]
      exact (descendants_arranged named t (Bool.eq_false_iff.mpr synthesized)).append others

end

end TypeTree

theorem TypeView.namedDescendants_between {target v : TypeView} {d : Descendant}
    (held : d ∈ target.namedDescendants) {before after : List TypeView}
    (split : d.above = before ++ v :: after) : ⟨before, v⟩ ∈ target.namedDescendants := by
  obtain ⟨among, named⟩ := List.mem_filter.mp held
  apply List.mem_filter.mpr
  constructor
  · exact TypeTree.descendantsAll_between _ among split
  · apply decide_eq_true
    intro u inside
    apply of_decide_eq_true named u
    apply List.mem_append_left
    rw [split]
    rcases List.mem_append.mp inside with early | last
    · exact List.mem_append_left _ early
    · rw [List.mem_singleton.mp last]
      exact List.mem_append_right _ List.mem_cons_self

/-- The descendants of an arranged type are those that have a name of their own. -/
theorem TypeView.descendants_of_arranged (v : TypeView) :
    (ContainerTree.arrangedTarget v).descendants.Perm
      (v.namedDescendants.map Descendant.arranged) := by
  have nothing : ∀ u ∈ ([] : List TypeView), isSynthesizedName u.head.name = false :=
    fun _ held => absurd held List.not_mem_nil
  have inner := TypeTree.descendantsAll_arranged v nothing v.tree.nested
  rw [List.map_nil] at inner
  have sorted : (ContainerTree.arrangedTarget v).tree.nested.Perm
      (TypeTree.arrangedAll v.tree.nested) := by
    rw [ContainerTree.arrangedTarget]
    cases v.tree with
    | node head nested =>
      rw [TypeTree.arranged]
      exact List.mergeSort_perm _ _
  rw [namedDescendants, descendants, descendants]
  exact (TypeTree.descendantsAll_perm _ _ sorted).trans inner

end HiddenNames
