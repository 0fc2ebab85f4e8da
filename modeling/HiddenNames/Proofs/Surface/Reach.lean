import HiddenNames.Proofs.Assoc
import HiddenNames.Proofs.Containers.Walk
import HiddenNames.Proofs.Surface.Counts

/-!
Containers of a unit are within reach: from the extension block, forwards lead to each of them. A
container that stands for a type shows the names that its node keeps.
-/

namespace HiddenNames

inductive UnitView.Reaches (u : UnitView) : ContainerView → Prop where
  | root {f : Forward} {c : ContainerView} (held : f ∈ u.forwards) (among : c ∈ u.containers)
      (leads : f.container = c.name) : Reaches u c
  | step {c d : ContainerView} (reached : Reaches u c) {f : Forward} (held : f ∈ c.forwards)
      (among : d ∈ u.containers) (leads : f.container = d.name) : Reaches u d

theorem claimProperties_values (scope : Identifier.Scope) (names : List String)
    (nodes : List Container) :
    (claimProperties scope names nodes).1.map Accessor.value =
      names.map CSharp.Literal.regular := by
  simp only [claimProperties, List.map_map]
  calc _ = (((scope.claimAll names).1.zip names).map Prod.snd).map CSharp.Literal.regular := by
        rw [List.map_map]
        rfl
    _ = names.map CSharp.Literal.regular := by
        rw [List.map_snd_zip (by simp)]

theorem claimProperties_leads (scope : Identifier.Scope) (names : List String)
    {nodes : List Container} {node : Container} (held : node ∈ nodes) :
    ∃ f ∈ (claimProperties scope names nodes).2, f.container = node.name := by
  let inner := (scope.claimAll names).2
  have paired : node ∈ ((inner.claimAll (nodes.map Container.simpleName)).1.zip nodes).map
      Prod.snd := by
    rw [List.map_snd_zip (by simp)]
    exact held
  obtain ⟨⟨identifier, _⟩, among, rfl⟩ := List.mem_map.mp paired
  exact ⟨⟨identifier, _⟩, List.mem_map.mpr ⟨_, among, rfl⟩, rfl⟩

namespace ContainerTree

variable {tree : ContainerTree}

theorem mem_views {c : ContainerView} :
    c ∈ tree.views ↔ ∃ node ∈ tree.nodes, tree.viewOf node = c := by
  rw [views, List.mem_map]
  simp only [List.mem_mergeSort]

theorem viewOf_values (tree : ContainerTree) (node : Container) :
    (tree.viewOf node).accessors.map Accessor.value = node.members.map CSharp.Literal.regular :=
  claimProperties_values _ _ (tree.children node)

end ContainerTree

namespace Resolved

variable {r : Resolved} {access : Access} {exposure : Exposure} {identity? : Option String}

theorem unit_containers {u : UnitView} (h : r.unit access exposure identity? = some u) :
    u.containers = (r.containers exposure identity?).views ∧
      ∃ scope names, u.forwards =
        (claimProperties scope names (r.containers exposure identity?).roots).2 := by
  simp only [unit] at h
  split at h
  · cases h
  · cases h
    exact ⟨rfl, _, _, rfl⟩

/-- Every container of a unit is reached. -/
theorem unit_reaches {u : UnitView} (h : r.unit access exposure identity? = some u)
    {node : Container} (held : node ∈ (r.containers exposure identity?).nodes) :
    u.Reaches ((r.containers exposure identity?).viewOf node) := by
  obtain ⟨containers, scope, names, forwards⟩ := unit_containers h
  have linked : (r.containers exposure identity?).IsLinked :=
    (ContainerTree.ofTarget_holds _ r.view _).linked
  generalize r.containers exposure identity? = tree at *
  have shown : ∀ other ∈ tree.nodes, tree.viewOf other ∈ u.containers := by
    intro other among
    rw [containers]
    exact ContainerTree.mem_views.mpr ⟨other, among, rfl⟩
  have led : ∀ {key : String}, tree.LeadsTo key → ∀ other ∈ tree.nodes, other.name = key →
      u.Reaches (tree.viewOf other) := by
    intro key leads
    induction leads with
    | @root key root =>
      intro other among named
      have isRoot : other ∈ tree.roots := by
        refine List.mem_filterMap.mpr ⟨key, root, ?_⟩
        exact (find?_key_iff linked.distinct).mpr ⟨among, named⟩
      obtain ⟨f, claimed, leads⟩ := claimProperties_leads scope names isRoot
      exact .root (forwards ▸ claimed) (shown other among) leads
    | @child parent key led owner ownerHeld ownerNamed child ih =>
      intro other among named
      have isChild : other ∈ tree.children owner := by
        refine List.mem_filterMap.mpr ⟨key, child, ?_⟩
        exact (find?_key_iff linked.distinct).mpr ⟨among, named⟩
      obtain ⟨f, claimed, leads⟩ := claimProperties_leads _ _ isChild
      exact .step (ih owner ownerHeld ownerNamed) claimed (shown other among) leads
  exact led (linked.led node.name (List.mem_map_of_mem held)) node held rfl

end Resolved

end HiddenNames
