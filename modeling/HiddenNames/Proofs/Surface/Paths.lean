import HiddenNames.Proofs.Containers.Forest
import HiddenNames.Proofs.Surface.Reach
import HiddenNames.Proofs.Surface.Settled

/-!
How a unit shows hidden names: each once, in order, and each container by one path of forwards from
the extension block. Forwards are made from the links of the arena, and every container is linked
once.
-/

namespace HiddenNames

inductive UnitView.Path (u : UnitView) : List Forward → ContainerView → Prop where
  | root {f : Forward} {c : ContainerView} (held : f ∈ u.forwards) (among : c ∈ u.containers)
      (leads : f.container = c.name) : Path u [f] c
  | step {path : List Forward} {c d : ContainerView} (walked : Path u path c) {f : Forward}
      (held : f ∈ c.forwards) (among : d ∈ u.containers) (leads : f.container = d.name) :
      Path u (path ++ [f]) d

namespace UnitView

variable {u : UnitView} {c : ContainerView} {walk : List Forward}

def allForwards (u : UnitView) : List Forward :=
  u.forwards ++ u.containers.flatMap ContainerView.forwards

theorem Reaches.path (h : u.Reaches c) : ∃ path, u.Path path c := by
  induction h with
  | root held among leads => exact ⟨_, .root held among leads⟩
  | step _ held among leads ih =>
    obtain ⟨path, walked⟩ := ih
    exact ⟨_, walked.step held among leads⟩

theorem Path.among (h : u.Path walk c) : c ∈ u.containers := by
  cases h with
  | root _ among _ => exact among
  | step _ _ among _ => exact among

/-- While no two forwards lead to the same container, no two paths do. -/
theorem Path.unique (distinct : (u.allForwards.map Forward.container).Nodup) {walk' : List Forward}
    (h : u.Path walk c) (h' : u.Path walk' c) : walk = walk' := by
  rw [allForwards, List.map_append, List.map_flatMap] at distinct
  obtain ⟨roots, children, apart⟩ := List.nodup_append.mp distinct
  have rootless : ∀ {f g : Forward} {d : ContainerView}, f ∈ u.forwards → d ∈ u.containers →
      g ∈ d.forwards → f.container ≠ g.container := by
    intro f g d root held child
    apply apart _ (List.mem_map_of_mem root)
    exact List.mem_flatMap.mpr ⟨d, held, List.mem_map_of_mem child⟩
  induction h generalizing walk' with
  | @root f c held _ leads =>
    cases h' with
    | @root g _ held' _ leads' =>
      rw [List.inj_on_of_nodup_map roots held held' (leads.trans leads'.symm)]
    | @step _ d _ walked g held' _ leads' =>
      exact absurd (leads.trans leads'.symm) (rootless held walked.among held')
  | @step path d c walked f held _ leads ih =>
    cases h' with
    | @root g _ held' _ leads' =>
      exact absurd (leads'.trans leads.symm) (rootless held' walked.among held)
    | @step _ d' _ walked' g held' _ leads' =>
      have same : f.container = g.container := leads.trans leads'.symm
      have here : f.container ∈ d'.forwards.map Forward.container := by
        rw [same]
        exact List.mem_map_of_mem held'
      obtain rfl := ContainerTree.eq_of_mem_flatMap children walked.among walked'.among
        (List.mem_map_of_mem held) here
      have own := (List.nodup_flatMap.mp children).1 d walked.among
      rw [ih walked', List.inj_on_of_nodup_map own held held' same]

end UnitView

theorem claimProperties_containers (scope : Identifier.Scope) (names : List String)
    (nodes : List Container) :
    (claimProperties scope names nodes).2.map Forward.container = nodes.map Container.name := by
  let inner := (scope.claimAll names).2
  simp only [claimProperties, List.map_map]
  calc _ = (((inner.claimAll (nodes.map Container.simpleName)).1.zip nodes).map Prod.snd).map
        Container.name := by
        rw [List.map_map]
        rfl
    _ = nodes.map Container.name := by
        rw [List.map_snd_zip (by simp)]

namespace ContainerTree

variable {tree : ContainerTree}

theorem names_of_keys {keys : List String} (known : keys ⊆ tree.names) :
    (keys.filterMap tree.get?).map Container.name = keys := by
  induction keys with
  | nil => rfl
  | cons key rest ih =>
    have here : key ∈ tree.names := known List.mem_cons_self
    cases found : tree.get? key with
    | none => exact absurd here (find?_key_none_iff.mp found)
    | some other =>
      have same : other.name = key := (find?_key_some found).2
      rw [List.filterMap_cons_some found, List.map_cons, same,
        ih fun _ later => known (List.mem_cons_of_mem key later)]

theorem viewOf_forwards {node : Container} (known : node.children ⊆ tree.names) :
    (tree.viewOf node).forwards.map Forward.container = node.children := by
  have all := claimProperties_containers (Identifier.Scope.ofReserved [node.name, "ToString"])
    node.members (tree.children node)
  rw [children, names_of_keys known] at all
  exact all

end ContainerTree

/-- A unit shows the hidden names of its target and of the containers, each once, and leads to each
container by one path. -/
structure UnitView.ShowsOnce (u : UnitView) (v : TypeView) (tree : ContainerTree) : Prop where
  accessors : u.accessors.map Accessor.value = v.hiddenNames.map CSharp.Literal.regular
  forwards : u.forwards.map Forward.container = tree.rootKeys
  views : ∀ node ∈ tree.nodes, ∃! c, c ∈ u.containers ∧ c.name = node.name
  nodes : ∀ c ∈ u.containers, ∃ node ∈ tree.nodes, c.name = node.name ∧
    c.accessors.map Accessor.value = node.members.map CSharp.Literal.regular ∧
    c.forwards.map Forward.container = node.children
  containers : (u.containers.map ContainerView.name).Perm tree.names
  existing : ∀ f ∈ u.allForwards, ∃ c ∈ u.containers, c.name = f.container
  paths : ∀ c ∈ u.containers, ∃! path, u.Path path c

namespace ContainerTree

variable {outlook : Outlook} {ds : List Descendant} {tree : ContainerTree}

theorem Holding.roots_known (h : Holding outlook ds tree) : tree.rootKeys ⊆ tree.names := by
  intro key held
  exact h.links.mem_iff.mp (List.mem_append_left _ held)

theorem Holding.children_known (h : Holding outlook ds tree) :
    ∀ node ∈ tree.nodes, node.children ⊆ tree.names := by
  intro node held key child
  apply h.links.mem_iff.mp
  exact List.mem_append_right _ (List.mem_flatMap.mpr ⟨node, held, child⟩)

theorem one_view (distinct : tree.names.Nodup) {node : Container} (held : node ∈ tree.nodes) :
    ∃! c, c ∈ tree.views ∧ c.name = node.name := by
  refine ⟨tree.viewOf node, ⟨mem_views.mpr ⟨node, held, rfl⟩, rfl⟩, ?_⟩
  rintro c ⟨among, named⟩
  obtain ⟨other, held', rfl⟩ := mem_views.mp among
  rw [List.inj_on_of_nodup_map distinct held' held named]

theorem views_names (tree : ContainerTree) :
    (tree.views.map ContainerView.name).Perm tree.names := by
  rw [views, List.map_map]
  exact (List.mergeSort_perm tree.nodes _).map Container.name

theorem views_forwards (known : ∀ node ∈ tree.nodes, node.children ⊆ tree.names) :
    ((tree.views.flatMap ContainerView.forwards).map Forward.container).Perm
      (tree.nodes.flatMap Container.children) := by
  have sorted := List.mergeSort_perm tree.nodes fun a b => decide (a.name ≤ b.name)
  rw [views, List.flatMap_map, List.map_flatMap]
  refine List.Perm.trans ?_ (sorted.flatMap_right Container.children)
  apply List.Perm.of_eq
  apply List.flatMap_congr
  intro node held
  exact viewOf_forwards (known node (List.mem_mergeSort.mp held))

end ContainerTree

namespace Resolved

variable {r : Resolved} {access : Access} {exposure : Exposure} {identity? : Option String}
  {u : UnitView}

theorem unit_properties (h : r.unit access exposure identity? = some u) :
    u.accessors.map Accessor.value = r.view.hiddenNames.map CSharp.Literal.regular ∧
      u.forwards.map Forward.container =
        (r.containers exposure identity?).roots.map Container.name := by
  simp only [unit] at h
  split at h
  · cases h
  · cases h
    let tree := r.containers exposure identity?
    exact ⟨claimProperties_values _ _ tree.roots, claimProperties_containers _ _ tree.roots⟩

theorem unit_eq_none_iff (r : Resolved) (access : Access) (exposure : Exposure)
    (identity? : Option String) :
    r.unit access exposure identity? = none ↔ r.view.hiddenNames = [] ∧
      (ContainerTree.ofTarget r.view ⟨!r.view.inSource, exposure⟩).nodes = [] := by
  rw [← Option.not_isSome_iff_eq_none, unit_isSome, containerCount, ContainerTree.size]
  simp

theorem containers_holding (apart : ContainerTree.TellsApart r.view) (exposure : Exposure)
    (identity? : Option String) : ∃ outlook ds,
      ContainerTree.Holding outlook ds (r.containers exposure identity?) :=
  ⟨_, _, ContainerTree.ofTarget_holding apart _ _⟩

theorem unit_shows_once (apart : ContainerTree.TellsApart r.view)
    (h : r.unit access exposure identity? = some u) :
    u.ShowsOnce r.view (r.containers exposure identity?) := by
  obtain ⟨accessors, roots⟩ := unit_properties h
  obtain ⟨containers, _⟩ := unit_containers h
  have reached : ∀ node ∈ (r.containers exposure identity?).nodes,
      u.Reaches ((r.containers exposure identity?).viewOf node) :=
        fun node held => unit_reaches h held
  obtain ⟨outlook, ds, holding⟩ := containers_holding apart exposure identity?
  generalize r.containers exposure identity? = tree at *
  have known := holding.children_known
  have forwards : u.forwards.map Forward.container = tree.rootKeys := by
    rw [roots, ContainerTree.roots]
    exact ContainerTree.names_of_keys holding.roots_known
  have names : (u.containers.map ContainerView.name).Perm tree.names := by
    rw [containers]
    exact tree.views_names
  have all : (u.allForwards.map Forward.container).Perm tree.names := by
    refine List.Perm.trans ?_ holding.links
    rw [UnitView.allForwards, List.map_append, forwards, containers]
    exact (ContainerTree.views_forwards known).append_left _
  have distinct : (u.allForwards.map Forward.container).Nodup :=
    all.nodup_iff.mpr holding.linked.distinct
  constructor
  · exact accessors
  · exact forwards
  · intro node held
    rw [containers]
    exact ContainerTree.one_view holding.linked.distinct held
  · intro c among
    rw [containers] at among
    obtain ⟨node, held, rfl⟩ := ContainerTree.mem_views.mp among
    exact ⟨node, held, rfl, tree.viewOf_values node,
      ContainerTree.viewOf_forwards (known node held)⟩
  · exact names
  · intro f held
    have key := all.mem_iff.mp (List.mem_map_of_mem held)
    rw [← names.mem_iff] at key
    exact List.mem_map.mp key
  · intro c among
    have reaches : u.Reaches c := by
      rw [containers] at among
      obtain ⟨node, held, rfl⟩ := ContainerTree.mem_views.mp among
      exact reached node held
    obtain ⟨walk, walked⟩ := reaches.path
    exact ⟨walk, walked, fun walk' walked' => walked'.unique distinct walked⟩

theorem mem_hiddenNames (v : TypeView) (name : String) :
    name ∈ v.hiddenNames ↔ ∃ m ∈ v.head.members, m.isHidden v.tier = true ∧ m.name = name := by
  rw [TypeView.hiddenNames, mem_inOrder, List.mem_map]
  simp only [List.mem_filter, and_assoc]

/-- There is a unit unless there is nothing to show. The unit shows the hidden names of its target
in increasing order, each once, before it leads to the roots; and while full names tell the types
inside the target apart, there is one path of forwards to each container. -/
theorem every_hidden_name_is_shown_once (r : Resolved) (apart : ContainerTree.TellsApart r.view)
    (access : Access) (exposure : Exposure) (identity? : Option String) :
    (r.unit access exposure identity? = none ↔ r.view.hiddenNames = [] ∧
      (ContainerTree.ofTarget r.view ⟨!r.view.inSource, exposure⟩).nodes = []) ∧
    r.view.hiddenNames.Pairwise (· < ·) ∧
    (∀ name, name ∈ r.view.hiddenNames ↔
      ∃ m ∈ r.view.head.members, m.isHidden r.view.tier = true ∧ m.name = name) ∧
    ∀ u, r.unit access exposure identity? = some u →
      u.Shows (r.identityOr identity?) r.view.hiddenNames.length (r.containerCount exposure) ∧
      u.ShowsOnce r.view (r.containers exposure identity?) := by
  refine ⟨r.unit_eq_none_iff access exposure identity?, inOrder_increasing _,
    mem_hiddenNames r.view, fun u built => ⟨unit_shows built, unit_shows_once apart built⟩⟩

theorem two_levels_are_shown_once :
    ContainerTree.TellsApart ContainerTree.twoLevels ∧
    ∃ u, (Resolved.mk .static ContainerTree.twoLevels none).unit .pub .chain none = some u ∧
      u.ShowsOnce ContainerTree.twoLevels
        ((Resolved.mk .static ContainerTree.twoLevels none).containers .chain none) := by
  have apart : ContainerTree.TellsApart ContainerTree.twoLevels := by decide +kernel
  obtain ⟨_, _, _, shows⟩ := every_hidden_name_is_shown_once
    (Resolved.mk .static ContainerTree.twoLevels none) apart .pub .chain none
  have some_unit :
      ((Resolved.mk .static ContainerTree.twoLevels none).unit .pub .chain none).isSome = true := by
    rw [unit_isSome]
    decide +kernel
  obtain ⟨u, built⟩ := Option.isSome_iff_exists.mp some_unit
  exact ⟨apart, u, built, (shows u built).2⟩

end Resolved

end HiddenNames
