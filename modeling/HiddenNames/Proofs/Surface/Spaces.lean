import HiddenNames.Proofs.Containers.Claimed
import HiddenNames.Proofs.Surface.Expression
import HiddenNames.Proofs.Surface.Paths

/-!
The declaration spaces of a unit: its extension block, each of its containers, the wrapper with the
containers in it, and the list of type parameters. Names are claimed in one scope for each of them,
so whatever members, types and parameters are called, the identifiers of one space are legal and,
marks aside, no two of them are one.
-/

namespace HiddenNames

open Identifier (AreApart plain Scope)

theorem Identifier.AreApart.perm {taken names names' : List String} (h : AreApart taken names)
    (same : names.Perm names') : AreApart taken names' := by
  constructor
  · exact fun name held => h.legal name (same.mem_iff.mpr held)
  · exact (same.map plain).nodup_iff.mp h.distinct
  · exact fun name held => h.free name (same.mem_iff.mpr held)

/-- The identifiers of accessors and forwards are what one scope hands out for their names. -/
theorem claimProperties_identifiers (scope : Scope) (names : List String) (nodes : List Container) :
    (claimProperties scope names nodes).1.map Accessor.identifier ++
        (claimProperties scope names nodes).2.map Forward.identifier =
      (scope.claimAll (names ++ nodes.map Container.simpleName)).1 := by
  have accessors : (claimProperties scope names nodes).1.map Accessor.identifier =
      (scope.claimAll names).1 := by
    simp only [claimProperties, List.map_map]
    exact List.map_fst_zip (by simp)
  have forwards : (claimProperties scope names nodes).2.map Forward.identifier =
      ((scope.claimAll names).2.claimAll (nodes.map Container.simpleName)).1 := by
    simp only [claimProperties, List.map_map]
    exact List.map_fst_zip (by simp)
  rw [accessors, forwards, Scope.claimAll_append]

theorem claimProperties_apart (scope : Scope) (names : List String) (nodes : List Container) :
    AreApart scope.taken ((claimProperties scope names nodes).1.map Accessor.identifier ++
      (claimProperties scope names nodes).2.map Forward.identifier) := by
  rw [claimProperties_identifiers]
  exact scope.claimAll_apart _

theorem claimParameters_flatten (scope : Scope) (heads : List TypeHead) :
    (claimParameters scope heads).flatten =
      (scope.claimAll (heads.flatMap TypeHead.parameters)).1 := by
  induction heads generalizing scope with
  | nil => rfl
  | cons head rest ih =>
    rw [List.flatMap_cons, Scope.claimAll_append, claimParameters, List.flatten_cons, ih]

def TypeView.extensionParameters (v : TypeView) : List String := v.parameterized.flatMap Prod.snd

theorem TypeView.extensionParameters_eq (v : TypeView) : v.extensionParameters =
    ((Scope.ofReserved []).claimAll (v.chain.flatMap TypeHead.parameters)).1 := by
  have second : v.parameterized.map Prod.snd = claimParameters (Scope.ofReserved []) v.chain := by
    rw [parameterized]
    exact List.map_snd_zip (claimParameters_length _ _).le
  rw [extensionParameters, List.flatMap_def, second, claimParameters_flatten]

/-- The identifiers of each declaration space of a unit are legal and apart, and apart from the
names that the space has already: the wrapper's, or the container's own and that of its text. -/
structure UnitView.IsApart (u : UnitView) (parameters : List String) : Prop where
  extension : AreApart [plain u.wrapper]
    (u.accessors.map Accessor.identifier ++ u.forwards.map Forward.identifier)
  properties : ∀ c ∈ u.containers, AreApart [plain c.name, "ToString"]
    (c.accessors.map Accessor.identifier ++ c.forwards.map Forward.identifier)
  containers : AreApart [plain u.wrapper] (u.containers.map ContainerView.name)
  written : u.parameters = parameterList parameters
  parameters : AreApart [] parameters

namespace ContainerTree

theorem viewOf_apart (tree : ContainerTree) (node : Container) :
    AreApart [plain (tree.viewOf node).name, "ToString"]
      ((tree.viewOf node).accessors.map Accessor.identifier ++
        (tree.viewOf node).forwards.map Forward.identifier) :=
  claimProperties_apart (Scope.ofReserved [node.name, "ToString"]) node.members (tree.children node)

theorem ofTarget_apart (outlook : Outlook) (target : TypeView) (reserved : List String) :
    AreApart (reserved.map plain) (ofTarget target outlook reserved).names := by
  rw [ofTarget_names]
  exact (Scope.ofReserved reserved).claimAll_apart _

end ContainerTree

namespace Resolved

variable {r : Resolved} {access : Access} {exposure : Exposure} {identity? : Option String}
  {u : UnitView}

theorem unit_extension (h : r.unit access exposure identity? = some u) :
    AreApart [plain u.wrapper]
        (u.accessors.map Accessor.identifier ++ u.forwards.map Forward.identifier) ∧
      u.parameters = parameterList r.view.extensionParameters := by
  simp only [unit] at h
  split at h
  · cases h
  · cases h
    let wrapper := wrapperName (r.identityOr identity?)
    exact ⟨claimProperties_apart (Scope.ofReserved [wrapper]) r.view.hiddenNames
      (r.containers exposure identity?).roots, rfl⟩

/-- Whatever the names of a target are, and whichever options and identity its unit is made with,
the names of each declaration space of the unit are legal and apart. -/
theorem unit_names_apart (h : r.unit access exposure identity? = some u) :
    u.IsApart r.view.extensionParameters := by
  obtain ⟨extension, written⟩ := unit_extension h
  obtain ⟨containers, _⟩ := unit_containers h
  have named : u.wrapper = wrapperName (r.identityOr identity?) := (unit_shows h).wrapper_named
  constructor
  · exact extension
  · intro c held
    rw [containers] at held
    obtain ⟨node, _, rfl⟩ := ContainerTree.mem_views.mp held
    exact (r.containers exposure identity?).viewOf_apart node
  · rw [containers, named]
    have arena := ContainerTree.ofTarget_apart ⟨!r.view.inSource, exposure⟩ r.view
      [wrapperName (r.identityOr identity?)]
    exact arena.perm (ContainerTree.views_names _).symm
  · exact written
  · rw [TypeView.extensionParameters_eq]
    exact (Scope.ofReserved []).claimAll_apart _

/-- A compiled type in a type, each with a parameter `T`. Its members and the types inside it are
called like keywords, like each other once they are legal, or like the wrapper and its text. -/
def crowded : Resolved :=
  let hidden (name : String) : Member := { name, kind := .field, visibility := .priv }
  let secret (name : String) : TypeHead := { name, kind := .classKind, visibility := .priv }
  { tier := .metadata
    view :=
      { tier := .metadata
        outer := [{ name := "Box", kind := .classKind, visibility := .pub, parameters := ["T"] }]
        tree := .node
          { name := "Lid", kind := .classKind, visibility := .pub, parameters := ["T"],
            members := ["class", "@class", "a-b", "a_b", "Nameof_Box_1_Lid_1"].map hidden }
          [.node { secret "a_b" with members := [hidden "ToString", hidden "a_b"] }
              [.node (secret "ToString") []],
            .node (secret "Nameof_Box_1_Lid_1") [], .node (secret "a_b_ToString") []] } }

theorem crowded_names_apart : ∃ u, crowded.unit .internal .declared none = some u ∧
    u.IsApart ["T", "T_2"] := by
  have parameters : crowded.view.extensionParameters = ["T", "T_2"] := by decide +kernel
  have shown : "class" ∈ crowded.view.hiddenNames := by
    rw [mem_hiddenNames]
    decide +kernel
  cases built : crowded.unit .internal .declared none with
  | none =>
    rw [((unit_eq_none_iff _ _ _ _).mp built).1] at shown
    cases shown
  | some u =>
    have apart := unit_names_apart built
    rw [parameters] at apart
    exact ⟨u, rfl, apart⟩

end Resolved

end HiddenNames
