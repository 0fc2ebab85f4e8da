import HiddenNames.Proofs.Containers.Names
import HiddenNames.Proofs.Identifier.Apart
import HiddenNames.Surface.Layout

/-!
How much a unit shows: one accessor for each hidden name of the target and one structure for each
container. The identity of the unit names its wrapper, and has no part in whether there is a unit
nor in how much it shows.
-/

namespace HiddenNames

@[simp]
theorem claimProperties_accessors (scope : Identifier.Scope) (names : List String)
    (nodes : List Container) : (claimProperties scope names nodes).1.length = names.length := by
  simp [claimProperties]

theorem ContainerTree.views_length (tree : ContainerTree) : tree.views.length = tree.size := by
  rw [views, List.length_map, List.length_mergeSort]
  rfl

structure UnitView.Shows (u : UnitView) (identity : String) (members containers : Nat) : Prop where
  wrapper_named : u.wrapper = wrapperName identity
  members_shown : u.accessors.length = members
  containers_shown : u.containers.length = containers
  laid_out : ∃ summary extension, u.wrapperLines =
    summary ++ [u.visibility.text ++ " static class " ++ wrapperName identity, "\x7b"] ++
      ["    extension" ++ extension, "    \x7b"] ++
      u.accessors.map (Accessor.line "public static ") ++
      u.forwards.map (Forward.line "public static ") ++ ["    \x7d"] ++
      u.containers.flatMap ContainerView.lines ++ ["\x7d"]

theorem UnitView.shows_of_counts {u : UnitView} {identity : String} {members containers : Nat}
    (named : u.wrapper = wrapperName identity) (accessors : u.accessors.length = members)
    (structures : u.containers.length = containers) : u.Shows identity members containers := by
  refine ⟨named, accessors, structures,
    summaryLines "" ("Auto-generated names of the non-accessible members of " ++
      markupSafe u.display ++ "."),
    u.parameters ++ "(global::Nameof.nameof<" ++ u.target ++ ">)" ++ u.constraints, ?_⟩
  simp only [wrapperLines, named, List.append_assoc, List.cons_append, List.nil_append,
    String.append_assoc]

namespace Resolved

variable {r : Resolved} {access : Access} {exposure : Exposure} {identity? : Option String}

def containerCount (r : Resolved) (exposure : Exposure) : Nat :=
  (ContainerTree.ofTarget r.view ⟨!r.view.inSource, exposure⟩).size

theorem containers_size (r : Resolved) (exposure : Exposure) (identity? : Option String) :
    (r.containers exposure identity?).size = r.containerCount exposure :=
  ContainerTree.ofTarget_size r.view _ _

theorem unit_isSome (r : Resolved) (access : Access) (exposure : Exposure)
    (identity? : Option String) :
    (r.unit access exposure identity?).isSome =
      !(r.view.hiddenNames.isEmpty && r.containerCount exposure == 0) := by
  have bare :
      (r.containers exposure identity?).nodes.isEmpty = (r.containerCount exposure == 0) := by
    rw [← containers_size r exposure identity?, ContainerTree.size]
    cases (r.containers exposure identity?).nodes <;> rfl
  simp only [unit, bare]
  split
  · rename_i nothing
    rw [nothing]
    rfl
  · rename_i something
    rw [Bool.not_eq_true] at something
    rw [something]
    rfl

theorem unit_shows {u : UnitView} (h : r.unit access exposure identity? = some u) :
    u.Shows (r.identityOr identity?) r.view.hiddenNames.length (r.containerCount exposure) := by
  simp only [unit] at h
  split at h
  · cases h
  · cases h
    refine UnitView.shows_of_counts rfl
      (claimProperties_accessors _ _ (r.containers exposure identity?).roots) ?_
    rw [ContainerTree.views_length, containers_size]

theorem identityOr_own (r : Resolved) : r.identityOr (some r.view.identity) = r.view.identity := by
  by_cases empty : r.view.identity = ""
  · simp only [identityOr, namedSpace, empty, Option.filter_some]
    rfl
  · simp [identityOr, namedSpace, Option.filter_some, empty]

theorem identityOr_numbered (r : Resolved) (identity : String) (k : Nat) :
    r.identityOr (some (Identifier.numbered identity k)) = Identifier.numbered identity k := by
  have filled : Identifier.numbered identity k ≠ "" := by
    intro empty
    have none : (Identifier.numbered identity k).toList = [] := by rw [empty]; rfl
    simp [Identifier.numbered] at none
  simp [identityOr, namedSpace, Option.filter_some, filled]

end Resolved

end HiddenNames
