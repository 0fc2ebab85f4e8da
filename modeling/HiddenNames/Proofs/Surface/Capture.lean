import HiddenNames.Proofs.Identifier.Granted
import HiddenNames.Proofs.Surface.Declared
import HiddenNames.Proofs.Surface.Spaces
import HiddenNames.Types.Record

/-!
Where a type parameter of the extension block is called like a container, the name means the
parameter inside the block, and the forward there does not lead to the container. Parameters and
containers are named in two scopes that know nothing of each other, so this happens just when both
are asked for one name, or when one name with a number is handed out in both.
-/

namespace HiddenNames

open Identifier (AreApart IsDeclaredFor IsNumbered Scope numbered plain stem)

/-- Names of which no two are declared alike, and none like a name that is taken, are handed out as
they are declared. -/
theorem Identifier.Scope.claimAll_plain {names : List String} (distinct : (names.map stem).Nodup) :
    ∀ {scope : Scope}, (∀ name ∈ names, stem name ∉ scope.taken) →
      (scope.claimAll names).1.map plain = names.map stem := by
  induction names with
  | nil => exact fun _ => rfl
  | cons name rest ih =>
    intro scope free
    rw [List.map_cons, List.nodup_cons] at distinct
    have own : scope.isFree (legalize name) = true := decide_eq_true (free name List.mem_cons_self)
    have chosen : scope.choose name = legalize name := if_pos own
    rw [claimAll_cons, List.map_cons, List.map_cons, chosen, ih distinct.2]
    · rfl
    · intro other held
      rw [take_taken, List.mem_cons, not_or]
      constructor
      · intro same
        exact distinct.1 (List.mem_map.mpr ⟨other, held, same⟩)
      · exact free other (List.mem_cons_of_mem name held)

/-- Inside the extension block some container's name means a type parameter. -/
def UnitView.IsCaptured (u : UnitView) (parameters : List String) : Prop :=
  ∃ name ∈ parameters, ∃ c ∈ u.containers, plain name = plain c.name

def TypeView.declaredParameters (v : TypeView) : List String := v.chain.flatMap TypeHead.parameters

namespace Resolved

variable {r : Resolved} {access : Access} {exposure : Exposure} {identity? : Option String}
  {u : UnitView}

def outlook (r : Resolved) (exposure : Exposure) : Outlook := ⟨!r.view.inSource, exposure⟩

def askedNames (r : Resolved) (exposure : Exposure) : List String :=
  (ContainerTree.containedTypes (r.outlook exposure) r.view).map
    (Descendant.canonical (r.outlook exposure))

/-- A type parameter and a container are asked for under one name, which is not the wrapper's. -/
def SharesName (r : Resolved) (exposure : Exposure) (identity? : Option String) : Prop :=
  ∃ name ∈ r.view.declaredParameters, ∃ asked ∈ r.askedNames exposure,
    stem name = stem asked ∧ stem name ≠ wrapperName (r.identityOr identity?)

instance (r : Resolved) (exposure : Exposure) (identity? : Option String) :
    Decidable (r.SharesName exposure identity?) :=
  inferInstanceAs (Decidable (∃ name ∈ _, ∃ asked ∈ _, _ ∧ _))

/-- One name with a number comes of what is asked for the type parameters, and of what is asked for
the containers beside the wrapper. -/
def SharesNumber (r : Resolved) (exposure : Exposure) (identity? : Option String) : Prop :=
  ∃ front k, IsDeclaredFor [] r.view.declaredParameters (numbered front k) ∧
    IsDeclaredFor [wrapperName (r.identityOr identity?)] (r.askedNames exposure) (numbered front k)

theorem unit_container_names (h : r.unit access exposure identity? = some u) :
    (u.containers.map ContainerView.name).Perm
      ((Scope.ofReserved [wrapperName (r.identityOr identity?)]).claimAll
        (r.askedNames exposure)).1 := by
  rw [(unit_containers h).1]
  refine (ContainerTree.views_names _).trans ?_
  rw [containers, ContainerTree.ofTarget_names]
  exact List.Perm.refl _

/-- The names of containers, marks aside, are those that the scope of the containers hands out. -/
theorem mem_container_names (h : r.unit access exposure identity? = some u) {text : String} :
    (∃ c ∈ u.containers, text = plain c.name) ↔
      text ∈ ((Scope.ofReserved [wrapperName (r.identityOr identity?)]).claimAll
        (r.askedNames exposure)).1.map plain := by
  rw [← ((unit_container_names h).map plain).mem_iff, List.map_map, List.mem_map]
  simp only [Function.comp_apply, eq_comm]

theorem isCaptured_iff (h : r.unit access exposure identity? = some u) :
    u.IsCaptured r.view.extensionParameters ↔
      ∃ text, text ∈ ((Scope.ofReserved []).claimAll r.view.declaredParameters).1.map plain ∧
        text ∈ ((Scope.ofReserved [wrapperName (r.identityOr identity?)]).claimAll
          (r.askedNames exposure)).1.map plain := by
  rw [UnitView.IsCaptured, TypeView.extensionParameters_eq]
  constructor
  · rintro ⟨name, held, shown⟩
    exact ⟨plain name, List.mem_map_of_mem held, (mem_container_names h).mp shown⟩
  · rintro ⟨text, given, shown⟩
    obtain ⟨name, held, rfl⟩ := List.mem_map.mp given
    exact ⟨name, held, (mem_container_names h).mpr shown⟩

/-- What is asked for on both sides is handed out on both sides. -/
theorem captured_of_shared (h : r.unit access exposure identity? = some u)
    (shared : r.SharesName exposure identity?) : u.IsCaptured r.view.extensionParameters := by
  obtain ⟨name, declared, asked, contained, same, free⟩ := shared
  rw [isCaptured_iff h]
  refine ⟨stem name, ?_, ?_⟩
  · exact Scope.stem_handed_out declared List.not_mem_nil
  · rw [same]
    apply Scope.stem_handed_out contained
    rw [← same, Scope.ofReserved, List.map_singleton, List.mem_singleton, plain_wrapperName]
    exact free

/-- A name without a number that is handed out on both sides is asked for on both. -/
theorem shared_of_unnumbered {text : String} (unnumbered : ¬IsNumbered text)
    (given : text ∈ ((Scope.ofReserved []).claimAll r.view.declaredParameters).1.map plain)
    (given' : text ∈ ((Scope.ofReserved [wrapperName (r.identityOr identity?)]).claimAll
      (r.askedNames exposure)).1.map plain) : r.SharesName exposure identity? := by
  obtain ⟨name, declared, rfl⟩ := Scope.asked_for given unnumbered
  obtain ⟨asked, contained, same⟩ := Scope.asked_for given' unnumbered
  refine ⟨name, declared, asked, contained, same.symm, fun wrapper => ?_⟩
  obtain ⟨identifier, held, named⟩ := List.mem_map.mp given'
  have free := (Scope.claimAll_apart _ _).free identifier held
  rw [named, Scope.ofReserved, List.map_singleton, List.mem_singleton, plain_wrapperName] at free
  exact free wrapper

theorem sharesNumber_iff : r.SharesNumber exposure identity? ↔
    ∃ text, IsNumbered text ∧
      text ∈ ((Scope.ofReserved []).claimAll r.view.declaredParameters).1.map plain ∧
        text ∈ ((Scope.ofReserved [wrapperName (r.identityOr identity?)]).claimAll
          (r.askedNames exposure)).1.map plain := by
  have wrapper : (Scope.ofReserved [wrapperName (r.identityOr identity?)]).taken =
      [wrapperName (r.identityOr identity?)] := by
    rw [Scope.ofReserved, List.map_singleton, plain_wrapperName]
  simp only [Scope.mem_claimAll_iff_isDeclaredFor, wrapper]
  constructor
  · rintro ⟨front, k, given, given'⟩
    exact ⟨numbered front k, ⟨front, k, rfl⟩, given, given'⟩
  · rintro ⟨_, ⟨front, k, rfl⟩, given, given'⟩
    exact ⟨front, k, given, given'⟩

/-- A container of a unit is captured just when a type parameter and a container are asked for under
one name, or when one name with a number comes of what is asked for either. Parameters get no
numbers while they are declared apart, so then the first is the only way. -/
theorem container_captured_iff (h : r.unit access exposure identity? = some u) :
    (u.IsCaptured r.view.extensionParameters ↔
      r.SharesName exposure identity? ∨ r.SharesNumber exposure identity?) ∧
    ((r.view.declaredParameters.map stem).Nodup →
      (∀ name ∈ r.view.declaredParameters, ¬IsNumbered (stem name)) →
      (u.IsCaptured r.view.extensionParameters ↔ r.SharesName exposure identity?)) := by
  constructor
  · constructor
    · intro captured
      obtain ⟨text, given, given'⟩ := (isCaptured_iff h).mp captured
      by_cases number : IsNumbered text
      · exact Or.inr (sharesNumber_iff.mpr ⟨text, number, given, given'⟩)
      · exact Or.inl (shared_of_unnumbered number given given')
    · rintro (shared | number)
      · exact captured_of_shared h shared
      · obtain ⟨text, -, given, given'⟩ := sharesNumber_iff.mp number
        exact (isCaptured_iff h).mpr ⟨text, given, given'⟩
  · intro distinct unnumbered
    refine ⟨fun captured => ?_, captured_of_shared h⟩
    obtain ⟨text, given, given'⟩ := (isCaptured_iff h).mp captured
    apply shared_of_unnumbered _ given given'
    have fresh : ∀ name ∈ r.view.declaredParameters, stem name ∉ (Scope.ofReserved []).taken :=
      fun _ _ => List.not_mem_nil
    rw [Scope.claimAll_plain distinct fresh] at given
    obtain ⟨name, declared, rfl⟩ := List.mem_map.mp given
    exact unnumbered name declared

-- Both classes declare `T`, so the second parameter becomes `T_2`, which the hidden class is
-- called.
example :
    let shadowing : Resolved :=
      { tier := .static
        view := { tier := .static
                  outer := [⟨"A", .classKind, .pub, ["T"], [], [], none⟩]
                  tree := .node ⟨"B", .classKind, .pub, ["T"], [], [], none⟩
                    [.node ⟨"T_2", .classKind, .priv, [], [], [], none⟩ []] } }
    shadowing.SharesNumber .chain none ∧ ¬shadowing.SharesName .chain none :=
  ⟨⟨"T", 2, by decide +kernel, by decide +kernel⟩, by decide +kernel⟩

/-- A compiled class with one type parameter and a hidden class `T` inside. -/
def genericBox : Resolved :=
  let field : Member := { name := "x", kind := .field, visibility := .priv }
  { tier := .metadata
    view := (TypeRecord.node { name := "Box\x601", parameters := TypeRecord.parameterNames 1 }
      [.node { name := "T", visibility := .priv, members := [field] } []]).view .metadata }

theorem generic_box_captured_iff : ∃ u, genericBox.unit .pub .chain none = some u ∧
    u.IsCaptured genericBox.view.extensionParameters := by
  have some_unit : (genericBox.unit .pub .chain none).isSome = true := by
    rw [unit_isSome]
    decide +kernel
  have shared : genericBox.SharesName .chain none := by decide +kernel
  obtain ⟨u, built⟩ := Option.isSome_iff_exists.mp some_unit
  exact ⟨u, built, (container_captured_iff built).1.mpr (Or.inl shared)⟩

/-- In the extension block of the class, `new T()` makes a value of the type parameter. -/
theorem parameter_captures_container : ∃ u, genericBox.unit .pub .chain none = some u ∧
    u.parameters = "<T>" ∧ u.forwards = [⟨"T", "T"⟩] ∧ u.containers.map ContainerView.name = ["T"] ∧
    u.IsCaptured genericBox.view.extensionParameters := by
  have shape : (genericBox.unit .pub .chain none).map
      (fun u => (u.parameters, u.forwards, u.containers.map ContainerView.name)) =
        some ("<T>", [⟨"T", "T"⟩], ["T"]) := by
    decide +kernel
  obtain ⟨u, built, parts⟩ := Option.map_eq_some_iff.mp shape
  obtain ⟨parameters, rest⟩ := Prod.mk.inj parts
  obtain ⟨forwards, containers⟩ := Prod.mk.inj rest
  refine ⟨u, built, parameters, forwards, containers, "T", by decide +kernel, ?_⟩
  have held : "T" ∈ u.containers.map ContainerView.name := by
    rw [containers]
    exact List.mem_cons_self
  obtain ⟨c, among, named⟩ := List.mem_map.mp held
  exact ⟨c, among, by rw [named]⟩

end Resolved

end HiddenNames
