import HiddenNames.Emission.Pass
import HiddenNames.Proofs.Source.Nested
import HiddenNames.Proofs.Surface.Reach

/-!
Types that a pass refuses. A type of the program that cannot be named from everywhere has no unit of
its own; the nearest type around it that can be named has one, with a container for the refused
type. The container shows the members of the type if the walk restricts the type itself. Judged by
its own declaration alone, a public or internal type is not restricted, and its container has no
members.
-/

namespace HiddenNames

namespace SourceProgram

variable {p : SourceProgram}

structure IsNearestOpen (p : SourceProgram) (around t : SourceType) : Prop where
  held : around ∈ p.types
  within : t.IsWithin around
  isOpen : p.IsOpen around
  nearest : ∀ other ∈ p.types, t.IsWithin other → p.IsOpen other →
    other = around ∨ around.IsWithin other

instance (p : SourceProgram) (around t : SourceType) : Decidable (p.IsNearestOpen around t) :=
  decidable_of_iff (around ∈ p.types ∧ t.IsWithin around ∧ p.IsOpen around ∧
      ∀ other ∈ p.types, t.IsWithin other → p.IsOpen other → other = around ∨ around.IsWithin other)
    ⟨fun ⟨held, within, isOpen, nearest⟩ => ⟨held, within, isOpen, nearest⟩,
      fun ⟨held, within, isOpen, nearest⟩ => ⟨held, within, isOpen, nearest⟩⟩

/-- Where the types of namespaces are public or internal, each type that cannot be named from
everywhere is inside one that can. -/
theorem exists_nearestOpen (h : p.IsIndexed)
    (broad : ∀ t ∈ p.types, t.outer = [] → t.visibility.isBroad false = true) :
    ∀ t ∈ p.types, ¬p.IsOpen t → ∃ around, p.IsNearestOpen around t := by
  refine h.induct (motive := fun t => ¬p.IsOpen t → ∃ around, p.IsNearestOpen around t) ?_ ?_
  · intro t held top closed
    have isOpen : p.IsOpen t := ⟨broad t held top, fun _ _ within => absurd top within.inside⟩
    exact absurd isOpen closed
  · intro t _ owner among inside ih _
    by_cases ownerOpen : p.IsOpen owner
    · refine ⟨owner, among, inside.within, ownerOpen, fun other known within _ => ?_⟩
      exact (h.within_iff among known inside).mp within
    · obtain ⟨around, nearest⟩ := ih ownerOpen
      refine ⟨around, nearest.held, inside.within.trans nearest.within, nearest.isOpen, ?_⟩
      intro other known within isOpen
      rcases (h.within_iff among known inside).mp within with rfl | outside
      · exact absurd isOpen ownerOpen
      · exact nearest.nearest other known outside isOpen

end SourceProgram

structure Resolved.NamesInside (r : Resolved) (access : Access) (exposure : Exposure)
    (identity? : Option String) (fullName : String) (names : List String) : Prop where
  generated : ∃ u, r.unit access exposure identity? = some u ∧
    ∃ node ∈ (r.containers exposure identity?).nodes, node.identity = fullName ∧
      (r.containers exposure identity?).viewOf node ∈ u.containers ∧
      u.Reaches ((r.containers exposure identity?).viewOf node) ∧
      ((r.containers exposure identity?).viewOf node).accessors.map Accessor.value =
        names.map CSharp.Literal.regular

namespace SourceProgram

variable {p : SourceProgram}

/-- What the container of a type shows: the hidden members, if the type is restricted itself. -/
def shownInside (p : SourceProgram) (exposure : Exposure) (t : SourceType) : List String :=
  if exposure = .chain ∨ t.visibility.isBroad false = false then (p.view t).hiddenNames else []

theorem restricted_of_closed (h : p.IsIndexed) {t : SourceType} (held : t ∈ p.types)
    (closed : ¬p.IsOpen t) (exposure : Exposure) :
    (p.view t).isRestricted false exposure = true ↔
      exposure = .chain ∨ t.visibility.isBroad false = false := by
  cases exposure with
  | chain =>
    rw [← isExposed_iff h t held, Bool.not_eq_true] at closed
    rw [TypeView.isRestricted, closed]
    exact iff_of_true rfl (Or.inl rfl)
  | declared =>
    have apart : Exposure.declared ≠ .chain := by decide
    rw [TypeView.isRestricted, isExposed_declared, Bool.not_eq_true', or_iff_right apart]

/-- The unit of the nearest type that can be named has a container for the refused one. -/
theorem unit_names_inside (h : p.IsIndexed) {around t : SourceType} (held : t ∈ p.types)
    (closed : ¬p.IsOpen t) (nearest : p.IsNearestOpen around t) (access : Access)
    (exposure : Exposure) (identity? : Option String) :
    (p.described around).NamesInside access exposure identity? t.fullName
      (p.shownInside exposure t) := by
  let reserved := [wrapperName ((p.described around).identityOr identity?)]
  let outlook : Outlook := ⟨false, exposure⟩
  have covered :=
    covered_of_closed h nearest.held held nearest.isOpen closed nearest.within exposure
  have walked := (walked_iff h nearest.held held nearest.within).mpr covered
  obtain ⟨node, among, identity⟩ := ContainerTree.node_of_walked reserved walked
  rw [ContainerTree.arrangedTarget_fullName, view_fullName h held] at identity
  have members : node.members = p.shownInside exposure t := by
    obtain ⟨v, comes, stands⟩ :=
      (ContainerTree.ofTarget_holds outlook (p.view around) reserved).stand node among
    obtain ⟨other, known, rfl, _, _⟩ := walked_within h nearest.held comes
    have same : other = t := by
      apply h.eq_of_fullName known held
      rw [← view_fullName h known, ← ContainerTree.arrangedTarget_fullName, ← stands.identity,
        identity]
    rw [stands.members, same, ContainerTree.arrangedTarget_restricted,
      ContainerTree.arrangedTarget_hiddenNames, shownInside]
    exact if_congr (restricted_of_closed h held closed exposure) rfl rfl
  have filled : (p.described around).containerCount exposure ≠ 0 := by
    rw [← Resolved.containers_size _ exposure identity?]
    exact List.length_pos_iff.mpr (List.ne_nil_of_mem among) |>.ne'
  obtain ⟨u, built⟩ : ∃ u, (p.described around).unit access exposure identity? = some u := by
    apply Option.isSome_iff_exists.mp
    rw [Resolved.unit_isSome, beq_eq_false_iff_ne.mpr filled, Bool.and_false]
    rfl
  obtain ⟨containers, _⟩ := Resolved.unit_containers built
  refine ⟨u, built, node, among, identity, ?_, Resolved.unit_reaches built among, ?_⟩
  · rw [containers]
    exact ContainerTree.mem_views.mpr ⟨node, among, rfl⟩
  · rw [← members]
    exact ContainerTree.viewOf_values _ node

end SourceProgram

namespace Pass

theorem unsupported_iff (options : PassOptions) (registry : Registry) (request : Request)
    (target : Target) (r : Resolved) :
    (synthesizeOne options registry (.resolved request target (.ok (some r)))).1.report.status =
        .unsupported ↔ (r.view.inSource && !r.view.isExposed) = true := by
  by_cases hidden : (r.view.inSource && !r.view.isExposed) = true
  · simp only [synthesizeOne, if_pos hidden]
    exact iff_of_true rfl hidden
  · simp only [synthesizeOne, if_neg hidden]
    refine iff_of_false ?_ hidden
    unfold emit
    split
    · nofun
    · simp only
      split <;> nofun

/-- A type of a program whose outermost types are public or internal, when a pass refuses it, has a
container in the unit of the nearest type around it that can be named. The container is within reach
of the extension block. It shows all hidden members of the type if exposure is judged by the whole
chain, or if the type itself is neither public nor internal, and no members else. -/
theorem refused_type_is_named_inside (p : SourceProgram) (read : p.IsRead)
    (broad : ∀ t ∈ p.types, t.outer = [] → t.visibility = .pub ∨ t.visibility = .internal)
    (t : SourceType) (held : t ∈ p.types) (options : PassOptions) (registry : Registry)
    (request : Request) (target : Target)
    (refused : (synthesizeOne options registry
      (.resolved request target (.ok (some (p.described t))))).1.report.status = .unsupported) :
    ∃ around, p.IsNearestOpen around t ∧
      ∀ (access : Access) (exposure : Exposure) (identity? : Option String),
        (p.described around).NamesInside access exposure identity? t.fullName
          (p.shownInside exposure t) := by
  have indexed := read.indexed
  have closed : ¬p.IsOpen t := by
    have hidden := (unsupported_iff options registry request target _).mp refused
    rw [← SourceProgram.isExposed_iff indexed t held]
    intro exposed
    have view : (p.described t).view = p.view t := rfl
    rw [view, exposed, Bool.not_true, Bool.and_false] at hidden
    cases hidden
  have outermost : ∀ t ∈ p.types, t.outer = [] → t.visibility.isBroad false = true := by
    intro t held top
    rcases broad t held top with isPublic | isInternal
    · rw [isPublic]
      rfl
    · rw [isInternal]
      rfl
  obtain ⟨around, nearest⟩ := SourceProgram.exists_nearestOpen indexed outermost t held closed
  refine ⟨around, nearest, fun access exposure identity? => ?_⟩
  exact SourceProgram.unit_names_inside indexed held closed nearest access exposure identity?

def publicInPrivate : SourceProgram :=
  ({} : SourceProgram).addSource "public class O { class P { public class T { int x; } } }" "a.cs"

def outerClass : SourceType where
  name := "O"
  kind := .classKind
  visibility := .pub

def innerClass : SourceType where
  outer := [("O", 0), ("P", 0)]
  name := "T"
  kind := .classKind
  visibility := .pub
  members := [{ name := "x", kind := .field, visibility := .priv }]

def innerTarget : Target where
  key := "Program|O+P+T"
  request := .direct innerClass.ref
  source? := some innerClass
  fullName := "O+P+T"

theorem inner_class_is_named_inside :
    ∃ around, publicInPrivate.IsNearestOpen around innerClass ∧
      ∀ (access : Access) (exposure : Exposure) (identity? : Option String),
        (publicInPrivate.described around).NamesInside access exposure identity? innerClass.fullName
          (publicInPrivate.shownInside exposure innerClass) :=
  refused_type_is_named_inside publicInPrivate (.addSource (.empty "Program") _ _)
    (by decide +kernel) innerClass (by decide +kernel) { exposure := .declared } {}
    (.direct innerClass.ref) innerTarget (by decide +kernel)

/-- With exposure judged by the declaration alone, the refused class has a container without its
member. -/
theorem inner_class_member_is_not_named :
    let options : PassOptions := { exposure := .declared }
    let outer := publicInPrivate.described outerClass
    let tree := outer.containers options.exposure none
    (synthesizeOne options {} (.resolved (.direct innerClass.ref) innerTarget
        (.ok (some (publicInPrivate.described innerClass))))).1.report.status = .unsupported ∧
      publicInPrivate.IsNearestOpen outerClass innerClass ∧
      ¬∃ node ∈ tree.nodes, node.identity = innerClass.fullName ∧
        ∀ name ∈ (publicInPrivate.view innerClass).hiddenNames,
          CSharp.Literal.regular name ∈ (tree.viewOf node).accessors.map Accessor.value := by
  decide +kernel

end Pass

end HiddenNames
