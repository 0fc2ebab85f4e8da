import HiddenNames.Proofs.Surface.Settled
import HiddenNames.Types.Record

/-!
The order in which a compiled module lists members and nested types has no part in what is
generated, nor has which of the two ways of looking at the module described them. Records that list
the same at every level lead to the same text, at every path below them.
-/

namespace HiddenNames

/-- Two heads say the same, and list the same members in some order, each at least once. -/
structure RecordHead.SaysSame (a b : RecordHead) : Prop where
  name : a.name = b.name
  space : a.space? = b.space?
  kind : a.kind = b.kind
  visibility : a.visibility = b.visibility
  parameters : a.parameters = b.parameters
  members : ∀ m, m ∈ a.members ↔ m ∈ b.members

namespace TypeRecord

mutual

/-- The records are equal up to the order and repetition of members and the order of nested records,
at every level. -/
def Alike : TypeRecord → TypeRecord → Prop
  | .node head nested, .node head' nested' =>
    head.SaysSame head' ∧ ∃ listed, listed.Perm nested' ∧ EachAlike nested listed

def EachAlike : List TypeRecord → List TypeRecord → Prop
  | [], [] => True
  | r :: rest, r' :: rest' => Alike r r' ∧ EachAlike rest rest'
  | [], _ :: _ => False
  | _ :: _, [] => False

end

def metadataName (r : TypeRecord) : String := r.head.typeHead.metadataName

mutual

def SiblingsDistinct : TypeRecord → Prop
  | .node _ nested => (nested.map metadataName).Nodup ∧ AllDistinct nested

def AllDistinct : List TypeRecord → Prop
  | [] => True
  | r :: rest => SiblingsDistinct r ∧ AllDistinct rest

end

/-- The text for the type at a path below a record. There is none if there is no such type or the
type hides no name, and it fails where a name has an arity that cannot be read. -/
def textAt (r : TypeRecord) (tier : Tier) (path : List String) (access : Access)
    (exposure : Exposure) (identity? : Option String) :
    Except ArityError (Option (Option String)) :=
  match (r.view? tier).bind fun v => v.findNested path with
  | .error e => .error e
  | .ok none => .ok none
  | .ok (some v) =>
    match v.tree.walkError with
    | some e => .error e
    | none => .ok (some (Resolved.render ⟨tier, v, none⟩ access exposure identity?))

variable {r r' : TypeRecord} {tier tier' : Tier}

theorem trees_eq (rs : List TypeRecord) : trees rs = rs.map tree := by
  induction rs with
  | nil => rfl
  | cons r rest ih => rw [trees, ih, List.map_cons]

theorem tree_head (r : TypeRecord) : r.tree.head = r.head.typeHead := by
  cases r
  rfl

theorem tree_nested (r : TypeRecord) : r.tree.nested = r.nested.map tree := by
  cases r with
  | node head nested => exact trees_eq nested

theorem Alike.head (h : r.Alike r') : r.head.SaysSame r'.head := by
  cases r
  cases r'
  exact h.1

theorem Alike.nested (h : r.Alike r') :
    ∃ listed, listed.Perm r'.nested ∧ EachAlike r.nested listed := by
  cases r
  cases r'
  exact h.2

theorem SiblingsDistinct.nested (h : r.SiblingsDistinct) :
    (r.nested.map metadataName).Nodup ∧ AllDistinct r.nested := by
  cases r
  exact h

theorem AllDistinct.mem {rs : List TypeRecord} (h : AllDistinct rs) (held : r ∈ rs) :
    r.SiblingsDistinct := by
  induction rs with
  | nil => cases held
  | cons first rest ih =>
    rcases List.mem_cons.mp held with rfl | later
    · exact h.1
    · exact ih h.2 later

theorem eachAlike_iff {rs rs' : List TypeRecord} :
    EachAlike rs rs' ↔ List.Forall₂ Alike rs rs' := by
  induction rs generalizing rs' with
  | nil => cases rs' <;> simp [EachAlike]
  | cons r rest ih => cases rs' <;> simp [EachAlike, ih]

end TypeRecord

namespace RecordHead

variable {a b : RecordHead}

theorem SaysSame.face (h : a.SaysSame b) : a.typeHead.face = b.typeHead.face := by
  simp only [TypeHead.face, typeHead, h.name, h.kind, h.visibility, h.parameters]

/-- Both ways of looking at a compiled type hide the same of its members. -/
theorem isHidden_compiled {tier tier' : Tier} (compiled : tier ≠ .static)
    (compiled' : tier' ≠ .static) : Member.isHidden tier = Member.isHidden tier' := by
  cases tier <;> cases tier' <;> first | rfl | contradiction

theorem SaysSame.settled (h : a.SaysSame b) {tier tier' : Tier} (compiled : tier ≠ .static)
    (compiled' : tier' ≠ .static) : a.typeHead.settled tier = b.typeHead.settled tier' := by
  refine TypeHead.settled_congr h.face (inOrder_congr fun name => ?_)
  rw [isHidden_compiled compiled compiled']
  simp only [List.mem_map, List.mem_filter]
  exact exists_congr fun m => and_congr_left fun _ => and_congr_left fun _ => h.members m

end RecordHead

namespace TypeRecord

variable {r r' : TypeRecord} {tier tier' : Tier}

theorem Alike.metadataName (h : r.Alike r') : r.metadataName = r'.metadataName :=
  TypeHead.congr_of_face (f := TypeHead.metadataName) (fun _ => rfl) h.head.face

theorem Alike.synthesized (h : r.Alike r') :
    isSynthesizedName r.tree.head.name = isSynthesizedName r'.tree.head.name := by
  rw [tree_head, tree_head]
  exact TypeHead.congr_of_face (f := fun head => isSynthesizedName head.name) (fun _ => rfl)
    h.head.face

theorem Alike.nameError (h : r.Alike r') : r.tree.head.nameError = r'.tree.head.nameError := by
  rw [tree_head, tree_head]
  exact TypeHead.congr_of_face (f := TypeHead.nameError) (fun _ => rfl) h.head.face

theorem Alike.view_bare (h : r.Alike r') : (r.view tier).bare = (r'.view tier').bare := by
  have face := h.head.face
  rw [← tree_head, ← tree_head] at face
  rw [TypeView.bare, TypeView.bare, TypeView.mk.injEq]
  exact ⟨rfl, rfl, h.head.space, rfl, congrArg (TypeTree.node · []) face⟩

mutual

theorem Alike.settled (r : TypeRecord) {r' : TypeRecord} (h : r.Alike r')
    (distinct : r.SiblingsDistinct) (compiled : tier ≠ .static) (compiled' : tier' ≠ .static) :
    r.tree.settled tier = r'.tree.settled tier' := by
  match r, r', h, distinct with
  | .node head nested, .node head' nested', ⟨heads, listed, perm, each⟩, ⟨names, inside⟩ =>
    rw [tree, tree, trees_eq, trees_eq]
    refine TypeTree.settled_eq_of_perm (heads.settled compiled compiled') ?_ ?_
    · rw [EachAlike.settled nested each inside compiled compiled']
      exact (perm.map tree).map _
    · rw [List.map_map]
      have spelled : (fun t : TypeTree => t.head.metadataName) ∘ tree = metadataName :=
        funext fun r => congrArg TypeHead.metadataName r.tree_head
      rw [spelled]
      exact names

theorem EachAlike.settled (rs : List TypeRecord) {rs' : List TypeRecord} (h : EachAlike rs rs')
    (distinct : AllDistinct rs) (compiled : tier ≠ .static) (compiled' : tier' ≠ .static) :
    (rs.map tree).map (TypeTree.settled tier) = (rs'.map tree).map (TypeTree.settled tier') := by
  match rs, rs', h, distinct with
  | [], [], _, _ => rfl
  | r :: rest, r' :: rest', ⟨first, others⟩, ⟨own, later⟩ =>
    exact congrArg₂ List.cons (Alike.settled r first own compiled compiled')
      (EachAlike.settled rest others later compiled compiled')

end

/-! Names that cannot be read. -/

mutual

/-- A walk through a record meets a name that cannot be read wherever a walk through an alike one
does, though not always the same such name first. -/
theorem Alike.walkError_none (r : TypeRecord) {r' : TypeRecord} (h : r.Alike r') :
    r.tree.walkError = none ↔ r'.tree.walkError = none := by
  match r, r', h with
  | .node head nested, .node head' nested', ⟨_, listed, perm, each⟩ =>
    rw [TypeTree.walkError_eq_none_iff, TypeTree.walkError_eq_none_iff]
    rw [tree_nested, tree_nested]
    refine (EachAlike.walkErrors_none nested each).trans ?_
    exact forall_congr' fun t => imp_congr_left (perm.map tree).mem_iff

theorem EachAlike.walkErrors_none (rs : List TypeRecord) {rs' : List TypeRecord}
    (h : EachAlike rs rs') :
    (∀ t ∈ rs.map tree, t.head.nameError = none ∧
      (isSynthesizedName t.head.name = false → t.walkError = none)) ↔
    ∀ t ∈ rs'.map tree, t.head.nameError = none ∧
      (isSynthesizedName t.head.name = false → t.walkError = none) := by
  match rs, rs', h with
  | [], [], _ => rfl
  | r :: rest, r' :: rest', ⟨first, others⟩ =>
    rw [List.map_cons, List.map_cons, List.forall_mem_cons, List.forall_mem_cons,
      first.nameError, first.synthesized, Alike.walkError_none r first,
      EachAlike.walkErrors_none rest others]

end

theorem error_of_none_iff {α : Type} {first? second? : Option α} {e : α}
    (same : first? = none ↔ second? = none) (error : first? = some e) : ∃ e', second? = some e' :=
  Option.ne_none_iff_exists'.mp fun none =>
    Option.some_ne_none e (error.symm.trans (same.mpr none))

/-! On the way down. -/

theorem find_nested (r : TypeRecord) (name : String) :
    r.tree.nested.find? (fun t => t.head.metadataName = name) =
      (r.nested.find? fun r => r.metadataName = name).map tree := by
  rw [tree_nested, List.find?_map]
  congr 2
  funext inner
  rw [Function.comp_apply, tree_head]
  rfl

theorem EachAlike.find (rs : List TypeRecord) {rs' : List TypeRecord} (h : EachAlike rs rs')
    (distinct : AllDistinct rs) (name : String) :
    Option.Rel (fun r r' => r.Alike r' ∧ r.SiblingsDistinct)
      (rs.find? fun r => r.metadataName = name) (rs'.find? fun r => r.metadataName = name) := by
  match rs, rs', h, distinct with
  | [], [], _, _ => exact .none
  | r :: rest, r' :: rest', ⟨first, others⟩, ⟨own, later⟩ =>
    rw [List.find?_cons, List.find?_cons, first.metadataName]
    split
    · exact .some ⟨first, own⟩
    · exact EachAlike.find rest others later name

theorem Alike.find (h : r.Alike r') (distinct : r.SiblingsDistinct) (name : String) :
    Option.Rel (fun r r' => r.Alike r' ∧ r.SiblingsDistinct)
      (r.nested.find? fun r => r.metadataName = name)
      (r'.nested.find? fun r => r.metadataName = name) := by
  obtain ⟨listed, perm, each⟩ := h.nested
  have names : r.nested.map TypeRecord.metadataName = listed.map TypeRecord.metadataName := by
    rw [← List.forall₂_eq_eq_eq, List.forall₂_map_left_iff, List.forall₂_map_right_iff]
    exact (eachAlike_iff.mp each).imp fun _ _ => Alike.metadataName
  rw [← find?_eq_of_perm perm (names ▸ distinct.nested.1) name]
  exact EachAlike.find r.nested each distinct.nested.2 name

/-- The names of the nested types of a record can be read if those of an alike one can. -/
theorem Alike.nestedErrors_none (h : r.Alike r') :
    (∀ t ∈ r.tree.nested, t.head.nameError = none) ↔
      ∀ t ∈ r'.tree.nested, t.head.nameError = none := by
  obtain ⟨listed, perm, each⟩ := h.nested
  have pointwise : (r.nested.map tree).map (fun t => t.head.nameError) =
      (listed.map tree).map fun t => t.head.nameError := by
    rw [List.map_map, List.map_map, ← List.forall₂_eq_eq_eq, List.forall₂_map_left_iff,
      List.forall₂_map_right_iff]
    exact (eachAlike_iff.mp each).imp fun _ _ => Alike.nameError
  have errors : ∀ ts : List TypeTree, (∀ t ∈ ts, t.head.nameError = none) ↔
      ∀ e ∈ ts.map (fun t => t.head.nameError), e = none :=
    fun ts => (List.forall_mem_map (P := fun e => e = none)).symm
  rw [tree_nested, tree_nested, errors, pointwise, ← errors]
  exact forall_congr' fun t => imp_congr_left (perm.map tree).mem_iff

end TypeRecord

structure AlikeViews (v w : TypeView) : Prop where
  records : ∃ r r' : TypeRecord,
    r.Alike r' ∧ r.SiblingsDistinct ∧ v.tree = r.tree ∧ w.tree = r'.tree
  bare : v.bare = w.bare
  left : v.tier ≠ .static
  right : w.tier ≠ .static

namespace AlikeViews

variable {v w : TypeView}

theorem showsSame (h : AlikeViews v w) : v.ShowsSame w := by
  obtain ⟨r, r', alike, distinct, here, there⟩ := h.records
  refine ⟨h.bare, ?_⟩
  rw [here, there]
  exact TypeRecord.Alike.settled r alike distinct h.left h.right

theorem walkError_none (h : AlikeViews v w) :
    v.tree.walkError = none ↔ w.tree.walkError = none := by
  obtain ⟨r, r', alike, -, here, there⟩ := h.records
  rw [here, there]
  exact TypeRecord.Alike.walkError_none r alike

theorem find (h : AlikeViews v w) (name : String) :
    Option.Rel AlikeViews (v.nested.find? fun n => n.head.metadataName = name)
      (w.nested.find? fun n => n.head.metadataName = name) := by
  obtain ⟨r, r', alike, distinct, here, there⟩ := h.records
  have lookup : ∀ (u : TypeView) (q : TypeRecord), u.tree = q.tree →
      u.nested.find? (fun n => n.head.metadataName = name) =
        (q.nested.find? fun q => q.metadataName = name).map fun q => u.child q.tree := by
    intro u q shown
    have inside := q.find_nested name
    rw [← shown] at inside
    rw [TypeView.nested, List.find?_map]
    exact (congrArg (Option.map u.child) inside).trans (Option.map_map ..)
  rw [lookup v r here, lookup w r' there]
  have inside := alike.find distinct name
  generalize r.nested.find? (fun q => q.metadataName = name) = found at inside ⊢
  generalize r'.nested.find? (fun q => q.metadataName = name) = found' at inside ⊢
  cases inside with
  | none => exact .none
  | @some q q' pair =>
    refine .some ⟨⟨q, q', pair.1, pair.2, rfl, rfl⟩, ?_, h.left, h.right⟩
    refine TypeView.bare_child h.bare ?_
    rw [TypeRecord.tree_head, TypeRecord.tree_head]
    exact pair.1.head.face

theorem nestedError_none (h : AlikeViews v w) : v.nestedError = none ↔ w.nestedError = none := by
  obtain ⟨r, r', alike, -, here, there⟩ := h.records
  rw [TypeView.nestedError, TypeView.nestedError, List.findSome?_eq_none_iff,
    List.findSome?_eq_none_iff, here, there]
  exact alike.nestedErrors_none

theorem descend (h : AlikeViews v w) (path : List String) :
    Option.Rel AlikeViews (v.descend path) (w.descend path) := by
  induction path generalizing v w with
  | nil => exact .some h
  | cons name rest ih =>
    rw [TypeView.descend, TypeView.descend]
    have step := h.find name
    generalize v.nested.find? (fun n => n.head.metadataName = name) = here at step ⊢
    generalize w.nested.find? (fun n => n.head.metadataName = name) = there at step ⊢
    cases step with
    | none => exact .none
    | some inner => exact ih inner

theorem descentError_none (h : AlikeViews v w) (path : List String) :
    v.descentError path = none ↔ w.descentError path = none := by
  induction path generalizing v w with
  | nil => exact Iff.rfl
  | cons name rest ih =>
    have step := h.find name
    have own := h.nestedError_none
    rw [TypeView.descentError, TypeView.descentError]
    generalize v.nested.find? (fun n => n.head.metadataName = name) = here at step ⊢
    generalize w.nested.find? (fun n => n.head.metadataName = name) = there at step ⊢
    cases error : v.nestedError with
    | some e =>
      obtain ⟨e', error'⟩ := TypeRecord.error_of_none_iff own error
      rw [error']
      exact iff_of_false (Option.some_ne_none e) (Option.some_ne_none e')
    | none =>
      rw [own.mp error]
      cases step with
      | none => exact Iff.rfl
      | some inner => exact ih inner

end AlikeViews

namespace TypeRecord

variable {r r' : TypeRecord} {tier tier' : Tier}

theorem Alike.view (h : r.Alike r') (distinct : r.SiblingsDistinct) (compiled : tier ≠ .static)
    (compiled' : tier' ≠ .static) : AlikeViews (r.view tier) (r'.view tier') where
  records := ⟨r, r', h, distinct, rfl, rfl⟩
  bare := h.view_bare
  left := compiled
  right := compiled'

/-- The text for a type does not depend on the order in which a compiled module lists members and
nested types, nor on how often it lists a member, nor on the way of looking at the module. Only
which one of several unreadable names is reported may depend on the order. -/
theorem text_of_alike (h : r.Alike r') (distinct : r.SiblingsDistinct) (compiled : tier ≠ .static)
    (compiled' : tier' ≠ .static) (path : List String) (access : Access) (exposure : Exposure)
    (identity? : Option String) :
    (r.textAt tier path access exposure identity?).toOption =
      (r'.textAt tier' path access exposure identity?).toOption := by
  have views := h.view distinct compiled compiled'
  rw [textAt, textAt, view?, view?, h.nameError]
  cases r'.tree.head.nameError with
  | some e => rfl
  | none =>
    have errors := views.descentError_none path
    have found := views.descend path
    simp only [Except.bind, TypeView.findNested]
    cases error : (r.view tier).descentError path with
    | some e =>
      obtain ⟨e', error'⟩ := error_of_none_iff errors error
      rw [error']
      rfl
    | none =>
      rw [errors.mp error]
      generalize (r.view tier).descend path = here at found ⊢
      generalize (r'.view tier').descend path = there at found ⊢
      cases found with
      | none => rfl
      | @some v w inner =>
        simp only
        have walks := inner.walkError_none
        cases walk : v.tree.walkError with
        | some e =>
          obtain ⟨e', walk'⟩ := error_of_none_iff walks walk
          rw [walk']
          rfl
        | none =>
          rw [walks.mp walk]
          have rendered : Resolved.render ⟨tier, v, none⟩ access exposure identity? =
              Resolved.render ⟨tier', w, none⟩ access exposure identity? :=
            Resolved.render_congr inner.showsSame access exposure identity?
          exact congrArg (fun text => some (some text)) rendered

def boxed : TypeRecord :=
  .node
    { name := "Box\x601", space? := some "Store", parameters := ["T"],
      members := [⟨"count", .field, .priv, false⟩, ⟨"Fill", .method, .pub, false⟩,
        ⟨"Drop", .method, .priv, false⟩] }
    [.node { name := "Lid", visibility := .priv, members := [⟨"hinge", .field, .priv, false⟩] } [],
     .node { name := "Key", visibility := .internal } []]

def boxedBackwards : TypeRecord :=
  .node
    { name := "Box\x601", space? := some "Store", parameters := ["T"],
      members := [⟨"Drop", .method, .priv, false⟩, ⟨"count", .field, .priv, false⟩,
        ⟨"Drop", .method, .priv, false⟩, ⟨"Fill", .method, .pub, false⟩] }
    [.node { name := "Key", visibility := .internal } [],
     .node { name := "Lid", visibility := .priv,
             members := [⟨"hinge", .field, .priv, false⟩, ⟨"hinge", .field, .priv, false⟩] } []]

/-- The two have one text for the type inside, and do not merely fail alike. -/
theorem boxed_text :
    (((boxed.textAt .loaded ["Lid"] .pub .chain none).toOption.bind id).bind id).isSome = true ∧
      (boxed.textAt .loaded ["Lid"] .pub .chain none).toOption =
        (boxedBackwards.textAt .metadata ["Lid"] .pub .chain none).toOption := by
  have leaf : ∀ {head head' : RecordHead}, head.SaysSame head' →
      Alike (.node head []) (.node head' []) := fun same => And.intro same ⟨[], .nil, trivial⟩
  have single : ∀ head : RecordHead, SiblingsDistinct (.node head []) :=
    fun _ => And.intro List.nodup_nil trivial
  have alike : boxed.Alike boxedBackwards := by
    refine And.intro ⟨rfl, rfl, rfl, rfl, rfl, fun _ => by grind⟩ ⟨_, List.Perm.swap _ _ [], ?_⟩
    exact eachAlike_iff.mpr (.cons (leaf ⟨rfl, rfl, rfl, rfl, rfl, fun _ => by grind⟩)
      (.cons (leaf ⟨rfl, rfl, rfl, rfl, rfl, fun _ => Iff.rfl⟩) .nil))
  have distinct : boxed.SiblingsDistinct :=
    And.intro (by decide) ⟨single _, single _, trivial⟩
  refine ⟨by decide +kernel, ?_⟩
  exact text_of_alike alike distinct (by decide) (by decide) ["Lid"] .pub .chain none

end TypeRecord

end HiddenNames
