import HiddenNames.Proofs.Containers.Names
import HiddenNames.Proofs.Identifier.Fresh
import Mathlib.Data.List.Nodup

/-!
What a walk leaves behind. A container stands for each type that the walk finds to be restricted or
inside of a restricted one, and for no other type. No two containers are called the same, and every
container is led to from the roots.
-/

namespace HiddenNames

namespace TypeTree

@[simp]
theorem arranged_head (t : TypeTree) : t.arranged.head = t.head := by
  cases t with
  | node head nested => rw [arranged]; rfl

theorem mem_arrangedAll {ts : List TypeTree} {t' : TypeTree} :
    t' ∈ arrangedAll ts ↔
      ∃ t ∈ ts, isSynthesizedName t.head.name = false ∧ t' = t.arranged := by
  induction ts with
  | nil => simp [arrangedAll]
  | cons t rest ih =>
    rw [arrangedAll, List.exists_mem_cons_iff, ← ih]
    by_cases skipped : isSynthesizedName t.head.name = true
    · rw [if_pos skipped, skipped]
      exact (or_iff_right fun h => nomatch h.1).symm
    · have kept : isSynthesizedName t.head.name = false := Bool.eq_false_iff.mpr skipped
      rw [if_neg skipped, List.mem_cons, kept]
      exact or_congr (and_iff_right rfl).symm Iff.rfl

/-- The arranged types inside a type are those of its types that have a name of their own. -/
theorem mem_arranged_nested {t t' : TypeTree} :
    t' ∈ t.arranged.nested ↔
      ∃ inner ∈ t.nested, isSynthesizedName inner.head.name = false ∧ t' = inner.arranged := by
  cases t with
  | node head nested =>
    rw [arranged]
    exact List.mem_mergeSort.trans mem_arrangedAll

/-! Names on the way that cannot be read. -/

theorem mem_walkErrors {nested : List TypeTree} {walk : String × Option ArityError} :
    walk ∈ walkErrors nested ↔ ∃ t ∈ nested, isSynthesizedName t.head.name = false ∧
      walk = (t.head.metadataName, t.walkError) := by
  induction nested with
  | nil => simp [walkErrors]
  | cons t rest ih =>
    rw [walkErrors, List.exists_mem_cons_iff, ← ih]
    by_cases skipped : isSynthesizedName t.head.name = true
    · rw [if_pos skipped, skipped]
      exact (or_iff_right fun h => nomatch h.1).symm
    · have kept : isSynthesizedName t.head.name = false := Bool.eq_false_iff.mpr skipped
      rw [if_neg skipped, List.mem_cons, kept]
      exact or_congr (and_iff_right rfl).symm Iff.rfl

/-- A walk meets no error when the names of all nested types can be read, and when no walk through
one that has a name of its own meets any. -/
theorem walkError_eq_none_iff {t : TypeTree} : t.walkError = none ↔
    ∀ n ∈ t.nested, n.head.nameError = none ∧
      (isSynthesizedName n.head.name = false → n.walkError = none) := by
  cases t with
  | node head nested =>
    have walks : firstError (walkErrors nested) = none ↔
        ∀ n ∈ nested, isSynthesizedName n.head.name = false → n.walkError = none := by
      rw [firstError, List.findSome?_eq_none_iff]
      constructor
      · intro none n held named
        exact none _ (List.mem_mergeSort.mpr (mem_walkErrors.mpr ⟨n, held, named, rfl⟩))
      · intro none walk held
        obtain ⟨n, among, named, rfl⟩ := mem_walkErrors.mp (List.mem_mergeSort.mp held)
        exact none n among named
    rw [walkError, Option.orElse_eq_orElse, Option.orElse_eq_or, Option.or_eq_none_iff,
      List.findSome?_eq_none_iff, walks]
    exact forall₂_and.symm

theorem walkError_none {head : TypeHead} {nested : List TypeTree}
    (h : ∀ t ∈ nested, t.head.nameError = none ∧ t.walkError = none) :
    (TypeTree.node head nested).walkError = none :=
  walkError_eq_none_iff.mpr fun t held => ⟨(h t held).1, fun _ => (h t held).2⟩

end TypeTree

namespace ContainerTree

variable {outlook : Outlook} {root : TypeView}

/-- The types that a walk comes to, and whether they get a container. -/
inductive Walked (outlook : Outlook) (root : TypeView) : TypeView → Bool → Prop where
  | start : Walked outlook root root false
  | enter {owner : TypeView} {inside : Bool} (walked : Walked outlook root owner inside)
      {t : TypeTree} (nested : t ∈ owner.tree.nested) :
      Walked outlook root (owner.child t)
        (inside || (owner.child t).isRestricted outlook.outside outlook.exposure)

/-! Which types have a container. -/

theorem coveredAll_subset (owner : TypeView) (inside : Bool) {t : TypeTree} {ts : List TypeTree}
    (held : t ∈ ts) : covered outlook owner inside t ⊆ coveredAll outlook owner inside ts := by
  induction ts with
  | nil => cases held
  | cons first rest ih =>
    rw [coveredAll]
    rcases List.mem_cons.mp held with rfl | later
    · exact List.subset_append_left _ _
    · exact List.Subset.trans (ih later) (List.subset_append_right _ _)

theorem covered_eq (owner : TypeView) (inside : Bool) (t : TypeTree) :
    covered outlook owner inside t =
      if (inside || (owner.child t).isRestricted outlook.outside outlook.exposure) = true then
        (owner.child t).fullName :: coveredAll outlook (owner.child t) true t.nested
      else coveredAll outlook (owner.child t) false t.nested := by
  cases t with
  | node head nested =>
    rw [covered]
    cases inside with
    | true => rfl
    | false =>
      cases (owner.child (.node head nested)).isRestricted outlook.outside outlook.exposure <;> rfl

theorem Walked.covered {v : TypeView} {inside : Bool} (h : Walked outlook root v inside) :
    (inside = true → v.fullName ∈ coveredAll outlook root false root.tree.nested) ∧
      coveredAll outlook v inside v.tree.nested ⊆
        coveredAll outlook root false root.tree.nested := by
  induction h with
  | start => exact ⟨nofun, List.Subset.refl _⟩
  | @enter owner inside walked t nested ih =>
    have here := List.Subset.trans (coveredAll_subset owner inside nested) ih.2
    rw [covered_eq] at here
    generalize (inside || (owner.child t).isRestricted outlook.outside outlook.exposure) = flag
      at here ⊢
    cases flag with
    | true =>
      exact ⟨fun _ => here List.mem_cons_self, fun name held => here (List.mem_cons_of_mem _ held)⟩
    | false => exact ⟨nofun, here⟩

structure Stands (outlook : Outlook) (v : TypeView) (node : Container) : Prop where
  identity : node.identity = v.fullName
  simpleName : node.simpleName = v.head.name
  members : node.members =
    if v.isRestricted outlook.outside outlook.exposure then v.hiddenNames else []

def AllStand (outlook : Outlook) (root : TypeView) (tree : ContainerTree) : Prop :=
  ∀ node ∈ tree.nodes, ∃ v, Walked outlook root v true ∧ Stands outlook v node

theorem mem_link {tree : ContainerTree} {parent? : Option String} {key : String} {node : Container}
    (h : node ∈ (tree.link parent? key).nodes) :
    ∃ old ∈ tree.nodes, node.identity = old.identity ∧ node.simpleName = old.simpleName ∧
      node.members = old.members := by
  cases parent? with
  | none => exact ⟨node, h, rfl, rfl, rfl⟩
  | some parent =>
    obtain ⟨old, held, rfl⟩ := List.mem_map.mp h
    refine ⟨old, held, ?_⟩
    split <;> exact ⟨rfl, rfl, rfl⟩

theorem AllStand.link {tree : ContainerTree} (h : AllStand outlook root tree)
    (parent? : Option String) (key : String) : AllStand outlook root (tree.link parent? key) := by
  intro node held
  obtain ⟨old, among, identity, simpleName, members⟩ := mem_link held
  obtain ⟨v, walked, stands⟩ := h old among
  exact ⟨v, walked, identity.trans stands.identity, simpleName.trans stands.simpleName,
    members.trans stands.members⟩

theorem AllStand.add {tree : ContainerTree} (h : AllStand outlook root tree) {v : TypeView}
    (walked : Walked outlook root v true) (chain : List TypeHead) (parent? : Option String) :
    AllStand outlook root
      (tree.add v chain (v.isRestricted outlook.outside outlook.exposure) parent?).2 := by
  unfold ContainerTree.add
  split
  · exact h.link parent? _
  · apply AllStand.link
    intro node held
    rcases List.mem_append.mp held with before | last
    · exact h node before
    · rw [List.mem_singleton.mp last]
      exact ⟨v, walked, rfl, rfl, rfl⟩

mutual

theorem visit_stand {owner : TypeView} {chain : List TypeHead} {parent? : Option String}
    {tree : ContainerTree} (h : AllStand outlook root tree)
    (walked : Walked outlook root owner parent?.isSome) (t : TypeTree)
    (nested : t ∈ owner.tree.nested) :
    AllStand outlook root (visit outlook owner chain parent? tree t) := by
  cases t with
  | node head inner =>
    have entered := walked.enter nested
    rw [visit]
    split
    · rename_i skipped
      rw [Bool.and_eq_true, Bool.not_eq_true', Option.isNone_iff_eq_none] at skipped
      rw [skipped.1, skipped.2] at entered
      exact visitAll_stand h entered inner fun _ held => held
    · -- Whatever gets a container is a parent from here on, so all that is inside is covered.
      rename_i taken
      have flag : (parent?.isSome || (owner.child (.node head inner)).isRestricted outlook.outside
          outlook.exposure) = true := by
        cases parent? <;> simp_all
      rw [flag] at entered
      exact visitAll_stand (h.add entered (chain ++ [head]) parent?) entered inner
        fun _ held => held

theorem visitAll_stand {owner : TypeView} {chain : List TypeHead} {parent? : Option String}
    {tree : ContainerTree} (h : AllStand outlook root tree)
    (walked : Walked outlook root owner parent?.isSome) (ts : List TypeTree)
    (nested : ts ⊆ owner.tree.nested) :
    AllStand outlook root (visitAll outlook owner chain parent? tree ts) := by
  cases ts with
  | nil => exact h
  | cons t rest =>
    have first : AllStand outlook root (visit outlook owner chain parent? tree t) :=
      visit_stand h walked t (nested List.mem_cons_self)
    rw [visitAll]
    exact visitAll_stand first walked rest fun _ held => nested (List.mem_cons_of_mem t held)

end

theorem mem_foldl_appendNew {names : List String} {name : String} :
    ∀ {known : List String}, name ∈ names.foldl appendNew known ↔ name ∈ known ∨ name ∈ names := by
  induction names with
  | nil => simp
  | cons first rest ih =>
    intro known
    rw [List.foldl_cons, ih, List.mem_cons, ← or_assoc]
    refine or_congr_left ?_
    by_cases there : first ∈ known
    · rw [appendNew, if_pos there]
      constructor
      · exact Or.inl
      · rintro (held | rfl)
        · exact held
        · exact there
    · rw [appendNew, if_neg there, List.mem_append, List.mem_singleton]

/-! How containers are led to. -/

inductive LeadsTo (tree : ContainerTree) : String → Prop where
  | root {key : String} (held : key ∈ tree.rootKeys) : LeadsTo tree key
  | child {parent key : String} (led : LeadsTo tree parent) {node : Container}
      (among : node ∈ tree.nodes) (named : node.name = parent) (held : key ∈ node.children) :
      LeadsTo tree key

/-- No two containers have one key, and each is led to. The scope knows all keys. -/
structure IsLinked (tree : ContainerTree) : Prop where
  distinct : tree.names.Nodup
  taken : ∀ key ∈ tree.names, Identifier.plain key ∈ tree.scope.taken
  led : ∀ key ∈ tree.names, tree.LeadsTo key

variable {tree tree' : ContainerTree}

theorem LeadsTo.mono {key : String} (h : tree.LeadsTo key) (roots : tree.rootKeys ⊆ tree'.rootKeys)
    (nodes : ∀ node ∈ tree.nodes, ∃ node' ∈ tree'.nodes, node'.name = node.name ∧
      node.children ⊆ node'.children) : tree'.LeadsTo key := by
  induction h with
  | root held => exact .root (roots held)
  | child led among named held ih =>
    obtain ⟨node', among', name, children⟩ := nodes _ among
    exact .child ih among' (name.trans named) (children held)

theorem subset_appendNew (keys : List String) (key : String) : keys ⊆ appendNew keys key := by
  unfold appendNew
  split
  · exact List.Subset.refl _
  · exact List.subset_append_left _ _

theorem mem_appendNew (keys : List String) (key : String) : key ∈ appendNew keys key := by
  unfold appendNew
  split
  · assumption
  · exact List.mem_append_right _ List.mem_cons_self

theorem LeadsTo.link {key : String} (h : tree.LeadsTo key) (parent? : Option String)
    (new : String) : (tree.link parent? new).LeadsTo key := by
  cases parent? with
  | none =>
    exact h.mono (subset_appendNew _ new) fun node held => ⟨node, held, rfl, List.Subset.refl _⟩
  | some parent =>
    refine h.mono (List.Subset.refl _) fun node held => ⟨_, List.mem_map_of_mem held, ?_⟩
    split
    · exact ⟨rfl, subset_appendNew _ new⟩
    · exact ⟨rfl, List.Subset.refl _⟩

theorem link_leadsTo {parent? : Option String} (key : String)
    (known : ∀ parent, parent? = some parent → parent ∈ tree.names ∧ tree.LeadsTo parent) :
    (tree.link parent? key).LeadsTo key := by
  cases parent? with
  | none => exact .root (mem_appendNew _ key)
  | some parent =>
    obtain ⟨named, led⟩ := known parent rfl
    obtain ⟨node, held, same⟩ := List.mem_map.mp named
    have among : { node with children := appendNew node.children key } ∈
        (tree.link (some parent) key).nodes := by
      refine List.mem_map.mpr ⟨node, held, ?_⟩
      rw [if_pos same]
    exact .child (led.link (some parent) key) among same (mem_appendNew _ key)

theorem IsLinked.link (h : tree.IsLinked) (parent? : Option String) (key : String) :
    (tree.link parent? key).IsLinked := by
  constructor
  · simpa using h.distinct
  · simpa using h.taken
  · intro name held
    rw [link_names] at held
    exact (h.led name held).link parent? key

/-- A new container is called like none before, and is led to once it is linked. -/
theorem IsLinked.insert (h : tree.IsLinked) (v : TypeView) (chain : List TypeHead)
    (restricted : Bool) {parent? : Option String}
    (known : ∀ parent, parent? = some parent → parent ∈ tree.names) :
    ((tree.insert v chain restricted).link parent?
      (tree.scope.choose (canonicalName chain))).IsLinked := by
  let key := tree.scope.choose (canonicalName chain)
  have free : Identifier.plain key ∉ tree.scope.taken := tree.scope.choose_free _
  have kept : ∀ name ∈ tree.names, (tree.insert v chain restricted).LeadsTo name := by
    intro name held
    refine (h.led name held).mono (List.Subset.refl _) fun node among => ?_
    exact ⟨node, List.mem_append_left _ among, rfl, List.Subset.refl _⟩
  refine ⟨?_, fun name held => ?_, fun name held => ?_⟩
  · rw [link_names, insert_names]
    apply h.distinct.append (List.nodup_singleton _)
    intro name held same
    rw [List.mem_singleton.mp same] at held
    exact free (h.taken key held)
  · rw [link_names, insert_names] at held
    rw [link_scope, insert_scope, Identifier.Scope.take_taken]
    rcases List.mem_append.mp held with before | last
    · exact List.mem_cons_of_mem _ (h.taken name before)
    · rw [List.mem_singleton.mp last]
      exact List.mem_cons_self
  · rw [link_names, insert_names] at held
    rcases List.mem_append.mp held with before | last
    · exact (kept name before).link parent? key
    · rw [List.mem_singleton.mp last]
      apply link_leadsTo
      intro parent same
      have named := known parent same
      exact ⟨by simp [named], kept parent named⟩

/-- A type that is added has a container afterwards, and the arena stays linked. -/
theorem IsLinked.add (h : tree.IsLinked) (v : TypeView) (chain : List TypeHead) (restricted : Bool)
    {parent? : Option String} (known : ∀ parent, parent? = some parent → parent ∈ tree.names) :
    (tree.add v chain restricted parent?).2.IsLinked ∧
      (tree.add v chain restricted parent?).1 ∈ (tree.add v chain restricted parent?).2.names ∧
      tree.names ⊆ (tree.add v chain restricted parent?).2.names := by
  cases there : tree.nodeFor? v.fullName with
  | some node =>
    have held : node ∈ tree.nodes := List.mem_of_find?_eq_some there
    simp only [ContainerTree.add, there, link_names]
    exact ⟨h.link parent? node.name, List.mem_map_of_mem held, List.Subset.refl _⟩
  | none =>
    simp only [ContainerTree.add, there, link_names, insert_names]
    exact ⟨h.insert v chain restricted known, List.mem_append_right _ List.mem_cons_self,
      List.subset_append_left _ _⟩

mutual

theorem visit_linked {tree : ContainerTree} (h : tree.IsLinked) (owner : TypeView)
    (chain : List TypeHead) {parent? : Option String}
    (known : ∀ parent, parent? = some parent → parent ∈ tree.names) (t : TypeTree) :
    (visit outlook owner chain parent? tree t).IsLinked ∧
      tree.names ⊆ (visit outlook owner chain parent? tree t).names := by
  cases t with
  | node head inner =>
    rw [visit]
    split
    · have outermost : ∀ parent : String, none = some parent → parent ∈ tree.names :=
        fun parent none => nomatch none
      exact visitAll_linked h _ [] outermost inner
    · have adding := h.add (owner.child (.node head inner)) (chain ++ [head])
        ((owner.child (.node head inner)).isRestricted outlook.outside outlook.exposure) known
      dsimp only
      generalize tree.add (owner.child (.node head inner)) (chain ++ [head])
        ((owner.child (.node head inner)).isRestricted outlook.outside outlook.exposure) parent? =
          added at adding ⊢
      obtain ⟨linked, named, kept⟩ := adding
      have parent : ∀ key, some added.1 = some key → key ∈ added.2.names := by
        intro key same
        rw [← Option.some.inj same]
        exact named
      obtain ⟨all, more⟩ :=
        visitAll_linked linked (owner.child (.node head inner)) (chain ++ [head]) parent inner
      exact ⟨all, List.Subset.trans kept more⟩

theorem visitAll_linked {tree : ContainerTree} (h : tree.IsLinked) (owner : TypeView)
    (chain : List TypeHead) {parent? : Option String}
    (known : ∀ parent, parent? = some parent → parent ∈ tree.names) (ts : List TypeTree) :
    (visitAll outlook owner chain parent? tree ts).IsLinked ∧
      tree.names ⊆ (visitAll outlook owner chain parent? tree ts).names := by
  cases ts with
  | nil => exact ⟨h, List.Subset.refl _⟩
  | cons t rest =>
    obtain ⟨first, kept⟩ := visit_linked h owner chain known t
    obtain ⟨all, more⟩ := visitAll_linked first owner chain
      (fun parent same => kept (known parent same)) rest
    exact ⟨all, List.Subset.trans kept more⟩

end

/-! The containers of a target. -/

def arrangedTarget (target : TypeView) : TypeView := { target with tree := target.tree.arranged }

structure Holds (outlook : Outlook) (target : TypeView) (tree : ContainerTree) : Prop where
  linked : tree.IsLinked
  stand : AllStand outlook (arrangedTarget target) tree
  held : ∀ v, Walked outlook (arrangedTarget target) v true → v.fullName ∈ tree.identities

@[simp]
theorem arrangedTarget_head (v : TypeView) : (arrangedTarget v).head = v.head :=
  TypeTree.arranged_head v.tree

@[simp]
theorem arrangedTarget_chain (v : TypeView) : (arrangedTarget v).chain = v.chain := by
  rw [TypeView.chain, TypeView.chain, arrangedTarget_head]
  rfl

@[simp]
theorem arrangedTarget_fullName (v : TypeView) : (arrangedTarget v).fullName = v.fullName := by
  rw [TypeView.fullName, TypeView.fullName, arrangedTarget_chain]
  rfl

@[simp]
theorem arrangedTarget_restricted (v : TypeView) (outside : Bool) (exposure : Exposure) :
    (arrangedTarget v).isRestricted outside exposure = v.isRestricted outside exposure := by
  rw [TypeView.isRestricted, TypeView.isRestricted, TypeView.isExposed, TypeView.isExposed,
    arrangedTarget_head]
  rfl

@[simp]
theorem arrangedTarget_hiddenNames (v : TypeView) :
    (arrangedTarget v).hiddenNames = v.hiddenNames := by
  rw [TypeView.hiddenNames, TypeView.hiddenNames, arrangedTarget_head]
  rfl

theorem arrangedTarget_child (v : TypeView) (t : TypeTree) :
    (arrangedTarget v).child t.arranged = arrangedTarget (v.child t) := by
  rw [TypeView.child, arrangedTarget_chain]
  rfl

theorem visitAll_congr {owner owner' : TypeView} (same : ∀ t, owner.child t = owner'.child t)
    (chain : List TypeHead) (parent? : Option String) (tree : ContainerTree) (ts : List TypeTree) :
    visitAll outlook owner chain parent? tree ts =
      visitAll outlook owner' chain parent? tree ts := by
  induction ts generalizing tree with
  | nil => rfl
  | cons t rest ih =>
    have one : visit outlook owner chain parent? tree t =
        visit outlook owner' chain parent? tree t := by
      cases t with
      | node head inner => rw [visit, visit, same]
    rw [visitAll, visitAll, one, ih]

theorem ofTarget_eq (outlook : Outlook) (target : TypeView) (reserved : List String) :
    ofTarget target outlook reserved =
      visitAll outlook (arrangedTarget target) [] none (empty reserved)
        (arrangedTarget target).tree.nested := by
  apply visitAll_congr
  intro t
  rw [TypeView.child, TypeView.child, arrangedTarget_chain]
  rfl

theorem ofTarget_holds (outlook : Outlook) (target : TypeView) (reserved : List String) :
    Holds outlook target (ofTarget target outlook reserved) := by
  rw [ofTarget_eq]
  refine ⟨?_, ?_, fun v walked => ?_⟩
  · have nothing : (empty reserved).IsLinked :=
      ⟨List.nodup_nil, fun _ held => absurd held List.not_mem_nil,
        fun _ held => absurd held List.not_mem_nil⟩
    have outermost : ∀ parent : String, none = some parent → parent ∈ (empty reserved).names :=
      fun parent none => nomatch none
    exact (visitAll_linked nothing _ [] outermost _).1
  · have nothing : AllStand outlook (arrangedTarget target) (empty reserved) :=
      fun _ held => absurd held List.not_mem_nil
    have begun : Walked outlook (arrangedTarget target) (arrangedTarget target)
        (none : Option String).isSome := .start
    exact visitAll_stand nothing begun _ (List.Subset.refl _)
  · rw [visitAll_identities, mem_foldl_appendNew]
    exact Or.inr (walked.covered.1 rfl)

theorem node_of_walked {target v : TypeView} (reserved : List String)
    (walked : Walked outlook (arrangedTarget target) v true) :
    ∃ node ∈ (ofTarget target outlook reserved).nodes, node.identity = v.fullName := by
  have held := (ofTarget_holds outlook target reserved).held v walked
  obtain ⟨node, held, same⟩ := List.mem_map.mp held
  exact ⟨node, held, same⟩

theorem ofTarget_nodes_nil (outlook : Outlook) (target : TypeView) (reserved : List String) :
    (ofTarget target outlook reserved).nodes = [] ↔
      ¬∃ v, Walked outlook (arrangedTarget target) v true := by
  constructor
  · rintro none ⟨v, walked⟩
    obtain ⟨node, held, _⟩ := node_of_walked reserved walked
    rw [none] at held
    cases held
  · intro none
    apply List.eq_nil_iff_forall_not_mem.mpr
    intro node held
    obtain ⟨v, walked, _⟩ := (ofTarget_holds outlook target reserved).stand node held
    exact none ⟨v, walked⟩

end ContainerTree

end HiddenNames
