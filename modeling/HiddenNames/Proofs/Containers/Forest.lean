import HiddenNames.Proofs.Types.Descendants
import Mathlib.Data.List.Pairwise
import Mathlib.Data.List.TakeWhile

/-!
The containers of a target as a forest. When full names tell the types inside a target apart, the
walk makes one container for each type that is restricted or below a restricted one. It hangs where
its type stands: at the root when nothing above the type is restricted, else below the container of
the enclosing type.
-/

namespace HiddenNames

namespace Descendant

variable {outlook : Outlook} {d : Descendant}

def IsInside (outlook : Outlook) (d : Descendant) : Prop :=
  ∃ v ∈ d.above, v.isRestricted outlook.outside outlook.exposure = true

instance (outlook : Outlook) (d : Descendant) : Decidable (d.IsInside outlook) :=
  inferInstanceAs (Decidable (∃ v ∈ d.above,
    v.isRestricted outlook.outside outlook.exposure = true))

def IsCovered (outlook : Outlook) (d : Descendant) : Prop :=
  d.view.isRestricted outlook.outside outlook.exposure = true ∨ d.IsInside outlook

instance (outlook : Outlook) (d : Descendant) : Decidable (d.IsCovered outlook) :=
  inferInstanceAs (Decidable (_ ∨ _))

/-- A type gets a container just when the types inside of it are below a restricted one. -/
theorem covered_iff {above : List TypeView} {v : TypeView} : IsCovered outlook ⟨above, v⟩ ↔
    ∃ u ∈ above ++ [v], u.isRestricted outlook.outside outlook.exposure = true := by
  constructor
  · rintro (own | ⟨u, held, hidden⟩)
    · exact ⟨v, List.mem_append_right _ List.mem_cons_self, own⟩
    · exact ⟨u, List.mem_append_left _ held, hidden⟩
  · rintro ⟨u, held, hidden⟩
    rcases List.mem_append.mp held with early | last
    · exact Or.inr ⟨u, early, hidden⟩
    · rw [List.mem_singleton.mp last] at hidden
      exact Or.inl hidden

/-- The types strictly between from the first restricted one on. -/
def inside (outlook : Outlook) (above : List TypeView) : List TypeView :=
  above.dropWhile fun v => !v.isRestricted outlook.outside outlook.exposure

theorem inside_nil_iff {above : List TypeView} :
    inside outlook above = [] ↔
      ¬∃ v ∈ above, v.isRestricted outlook.outside outlook.exposure = true := by
  rw [inside, List.dropWhile_eq_nil_iff]
  simp

/-- Below a restricted type, and at one, there is one more type to pass through. -/
theorem inside_append {above : List TypeView} {v : TypeView}
    (covered : IsCovered outlook ⟨above, v⟩) :
    inside outlook (above ++ [v]) = inside outlook above ++ [v] := by
  by_cases hidden : IsInside outlook ⟨above, v⟩
  · have some : inside outlook above ≠ [] := fun nil => inside_nil_iff.mp nil hidden
    rw [inside, List.dropWhile_append, ← inside]
    cases shape : inside outlook above with
    | nil => exact absurd shape some
    | cons first rest => rfl
  · have none : inside outlook above = [] := inside_nil_iff.mpr hidden
    have own : v.isRestricted outlook.outside outlook.exposure = true :=
      covered.resolve_right hidden
    rw [inside, List.dropWhile_append, ← inside, none]
    simp [own]

end Descendant

namespace ContainerTree

variable {outlook : Outlook} {tree tree' : ContainerTree} {ds : List Descendant}

structure Hangs (outlook : Outlook) (tree : ContainerTree) (d : Descendant) (node : Container) :
    Prop where
  identity : node.identity = d.fullName
  restricted : node.restricted = d.view.isRestricted outlook.outside outlook.exposure
  members : node.members =
    if d.view.isRestricted outlook.outside outlook.exposure then d.view.hiddenNames else []
  depth : node.depth = (Descendant.inside outlook d.above).length
  root : ¬d.IsInside outlook → node.name ∈ tree.rootKeys
  child : d.IsInside outlook → ∃ owner parent, d.above.getLast? = some owner ∧
    parent ∈ tree.nodes ∧ parent.identity = owner.fullName ∧ node.name ∈ parent.children

structure Holding (outlook : Outlook) (ds : List Descendant) (tree : ContainerTree) : Prop where
  linked : tree.IsLinked
  identities : tree.identities = ds.map Descendant.fullName
  links : (tree.rootKeys ++ tree.nodes.flatMap Container.children).Perm tree.names
  hangs : ∀ d ∈ ds, ∃ node ∈ tree.nodes, Hangs outlook tree d node

structure Extends (tree tree' : ContainerTree) : Prop where
  roots : tree.rootKeys ⊆ tree'.rootKeys
  nodes : ∀ node ∈ tree.nodes, ∃ more, { node with children := more } ∈ tree'.nodes ∧
    node.children ⊆ more

theorem Extends.refl (tree : ContainerTree) : tree.Extends tree :=
  ⟨List.Subset.refl _, fun node held => ⟨node.children, held, List.Subset.refl _⟩⟩

theorem Extends.trans {tree'' : ContainerTree} (h : tree.Extends tree')
    (h' : tree'.Extends tree'') : tree.Extends tree'' := by
  constructor
  · exact List.Subset.trans h.roots h'.roots
  · intro node held
    obtain ⟨more, held', kept⟩ := h.nodes node held
    obtain ⟨most, held'', kept'⟩ := h'.nodes _ held'
    exact ⟨most, held'', List.Subset.trans kept kept'⟩

theorem Hangs.extend {d : Descendant} {node : Container} {more : List String}
    (h : Hangs outlook tree d node) (extends_ : tree.Extends tree') :
    Hangs outlook tree' d { node with children := more } := by
  refine ⟨h.identity, h.restricted, h.members, h.depth, fun outer => ?_, fun inner => ?_⟩
  · exact extends_.roots (h.root outer)
  · obtain ⟨owner, parent, last, held, same, linked⟩ := h.child inner
    obtain ⟨children, held', kept⟩ := extends_.nodes parent held
    exact ⟨owner, _, last, held', same, kept linked⟩

theorem link_extends (tree : ContainerTree) (parent? : Option String) (key : String) :
    tree.Extends (tree.link parent? key) := by
  cases parent? with
  | none =>
    constructor
    · exact subset_appendNew _ key
    · exact fun node held => ⟨node.children, held, List.Subset.refl _⟩
  | some parent =>
    constructor
    · exact List.Subset.refl _
    · intro node held
      have moved := List.mem_map_of_mem (f := fun node : Container =>
        if node.name = parent then { node with children := appendNew node.children key }
        else node) held
      by_cases here : node.name = parent
      · rw [if_pos here] at moved
        exact ⟨_, moved, subset_appendNew _ key⟩
      · rw [if_neg here] at moved
        exact ⟨_, moved, List.Subset.refl _⟩

theorem insert_extends (tree : ContainerTree) (v : TypeView) (chain : List TypeHead)
    (restricted : Bool) : tree.Extends (tree.insert v chain restricted) := by
  constructor
  · exact List.Subset.refl _
  · exact fun node held => ⟨node.children, List.mem_append_left _ held, List.Subset.refl _⟩

/-! Each link is made once. -/

theorem appendNew_fresh {keys : List String} {key : String} (fresh : key ∉ keys) :
    appendNew keys key = keys ++ [key] := if_neg fresh

/-- Where no container has a key, changing the one of that key changes nothing. -/
theorem map_of_absent {nodes : List Container} {key : String}
    (absent : key ∉ nodes.map Container.name) (change : Container → Container) :
    (nodes.map fun node => if node.name = key then change node else node) = nodes := by
  conv_rhs => rw [← List.map_id nodes]
  apply List.map_congr_left
  intro node held
  rw [if_neg]
  · rfl
  · exact fun same => absent (same ▸ List.mem_map_of_mem held)

theorem names_around {before behind : List Container} {owner : Container}
    (distinct : tree.names.Nodup) (place : tree.nodes = before ++ owner :: behind) :
    owner.name ∉ before.map Container.name ∧ owner.name ∉ behind.map Container.name := by
  rw [names, place, List.map_append, List.map_cons, List.nodup_middle, List.nodup_cons,
    List.mem_append, not_or] at distinct
  exact distinct.1

theorem link_below {before behind : List Container} {owner : Container}
    (distinct : tree.names.Nodup) (place : tree.nodes = before ++ owner :: behind) (key : String) :
    tree.link (some owner.name) key =
      { tree with
        nodes := before ++ { owner with children := appendNew owner.children key } :: behind } := by
  obtain ⟨early, late⟩ := names_around distinct place
  rw [link, place, List.map_append, List.map_cons, if_pos rfl, map_of_absent early,
    map_of_absent late]

theorem link_links {parent? : Option String} {key : String} (distinct : tree.names.Nodup)
    (known : ∀ parent, parent? = some parent → parent ∈ tree.names)
    (fresh : key ∉ tree.rootKeys ++ tree.nodes.flatMap Container.children) :
    ((tree.link parent? key).rootKeys ++ (tree.link parent? key).nodes.flatMap
        Container.children).Perm
      ((tree.rootKeys ++ tree.nodes.flatMap Container.children) ++ [key]) := by
  rw [List.mem_append, not_or] at fresh
  cases parent? with
  | none =>
    simp only [link]
    rw [appendNew_fresh fresh.1, List.append_assoc, List.append_assoc]
    exact List.perm_append_comm.append_left _
  | some parent =>
    obtain ⟨owner, held, rfl⟩ := List.mem_map.mp (known parent rfl)
    obtain ⟨before, behind, place⟩ := List.append_of_mem held
    have new : key ∉ owner.children :=
      fun linked => fresh.2 (List.mem_flatMap.mpr ⟨owner, held, linked⟩)
    rw [link_below distinct place, appendNew_fresh new, place]
    simp only [List.flatMap_append, List.flatMap_cons, List.append_assoc]
    exact ((List.perm_append_comm.append_left _).append_left _).append_left _

/-! What a walk does. -/

structure Under (outlook : Outlook) (tree : ContainerTree) (above : List TypeView)
    (parent? : Option String) : Prop where
  inside :
    parent?.isSome = true ↔ ∃ v ∈ above, v.isRestricted outlook.outside outlook.exposure = true
  owner : ∀ parent, parent? = some parent → ∃ owner node, above.getLast? = some owner ∧
    node ∈ tree.nodes ∧ node.identity = owner.fullName ∧ node.name = parent

theorem Under.extend {above : List TypeView} {parent? : Option String}
    (h : Under outlook tree above parent?) (extends_ : tree.Extends tree') :
    Under outlook tree' above parent? := by
  refine ⟨h.inside, fun parent same => ?_⟩
  obtain ⟨owner, node, last, held, identity, name⟩ := h.owner parent same
  obtain ⟨more, held', _⟩ := extends_.nodes node held
  exact ⟨owner, _, last, held', identity, name⟩

theorem Under.outside {above : List TypeView}
    (exposed : ¬∃ v ∈ above, v.isRestricted outlook.outside outlook.exposure = true) :
    Under outlook tree above none := by
  constructor
  · rw [Option.isSome_none]
    exact iff_of_false Bool.false_ne_true exposed
  · intro parent same
    cases same

theorem Under.known {above : List TypeView} {parent? : Option String}
    (h : Under outlook tree above parent?) :
    ∀ parent, parent? = some parent → parent ∈ tree.names := by
  intro parent same
  obtain ⟨_, node, _, held, _, rfl⟩ := h.owner parent same
  exact List.mem_map_of_mem held

theorem Under.skips_iff {above : List TypeView} {parent? : Option String}
    (h : Under outlook tree above parent?) (v : TypeView) :
    (parent?.isNone && !v.isRestricted outlook.outside outlook.exposure) = true ↔
      ¬Descendant.IsCovered outlook ⟨above, v⟩ := by
  rw [Bool.and_eq_true, Bool.not_eq_true', Option.isNone_iff_eq_none,
    ← Option.not_isSome_iff_eq_none, ← Bool.not_eq_true, h.inside, and_comm]
  exact not_or.symm

theorem Under.below {above : List TypeView} {v : TypeView} {node : Container}
    (covered : Descendant.IsCovered outlook ⟨above, v⟩) (held : node ∈ tree.nodes)
    (identity : node.identity = v.fullName) :
    Under outlook tree (above ++ [v]) (some node.name) := by
  constructor
  · exact iff_of_true rfl (Descendant.covered_iff.mp covered)
  · intro parent same
    exact ⟨v, node, List.getLast?_concat, held, identity, Option.some.inj same⟩

def made (tree : ContainerTree) (v : TypeView) (chain : List TypeHead) (restricted : Bool) :
    Container where
  name := tree.scope.choose (canonicalName chain)
  identity := v.fullName
  simpleName := v.head.name
  restricted
  depth := (chain.length : Int) - 1
  members := if restricted then v.hiddenNames else []

section made

variable {v : TypeView} {chain : List TypeHead} {restricted : Bool} {parent? : Option String}

@[simp]
theorem insert_nodes : (tree.insert v chain restricted).nodes =
    tree.nodes ++ [tree.made v chain restricted] := rfl

theorem add_of_absent (absent : tree.nodeFor? v.fullName = none) :
    tree.add v chain restricted parent? =
      ((tree.made v chain restricted).name,
        (tree.insert v chain restricted).link parent? (tree.made v chain restricted).name) := by
  rw [ContainerTree.add, absent]
  rfl

theorem insert_links : (tree.insert v chain restricted).rootKeys ++
      (tree.insert v chain restricted).nodes.flatMap Container.children =
    tree.rootKeys ++ tree.nodes.flatMap Container.children := by
  rw [insert_nodes, List.flatMap_append, List.flatMap_singleton]
  exact congrArg (tree.rootKeys ++ ·) (List.append_nil _)

theorem links_added
    (links : (tree.rootKeys ++ tree.nodes.flatMap Container.children).Perm tree.names)
    (distinct : (tree.insert v chain restricted).names.Nodup)
    (known : ∀ parent, parent? = some parent → parent ∈ tree.names) :
    let tree' := (tree.insert v chain restricted).link parent? (tree.made v chain restricted).name
    (tree'.rootKeys ++ tree'.nodes.flatMap Container.children).Perm tree'.names := by
  have apart := distinct
  rw [insert_names, List.nodup_append] at apart
  have still :
      ∀ parent, parent? = some parent → parent ∈ (tree.insert v chain restricted).names := by
    intro parent asked
    simp [known parent asked]
  have unlinked : (tree.made v chain restricted).name ∉ (tree.insert v chain restricted).rootKeys ++
      (tree.insert v chain restricted).nodes.flatMap Container.children := by
    rw [insert_links]
    intro held
    exact apart.2.2 _ (links.mem_iff.mp held) _ List.mem_cons_self rfl
  have once := link_links distinct still unlinked
  rw [insert_links] at once
  intro tree'
  rw [link_names, insert_names]
  exact once.trans (links.append_right _)

end made

theorem Under.hangs {d : Descendant} {parent? : Option String}
    (under : Under outlook tree d.above parent?) {chain : List TypeHead}
    (long : chain.length = (Descendant.inside outlook d.above).length + 1) (more : List String) :
    let node := tree.made d.view chain (d.view.isRestricted outlook.outside outlook.exposure)
    Hangs outlook ((tree.insert d.view chain node.restricted).link parent? node.name) d
      { node with children := more } := by
  intro node
  refine ⟨rfl, rfl, rfl, ?_, fun outer => ?_, fun inner => ?_⟩
  · change (chain.length : Int) - 1 = _
    omega
  · cases parent? with
    | none => exact mem_appendNew _ node.name
    | some parent => exact absurd (under.inside.mp rfl) outer
  · obtain ⟨parent, rfl⟩ := Option.isSome_iff_exists.mp (under.inside.mpr inner)
    obtain ⟨owner, above, last, held, identity, name⟩ := under.owner parent rfl
    refine ⟨owner, { above with children := appendNew above.children node.name }, last, ?_,
      identity, mem_appendNew _ node.name⟩
    refine List.mem_map.mpr ⟨above, List.mem_append_left _ held, ?_⟩
    rw [if_pos name]

theorem Holding.add (h : Holding outlook ds tree) {d : Descendant} {parent? : Option String}
    (under : Under outlook tree d.above parent?) (fresh : d.fullName ∉ ds.map Descendant.fullName)
    {chain : List TypeHead} (long : chain.length = (Descendant.inside outlook d.above).length + 1) :
    let added :=
      tree.add d.view chain (d.view.isRestricted outlook.outside outlook.exposure) parent?
    Holding outlook (ds ++ [d]) added.2 ∧ tree.Extends added.2 ∧
      ∃ node ∈ added.2.nodes, node.identity = d.fullName ∧ node.name = added.1 := by
  have absent : tree.nodeFor? d.view.fullName = none := by
    rw [nodeFor_none_iff, h.identities]
    exact fresh
  let node := tree.made d.view chain (d.view.isRestricted outlook.outside outlook.exposure)
  let inserted := tree.insert d.view chain node.restricted
  have linked : (inserted.link parent? node.name).IsLinked := by
    have added := (h.linked.add d.view chain node.restricted under.known).1
    rw [add_of_absent absent] at added
    exact added
  have distinct : inserted.names.Nodup := by
    rw [← link_names inserted parent? node.name]
    exact linked.distinct
  have identities : (inserted.link parent? node.name).identities =
      (ds ++ [d]).map Descendant.fullName := by
    simp [inserted, h.identities, Descendant.fullName]
  have grows : tree.Extends (inserted.link parent? node.name) :=
    (insert_extends tree _ _ _).trans (link_extends inserted parent? node.name)
  obtain ⟨more, hanging, _⟩ := (link_extends inserted parent? node.name).nodes node
    (List.mem_append_right _ List.mem_cons_self)
  rw [add_of_absent absent]
  refine ⟨⟨linked, identities, links_added h.links distinct under.known, ?_⟩, grows,
    ⟨_, hanging, rfl, rfl⟩⟩
  intro other held
  rcases List.mem_append.mp held with early | last
  · obtain ⟨old, among, hung⟩ := h.hangs other early
    obtain ⟨children, kept, _⟩ := grows.nodes old among
    exact ⟨_, kept, hung.extend grows⟩
  · obtain rfl := List.mem_singleton.mp last
    exact ⟨_, hanging, under.hangs long more⟩

def coveredOf (outlook : Outlook) (ds : List Descendant) : List Descendant :=
  ds.filter fun d => d.IsCovered outlook

theorem coveredOf_append (outlook : Outlook) (ds ds' : List Descendant) :
    coveredOf outlook (ds ++ ds') = coveredOf outlook ds ++ coveredOf outlook ds' :=
  List.filter_append ds ds'

theorem coveredOf_descendants (owner : TypeView) (above : List TypeView) (t : TypeTree) :
    coveredOf outlook (t.descendants owner above) =
      (if Descendant.IsCovered outlook ⟨above, owner.child t⟩ then
        [⟨above, owner.child t⟩] else []) ++
        coveredOf outlook
          (TypeTree.descendantsAll (owner.child t) (above ++ [owner.child t]) t.nested) := by
  rw [TypeTree.descendants_eq]
  by_cases covered : Descendant.IsCovered outlook ⟨above, owner.child t⟩
  · rw [if_pos covered, coveredOf, List.filter_cons_of_pos (by simpa using covered)]
    rfl
  · rw [if_neg covered, coveredOf, List.filter_cons_of_neg (by simpa using covered)]
    rfl

mutual

/-- A walk adds the covered types of a tree, each where it stands. -/
theorem visit_holding {ds : List Descendant} {tree : ContainerTree} (h : Holding outlook ds tree)
    {owner : TypeView} {above : List TypeView} {chain : List TypeHead} {parent? : Option String}
    (under : Under outlook tree above parent?)
    (long : chain.length = (Descendant.inside outlook above).length) (t : TypeTree)
    (distinct : ((ds ++ coveredOf outlook (t.descendants owner above)).map
      Descendant.fullName).Nodup) :
    Holding outlook (ds ++ coveredOf outlook (t.descendants owner above))
        (visit outlook owner chain parent? tree t) ∧
      tree.Extends (visit outlook owner chain parent? tree t) := by
  rw [coveredOf_descendants] at distinct ⊢
  cases t with
  | node head nested =>
    let v := owner.child (.node head nested)
    rw [visit]
    by_cases covered : Descendant.IsCovered outlook ⟨above, v⟩
    · rw [if_neg fun skipped => (under.skips_iff v).mp skipped covered]
      rw [if_pos covered, ← List.append_assoc] at distinct ⊢
      have fresh : v.fullName ∉ ds.map Descendant.fullName := by
        rw [List.map_append, List.map_append] at distinct
        intro held
        exact (List.nodup_append.mp distinct.of_append_left).2.2 _ held _ List.mem_cons_self rfl
      have path : (chain ++ [head]).length = (Descendant.inside outlook above).length + 1 := by
        rw [List.length_append, long]
        rfl
      obtain ⟨holding, grows, node, held, identity, name⟩ :=
        h.add (d := ⟨above, v⟩) under fresh path
      have below := Under.below covered held identity
      rw [name] at below
      have deeper :
          (chain ++ [head]).length = (Descendant.inside outlook (above ++ [v])).length := by
        rw [path, Descendant.inside_append covered, List.length_append]
        rfl
      obtain ⟨all, more⟩ := visitAll_holding holding below deeper nested distinct
      exact ⟨all, grows.trans more⟩
    · -- Neither this type nor one above it is restricted: the walk goes on as it came.
      rw [if_pos ((under.skips_iff v).mpr covered)]
      rw [if_neg covered, List.nil_append] at distinct ⊢
      have exposed := mt Descendant.covered_iff.mpr covered
      apply visitAll_holding h (Under.outside exposed) _ nested distinct
      rw [Descendant.inside_nil_iff.mpr exposed]
      rfl

theorem visitAll_holding {ds : List Descendant} {tree : ContainerTree} (h : Holding outlook ds tree)
    {owner : TypeView} {above : List TypeView} {chain : List TypeHead} {parent? : Option String}
    (under : Under outlook tree above parent?)
    (long : chain.length = (Descendant.inside outlook above).length) (ts : List TypeTree)
    (distinct : ((ds ++ coveredOf outlook (TypeTree.descendantsAll owner above ts)).map
      Descendant.fullName).Nodup) :
    Holding outlook (ds ++ coveredOf outlook (TypeTree.descendantsAll owner above ts))
        (visitAll outlook owner chain parent? tree ts) ∧
      tree.Extends (visitAll outlook owner chain parent? tree ts) := by
  cases ts with
  | nil =>
    rw [TypeTree.descendantsAll, visitAll]
    exact ⟨by simpa [coveredOf] using h, .refl tree⟩
  | cons t rest =>
    rw [TypeTree.descendantsAll, coveredOf_append, ← List.append_assoc] at distinct ⊢
    rw [visitAll]
    have early : ((ds ++ coveredOf outlook (t.descendants owner above)).map
        Descendant.fullName).Nodup := by
      rw [List.map_append] at distinct
      exact distinct.of_append_left
    obtain ⟨first, grows⟩ := visit_holding h under long t early
    obtain ⟨all, more⟩ := visitAll_holding first (under.extend grows) long rest distinct
    exact ⟨all, grows.trans more⟩

end

theorem empty_holding (outlook : Outlook) (reserved : List String) :
    Holding outlook [] (empty reserved) := by
  constructor
  · exact ⟨List.nodup_nil, fun _ held => absurd held List.not_mem_nil,
      fun _ held => absurd held List.not_mem_nil⟩
  · rfl
  · exact List.Perm.refl _
  · exact fun _ held => absurd held List.not_mem_nil

def TellsApart (target : TypeView) : Prop :=
  (target.namedDescendants.map Descendant.fullName).Nodup

instance (target : TypeView) : Decidable (TellsApart target) :=
  inferInstanceAs (Decidable (List.Nodup _))

variable {target : TypeView}

theorem arranged_names (target : TypeView) :
    ((arrangedTarget target).descendants.map Descendant.fullName).Perm
      (target.namedDescendants.map Descendant.fullName) := by
  have kept : Descendant.fullName ∘ Descendant.arranged = Descendant.fullName :=
    funext Descendant.arranged_fullName
  have same := target.descendants_of_arranged.map Descendant.fullName
  rw [List.map_map, kept] at same
  exact same

theorem ofTarget_holding (apart : TellsApart target) (outlook : Outlook) (reserved : List String) :
    Holding outlook (coveredOf outlook (arrangedTarget target).descendants)
      (ofTarget target outlook reserved) := by
  have distinct : ((coveredOf outlook (arrangedTarget target).descendants).map
      Descendant.fullName).Nodup :=
    ((arranged_names target).nodup_iff.mpr apart).sublist (List.filter_sublist.map _)
  have outermost : Under outlook (empty reserved) [] none := by
    apply Under.outside
    rintro ⟨v, held, _⟩
    cases held
  rw [ofTarget_eq]
  exact (visitAll_holding (empty_holding outlook reserved) outermost rfl _ distinct).1

theorem arranged_isInside (d : Descendant) :
    d.arranged.IsInside outlook ↔ d.IsInside outlook := by
  simp [Descendant.IsInside, Descendant.arranged]

theorem arranged_covered (d : Descendant) :
    d.arranged.IsCovered outlook ↔ d.IsCovered outlook := by
  rw [Descendant.IsCovered, Descendant.IsCovered, arranged_isInside, Descendant.arranged,
    arrangedTarget_restricted]

theorem arranged_inside (above : List TypeView) :
    Descendant.inside outlook (above.map arrangedTarget) =
      (Descendant.inside outlook above).map arrangedTarget := by
  induction above with
  | nil => rfl
  | cons v rest ih =>
    rw [List.map_cons, Descendant.inside, Descendant.inside, List.dropWhile_cons,
      List.dropWhile_cons, arrangedTarget_restricted]
    split
    · exact ih
    · rfl

theorem coveredOf_arranged (outlook : Outlook) (target : TypeView) :
    ((coveredOf outlook (arrangedTarget target).descendants).map Descendant.fullName).Perm
      ((coveredOf outlook target.namedDescendants).map Descendant.fullName) := by
  have covered := (target.descendants_of_arranged.filter
    fun d => d.IsCovered outlook).map Descendant.fullName
  refine covered.trans ?_
  rw [List.filter_map, List.map_map]
  simp only [Function.comp_def, arranged_covered, Descendant.arranged_fullName]
  exact List.Perm.refl _

/-- Keeping what follows a first element is dropping what stands before it. -/
theorem filter_eq_dropWhile {α : Type} {p q : α → Bool} {xs : List α}
    (h : ∀ before x after, xs = before ++ x :: after →
      (q x = true ↔ p x = true ∨ ∃ y ∈ before, p y = true)) :
    xs.filter q = xs.dropWhile fun x => !p x := by
  induction xs with
  | nil => rfl
  | cons first rest ih =>
    by_cases starts : p first = true
    · rw [List.dropWhile_cons_of_neg (by simpa using starts)]
      apply List.filter_eq_self.mpr
      intro x held
      obtain ⟨before, after, split⟩ := List.append_of_mem held
      rw [h before x after split]
      cases before with
      | nil =>
        obtain ⟨rfl, _⟩ := List.cons.inj split
        exact Or.inl starts
      | cons y others =>
        obtain ⟨rfl, _⟩ := List.cons.inj split
        exact Or.inr ⟨first, List.mem_cons_self, starts⟩
    · have passed : ¬q first = true := by
        rw [h [] first rest rfl]
        rintro (own | ⟨_, none, _⟩)
        · exact starts own
        · cases none
      rw [List.dropWhile_cons_of_pos (by simpa using starts), List.filter_cons_of_neg passed]
      apply ih
      intro before x after split
      rw [h (first :: before) x after (by rw [split]; rfl), List.exists_mem_cons_iff]
      simp [starts]

structure Placed (outlook : Outlook) (tree : ContainerTree) (d : Descendant) (node : Container) :
    Prop where
  restricted : node.restricted = d.view.isRestricted outlook.outside outlook.exposure
  members : node.members =
    if d.view.isRestricted outlook.outside outlook.exposure then d.view.hiddenNames else []
  depth : node.depth = (d.above.filter fun v => v.fullName ∈ tree.identities).length
  root : node.name ∈ tree.rootKeys ↔ ¬d.IsInside outlook
  child : ∀ parent ∈ tree.nodes, node.name ∈ parent.children ↔
    d.IsInside outlook ∧ ∃ owner, d.above.getLast? = some owner ∧ parent.identity = owner.fullName
  linked : d.IsInside outlook → ∃ parent ∈ tree.nodes, node.name ∈ parent.children

/-- An arena that is the covered part of the nesting inside a target: one container for each covered
type, each linked once, as a root or as a child. -/
structure IsForest (outlook : Outlook) (target : TypeView) (tree : ContainerTree) : Prop where
  covered :
    tree.identities.Perm ((coveredOf outlook target.namedDescendants).map Descendant.fullName)
  identities : tree.identities.Nodup
  names : tree.names.Nodup
  links : (tree.rootKeys ++ tree.nodes.flatMap Container.children).Perm tree.names
  placed : ∀ d ∈ target.namedDescendants, ∀ node ∈ tree.nodes, node.identity = d.fullName →
    Placed outlook tree d node

theorem eq_of_identity {node other : Container} (distinct : tree.identities.Nodup)
    (held : node ∈ tree.nodes) (held' : other ∈ tree.nodes)
    (same : node.identity = other.identity) :
    node = other := List.inj_on_of_nodup_map distinct held held' same

theorem root_not_child (distinct : (tree.rootKeys ++ tree.nodes.flatMap Container.children).Nodup)
    {key : String} (root : key ∈ tree.rootKeys) {parent : Container} (held : parent ∈ tree.nodes) :
    key ∉ parent.children := by
  intro child
  exact (List.nodup_append.mp distinct).2.2 key root key
    (List.mem_flatMap.mpr ⟨parent, held, child⟩) rfl

theorem eq_of_mem_flatMap {α β : Type} {f : α → List β} {xs : List α}
    (distinct : (xs.flatMap f).Nodup) {x y : α} (held : x ∈ xs) (held' : y ∈ xs) {b : β}
    (given : b ∈ f x) (given' : b ∈ f y) : x = y := by
  by_contra apart
  have symmetric : Std.Symm (Function.onFun List.Disjoint f) :=
    ⟨fun _ _ h _ first second => h second first⟩
  exact (List.nodup_flatMap.mp distinct).2.forall held held' apart given given'

theorem eq_of_child (distinct : (tree.rootKeys ++ tree.nodes.flatMap Container.children).Nodup)
    {key : String} {parent other : Container} (held : parent ∈ tree.nodes)
    (held' : other ∈ tree.nodes) (child : key ∈ parent.children) (child' : key ∈ other.children) :
    parent = other :=
  eq_of_mem_flatMap (List.nodup_append.mp distinct).2.1 held held' child child'

theorem Hangs.of_arranged {d : Descendant} {node : Container}
    (h : Hangs outlook tree d.arranged node) : Hangs outlook tree d node := by
  constructor
  · rw [h.identity, Descendant.arranged_fullName]
  · simp [h.restricted, Descendant.arranged]
  · simp [h.members, Descendant.arranged]
  · rw [h.depth, Descendant.arranged, arranged_inside, List.length_map]
  · exact fun outer => h.root (mt (arranged_isInside d).mp outer)
  · intro inner
    obtain ⟨owner, parent, last, held, identity, linked⟩ :=
      h.child ((arranged_isInside d).mpr inner)
    rw [Descendant.arranged, List.getLast?_map] at last
    obtain ⟨own, found, rfl⟩ := Option.map_eq_some_iff.mp last
    rw [arrangedTarget_fullName] at identity
    exact ⟨own, parent, found, held, identity, linked⟩

theorem hangs_of_identity (apart : TellsApart target)
    (h : Holding outlook (coveredOf outlook (arrangedTarget target).descendants) tree)
    (distinct : tree.identities.Nodup)
    {d : Descendant} (among : d ∈ target.namedDescendants) {node : Container}
    (held : node ∈ tree.nodes) (same : node.identity = d.fullName) : Hangs outlook tree d node := by
  have arranged : d.arranged ∈ (arrangedTarget target).descendants :=
    target.descendants_of_arranged.mem_iff.mpr (List.mem_map_of_mem among)
  have all : ((arrangedTarget target).descendants.map Descendant.fullName).Nodup :=
    (arranged_names target).nodup_iff.mpr apart
  have identity : node.identity ∈ tree.identities := List.mem_map_of_mem held
  rw [h.identities] at identity
  obtain ⟨e, covered, named⟩ := List.mem_map.mp identity
  obtain rfl : e = d.arranged := by
    apply List.inj_on_of_nodup_map all (List.mem_filter.mp covered).1 arranged
    rw [named, same, Descendant.arranged_fullName]
  obtain ⟨other, held', hung⟩ := h.hangs _ covered
  obtain rfl := eq_of_identity distinct held held' (named.symm.trans hung.identity.symm)
  exact hung.of_arranged

/-- The types above a descendant that have containers are those from the first restricted one on. -/
theorem above_with_containers (apart : TellsApart target) (covered : tree.identities.Perm
      ((coveredOf outlook target.namedDescendants).map Descendant.fullName))
    {d : Descendant} (among : d ∈ target.namedDescendants) :
    (d.above.filter fun v => v.fullName ∈ tree.identities) = Descendant.inside outlook d.above := by
  apply filter_eq_dropWhile
  intro before v after split
  have between := TypeView.namedDescendants_between among split
  rw [decide_eq_true_iff, covered.mem_iff]
  constructor
  · intro known
    obtain ⟨e, held, named⟩ := List.mem_map.mp known
    obtain ⟨listed, yes⟩ := List.mem_filter.mp held
    obtain rfl := List.inj_on_of_nodup_map apart listed between named
    exact of_decide_eq_true yes
  · intro yes
    refine List.mem_map.mpr ⟨⟨before, v⟩, List.mem_filter.mpr ⟨between, ?_⟩, rfl⟩
    exact decide_eq_true yes

theorem child_iff (identities : tree.identities.Nodup)
    (distinct : (tree.rootKeys ++ tree.nodes.flatMap Container.children).Nodup) {d : Descendant}
    {node parent : Container} (hangs : Hangs outlook tree d node) (held : parent ∈ tree.nodes) :
    node.name ∈ parent.children ↔
      d.IsInside outlook ∧ ∃ owner, d.above.getLast? = some owner ∧
        parent.identity = owner.fullName := by
  constructor
  · intro linked
    by_cases inner : d.IsInside outlook
    · obtain ⟨owner, other, last, held', identity, linked'⟩ := hangs.child inner
      obtain rfl := eq_of_child distinct held held' linked linked'
      exact ⟨inner, owner, last, identity⟩
    · exact absurd linked (root_not_child distinct (hangs.root inner) held)
  · rintro ⟨inner, owner, last, identity⟩
    obtain ⟨owner', other, last', held', identity', linked⟩ := hangs.child inner
    obtain rfl := Option.some.inj (last.symm.trans last')
    rw [eq_of_identity identities held held' (identity.trans identity'.symm)]
    exact linked

theorem containers_form_forest (target : TypeView) (apart : TellsApart target) (outlook : Outlook)
    (reserved : List String) : IsForest outlook target (ofTarget target outlook reserved) := by
  have holding := ofTarget_holding apart outlook reserved
  have covered := coveredOf_arranged outlook target
  generalize ofTarget target outlook reserved = tree at holding ⊢
  rw [← holding.identities] at covered
  have identities : tree.identities.Nodup :=
    covered.nodup_iff.mpr (List.Nodup.sublist (List.filter_sublist.map _) apart)
  have distinct := holding.links.nodup_iff.mpr holding.linked.distinct
  refine ⟨covered, identities, holding.linked.distinct, holding.links, ?_⟩
  intro d among node held same
  have hangs := hangs_of_identity apart holding identities among held same
  constructor
  · exact hangs.restricted
  · exact hangs.members
  · rw [hangs.depth, above_with_containers apart covered among]
  · constructor
    · intro root inner
      obtain ⟨_, parent, _, held', _, linked⟩ := hangs.child inner
      exact root_not_child distinct root held' linked
    · exact hangs.root
  · exact fun parent held' => child_iff identities distinct hangs held'
  · intro inner
    obtain ⟨_, parent, _, held', _, linked⟩ := hangs.child inner
    exact ⟨parent, held', linked⟩

/-- A class with a private member. Inside are a public class in a private one, in a public class
beside an internal one. -/
def twoLevels : TypeView :=
  let plain (name : String) (visibility : Visibility) : TypeHead :=
    { name, kind := .classKind, visibility }
  let count : Member := { name := "count", kind := .field, visibility := .priv }
  { tier := .static, inSource := true, space? := some "N",
    tree := .node { plain "T" .pub with members := [count] }
      [.node (plain "Open" .pub) [.node (plain "Shut" .priv) [.node (plain "Deep" .pub) []]],
        .node (plain "Near" .internal) []] }

theorem two_levels_form_forest :
    TellsApart twoLevels ∧ IsForest {} twoLevels (ofTarget twoLevels {} ["Shut"]) := by
  have apart : TellsApart twoLevels := by decide +kernel
  exact ⟨apart, containers_form_forest twoLevels apart {} ["Shut"]⟩

end ContainerTree

end HiddenNames
