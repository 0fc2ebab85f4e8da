import HiddenNames.Proofs.Assoc
import HiddenNames.Proofs.Containers.Claimed

/-!
An arena under any use. Types are added in any order and as often as one likes, with any chains and
below any parents. The first addition of a full name makes a container under a key of its own; each
later one links that container once more, at most. Main statement: after any additions the
containers under their keys, the keys under the full names, the taken names and the links fit
together, and what a container says about its type stays as it was made.
-/

namespace HiddenNames

structure Addition where
  view : TypeView
  chain : List TypeHead
  restricted : Bool
  parent? : Option String := none

def Addition.fullName (a : Addition) : String := a.view.fullName

namespace ContainerTree

variable {reserved : List String} {tree tree' : ContainerTree}

def answer (tree : ContainerTree) (a : Addition) : String :=
  (tree.add a.view a.chain a.restricted a.parent?).1

def next (tree : ContainerTree) (a : Addition) : ContainerTree :=
  (tree.add a.view a.chain a.restricted a.parent?).2

def after (tree : ContainerTree) (additions : List Addition) : ContainerTree :=
  additions.foldl next tree

def fresh (tree : ContainerTree) (a : Addition) : Container := tree.made a.view a.chain a.restricted

/-! What a link changes. -/

/-- A key is put behind the roots, or behind the children of the parent, unless it is there. Nothing
else changes, and nothing at all when no container has the key of the parent. -/
inductive LinksOnce (tree : ContainerTree) (key : String) :
    Option String → ContainerTree → Prop where
  | root (new : key ∉ tree.rootKeys) :
      LinksOnce tree key none { tree with rootKeys := tree.rootKeys ++ [key] }
  | rootKept (there : key ∈ tree.rootKeys) : LinksOnce tree key none tree
  | child {before behind : List Container} {owner : Container}
      (place : tree.nodes = before ++ owner :: behind) (new : key ∉ owner.children) :
      LinksOnce tree key (some owner.name)
        { tree with
          nodes := before ++ { owner with children := owner.children ++ [key] } :: behind }
  | childKept {parent : String}
      (there : ∀ owner ∈ tree.nodes, owner.name = parent → key ∈ owner.children) :
      LinksOnce tree key (some parent) tree

theorem appendNew_there {keys : List String} {key : String} (there : key ∈ keys) :
    appendNew keys key = keys := if_pos there

theorem link_unknown {parent : String} (unknown : parent ∉ tree.names) (key : String) :
    tree.link (some parent) key = tree := by
  rw [link, map_of_absent unknown]

theorem link_linksOnce (distinct : tree.names.Nodup) (parent? : Option String) (key : String) :
    LinksOnce tree key parent? (tree.link parent? key) := by
  cases parent? with
  | none =>
    rw [link]
    by_cases there : key ∈ tree.rootKeys
    · rw [appendNew_there there]
      exact .rootKept there
    · rw [appendNew_fresh there]
      exact .root there
  | some parent =>
    by_cases known : parent ∈ tree.names
    · obtain ⟨owner, held, rfl⟩ := List.mem_map.mp known
      obtain ⟨before, behind, place⟩ := List.append_of_mem held
      rw [link_below distinct place]
      by_cases there : key ∈ owner.children
      · rw [appendNew_there there, ← place]
        refine .childKept fun other among same => ?_
        rw [List.inj_on_of_nodup_map distinct among held same]
        exact there
      · rw [appendNew_fresh there]
        exact .child place there
    · rw [link_unknown known]
      exact .childKept fun owner held same => absurd (same ▸ List.mem_map_of_mem held) known

/-! What an addition does. -/

/-- A type that has a container is answered with the key of that one, which is linked at most; any
other type gets a container first, behind all others. -/
structure Adds (tree : ContainerTree) (a : Addition) (key : String) (tree' : ContainerTree) :
    Prop where
  known : ∀ node, tree.nodeFor? a.fullName = some node →
    key = node.name ∧ LinksOnce tree node.name a.parent? tree'
  new : tree.nodeFor? a.fullName = none →
    key = (tree.fresh a).name ∧
      LinksOnce
        { tree with nodes := tree.nodes ++ [tree.fresh a], scope := tree.scope.take key }
        key a.parent? tree'

theorem next_of_known {a : Addition} {node : Container}
    (known : tree.nodeFor? a.fullName = some node) :
    tree.answer a = node.name ∧ tree.next a = tree.link a.parent? node.name := by
  rw [Addition.fullName] at known
  rw [answer, next, ContainerTree.add, known]
  exact ⟨rfl, rfl⟩

theorem next_of_new {a : Addition} (new : tree.nodeFor? a.fullName = none) :
    tree.answer a = (tree.fresh a).name ∧
      tree.next a =
        (tree.insert a.view a.chain a.restricted).link a.parent? (tree.fresh a).name := by
  rw [answer, next, add_of_absent new]
  exact ⟨rfl, rfl⟩

@[simp]
theorem next_identities (tree : ContainerTree) (a : Addition) :
    (tree.next a).identities = appendNew tree.identities a.fullName :=
  add_identities tree a.view a.chain a.restricted a.parent?

theorem after_identities (tree : ContainerTree) (additions : List Addition) :
    (tree.after additions).identities =
      (additions.map Addition.fullName).foldl appendNew tree.identities := by
  induction additions generalizing tree with
  | nil => rfl
  | cons a rest ih =>
    rw [List.map_cons, List.foldl_cons, ← next_identities]
    exact ih (tree.next a)

theorem next_extends (tree : ContainerTree) (a : Addition) : tree.Extends (tree.next a) := by
  cases found : tree.nodeFor? a.fullName with
  | some node =>
    rw [(next_of_known found).2]
    exact link_extends tree a.parent? node.name
  | none =>
    rw [(next_of_new found).2]
    exact (insert_extends tree _ _ _).trans (link_extends _ a.parent? _)

theorem after_extends (tree : ContainerTree) (additions : List Addition) :
    tree.Extends (tree.after additions) := by
  induction additions generalizing tree with
  | nil => exact .refl tree
  | cons a rest ih => exact (next_extends tree a).trans (ih (tree.next a))

/-! What additions keep. -/

/-- Each full name has one container and each container a key that can be declared beside the others
and the reserved names; just those names are taken, and links are made once and lead to
containers. -/
structure IsOrderly (reserved : List String) (tree : ContainerTree) : Prop where
  identities : tree.identities.Nodup
  apart : Identifier.AreApart (reserved.map Identifier.plain) tree.names
  taken : ∀ text, text ∈ tree.scope.taken ↔
    text ∈ reserved.map Identifier.plain ∨ text ∈ tree.names.map Identifier.plain
  roots : tree.rootKeys.Nodup ∧ tree.rootKeys ⊆ tree.names
  children : ∀ node ∈ tree.nodes, node.children.Nodup ∧ node.children ⊆ tree.names

theorem empty_orderly (reserved : List String) : (empty reserved).IsOrderly reserved where
  identities := List.nodup_nil
  apart := .nil _
  taken _ := (or_iff_left List.not_mem_nil).symm
  roots := ⟨List.nodup_nil, List.nil_subset _⟩
  children _ held := absurd held List.not_mem_nil

theorem IsOrderly.names (h : tree.IsOrderly reserved) : tree.names.Nodup :=
  h.apart.distinct.of_map _

theorem nodup_appendNew {keys : List String} (distinct : keys.Nodup) (key : String) :
    (appendNew keys key).Nodup := by
  by_cases there : key ∈ keys
  · rwa [appendNew_there there]
  · rw [appendNew_fresh there]
    exact List.nodup_append_comm.mp (List.nodup_cons.mpr ⟨there, distinct⟩)

theorem appendNew_subset {keys names : List String} {key : String} (known : keys ⊆ names)
    (held : key ∈ names) : appendNew keys key ⊆ names := by
  by_cases there : key ∈ keys
  · rwa [appendNew_there there]
  · rw [appendNew_fresh there]
    exact List.append_subset.mpr ⟨known, List.cons_subset.mpr ⟨held, List.nil_subset _⟩⟩

theorem IsOrderly.link (h : tree.IsOrderly reserved) (parent? : Option String) {key : String}
    (held : key ∈ tree.names) : (tree.link parent? key).IsOrderly reserved := by
  constructor
  · simpa using h.identities
  · simpa using h.apart
  · simpa using h.taken
  · rw [link_names]
    cases parent? with
    | none => exact ⟨nodup_appendNew h.roots.1 key, appendNew_subset h.roots.2 held⟩
    | some parent => exact h.roots
  · rw [link_names]
    cases parent? with
    | none => exact h.children
    | some parent =>
      intro node among
      obtain ⟨old, known, rfl⟩ := List.mem_map.mp among
      obtain ⟨distinct, within⟩ := h.children old known
      split
      · exact ⟨nodup_appendNew distinct key, appendNew_subset within held⟩
      · exact ⟨distinct, within⟩

/-- A new container has a key that was free, and nothing links to it or from it. -/
theorem IsOrderly.insert (h : tree.IsOrderly reserved) {v : TypeView}
    (absent : v.fullName ∉ tree.identities) (chain : List TypeHead) (restricted : Bool) :
    (tree.insert v chain restricted).IsOrderly reserved := by
  let key := tree.scope.choose (canonicalName chain)
  have free : Identifier.plain key ∉ reserved.map Identifier.plain ∧
      Identifier.plain key ∉ tree.names.map Identifier.plain := by
    rw [← not_or, ← h.taken]
    exact tree.scope.choose_free _
  have kept : tree.names ⊆ tree.names ++ [key] := List.subset_append_left _ _
  constructor
  · rw [insert_identities, ← appendNew_fresh absent]
    exact nodup_appendNew h.identities v.fullName
  · rw [insert_names]
    exact h.apart.concat (tree.scope.isLegal_choose _) free.1 free.2
  · intro text
    rw [insert_names, insert_scope, Identifier.Scope.take_taken, List.map_append, List.mem_append,
      List.map_singleton, List.mem_singleton, List.mem_cons, h.taken, or_comm, or_assoc]
  · rw [insert_names]
    exact ⟨h.roots.1, List.Subset.trans h.roots.2 kept⟩
  · rw [insert_names]
    intro node among
    rcases List.mem_append.mp among with old | last
    · exact ⟨(h.children node old).1, List.Subset.trans (h.children node old).2 kept⟩
    · rw [List.mem_singleton.mp last]
      exact ⟨List.nodup_nil, List.nil_subset _⟩

theorem IsOrderly.next (h : tree.IsOrderly reserved) (a : Addition) :
    (tree.next a).IsOrderly reserved := by
  cases found : tree.nodeFor? a.fullName with
  | some node =>
    rw [(next_of_known found).2]
    exact h.link a.parent? (List.mem_map_of_mem (List.mem_of_find?_eq_some found))
  | none =>
    rw [(next_of_new found).2]
    have inserted := h.insert ((nodeFor_none_iff tree _).mp found) a.chain a.restricted
    exact inserted.link a.parent? (by simp [fresh, made])

theorem IsOrderly.after (h : tree.IsOrderly reserved) (additions : List Addition) :
    (tree.after additions).IsOrderly reserved := by
  induction additions generalizing tree with
  | nil => exact h
  | cons a rest ih => exact ih (h.next a)

theorem IsOrderly.adds (h : tree.IsOrderly reserved) (a : Addition) :
    tree.Adds a (tree.answer a) (tree.next a) := by
  constructor
  · intro node found
    obtain ⟨answered, linked⟩ := next_of_known found
    rw [linked]
    exact ⟨answered, link_linksOnce h.names a.parent? node.name⟩
  · intro found
    obtain ⟨answered, linked⟩ := next_of_new found
    have inserted := h.insert ((nodeFor_none_iff tree _).mp found) a.chain a.restricted
    rw [answered, linked]
    exact ⟨rfl, link_linksOnce inserted.names a.parent? _⟩

/-- A later arena has every container under its key, the same but for further children. -/
theorem Extends.get? (h : tree.Extends tree') (distinct : tree'.names.Nodup) {key : String}
    {node : Container} (found : tree.get? key = some node) :
    ∃ more, tree'.get? key = some { node with children := more } ∧ node.children ⊆ more := by
  obtain ⟨among, named⟩ := find?_key_some found
  obtain ⟨more, held, kept⟩ := h.nodes node among
  exact ⟨more, (find?_key_iff distinct).mpr ⟨held, named⟩, kept⟩

end ContainerTree

/-! Two dictionaries. -/

/-- An arena that is kept in two dictionaries: the containers under their keys, and the keys under
the full names of the types they stand for. -/
structure Catalogue where
  nodes : List (String × Container) := []
  index : List (String × String) := []
  rootKeys : List String := []
  scope : Identifier.Scope

namespace Catalogue

open ContainerTree (appendNew)

def empty (reserved : List String) : Catalogue := { scope := Identifier.Scope.ofReserved reserved }

def link (c : Catalogue) (parent? : Option String) (key : String) : Catalogue :=
  match parent? with
  | none => { c with rootKeys := appendNew c.rootKeys key }
  | some parent =>
    match c.nodes.lookup parent with
    | none => c
    | some owner =>
      { c with
        nodes := assign c.nodes parent { owner with children := appendNew owner.children key } }

def insert (c : Catalogue) (a : Addition) : Catalogue :=
  let (key, scope) := c.scope.claim (canonicalName a.chain)
  let node : Container :=
    { name := key, identity := a.fullName, simpleName := a.view.head.name,
      restricted := a.restricted, depth := (a.chain.length : Int) - 1,
      members := if a.restricted then a.view.hiddenNames else [] }
  { c with nodes := assign c.nodes key node, index := assign c.index a.fullName key, scope }

/-- What the dictionaries answer to an addition. There is no answer when a full name has a key that
leads to no container. -/
def add? (c : Catalogue) (a : Addition) : Option (String × Catalogue) :=
  match c.index.lookup a.fullName with
  | some key => (c.nodes.lookup key).map fun node => (node.name, c.link a.parent? node.name)
  | none =>
    let key := c.scope.choose (canonicalName a.chain)
    some (key, (c.insert a).link a.parent? key)

def addAll? (c : Catalogue) (additions : List Addition) : Option Catalogue :=
  additions.foldlM (fun c a => (c.add? a).map Prod.snd) c

end Catalogue

namespace ContainerTree

variable {reserved : List String} {tree : ContainerTree}

def catalogue (tree : ContainerTree) : Catalogue where
  nodes := tree.nodes.map fun node => (node.name, node)
  index := tree.nodes.map fun node => (node.identity, node.name)
  rootKeys := tree.rootKeys
  scope := tree.scope

theorem catalogue_nodes (tree : ContainerTree) (key : String) :
    tree.catalogue.nodes.lookup key = tree.get? key :=
  (lookup_map_eq Container.name id tree.nodes key).trans Option.map_id_apply

theorem catalogue_index (tree : ContainerTree) (fullName : String) :
    tree.catalogue.index.lookup fullName = (tree.nodeFor? fullName).map Container.name :=
  lookup_map_eq Container.identity Container.name tree.nodes fullName

theorem catalogue_link (distinct : tree.names.Nodup) (parent? : Option String) (key : String) :
    tree.catalogue.link parent? key = (tree.link parent? key).catalogue := by
  cases parent? with
  | none => rfl
  | some parent =>
    rw [Catalogue.link, catalogue_nodes]
    cases found : tree.get? parent with
    | none =>
      have unknown : parent ∉ tree.names := find?_key_none_iff.mp found
      rw [link_unknown unknown]
    | some owner =>
      obtain ⟨held, rfl⟩ := (find?_key_iff distinct).mp found
      obtain ⟨before, behind, place⟩ := List.append_of_mem held
      -- The parent is set in the place that it has, since no container in front of it has its key.
      have absent : owner.name ∉ (before.map fun node => (node.name, node)).map Prod.fst := by
        rw [List.map_map]
        exact (names_around distinct place).1
      rw [link_below distinct place]
      simp only [catalogue, place, List.map_append, List.map_cons, assign_middle absent]

theorem catalogue_insert (h : tree.IsOrderly reserved) {a : Addition}
    (absent : a.fullName ∉ tree.identities) :
    tree.catalogue.insert a = (tree.insert a.view a.chain a.restricted).catalogue := by
  have inserted := (h.insert absent a.chain a.restricted).names
  rw [insert_names, List.nodup_append] at inserted
  have free : tree.catalogue.scope.choose (canonicalName a.chain) ∉
      tree.catalogue.nodes.map Prod.fst := by
    rw [catalogue, List.map_map]
    exact fun held => inserted.2.2 _ held _ List.mem_cons_self rfl
  have new : a.fullName ∉ tree.catalogue.index.map Prod.fst := by
    rw [catalogue, List.map_map]
    exact absent
  rw [Catalogue.insert, Identifier.Scope.claim]
  dsimp only
  rw [assign_of_absent free, assign_of_absent new]
  simp only [catalogue, insert_nodes, List.map_append, List.map_singleton]
  rfl

/-- The dictionaries answer an addition as the arena does, and are those of the arena afterwards. -/
theorem catalogue_add (h : tree.IsOrderly reserved) (a : Addition) :
    tree.catalogue.add? a = some (tree.answer a, (tree.next a).catalogue) := by
  rw [Catalogue.add?, catalogue_index]
  cases found : tree.nodeFor? a.fullName with
  | some node =>
    obtain ⟨answered, linked⟩ := next_of_known found
    have kept : tree.get? node.name = some node :=
      (find?_key_iff h.names).mpr ⟨List.mem_of_find?_eq_some found, rfl⟩
    rw [Option.map_some]
    dsimp only
    rw [catalogue_nodes, kept, Option.map_some, catalogue_link h.names, answered, linked]
  | none =>
    obtain ⟨answered, linked⟩ := next_of_new found
    have absent := (nodeFor_none_iff tree _).mp found
    have inserted := h.insert absent a.chain a.restricted
    rw [Option.map_none]
    dsimp only
    rw [catalogue_insert h absent, answered, linked, ← catalogue_link inserted.names]
    rfl

theorem catalogue_addAll (h : tree.IsOrderly reserved) (additions : List Addition) :
    tree.catalogue.addAll? additions = some (tree.after additions).catalogue := by
  induction additions generalizing tree with
  | nil => rfl
  | cons a rest ih =>
    rw [Catalogue.addAll?, List.foldlM_cons, catalogue_add h]
    exact ih (h.next a)

/-- An arena after some additions: both lookups and both dictionaries are those of its containers,
which stand for the full names that were added. -/
structure IsConsistent (reserved : List String) (additions : List Addition) (tree : ContainerTree) :
    Prop extends tree.IsOrderly reserved where
  arena : ∀ key node, tree.get? key = some node ↔ node ∈ tree.nodes ∧ node.name = key
  index : ∀ fullName node,
    tree.nodeFor? fullName = some node ↔ node ∈ tree.nodes ∧ node.identity = fullName
  added : ∀ fullName,
    (tree.nodeFor? fullName).isSome = true ↔ fullName ∈ additions.map Addition.fullName
  dictionaries : (Catalogue.empty reserved).addAll? additions = some tree.catalogue

theorem after_consistent (reserved : List String) (additions : List Addition) :
    ((empty reserved).after additions).IsConsistent reserved additions := by
  have orderly := (empty_orderly reserved).after additions
  have identities := after_identities (empty reserved) additions
  have dictionaries := catalogue_addAll (empty_orderly reserved) additions
  generalize (empty reserved).after additions = tree at orderly identities dictionaries ⊢
  refine ⟨orderly, fun _ _ => find?_key_iff orderly.names,
    fun _ _ => find?_key_iff orderly.identities, fun fullName => ?_, dictionaries⟩
  rw [← Option.not_isNone, Bool.not_eq_true', ← Bool.not_eq_true, Option.isNone_iff_eq_none,
    nodeFor_none_iff, not_not, identities, mem_foldl_appendNew]
  exact or_iff_right List.not_mem_nil

/-- Whatever is added to an empty arena, in whatever order, with whatever chains and below whatever
parents, the arena is consistent at any time; an addition of a type that has a container changes no
more than one link; and whatever is added later, what is found under a key says the same about its
type. -/
theorem additions_keep_arena_consistent (reserved : List String) (earlier : List Addition)
    (a : Addition) (later : List Addition) :
    let tree := (empty reserved).after earlier
    tree.IsConsistent reserved earlier ∧
      tree.Adds a (tree.answer a) (tree.next a) ∧
      ∀ key node, tree.get? key = some node →
        ∃ more, (tree.after later).get? key = some { node with children := more } ∧
          node.children ⊆ more := by
  intro tree
  have consistent := after_consistent reserved earlier
  have orderly := consistent.toIsOrderly
  refine ⟨consistent, orderly.adds a, fun key node found => ?_⟩
  exact (after_extends tree later).get? (orderly.after later).names found

/-- A class of a reserved name, one that is called by a keyword, and one that is added with the
chain of the second. -/
def threeClasses : List Addition :=
  let view (name : String) : TypeView :=
    { tier := .static, space? := some "N",
      tree := .node { name, kind := .classKind, visibility := .priv } [] }
  [⟨view "A", [(view "A").head], true, none⟩,
    ⟨view "class", [(view "class").head], true, some "A_2"⟩,
    ⟨view "B", [(view "class").head], true, none⟩]

/-- Adding the first of them again, with no chain and below the second, changes one link. -/
theorem class_added_again_is_linked_once :
    let tree := (empty ["@A"]).after threeClasses
    let again : Addition :=
      { view := { tier := .static, space? := some "N",
                  tree := .node { name := "A", kind := .structKind, visibility := .pub } [] },
        chain := [], restricted := false, parent? := some "@class" }
    tree.nodes.map (fun node => (node.name, node.children)) =
        [("A_2", ["@class"]), ("@class", []), ("class_2", [])] ∧
      (tree.next again).nodes.map (fun node => (node.name, node.children)) =
        [("A_2", ["@class"]), ("@class", ["A_2"]), ("class_2", [])] ∧
      tree.IsConsistent ["@A"] threeClasses ∧
      LinksOnce tree "A_2" (some "@class") (tree.next again) := by
  intro tree again
  obtain ⟨consistent, adds, -⟩ := additions_keep_arena_consistent ["@A"] threeClasses again []
  obtain ⟨node, found⟩ : ∃ node, tree.nodeFor? again.fullName = some node :=
    Option.isSome_iff_exists.mp ((consistent.added again.fullName).mpr (by decide +kernel))
  obtain ⟨answered, linked⟩ := adds.known node found
  have key : tree.answer again = "A_2" := by decide +kernel
  rw [← answered, key] at linked
  exact ⟨by decide +kernel, by decide +kernel, consistent, linked⟩

end ContainerTree

end HiddenNames
