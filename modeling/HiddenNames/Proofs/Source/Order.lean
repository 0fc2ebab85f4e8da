import HiddenNames.Proofs.Source.Alike
import HiddenNames.Proofs.Source.Nested
import HiddenNames.Proofs.Surface.Settled

/-!
The order of source files. Programs whose entries are alike show alike types: their views have one
outline, make the same clauses of their constraints and have the same containers. Sources that are
taken in in another order tell the same facts, so no text depends on their order.
-/

namespace HiddenNames

namespace TypeHead

/-- An outline with the hidden names alone for members. -/
def shadow (tier : Tier) (h : TypeHead) : TypeHead :=
  { h.outline with members := (h.hidden tier).map hiddenMember }

theorem recasts_shadow (tier : Tier) : Recasts (shadow tier) tier .metadata :=
  ⟨fun _ => rfl, hidden_settled tier⟩

theorem shadow_congr {tier : Tier} {a b : TypeHead} (outlines : a.outline = b.outline)
    (names : a.hidden tier = b.hidden tier) : a.shadow tier = b.shadow tier := by
  rw [shadow, shadow, outlines, names]

end TypeHead

theorem constraintClauses_congr {a b : TypeHead} (parameters : a.parameters = b.parameters)
    (constraints : ∀ name, a.constraints.lookup name = b.constraints.lookup name) :
    constraintClauses a = constraintClauses b := by
  funext unique
  simp only [constraintClauses, parameters, constraints]

theorem lookup_map_snd {α β γ : Type} [BEq α] (f : β → γ) (entries : List (α × β)) (key : α) :
    (entries.map fun (k, value) => (k, f value)).lookup key = (entries.lookup key).map f := by
  induction entries with
  | nil => rfl
  | cons entry rest ih =>
    rw [List.map_cons, List.lookup_cons, List.lookup_cons, ih]
    cases key == entry.1 <;> rfl

namespace SourceProgram

variable {p p' : SourceProgram}

namespace Alike

variable {t t' : SourceType}

theorem paths_distinct (alike : p.Alike p') (h' : p'.IsIndexed)
    (distinct : (p.types.map SourceType.path).Nodup) : (p'.types.map SourceType.path).Nodup := by
  apply List.Nodup.map_on _ (List.Nodup.of_map _ h'.distinct)
  intro t held u held' same
  obtain ⟨t₀, known, like⟩ := alike.back t held
  obtain ⟨u₀, known', like'⟩ := alike.back u held'
  obtain rfl : t₀ = u₀ := by
    apply List.inj_on_of_nodup_map distinct known known'
    rw [← like.path, same, like'.path]
  apply h'.eq_of_fullName held held'
  rw [like.place.fullName, like'.place.fullName]

/-- What is read off alike entries, if it tells them apart, is the same in another order. -/
theorem perm {α : Type} (alike : p.Alike p') {q q' : SourceType → Bool} {f g : SourceType → α}
    (distinct : ((p.types.filter q).map f).Nodup) (distinct' : ((p'.types.filter q').map g).Nodup)
    (kept : ∀ t t' : SourceType, t.Alike t' → q t = q' t')
    (same : ∀ t ∈ p.types.filter q, ∀ t' ∈ p'.types, t.Alike t' → f t = g t') :
    ((p.types.filter q).map f).Perm ((p'.types.filter q').map g) := by
  refine (List.perm_ext_iff_of_nodup distinct distinct').mpr fun read => ?_
  constructor
  · intro held
    obtain ⟨t, among, rfl⟩ := List.mem_map.mp held
    obtain ⟨known, chosen⟩ := List.mem_filter.mp among
    obtain ⟨t', known', like⟩ := alike.forth t known
    refine List.mem_map.mpr ⟨t', List.mem_filter.mpr ⟨known', ?_⟩,
      (same t among t' known' like).symm⟩
    rw [← kept t t' like, chosen]
  · intro held
    obtain ⟨t', among', rfl⟩ := List.mem_map.mp held
    obtain ⟨known', chosen'⟩ := List.mem_filter.mp among'
    obtain ⟨t, known, like⟩ := alike.back t' known'
    have among : t ∈ p.types.filter q := by
      rw [List.mem_filter, kept t t' like]
      exact ⟨known, chosen'⟩
    exact List.mem_map.mpr ⟨t, among, same t among t' known' like⟩

theorem perm_all {α : Type} (alike : p.Alike p') {f : SourceType → α}
    (distinct : (p.types.map f).Nodup) (distinct' : (p'.types.map f).Nodup)
    (same : ∀ t t' : SourceType, t.Alike t' → f t = f t') :
    (p.types.map f).Perm (p'.types.map f) := by
  rw [← List.filter_true p.types] at distinct ⊢
  rw [← List.filter_true p'.types] at distinct' ⊢
  exact alike.perm distinct distinct' (fun _ _ _ => rfl) fun t _ t' _ like => same t t' like

theorem keys (alike : p.Alike p') (h' : p'.IsIndexed)
    (distinct : (p.types.map SourceType.path).Nodup) :
    (p.types.map SourceType.bindingKey).Perm (p'.types.map SourceType.bindingKey) := by
  have apart : ∀ {types : List SourceType}, (types.map SourceType.path).Nodup →
      (types.map SourceType.bindingKey).Nodup := by
    intro types paths
    apply List.Nodup.of_map SourceType.BindingKey.path
    rw [List.map_map]
    exact paths
  apply alike.perm_all (apart distinct) (apart (alike.paths_distinct h' distinct))
  exact fun t t' like => like.bindingKey.symm

/-- Constraints are qualified alike, for a reference is bound to types of one path. -/
theorem qualify (alike : p.Alike p') (h' : p'.IsIndexed)
    (distinct : (p.types.map SourceType.path).Nodup) (like : t.Alike t') (constraint : String) :
    p.qualify t constraint = p'.qualify t' constraint := by
  have found : ∀ ref, (p.find ref t.space?).map SourceType.bindingKey =
      (p'.find ref t'.space?).map SourceType.bindingKey := by
    intro ref
    rw [find_key distinct, find_key (alike.paths_distinct h' distinct), like.place.space,
      findKey_of_perm (alike.keys h' distinct)]
  simp only [SourceProgram.qualify, like.place.parameters]
  split
  · rfl
  · have bound := found (TypeRef.ofDotted (String.ofList (constraint.toList.filter (· ≠ '@'))))
    cases one : p.find (TypeRef.ofDotted (String.ofList (constraint.toList.filter (· ≠ '@'))))
        t.space? with
    | none =>
      rw [one, Option.map_none] at bound
      rw [Option.map_eq_none_iff.mp bound.symm]
    | some u =>
      rw [one, Option.map_some] at bound
      obtain ⟨u', other, same⟩ := Option.map_eq_some_iff.mp bound.symm
      have arity : u'.arity = u.arity := congrArg SourceType.BindingKey.arity same
      have path : u'.path = u.path := congrArg SourceType.BindingKey.path same
      rw [other]
      simp only [arity, path]

/-! Heads. -/

theorem headOf_outline (like : t.Alike t') :
    (p.headOf t).outline = (p'.headOf t').outline := by
  simp only [headOf, TypeHead.outline, like.place.name, like.kind, like.visibility,
    like.place.parameters]

theorem headOf_hidden (like : t.Alike t') (tier : Tier) :
    (p.headOf t).hidden tier = (p'.headOf t').hidden tier := by
  have names := (like.members.filter (Member.isHidden tier)).map Member.name
  exact inOrder_congr fun name => names.mem_iff

theorem headOf_clauses (alike : p.Alike p') (h' : p'.IsIndexed)
    (distinct : (p.types.map SourceType.path).Nodup) (like : t.Alike t') :
    constraintClauses (p.headOf t) = constraintClauses (p'.headOf t') := by
  have qualified : p.qualify t = p'.qualify t' := funext (alike.qualify h' distinct like)
  apply constraintClauses_congr
  · exact like.place.parameters.symm
  · intro name
    simp only [headOf]
    rw [lookup_map_snd, lookup_map_snd, like.constraints, qualified]

theorem get?_map {α : Type} (alike : p.Alike p') (h : p.IsIndexed) (h' : p'.IsIndexed)
    {f g : SourceType → α}
    (same : ∀ t ∈ p.types, ∀ t' ∈ p'.types, t.Alike t' → f t = g t') (name : String) :
    (p.get? name).map f = (p'.get? name).map g := by
  cases found : p.get? name with
  | none =>
    have absent : p'.get? name = none := by
      cases found' : p'.get? name with
      | none => rfl
      | some t' =>
        obtain ⟨held', own⟩ := get?_some found'
        obtain ⟨t, held, like⟩ := alike.back t' held'
        rw [← own, like.place.fullName, h.get? held] at found
        cases found
    rw [absent]
    rfl
  | some t =>
    obtain ⟨held, rfl⟩ := get?_some found
    obtain ⟨t', held', like⟩ := alike.forth t held
    rw [← like.place.fullName, h'.get? held', Option.map_some, Option.map_some,
      same t held t' held' like]

theorem headsAround_map {α : Type} (alike : p.Alike p') (h : p.IsIndexed) (h' : p'.IsIndexed)
    {f : TypeHead → α} (same : ∀ t t' : SourceType, t.Alike t' → f (p.headOf t) = f (p'.headOf t'))
    (like : t.Alike t') : (p.headsAround t).map f = (p'.headsAround t').map f := by
  rw [headsAround, headsAround, List.map_filterMap, List.map_filterMap, like.place.outer,
    like.place.space]
  apply List.filterMap_congr
  intro k _
  rw [Option.map_map, Option.map_map]
  exact alike.get?_map h h' (fun t _ t' _ like => same t t' like) _

/-! Trees. -/

theorem tree (alike : p.Alike p') (h : p.IsIndexed) (h' : p'.IsIndexed) :
    ∀ t ∈ p.types, ∀ t' ∈ p'.types, t.Alike t' →
      (p.view t).tree.cast (TypeHead.shadow .static) =
        (p'.view t').tree.cast (TypeHead.shadow .static) := by
  -- The types inside are cast alike by induction; the order that they stand in is undone by
  -- casting.
  refine h.induct_inward (motive := fun t => ∀ t' ∈ p'.types, t.Alike t' → _) ?_
  intro t held ih t' held' like
  have siblings := siblings_distinct h held
  have siblings' := siblings_distinct h' held'
  have split : ∀ {q : SourceProgram} (indexed : q.IsIndexed) (u : SourceType),
      (q.view u).tree = .node (q.headOf u)
        ((q.types.filter fun v => v.ownerName = some u.fullName).map fun v => (q.view v).tree) :=
    fun indexed u => congrArg (TypeTree.node _) (treesIn_eq indexed u.fullName)
  have names : ∀ (q : SourceProgram) (us : List SourceType),
      (us.map fun u => withArity u.name u.arity) =
        (us.map fun u => (q.view u).tree.cast (TypeHead.shadow .static)).map fun tree =>
          tree.head.metadataName := by
    intro q us
    rw [List.map_map]
    apply List.map_congr_left
    intro u _
    rw [Function.comp_apply, TypeTree.cast_head]
    rfl
  rw [split h, split h']
  apply TypeTree.cast_eq_of_perm (f := TypeHead.shadow .static) (g := TypeHead.shadow .static)
    (fun _ => rfl) (fun _ => rfl)
  · exact TypeHead.shadow_congr (headOf_outline like) (headOf_hidden like .static)
  · rw [List.map_map, List.map_map]
    rw [names p] at siblings
    rw [names p'] at siblings'
    apply alike.perm (List.Nodup.of_map _ siblings) (List.Nodup.of_map _ siblings')
    · intro u u' same
      rw [same.ownerName, like.place.fullName]
    · intro u kept u' among same
      obtain ⟨known, named⟩ := List.mem_filter.mp kept
      exact ih u known ((h.ownerName_iff known held).mp (of_decide_eq_true named)) u' among same
  · rw [List.map_map]
    exact siblings

/-! Views. -/

theorem outline (alike : p.Alike p') (h : p.IsIndexed) (h' : p'.IsIndexed) (like : t.Alike t') :
    (p.view t).SameOutline (p'.view t') :=
  ⟨like.place.space.symm, alike.headsAround_map h h' (fun _ _ same => headOf_outline same) like,
    headOf_outline like⟩

theorem clauses (alike : p.Alike p') (h : p.IsIndexed) (h' : p'.IsIndexed)
    (distinct : (p.types.map SourceType.path).Nodup) (like : t.Alike t') :
    (p.view t).chain.map constraintClauses = (p'.view t').chain.map constraintClauses := by
  have own : constraintClauses (p.view t).head = constraintClauses (p'.view t').head :=
    alike.headOf_clauses h' distinct like
  have around : (p.view t).outer.map constraintClauses = (p'.view t').outer.map constraintClauses :=
    alike.headsAround_map h h' (fun _ _ same => alike.headOf_clauses h' distinct same) like
  rw [TypeView.chain, TypeView.chain, List.map_append, List.map_append, around, List.map_singleton,
    List.map_singleton, own]

theorem render (alike : p.Alike p') (h : p.IsIndexed) (h' : p'.IsIndexed)
    (distinct : (p.types.map SourceType.path).Nodup) (held : t ∈ p.types) (held' : t' ∈ p'.types)
    (like : t.Alike t') (access : Access) (exposure : Exposure) (identity? : Option String) :
    (p.described t).render access exposure identity? =
      (p'.described t').render access exposure identity? := by
  have outlines := alike.outline h h' like
  have inSource : (p.described t).view.inSource = (p'.described t').view.inSource := rfl
  have recasts := TypeHead.recasts_shadow .static
  rw [Resolved.render, Resolved.render]
  congr 1
  apply Resolved.unit_of_outline outlines inSource
  · exact headOf_hidden like .static
  · exact alike.clauses h h' distinct like
  · intro outlook reserved
    exact ContainerTree.ofTarget_congr_of_cast outlines recasts recasts
      (alike.tree h h' t held t' held' like) outlook reserved

end Alike

/-! Sources. -/

/-- What is generated for the type of a full name. Without such a type there is no answer at all. -/
def textOf (p : SourceProgram) (fullName : String) (access : Access) (exposure : Exposure)
    (identity? : Option String) : Option (Option String) :=
  (p.get? fullName).map fun t => (p.described t).render access exposure identity?

theorem Alike.textOf (alike : p.Alike p') (h : p.IsIndexed) (h' : p'.IsIndexed)
    (distinct : (p.types.map SourceType.path).Nodup) (fullName : String) (access : Access)
    (exposure : Exposure) (identity? : Option String) :
    p.textOf fullName access exposure identity? = p'.textOf fullName access exposure identity? :=
  alike.get?_map h h'
    (fun _ held _ held' like =>
      alike.render h h' distinct held held' like access exposure identity?) fullName

theorem Alike.fullNames (alike : p.Alike p') (h : p.IsIndexed) (h' : p'.IsIndexed) :
    (p.types.map SourceType.fullName).Perm (p'.types.map SourceType.fullName) :=
  alike.perm_all h.distinct h'.distinct fun _ _ like => like.place.fullName.symm

end SourceProgram

structure SourceTree where
  path : String
  declarations : List CSharp.Declaration

def SourceFact.ofTrees (sources : List SourceTree) : List SourceFact :=
  sources.flatMap fun source => ofScopes none source.declarations

namespace SourceProgram

def addTrees (p : SourceProgram) (sources : List SourceTree) : SourceProgram :=
  sources.foldl (fun p source => p.addDeclarations source.path source.declarations) p

theorem addTrees_describes {p : SourceProgram} {facts : List SourceFact} (h : Describes p facts)
    (sources : List SourceTree)
    (written : ∀ part ∈ partsOf (SourceFact.ofTrees sources), part.IsWritten)
    (agree : PartsAgree (partsOf (facts ++ SourceFact.ofTrees sources))) :
    Describes (p.addTrees sources) (facts ++ SourceFact.ofTrees sources) := by
  induction sources generalizing p facts with
  | nil =>
    rw [SourceFact.ofTrees, List.flatMap_nil, List.append_nil]
    exact h
  | cons source rest ih =>
    have parts : SourceFact.ofTrees (source :: rest) =
        SourceFact.ofScopes none source.declarations ++ SourceFact.ofTrees rest := List.flatMap_cons
    rw [parts, partsOf_append, List.forall_mem_append] at written
    rw [parts, ← List.append_assoc] at agree ⊢
    have one := visitScopes_describes source.path none h source.declarations written.1 agree.earlier
    exact ih one written.2 agree

/-- The order of the sources has no part in what is generated for their types. -/
theorem texts_ignore_source_order (assemblyName : String) {sources sources' : List SourceTree}
    (order : sources.Perm sources')
    (written : ∀ part ∈ partsOf (SourceFact.ofTrees sources), part.IsWritten)
    (agree : PartsAgree (partsOf (SourceFact.ofTrees sources)))
    (distinct : ((addTrees { assemblyName } sources).types.map SourceType.path).Nodup) :
    let p := addTrees { assemblyName } sources
    let p' := addTrees { assemblyName } sources'
    (p.types.map SourceType.fullName).Perm (p'.types.map SourceType.fullName) ∧
      ∀ fullName access exposure identity?,
        p.textOf fullName access exposure identity? =
          p'.textOf fullName access exposure identity? := by
  intro p p'
  have told : (SourceFact.ofTrees sources).Perm (SourceFact.ofTrees sources') :=
    order.flatMap_right _
  have parts :
      (partsOf (SourceFact.ofTrees sources)).Perm (partsOf (SourceFact.ofTrees sources')) :=
    told.filterMap _
  have described : Describes p (SourceFact.ofTrees sources) :=
    addTrees_describes (.empty assemblyName) sources written agree
  have described' : Describes p' (SourceFact.ofTrees sources') :=
    addTrees_describes (.empty assemblyName) sources'
      (fun part held => written part (parts.mem_iff.mpr held)) (agree.of_subset parts.symm.subset)
  have alike := described.alike described' told agree
  constructor
  · exact alike.fullNames described.indexed described'.indexed
  · exact alike.textOf described.indexed described'.indexed distinct

def firstHalf : SourceTree where
  path := "a.cs"
  declarations := [.namespaceBlock "N" [
    .type { name := "C", kind := .classKind, modifiers := ["public", "partial"],
            parameters := ["T"], constraints := [("T", ["D"])] } [.members .field [] ["x"]],
    .type { name := "D", kind := .classKind } []]]

def secondHalf : SourceTree where
  path := "b.cs"
  declarations := [.namespaceLine "N",
    .type { name := "C", kind := .classKind, modifiers := ["partial"], parameters := ["T"] }
      [.members .field [] ["y"],
        .type { name := "I", kind := .structKind } [.members .field [] ["z"]]]]

theorem halves_in_either_order :
    [firstHalf, secondHalf].Perm [secondHalf, firstHalf] ∧
      (∀ part ∈ partsOf (SourceFact.ofTrees [firstHalf, secondHalf]), part.IsWritten) ∧
      PartsAgree (partsOf (SourceFact.ofTrees [firstHalf, secondHalf])) ∧
      ((addTrees {} [firstHalf, secondHalf]).types.map SourceType.path).Nodup ∧
      (addTrees {} [firstHalf, secondHalf]).types.map SourceType.fullName =
        ["N.C`1", "N.D", "N.C`1+I"] ∧
      ((addTrees {} [firstHalf, secondHalf]).types.map SourceType.fullName).Perm
        ((addTrees {} [secondHalf, firstHalf]).types.map SourceType.fullName) ∧
      ∀ access exposure identity?,
        (addTrees {} [firstHalf, secondHalf]).textOf "N.C`1" access exposure identity? =
          (addTrees {} [secondHalf, firstHalf]).textOf "N.C`1" access exposure identity? := by
  have order : [firstHalf, secondHalf].Perm [secondHalf, firstHalf] := List.Perm.swap _ _ _
  have written : ∀ part ∈ partsOf (SourceFact.ofTrees [firstHalf, secondHalf]), part.IsWritten := by
    decide
  have agree : PartsAgree (partsOf (SourceFact.ofTrees [firstHalf, secondHalf])) := by
    decide
  have distinct : ((addTrees {} [firstHalf, secondHalf]).types.map SourceType.path).Nodup := by
    decide
  obtain ⟨names, texts⟩ := texts_ignore_source_order "Program" order written agree distinct
  exact ⟨order, written, agree, distinct, by decide, names, texts "N.C`1"⟩

end SourceProgram

end HiddenNames
