import HiddenNames.Proofs.Assoc
import HiddenNames.Proofs.Metadata.Rows
import HiddenNames.Proofs.Source.Order
import HiddenNames.Proofs.Source.Shown

/-!
The index of a program and the nesting of its types. While declarations are taken in, a type that is
declared first goes into the index and is recorded by the type around it; another part of a type
that is known changes neither. Each such step keeps what the types have recorded the list of what
the index has inside of them, in the same order. Main statement: whatever sources are taken in,
index and nesting are in step, and going down from the outermost type by metadata names comes to
every type.
-/

namespace HiddenNames

open CSharp (AttributeText Declaration TypeHeader IsWordName)

namespace SourceType

def metadataName (t : SourceType) : String := withArity t.name t.arity

def namesBelow (t : SourceType) : List String :=
  (t.chain.drop 1).map fun part => withArity part.1 part.2

instance (t owner : SourceType) : Decidable (t.IsIn owner) :=
  decidable_of_iff (t.space? = owner.space? ∧ t.outer = owner.chain)
    ⟨fun ⟨space, outer⟩ => ⟨space, outer⟩, fun ⟨space, outer⟩ => ⟨space, outer⟩⟩

theorem SamePlace.ownerName {t t' : SourceType} (h : SamePlace t t') :
    t'.ownerName = t.ownerName := by
  rw [SourceType.ownerName, SourceType.ownerName, h.space, h.outer]

theorem SamePlace.metadataName {t t' : SourceType} (h : SamePlace t t') :
    t'.metadataName = t.metadataName := by
  rw [SourceType.metadataName, SourceType.metadataName, arity, arity, h.name, h.parameters]

theorem fullName_of_owner {t : SourceType} {owner : String} (h : t.ownerName = some owner) :
    t.fullName = owner ++ "+" ++ t.metadataName := by
  have inside : t.outer ≠ [] := by
    intro top
    simp [ownerName, top] at h
  have around : owner = chainName t.space? t.outer := by
    rw [ownerName, List.isEmpty_eq_false_iff.mpr inside] at h
    exact (Option.some.inj h).symm
  have names : t.outer.map (fun entry => withArity entry.1 entry.2) ≠ [] := by
    rwa [Ne, List.map_eq_nil_iff]
  rw [around, fullName, chain, chainName, chainName, List.map_append, List.map_singleton,
    String.intercalate_append_of_ne_nil names (List.cons_ne_nil _ _), String.intercalate_singleton,
    qualified, qualified]
  cases namedSpace t.space? with
  | none => rfl
  | some space => simp only [String.append_assoc, metadataName]

end SourceType

/-- A program with what its types have recorded: under the full name of a type and the metadata name
of one inside of it, the full name of that one. -/
structure Ledger where
  program : SourceProgram
  nested : List ((String × String) × String) := []

namespace Ledger

open SourceProgram (declaredType get?_none get?_some)

variable {l l' : Ledger}

/-- What the types have recorded once a type is declared that was not known. -/
def record (l : Ledger) (t : SourceType) : List ((String × String) × String) :=
  match t.ownerName with
  | none => l.nested
  | some owner => assign l.nested (owner, t.metadataName) t.fullName

/-- The types that a type has recorded, in the order of their first declarations. -/
def nestedIn (l : Ledger) (owner : String) : List String :=
  (l.nested.filter fun entry => entry.1.1 = owner).map Prod.snd

/-- Takes in a header. Only a type that is declared first is recorded. -/
def declare (l : Ledger) (path : String) (header : TypeHeader) (space? : Option String)
    (owner? : Option SourceType) : Ledger :=
  let t := declaredType header space? owner?
  { program := (l.program.declare t header.modifiers).addMarkers path (some t.fullName)
      header.attributes
    nested := match l.program.get? t.fullName with
      | none => l.record t
      | some _ => l.nested }

/-- What a declaration, or the attributes of an assembly, does to the index and to what is recorded.
A header stands in a namespace or below a type that is known. -/
inductive Step : Ledger → Ledger → Prop where
  | declare {l : Ledger} (path : String) {header : TypeHeader} (named : IsWordName header.name)
      (space? : Option String) {owner? : Option SourceType}
      (known : ∀ owner, owner? = some owner → owner ∈ l.program.types) :
      Step l (l.declare path header space? owner?)
  | addMembers {l : Ledger} (owner : String) (kind : MemberKind) (modifiers names : List String) :
      Step l { l with program := l.program.addMembers owner kind modifiers names }
  | addMarkers {l : Ledger} (path : String) (attributes : List AttributeText) :
      Step l { l with program := l.program.addMarkers path none attributes }

inductive Run : Ledger → Ledger → Prop where
  | still (l : Ledger) : Run l l
  | step {l l' l'' : Ledger} (first : Step l l') (more : Run l' l'') : Run l l''

theorem Run.trans {l'' : Ledger} (first : Run l l') (more : Run l' l'') : Run l l'' := by
  induction first with
  | still => exact more
  | step one _ ih => exact .step one (ih more)

def noteOf? (t : SourceType) : Option ((String × String) × String) :=
  t.ownerName.map fun owner => ((owner, t.metadataName), t.fullName)

structure IsKept (l : Ledger) : Prop where
  indexed : l.program.IsIndexed
  recorded : l.nested = l.program.types.filterMap noteOf?

theorem update_entries (p : SourceProgram) (fullName : String) {f : SourceType → SourceType}
    (kept : ∀ t, SourceType.SamePlace t (f t)) :
    (p.update fullName f).types.filterMap noteOf? = p.types.filterMap noteOf? := by
  rw [SourceProgram.update, List.filterMap_map]
  apply List.filterMap_congr
  intro t _
  rw [Function.comp_apply]
  split
  · rw [noteOf?, (kept t).ownerName, (kept t).metadataName, (kept t).fullName]
    rfl
  · rfl

theorem IsKept.record_first (h : l.IsKept) {t : SourceType}
    (first : l.program.get? t.fullName = none) :
    l.record t = (l.program.types ++ [t]).filterMap noteOf? := by
  rw [List.filterMap_append, ← h.recorded, record]
  cases named : t.ownerName with
  | none => simp [noteOf?, named]
  | some owner =>
    have absent : (owner, t.metadataName) ∉ l.nested.map Prod.fst := by
      rw [h.recorded]
      intro held
      obtain ⟨other, among, same⟩ := List.mem_map.mp held
      obtain ⟨u, known, written⟩ := List.mem_filterMap.mp among
      obtain ⟨around, named', rfl⟩ := Option.map_eq_some_iff.mp written
      obtain ⟨rfl, called⟩ := Prod.mk.inj same
      apply get?_none first
      rw [SourceType.fullName_of_owner named, ← called, ← SourceType.fullName_of_owner named']
      exact List.mem_map_of_mem known
    simp only [assign_of_absent absent, List.filterMap_cons, noteOf?, named, Option.map_some,
      List.filterMap_nil]

theorem IsKept.declare (h : l.IsKept) (path : String) {header : TypeHeader}
    (named : IsWordName header.name) (space? : Option String) {owner? : Option SourceType}
    (known : ∀ owner, owner? = some owner → owner ∈ l.program.types) :
    (l.declare path header space? owner?).IsKept := by
  refine ⟨h.indexed.declareHeader named space? known _ _, ?_⟩
  have place : ∀ declared modifiers t,
      SourceType.SamePlace t (SourceProgram.mergePart declared modifiers t) :=
    fun _ _ _ => ⟨rfl, rfl, rfl, rfl⟩
  simp only [Ledger.declare, SourceProgram.addMarkers, SourceProgram.declare]
  cases found : l.program.get? (declaredType header space? owner?).fullName with
  | none => exact h.record_first found
  | some other => exact h.recorded.trans (update_entries _ _ (place _ _)).symm

theorem Step.kept (h : l.IsKept) (step : Step l l') : l'.IsKept := by
  cases step with
  | declare path named space? known => exact h.declare path named space? known
  | addMembers owner kind modifiers names =>
    refine ⟨h.indexed.addMembers owner kind modifiers names, h.recorded.trans ?_⟩
    refine (update_entries l.program owner (f := fun t => { t with members := _ }) ?_).symm
    exact fun _ => ⟨rfl, rfl, rfl, rfl⟩
  | addMarkers path attributes => exact ⟨h.indexed.addMarkers path none attributes, h.recorded⟩

theorem Run.kept (h : l.IsKept) (run : Run l l') : l'.IsKept := by
  induction run with
  | still => exact h
  | step one _ ih => exact ih (one.kept h)

/-! Taking in declarations is a run of steps. -/

mutual

theorem visitScope_runs (path : String) (space? : Option String) (l : Ledger) (d : Declaration)
    (named : d.IsNamed) : ∃ nested, Run l ⟨l.program.visitScope path space? d, nested⟩ := by
  cases d with
  | namespaceBlock name body =>
    exact visitScopes_runs path (some (SourceProgram.spaceInside space? name)) l body named
  | namespaceLine name => exact ⟨l.nested, .still l⟩
  | assemblyAttributes attributes =>
    exact ⟨l.nested, .step (.addMarkers path attributes) (.still _)⟩
  | type header body =>
    have one : Step l (l.declare path header space? none) := .declare path named.1 space? nofun
    rw [SourceProgram.visitScope]
    split
    · obtain ⟨nested, more⟩ :=
        visitBodies_runs path _ (l.declare path header space? none) body named.2
      exact ⟨nested, .step one more⟩
    · exact ⟨_, .step one (.still _)⟩
  | members kind modifiers names => exact ⟨l.nested, .still l⟩
  | group body => exact visitScopes_runs path space? l body named

theorem visitScopes_runs (path : String) (space? : Option String) (l : Ledger)
    (ds : List Declaration) (named : Declaration.AreNamed ds) :
    ∃ nested, Run l ⟨l.program.visitScopes path space? ds, nested⟩ := by
  cases ds with
  | nil => exact ⟨l.nested, .still l⟩
  | cons d rest =>
    obtain ⟨between, first⟩ := visitScope_runs path space? l d named.1
    obtain ⟨nested, more⟩ :=
      visitScopes_runs path space? ⟨l.program.visitScope path space? d, between⟩ rest named.2
    cases d with
    | namespaceLine name =>
      exact visitScopes_runs path (some (SourceProgram.spaceInside space? name)) l rest named.2
    | namespaceBlock name body => exact ⟨nested, first.trans more⟩
    | assemblyAttributes attributes => exact ⟨nested, first.trans more⟩
    | type header body => exact ⟨nested, first.trans more⟩
    | members kind modifiers names => exact ⟨nested, first.trans more⟩
    | group body => exact ⟨nested, first.trans more⟩

theorem visitBody_runs (path owner : String) (l : Ledger) (d : Declaration) (named : d.IsNamed) :
    ∃ nested, Run l ⟨l.program.visitBody path owner d, nested⟩ := by
  cases d with
  | namespaceBlock name body => exact ⟨l.nested, .still l⟩
  | namespaceLine name => exact ⟨l.nested, .still l⟩
  | assemblyAttributes attributes => exact ⟨l.nested, .still l⟩
  | type header body =>
    have one : Step l (l.declare path header none (l.program.get? owner)) :=
      .declare path named.1 none fun o found => (get?_some found).1
    rw [SourceProgram.visitBody]
    split
    · obtain ⟨nested, more⟩ :=
        visitBodies_runs path _ (l.declare path header none (l.program.get? owner)) body named.2
      exact ⟨nested, .step one more⟩
    · exact ⟨_, .step one (.still _)⟩
  | members kind modifiers names =>
    exact ⟨l.nested, .step (.addMembers owner kind modifiers names) (.still _)⟩
  | group body => exact visitBodies_runs path owner l body named

theorem visitBodies_runs (path owner : String) (l : Ledger) (ds : List Declaration)
    (named : Declaration.AreNamed ds) :
    ∃ nested, Run l ⟨l.program.visitBodies path owner ds, nested⟩ := by
  cases ds with
  | nil => exact ⟨l.nested, .still l⟩
  | cons d rest =>
    obtain ⟨between, first⟩ := visitBody_runs path owner l d named.1
    obtain ⟨nested, more⟩ :=
      visitBodies_runs path owner ⟨l.program.visitBody path owner d, between⟩ rest named.2
    exact ⟨nested, first.trans more⟩

end

theorem addTrees_runs (l : Ledger) (sources : List SourceTree)
    (named : ∀ source ∈ sources, Declaration.AreNamed source.declarations) :
    ∃ nested, Run l ⟨l.program.addTrees sources, nested⟩ := by
  induction sources generalizing l with
  | nil => exact ⟨l.nested, .still l⟩
  | cons source rest ih =>
    rw [List.forall_mem_cons] at named
    obtain ⟨between, first⟩ := visitScopes_runs source.path none l source.declarations named.1
    obtain ⟨nested, more⟩ := ih ⟨_, between⟩ named.2
    exact ⟨nested, first.trans more⟩

/-! What a kept ledger says. -/

theorem IsKept.nestedIn_eq (h : l.IsKept) (owner : String) : l.nestedIn owner =
    (l.program.types.filter fun t => t.ownerName = some owner).map SourceType.fullName := by
  rw [nestedIn, h.recorded]
  induction l.program.types with
  | nil => rfl
  | cons t rest ih =>
    cases named : t.ownerName with
    | none =>
      rw [List.filterMap_cons_none (by rw [noteOf?, named]; rfl), ih,
        List.filter_cons_of_neg (by simp [named])]
    | some around =>
      have own : noteOf? t = some ((around, t.metadataName), t.fullName) := by
        rw [noteOf?, named]
        rfl
      rw [List.filterMap_cons_some own]
      by_cases same : around = owner
      · rw [List.filter_cons_of_pos (by simp [same]), List.map_cons, ih,
          List.filter_cons_of_pos (by simp [named, same]), List.map_cons]
      · rw [List.filter_cons_of_neg (by simp [same]), ih,
          List.filter_cons_of_neg (by simp [named, same])]

theorem IsKept.keys_distinct (h : l.IsKept) : (l.nested.map Prod.fst).Nodup := by
  let spell : String × String → String := fun key => key.1 ++ "+" ++ key.2
  have spelled : ∀ entry ∈ l.nested, (spell ∘ Prod.fst) entry = Prod.snd entry := by
    rw [h.recorded]
    intro entry held
    obtain ⟨t, _, written⟩ := List.mem_filterMap.mp held
    obtain ⟨owner, named, rfl⟩ := Option.map_eq_some_iff.mp written
    exact (SourceType.fullName_of_owner named).symm
  have names : (l.nested.map Prod.snd).Sublist (l.program.types.map SourceType.fullName) := by
    rw [h.recorded]
    induction l.program.types with
    | nil => exact .slnil
    | cons t rest ih =>
      rw [List.filterMap_cons, List.map_cons]
      cases named : t.ownerName with
      | none =>
        simp only [noteOf?, named, Option.map_none]
        exact ih.cons _
      | some owner =>
        simp only [noteOf?, named, Option.map_some, List.map_cons]
        exact ih.cons_cons _
  apply List.Nodup.of_map spell
  rw [List.map_map, List.map_congr_left spelled]
  exact h.indexed.distinct.sublist names

theorem IsKept.mem_nested (h : l.IsKept) (entry : (String × String) × String) :
    entry ∈ l.nested ↔ ∃ owner ∈ l.program.types, ∃ t ∈ l.program.types, t.IsIn owner ∧
      entry = ((owner.fullName, t.metadataName), t.fullName) := by
  rw [h.recorded, List.mem_filterMap]
  constructor
  · rintro ⟨t, held, written⟩
    obtain ⟨around, named, rfl⟩ := Option.map_eq_some_iff.mp written
    rcases h.indexed.owned.owner held with top | ⟨owner, among, inside⟩
    · simp [SourceType.ownerName, top] at named
    · obtain rfl := Option.some.inj (inside.ownerName.symm.trans named)
      exact ⟨owner, among, t, held, inside, rfl⟩
  · rintro ⟨owner, _, t, held, inside, rfl⟩
    exact ⟨t, held, by rw [noteOf?, inside.ownerName]; rfl⟩

end Ledger

namespace SourceProgram

variable {p : SourceProgram}

theorem filter_inside (h : p.IsIndexed) {owner : SourceType} (among : owner ∈ p.types) :
    (p.types.filter fun t => t.ownerName = some owner.fullName) =
      p.types.filter fun t => t.IsIn owner :=
  List.filter_congr fun _ held => decide_eq_decide.mpr (h.ownerName_iff held among)

/-- The views nested in a view are those of the entries inside of its own, in the order of the
index. -/
theorem view_nested (h : p.IsIndexed) {owner : SourceType} (among : owner ∈ p.types) :
    (p.view owner).nested = (p.types.filter fun t => t.IsIn owner).map p.view := by
  have trees : (p.view owner).tree.nested = p.treesIn owner.fullName p.types := rfl
  rw [TypeView.nested, trees, treesIn_eq h, filter_inside h among, List.map_map]
  apply List.map_congr_left
  intro t kept
  exact view_child h among (of_decide_eq_true (List.mem_filter.mp kept).2)

@[simp]
theorem view_nestedError (p : SourceProgram) (t : SourceType) : (p.view t).nestedError = none := by
  rw [TypeView.nestedError, List.findSome?_eq_none_iff]
  exact fun tree among => (treesIn_readable t.fullName p.types tree among).1

theorem reached_from_outermost (h : p.IsIndexed) : ∀ t ∈ p.types, ∃ top,
    p.get? (SourceType.chainName t.space? (t.chain.take 1)) = some top ∧ top.outer = [] ∧
      (p.view top).descentError t.namesBelow = none ∧
      (p.view top).descend t.namesBelow = some (p.view t) := by
  refine h.induct ?_ ?_
  · intro t held top
    have alone : t.chain = [(t.name, t.arity)] := by rw [SourceType.chain, top, List.nil_append]
    have below : t.namesBelow = [] := by rw [SourceType.namesBelow, alone]; rfl
    refine ⟨t, ?_, top, ?_, ?_⟩
    · rw [alone, List.take_succ_cons, List.take_nil, ← alone]
      exact h.get? held
    · rw [below]
      rfl
    · rw [below]
      rfl
  · rintro t held owner among inside ⟨top, first, outermost, readable, found⟩
    have chain : t.chain = owner.chain ++ [(t.name, t.arity)] := by
      rw [SourceType.chain, inside.outer]
    have filled : 1 ≤ owner.chain.length := List.length_pos_iff.mpr owner.chain_ne_nil
    have below : t.namesBelow = owner.namesBelow ++ [t.metadataName] := by
      rw [SourceType.namesBelow, chain, List.drop_append_of_le_length filled, List.map_append]
      rfl
    have distinct : ((p.view owner).nested.map fun v => v.head.metadataName).Nodup := by
      rw [view_nested h among, List.map_map, ← filter_inside h among]
      exact siblings_distinct h among
    refine ⟨top, ?_, outermost, ?_, ?_⟩
    · rw [inside.space, chain, List.take_append_of_le_length filled]
      exact first
    · rw [below]
      exact TypeView.descentError_append found readable (p.view_nestedError owner)
    · rw [below, TypeView.descend_append found]
      refine (find?_key_iff distinct).mpr ⟨?_, rfl⟩
      rw [view_nested h among]
      exact List.mem_map_of_mem (List.mem_filter.mpr ⟨held, decide_eq_true inside⟩)

end SourceProgram

structure Ledger.InStep (l : Ledger) : Prop where
  distinct : (l.program.types.map SourceType.fullName).Nodup
  found : ∀ t ∈ l.program.types,
    l.program.get? t.fullName = some t ∧ (l.program.view t).fullName = t.fullName
  keys : (l.nested.map Prod.fst).Nodup
  recorded : ∀ entry, entry ∈ l.nested ↔
    ∃ owner ∈ l.program.types, ∃ t ∈ l.program.types, t.IsIn owner ∧
      entry = ((owner.fullName, t.metadataName), t.fullName)
  nested : ∀ owner ∈ l.program.types,
    (l.program.view owner).nested =
      (l.program.types.filter fun t => t.IsIn owner).map l.program.view ∧
    l.nestedIn owner.fullName = (l.program.view owner).nested.map TypeView.fullName
  owned : ∀ t ∈ l.program.types, t.outer ≠ [] → ∃ owner ∈ l.program.types, t.IsIn owner
  outermost : ∀ t ∈ l.program.types, t.outer = [] → ∀ owner ∈ l.program.types,
    l.program.view t ∉ (l.program.view owner).nested ∧ t.fullName ∉ l.nestedIn owner.fullName
  reached : ∀ t ∈ l.program.types, ∃ top,
    l.program.get? (SourceType.chainName t.space? (t.chain.take 1)) = some top ∧ top.outer = [] ∧
      (l.program.view top).findNested t.namesBelow = .ok (some (l.program.view t))

namespace Ledger

variable {l : Ledger}

theorem IsKept.inStep (h : l.IsKept) : l.InStep := by
  have indexed := h.indexed
  have names : ∀ owner ∈ l.program.types,
      l.nestedIn owner.fullName = (l.program.view owner).nested.map TypeView.fullName := by
    intro owner among
    rw [h.nestedIn_eq, SourceProgram.view_nested indexed among,
      SourceProgram.filter_inside indexed among, List.map_map]
    apply List.map_congr_left
    intro t kept
    exact (SourceProgram.view_fullName indexed (List.mem_filter.mp kept).1).symm
  constructor
  · exact indexed.distinct
  · exact fun t held => ⟨indexed.get? held, SourceProgram.view_fullName indexed held⟩
  · exact h.keys_distinct
  · exact h.mem_nested
  · exact fun owner among => ⟨SourceProgram.view_nested indexed among, names owner among⟩
  · exact fun t held inside => (indexed.owned.owner held).resolve_left inside
  · intro t held top owner among
    have absent : t.fullName ∉ (l.program.view owner).nested.map TypeView.fullName := by
      rw [← names owner among, h.nestedIn_eq]
      intro recorded
      obtain ⟨other, kept, same⟩ := List.mem_map.mp recorded
      obtain ⟨known, named⟩ := List.mem_filter.mp kept
      obtain rfl := indexed.eq_of_fullName known held same
      simp [SourceType.ownerName, top] at named
    refine ⟨fun inside => absent ?_, names owner among ▸ absent⟩
    exact List.mem_map.mpr ⟨_, inside, SourceProgram.view_fullName indexed held⟩
  · intro t held
    obtain ⟨top, first, outermost, readable, found⟩ :=
      SourceProgram.reached_from_outermost indexed t held
    refine ⟨top, first, outermost, ?_⟩
    rw [TypeView.findNested, readable, found]

end Ledger

namespace SourceProgram

/-- A program that was read has taken in trees of declarations whose types are called by words. -/
theorem IsRead.exists_trees {p : SourceProgram} (read : p.IsRead) :
    ∃ assemblyName sources, p = addTrees { assemblyName } sources ∧
      ∀ source ∈ sources, Declaration.AreNamed source.declarations := by
  induction read with
  | empty assemblyName => exact ⟨assemblyName, [], rfl, fun _ held => absurd held List.not_mem_nil⟩
  | addSource _ text path ih =>
    obtain ⟨assemblyName, sources, rfl, named⟩ := ih
    have words := CSharp.Reader.read_named text
    unfold SourceProgram.addSource
    -- How the declarations were read has no part in what follows.
    generalize CSharp.Reader.read text = declarations at words ⊢
    refine ⟨assemblyName, sources ++ [⟨path, declarations⟩], ?_, ?_⟩
    · simp only [addTrees, List.foldl_append, List.foldl_cons, List.foldl_nil]
    · rw [List.forall_mem_append, List.forall_mem_singleton]
      exact ⟨named, (Declaration.areNamed_iff _).mpr words⟩

/-- Whatever sources a program takes in, as long as words are the names of their types, its index,
what its types record and the nesting of its types are in step; in what is read from texts, words
always are. -/
theorem index_and_nesting_in_step :
    (∀ assemblyName sources, (∀ source ∈ sources, Declaration.AreNamed source.declarations) →
      ∃ nested, Ledger.Run ⟨{ assemblyName }, []⟩ ⟨addTrees { assemblyName } sources, nested⟩ ∧
        Ledger.InStep ⟨addTrees { assemblyName } sources, nested⟩) ∧
    ∀ p : SourceProgram, p.IsRead → ∃ assemblyName nested,
      Ledger.Run ⟨{ assemblyName }, []⟩ ⟨p, nested⟩ ∧ Ledger.InStep ⟨p, nested⟩ := by
  have trees : ∀ assemblyName sources,
      (∀ source ∈ sources, Declaration.AreNamed source.declarations) →
      ∃ nested, Ledger.Run ⟨{ assemblyName }, []⟩ ⟨addTrees { assemblyName } sources, nested⟩ ∧
        Ledger.InStep ⟨addTrees { assemblyName } sources, nested⟩ := by
    intro assemblyName sources named
    obtain ⟨nested, run⟩ := Ledger.addTrees_runs ⟨{ assemblyName }, []⟩ sources named
    have start : Ledger.IsKept ⟨{ assemblyName }, []⟩ := ⟨.empty assemblyName, rfl⟩
    exact ⟨nested, run, (run.kept start).inStep⟩
  refine ⟨trees, fun p read => ?_⟩
  obtain ⟨assemblyName, sources, rfl, named⟩ := read.exists_trees
  exact ⟨assemblyName, trees assemblyName sources named⟩

/-- Parts of types in three files. The second has parts of a type and of one inside of it, and the
third has types of the same names elsewhere. -/
def scatteredParts : List SourceTree :=
  let part (name : String) (parameters : List String) (body : List Declaration) : Declaration :=
    .type { name, kind := .classKind, modifiers := ["partial"], parameters } body
  [⟨"a.cs", [.namespaceBlock "N" [part "C" ["T"] [part "I" [] []]]]⟩,
    ⟨"b.cs", [.namespaceLine "N", part "C" ["U"] [part "I" [] [part "J" [] []], part "J" [] []]]⟩,
    ⟨"c.cs", [part "C" ["T"] [part "I" ["T"] []], part "I" [] []]⟩]

theorem scatteredParts_in_step :
    (addTrees {} scatteredParts).types.map SourceType.fullName =
      ["N.C`1", "N.C`1+I", "N.C`1+I+J", "N.C`1+J", "C`1", "C`1+I`1", "I"] ∧
    ∃ nested, Ledger.Run ⟨{}, []⟩ ⟨addTrees {} scatteredParts, nested⟩ ∧
      Ledger.InStep ⟨addTrees {} scatteredParts, nested⟩ := by
  have named : ∀ source ∈ scatteredParts, Declaration.AreNamed source.declarations := by
    have words {name : String} (letters : name.toList.all CSharp.Token.isWordPart = true) :
        IsWordName name := List.all_eq_true.mp letters
    have c : IsWordName "C" := words rfl
    have i : IsWordName "I" := words rfl
    have j : IsWordName "J" := words rfl
    simp [scatteredParts, Declaration.AreNamed, Declaration.IsNamed, c, i, j]
  refine ⟨?_, index_and_nesting_in_step.1 "Program" scatteredParts named⟩
  decide +kernel

end SourceProgram

end HiddenNames
