import HiddenNames.Proofs.Emission.Binding
import HiddenNames.Proofs.Emission.Emitted
import HiddenNames.Proofs.Files.Written
import HiddenNames.Proofs.Text.Pieces
import Mathlib.Data.List.Nodup

/-!
Whether the files of a pass stand apart. Identities are given away once, so the only file that can
be overwritten is the shared one: its name is not among the identities, and a type called `Core`
outside of all namespaces gets the same name.
-/

namespace HiddenNames

theorem Identifier.flatten_eq_self {name : String} (h : '_' ∉ (flatten name).toList) :
    flatten name = name := by
  have chars : name.toList.map (fun c => if Unicode.isWord c then c else '_') = name.toList := by
    calc name.toList.map (fun c => if Unicode.isWord c then c else '_')
        = name.toList.map id := by
          apply List.map_congr_left
          intro c held
          by_cases word : Unicode.isWord c = true
          · exact if_pos word
          · exfalso
            apply h
            rw [flatten, String.toList_ofList]
            exact List.mem_map.mpr ⟨c, held, if_neg word⟩
      _ = name.toList := List.map_id _
  rw [flatten, chars, String.ofList_toList]

def TypeView.IsGlobal (v : TypeView) (name : String) : Prop :=
  namedSpace v.space? = none ∧ v.chain.map TypeHead.metadataName = [name]

theorem TypeView.identity_eq_core_iff (v : TypeView) :
    v.identity = "Core" ↔ v.IsGlobal "Core" := by
  constructor
  · intro core
    have unmarked : '_' ∉ (Identifier.flatten
        ("_".intercalate (v.spaceParts ++ v.chain.map TypeHead.metadataName))).toList := by
      change '_' ∉ v.identity.toList
      rw [core]
      decide
    have joined : "_".intercalate (v.spaceParts ++ v.chain.map TypeHead.metadataName) = "Core" := by
      rw [← Identifier.flatten_eq_self unmarked]
      exact core
    have chained : v.chain.map TypeHead.metadataName ≠ [] := by
      simp [chain]
    rcases parts : v.spaceParts ++ v.chain.map TypeHead.metadataName with _ | ⟨first, more⟩
    · exact absurd (List.append_eq_nil_iff.mp parts).2 chained
    · cases more with
      | cons second rest =>
        exfalso
        apply unmarked
        rw [Identifier.flatten_eq_self unmarked, parts,
          String.intercalate_cons_of_ne_nil (List.cons_ne_nil _ _)]
        simp
      | nil =>
        rw [parts, String.intercalate_singleton] at joined
        subst joined
        rcases List.append_eq_singleton_iff.mp parts with ⟨spaceless, named⟩ | ⟨_, none⟩
        · refine ⟨?_, named⟩
          cases space : namedSpace v.space? with
          | none => rfl
          | some name =>
            simp only [spaceParts, space, Text.split] at spaceless
            exact absurd (List.map_eq_nil_iff.mp spaceless) (Text.splitAt_ne_nil _ _)
        · exact absurd none chained
  · rintro ⟨spaceless, named⟩
    rw [identity, spaceParts, spaceless, named]
    rfl

theorem core_ne_numbered (name : String) (k : Nat) : Identifier.numbered name k ≠ "Core" := by
  intro core
  have marked : '_' ∈ (Identifier.numbered name k).toList := by simp [Identifier.numbered]
  rw [core] at marked
  revert marked
  decide

theorem Registry.chooseIdentity_eq_core_iff (r : Registry) (identity : String) :
    r.chooseIdentity identity = "Core" ↔ identity = "Core" ∧ "Core" ∉ r.identities := by
  by_cases taken : identity ∈ r.identities
  · rw [chooseIdentity, if_pos taken]
    constructor
    · intro core
      exact absurd core (core_ne_numbered identity _)
    · rintro ⟨rfl, free⟩
      exact absurd taken free
  · rw [chooseIdentity, if_neg taken]
    constructor
    · rintro rfl
      exact ⟨rfl, taken⟩
    · exact And.left

theorem hintName_injective : Function.Injective hintName := by
  intro a b same
  simp only [hintName] at same
  exact (String.append_right_inj _).mp ((String.append_left_inj _).mp same)

theorem hintName_core : hintName "Core" = coreHintName := rfl

theorem hintName_ne_dots (identity : String) : hintName identity ≠ ".." := by
  intro same
  have letter : 'N' ∈ (hintName identity).toList := by simp [hintName]
  rw [same] at letter
  revert letter
  decide

/-! The text of a unit outside of all namespaces is not that of the shared file: behind the same
three lines the one has a comment, the other a namespace. -/

theorem joinLines_cons (first : String) (more : List String) :
    ∃ rest, joinLines (first :: more) = first ++ rest := by
  by_cases alone : more = []
  · rw [alone, joinLines, String.intercalate_singleton]
    exact ⟨"", String.append_empty.symm⟩
  · rw [joinLines, String.intercalate_cons_of_ne_nil alone, String.append_assoc]
    exact ⟨_, rfl⟩

theorem UnitView.body_begins (u : UnitView) : ∃ rest, u.body = "/// <summary>" ++ rest := by
  have wrapper : ∃ more, u.wrapperLines = "/// <summary>" :: more := ⟨_, rfl⟩
  obtain ⟨more, lines⟩ := wrapper
  cases stub : u.stub with
  | nil =>
    rw [body, stub, lines]
    exact joinLines_cons _ more
  | cons level inner =>
    have first : ∃ rest, stubText (level :: inner) = "/// <summary>" ++ rest := joinLines_cons _ _
    obtain ⟨rest, text⟩ := first
    obtain ⟨tail, joined⟩ := joinLines_cons (stubText (level :: inner)) ("" :: u.wrapperLines)
    refine ⟨rest ++ tail, ?_⟩
    rw [← String.append_assoc, ← text, ← joined, body, stub]
    rfl

theorem coreText_begins :
    ∃ rest,
      coreText = "// <auto-generated/>\n#nullable enable\n\n" ++ ("namespace Nameof" ++ rest) := by
  obtain ⟨rest, tail⟩ := joinLines_cons "namespace Nameof" (coreLines.drop 4)
  rw [joinLines] at tail
  refine ⟨rest ++ "\n", ?_⟩
  have lines : coreLines = "// <auto-generated/>" :: "#nullable enable" :: "" ::
      "namespace Nameof" :: coreLines.drop 4 := rfl
  have opening : "// <auto-generated/>\n#nullable enable\n\n" =
      "// <auto-generated/>" ++ "\n" ++ ("#nullable enable" ++ "\n" ++ ("" ++ "\n")) := by decide
  rw [coreText, lines, String.intercalate_cons_of_ne_nil (List.cons_ne_nil _ _),
    String.intercalate_cons_of_ne_nil (List.cons_ne_nil _ _),
    String.intercalate_cons_of_ne_nil (List.cons_ne_nil _ _), tail, opening]
  simp only [String.append_assoc]

theorem append_ne_append_of_head {a b : String} (x y : String)
    (nonempty : a.toList ≠ []) (apart : a.toList.head? ≠ b.toList.head?) (full : b.toList ≠ []) :
    a ++ x ≠ b ++ y := by
  intro same
  have chars := congrArg (fun text => text.toList.head?) same
  simp only [String.toList_append, List.head?_append_of_ne_nil _ nonempty,
    List.head?_append_of_ne_nil _ full] at chars
  exact apart chars

theorem UnitView.text_spaceless {u : UnitView} (spaceless : namedSpace u.space? = none) :
    u.text = "// <auto-generated/>\n#nullable enable\n\n" ++ (u.body ++ "\n") := by
  unfold text
  rw [spaceless]

theorem UnitView.text_ne_core {u : UnitView} (spaceless : namedSpace u.space? = none) :
    u.text ≠ coreText := by
  obtain ⟨rest, begins⟩ := u.body_begins
  obtain ⟨tail, core⟩ := coreText_begins
  rw [text_spaceless spaceless, core, begins, String.append_assoc]
  intro same
  have behind := (String.append_right_inj _).mp same
  exact append_ne_append_of_head _ _ (by decide) (by decide) (by decide) behind

theorem Resolved.unit_space {r : Resolved} {access : Access} {exposure : Exposure}
    {identity? : Option String} {u : UnitView} (h : r.unit access exposure identity? = some u) :
    u.space? = r.view.space? := by
  simp only [unit] at h
  split at h
  · cases h
  · cases h
    rfl

namespace Pass

variable {options : PassOptions} {registry : Registry}

/-- A pass generates the shared file, and a file for a type that takes its name. -/
def CoreOverwritten (registry : Registry) (emitted : List Emitted) : Prop :=
  coreKey ∉ registry.keys ∧ "Core" ∉ registry.identities ∧
    ∃ e ∈ emitted, e.resolved.view.IsGlobal "Core"

/-- The first type called `Core` outside of all namespaces gets that identity while it is free. -/
theorem core_given_iff {stages : List Stage} (quiet : ∀ stage ∈ stages, stage.IsQuiet) :
    (∃ e ∈ emittedAll options registry stages, e.identity = "Core") ↔
      "Core" ∉ registry.identities ∧
        ∃ e ∈ emittedAll options registry stages, e.resolved.view.IsGlobal "Core" := by
  induction stages generalizing registry with
  | nil => simp [emittedAll]
  | cons stage rest ih =>
    rw [List.forall_mem_cons] at quiet
    rcases emission_cases options registry quiet.1 with nothing | ⟨own, something⟩
    · simp only [emittedAll, nothing.emits, nothing.left, Option.toList_none, List.nil_append]
      exact ih quiet.2
    · -- A later type gets the identity only if this one left it free.
      have given : own.identity = "Core" ↔
          own.resolved.view.IsGlobal "Core" ∧ "Core" ∉ registry.identities := by
        rw [something.chosen, Registry.chooseIdentity_eq_core_iff, TypeView.identity_eq_core_iff]
      have later := @ih (synthesizeOne options registry stage).2 quiet.2
      rw [something.left, List.mem_cons, not_or] at later
      simp only [emittedAll, something.emits, Option.toList_some, List.singleton_append,
        List.exists_mem_cons_iff, given, later]
      constructor
      · rintro (⟨isCore, free⟩ | ⟨⟨_, free⟩, found⟩)
        · exact ⟨free, Or.inl isCore⟩
        · exact ⟨free, Or.inr found⟩
      · rintro ⟨free, isCore | found⟩
        · exact Or.inl ⟨isCore, free⟩
        · by_cases own_core : own.identity = "Core"
          · exact Or.inl (given.mp own_core)
          · exact Or.inr ⟨⟨Ne.symm own_core, free⟩, found⟩

theorem units_of_stages {stages : List Stage} (quiet : ∀ stage ∈ stages, stage.IsQuiet)
    (asked : options.emitCore = true) (taken : Registry) :
    (resultOf (coreUnits options registry).1 (synthesizeAll options taken stages).1).units =
      (if coreKey ∉ registry.keys then [⟨coreHintName, coreText, "Nameof", none⟩] else []) ++
        (emittedAll options taken stages).map (Emitted.file options) := by
  rw [resultOf, coreUnits_eq, synthesizeAll_units quiet]
  simp only [asked, true_and]

theorem source_ne_core {stages : List Stage} (quiet : ∀ stage ∈ stages, stage.IsQuiet)
    {e : Emitted} (held : e ∈ emittedAll options registry stages) (core : e.identity = "Core") :
    (e.file options).source ≠ coreText := by
  obtain ⟨before, _, _, something⟩ := mem_emittedAll quiet held
  have chosen := something.chosen
  have asked := (before.chooseIdentity_eq_core_iff e.resolved.view.identity).mp (chosen ▸ core)
  have global := (TypeView.identity_eq_core_iff e.resolved.view).mp asked.1
  obtain ⟨view, built, _⟩ := something.viewed
  have spaceless : namedSpace view.space? = none := by
    rw [Resolved.unit_space built]
    exact global.1
  rw [Emitted.file_source built]
  exact UnitView.text_ne_core spaceless

end Pass

theorem Disk.read_unit {disk later : Disk} {folder : Path} {unit : EmissionUnit}
    {before rest : List EmissionUnit} (plain : ∀ u ∈ unit :: rest, u.hintName ≠ "..")
    (fresh : unit.hintName ∉ rest.map EmissionUnit.hintName)
    (h : disk.writeFiles ((before ++ unit :: rest).map fun u =>
      (folder.child u.hintName, u.source)) = .ok later) :
    later.read? (folder.child unit.hintName) = some unit.source.toUTF8 := by
  let named : EmissionUnit → String × String := fun u => (u.hintName, u.source)
  have files : (before ++ unit :: rest).map (fun u => (folder.child u.hintName, u.source)) =
      (before.map named ++ named unit :: rest.map named).map fun file =>
        (folder.child file.1, file.2) := by
    rw [← List.map_cons, ← List.map_append, List.map_map]
    rfl
  rw [files] at h
  apply read_last _ (plain unit List.mem_cons_self) _ h
  · intro file held
    obtain ⟨u, inside, rfl⟩ := List.mem_map.mp held
    exact plain u (List.mem_cons_of_mem unit inside)
  · rw [List.map_map]
    exact fresh

theorem Disk.read_all_units {disk later : Disk} {folder : Path} {units : List EmissionUnit}
    (plain : ∀ u ∈ units, u.hintName ≠ "..")
    (distinct : (units.map EmissionUnit.hintName).Nodup)
    (h : disk.writeFiles (units.map fun u => (folder.child u.hintName, u.source)) = .ok later) :
    ∀ unit ∈ units, later.read? (folder.child unit.hintName) = some unit.source.toUTF8 := by
  intro unit held
  obtain ⟨before, rest, rfl⟩ := List.append_of_mem held
  apply read_unit _ _ h
  · intro u inside
    exact plain u (List.mem_append_right before inside)
  · rw [List.map_append, List.map_cons] at distinct
    exact (List.nodup_cons.mp distinct.of_append_right).1

structure PassResult.StandsApartUnless (result : PassResult) (overwritten : Prop) : Prop where
  distinct : (result.units.map EmissionUnit.hintName).Nodup ↔ ¬overwritten
  kept : ∀ (disk : Disk) (folder : Path), (CommandLine.emit disk folder result).fault? = none →
    ∃ later, disk.after (CommandLine.emit disk folder result) = .ok later ∧
      ((∀ unit ∈ result.units,
        later.read? (folder.child unit.hintName) = some unit.source.toUTF8) ↔ ¬overwritten)

namespace Pass

variable {options : PassOptions} {registry : Registry}

/-- Whether the units that follow the shared file have names of their own. -/
theorem names_distinct_iff {emitted : List Emitted} (fresh : (emitted.map Emitted.identity).Nodup)
    (core : List EmissionUnit) (coreOnly : core.map EmissionUnit.hintName = [coreHintName]) :
    ((core ++ emitted.map (Emitted.file options)).map EmissionUnit.hintName).Nodup ↔
      ¬∃ e ∈ emitted, e.identity = "Core" := by
  have names : (emitted.map (Emitted.file options)).map EmissionUnit.hintName =
      (emitted.map Emitted.identity).map hintName := by
    rw [List.map_map, List.map_map]
    rfl
  have distinct := fresh.map hintName_injective
  rw [List.map_append, coreOnly, names, List.singleton_append, List.nodup_cons]
  simp only [distinct, and_true, ← hintName_core, List.mem_map_of_injective hintName_injective,
    List.mem_map]

theorem names_plain (core : List EmissionUnit)
    (coreOnly : core.map EmissionUnit.hintName ⊆ [coreHintName]) (emitted : List Emitted) :
    ∀ u ∈ core ++ emitted.map (Emitted.file options), u.hintName ≠ ".." := by
  intro u held
  rcases List.mem_append.mp held with shared | own
  · have name := coreOnly (List.mem_map_of_mem shared)
    rw [List.mem_singleton.mp name, ← hintName_core]
    exact hintName_ne_dots "Core"
  · obtain ⟨e, _, rfl⟩ := List.mem_map.mp own
    exact hintName_ne_dots e.identity

theorem core_lost {stages : List Stage} (quiet : ∀ stage ∈ stages, stage.IsQuiet)
    {e : Emitted} (held : e ∈ emittedAll options registry stages) (core : e.identity = "Core")
    {disk later : Disk} {folder : Path} (shared : List EmissionUnit)
    (h : disk.writeFiles ((shared ++ (emittedAll options registry stages).map
      (Emitted.file options)).map fun u => (folder.child u.hintName, u.source)) = .ok later) :
    later.read? (folder.child coreHintName) ≠ some coreText.toUTF8 := by
  have fresh : ((emittedAll options registry stages).map Emitted.identity).Nodup :=
    (emittedAll_fresh quiet).1
  have other := source_ne_core quiet held core
  obtain ⟨before, rest, split⟩ := List.append_of_mem held
  rw [split, List.map_append, List.map_cons] at fresh
  have units : shared ++ (emittedAll options registry stages).map (Emitted.file options) =
      (shared ++ before.map (Emitted.file options)) ++
        e.file options :: rest.map (Emitted.file options) := by
    rw [split, List.map_append, List.map_cons, List.append_assoc]
  rw [units] at h
  have name : (e.file options).hintName = coreHintName := by
    rw [← hintName_core, ← core]
    rfl
  have last : later.read? (folder.child (e.file options).hintName) =
      some (e.file options).source.toUTF8 := by
    apply Disk.read_unit _ _ h
    · rw [← List.map_cons]
      exact names_plain [] (List.nil_subset _) (e :: rest)
    · intro again
      rw [List.map_map] at again
      obtain ⟨later, inside, same⟩ := List.mem_map.mp again
      apply (List.nodup_cons.mp fresh.of_append_right).1
      rw [← hintName_injective same]
      exact List.mem_map_of_mem inside
  rw [← name, last]
  intro same
  exact other (String.toByteArray_inj.mp (Option.some.inj same))

theorem stands_apart_unless {stages : List Stage} (quiet : ∀ stage ∈ stages, stage.IsQuiet)
    (asked : options.emitCore = true) {taken : Registry}
    (same : taken.identities = registry.identities) :
    (resultOf (coreUnits options registry).1
      (synthesizeAll options taken stages).1).StandsApartUnless
        (CoreOverwritten registry (emittedAll options taken stages)) := by
  have units := @units_of_stages options registry stages quiet asked taken
  have given := @core_given_iff options taken stages quiet
  rw [same] at given
  have fresh : ((emittedAll options taken stages).map Emitted.identity).Nodup :=
    (emittedAll_fresh quiet).1
  generalize resultOf (coreUnits options registry).1 (synthesizeAll options taken stages).1 = result
    at units ⊢
  have overwritten : CoreOverwritten registry (emittedAll options taken stages) ↔
      coreKey ∉ registry.keys ∧ ∃ e ∈ emittedAll options taken stages, e.identity = "Core" := by
    rw [CoreOverwritten, ← given]
  have distinct : (result.units.map EmissionUnit.hintName).Nodup ↔
      ¬CoreOverwritten registry (emittedAll options taken stages) := by
    rw [units, overwritten]
    by_cases free : coreKey ∉ registry.keys
    · rw [if_pos free, names_distinct_iff fresh _ rfl]
      simp only [free, not_false_eq_true, true_and]
    · rw [if_neg free, List.nil_append, List.map_map]
      have names := fresh.map hintName_injective
      rw [List.map_map] at names
      exact iff_of_true names (fun h => free h.1)
  refine ⟨distinct, fun disk folder written => ?_⟩
  obtain ⟨ready, later, after, files⟩ := CommandLine.emit_ok written
  refine ⟨later, after, fun kept lost => ?_, fun apart => ?_⟩
  · obtain ⟨free, e, held, core⟩ := overwritten.mp lost
    rw [units, if_pos free] at kept
    rw [CommandLine.filesOf, units] at files
    exact core_lost quiet held core _ files (kept _ (List.mem_append_left _ List.mem_cons_self))
  · have plain : ∀ u ∈ result.units, u.hintName ≠ ".." := by
      rw [units]
      apply names_plain
      split
      · exact List.Subset.refl _
      · exact List.nil_subset _
    exact Disk.read_all_units plain (distinct.mpr apart) files

variable {σ : Type} (b : Backend σ)

@[simp]
theorem coreUnits_identities (options : PassOptions) (registry : Registry) :
    (coreUnits options registry).2.identities = registry.identities := by
  have left := registry.claim_identities coreKey
  by_cases asked : options.emitCore = true
  · rcases claimed : registry.claim coreKey with ⟨_ | _, next⟩ <;>
      simpa only [coreUnits, if_pos asked, claimed] using left
  · rw [coreUnits, if_neg asked]

structure UnitsApart (options : PassOptions) (registry : Registry) (result : PassResult)
    (emitted : List Emitted) : Prop where
  units : result.units =
    (coreUnits options registry).1 ++ emitted.map (Emitted.file options)
  apart : result.StandsApartUnless (CoreOverwritten registry emitted)

theorem units_apart {stages : List Stage} (quiet : ∀ stage ∈ stages, stage.IsQuiet)
    (asked : options.emitCore = true) {taken : Registry}
    (same : taken.identities = registry.identities) :
    UnitsApart options registry
      (resultOf (coreUnits options registry).1 (synthesizeAll options taken stages).1)
      (emittedAll options taken stages) := by
  refine ⟨?_, stands_apart_unless quiet asked same⟩
  rw [resultOf, synthesizeAll_units quiet]

/-- A pass that generates the shared file gives names of their own to all units, and writing them
keeps them all, unless a type called `Core` outside of all namespaces is the first to ask for the
identity `Core`: it takes the name of the shared file. The order in which targets are resolved has
no part in that. -/
theorem units_stand_apart_iff (options : PassOptions) (asked : options.emitCore = true)
    (registry : Registry) (s : σ) (requests : List Request) :
    UnitsApart options registry (run b options registry s requests).1
      (emitted b options registry s requests) ∧
    ∀ schedule : List (Nat × Target) → List (Nat × Target),
      UnitsApart options registry (runScheduled b options schedule registry s requests).1
        (emittedScheduled b options schedule registry s requests) := by
  have same : (bindAll b (coreUnits options registry).2 s requests).2.1.identities =
      registry.identities := by simp
  have quiet := bindAll_quiet b (coreUnits options registry).2 s requests
  constructor
  · exact units_apart (resolveAll_quiet b _ quiet) asked same
  · intro schedule
    exact units_apart (settle_quiet _ 0 quiet) asked same

def coreClass : SourceType where
  name := "Core"
  kind := .classKind
  visibility := .pub
  members := [{ name := "count", kind := .field, visibility := .priv }]

def beside (types : List SourceType) : Resolver where
  program := { types }
  world :=
    { disk := { working := [], entries := .ofList [] },
      decode := fun path _ => .error (.unreadable path),
      modules := fun _ => none }

theorem units_of_core_class_stand_apart_iff :
    ({} : PassOptions).emitCore = true ∧
    UnitsApart {} {} (run (beside [coreClass]).backend {} {} {} [.direct coreClass.ref]).1
      (emitted (beside [coreClass]).backend {} {} {} [.direct coreClass.ref]) :=
  ⟨rfl, (units_stand_apart_iff (beside [coreClass]).backend {} rfl {} {}
    [.direct coreClass.ref]).1⟩

/-- The unit of the class has the name of the shared file. -/
theorem core_class_overwrites_core :
    ({} : PassOptions).emitCore = true ∧
    ¬((run (beside [coreClass]).backend {} {} {} [.direct coreClass.ref]).1.units.map
      EmissionUnit.hintName).Nodup := by
  decide +kernel

end Pass

end HiddenNames
