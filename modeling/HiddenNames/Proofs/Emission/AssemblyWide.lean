import HiddenNames.Proofs.Emission.Binding
import HiddenNames.Proofs.Emission.Emitted
import HiddenNames.Proofs.Emission.Schedule
import HiddenNames.Proofs.Resolution.Sources
import HiddenNames.Proofs.Source.Shown

/-!
Markers on the whole assembly. Each request of a program with plain markers is bound to the type
that it was made for, the first request for a type is the only one that is kept, and the sources
describe the type. So a first pass generates one file for every type that has something to show, and
no more.
-/

namespace HiddenNames


namespace Pass

variable {r : Resolver} {options : PassOptions}

def boundTypes : List Progress → List SourceType
  | [] => []
  | .finished _ :: rest => boundTypes rest
  | .bound _ target :: rest => target.source?.toList ++ boundTypes rest

def AllSources (p : SourceProgram) (progress : List Progress) : Prop :=
  ∀ request target, .bound request target ∈ progress → ∃ t ∈ p.types, target.source? = some t

theorem AllSources.tail {p : SourceProgram} {first : Progress} {rest : List Progress}
    (h : AllSources p (first :: rest)) : AllSources p rest :=
  fun request target among => h request target (List.mem_cons_of_mem first among)

theorem boundTypes_known {p : SourceProgram} {progress : List Progress}
    (h : AllSources p progress) : ∀ t ∈ boundTypes progress, t ∈ p.types := by
  induction progress with
  | nil => exact fun _ held => absurd held List.not_mem_nil
  | cons first rest ih =>
    intro t among
    cases first with
    | finished outcome => exact ih h.tail t among
    | bound request target =>
      obtain ⟨own, held, found⟩ := h request target List.mem_cons_self
      rw [boundTypes, found] at among
      rcases List.mem_cons.mp among with rfl | later
      · exact held
      · exact ih h.tail t later

structure BindsTypes (r : Resolver) (registry : Registry) (requests : List Request)
    (progress : List Progress) : Prop where
  sources : AllSources r.program progress
  distinct : (boundTypes progress).Nodup
  bound : ∀ t ∈ r.program.types, t ∈ boundTypes progress ↔
    r.typeKey t ∉ registry.keys ∧ ∃ request ∈ requests, r.program.AsksFor request t

theorem bindOne_type (distinct : (r.program.types.map SourceType.path).Nodup) {t : SourceType}
    {request : Request} (asks : r.program.AsksFor request t) (registry : Registry) (s : Session) :
    bindOne r.backend registry s request =
      (if r.typeKey t ∈ registry.keys then .finished (duplicate request (r.sourceTarget request t))
        else .bound request (r.sourceTarget request t),
      (registry.claim (r.typeKey t)).2, s) := by
  have bound := Resolver.bind_ref distinct asks s
  have named : unsupportedName? request = none := by
    obtain ⟨_, access, rfl⟩ := asks
    rfl
  have key : (r.sourceTarget request t).key = r.typeKey t := rfl
  by_cases taken : r.typeKey t ∈ registry.keys
  · simp only [bindOne, named, bound, key, Registry.claim_of_taken taken, if_pos taken]
  · simp only [bindOne, named, bound, key, Registry.claim_of_free taken, if_neg taken]

theorem bindAll_types (indexed : r.program.IsIndexed)
    (distinct : (r.program.types.map SourceType.path).Nodup) {requests : List Request}
    (asks : ∀ request ∈ requests, ∃ t, r.program.AsksFor request t) (registry : Registry)
    (s : Session) :
    BindsTypes r registry requests (bindAll r.backend registry s requests).1 := by
  induction requests generalizing registry with
  | nil =>
    refine ⟨fun _ _ among => absurd among List.not_mem_nil, List.nodup_nil, fun t held => ?_⟩
    refine iff_of_false List.not_mem_nil ?_
    rintro ⟨_, request, among, _⟩
    cases among
  | cons request rest ih =>
    rw [List.forall_mem_cons] at asks
    obtain ⟨⟨t, asked⟩, others⟩ := asks
    obtain ⟨held, access, rfl⟩ := id asked
    have first := bindOne_type distinct asked registry s
    -- A request asks for one type only, so a taken key tells of this type and of no other.
    have only : ∀ {t'}, r.program.AsksFor (Request.direct t.ref access) t' → t' = t := by
      rintro t' ⟨held', access', same⟩
      injection same with subject
      injection subject with ref
      exact SourceProgram.eq_of_ref distinct held' held ref.symm
    by_cases taken : r.typeKey t ∈ registry.keys
    · rw [if_pos taken, Registry.claim_of_taken taken] at first
      have later := ih others registry
      simp only [bindAll, first]
      refine ⟨fun asking target among => ?_, later.distinct, fun t' held' => ?_⟩
      · rcases List.mem_cons.mp among with same | among
        · cases same
        · exact later.sources asking target among
      · refine (later.bound t' held').trans (and_congr_right fun free => ?_)
        rw [List.exists_mem_cons_iff]
        refine (or_iff_right fun own => ?_).symm
        exact free (only own ▸ taken)
    · rw [if_neg taken, Registry.claim_of_free taken] at first
      have later := ih others { registry with keys := r.typeKey t :: registry.keys }
      simp only [bindAll, first]
      refine ⟨fun asking target among => ?_, ?_, fun t' held' => ?_⟩
      · rcases List.mem_cons.mp among with same | among
        · cases same
          exact ⟨t, held, rfl⟩
        · exact later.sources asking target among
      · refine List.nodup_cons.mpr ⟨fun again => ?_, later.distinct⟩
        exact ((later.bound t held).mp again).1 List.mem_cons_self
      · change t' ∈ t :: boundTypes _ ↔ _
        rw [List.mem_cons, later.bound t' held', List.exists_mem_cons_iff, List.mem_cons, not_or]
        constructor
        · rintro (rfl | ⟨⟨_, free⟩, asking⟩)
          · exact ⟨taken, Or.inl asked⟩
          · exact ⟨free, Or.inr asking⟩
        · rintro ⟨free, own | asking⟩
          · exact Or.inl (only own)
          · by_cases same : t' = t
            · exact Or.inl same
            · refine Or.inr ⟨⟨fun key => same ?_, free⟩, asking⟩
              exact Resolver.typeKey_injective indexed held' held key

theorem resolveAll_sources (sources : r.tiers.head? = some .static) {progress : List Progress}
    (h : AllSources r.program progress) (s : Session) :
    resolveAll r.backend s progress = (progress.map (stageOf r.program.answer), s) := by
  induction progress with
  | nil => rfl
  | cons first rest ih =>
    have others := ih h.tail
    cases first with
    | finished outcome => simp only [resolveAll, others, List.map_cons, stageOf]
    | bound request target =>
      obtain ⟨t, _, found⟩ := h request target List.mem_cons_self
      have here := Resolver.resolve_source sources found s
      simp only [resolveAll, here, others, List.map_cons, stageOf]

theorem resolveEach_sources (sources : r.tiers.head? = some .static) {jobs : List (Nat × Target)}
    (known : ∀ job ∈ jobs, ∃ t ∈ r.program.types, job.2.source? = some t) (s : Session) :
    resolveEach r.backend s jobs =
      (jobs.map fun job => (job.1, r.program.answer job.2), s) := by
  induction jobs with
  | nil => rfl
  | cons job rest ih =>
    rw [List.forall_mem_cons] at known
    obtain ⟨⟨t, _, found⟩, others⟩ := known
    have here := Resolver.resolve_source sources found s
    simp only [resolveEach, here, ih others, List.map_cons]

/-- In whatever order the targets are taken up, the sources answer for them. -/
theorem settle_sources (sources : r.tiers.head? = some .static) {progress : List Progress}
    (h : AllSources r.program progress) {schedule : List (Nat × Target) → List (Nat × Target)}
    (fair : ∀ jobs, (schedule jobs).Perm jobs) (s : Session) :
    settle (resolveEach r.backend s (schedule (waiting 0 progress))).1 0 progress =
      progress.map (stageOf r.program.answer) := by
  have known : ∀ job ∈ schedule (waiting 0 progress),
      ∃ t ∈ r.program.types, job.2.source? = some t := by
    intro job taken
    obtain ⟨_, request, found, _⟩ := mem_waiting_iff.mp ((fair _).mem_iff.mp taken)
    exact h request job.2 (List.mem_of_getElem? found)
  rw [resolveEach_sources sources known s, settle_scheduled (fair _)]

/-- Generation emits a described type when it can be named and has something to show. -/
theorem emittedOne_described {p : SourceProgram} (indexed : p.IsIndexed) {t : SourceType}
    (held : t ∈ p.types) (options : PassOptions) (registry : Registry) (request : Request)
    (target : Target) :
    (emittedOne options registry
        (.resolved request target (.ok (some (p.described t))))).map Emitted.resolved =
      if p.IsOpen t ∧ p.HasHiddenNames t then some (p.described t) else none := by
  have exposed := SourceProgram.isExposed_iff indexed t held
  have refusal : ((p.described t).view.inSource && !(p.described t).view.isExposed) =
      !(p.view t).isExposed := rfl
  by_cases isOpen : p.IsOpen t
  · have named : ¬((p.described t).view.inSource && !(p.described t).view.isExposed) = true := by
      rw [refusal, exposed.mpr isOpen]
      exact Bool.false_ne_true
    have readable : (p.described t).view.tree.walkError = none := p.view_walkError t
    have shown := SourceProgram.unit_isSome_iff indexed held isOpen
      (request.access.getD options.access) options.exposure (some (p.described t).view.identity)
    cases text : (p.described t).render (request.access.getD options.access) options.exposure
        (some (p.described t).view.identity) with
    | none =>
      rw [Option.map_eq_none_iff.mp text] at shown
      rw [if_neg fun both => Bool.false_ne_true (shown.mpr both.2)]
      simp only [emittedOne, synthesizeOne, if_neg named, emit, readable, text, Option.isSome_none,
        Bool.false_eq_true, if_false, Option.map_none]
    | some source =>
      obtain ⟨view, built, _⟩ := Option.map_eq_some_iff.mp text
      rw [built] at shown
      rw [if_pos ⟨isOpen, shown.mp rfl⟩]
      simp only [emittedOne, synthesizeOne, if_neg named, emit, readable, text, Option.isSome_some,
        if_true, Option.map_some]
  · have refused : ((p.described t).view.inSource && !(p.described t).view.isExposed) = true := by
      rw [refusal, Bool.eq_false_iff.mpr fun h => isOpen (exposed.mp h)]
      rfl
    rw [if_neg fun both => isOpen both.1]
    simp only [emittedOne, synthesizeOne, if_pos refused, inaccessible, outcomeOf,
      Option.isSome_none, Bool.false_eq_true, if_false, Option.map_none]

def shownTypes (p : SourceProgram) (progress : List Progress) : List SourceType :=
  (boundTypes progress).filter fun t => p.IsOpen t ∧ p.HasHiddenNames t

theorem mem_shownTypes {p : SourceProgram} {progress : List Progress} {t : SourceType} :
    t ∈ shownTypes p progress ↔ t ∈ boundTypes progress ∧ p.IsOpen t ∧ p.HasHiddenNames t := by
  rw [shownTypes, List.mem_filter, decide_eq_true_eq]

theorem emittedAll_sources (indexed : r.program.IsIndexed) {progress : List Progress}
    (h : AllSources r.program progress) (options : PassOptions) (registry : Registry) :
    (emittedAll options registry (progress.map (stageOf r.program.answer))).map
        Emitted.resolved =
      (shownTypes r.program progress).map r.program.described := by
  induction progress generalizing registry with
  | nil => rfl
  | cons first rest ih =>
    rw [List.map_cons, emittedAll, List.map_append, ih h.tail]
    cases first with
    | finished outcome => rfl
    | bound request target =>
      obtain ⟨t, held, found⟩ := h request target List.mem_cons_self
      have stage : stageOf r.program.answer (.bound request target) =
          .resolved request target (.ok (some (r.program.described t))) := by
        rw [stageOf, SourceProgram.answer, found]
        rfl
      have types : boundTypes (.bound request target :: rest) = t :: boundTypes rest := by
        rw [boundTypes, found]
        rfl
      have here := emittedOne_described indexed held options registry request target
      rw [← stage] at here
      rw [← Option.toList_map, here, shownTypes, shownTypes, types]
      by_cases shown : r.program.IsOpen t ∧ r.program.HasHiddenNames t
      · rw [if_pos shown, List.filter_cons_of_pos (by simpa using shown)]
        rfl
      · rw [if_neg shown, List.filter_cons_of_neg (by simpa using shown)]
        rfl

theorem first_pass_free (r : Resolver) (options : PassOptions) (t : SourceType) :
    r.typeKey t ∉ (coreUnits options {}).2.keys := by
  have core : (coreUnits options {}).2.keys ⊆ [coreKey] := by
    cases asked : options.emitCore with
    | true => simp [coreUnits, asked, Registry.claim]
    | false => simp [coreUnits, asked]
  intro taken
  exact r.typeKey_ne_core t (List.mem_singleton.mp (core taken))

/-- The files of a pass are those of types of the program, and each class or structure that can be
named has one file if it has something to show, and none otherwise. -/
structure MissesNothing (p : SourceProgram) (options : PassOptions) (result : PassResult)
    (emitted : List Emitted) : Prop where
  units : result.units = (coreUnits options {}).1 ++ emitted.map (Emitted.file options)
  viewed : ∀ e ∈ emitted, ∃ view, e.view? options = some view ∧
    (e.file options).source = view.text
  sources : ∀ e ∈ emitted, ∃ t ∈ p.types, e.resolved = p.described t
  once : ∀ t ∈ p.types, (t.kind = .classKind ∨ t.kind = .structKind) → p.IsOpen t →
    (emitted.map fun e => e.resolved.view.fullName).count t.fullName =
      if p.HasHiddenNames t then 1 else 0

theorem count_described {p : SourceProgram} (indexed : p.IsIndexed) {types : List SourceType}
    (known : ∀ t ∈ types, t ∈ p.types) (distinct : types.Nodup) {t : SourceType}
    (held : t ∈ p.types) :
    ((types.map p.described).map fun resolved => resolved.view.fullName).count t.fullName =
      if t ∈ types then 1 else 0 := by
  have names : ((types.map p.described).map fun resolved => resolved.view.fullName) =
      types.map SourceType.fullName := by
    rw [List.map_map]
    exact List.map_congr_left fun other among =>
      SourceProgram.view_fullName indexed (known other among)
  have fresh : (types.map SourceType.fullName).Nodup :=
    distinct.map_on fun a inside b inside' same =>
      indexed.eq_of_fullName (known a inside) (known b inside') same
  rw [names]
  by_cases among : t ∈ types
  · rw [if_pos among]
    exact List.count_eq_one_of_mem fresh (List.mem_map_of_mem among)
  · rw [if_neg among]
    apply List.count_eq_zero.mpr
    intro found
    obtain ⟨other, inside, same⟩ := List.mem_map.mp found
    exact among (indexed.eq_of_fullName (known other inside) held same ▸ inside)

/-- The stages of a first pass over the requests of a program with a marker on the assembly. -/
theorem stages_miss_nothing (indexed : r.program.IsIndexed) (options : PassOptions)
    {requests : List Request} {progress : List Progress} (quiet : ∀ p ∈ progress, p.IsQuiet)
    (bound : BindsTypes r (coreUnits options {}).2 requests progress)
    (asked : ∀ t ∈ r.program.types, Marker.isEnabled r.program t = true →
      ∃ request ∈ requests, r.program.AsksFor request t) (registry : Registry) :
    MissesNothing r.program options
      (resultOf (coreUnits options {}).1 (synthesizeAll options registry
        (progress.map (stageOf r.program.answer))).1)
      (emittedAll options registry (progress.map (stageOf r.program.answer))) := by
  have stagesQuiet : ∀ stage ∈ progress.map (stageOf r.program.answer), stage.IsQuiet := by
    intro stage held
    obtain ⟨p, among, rfl⟩ := List.mem_map.mp held
    cases p with
    | finished outcome => exact quiet _ among
    | bound request target => trivial
  have shown := emittedAll_sources indexed bound.sources options registry
  have known : ∀ t ∈ shownTypes r.program progress, t ∈ r.program.types :=
    fun t among => boundTypes_known bound.sources t (mem_shownTypes.mp among).1
  have distinct : (shownTypes r.program progress).Nodup := bound.distinct.filter _
  constructor
  case units => rw [resultOf, synthesizeAll_units stagesQuiet]
  case viewed =>
    intro e held
    obtain ⟨view, built, _⟩ := emittedAll_viewed stagesQuiet e held
    exact ⟨view, built, Emitted.file_source built⟩
  case sources =>
    intro e held
    have among := List.mem_map_of_mem (f := Emitted.resolved) held
    rw [shown] at among
    obtain ⟨t, inside, same⟩ := List.mem_map.mp among
    exact ⟨t, known t inside, same.symm⟩
  case once =>
    intro t held sort isOpen
    have exposed := (SourceProgram.isExposed_iff indexed t held).mpr isOpen
    have enabled : Marker.isEnabled r.program t = true := by
      rw [Marker.isEnabled, exposed, Bool.and_true, Bool.or_eq_true, decide_eq_true_eq,
        decide_eq_true_eq]
      exact sort
    have free := first_pass_free r options t
    have among := (bound.bound t held).mpr ⟨free, asked t held enabled⟩
    have count := count_described indexed known distinct held
    rw [← shown, List.map_map] at count
    refine count.trans (if_congr ?_ rfl rfl)
    rw [mem_shownTypes]
    exact ⟨fun h => h.2.2, fun h => ⟨among, isOpen, h⟩⟩

/-- Markers that say nothing but an access, one of them on the assembly, miss nothing and repeat
nothing: whatever order the targets are taken up in. -/
theorem assembly_markers_miss_nothing (r : Resolver) (read : r.program.IsRead)
    (distinct : (r.program.types.map SourceType.path).Nodup)
    (plain : r.program.HasPlainMarkers)
    (assembly : ∃ m ∈ r.program.markers, m.declared? = none ∧ m.SaysAccess)
    (sources : r.tiers.head? = some .static) (options : PassOptions) (s : Session) :
    ∃ requests, Marker.collect r.program [] = .ok requests ∧
      MissesNothing r.program options (run r.backend options {} s requests).1
        (emitted r.backend options {} s requests) ∧
      ∀ schedule : List (Nat × Target) → List (Nat × Target),
        (∀ jobs, (schedule jobs).Perm jobs) →
        MissesNothing r.program options (runScheduled r.backend options schedule {} s requests).1
          (emittedScheduled r.backend options schedule {} s requests) := by
  have indexed := read.indexed
  have bound := bindAll_types indexed distinct
    (fun request => Marker.asksFor_of_sourceRequests plain) (coreUnits options {}).2 s
  have asked : ∀ t ∈ r.program.types, Marker.isEnabled r.program t = true →
      ∃ request ∈ Marker.sourceRequests r.program, r.program.AsksFor request t :=
    fun t held enabled => Marker.asked_of_assembly assembly held enabled
  have quiet := bindAll_quiet r.backend (coreUnits options {}).2 s (Marker.sourceRequests r.program)
  have whole := stages_miss_nothing indexed options quiet bound asked
  refine ⟨Marker.sourceRequests r.program, Marker.collect_nil r.program, ?_, ?_⟩
  · rw [run, emitted]
    simp only [resolveAll_sources sources bound.sources]
    exact whole _
  · intro schedule fair
    rw [runScheduled, emittedScheduled]
    simp only [settle_sources sources bound.sources fair]
    exact whole _

/-- Two classes, only one of which has something to show, and a marker on the assembly. -/
def markedAssembly : SourceProgram :=
  ({} : SourceProgram).addSource
    "[assembly: GenerateNameof] public class A { int x; } public class B { }" "a.cs"

def shownClass : SourceType where
  name := "A"
  kind := .classKind
  visibility := .pub
  members := [{ name := "x", kind := .field, visibility := .priv }]

def bareClass : SourceType where
  name := "B"
  kind := .classKind
  visibility := .pub

theorem markedAssembly_markers :
    markedAssembly.markers = [⟨"GenerateNameof", none, "a.cs", 1⟩] := by
  decide +kernel

theorem markedAssembly_types : markedAssembly.types = [shownClass, bareClass] := by
  decide +kernel

theorem bare_marker : SourceMarker.SaysAccess ⟨"GenerateNameof", none, "a.cs", 1⟩ := by
  have written : ∃ attr, Marker.Attribute.parse? "GenerateNameof" = some attr ∧
      (attr.typeArguments.isEmpty && attr.arguments.isEmpty) = true := by
    rw [← Option.any_eq_true]
    decide +kernel
  obtain ⟨attr, parsed, empty⟩ := written
  rw [Bool.and_eq_true, List.isEmpty_iff, List.isEmpty_iff] at empty
  refine ⟨by decide +kernel, attr, parsed, empty.1, ?_⟩
  rw [empty.2]
  exact fun _ held => absurd held List.not_mem_nil

theorem marked_assembly_shows_one_class :
    let r := Resolver.alone markedAssembly
    ∃ requests, Marker.collect r.program [] = .ok requests ∧
      let names := (emitted r.backend {} {} {} requests).map fun e => e.resolved.view.fullName
      names.count shownClass.fullName = 1 ∧ names.count bareClass.fullName = 0 := by
  intro r
  have program : r.program = markedAssembly := Resolver.alone_program markedAssembly
  have read : r.program.IsRead := by
    rw [program]
    exact .addSource (.empty "Program") _ _
  have apart : (r.program.types.map SourceType.path).Nodup := by
    rw [program, markedAssembly_types]
    decide +kernel
  have plain : ∀ m ∈ r.program.markers, m.SaysAccess := by
    rw [program, markedAssembly_markers]
    intro m held
    obtain rfl := List.mem_singleton.mp held
    exact bare_marker
  have assembly : ∃ m ∈ r.program.markers, m.declared? = none ∧ m.SaysAccess := by
    rw [program, markedAssembly_markers]
    exact ⟨_, List.mem_singleton_self _, rfl, bare_marker⟩
  obtain ⟨requests, collected, missed, _⟩ := assembly_markers_miss_nothing r read apart
    (fun m held _ => plain m held) assembly rfl {} {}
  have shown : shownClass ∈ r.program.types ∧ r.program.IsOpen shownClass ∧
      r.program.HasHiddenNames shownClass := by
    rw [program]
    decide +kernel
  have bare : bareClass ∈ r.program.types ∧ r.program.IsOpen bareClass ∧
      ¬r.program.HasHiddenNames bareClass := by
    rw [program]
    decide +kernel
  refine ⟨requests, collected, ?_, ?_⟩
  · rw [missed.once shownClass shown.1 (Or.inl rfl) shown.2.1, if_pos shown.2.2]
  · rw [missed.once bareClass bare.1 (Or.inl rfl) bare.2.1, if_neg bare.2.2]

end Pass

end HiddenNames
