import HiddenNames.Proofs.Emission.Claims
import HiddenNames.Proofs.Emission.Overwriting
import HiddenNames.Proofs.Resolution.Keys

/-!
A pass on its way, one request, one target or one stage at a time. A move asks the registry for one
thing at most. The keys and the identities that a pass got from the registry are those of what it
bound and of what it emitted, and the key of a target is in step with the module in which a type is
found for it.
-/

namespace HiddenNames

structure Target.IsKeyed (r : Resolver) (target : Target) : Prop where
  keyed : ∀ module, target.module? = some module → target.key = Resolver.key module target.fullName
  sourced : ∀ t, target.source? = some t → target.module? = some r.program.assemblyName

namespace Resolver

variable {r : Resolver} {s : Session} {request : Request} {target : Target}

theorem textualTarget_keyed (r : Resolver) (request : Request) (fullName : String) (home : Home)
    (module? : Option String) : (r.textualTarget request fullName home module?).IsKeyed r := by
  cases module? with
  | none => exact ⟨nofun, nofun⟩
  | some module =>
    have other : Target.IsKeyed r
        { key := key module fullName, request, fullName, module? := some module } :=
      ⟨fun _ same => Option.some.inj same ▸ rfl, nofun⟩
    rw [textualTarget]
    split
    · split
      · exact ⟨fun _ same => Option.some.inj same ▸ rfl, fun _ _ => rfl⟩
      · exact other
    · exact other

theorem directTarget_keyed (r : Resolver) (request : Request) (ref : TypeRef)
    (place : Option References.Place) : (directTarget request ref place).IsKeyed r := by
  cases place with
  | none => exact ⟨nofun, nofun⟩
  | some place => exact ⟨fun _ same => Option.some.inj same ▸ rfl, nofun⟩

theorem bind_keyed (h : (r.bind s request).1 = .ok target) : target.IsKeyed r := by
  obtain ⟨ref | fullName, home, access⟩ := request
  · simp only [bind, bindDirect] at h
    cases declared : r.program.find ref with
    | some t =>
      simp only [declared] at h
      cases h
      exact ⟨fun _ same => Option.some.inj same ▸ rfl, fun _ _ => rfl⟩
    | none =>
      simp only [declared] at h
      obtain ⟨place, _, rfl⟩ := ok_of_map h
      exact directTarget_keyed r _ ref place
  · simp only [bind] at h
    obtain ⟨module?, _, rfl⟩ := ok_of_map h
    exact textualTarget_keyed r _ fullName home module?

theorem tryTier_module (keyed : target.IsKeyed r) {tier : TierStep} {resolved : Resolved}
    (h : (r.tryTier s target tier).1 = .ok (some resolved)) :
    resolved.module? ≠ none ∧ resolved.module? = target.module? := by
  cases tier with
  | failing reason => cases h
  | static =>
    obtain ⟨t, found, rfl⟩ := Option.map_eq_some_iff.mp (Except.ok.inj h)
    exact ⟨nofun, (keyed.sourced t found).symm⟩
  | loaded =>
    cases named : target.module? with
    | none => simp [tryTier, named] at h
    | some module =>
      simp only [tryTier, named] at h
      split at h
      · cases h
      · split at h
        · cases h
        · obtain ⟨v, _, rfl⟩ := Option.map_eq_some_iff.mp (Except.ok.inj h)
          exact ⟨nofun, rfl⟩
  | metadata =>
    cases named : target.module? with
    | none => simp [tryTier, named] at h
    | some module =>
      simp only [tryTier, named] at h
      split at h
      · cases h
      · split at h
        · cases h
        · split at h
          · cases h
          · obtain ⟨v, _, rfl⟩ := Option.map_eq_some_iff.mp (Except.ok.inj h)
            exact ⟨nofun, rfl⟩

theorem tryTiers_module (keyed : target.IsKeyed r) {tiers : List TierStep} {resolved : Resolved}
    (h : (r.tryTiers target s tiers).1 = some resolved) :
    resolved.module? ≠ none ∧ resolved.module? = target.module? := by
  induction tiers generalizing s with
  | nil => cases h
  | cons tier rest ih =>
    rw [tryTiers] at h
    split at h
    · rename_i found later answer
      obtain rfl := Option.some.inj h
      have found_here : (r.tryTier s target tier).1 = .ok (some found) := by rw [answer]
      exact tryTier_module keyed found_here
    · exact ih h

end Resolver

namespace Pass

def Progress.target? : Progress → Option Target
  | .finished _ => none
  | .bound _ target => some target

def Stage.target? : Stage → Option Target
  | .finished _ => none
  | .resolved _ target _ => some target

structure Emission where
  options : PassOptions
  target : Target
  emitted : Emitted

namespace Emission

def file (e : Emission) : EmissionUnit := e.emitted.file e.options

def view? (e : Emission) : Option UnitView := e.emitted.view? e.options

def subject (e : Emission) : Option String × String :=
  (e.emitted.resolved.module?, e.target.fullName)

end Emission

structure Made where
  stage : Stage
  outcome : Outcome
  emitted? : Option Emitted

def Made.emission? (options : PassOptions) (made : Made) : Option Emission :=
  match made.stage.target?, made.emitted? with
  | some target, some emitted => some ⟨options, target, emitted⟩
  | _, _ => none

inductive Phase where
  | starting (waiting : List Request)
  | binding (done : List Progress) (waiting : List Request)
  | resolving (done : List Stage) (waiting : List Progress)
  | generating (done : List Made) (waiting : List Stage)

structure Running where
  resolver : Resolver
  options : PassOptions
  core : List EmissionUnit := []
  phase : Phase

namespace Running

def stageAt (r : Resolver) (s : Session) : Progress → Stage
  | .finished outcome => .finished outcome
  | .bound request target => .resolved request target (r.backend.resolve s target).1

/-- One move of a pass, over what is remembered at that time. -/
def next (p : Running) (registry : Registry) (s : Session) : Running × Registry :=
  match p.phase with
  | .starting requests =>
    let (core, registry) := coreUnits p.options registry
    ({ p with core, phase := .binding [] requests }, registry)
  | .binding done [] => ({ p with phase := .resolving [] done }, registry)
  | .binding done (request :: rest) =>
    let (progress, registry, _) := bindOne p.resolver.backend registry s request
    ({ p with phase := .binding (done ++ [progress]) rest }, registry)
  | .resolving done [] => ({ p with phase := .generating [] done }, registry)
  | .resolving done (progress :: rest) =>
    ({ p with phase := .resolving (done ++ [stageAt p.resolver s progress]) rest }, registry)
  | .generating _ [] => (p, registry)
  | .generating done (stage :: rest) =>
    let (outcome, left) := synthesizeOne p.options registry stage
    let made : Made := ⟨stage, outcome, emittedOne p.options registry stage⟩
    ({ p with phase := .generating (done ++ [made]) rest }, left)

def targets (p : Running) : List Target :=
  match p.phase with
  | .starting _ => []
  | .binding done _ => done.filterMap Progress.target?
  | .resolving done waiting => done.filterMap Stage.target? ++ waiting.filterMap Progress.target?
  | .generating done waiting => (done.map Made.stage ++ waiting).filterMap Stage.target?

def emissions (p : Running) : List Emission :=
  match p.phase with
  | .generating done _ => done.filterMap (Made.emission? p.options)
  | _ => []

def files (p : Running) : List EmissionUnit :=
  match p.phase with
  | .generating done _ => done.filterMap fun made => made.outcome.unit?
  | _ => []

def result? (p : Running) : Option PassResult :=
  match p.phase with
  | .generating done [] => some (resultOf p.core (done.map Made.outcome))
  | _ => none

def keys (p : Running) : List String :=
  p.core.map (fun _ => coreKey) ++ p.targets.map Target.key

def identities (p : Running) : List String := p.emissions.map fun e => e.emitted.identity

end Running

/-! What one move takes from the registry. -/

inductive Takes (taken : List String) : List String → List String → Prop where
  | nothing : Takes taken [] taken
  | one {x : String} (free : x ∉ taken) : Takes taken [x] (x :: taken)

theorem Takes.perm {taken taken' new : List String} (h : Takes taken new taken') :
    taken'.Perm (taken ++ new) := by
  cases h with
  | nothing => rw [List.append_nil]
  | one free => exact (List.perm_append_singleton _ taken).symm

theorem Takes.nodup {taken taken' new : List String} (h : Takes taken new taken')
    (distinct : taken.Nodup) : taken'.Nodup := by
  cases h with
  | nothing => exact distinct
  | one free => exact List.nodup_cons.mpr ⟨free, distinct⟩

variable {options : PassOptions} {registry : Registry} {s : Session}

theorem claim_takes (registry : Registry) (key : String) :
    Takes registry.keys (if (registry.claim key).1 then [key] else [])
      (registry.claim key).2.keys := by
  by_cases taken : key ∈ registry.keys
  · rw [Registry.claim_of_taken taken]
    exact .nothing
  · rw [Registry.claim_of_free taken]
    exact .one taken

theorem coreUnits_takes (options : PassOptions) (registry : Registry) :
    Takes registry.keys ((coreUnits options registry).1.map fun _ => coreKey)
      (coreUnits options registry).2.keys := by
  by_cases asked : options.emitCore = true
  · have takes := claim_takes registry coreKey
    rcases claimed : registry.claim coreKey with ⟨_ | _, next⟩ <;>
      simpa [coreUnits, asked, claimed] using takes
  · simp only [coreUnits, if_neg asked]
    exact .nothing

theorem bindOne_takes {σ : Type} (b : Backend σ) (registry : Registry) (s : σ) (request : Request) :
    Takes registry.keys ((bindOne b registry s request).1.target?.toList.map Target.key)
      (bindOne b registry s request).2.1.keys := by
  cases shape : unsupportedName? request with
  | some fullName =>
    simp only [bindOne, shape]
    exact .nothing
  | none =>
    rcases answer : b.bind s request with ⟨e | target, later⟩
    · simp only [bindOne, shape, answer]
      exact .nothing
    · have takes := claim_takes registry target.key
      rcases claimed : registry.claim target.key with ⟨_ | _, next⟩ <;>
        simpa [bindOne, shape, answer, claimed, Progress.target?] using takes

theorem synthesizeOne_takes {stage : Stage} (quiet : stage.IsQuiet) :
    Takes registry.identities ((emittedOne options registry stage).toList.map Emitted.identity)
      (synthesizeOne options registry stage).2.identities := by
  rcases emission_cases options registry quiet with nothing | ⟨e, something⟩
  · rw [nothing.emits, nothing.left]
    exact .nothing
  · rw [something.emits, something.left]
    apply Takes.one
    rw [something.chosen]
    exact registry.chooseIdentity_free _

def Serves (registry registry' : Registry) : Prop :=
  ∃ demand? : Option Registry.Demand, registry' = registry.after demand?.toList

theorem Serves.none (registry : Registry) : Serves registry registry := ⟨.none, rfl⟩

theorem coreUnits_serves (options : PassOptions) (registry : Registry) :
    Serves registry (coreUnits options registry).2 := by
  by_cases asked : options.emitCore = true
  · refine ⟨some (.key coreKey), ?_⟩
    rcases claimed : registry.claim coreKey with ⟨_ | _, next⟩ <;>
      simp [coreUnits, asked, claimed, Registry.after, Registry.next]
  · simp only [coreUnits, if_neg asked]
    exact .none registry

theorem bindOne_serves {σ : Type} (b : Backend σ) (registry : Registry) (s : σ)
    (request : Request) : Serves registry (bindOne b registry s request).2.1 := by
  cases shape : unsupportedName? request with
  | some fullName =>
    simp only [bindOne, shape]
    exact .none registry
  | none =>
    rcases answer : b.bind s request with ⟨e | target, later⟩
    · simp only [bindOne, shape, answer]
      exact .none registry
    · refine ⟨some (.key target.key), ?_⟩
      rcases claimed : registry.claim target.key with ⟨_ | _, next⟩ <;>
        simp [bindOne, shape, answer, claimed, Registry.after, Registry.next]

theorem synthesizeOne_serves (options : PassOptions) (registry : Registry) (stage : Stage) :
    Serves registry (synthesizeOne options registry stage).2 := by
  cases stage with
  | finished outcome => exact .none registry
  | resolved request target answer =>
    rcases synthesizeOne_cases options request target answer with
      ⟨outcome, withheld⟩ | ⟨resolved, first, rendered⟩
    · rw [withheld.same]
      exact .none registry
    · rw [rendered.claims]
      exact ⟨some (.identity resolved.view.identity), rfl⟩

@[simp]
theorem synthesizeOne_keys (options : PassOptions) (registry : Registry) (stage : Stage) :
    (synthesizeOne options registry stage).2.keys = registry.keys := by
  cases stage with
  | finished outcome => rfl
  | resolved request target answer =>
    rcases synthesizeOne_cases options request target answer with
      ⟨outcome, withheld⟩ | ⟨resolved, first, rendered⟩
    · rw [withheld.same]
    · rw [rendered.claims]
      rfl

/-! What holds of a pass on its way, by itself. -/

def Progress.IsSound (r : Resolver) (progress : Progress) : Prop :=
  progress.IsQuiet ∧ ∀ target, progress.target? = some target → target.IsKeyed r

/-- The key of a target is in step with the module in which a type was found for it. -/
def Target.Locates (target : Target) (resolved : Resolved) : Prop :=
  ∃ module, resolved.module? = some module ∧ target.key = Resolver.key module target.fullName

def Stage.IsSound (stage : Stage) : Prop :=
  stage.IsQuiet ∧ ∀ request target resolved,
    stage = .resolved request target (.ok (some resolved)) → Target.Locates target resolved

structure Emission.IsSound (e : Emission) : Prop where
  located : Target.Locates e.target e.emitted.resolved
  viewed : ∃ view, e.view? = some view ∧ view.wrapper = wrapperName e.emitted.identity ∧
    e.file.source = view.text

structure Made.IsSound (options : PassOptions) (made : Made) : Prop where
  unit : made.outcome.unit? = (made.emission? options).map Emission.file
  emitted : ∀ emitted, made.emitted? = some emitted →
    ∃ e, made.emission? options = some e ∧ e.emitted = emitted
  sound : ∀ e, made.emission? options = some e → e.IsSound

def Running.IsSound (p : Running) : Prop :=
  match p.phase with
  | .starting _ => p.core = []
  | .binding done _ => ∀ progress ∈ done, progress.IsSound p.resolver
  | .resolving done waiting =>
    (∀ stage ∈ done, stage.IsSound) ∧ ∀ progress ∈ waiting, progress.IsSound p.resolver
  | .generating done waiting =>
    (∀ made ∈ done, made.IsSound p.options) ∧ ∀ stage ∈ waiting, stage.IsSound

theorem bindOne_sound (r : Resolver) (registry : Registry) (s : Session) (request : Request) :
    (bindOne r.backend registry s request).1.IsSound r := by
  refine ⟨bindOne_quiet _ _ _ _, fun target bound => ?_⟩
  cases shape : unsupportedName? request with
  | some fullName =>
    simp only [bindOne, shape] at bound
    cases bound
  | none =>
    rcases answer : r.backend.bind s request with ⟨e | found, later⟩
    · simp only [bindOne, shape, answer] at bound
      cases bound
    · rcases claimed : registry.claim found.key with ⟨_ | _, next⟩
      · simp only [bindOne, shape, answer, claimed] at bound
        cases bound
      · simp only [bindOne, shape, answer, claimed] at bound
        obtain rfl := Option.some.inj bound
        have here : (r.bind s request).1 = .ok found := congrArg Prod.fst answer
        exact Resolver.bind_keyed here

theorem stageAt_sound {r : Resolver} {progress : Progress} (h : progress.IsSound r) (s : Session) :
    (Running.stageAt r s progress).IsSound := by
  cases progress with
  | finished outcome =>
    refine ⟨h.1, fun request target resolved same => ?_⟩
    rw [Running.stageAt] at same
    cases same
  | bound request target =>
    refine ⟨trivial, fun request' target' resolved same => ?_⟩
    have keyed := h.2 target rfl
    rw [Running.stageAt] at same
    obtain ⟨_, rfl, answer⟩ := Stage.resolved.inj same
    have found : (r.tryTiers target s r.tiers).1 = some resolved := Except.ok.inj answer
    obtain ⟨placed, same_module⟩ := Resolver.tryTiers_module keyed found
    obtain ⟨module, found⟩ := Option.ne_none_iff_exists'.mp placed
    exact ⟨module, found, keyed.keyed module (same_module.symm.trans found)⟩

theorem Made.emission?_of_silent (options : PassOptions) {made : Made}
    (silent : made.emitted? = none) : made.emission? options = none := by
  cases placed : made.stage.target? <;> simp only [Made.emission?, silent, placed]

/-- Only a stage whose target was found emits anything, and that for the type that was found. -/
theorem stage_of_emits {stage : Stage} {e : Emitted}
    (emits : emittedOne options registry stage = some e) :
    ∃ request target, stage = .resolved request target (.ok (some e.resolved)) := by
  unfold emittedOne at emits
  split at emits
  · rename_i request target resolved
    split at emits
    · obtain rfl := Option.some.inj emits
      exact ⟨request, target, rfl⟩
    · cases emits
  · cases emits

theorem made_sound {stage : Stage} (h : stage.IsSound) (options : PassOptions)
    (registry : Registry) :
    (Made.mk stage (synthesizeOne options registry stage).1
      (emittedOne options registry stage)).IsSound options := by
  rcases emission_cases options registry h.1 with nothing | ⟨e, something⟩
  · constructor
    · rw [Made.emission?_of_silent options nothing.emits]
      exact nothing.unit
    · intro emitted same
      rw [nothing.emits] at same
      cases same
    · intro e same
      rw [Made.emission?_of_silent options nothing.emits] at same
      cases same
  · obtain ⟨request, target, rfl⟩ := stage_of_emits something.emits
    have emission : (Made.mk (.resolved request target (.ok (some e.resolved)))
        (synthesizeOne options registry (.resolved request target (.ok (some e.resolved)))).1
        (emittedOne options registry (.resolved request target (.ok (some e.resolved))))).emission?
          options = some ⟨options, target, e⟩ := by
      simp only [Made.emission?, Stage.target?, something.emits]
    constructor
    · rw [emission]
      exact something.unit
    · intro emitted same
      refine ⟨_, emission, ?_⟩
      exact Option.some.inj (something.emits.symm.trans same)
    · intro other same
      obtain rfl := Option.some.inj (emission.symm.trans same)
      obtain ⟨view, built, named⟩ := something.viewed
      exact ⟨h.2 request target e.resolved rfl, view, built, named, Emitted.file_source built⟩

namespace Running

structure Advances (p : Running) (registry : Registry) (p' : Running) (registry' : Registry) :
    Prop where
  sound : p'.IsSound
  keys : ∃ new, Takes registry.keys new registry'.keys ∧ p'.keys = p.keys ++ new
  identities : ∃ new, Takes registry.identities new registry'.identities ∧
    p'.identities = p.identities ++ new
  serves : Serves registry registry'

variable {r : Resolver} {core : List EmissionUnit}

theorem advances_silently {p p' : Running} (sound : p'.IsSound) (targets : p'.targets = p.targets)
    (same_core : p'.core = p.core) (emissions : p'.emissions = p.emissions) :
    p.Advances registry p' registry := by
  constructor
  · exact sound
  · refine ⟨[], .nothing, ?_⟩
    rw [Running.keys, Running.keys, targets, same_core, List.append_nil]
  · refine ⟨[], .nothing, ?_⟩
    rw [Running.identities, Running.identities, emissions, List.append_nil]
  · exact .none registry

theorem start_advances (r : Resolver) (options : PassOptions) (registry : Registry)
    (requests : List Request) :
    Advances ⟨r, options, [], .starting requests⟩ registry
      ⟨r, options, (coreUnits options registry).1, .binding [] requests⟩
      (coreUnits options registry).2 := by
  constructor
  · exact fun _ held => absurd held List.not_mem_nil
  · refine ⟨_, coreUnits_takes options registry, ?_⟩
    simp [Running.keys, targets]
  · refine ⟨[], ?_, rfl⟩
    rw [coreUnits_identities]
    exact .nothing
  · exact coreUnits_serves options registry

theorem bind_advances {done : List Progress} {request : Request} {rest : List Request}
    (h : IsSound ⟨r, options, core, .binding done (request :: rest)⟩) :
    Advances ⟨r, options, core, .binding done (request :: rest)⟩ registry
      ⟨r, options, core, .binding (done ++ [(bindOne r.backend registry s request).1]) rest⟩
      (bindOne r.backend registry s request).2.1 := by
  constructor
  · exact List.forall_mem_append.mpr ⟨h, List.forall_mem_singleton.mpr (bindOne_sound _ _ _ _)⟩
  · refine ⟨_, bindOne_takes r.backend registry s request, ?_⟩
    cases bound : (bindOne r.backend registry s request).1.target? <;>
      simp [Running.keys, targets, bound]
  · refine ⟨[], ?_, rfl⟩
    rw [bindOne_identities]
    exact .nothing
  · exact bindOne_serves _ _ _ _

theorem resolve_advances {done : List Stage} {progress : Progress} {rest : List Progress}
    (h : IsSound ⟨r, options, core, .resolving done (progress :: rest)⟩) :
    Advances ⟨r, options, core, .resolving done (progress :: rest)⟩ registry
      ⟨r, options, core, .resolving (done ++ [stageAt r s progress]) rest⟩ registry := by
  obtain ⟨resolved, waiting⟩ := h
  obtain ⟨first, others⟩ := List.forall_mem_cons.mp waiting
  apply advances_silently
  · constructor
    · exact List.forall_mem_append.mpr
        ⟨resolved, List.forall_mem_singleton.mpr (stageAt_sound first s)⟩
    · exact others
  · have same : (stageAt r s progress).target? = progress.target? := by
      cases progress <;> rfl
    simp [targets, List.filterMap_cons, same]
    cases progress.target? <;> rfl
  · rfl
  · rfl

theorem generate_advances {done : List Made} {stage : Stage} {rest : List Stage}
    (h : IsSound ⟨r, options, core, .generating done (stage :: rest)⟩) :
    Advances ⟨r, options, core, .generating done (stage :: rest)⟩ registry
      ⟨r, options, core, .generating
        (done ++ [⟨stage, (synthesizeOne options registry stage).1,
          emittedOne options registry stage⟩]) rest⟩
      (synthesizeOne options registry stage).2 := by
  obtain ⟨made, waiting⟩ := h
  obtain ⟨first, others⟩ := List.forall_mem_cons.mp waiting
  have sound := made_sound first options registry
  constructor
  · constructor
    · exact List.forall_mem_append.mpr ⟨made, List.forall_mem_singleton.mpr sound⟩
    · exact others
  · refine ⟨[], ?_, ?_⟩
    · rw [synthesizeOne_keys]
      exact .nothing
    · simp [Running.keys, targets]
  · refine ⟨_, synthesizeOne_takes first.1, ?_⟩
    cases emits : emittedOne options registry stage with
    | none =>
      have none : (Made.mk stage (synthesizeOne options registry stage).1 .none).emission? options =
          .none := Made.emission?_of_silent options rfl
      simp [Running.identities, emissions, none]
    | some emitted =>
      obtain ⟨e, found, rfl⟩ := sound.emitted emitted emits
      rw [emits] at found
      simp [Running.identities, emissions, found]
  · exact synthesizeOne_serves _ _ _

theorem next_advances {p : Running} (h : p.IsSound) (registry : Registry) (s : Session) :
    p.Advances registry (p.next registry s).1 (p.next registry s).2 := by
  obtain ⟨r, options, core, phase⟩ := p
  cases phase with
  | starting requests =>
    obtain rfl : core = [] := h
    exact start_advances r options registry requests
  | binding done waiting =>
    cases waiting with
    | nil =>
      apply advances_silently
      · exact ⟨fun _ held => absurd held List.not_mem_nil, h⟩
      · rfl
      · rfl
      · rfl
    | cons request rest => exact bind_advances h
  | resolving done waiting =>
    cases waiting with
    | nil =>
      apply advances_silently
      · exact ⟨fun _ held => absurd held List.not_mem_nil, h.1⟩
      · simp [targets, next]
      · rfl
      · rfl
    | cons progress rest => exact resolve_advances h
  | generating done waiting =>
    cases waiting with
    | nil => exact advances_silently h rfl rfl rfl
    | cons stage rest => exact generate_advances h

theorem emission_targets (options : PassOptions) (done : List Made) :
    ((done.filterMap (Made.emission? options)).map Emission.target).Sublist
      ((done.map Made.stage).filterMap Stage.target?) := by
  induction done with
  | nil => exact List.nil_sublist _
  | cons made rest ih =>
    cases placed : made.stage.target? with
    | none =>
      have none : made.emission? options = none := by simp only [Made.emission?, placed]
      simpa [none, placed] using ih
    | some target =>
      cases emits : made.emitted? with
      | none =>
        have none := Made.emission?_of_silent options emits
        simpa [none, placed] using ih.trans (List.sublist_cons_self target _)
      | some emitted =>
        have one : made.emission? options = some ⟨options, target, emitted⟩ := by
          simp only [Made.emission?, placed, emits]
        simpa [one, placed] using ih

theorem emission_keys (p : Running) :
    (p.emissions.map fun e => e.target.key).Sublist p.keys := by
  obtain ⟨r, options, core, phase⟩ := p
  cases phase with
  | starting _ => exact List.nil_sublist _
  | binding _ _ => exact List.nil_sublist _
  | resolving _ _ => exact List.nil_sublist _
  | generating done waiting =>
    have keyed := (emission_targets options done).map Target.key
    rw [List.map_map] at keyed
    refine keyed.trans ?_
    simp only [keys, targets, List.filterMap_append, List.map_append]
    exact (List.sublist_append_left _ _).trans (List.sublist_append_right _ _)

theorem files_eq {p : Running} (h : p.IsSound) : p.files = p.emissions.map Emission.file := by
  obtain ⟨r, options, core, phase⟩ := p
  cases phase with
  | starting _ => rfl
  | binding _ _ => rfl
  | resolving _ _ => rfl
  | generating done waiting =>
    rw [files, emissions, List.map_filterMap]
    exact List.filterMap_congr fun made held => (h.1 made held).unit

theorem emission_sound {p : Running} (h : p.IsSound) : ∀ e ∈ p.emissions, e.IsSound := by
  intro e held
  obtain ⟨r, options, core, phase⟩ := p
  cases phase with
  | starting _ => cases held
  | binding _ _ => cases held
  | resolving _ _ => cases held
  | generating done waiting =>
    obtain ⟨made, among, emits⟩ := List.mem_filterMap.mp held
    exact (h.1 made among).sound e emits

end Running

end Pass

end HiddenNames
