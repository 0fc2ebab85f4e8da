import HiddenNames.Proofs.Emission.Repeats
import HiddenNames.Proofs.Resolution.Loads

/-!
The modules that a pass asks the process for. They are those of the bound targets that are no types
of the sources, each once, whatever became of it and in whatever order the targets are resolved.
Repeats, unsupported requests and types of the sources cost no module.
-/

namespace HiddenNames

namespace Pass

theorem resolveAll_state {σ : Type} (b : Backend σ) (s : σ) (place : Nat)
    (progress : List Progress) :
    (resolveAll b s progress).2 = (resolveEach b s (waiting place progress)).2 := by
  induction progress generalizing s place with
  | nil => rfl
  | cons p rest ih =>
    cases p with
    | finished outcome => exact ih s (place + 1)
    | bound request target => exact ih (b.resolve s target).2 (place + 1)

theorem settle_repeats (answers : List (Nat × Except Mishap (Option Resolved))) (place : Nat)
    (progress : List Progress) :
    (settle answers place progress).map Stage.isRepeat = progress.map Progress.isRepeat := by
  induction progress generalizing place with
  | nil => rfl
  | cons p rest ih =>
    cases p with
    | finished outcome => simp only [settle, List.map_cons, ih, Stage.isRepeat, Progress.isRepeat]
    | bound request target =>
      simp only [settle, List.map_cons, ih, Stage.isRepeat, Progress.isRepeat]

theorem runScheduled_repeats {σ : Type} (b : Backend σ) (options : PassOptions)
    (schedule : List (Nat × Target) → List (Nat × Target)) (registry : Registry) (s : σ)
    (requests : List Request) :
    (runScheduled b options schedule registry s requests).1.reports.map Report.isRepeat =
      (bindAll b (coreUnits options registry).2 s requests).1.map Progress.isRepeat := by
  rw [← settle_repeats (resolveEach b (bindAll b (coreUnits options registry).2 s requests).2.2
      (schedule (waiting 0 (bindAll b (coreUnits options registry).2 s requests).1))).1 0,
    ← synthesizeAll_repeats options (bindAll b (coreUnits options registry).2 s requests).2.1]
  simp only [runScheduled, resultOf, List.map_map]
  rfl

variable {bind : Request → Except Mishap Target}
  {resolve : Target → Except Mishap (Option Resolved)}

/-- A request waits for its target to be resolved when it is bound and told to be no repeat. -/
theorem bindAll_bound_iff {registry : Registry} {requests : List Request} {place : Nat}
    {request : Request} {target : Target} :
    (bindAll (.ofAnswers bind resolve) registry () requests).1[place]? =
        some (.bound request target) ↔
      requests[place]? = some request ∧ boundTarget? bind request = some target ∧
        (bindAll (.ofAnswers bind resolve) registry () requests).1[place]?.map Progress.isRepeat ≠
          some true := by
  cases own : requests[place]? with
  | none =>
    have outside := List.getElem?_eq_none_iff.mp own
    rw [List.getElem?_eq_none (by simpa using outside)]
    simp
  | some asked =>
    obtain ⟨before, after, rfl, rfl⟩ := split_at own
    rw [bindAll_at, Option.some.injEq, Option.some.injEq, Option.map_some, ne_eq, Option.some.injEq,
      bindOne_repeat_iff]
    cases found : boundTarget? bind asked with
    | none =>
      obtain ⟨outcome, _, run⟩ := bindOne_unbound resolve found
      rw [run]
      refine iff_of_false nofun ?_
      rintro ⟨rfl, bound, _⟩
      rw [found] at bound
      cases bound
    | some there =>
      rw [bindOne_bound found]
      by_cases taken : there.key ∈ (bindAll (.ofAnswers bind resolve) registry () before).2.1.keys
      · rw [if_pos taken]
        refine iff_of_false nofun ?_
        rintro ⟨rfl, bound, fresh⟩
        exact fresh ⟨there, rfl, taken⟩
      · rw [if_neg taken]
        constructor
        · intro same
          cases same
          refine ⟨rfl, found, ?_⟩
          rintro ⟨other, same, held⟩
          cases same
          exact taken held
        · rintro ⟨rfl, bound, _⟩
          rw [found] at bound
          cases bound
          rfl

end Pass

namespace Resolver

variable {r : Resolver}

/-- A module that a pass needs: some request that is no repeat is bound to a type in it, and to no
type of the sources. -/
def Needs (r : Resolver) (requests : List Request) (reports : List Report)
    (module : String) : Prop :=
  ∃ (place : Nat) (request : Request) (target : Target),
    requests[place]? = some request ∧ r.Binds request target ∧
    reports[place]?.map Report.status ≠ some .duplicate ∧ target.source? = none ∧
    target.module? = some module

/-- Between two sessions, the process was asked for these modules, in this order: each of them once,
and all that a pass needs but those that were decided before. -/
structure LoadsNeeded (r : Resolver) (requests : List Request) (reports : List Report)
    (s later : Session) (asked : List String) : Prop where
  decided : later.loader.decided =
    s.loader.decided ++ asked.map fun module => (module, r.world.modules module)
  once : asked.Nodup
  needed : ∀ module, module ∈ asked ↔ module ∉ s.loader.calls ∧ r.Needs requests reports module

theorem resolveEach_loader (usual : IsUsualChain r.tiers) (s : Session)
    (jobs : List (Nat × Target)) : (Pass.resolveEach r.backend s jobs).2.loader =
      s.loader.loadAll r.world.modules (jobs.filterMap fun job => job.2.needed?) := by
  induction jobs generalizing s with
  | nil => rfl
  | cons job rest ih =>
    have first : (r.backend.resolve s job.2).2.loader =
        s.loader.loadAll r.world.modules job.2.needed?.toList := resolve_loader usual s job.2
    rw [Pass.resolveEach, ih, first, ← Loader.loadAll_append]
    cases needed : job.2.needed? with
    | none => simp only [List.filterMap_cons, needed, Option.toList_none, List.nil_append]
    | some module =>
      simp only [List.filterMap_cons, needed, Option.toList_some, List.singleton_append]

/-- Over a reader that agrees with the files, requests are bound as with nothing remembered, and the
loader is left alone. -/
theorem backend_binds_idly (r : Resolver) (loader : Loader) :
    r.backend.BindsBy (fun s => s.reader.Agrees r.world.disk r.world.decode ∧ s.loader = loader)
      (fun request => (r.bind {} request).1) := by
  refine ⟨fun s request ⟨agrees, same⟩ => ?_⟩
  obtain ⟨answer, reading⟩ := bind_reading agrees request
  obtain ⟨kept, _⟩ := r.bind_keeps s request
  exact ⟨(r.bind s request).2, Prod.ext answer rfl, reading, kept.trans same⟩

theorem needs_iff {registry : Registry} {requests : List Request} {reports : List Report}
    {progress : List Pass.Progress}
    (bound : progress = (Pass.bindAll (.ofAnswers (fun request => (r.bind {} request).1)
      fun _ => .ok none) registry () requests).1)
    (repeats : reports.map Report.isRepeat = progress.map Pass.Progress.isRepeat)
    (module : String) : r.Needs requests reports module ↔
      ∃ job ∈ Pass.waiting 0 progress, job.2.needed? = some module := by
  have fresh : ∀ place : Nat, reports[place]?.map Report.status ≠ some .duplicate ↔
      progress[place]?.map Pass.Progress.isRepeat ≠ some true := by
    intro place
    rw [ne_eq, Pass.status_iff_repeat, repeats, List.getElem?_map]
  constructor
  · rintro ⟨place, request, target, own, binds, single, undeclared, named⟩
    refine ⟨(place, target), Pass.mem_waiting_iff.mpr ⟨place, request, ?_, (Nat.zero_add _).symm⟩,
      Target.needed?_eq_some_iff.mpr ⟨undeclared, named⟩⟩
    have single := (fresh place).mp single
    rw [bound] at single ⊢
    exact Pass.bindAll_bound_iff.mpr ⟨own, binds_iff.mp binds, single⟩
  · rintro ⟨job, held, needed⟩
    obtain ⟨place, request, found, _⟩ := Pass.mem_waiting_iff.mp held
    rw [bound] at found
    obtain ⟨own, binds, single⟩ := Pass.bindAll_bound_iff.mp found
    rw [← bound] at single
    obtain ⟨undeclared, named⟩ := Target.needed?_eq_some_iff.mp needed
    exact ⟨place, request, job.2, own, binds_iff.mpr binds, (fresh place).mpr single,
      undeclared, named⟩

/-- Whoever binds all requests and then takes up the jobs in some order asks for what is needed. -/
theorem jobs_load_needed (usual : IsUsualChain r.tiers) {registry : Registry} {s : Session}
    (agrees : s.reader.Agrees r.world.disk r.world.decode) {requests : List Request}
    {reports : List Report} {jobs : List (Nat × Target)}
    (all : jobs.Perm (Pass.waiting 0 (Pass.bindAll r.backend registry s requests).1))
    (repeats : reports.map Report.isRepeat =
      (Pass.bindAll r.backend registry s requests).1.map Pass.Progress.isRepeat) :
    ∃ asked, r.LoadsNeeded requests reports s
      (Pass.resolveEach r.backend (Pass.bindAll r.backend registry s requests).2.2 jobs).2
        asked := by
  obtain ⟨mid, bound, _, kept⟩ := Pass.bindAll_steady (r.backend_binds_idly s.loader)
    (fun _ => .ok none) requests registry ⟨agrees, rfl⟩
  refine ⟨s.loader.missing (jobs.filterMap fun job => job.2.needed?), ?_,
    Loader.missing_nodup _ _, ?_⟩
  · rw [resolveEach_loader usual, bound, kept, Loader.loadAll_decided]
  · intro module
    have same := congrArg Prod.fst bound
    rw [Loader.mem_missing, List.mem_filterMap, needs_iff same repeats]
    simp only [all.mem_iff]

theorem run_loads_needed (usual : IsUsualChain r.tiers) (options : PassOptions)
    (registry : Registry)
    {s : Session} (agrees : s.reader.Agrees r.world.disk r.world.decode) (requests : List Request) :
    ∃ asked, r.LoadsNeeded requests (Pass.run r.backend options registry s requests).1.reports s
      (Pass.run r.backend options registry s requests).2.2 asked := by
  have repeats := Pass.run_repeats r.backend options registry s requests
  have loads := jobs_load_needed usual agrees (List.Perm.refl _) repeats
  rw [← Pass.resolveAll_state] at loads
  exact loads

theorem runScheduled_loads_needed (usual : IsUsualChain r.tiers) (options : PassOptions)
    {schedule : List (Nat × Target) → List (Nat × Target)}
    (fair : ∀ jobs, (schedule jobs).Perm jobs) (registry : Registry) {s : Session}
    (agrees : s.reader.Agrees r.world.disk r.world.decode) (requests : List Request) :
    ∃ asked, r.LoadsNeeded requests
      (Pass.runScheduled r.backend options schedule registry s requests).1.reports s
      (Pass.runScheduled r.backend options schedule registry s requests).2.2 asked :=
  jobs_load_needed usual agrees (fair _)
    (Pass.runScheduled_repeats r.backend options schedule registry s requests)

/-- With the usual tiers, a pass asks the process once for each module that it needs and that was
not decided before, in whatever order the jobs are taken up; its reader may hold what any calls
before it have read. Binding asks for no module and looks for no file: it is the same with all other
modules, folders and tiers, and it changes nothing of what is remembered of them. No more does the
resolution of a type of the sources. -/
theorem modules_loaded_once_when_needed (r : Resolver) (usual : IsUsualChain r.tiers) :
    (∀ before, (r.remembered before).reader.Agrees r.world.disk r.world.decode) ∧
    (∀ (options : PassOptions) (registry : Registry) (s : Session) (requests : List Request),
      s.reader.Agrees r.world.disk r.world.decode →
      (∃ asked, r.LoadsNeeded requests (Pass.run r.backend options registry s requests).1.reports s
        (Pass.run r.backend options registry s requests).2.2 asked) ∧
      ∀ schedule : List (Nat × Target) → List (Nat × Target), (∀ jobs, (schedule jobs).Perm jobs) →
        ∃ asked, r.LoadsNeeded requests
          (Pass.runScheduled r.backend options schedule registry s requests).1.reports s
          (Pass.runScheduled r.backend options schedule registry s requests).2.2 asked) ∧
    (∀ (r' : Resolver), BindsLike r r' →
      ∀ (s : Session) (loader : Loader) (roots? : Option (List Path)) (request : Request),
        r'.bind { s with loader, roots? } request =
          ((r.bind s request).1, { (r.bind s request).2 with loader, roots? })) ∧
    ∀ (s : Session) (target : Target) (t : SourceType), target.source? = some t →
      r.resolve s target = (some (r.program.described t), s) := by
  refine ⟨?_, fun options registry s requests agrees => ⟨?_, fun schedule fair => ?_⟩, ?_, ?_⟩
  · exact fun before => (remembered_agrees (loadsFirst_of_usual usual) before).reader
  · exact run_loads_needed usual options registry agrees requests
  · exact runScheduled_loads_needed usual options fair registry agrees requests
  · exact fun _ like s loader roots? request => bind_apart like s loader roots? request
  · exact fun s _ _ declared => resolve_declared usual s declared

/-- One declared type, beside a module that can be loaded and others that cannot. -/
def besideModules : Resolver where
  program := { types := [{ name := "C", kind := .classKind, visibility := .pub }] }
  world := besideOneModule.world

def withoutModules : Resolver :=
  { besideModules with world := { besideModules.world with modules := fun _ => none }, tiers := [] }

def inAbsent : Request := { subject := .textual "N.T", home := Home.named "Absent" }

def inDecided : Request := { subject := .textual "N.T", home := Home.named "Old" }

def declaredClass : Request := Request.direct (.mk none [.mk "C" []])

def mixedRequests : List Request := [inModule, inModule, inAbsent, inDecided, declaredClass]

def afterFailure : Session := { loader := { decided := [("Old", none)] } }

theorem mixed_requests_load_two_modules :
    IsUsualChain besideModules.tiers ∧
    afterFailure.reader.Agrees besideModules.world.disk besideModules.world.decode ∧
    (∀ jobs : List (Nat × Target), jobs.reverse.Perm jobs) ∧
    BindsLike besideModules withoutModules ∧
    (∃ asked, besideModules.LoadsNeeded mixedRequests
      (Pass.run besideModules.backend {} {} afterFailure mixedRequests).1.reports afterFailure
      (Pass.run besideModules.backend {} {} afterFailure mixedRequests).2.2 asked) ∧
    (∃ asked, besideModules.LoadsNeeded mixedRequests
      (Pass.runScheduled besideModules.backend {} List.reverse {} afterFailure
        mixedRequests).1.reports
      afterFailure
      (Pass.runScheduled besideModules.backend {} List.reverse {} afterFailure mixedRequests).2.2
      asked) ∧
    (Pass.runScheduled besideModules.backend {} List.reverse {} afterFailure
      mixedRequests).2.2.loader.calls = ["Old", "Absent", "Lib"] ∧
    withoutModules.bind afterFailure inModule =
      ((besideModules.bind {} inModule).1,
        { (besideModules.bind {} inModule).2 with loader := afterFailure.loader, roots? := none }) ∧
    ∀ t ∈ besideModules.program.types,
      besideModules.resolve afterFailure (besideModules.sourceTarget declaredClass t) =
        (some (besideModules.program.described t), afterFailure) := by
  have usual : IsUsualChain besideModules.tiers := rfl
  have like : BindsLike besideModules withoutModules := ⟨rfl, rfl, rfl, rfl⟩
  obtain ⟨reachable, passes, binds, declared⟩ := modules_loaded_once_when_needed besideModules usual
  have agrees := reachable []
  obtain ⟨ordered, scheduled⟩ := passes {} {} afterFailure mixedRequests agrees
  refine ⟨usual, agrees, List.reverse_perm, like, ordered,
    scheduled List.reverse List.reverse_perm, by decide, ?_, fun t _ => ?_⟩
  · exact binds withoutModules like {} afterFailure.loader none inModule
  · exact declared afterFailure (besideModules.sourceTarget declaredClass t) t rfl

end Resolver

end HiddenNames
