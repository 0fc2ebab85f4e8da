import HiddenNames.Proofs.Emission.Binding
import HiddenNames.Proofs.Emission.Generation
import HiddenNames.Proofs.Emission.Schedule
import HiddenNames.Proofs.Resolution.Keys

/-!
Which requests a pass drops as repeats: those whose key was taken by an earlier request. For a fresh
registry these are the requests for what an earlier one asked for already, and false repeats.
-/

namespace HiddenNames

def Report.isRepeat (report : Report) : Bool := report.status = .duplicate

namespace Pass

def Progress.isRepeat : Progress → Bool
  | .finished outcome => outcome.report.isRepeat
  | .bound _ _ => false

def Stage.isRepeat : Stage → Bool
  | .finished outcome => outcome.report.isRepeat
  | .resolved _ _ _ => false

@[simp]
theorem synthesizeOne_repeat (options : PassOptions) (registry : Registry) (stage : Stage) :
    (synthesizeOne options registry stage).1.report.isRepeat = stage.isRepeat := by
  cases stage with
  | finished outcome => rfl
  | resolved request target answer =>
    rcases synthesizeOne_cases options request target answer with
      ⟨outcome, withheld⟩ | ⟨resolved, first, rendered⟩
    · rw [withheld.same]
      exact decide_eq_false withheld.no_repeat
    · rw [rendered.claims]
      rfl

theorem synthesizeAll_repeats (options : PassOptions) (registry : Registry) (stages : List Stage) :
    (synthesizeAll options registry stages).1.map (fun outcome => outcome.report.isRepeat) =
      stages.map Stage.isRepeat := by
  induction stages generalizing registry with
  | nil => rfl
  | cons stage rest ih =>
    simp [synthesizeAll, ih]

theorem resolveAll_repeats {σ : Type} (b : Backend σ) (s : σ) (progress : List Progress) :
    (resolveAll b s progress).1.map Stage.isRepeat = progress.map Progress.isRepeat := by
  induction progress generalizing s with
  | nil => rfl
  | cons p rest ih =>
    cases p with
    | finished outcome =>
      simp only [resolveAll, List.map_cons, ih, Stage.isRepeat, Progress.isRepeat]
    | bound request target =>
      simp only [resolveAll, List.map_cons, ih, Stage.isRepeat, Progress.isRepeat]

theorem run_repeats {σ : Type} (b : Backend σ) (options : PassOptions) (registry : Registry) (s : σ)
    (requests : List Request) :
    (run b options registry s requests).1.reports.map Report.isRepeat =
      (bindAll b (coreUnits options registry).2 s requests).1.map Progress.isRepeat := by
  rw [← resolveAll_repeats b (bindAll b (coreUnits options registry).2 s requests).2.2,
    ← synthesizeAll_repeats options (bindAll b (coreUnits options registry).2 s requests).2.1]
  simp only [run, resultOf, List.map_map]
  rfl

theorem status_iff_repeat (reports : List Report) (place : Nat) :
    reports[place]?.map Report.status = some .duplicate ↔
      (reports.map Report.isRepeat)[place]? = some true := by
  rw [List.getElem?_map]
  cases reports[place]? with
  | none => exact iff_of_false nofun nofun
  | some report => simp [Report.isRepeat]

theorem eq_core_of_mem {options : PassOptions} {key : String}
    (h : key ∈ (coreUnits options {}).2.keys) : key = coreKey := by
  unfold coreUnits at h
  split at h
  · rw [Registry.claim_of_free (by decide)] at h
    exact List.mem_singleton.mp h
  · cases h

variable {bind : Request → Except Mishap Target}
  {resolve : Target → Except Mishap (Option Resolved)}

theorem bindOne_repeat_iff (registry : Registry) (request : Request) :
    (bindOne (.ofAnswers bind resolve) registry () request).1.isRepeat = true ↔
      ∃ target, boundTarget? bind request = some target ∧ target.key ∈ registry.keys := by
  cases found : boundTarget? bind request with
  | none =>
    obtain ⟨outcome, fresh, run⟩ := bindOne_unbound resolve found
    rw [run]
    constructor
    · intro again
      exact (fresh (of_decide_eq_true again)).elim
    · rintro ⟨target, bound, _⟩
      cases bound
  | some target =>
    rw [bindOne_bound found]
    by_cases taken : target.key ∈ registry.keys
    · rw [if_pos taken]
      exact iff_of_true rfl ⟨target, rfl, taken⟩
    · rw [if_neg taken]
      constructor
      · nofun
      · rintro ⟨other, same, held⟩
        cases same
        exact (taken held).elim

theorem exists_mem_iff_earlier {α : Type} {before : List α} (x : α) (after : List α)
    {p : α → Prop} :
    (∃ y ∈ before, p y) ↔
      ∃ earlier < before.length, ∃ y, (before ++ x :: after)[earlier]? = some y ∧ p y := by
  constructor
  · rintro ⟨y, held, holds⟩
    obtain ⟨earlier, found⟩ := List.mem_iff_getElem?.mp held
    obtain ⟨inside, _⟩ := List.getElem?_eq_some_iff.mp found
    exact ⟨earlier, inside, y, by rw [List.getElem?_append_left inside, found], holds⟩
  · rintro ⟨earlier, inside, y, found, holds⟩
    rw [List.getElem?_append_left inside] at found
    exact ⟨y, List.mem_of_getElem? found, holds⟩

/-- A request is told to be a repeat when its key was taken before or by an earlier request. -/
theorem bindAll_repeat_iff (registry : Registry) (requests : List Request) (place : Nat) :
    (bindAll (.ofAnswers bind resolve) registry () requests).1[place]?.map Progress.isRepeat =
        some true ↔
      ∃ request target, requests[place]? = some request ∧ boundTarget? bind request = some target ∧
        ((∃ earlier < place, ∃ request', requests[earlier]? = some request' ∧
          ∃ target', boundTarget? bind request' = some target' ∧ target'.key = target.key) ∨
        target.key ∈ registry.keys) := by
  cases own : requests[place]? with
  | none =>
    have outside := List.getElem?_eq_none_iff.mp own
    rw [List.getElem?_eq_none (by simpa using outside)]
    simp
  | some request =>
    obtain ⟨before, after, rfl, rfl⟩ := split_at own
    rw [bindAll_at, Option.map_some, Option.some.injEq, bindOne_repeat_iff]
    simp only [bindAll_keys, exists_mem_iff_earlier request after]
    constructor
    · rintro ⟨target, bound, taken⟩
      exact ⟨request, target, rfl, bound, taken⟩
    · rintro ⟨other, target, same, bound, taken⟩
      cases same
      exact ⟨target, bound, taken⟩

end Pass

namespace Resolver

variable {r : Resolver}

theorem binds_iff {request : Request} {target : Target} :
    r.Binds request target ↔
      Pass.boundTarget? (fun request => (r.bind {} request).1) request = some target := by
  cases shape : Pass.unsupportedName? request with
  | some fullName =>
    simp only [Pass.boundTarget?, shape, reduceCtorEq, iff_false]
    intro h
    rw [h.supported] at shape
    cases shape
  | none =>
    simp only [Pass.boundTarget?, shape]
    cases answer : (r.bind {} request).1 with
    | error e =>
      simp only [Except.toOption, reduceCtorEq, iff_false]
      intro h
      rw [h.bound] at answer
      cases answer
    | ok found =>
      constructor
      · intro h
        rw [h.bound] at answer
        cases answer
        rfl
      · intro same
        cases same
        exact ⟨shape, answer⟩

theorem repeat_iff_of_expressible (r : Resolver) (options : PassOptions) (requests : List Request)
    (expressible : ∀ request ∈ requests, request.IsExpressible r.program) (place : Nat) :
    (Pass.run r.backend options {} {} requests).1.reports[place]?.map Report.status =
        some .duplicate ↔
      ∃ request target, requests[place]? = some request ∧ r.Binds request target ∧
        ∃ earlier < place, ∃ request' target', requests[earlier]? = some request' ∧
          r.Binds request' target' ∧
          (SameThing request' target' request target ∨
            FalseRepeat request' target' request target) := by
  have named : ∀ {position : Nat} {request : Request} {target : Target},
      requests[position]? = some request → r.Binds request target → target.Naming r request :=
    fun own binds => bind_naming binds (expressible _ (List.mem_of_getElem? own))
  rw [Pass.status_iff_repeat, Pass.run_repeats]
  obtain ⟨_, bound, _⟩ := Pass.bindAll_steady (backend_binds r) (fun _ => .ok none) requests
    (Pass.coreUnits options {}).2 start_agrees
  rw [bound, List.getElem?_map, Pass.bindAll_repeat_iff]
  simp only [← binds_iff]
  constructor
  · rintro ⟨request, target, own, binds, ⟨earlier, before, request', own', target', binds', same⟩ |
      taken⟩
    · refine ⟨request, target, own, binds, earlier, before, request', target', own', binds', ?_⟩
      exact (key_eq_iff (named own' binds') (named own binds)).mp same
    · exact ((named own binds).key_ne_core (Pass.eq_core_of_mem taken)).elim
  · rintro ⟨request, target, own, binds, earlier, before, request', target', own', binds', alike⟩
    refine ⟨request, target, own, binds,
      Or.inl ⟨earlier, before, request', own', target', binds', ?_⟩⟩
    exact (key_eq_iff (named own' binds') (named own binds)).mpr alike

/-- Of the requests that markers can express, exactly those are told to be repeats in a first pass
that name the same thing as an earlier one, or that are false repeats of an earlier one. -/
theorem repeats_iff (r : Resolver) :
    (∀ extra requests, Marker.collect r.program extra = .ok requests →
      ∀ request ∈ requests, request.IsExpressible r.program) ∧
    ∀ (options : PassOptions) (requests : List Request),
      (∀ request ∈ requests, request.IsExpressible r.program) → ∀ place : Nat,
      ((Pass.run r.backend options {} {} requests).1.reports[place]?.map Report.status =
          some .duplicate ↔
        ∃ request target, requests[place]? = some request ∧ r.Binds request target ∧
          ∃ earlier < place, ∃ request' target', requests[earlier]? = some request' ∧
            r.Binds request' target' ∧
            (SameThing request' target' request target ∨
              FalseRepeat request' target' request target)) :=
  ⟨fun _ _ collected => Marker.collect_expressible collected, r.repeat_iff_of_expressible⟩

def besideUnknown : Request :=
  { subject := .textual "N.T", home := Home.anchored (.mk none [.mk "Lib" []]) none }

def inModule : Request := { subject := .textual "N.T", home := Home.named "Lib" }

theorem beside_unknown_expressible (program : SourceProgram) :
    ∀ request ∈ [besideUnknown, inModule], request.IsExpressible program := by
  have word : IsWord "Lib" := ⟨by decide, List.all_eq_true.mp rfl⟩
  intro request held
  rcases List.mem_cons.mp held with rfl | later
  · refine Or.inl fun anchor same => ?_
    cases same
    exact ⟨nofun, nofun, ⟨word, trivial⟩, trivial⟩
  · obtain rfl := List.mem_singleton.mp later
    exact Or.inl nofun

theorem repeats_iff_beside_unknown :
    (∀ request ∈ [besideUnknown, inModule], request.IsExpressible besideOneModule.program) ∧
    ((Pass.run besideOneModule.backend {} {} {} [besideUnknown, inModule]).1.reports[1]?.map
        Report.status = some .duplicate ↔
      ∃ request target, [besideUnknown, inModule][1]? = some request ∧
        besideOneModule.Binds request target ∧
        ∃ earlier < 1, ∃ request' target', [besideUnknown, inModule][earlier]? = some request' ∧
          besideOneModule.Binds request' target' ∧
          (SameThing request' target' request target ∨
            FalseRepeat request' target' request target)) := by
  have expressible := beside_unknown_expressible besideOneModule.program
  obtain ⟨_, repeats⟩ := repeats_iff besideOneModule
  exact ⟨expressible, repeats {} [besideUnknown, inModule] expressible 1⟩

/-- The request for the type in the module is dropped, although the one before it is bound to no
module. -/
theorem unknown_anchor_hides_module :
    (Pass.run besideOneModule.backend {} {} {} [besideUnknown, inModule]).1.reports[1]?.map
        Report.status = some .duplicate ∧
    ∃ target target', besideOneModule.Binds besideUnknown target ∧
      besideOneModule.Binds inModule target' ∧
      ¬SameThing besideUnknown target inModule target' := by
  refine ⟨by decide, { key := "Lib|N.T", request := besideUnknown, fullName := "N.T" },
    { key := "Lib|N.T", request := inModule, fullName := "N.T", module? := some "Lib" },
    ⟨by decide, rfl⟩, ⟨by decide, rfl⟩, ?_⟩
  rintro (⟨t, left, _⟩ | ⟨m, left, _⟩ | ⟨_, right, _⟩)
  · cases left
  · cases left
  · cases right

end Resolver

end HiddenNames
