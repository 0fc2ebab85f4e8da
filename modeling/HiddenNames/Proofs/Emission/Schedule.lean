import HiddenNames.Proofs.Assoc
import HiddenNames.Proofs.Emission.Steady
import HiddenNames.Proofs.Resolution.History

/-!
Schedules: a pass whose workers take up the bound targets in any order gives what the pass in list
order gives. Places are taken once, so every answer goes back to the request that it belongs to.
-/

namespace HiddenNames

namespace Pass

theorem mem_waiting_iff {place : Nat} {progress : List Progress} {job : Nat × Target} :
    job ∈ waiting place progress ↔
      ∃ i request, progress[i]? = some (.bound request job.2) ∧ job.1 = place + i := by
  induction progress generalizing place with
  | nil => simp [waiting]
  | cons p rest ih =>
    have shifted : (∃ i request, rest[i]? = some (.bound request job.2) ∧ job.1 = place + 1 + i) ↔
        ∃ i request, (p :: rest)[i + 1]? = some (.bound request job.2) ∧
        job.1 = place + (i + 1) := by
      simp only [List.getElem?_cons_succ, Nat.add_assoc, Nat.add_comm 1]
    cases p with
    | finished outcome =>
      rw [waiting, ih, shifted]
      constructor
      · rintro ⟨i, found⟩
        exact ⟨i + 1, found⟩
      · rintro ⟨_ | i, request, found, stands⟩
        · cases found
        · exact ⟨i, request, found, stands⟩
    | bound request target =>
      rw [waiting, List.mem_cons, ih, shifted]
      constructor
      · rintro (rfl | ⟨i, found⟩)
        · exact ⟨0, request, rfl, rfl⟩
        · exact ⟨i + 1, found⟩
      · rintro ⟨_ | i, request', found, stands⟩
        · cases found
          exact Or.inl (Prod.ext stands rfl)
        · exact Or.inr ⟨i, request', found, stands⟩

theorem waiting_from (progress : List Progress) {place : Nat} {job : Nat × Target}
    (h : job ∈ waiting place progress) : place ≤ job.1 := by
  obtain ⟨i, _, _, stands⟩ := mem_waiting_iff.mp h
  omega

theorem waiting_distinct (place : Nat) (progress : List Progress) :
    ((waiting place progress).map Prod.fst).Nodup := by
  induction progress generalizing place with
  | nil => exact List.nodup_nil
  | cons p rest ih =>
    cases p with
    | finished outcome => exact ih (place + 1)
    | bound request target =>
      refine List.nodup_cons.mpr ⟨fun again => ?_, ih (place + 1)⟩
      obtain ⟨job, held, same⟩ := List.mem_map.mp again
      have later := waiting_from rest held
      omega

variable {resolve : Target → Except Mishap (Option Resolved)}

/-- Answers that are right at the place of every job make up the stages of all requests. -/
theorem settle_right {answers : List (Nat × Except Mishap (Option Resolved))}
    (progress : List Progress) {place : Nat}
    (right : ∀ job ∈ waiting place progress, answers.lookup job.1 = some (resolve job.2)) :
    settle answers place progress = progress.map (stageOf resolve) := by
  induction progress generalizing place with
  | nil => rfl
  | cons p rest ih =>
    cases p with
    | finished outcome =>
      rw [settle, ih right, List.map_cons, stageOf]
    | bound request target =>
      have here : answers.lookup place = some (resolve target) :=
        right (place, target) List.mem_cons_self
      have others := ih fun job held => right job (List.mem_cons_of_mem _ held)
      rw [settle, here, others, List.map_cons, stageOf, Option.getD_some]

/-- The order in which the jobs were done has no part in the stages. -/
theorem settle_scheduled {jobs : List (Nat × Target)} {progress : List Progress} {place : Nat}
    (all : jobs.Perm (waiting place progress)) :
    settle (jobs.map fun job => (job.1, resolve job.2)) place progress =
      progress.map (stageOf resolve) := by
  refine settle_right progress fun job held => (lookup_iff_mem ?_).mpr ?_
  · have places :
        (jobs.map fun job => (job.1, resolve job.2)).map Prod.fst = jobs.map Prod.fst := by
      rw [List.map_map]
      rfl
    rw [places, (all.map Prod.fst).nodup_iff]
    exact waiting_distinct place progress
  · exact List.mem_map.mpr ⟨job, all.mem_iff.mpr held, rfl⟩

variable {σ : Type} {b : Backend σ} {good : σ → Prop} {bind : Request → Except Mishap Target}

theorem runScheduled_steady (h : b.Steady good bind resolve) (options : PassOptions)
    {schedule : List (Nat × Target) → List (Nat × Target)}
    (fair : ∀ jobs, (schedule jobs).Perm jobs) (registry : Registry) {s : σ} (hs : good s)
    (requests : List Request) :
    ∃ later, runScheduled b options schedule registry s requests =
      ((run (.ofAnswers bind resolve) options registry () requests).1,
        (run (.ofAnswers bind resolve) options registry () requests).2.1, later) := by
  obtain ⟨mid, bound, hm⟩ :=
    bindAll_steady h.toBindsBy resolve requests (coreUnits options registry).2 hs
  obtain ⟨later, answered⟩ := resolveEach_steady h (schedule (waiting 0
    (bindAll (.ofAnswers bind resolve) (coreUnits options registry).2 () requests).1)) hm
  have functions : (Backend.ofAnswers bind resolve).Steady (fun _ => True) bind resolve :=
    ofAnswers_steady
  obtain ⟨_, plain⟩ := resolveAll_steady functions
    (bindAll (.ofAnswers bind resolve) (coreUnits options registry).2 () requests).1
    (s := ()) trivial
  refine ⟨later, ?_⟩
  simp only [runScheduled, run, bound, answered, plain, settle_scheduled (fair _)]

end Pass

namespace Resolver

variable {r : Resolver}

/-- Over sessions that agree with the world, a resolver binds as it does with nothing remembered. -/
theorem backend_binds (r : Resolver) :
    r.backend.BindsBy (Session.Agrees r) (fun request => (r.bind {} request).1) := by
  refine ⟨fun s request agrees => ?_⟩
  have settles := bind_settles (r := r) request
  refine ⟨(r.bind s request).2, ?_, settles.leads agrees⟩
  exact Prod.ext (settles.same_answer agrees start_agrees) rfl

/-- So it resolves when no file is looked for before its module was asked for. -/
theorem backend_steady (h : LoadsFirst r.tiers) :
    r.backend.Steady (Session.Agrees r) (fun request => (r.bind {} request).1)
      (fun target => .ok (r.resolve {} target).1) := by
  refine ⟨backend_binds r, fun s target agrees => ?_⟩
  have settles := resolve_settles h target
  refine ⟨(r.resolve s target).2, ?_, settles.leads agrees⟩
  have same : (r.resolve s target).1 = (r.resolve {} target).1 :=
    settles.same_answer agrees start_agrees
  exact Prod.ext (congrArg Except.ok same) rfl

/-- With the usual tiers, neither what was asked before nor the order in which the bound targets are
resolved has a part in what a resolver finds and in what a pass gives. -/
theorem resolution_ignores_history (r : Resolver) (h : IsUsualChain r.tiers) :
    (∀ (before before' : List Call) (target : Target),
      (r.resolve (r.remembered before) target).1 = (r.resolve (r.remembered before') target).1) ∧
    ∀ (before : List Call) (options : PassOptions) (registry : Registry)
      (schedule : List (Nat × Target) → List (Nat × Target)) (requests : List Request),
      (∀ jobs, (schedule jobs).Perm jobs) →
      (Pass.runScheduled r.backend options schedule registry (r.remembered before) requests).1 =
        (Pass.run r.backend options registry (r.remembered before) requests).1 := by
  have loads : LoadsFirst r.tiers := loadsFirst_of_usual h
  constructor
  · intro before before' target
    exact (resolve_settles loads target).same_answer (remembered_agrees loads before)
      (remembered_agrees loads before')
  · intro before options registry schedule requests fair
    have steady := backend_steady loads
    have agrees := remembered_agrees loads before
    obtain ⟨_, scheduled⟩ :=
      Pass.runScheduled_steady steady options fair registry agrees requests
    obtain ⟨_, ordered⟩ := Pass.run_steady steady options registry agrees requests
    rw [scheduled, ordered]

/-- A program without types beside a module that can be loaded, with one tier that never works. -/
def besideOneModule : Resolver where
  program := {}
  world :=
    { disk := { working := [], entries := .ofList [] },
      decode := fun path _ => .error (.unreadable path),
      modules := fun identity =>
        if identity = "Lib" then some { identity, find := fun _ => .ok none } else none }
  tiers := [.static, .failing "offline", .loaded, .metadata]

theorem resolution_ignores_loading_before :
    IsUsualChain besideOneModule.tiers ∧
    (∀ target : Target,
      (besideOneModule.resolve (besideOneModule.remembered [.load "Lib", .locate "Lib"]) target).1 =
        (besideOneModule.resolve (besideOneModule.remembered []) target).1) ∧
    ∀ requests : List Request,
      (Pass.runScheduled besideOneModule.backend {} List.reverse {} (besideOneModule.remembered [])
          requests).1 =
        (Pass.run besideOneModule.backend {} {} (besideOneModule.remembered []) requests).1 := by
  have usual : IsUsualChain besideOneModule.tiers := rfl
  obtain ⟨resolved, passes⟩ := resolution_ignores_history besideOneModule usual
  refine ⟨usual, resolved [.load "Lib", .locate "Lib"] [], fun requests => ?_⟩
  exact passes [] {} {} List.reverse requests List.reverse_perm

end Resolver

end HiddenNames
