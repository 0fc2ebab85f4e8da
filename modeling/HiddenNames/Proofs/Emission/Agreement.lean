import HiddenNames.Proofs.Emission.Generation

/-!
The three outputs of a pass tell the same story. What binding, resolution and generation hand on
stays in step with the requests, whatever a backend answers and however it remembers.
-/

namespace HiddenNames

structure PassResult.Agrees (result : PassResult) (options : PassOptions) (registry : Registry)
    (requests : List Request) : Prop where
  reports_stand : result.reports.map Report.target = requests.map Request.text
  diagnostics_stand : result.diagnostics.map (fun d => (d.problem.code, d.target)) =
    result.reports.filterMap fun report => report.status.code?.map fun code => (code, report.target)
  units_stand : ∃ units, result.units =
      (if options.emitCore ∧ Pass.coreKey ∉ registry.keys then
        [⟨coreHintName, coreText, "Nameof", none⟩] else []) ++ units ∧
    List.Forall₂ (Report.Backs options.exposure)
      (result.reports.filter fun report => report.status = .emitted) units

namespace Pass

variable {exposure : Exposure} {request : Request} {options : PassOptions} {registry : Registry}

def Progress.Of (exposure : Exposure) (request : Request) : Progress → Prop
  | .finished outcome => outcome.Fits exposure request
  | .bound asked _ => asked = request

variable {σ : Type}

theorem bindOne_of (b : Backend σ) (registry : Registry) (s : σ) (request : Request) :
    (bindOne b registry s request).1.Of exposure request := by
  cases shape : unsupportedName? request with
  | some fullName =>
    simp only [bindOne, shape]
    exact outcomeOf_fits rfl rfl
  | none =>
    rcases answer : b.bind s request with ⟨e | target, later⟩
    · simp only [bindOne, shape, answer]
      exact outcomeOf_fits rfl rfl
    · rcases claimed : registry.claim target.key with ⟨_ | _, next⟩
      · simp only [bindOne, shape, answer, claimed]
        exact silent_fits rfl rfl nofun
      · simp only [bindOne, shape, answer, claimed]
        rfl

theorem bindAll_of (exposure : Exposure) (b : Backend σ) (registry : Registry) (s : σ)
    (requests : List Request) :
    List.Forall₂ (Progress.Of exposure) requests (bindAll b registry s requests).1 := by
  induction requests generalizing registry s with
  | nil => exact .nil
  | cons request rest ih => exact .cons (bindOne_of b registry s request) (ih _ _)

theorem resolveAll_of (b : Backend σ) (s : σ) {requests : List Request} {progress : List Progress}
    (h : List.Forall₂ (Progress.Of exposure) requests progress) :
    List.Forall₂ (Stage.Of exposure) requests (resolveAll b s progress).1 := by
  induction h generalizing s with
  | nil => exact .nil
  | @cons request p _ _ first _ ih =>
    cases p with
    | finished outcome => exact .cons first (ih s)
    | bound asked target => exact .cons first (ih _)

theorem settle_of (answers : List (Nat × Except Mishap (Option Resolved))) (place : Nat)
    {requests : List Request} {progress : List Progress}
    (h : List.Forall₂ (Progress.Of exposure) requests progress) :
    List.Forall₂ (Stage.Of exposure) requests (settle answers place progress) := by
  induction h generalizing place with
  | nil => exact .nil
  | @cons request p _ _ first _ ih =>
    cases p with
    | finished outcome => exact .cons first (ih (place + 1))
    | bound asked target => exact .cons first (ih (place + 1))

theorem coreUnits_eq (options : PassOptions) (registry : Registry) :
    (coreUnits options registry).1 =
      if options.emitCore ∧ coreKey ∉ registry.keys then [⟨coreHintName, coreText, "Nameof", none⟩]
      else [] := by
  by_cases asked : options.emitCore = true
  · by_cases taken : coreKey ∈ registry.keys
    · simp [coreUnits, Registry.claim, asked, taken]
    · simp [coreUnits, Registry.claim, asked, taken]
  · simp [coreUnits, asked]

end Pass

namespace PassResult

variable {exposure : Exposure} {requests : List Request} {outcomes : List Outcome}

theorem reports_of_fits (h : List.Forall₂ (Outcome.Fits exposure) requests outcomes) :
    (outcomes.map Outcome.report).map Report.target = requests.map Request.text := by
  induction h with
  | nil => rfl
  | cons first _ ih => rw [List.map_cons, List.map_cons, List.map_cons, ih, first.reported]

theorem diagnostics_of_fits (h : List.Forall₂ (Outcome.Fits exposure) requests outcomes) :
    (outcomes.filterMap Outcome.diagnostic?).map (fun d => (d.problem.code, d.target)) =
      (outcomes.map Outcome.report).filterMap fun report =>
        report.status.code?.map fun code => (code, report.target) := by
  induction h with
  | nil => rfl
  | @cons request o _ _ first _ ih =>
    have diagnosed := first.diagnosed
    rw [← first.reported] at diagnosed
    rw [List.map_cons, List.filterMap_cons, List.filterMap_cons, ← diagnosed, ← ih]
    cases o.diagnostic? with
    | none => rfl
    | some d => rfl

theorem units_of_fits (h : List.Forall₂ (Outcome.Fits exposure) requests outcomes) :
    List.Forall₂ (Report.Backs exposure)
      ((outcomes.map Outcome.report).filter fun report => report.status = .emitted)
      (outcomes.filterMap Outcome.unit?) := by
  induction h with
  | nil => exact .nil
  | @cons request o _ _ first _ ih =>
    by_cases status : o.report.status = .emitted
    · obtain ⟨unit, out, backs⟩ := first.emitted status
      rw [List.map_cons, List.filter_cons_of_pos (by simpa using status),
        List.filterMap_cons_some out]
      exact .cons backs ih
    · rw [List.map_cons, List.filter_cons_of_neg (by simpa using status),
        List.filterMap_cons_none (first.withheld status)]
      exact ih

theorem agrees_of_fits {options : PassOptions} {registry : Registry}
    (h : List.Forall₂ (Outcome.Fits options.exposure) requests outcomes) :
    (Pass.resultOf (Pass.coreUnits options registry).1 outcomes).Agrees options registry requests :=
  ⟨reports_of_fits h, diagnostics_of_fits h,
    outcomes.filterMap Outcome.unit?, by rw [Pass.resultOf, Pass.coreUnits_eq], units_of_fits h⟩

end PassResult

/-- Whatever a backend answers, the outputs of a pass agree, be its targets resolved in list order
or by workers. -/
theorem Pass.outputs_agree {σ : Type} (b : Backend σ) (options : PassOptions) (registry : Registry)
    (s : σ) (requests : List Request) :
    (run b options registry s requests).1.Agrees options registry requests ∧
    ∀ schedule : List (Nat × Target) → List (Nat × Target),
      (runScheduled b options schedule registry s requests).1.Agrees options registry requests := by
  have bound := bindAll_of options.exposure b (coreUnits options registry).2 s requests
  constructor
  · exact PassResult.agrees_of_fits (synthesizeAll_fits (resolveAll_of b _ bound) _)
  · intro schedule
    exact PassResult.agrees_of_fits (synthesizeAll_fits (settle_of _ 0 bound) _)

end HiddenNames
