import HiddenNames.Emission.Pass

/-!
Steady backends: what a request is bound to and what a target is resolved to are functions of the
request and the target, whatever the backend remembers. A pass over a steady backend gives what it
gives over the two functions alone, and in whatever order its targets are resolved.
-/

namespace HiddenNames

/-- In good states requests are bound by a function, and good states lead to good states. -/
structure Backend.BindsBy {σ : Type} (b : Backend σ) (good : σ → Prop)
    (bind : Request → Except Mishap Target) : Prop where
  bind_steady : ∀ s request, good s → ∃ later, b.bind s request = (bind request, later) ∧ good later

/-- In good states all answers are those of two functions, and good states lead to good states. -/
structure Backend.Steady {σ : Type} (b : Backend σ) (good : σ → Prop)
    (bind : Request → Except Mishap Target)
    (resolve : Target → Except Mishap (Option Resolved)) : Prop extends b.BindsBy good bind where
  resolve_steady : ∀ s target, good s →
    ∃ later, b.resolve s target = (resolve target, later) ∧ good later

/-- Two functions as a backend that remembers nothing. -/
def Backend.ofAnswers (bind : Request → Except Mishap Target)
    (resolve : Target → Except Mishap (Option Resolved)) : Backend Unit where
  bind _ request := (bind request, ())
  resolve _ target := (resolve target, ())

namespace Pass

variable {σ : Type} {b : Backend σ} {good : σ → Prop} {bind : Request → Except Mishap Target}
  {resolve : Target → Except Mishap (Option Resolved)}

def stageOf (resolve : Target → Except Mishap (Option Resolved)) : Progress → Stage
  | .finished outcome => .finished outcome
  | .bound request target => .resolved request target (resolve target)

theorem bindOne_steady (h : b.BindsBy good bind)
    (resolve : Target → Except Mishap (Option Resolved)) (registry : Registry) {s : σ} (hs : good s)
    (request : Request) :
    ∃ later, bindOne b registry s request =
        ((bindOne (.ofAnswers bind resolve) registry () request).1,
          (bindOne (.ofAnswers bind resolve) registry () request).2.1, later) ∧ good later := by
  cases shape : unsupportedName? request with
  | some fullName =>
    refine ⟨s, ?_, hs⟩
    simp only [bindOne, shape]
  | none =>
    obtain ⟨later, ran, hl⟩ := h.bind_steady s request hs
    refine ⟨later, ?_, hl⟩
    cases answer : bind request with
    | error e => simp only [bindOne, shape, ran, answer, Backend.ofAnswers]
    | ok target =>
      rcases claimed : registry.claim target.key with ⟨_ | _, next⟩
      · simp only [bindOne, shape, ran, answer, claimed, Backend.ofAnswers]
      · simp only [bindOne, shape, ran, answer, claimed, Backend.ofAnswers]

theorem bindAll_steady (h : b.BindsBy good bind)
    (resolve : Target → Except Mishap (Option Resolved)) (requests : List Request)
    (registry : Registry) {s : σ} (hs : good s) :
    ∃ later, bindAll b registry s requests =
        ((bindAll (.ofAnswers bind resolve) registry () requests).1,
          (bindAll (.ofAnswers bind resolve) registry () requests).2.1, later) ∧ good later := by
  induction requests generalizing registry s with
  | nil => exact ⟨s, rfl, hs⟩
  | cons request rest ih =>
    obtain ⟨mid, first, hm⟩ := bindOne_steady h resolve registry hs request
    obtain ⟨later, others, hl⟩ :=
      ih (bindOne (.ofAnswers bind resolve) registry () request).2.1 hm
    refine ⟨later, ?_, hl⟩
    simp only [bindAll, first, others]

theorem resolveAll_steady (h : b.Steady good bind resolve) (progress : List Progress) {s : σ}
    (hs : good s) :
    ∃ later, resolveAll b s progress = (progress.map (stageOf resolve), later) := by
  induction progress generalizing s with
  | nil => exact ⟨s, rfl⟩
  | cons p rest ih =>
    cases p with
    | finished outcome =>
      obtain ⟨later, others⟩ := ih hs
      exact ⟨later, by simp only [resolveAll, others, List.map_cons, stageOf]⟩
    | bound request target =>
      obtain ⟨mid, first, hm⟩ := h.resolve_steady s target hs
      obtain ⟨later, others⟩ := ih hm
      exact ⟨later, by simp only [resolveAll, first, others, List.map_cons, stageOf]⟩

theorem resolveEach_steady (h : b.Steady good bind resolve) (jobs : List (Nat × Target)) {s : σ}
    (hs : good s) :
    ∃ later, resolveEach b s jobs = (jobs.map fun job => (job.1, resolve job.2), later) := by
  induction jobs generalizing s with
  | nil => exact ⟨s, rfl⟩
  | cons job rest ih =>
    obtain ⟨mid, first, hm⟩ := h.resolve_steady s job.2 hs
    obtain ⟨later, others⟩ := ih hm
    exact ⟨later, by simp only [resolveEach, first, others, List.map_cons]⟩

theorem ofAnswers_steady :
    (Backend.ofAnswers bind resolve).Steady (fun _ => True) bind resolve :=
  ⟨⟨fun _ _ _ => ⟨(), rfl, trivial⟩⟩, fun _ _ _ => ⟨(), rfl, trivial⟩⟩

/-- The memory of a steady backend has no part in what a pass gives. -/
theorem run_steady (h : b.Steady good bind resolve) (options : PassOptions) (registry : Registry)
    {s : σ} (hs : good s) (requests : List Request) :
    ∃ later, run b options registry s requests =
      ((run (.ofAnswers bind resolve) options registry () requests).1,
        (run (.ofAnswers bind resolve) options registry () requests).2.1, later) := by
  obtain ⟨mid, bound, hm⟩ :=
    bindAll_steady h.toBindsBy resolve requests (coreUnits options registry).2 hs
  obtain ⟨later, staged⟩ := resolveAll_steady h
    (bindAll (.ofAnswers bind resolve) (coreUnits options registry).2 () requests).1 hm
  have functions : (Backend.ofAnswers bind resolve).Steady (fun _ => True) bind resolve :=
    ofAnswers_steady
  obtain ⟨_, plain⟩ := resolveAll_steady functions
    (bindAll (.ofAnswers bind resolve) (coreUnits options registry).2 () requests).1
    (s := ()) trivial
  refine ⟨later, ?_⟩
  simp only [run, bound, staged, plain]

end Pass

end HiddenNames
