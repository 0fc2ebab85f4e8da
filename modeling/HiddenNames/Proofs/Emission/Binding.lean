import HiddenNames.Proofs.Emission.Steady

/-!
What binding does to a registry: a request that is bound takes the key of its target, or is a
repeated one, and a request that is not bound leaves the registry alone. Identities are never taken
while requests are bound.
-/

namespace HiddenNames

theorem split_at {α : Type} {xs : List α} {place : Nat} {x : α} (own : xs[place]? = some x) :
    ∃ before after, xs = before ++ x :: after ∧ before.length = place := by
  obtain ⟨inside, rfl⟩ := List.getElem?_eq_some_iff.mp own
  refine ⟨xs.take place, xs.drop (place + 1), ?_, ?_⟩
  · rw [List.getElem_cons_drop, List.take_append_drop]
  · rw [List.length_take, Nat.min_eq_left (Nat.le_of_lt inside)]

namespace Registry

theorem claim_of_taken {registry : Registry} {key : String} (h : key ∈ registry.keys) :
    registry.claim key = (false, registry) := if_pos h

theorem claim_of_free {registry : Registry} {key : String} (h : key ∉ registry.keys) :
    registry.claim key = (true, { registry with keys := key :: registry.keys }) := if_neg h

@[simp]
theorem claim_keys (registry : Registry) (key other : String) :
    other ∈ (registry.claim key).2.keys ↔ other = key ∨ other ∈ registry.keys := by
  by_cases taken : key ∈ registry.keys
  · rw [claim_of_taken taken]
    constructor
    · exact Or.inr
    · rintro (rfl | held)
      · exact taken
      · exact held
  · rw [claim_of_free taken, List.mem_cons]

@[simp]
theorem claim_identities (registry : Registry) (key : String) :
    (registry.claim key).2.identities = registry.identities := by
  by_cases taken : key ∈ registry.keys
  · rw [claim_of_taken taken]
  · rw [claim_of_free taken]

end Registry

namespace Pass

variable {bind : Request → Except Mishap Target}
  {resolve : Target → Except Mishap (Option Resolved)} {request : Request} {target : Target}

/-- The target of a request that gets as far as being bound. -/
def boundTarget? (bind : Request → Except Mishap Target) (request : Request) : Option Target :=
  match unsupportedName? request with
  | some _ => none
  | none => (bind request).toOption

theorem bindOne_bound (h : boundTarget? bind request = some target) (registry : Registry) :
    bindOne (.ofAnswers bind resolve) registry () request =
      (if target.key ∈ registry.keys then .finished (duplicate request target)
        else .bound request target,
      (registry.claim target.key).2, ()) := by
  cases shape : unsupportedName? request with
  | some fullName => simp only [boundTarget?, shape, reduceCtorEq] at h
  | none =>
    cases answer : bind request with
    | error e => simp [boundTarget?, shape, answer, Except.toOption] at h
    | ok found =>
      obtain rfl : found = target := by
        simpa [boundTarget?, shape, answer, Except.toOption] using h
      by_cases taken : found.key ∈ registry.keys
      · simp only [bindOne, shape, Backend.ofAnswers, answer, Registry.claim_of_taken taken,
          if_pos taken]
      · simp only [bindOne, shape, Backend.ofAnswers, answer, Registry.claim_of_free taken,
          if_neg taken]

theorem bindOne_unbound (resolve : Target → Except Mishap (Option Resolved))
    (h : boundTarget? bind request = none) :
    ∃ outcome, outcome.report.status ≠ .duplicate ∧ ∀ registry,
      bindOne (.ofAnswers bind resolve) registry () request =
        (.finished outcome, registry, ()) := by
  cases shape : unsupportedName? request with
  | some fullName =>
    have fresh : (unsupportedName request fullName).report.status ≠ .duplicate := by
      intro same
      cases same
    refine ⟨unsupportedName request fullName, fresh, fun registry => ?_⟩
    simp only [bindOne, shape]
  | none =>
    cases answer : bind request with
    | error e =>
      have fresh : (failure request e).report.status ≠ .duplicate := by
        intro same
        cases same
      refine ⟨failure request e, fresh, fun registry => ?_⟩
      simp only [bindOne, shape, Backend.ofAnswers, answer]
    | ok found => simp [boundTarget?, shape, answer, Except.toOption] at h

variable (bind resolve)

theorem bindOne_keys (registry : Registry) (request : Request) (key : String) :
    key ∈ (bindOne (.ofAnswers bind resolve) registry () request).2.1.keys ↔
      (∃ target, boundTarget? bind request = some target ∧ target.key = key) ∨
        key ∈ registry.keys := by
  cases found : boundTarget? bind request with
  | none =>
    obtain ⟨outcome, _, run⟩ := bindOne_unbound resolve found
    simp [run]
  | some target =>
    rw [bindOne_bound found, Registry.claim_keys]
    constructor
    · rintro (rfl | held)
      · exact Or.inl ⟨target, rfl, rfl⟩
      · exact Or.inr held
    · rintro (⟨other, same, rfl⟩ | held)
      · cases same
        exact Or.inl rfl
      · exact Or.inr held

@[simp]
theorem bindOne_identities {σ : Type} (b : Backend σ) (registry : Registry) (s : σ)
    (request : Request) : (bindOne b registry s request).2.1.identities = registry.identities := by
  cases shape : unsupportedName? request with
  | some fullName => simp only [bindOne, shape]
  | none =>
    rcases answer : b.bind s request with ⟨e | target, later⟩
    · simp only [bindOne, shape, answer]
    · have left := registry.claim_identities target.key
      rcases claimed : registry.claim target.key with ⟨_ | _, next⟩ <;>
        simpa only [bindOne, shape, answer, claimed] using left

/-- The keys that are taken after binding are those of the bound targets, beside the earlier
ones. -/
theorem bindAll_keys (registry : Registry) (requests : List Request) (key : String) :
    key ∈ (bindAll (.ofAnswers bind resolve) registry () requests).2.1.keys ↔
      (∃ request ∈ requests, ∃ target, boundTarget? bind request = some target ∧ target.key = key) ∨
        key ∈ registry.keys := by
  induction requests generalizing registry with
  | nil => simp [bindAll]
  | cons request rest ih =>
    rw [bindAll]
    simp only [ih, bindOne_keys]
    constructor
    · rintro (⟨other, held, taken⟩ | taken | before)
      · exact Or.inl ⟨other, List.mem_cons_of_mem _ held, taken⟩
      · exact Or.inl ⟨request, List.mem_cons_self, taken⟩
      · exact Or.inr before
    · rintro (⟨other, held, taken⟩ | before)
      · rcases List.mem_cons.mp held with rfl | later
        · exact Or.inr (Or.inl taken)
        · exact Or.inl ⟨other, later, taken⟩
      · exact Or.inr (Or.inr before)

@[simp]
theorem bindAll_identities {σ : Type} (b : Backend σ) (registry : Registry) (s : σ)
    (requests : List Request) :
    (bindAll b registry s requests).2.1.identities = registry.identities := by
  induction requests generalizing registry s with
  | nil => rfl
  | cons request rest ih =>
    simp [bindAll, ih]

variable {bind resolve}

theorem bindAll_append {σ : Type} (b : Backend σ) (registry : Registry) (s : σ)
    (before after : List Request) :
    bindAll b registry s (before ++ after) =
      ((bindAll b registry s before).1 ++
          (bindAll b (bindAll b registry s before).2.1 (bindAll b registry s before).2.2 after).1,
        (bindAll b (bindAll b registry s before).2.1 (bindAll b registry s before).2.2
          after).2) := by
  induction before generalizing registry s with
  | nil => rfl
  | cons request rest ih =>
    rw [List.cons_append, bindAll, bindAll]
    simp only [ih, List.cons_append]

@[simp]
theorem bindAll_length {σ : Type} (b : Backend σ) (registry : Registry) (s : σ)
    (requests : List Request) : (bindAll b registry s requests).1.length = requests.length := by
  induction requests generalizing registry s with
  | nil => rfl
  | cons request rest ih =>
    simp [bindAll, ih]

/-- The progress of a request is what binding it makes of the registry that the earlier ones
leave. -/
theorem bindAll_at {σ : Type} (b : Backend σ) (registry : Registry) (s : σ) (before : List Request)
    (request : Request) (after : List Request) :
    (bindAll b registry s (before ++ request :: after)).1[before.length]? =
      some (bindOne b (bindAll b registry s before).2.1 (bindAll b registry s before).2.2
        request).1 := by
  have front := bindAll_length b registry s before
  rw [bindAll_append, List.getElem?_append_right (Nat.le_of_eq front), front, Nat.sub_self]
  rfl

/-- Registries that differ only in keys which no request is bound to lead to the same progress. -/
theorem bindAll_congr {registry registry' : Registry} {requests : List Request}
    (h : ∀ request ∈ requests, ∀ target, boundTarget? bind request = some target →
      (target.key ∈ registry.keys ↔ target.key ∈ registry'.keys)) :
    (bindAll (.ofAnswers bind resolve) registry () requests).1 =
      (bindAll (.ofAnswers bind resolve) registry' () requests).1 := by
  induction requests generalizing registry registry' with
  | nil => rfl
  | cons request rest ih =>
    have first : (bindOne (.ofAnswers bind resolve) registry () request).1 =
        (bindOne (.ofAnswers bind resolve) registry' () request).1 := by
      cases found : boundTarget? bind request with
      | none =>
        obtain ⟨outcome, _, run⟩ := bindOne_unbound resolve found
        rw [run, run]
      | some target =>
        have alike := h request List.mem_cons_self target found
        rw [bindOne_bound found, bindOne_bound found]
        simp only [alike]
    rw [bindAll, bindAll]
    simp only [first]
    refine congrArg (List.cons _) (ih fun other held target found => ?_)
    rw [bindOne_keys, bindOne_keys, h other (List.mem_cons_of_mem _ held) target found]

end Pass

end HiddenNames
