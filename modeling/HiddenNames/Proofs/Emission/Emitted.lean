import HiddenNames.Proofs.Emission.Agreement
import HiddenNames.Proofs.Identifier.Fresh

/-!
What a pass emits. Every generated file goes with a type and with the identity that the type got,
and no identity is given away twice.
-/

namespace HiddenNames

structure Emitted where
  request : Request
  resolved : Resolved
  identity : String

namespace Emitted

def view? (options : PassOptions) (e : Emitted) : Option UnitView :=
  e.resolved.unit (e.request.access.getD options.access) options.exposure (some e.identity)

def file (options : PassOptions) (e : Emitted) : EmissionUnit where
  hintName := hintName e.identity
  source := ((e.view? options).map UnitView.text).getD ""
  target := e.request.text
  tier? := some e.resolved.tier

theorem file_source {options : PassOptions} {e : Emitted} {view : UnitView}
    (built : e.view? options = some view) : (e.file options).source = view.text := by
  rw [file, built]
  rfl

end Emitted

namespace Registry

theorem chooseIdentity_free (r : Registry) (identity : String) :
    r.chooseIdentity identity ∉ r.identities := by
  by_cases taken : identity ∈ r.identities
  · rw [chooseIdentity, if_pos taken]
    exact Identifier.leastFree_free (Identifier.numbered_injective identity) r.identities 2
  · rw [chooseIdentity, if_neg taken]
    exact taken

end Registry

namespace Pass

def Progress.IsQuiet : Progress → Prop
  | .finished outcome => outcome.unit? = none
  | .bound _ _ => True

def Stage.IsQuiet : Stage → Prop
  | .finished outcome => outcome.unit? = none
  | .resolved _ _ _ => True

def emittedOne (options : PassOptions) (registry : Registry) (stage : Stage) : Option Emitted :=
  match stage with
  | .resolved request _ (.ok (some resolved)) =>
    if (synthesizeOne options registry stage).1.unit?.isSome then
      some ⟨request, resolved, registry.chooseIdentity resolved.view.identity⟩
    else none
  | _ => none

def emittedAll (options : PassOptions) (registry : Registry) : List Stage → List Emitted
  | [] => []
  | stage :: rest =>
    (emittedOne options registry stage).toList ++
      emittedAll options (synthesizeOne options registry stage).2 rest

def emitted {σ : Type} (b : Backend σ) (options : PassOptions) (registry : Registry) (s : σ)
    (requests : List Request) : List Emitted :=
  let (progress, registry, s) := bindAll b (coreUnits options registry).2 s requests
  emittedAll options registry (resolveAll b s progress).1

def emittedScheduled {σ : Type} (b : Backend σ) (options : PassOptions)
    (schedule : List (Nat × Target) → List (Nat × Target)) (registry : Registry) (s : σ)
    (requests : List Request) : List Emitted :=
  let (progress, registry, s) := bindAll b (coreUnits options registry).2 s requests
  emittedAll options registry
    (settle (resolveEach b s (schedule (waiting 0 progress))).1 0 progress)

variable {σ : Type} {options : PassOptions} {registry : Registry}

theorem bindOne_quiet (b : Backend σ) (registry : Registry) (s : σ) (request : Request) :
    (bindOne b registry s request).1.IsQuiet := by
  cases shape : unsupportedName? request with
  | some fullName =>
    simp only [bindOne, shape]
    rfl
  | none =>
    rcases answer : b.bind s request with ⟨e | target, later⟩
    · simp only [bindOne, shape, answer]
      rfl
    · rcases claimed : registry.claim target.key with ⟨_ | _, next⟩
      · simp only [bindOne, shape, answer, claimed]
        rfl
      · simp only [bindOne, shape, answer, claimed]
        trivial

theorem bindAll_quiet (b : Backend σ) (registry : Registry) (s : σ) (requests : List Request) :
    ∀ p ∈ (bindAll b registry s requests).1, p.IsQuiet := by
  induction requests generalizing registry s with
  | nil => exact fun _ held => absurd held List.not_mem_nil
  | cons request rest ih =>
    intro p held
    rcases List.mem_cons.mp held with rfl | later
    · exact bindOne_quiet b registry s request
    · exact ih _ _ p later

theorem resolveAll_quiet (b : Backend σ) (s : σ) {progress : List Progress}
    (quiet : ∀ p ∈ progress, p.IsQuiet) : ∀ stage ∈ (resolveAll b s progress).1, stage.IsQuiet := by
  induction progress generalizing s with
  | nil => exact fun _ held => absurd held List.not_mem_nil
  | cons p rest ih =>
    have others : ∀ p ∈ rest, p.IsQuiet := fun q held => quiet q (List.mem_cons_of_mem _ held)
    intro stage held
    cases p with
    | finished outcome =>
      rcases List.mem_cons.mp held with rfl | later
      · exact quiet (.finished outcome) List.mem_cons_self
      · exact ih s others stage later
    | bound request target =>
      rcases List.mem_cons.mp held with rfl | later
      · trivial
      · exact ih _ others stage later

theorem settle_quiet (answers : List (Nat × Except Mishap (Option Resolved))) (place : Nat)
    {progress : List Progress} (quiet : ∀ p ∈ progress, p.IsQuiet) :
    ∀ stage ∈ settle answers place progress, stage.IsQuiet := by
  induction progress generalizing place with
  | nil => exact fun _ held => absurd held List.not_mem_nil
  | cons p rest ih =>
    have others : ∀ p ∈ rest, p.IsQuiet := fun q held => quiet q (List.mem_cons_of_mem _ held)
    intro stage held
    cases p with
    | finished outcome =>
      rcases List.mem_cons.mp held with rfl | later
      · exact quiet (.finished outcome) List.mem_cons_self
      · exact ih (place + 1) others stage later
    | bound request target =>
      rcases List.mem_cons.mp held with rfl | later
      · trivial
      · exact ih (place + 1) others stage later

structure Emits (options : PassOptions) (registry : Registry) (stage : Stage) (e : Emitted) :
    Prop where
  emits : emittedOne options registry stage = some e
  unit : (synthesizeOne options registry stage).1.unit? = some (e.file options)
  chosen : e.identity = registry.chooseIdentity e.resolved.view.identity
  viewed : ∃ view, e.view? options = some view ∧ view.wrapper = wrapperName e.identity
  left : (synthesizeOne options registry stage).2.identities = e.identity :: registry.identities

structure EmitsNothing (options : PassOptions) (registry : Registry) (stage : Stage) : Prop where
  emits : emittedOne options registry stage = none
  unit : (synthesizeOne options registry stage).1.unit? = none
  left : (synthesizeOne options registry stage).2 = registry

theorem emission_cases (options : PassOptions) (registry : Registry) {stage : Stage}
    (quiet : stage.IsQuiet) :
    EmitsNothing options registry stage ∨ ∃ e, Emits options registry stage e := by
  cases stage with
  | finished outcome => exact Or.inl ⟨rfl, quiet, rfl⟩
  | resolved request target answer =>
    rcases synthesizeOne_cases options request target answer with
      ⟨outcome, withheld⟩ | ⟨resolved, first, renders⟩
    · have none := withheld.fits.withheld withheld.no_unit
      refine Or.inl ⟨?_, by rw [withheld.same]; exact none, by rw [withheld.same]⟩
      unfold emittedOne
      split
      · rw [withheld.same, none]
        rfl
      · rfl
    · obtain ⟨other, same⟩ := renders.answered
      cases same
      obtain ⟨view, built, text, shows⟩ := claimed_rendering registry renders.rendered
      have claims := renders.claims registry
      refine Or.inr ⟨⟨request, resolved, registry.chooseIdentity resolved.view.identity⟩, ?_⟩
      refine ⟨?_, ?_, rfl, ⟨view, built, shows.wrapper_named⟩, by rw [claims]; rfl⟩
      · simp only [emittedOne, claims, emission, Option.isSome_some, if_true]
      · rw [claims]
        simp only [emission, Emitted.file, Emitted.view?, built, Option.map_some, Option.getD_some,
          text]

theorem synthesizeAll_units {stages : List Stage} (quiet : ∀ stage ∈ stages, stage.IsQuiet) :
    (synthesizeAll options registry stages).1.filterMap Outcome.unit? =
      (emittedAll options registry stages).map (Emitted.file options) := by
  induction stages generalizing registry with
  | nil => rfl
  | cons stage rest ih =>
    rw [List.forall_mem_cons] at quiet
    rcases emission_cases options registry quiet.1 with nothing | ⟨e, something⟩
    · simp only [synthesizeAll, emittedAll, List.filterMap_cons, nothing.unit, nothing.emits,
        Option.toList_none, List.nil_append, ih quiet.2]
    · simp only [synthesizeAll, emittedAll, List.filterMap_cons, something.unit, something.emits,
        Option.toList_some, List.singleton_append, List.map_cons, ih quiet.2]

/-- What is emitted was emitted at some stage, by way of the identities given away before. -/
theorem mem_emittedAll {stages : List Stage} (quiet : ∀ stage ∈ stages, stage.IsQuiet) {e : Emitted}
    (held : e ∈ emittedAll options registry stages) :
    ∃ before, ∃ stage ∈ stages, Emits options before stage e := by
  induction stages generalizing registry with
  | nil => cases held
  | cons stage rest ih =>
    rw [List.forall_mem_cons] at quiet
    rcases List.mem_append.mp held with here | later
    · rcases emission_cases options registry quiet.1 with nothing | ⟨own, something⟩
      · rw [nothing.emits] at here
        cases here
      · rw [something.emits] at here
        obtain rfl := List.mem_singleton.mp here
        exact ⟨registry, stage, List.mem_cons_self, something⟩
    · obtain ⟨before, other, among, something⟩ := ih quiet.2 later
      exact ⟨before, other, List.mem_cons_of_mem stage among, something⟩

theorem emittedAll_viewed {stages : List Stage} (quiet : ∀ stage ∈ stages, stage.IsQuiet) :
    ∀ e ∈ emittedAll options registry stages, ∃ view, e.view? options = some view ∧
      view.wrapper = wrapperName e.identity := by
  intro e held
  obtain ⟨_, _, _, something⟩ := mem_emittedAll quiet held
  exact something.viewed

/-- No identity is given away twice, nor one that was taken before. -/
theorem emittedAll_fresh {stages : List Stage} (quiet : ∀ stage ∈ stages, stage.IsQuiet) :
    ((emittedAll options registry stages).map Emitted.identity).Nodup ∧
    ∀ e ∈ emittedAll options registry stages, e.identity ∉ registry.identities := by
  induction stages generalizing registry with
  | nil => exact ⟨List.nodup_nil, fun _ held => absurd held List.not_mem_nil⟩
  | cons stage rest ih =>
    rw [List.forall_mem_cons] at quiet
    rcases emission_cases options registry quiet.1 with nothing | ⟨own, something⟩
    · simp only [emittedAll, nothing.emits, nothing.left, Option.toList_none, List.nil_append]
      exact ih quiet.2
    · obtain ⟨distinct, unused⟩ := @ih (synthesizeOne options registry stage).2 quiet.2
      simp only [emittedAll, something.emits, Option.toList_some, List.singleton_append,
        List.map_cons]
      constructor
      · apply List.nodup_cons.mpr
        refine ⟨fun again => ?_, distinct⟩
        obtain ⟨other, held, same⟩ := List.mem_map.mp again
        apply unused other held
        rw [something.left, same]
        exact List.mem_cons_self
      · intro e held
        rcases List.mem_cons.mp held with rfl | later
        · rw [something.chosen]
          exact registry.chooseIdentity_free _
        · intro taken
          apply unused e later
          rw [something.left]
          exact List.mem_cons_of_mem _ taken

end Pass

end HiddenNames
