import HiddenNames.Emission.Pass
import HiddenNames.Proofs.Surface.Counts
import Mathlib.Data.List.Forall2

/-!
What generation does with a request. Either it leaves the registry alone and says the same whatever
was generated before, or it renders a type under the identity that it claims.
-/

namespace HiddenNames

def Status.code? : Status → Option String
  | .unsupported => some "NAMEOF001"
  | .unresolved => some "NAMEOF002"
  | .failed => some "NAMEOF003"
  | .emitted => none
  | .empty => none
  | .duplicate => none

/-- A report and the unit that it tells of. The unit is a rendering of some type under the identity
of its hint name, and shows as much as the report counts. -/
structure Report.Backs (exposure : Exposure) (report : Report) (unit : EmissionUnit) : Prop where
  same_target : unit.target = report.target
  same_tier : unit.tier? = report.tier?
  same_hint : report.hintName? = some unit.hintName
  rendered : ∃ (resolved : Resolved) (access : Access) (identity : String) (view : UnitView),
    report.tier? = some resolved.tier ∧
    resolved.unit access exposure (some identity) = some view ∧
    unit.source = view.text ∧ unit.hintName = hintName identity ∧
    view.Shows identity report.memberCount report.containerCount

structure Outcome.Fits (exposure : Exposure) (request : Request) (o : Outcome) : Prop where
  reported : o.report.target = request.text
  diagnosed : o.diagnostic?.map (fun d => (d.problem.code, d.target)) =
    o.report.status.code?.map fun code => (code, request.text)
  withheld : o.report.status ≠ .emitted → o.unit? = none
  emitted : o.report.status = .emitted → ∃ unit, o.unit? = some unit ∧ o.report.Backs exposure unit

theorem eraseIdx_middle {α : Type} (before after : List α) (x : α) :
    (before ++ x :: after).eraseIdx before.length = before ++ after := by
  rw [List.eraseIdx_append_of_length_le (Nat.le_refl _), Nat.sub_self, List.eraseIdx_cons_zero]

theorem getElem?_middle {α : Type} (before after : List α) (x : α) :
    (before ++ x :: after)[before.length]? = some x := by
  rw [List.getElem?_append_right (Nat.le_refl _), Nat.sub_self, List.getElem?_cons_zero]

theorem Registry.claimIdentity_congr {registry registry' : Registry}
    (same : registry.identities = registry'.identities) (identity : String) :
    (registry.claimIdentity identity).1 = (registry'.claimIdentity identity).1 ∧
    (registry.claimIdentity identity).2.identities =
      (registry'.claimIdentity identity).2.identities := by
  have chosen : registry.chooseIdentity identity = registry'.chooseIdentity identity := by
    simp only [chooseIdentity, same]
  exact ⟨chosen, by simp only [claimIdentity, chosen, same]⟩

namespace Pass

variable {exposure : Exposure} {request : Request} {options : PassOptions}
  {registry registry' : Registry}

/-- A diagnosed outcome fits when its status goes with the code of its problem. -/
theorem outcomeOf_fits {problem : Problem} {message : String} {report : Report}
    (reported : report.target = request.text) (coded : report.status.code? = some problem.code) :
    (outcomeOf problem message report).Fits exposure request where
  reported := reported
  diagnosed := by simp only [outcomeOf, Option.map_some, coded, reported]
  withheld := fun _ => rfl
  emitted := by
    intro (emitted : report.status = .emitted)
    rw [emitted] at coded
    cases coded

/-- An outcome that is a report and nothing else fits when its status goes with no code. -/
theorem silent_fits {report : Report} (reported : report.target = request.text)
    (silent : report.status.code? = none) (quiet : report.status ≠ .emitted) :
    Outcome.Fits exposure request { report } where
  reported := reported
  diagnosed := by simp only [silent, Option.map_none]
  withheld := fun _ => rfl
  emitted := fun emitted => (quiet emitted).elim

/-- The unit that stands for a report renders the resolved type under the claimed identity, be it
the one asked for or a numbered one. -/
theorem claimed_rendering (registry : Registry) {resolved : Resolved} {access : Access}
    {first : String}
    (h : resolved.render access exposure (some resolved.view.identity) = some first) :
    ∃ view, resolved.unit access exposure
        (some (registry.chooseIdentity resolved.view.identity)) = some view ∧
      (if registry.chooseIdentity resolved.view.identity = resolved.view.identity then first
        else (resolved.render access exposure
          (some (registry.chooseIdentity resolved.view.identity))).getD first) = view.text ∧
      view.Shows (registry.chooseIdentity resolved.view.identity) resolved.view.hiddenNames.length
        (resolved.containerCount exposure) := by
  obtain ⟨shown, built, rfl⟩ := Option.map_eq_some_iff.mp h
  by_cases kept : registry.chooseIdentity resolved.view.identity = resolved.view.identity
  · have shows := Resolved.unit_shows built
    rw [Resolved.identityOr_own] at shows
    rw [if_pos kept, kept]
    exact ⟨shown, built, rfl, shows⟩
  · rw [if_neg kept]
    have numbered : ∃ k, registry.chooseIdentity resolved.view.identity =
        Identifier.numbered resolved.view.identity k := by
      by_cases taken : resolved.view.identity ∈ registry.identities
      · rw [Registry.chooseIdentity, if_pos taken]
        exact ⟨_, rfl⟩
      · rw [Registry.chooseIdentity, if_neg taken] at kept
        exact (kept rfl).elim
    obtain ⟨k, chosen⟩ := numbered
    rw [chosen]
    have again : (resolved.unit access exposure
        (some (Identifier.numbered resolved.view.identity k))).isSome = true := by
      rw [Resolved.unit_isSome, ← Resolved.unit_isSome resolved access exposure, built]
      rfl
    obtain ⟨view, rebuilt⟩ := Option.isSome_iff_exists.mp again
    have shows := Resolved.unit_shows rebuilt
    rw [Resolved.identityOr_numbered] at shows
    refine ⟨view, rebuilt, ?_, shows⟩
    simp only [Resolved.render, rebuilt, Option.map_some, Option.getD_some]

def surveyed (options : PassOptions) (request : Request) (resolved : Resolved) : Report :=
  let containers := ContainerTree.ofTarget resolved.view ⟨!resolved.view.inSource, options.exposure⟩
  { target := request.text, status := .empty, tier? := some resolved.tier,
    module? := resolved.module?, memberCount := resolved.view.hiddenNames.length,
    containerCount := containers.size }

/-- The outcome of a type whose text under its own identity is known, under the identity it got. -/
def emission (options : PassOptions) (request : Request) (resolved : Resolved)
    (first identity : String) : Outcome :=
  let access := request.access.getD options.access
  let source :=
    if identity = resolved.view.identity then first
    else (resolved.render access options.exposure (some identity)).getD first
  { report :=
      { surveyed options request resolved with
        status := .emitted, hintName? := some (hintName identity) },
    unit? := some ⟨hintName identity, source, request.text, some resolved.tier⟩ }

structure Withholds (options : PassOptions) (request : Request) (stage : Stage)
    (outcome : Outcome) : Prop where
  same : ∀ registry, synthesizeOne options registry stage = (outcome, registry)
  fits : outcome.Fits options.exposure request
  no_unit : outcome.report.status ≠ .emitted
  no_repeat : outcome.report.status ≠ .duplicate

structure Renders (options : PassOptions) (request : Request) (stage : Stage) (resolved : Resolved)
    (first : String) : Prop where
  rendered : resolved.render (request.access.getD options.access) options.exposure
    (some resolved.view.identity) = some first
  claims : ∀ registry : Registry, synthesizeOne options registry stage =
    (emission options request resolved first (registry.chooseIdentity resolved.view.identity),
      (registry.claimIdentity resolved.view.identity).2)
  answered : ∃ target, stage = .resolved request target (.ok (some resolved))

/-- All that generation can do with a target that went through resolution. -/
theorem synthesizeOne_cases (options : PassOptions) (request : Request) (target : Target)
    (answer : Except Mishap (Option Resolved)) :
    (∃ outcome, Withholds options request (.resolved request target answer) outcome) ∨
    ∃ resolved first, Renders options request (.resolved request target answer) resolved first := by
  rcases answer with e | _ | resolved
  · exact Or.inl ⟨failure request e, fun _ => rfl, outcomeOf_fits rfl rfl, nofun, nofun⟩
  · exact Or.inl ⟨unresolved request target, fun _ => rfl, outcomeOf_fits rfl rfl, nofun, nofun⟩
  by_cases hidden : (resolved.view.inSource && !resolved.view.isExposed) = true
  · refine Or.inl ⟨inaccessible request resolved, ?_, outcomeOf_fits rfl rfl, nofun, nofun⟩
    intro registry
    simp only [synthesizeOne, if_pos hidden]
  cases broken : resolved.view.tree.walkError with
  | some e =>
    refine Or.inl ⟨failure request (.arity e), ?_, outcomeOf_fits rfl rfl, nofun, nofun⟩
    intro registry
    simp only [synthesizeOne, if_neg hidden, emit, broken]
  | none =>
    cases first : resolved.render (request.access.getD options.access) options.exposure
        (some resolved.view.identity) with
    | none =>
      refine Or.inl ⟨{ report := surveyed options request resolved }, ?_, silent_fits rfl rfl nofun,
        nofun, nofun⟩
      intro registry
      simp only [synthesizeOne, if_neg hidden, emit, broken, first, surveyed]
    | some source =>
      refine Or.inr ⟨resolved, source, first, ?_, target, rfl⟩
      intro registry
      simp only [synthesizeOne, if_neg hidden, emit, broken, first]
      rfl

def Stage.Of (exposure : Exposure) (request : Request) : Stage → Prop
  | .finished outcome => outcome.Fits exposure request
  | .resolved asked _ _ => asked = request

theorem synthesizeOne_fits {stage : Stage} (h : stage.Of options.exposure request)
    (registry : Registry) :
    (synthesizeOne options registry stage).1.Fits options.exposure request := by
  cases stage with
  | finished outcome => exact h
  | resolved asked target answer =>
    obtain rfl : asked = request := h
    rcases synthesizeOne_cases options asked target answer with
      ⟨outcome, withheld⟩ | ⟨resolved, first, rendered⟩
    · rw [withheld.same]
      exact withheld.fits
    · rw [rendered.claims]
      obtain ⟨view, built, text, shows⟩ := claimed_rendering registry rendered.rendered
      refine ⟨rfl, rfl, fun other => (other rfl).elim, fun _ => ⟨_, rfl, rfl, rfl, rfl, ?_⟩⟩
      exact ⟨resolved, _, _, view, rfl, built, text, rfl, shows⟩

theorem synthesizeOne_quiet {stage : Stage}
    (h : (synthesizeOne options registry stage).1.report.status ≠ .emitted) :
    (synthesizeOne options registry stage).2 = registry := by
  cases stage with
  | finished outcome => rfl
  | resolved request target answer =>
    rcases synthesizeOne_cases options request target answer with
      ⟨outcome, withheld⟩ | ⟨resolved, first, rendered⟩
    · rw [withheld.same]
    · rw [rendered.claims] at h
      exact (h rfl).elim

/-- Generation looks at nothing of a registry but its identities. -/
theorem synthesizeOne_congr (options : PassOptions)
    (same : registry.identities = registry'.identities) (stage : Stage) :
    (synthesizeOne options registry stage).1 = (synthesizeOne options registry' stage).1 ∧
    (synthesizeOne options registry stage).2.identities =
      (synthesizeOne options registry' stage).2.identities := by
  cases stage with
  | finished outcome => exact ⟨rfl, same⟩
  | resolved request target answer =>
    rcases synthesizeOne_cases options request target answer with
      ⟨outcome, withheld⟩ | ⟨resolved, first, rendered⟩
    · rw [withheld.same, withheld.same]
      exact ⟨rfl, same⟩
    · obtain ⟨chosen, after⟩ := Registry.claimIdentity_congr same resolved.view.identity
      rw [rendered.claims, rendered.claims]
      exact ⟨congrArg (emission options request resolved first) chosen, after⟩

theorem synthesizeAll_fits {requests : List Request} {stages : List Stage}
    (h : List.Forall₂ (Stage.Of options.exposure) requests stages) (registry : Registry) :
    List.Forall₂ (Outcome.Fits options.exposure) requests
      (synthesizeAll options registry stages).1 := by
  induction h generalizing registry with
  | nil => exact .nil
  | cons first _ ih => exact .cons (synthesizeOne_fits first registry) (ih _)

theorem synthesizeAll_congr (same : registry.identities = registry'.identities)
    (stages : List Stage) :
    (synthesizeAll options registry stages).1 = (synthesizeAll options registry' stages).1 := by
  induction stages generalizing registry registry' with
  | nil => rfl
  | cons stage rest ih =>
    obtain ⟨first, after⟩ := synthesizeOne_congr options same stage
    simp only [synthesizeAll]
    rw [first, ih after]

theorem synthesizeAll_append (options : PassOptions) (registry : Registry)
    (before after : List Stage) :
    (synthesizeAll options registry (before ++ after)).1 =
      (synthesizeAll options registry before).1 ++
        (synthesizeAll options (synthesizeAll options registry before).2 after).1 := by
  induction before generalizing registry with
  | nil => rfl
  | cons stage rest ih =>
    simp only [List.cons_append, synthesizeAll, ih]

@[simp]
theorem synthesizeAll_length (options : PassOptions) (registry : Registry) (stages : List Stage) :
    (synthesizeAll options registry stages).1.length = stages.length := by
  induction stages generalizing registry with
  | nil => rfl
  | cons stage rest ih =>
    simp only [synthesizeAll, List.length_cons, ih]

theorem synthesizeAll_without {before after : List Stage} {stage : Stage} {outcome : Outcome}
    (own : (synthesizeAll options registry (before ++ stage :: after)).1[before.length]? =
      some outcome)
    (quiet : outcome.report.status ≠ .emitted) :
    (synthesizeAll options registry (before ++ after)).1 =
      (synthesizeAll options registry (before ++ stage :: after)).1.eraseIdx before.length := by
  have front := synthesizeAll_length options registry before
  rw [synthesizeAll_append, synthesizeAll, ← front, getElem?_middle, Option.some.injEq] at own
  rw [← own] at quiet
  rw [synthesizeAll_append, synthesizeAll_append, synthesizeAll, ← front, eraseIdx_middle,
    synthesizeOne_quiet quiet]

end Pass

end HiddenNames
