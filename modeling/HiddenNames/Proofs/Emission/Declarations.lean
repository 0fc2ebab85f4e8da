import HiddenNames.Proofs.Emission.Emitted
import HiddenNames.Proofs.Surface.Declared

/-!
Which types the units of a pass declare twice. Wrappers differ as their identities do; placeholders
are made for each unit alone, so two of them may declare one type, and a placeholder may be called
like the wrapper of another unit. Nothing else is declared twice.
-/

namespace HiddenNames

def UnitView.DeclaresApart (u u' : UnitView) : Prop := ∀ t ∈ u.declares, t ∉ u'.declares

instance (u u' : UnitView) : Decidable (u.DeclaresApart u') :=
  inferInstanceAs (Decidable (∀ t ∈ u.declares, t ∉ u'.declares))

namespace Emitted

variable (options : PassOptions)

def wrapperType (e : Emitted) : DeclaredType :=
  ⟨namedSpace e.resolved.view.space?, wrapperName e.identity, 0⟩

/-- Both types need a placeholder, and their outermost types are declared alike. -/
def SharesPlaceholder (e other : Emitted) : Prop :=
  e.resolved.needsStub options.exposure = true ∧
    other.resolved.needsStub options.exposure = true ∧
    e.resolved.view.placeholder = other.resolved.view.placeholder

/-- The type needs a placeholder that is declared like the wrapper of another one. -/
def ShadowsWrapper (e other : Emitted) : Prop :=
  e.resolved.needsStub options.exposure = true ∧ e.resolved.view.placeholder = other.wrapperType

def Clashes (e other : Emitted) : Prop :=
  e.SharesPlaceholder options other ∨ e.ShadowsWrapper options other ∨
    other.ShadowsWrapper options e

variable {options}

theorem wrapperType_ne {e other : Emitted} (apart : e.identity ≠ other.identity) :
    e.wrapperType ≠ other.wrapperType := by
  intro same
  have names : wrapperName e.identity = wrapperName other.identity :=
    congrArg DeclaredType.name same
  exact apart ((String.append_right_inj _).mp names)

theorem mem_declares {e : Emitted} {u : UnitView} (viewed : e.view? options = some u)
    (named : u.wrapper = wrapperName e.identity) (t : DeclaredType) :
    t ∈ u.declares ↔ t = e.wrapperType ∨
      (e.resolved.needsStub options.exposure = true ∧ t = e.resolved.view.placeholder) := by
  rw [Resolved.unit_declares viewed, named, List.mem_cons]
  by_cases hidden : e.resolved.needsStub options.exposure = true
  · rw [if_pos hidden, List.mem_singleton, and_iff_right hidden]
    rfl
  · rw [if_neg hidden, or_iff_left List.not_mem_nil, or_iff_left fun h => hidden h.1]
    rfl

/-- Units with identities of their own share a declaration if and only if their types clash. -/
theorem declaresApart_iff {e other : Emitted} {u u' : UnitView} (viewed : e.view? options = some u)
    (named : u.wrapper = wrapperName e.identity) (viewed' : other.view? options = some u')
    (named' : u'.wrapper = wrapperName other.identity) (apart : e.identity ≠ other.identity) :
    u.DeclaresApart u' ↔ ¬e.Clashes options other := by
  have wrappers := wrapperType_ne apart
  constructor
  · rintro clear (⟨hidden, hidden', same⟩ | ⟨hidden, same⟩ | ⟨hidden', same⟩)
    · apply clear e.resolved.view.placeholder
      · exact (mem_declares viewed named _).mpr (Or.inr ⟨hidden, rfl⟩)
      · exact (mem_declares viewed' named' _).mpr (Or.inr ⟨hidden', same⟩)
    · apply clear e.resolved.view.placeholder
      · exact (mem_declares viewed named _).mpr (Or.inr ⟨hidden, rfl⟩)
      · exact (mem_declares viewed' named' _).mpr (Or.inl same)
    · apply clear other.resolved.view.placeholder
      · exact (mem_declares viewed named _).mpr (Or.inl same)
      · exact (mem_declares viewed' named' _).mpr (Or.inr ⟨hidden', rfl⟩)
  · intro clear t held held'
    apply clear
    rcases (mem_declares viewed named t).mp held with own | ⟨hidden, own⟩
    · rcases (mem_declares viewed' named' t).mp held' with other_own | ⟨hidden', other_own⟩
      · exact absurd (own.symm.trans other_own) wrappers
      · exact Or.inr (Or.inr ⟨hidden', other_own.symm.trans own⟩)
    · rcases (mem_declares viewed' named' t).mp held' with other_own | ⟨hidden', other_own⟩
      · exact Or.inr (Or.inl ⟨hidden, own.symm.trans other_own⟩)
      · exact Or.inl ⟨hidden, hidden', own.symm.trans other_own⟩

end Emitted

/-- What the units of a pass declare: each unit is written from its model, and no type is declared
by two of the models unless two of the emitted types clash. -/
structure PassResult.DeclaresOnceUnless (options : PassOptions) (core : List EmissionUnit)
    (result : PassResult) (emitted : List Emitted) : Prop where
  units : result.units = core ++ emitted.map (Emitted.file options)
  written : ∀ e ∈ emitted, ∃ u, e.view? options = some u ∧ (e.file options).source = u.text
  declared : (emitted.filterMap (Emitted.view? options)).Pairwise UnitView.DeclaresApart ↔
    emitted.Pairwise fun e other => ¬e.Clashes options other

namespace Pass

variable {options : PassOptions} {registry : Registry}

theorem declares_once_unless {stages : List Stage} (quiet : ∀ stage ∈ stages, stage.IsQuiet)
    (core : List EmissionUnit) :
    PassResult.DeclaresOnceUnless options core
      (resultOf core (synthesizeAll options registry stages).1)
      (emittedAll options registry stages) := by
  have viewed : ∀ e ∈ emittedAll options registry stages, ∃ u, e.view? options = some u ∧
      u.wrapper = wrapperName e.identity := emittedAll_viewed quiet
  have distinct : ((emittedAll options registry stages).map Emitted.identity).Nodup :=
    (emittedAll_fresh quiet).1
  have units := @synthesizeAll_units options registry stages quiet
  generalize emittedAll options registry stages = emitted at viewed distinct units
  have apart : emitted.Pairwise fun e other => e.identity ≠ other.identity :=
    List.pairwise_map.mp distinct
  refine ⟨by rw [resultOf, units], fun e held => ?_, ?_⟩
  · obtain ⟨u, built, _⟩ := viewed e held
    exact ⟨u, built, Emitted.file_source built⟩
  · rw [List.pairwise_filterMap]
    constructor
    · intro clear
      refine (clear.and apart).imp_of_mem ?_
      rintro e other held held' ⟨clear, ne⟩
      obtain ⟨u, built, named⟩ := viewed e held
      obtain ⟨u', built', named'⟩ := viewed other held'
      exact (Emitted.declaresApart_iff built named built' named' ne).mp (clear u built u' built')
    · intro clear
      refine (clear.and apart).imp_of_mem ?_
      rintro e other held held' ⟨clear, ne⟩ v built v' built'
      obtain ⟨u, same, named⟩ := viewed e held
      obtain ⟨u', same', named'⟩ := viewed other held'
      obtain rfl := Option.some.inj (built.symm.trans same)
      obtain rfl := Option.some.inj (built'.symm.trans same')
      exact (Emitted.declaresApart_iff built named built' named' ne).mpr clear

/-- Whatever a backend answers, the units of a pass declare no type twice unless the placeholders of
two types declare the same outermost type, or one of them is declared like the wrapper of the
other. -/
theorem declared_twice_iff_clash {σ : Type} (b : Backend σ) (options : PassOptions)
    (registry : Registry) (s : σ) (requests : List Request) :
    PassResult.DeclaresOnceUnless options (coreUnits options registry).1
      (run b options registry s requests).1 (emitted b options registry s requests) ∧
    ∀ schedule : List (Nat × Target) → List (Nat × Target),
      PassResult.DeclaresOnceUnless options (coreUnits options registry).1
        (runScheduled b options schedule registry s requests).1
        (emittedScheduled b options schedule registry s requests) := by
  have quiet := bindAll_quiet b (coreUnits options registry).2 s requests
  constructor
  · exact declares_once_unless (resolveAll_quiet b _ quiet) _
  · intro schedule
    exact declares_once_unless (settle_quiet _ 0 quiet) _

/-- A program without types beside two modules that declare internal types of one name. -/
def besideTwoModules : Resolver where
  program := {}
  world :=
    { disk := { working := [], entries := .ofList [] },
      decode := fun path _ => .error (.unreadable path),
      modules := fun identity =>
        let field : Member := { name := "count", kind := .field, visibility := .priv }
        let head : TypeHead :=
          { name := "T", kind := .classKind, visibility := .internal, members := [field] }
        let view : TypeView := { tier := .loaded, space? := some "N", tree := .node head [] }
        some { identity, find := fun name => .ok (if name = "N.T" then some view else none) } }

/-- The units of both types declare the placeholder `N.T`. -/
theorem placeholder_declared_twice :
    let requests : List Request :=
      [{ subject := .textual "N.T", home := Home.named "A" },
        { subject := .textual "N.T", home := Home.named "B" }]
    let views := (emitted besideTwoModules.backend {} {} {} requests).filterMap (Emitted.view? {})
    (run besideTwoModules.backend {} {} {} requests).1.reports.map Report.status =
        [.emitted, .emitted] ∧
      views.length = 2 ∧ ¬views.Pairwise UnitView.DeclaresApart := by
  decide +kernel

end Pass

end HiddenNames
