import HiddenNames.Proofs.Resolution.Memory

/-!
Resolution does not depend on history. The file of a module may be found beside the loaded module,
so the metadata tier looks at what was loaded; but the loaded tier comes before it and asks for the
very same module, after which the answer of the loader is fixed.
-/

namespace HiddenNames

def TierStep.works : TierStep → Bool
  | .static => true
  | .loaded => true
  | .metadata => true
  | .failing _ => false

/-- The usual chain of tiers, with tiers that never work anywhere in it. -/
def IsUsualChain (tiers : List TierStep) : Prop :=
  tiers.filter TierStep.works = [.static, .loaded, .metadata]

/-- No file is looked for before the module was asked for. -/
def LoadsFirst : List TierStep → Prop
  | [] => True
  | .loaded :: _ => True
  | .metadata :: _ => False
  | .static :: rest => LoadsFirst rest
  | .failing _ :: rest => LoadsFirst rest

theorem loadsFirst_filter (tiers : List TierStep) :
    LoadsFirst (tiers.filter TierStep.works) ↔ LoadsFirst tiers := by
  induction tiers with
  | nil => rfl
  | cons tier rest ih =>
    cases tier with
    | static => exact ih
    | loaded => rfl
    | metadata => rfl
    | failing reason => exact ih

theorem loadsFirst_of_usual {tiers : List TierStep} (h : IsUsualChain tiers) :
    LoadsFirst tiers := by
  rw [← loadsFirst_filter, h]
  trivial

structure Session.Ready (r : Resolver) (target : Target) (s : Session) : Prop where
  agrees : s.Agrees r
  decided : ∀ module, target.module? = some module →
    s.loader.decided.lookup module = some (r.world.modules module)

namespace Resolver

variable {r : Resolver} {target : Target}

theorem knownLocation_ready {s : Session} (h : s.Ready r target) {module : String}
    (named : target.module? = some module) :
    r.knownLocation s module =
      if r.asksLoader then (r.world.modules module).bind LoadedModule.location? else none := by
  simp only [knownLocation, Loader.location?, h.decided module named, Option.bind_some]

theorem locate_settles {module : String} (named : target.module? = some module) :
    Settles (Session.Ready r target) (Session.Ready r target) (fun s => r.locate s module) := by
  refine ⟨{ r.locator with roots := r.locator.foundRoots r.world.disk }.locate r.world.disk
    (if r.asksLoader then (r.world.modules module).bind LoadedModule.location? else none) module,
    fun s h => ?_⟩
  have roots : s.roots?.getD (r.locator.foundRoots r.world.disk) =
      r.locator.foundRoots r.world.disk := by
    cases kept : s.roots? with
    | none => rfl
    | some roots => exact h.agrees.roots roots kept
  refine ⟨{ s with roots? := some (r.locator.foundRoots r.world.disk) }, ?_, ?_⟩
  · simp only [locate, roots, knownLocation_ready h named]
  · exact ⟨⟨h.agrees.loader, h.agrees.reader, fun _ kept => (Option.some.inj kept).symm⟩, h.decided⟩

theorem idle_tier_settles {pre : Session → Prop} {tier : TierStep}
    (idle : tier = .static ∨ ∃ reason, tier = .failing reason) :
    Settles pre pre (fun s => r.tryTier s target tier) := by
  rcases idle with rfl | ⟨reason, rfl⟩
  · exact Settles.still
  · exact Settles.still

theorem loaded_tier_settles :
    Settles (Session.Agrees r) (Session.Ready r target) (fun s => r.tryTier s target .loaded) := by
  cases named : target.module? with
  | none =>
    refine ⟨.ok none, fun s h => ⟨s, ?_, h, fun module same => ?_⟩⟩
    · simp only [tryTier, named]
    · rw [named] at same
      cases same
  | some module =>
    have ready : ∀ s : Session, s.Agrees r →
        ({ s with loader := (s.loader.load r.world.modules module).2 } : Session).Ready r
          target := by
      intro s h
      refine ⟨⟨Loader.load_agrees h.loader module, h.reader, h.roots⟩, fun other same => ?_⟩
      rw [named] at same
      cases same
      exact Loader.load_decides h.loader module
    cases found : r.world.modules module with
    | none =>
      refine ⟨.ok none, fun s h => ⟨_, ?_, ready s h⟩⟩
      simp only [tryTier, named, Loader.load_answer h.loader module, found]
    | some loaded =>
      cases described : loaded.find target.fullName with
      | error e =>
        refine ⟨.error e, fun s h => ⟨_, ?_, ready s h⟩⟩
        simp only [tryTier, named, Loader.load_answer h.loader module, found, described]
      | ok view? =>
        refine ⟨.ok (view?.map fun v => { tier := .loaded, view := v, module? := some module }),
          fun s h => ⟨_, ?_, ready s h⟩⟩
        simp only [tryTier, named, Loader.load_answer h.loader module, found, described]

theorem metadata_tier_settles :
    Settles (Session.Ready r target) (Session.Ready r target)
      (fun s => r.tryTier s target .metadata) := by
  cases named : target.module? with
  | none =>
    simp only [tryTier, named]
    exact Settles.still
  | some module =>
    obtain ⟨place, run⟩ := locate_settles (r := r) named
    cases place with
    | none =>
      refine ⟨.ok none, fun s h => ?_⟩
      obtain ⟨later, ran, ready⟩ := run s h
      refine ⟨later, ?_, ready⟩
      simp only [tryTier, named, ran]
    | some path =>
      have read : ∀ s : Session, s.Ready r target →
          ∃ later, r.locate s module = (some path, later) ∧
          (later.reader.read r.world.disk r.world.decode path).1 =
            Reader.content r.world.disk r.world.decode (r.world.disk.resolve path) ∧
          ({ later with reader := (later.reader.read r.world.disk r.world.decode path).2 } :
            Session).Ready r target := by
        intro s h
        obtain ⟨later, ran, ready⟩ := run s h
        have agrees := ready.agrees
        exact ⟨later, ran, Reader.read_answer agrees.reader path,
          ⟨agrees.loader, Reader.read_agrees agrees.reader path, agrees.roots⟩, ready.decided⟩
      cases content : Reader.content r.world.disk r.world.decode (r.world.disk.resolve path) with
      | error e =>
        refine ⟨.error (.broken e.message), fun s h => ?_⟩
        obtain ⟨later, ran, answer, ready⟩ := read s h
        refine ⟨_, ?_, ready⟩
        simp only [tryTier, named, ran, answer, content]
      | ok records =>
        cases described : Metadata.findType records target.fullName .metadata with
        | error e =>
          refine ⟨.error (.arity e), fun s h => ?_⟩
          obtain ⟨later, ran, answer, ready⟩ := read s h
          refine ⟨_, ?_, ready⟩
          simp only [tryTier, named, ran, answer, content, described]
        | ok view? =>
          refine ⟨.ok (view?.map fun v => { tier := .metadata, view := v, module? := some module }),
            fun s h => ?_⟩
          obtain ⟨later, ran, answer, ready⟩ := read s h
          refine ⟨_, ?_, ready⟩
          simp only [tryTier, named, ran, answer, content, described]

theorem tryTiers_cons_settles {pre mid post : Session → Prop} {tier : TierStep}
    {rest : List TierStep} (ends : ∀ s, mid s → post s)
    (first : Settles pre mid (fun s => r.tryTier s target tier))
    (others : Settles mid post (fun s => r.tryTiers target s rest)) :
    Settles pre post (fun s => r.tryTiers target s (tier :: rest)) := by
  obtain ⟨answer, run⟩ := first
  obtain ⟨outcome, finish⟩ := others
  rcases answer with e | _ | resolved
  · refine ⟨outcome, fun s h => ?_⟩
    obtain ⟨later, ran, hl⟩ := run s h
    simp only [tryTiers, ran]
    exact finish later hl
  · refine ⟨outcome, fun s h => ?_⟩
    obtain ⟨later, ran, hl⟩ := run s h
    simp only [tryTiers, ran]
    exact finish later hl
  · refine ⟨some resolved, fun s h => ?_⟩
    obtain ⟨later, ran, hl⟩ := run s h
    refine ⟨later, ?_, ends later hl⟩
    simp only [tryTiers, ran]

/-- Once the module of a target was asked for, every chain of tiers settles. -/
theorem ready_chain_settles (tiers : List TierStep) :
    Settles (Session.Ready r target) (Session.Agrees r) (fun s => r.tryTiers target s tiers) := by
  induction tiers with
  | nil => exact ⟨none, fun s h => ⟨s, rfl, h.agrees⟩⟩
  | cons tier rest ih =>
    have first : Settles (Session.Ready r target) (Session.Ready r target)
        (fun s => r.tryTier s target tier) := by
      cases tier with
      | static => exact idle_tier_settles (Or.inl rfl)
      | failing reason => exact idle_tier_settles (Or.inr ⟨reason, rfl⟩)
      | metadata => exact metadata_tier_settles
      | loaded =>
        obtain ⟨answer, run⟩ : Settles (Session.Agrees r) (Session.Ready r target)
            (fun s => r.tryTier s target .loaded) := loaded_tier_settles
        exact ⟨answer, fun s h => run s h.agrees⟩
    exact tryTiers_cons_settles (fun s h => h.agrees) first ih

theorem chain_settles {tiers : List TierStep} (h : LoadsFirst tiers) :
    Settles (Session.Agrees r) (Session.Agrees r) (fun s => r.tryTiers target s tiers) := by
  induction tiers with
  | nil => exact ⟨none, fun s h => ⟨s, rfl, h⟩⟩
  | cons tier rest ih =>
    cases tier with
    | static => exact tryTiers_cons_settles (fun s h => h) (idle_tier_settles (Or.inl rfl)) (ih h)
    | failing reason =>
      exact tryTiers_cons_settles (fun s h => h) (idle_tier_settles (Or.inr ⟨reason, rfl⟩)) (ih h)
    | metadata => exact h.elim
    | loaded =>
      exact tryTiers_cons_settles (fun s h => h.agrees) loaded_tier_settles
        (ready_chain_settles rest)

/-- What a target is resolved to does not depend on what is remembered. -/
theorem resolve_settles (h : LoadsFirst r.tiers) (target : Target) :
    Settles (Session.Agrees r) (Session.Agrees r) (fun s => r.resolve s target) :=
  chain_settles h

end Resolver

inductive Call where
  | bind (request : Request)
  | load (identity : String)
  | read (path : Path)
  | locate (identity : String)
  | resolve (target : Target)

namespace Resolver

def after (r : Resolver) (s : Session) : Call → Session
  | .bind request => (r.bind s request).2
  | .load identity => { s with loader := (s.loader.load r.world.modules identity).2 }
  | .read path => { s with reader := (s.reader.read r.world.disk r.world.decode path).2 }
  | .locate identity => (r.locate s identity).2
  | .resolve target => (r.resolve s target).2

def remembered (r : Resolver) (history : List Call) : Session := history.foldl r.after {}

variable {r : Resolver}

theorem start_agrees : ({} : Session).Agrees r := by
  constructor
  · intro identity outcome kept
    cases kept
  · intro path records kept
    cases kept
  · intro roots kept
    cases kept

theorem after_agrees (hr : LoadsFirst r.tiers) {s : Session} (h : s.Agrees r) (call : Call) :
    (r.after s call).Agrees r := by
  cases call with
  | bind request => exact (bind_settles request).leads h
  | load identity => exact ⟨Loader.load_agrees h.loader identity, h.reader, h.roots⟩
  | read path => exact ⟨h.loader, Reader.read_agrees h.reader path, h.roots⟩
  | locate identity =>
    refine ⟨h.loader, h.reader, fun roots kept => ?_⟩
    cases prior : s.roots? with
    | none => simpa [after, locate, prior] using kept.symm
    | some known =>
      have same : known = roots := by simpa [after, locate, prior] using kept
      rw [← same]
      exact h.roots known prior
  | resolve target => exact (resolve_settles hr target).leads h

theorem remembered_agrees (hr : LoadsFirst r.tiers) (history : List Call) :
    (r.remembered history).Agrees r := by
  have aux :
      ∀ (calls : List Call) (s : Session), s.Agrees r → (calls.foldl r.after s).Agrees r := by
    intro calls
    induction calls with
    | nil => exact fun s h => h
    | cons call rest ih => exact fun s h => ih _ (after_agrees hr h call)
  exact aux history {} start_agrees

end Resolver

end HiddenNames
