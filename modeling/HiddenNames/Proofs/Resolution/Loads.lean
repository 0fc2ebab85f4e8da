import HiddenNames.Proofs.Resolution.History
import HiddenNames.Proofs.Resolution.Sources
import HiddenNames.Proofs.Surface.Settled

/-!
Which modules a resolver asks the process for. The loader asks for a module the first time only, and
keeps the answer if it is a failure, too. Binding asks for none and looks for no file: whatever
modules, folders and tiers there are, requests are bound alike, and what is remembered of them is
left as it is. With the usual tiers, resolution asks for the module of a target that is no type of
the sources.
-/

namespace HiddenNames

namespace Loader

variable {source : ModuleSource}

def loadAll (source : ModuleSource) (loader : Loader) (identities : List String) : Loader :=
  identities.foldl (fun loader identity => (loader.load source identity).2) loader

theorem loadAll_append (source : ModuleSource) (loader : Loader) (identities others : List String) :
    loader.loadAll source (identities ++ others) =
      (loader.loadAll source identities).loadAll source others := List.foldl_append

theorem lookup_eq_none_iff (loader : Loader) (identity : String) :
    loader.decided.lookup identity = none ↔ identity ∉ loader.calls := by
  rw [List.lookup_eq_none_iff, calls, List.mem_map]
  constructor
  · rintro absent ⟨entry, held, rfl⟩
    simpa using absent entry held
  · intro absent entry held
    have apart : identity ≠ entry.1 := fun same => absent ⟨entry, held, same.symm⟩
    simpa using apart

theorem load_known {loader : Loader} {identity : String} (known : identity ∈ loader.calls) :
    (loader.load source identity).2 = loader := by
  cases kept : loader.decided.lookup identity with
  | none => exact absurd known ((loader.lookup_eq_none_iff identity).mp kept)
  | some outcome => simp only [load, kept]

theorem load_unknown (source : ModuleSource) {loader : Loader} {identity : String}
    (unknown : identity ∉ loader.calls) :
    (loader.load source identity).2.decided = loader.decided ++ [(identity, source identity)] := by
  simp only [load, (loader.lookup_eq_none_iff identity).mpr unknown]

/-- The modules of a list that a loader has to ask for: those that it was not asked for before, each
of them once. -/
def missing (loader : Loader) (identities : List String) : List String :=
  (identities.filter (· ∉ loader.calls)).eraseDups

theorem mem_missing (loader : Loader) (identities : List String) (identity : String) :
    identity ∈ loader.missing identities ↔ identity ∉ loader.calls ∧ identity ∈ identities := by
  rw [missing, List.mem_eraseDups, List.mem_filter, decide_eq_true_eq, and_comm]

theorem missing_nodup (loader : Loader) (identities : List String) :
    (loader.missing identities).Nodup := nodup_eraseDups _

theorem missing_cons_unknown {loader later : Loader} {identity : String}
    (unknown : identity ∉ loader.calls) (asked : later.calls = loader.calls ++ [identity])
    (rest : List String) :
    loader.missing (identity :: rest) = identity :: later.missing rest := by
  rw [missing, List.filter_cons_of_pos (by simpa using unknown), List.eraseDups_cons,
    List.filter_filter, missing, asked]
  refine congrArg (fun kept => identity :: List.eraseDups kept)
    (List.filter_congr fun other _ => ?_)
  rw [Bool.eq_iff_iff]
  simp [and_comm]

/-- What a loader keeps of a list of modules is one decision for each that is missing. -/
theorem loadAll_decided (source : ModuleSource) (loader : Loader) (identities : List String) :
    (loader.loadAll source identities).decided =
      loader.decided ++ (loader.missing identities).map fun identity =>
        (identity, source identity) := by
  induction identities generalizing loader with
  | nil => exact (List.append_nil _).symm
  | cons identity rest ih =>
    rw [loadAll, List.foldl_cons, ← loadAll, ih]
    by_cases known : identity ∈ loader.calls
    · have dropped : loader.missing (identity :: rest) = loader.missing rest := by
        rw [missing, List.filter_cons_of_neg (by simpa using known), missing]
      rw [load_known known, dropped]
    · have decided := load_unknown source known
      have asked : (loader.load source identity).2.calls = loader.calls ++ [identity] := by
        rw [calls, decided, List.map_append]
        rfl
      rw [missing_cons_unknown known asked, decided, List.append_assoc]
      rfl

end Loader

def Target.needed? (target : Target) : Option String :=
  match target.source? with
  | some _ => none
  | none => target.module?

theorem Target.needed?_eq_some_iff {target : Target} {module : String} :
    target.needed? = some module ↔ target.source? = none ∧ target.module? = some module := by
  unfold needed?
  cases target.source? with
  | none => exact ⟨fun named => ⟨rfl, named⟩, And.right⟩
  | some t => exact iff_of_false nofun fun h => nomatch h.1

namespace Resolver

variable {r : Resolver}

/-- Tiers that never work have no part in what a chain gives. -/
theorem tryTiers_works (target : Target) (s : Session) (tiers : List TierStep) :
    r.tryTiers target s tiers = r.tryTiers target s (tiers.filter TierStep.works) := by
  induction tiers generalizing s with
  | nil => rfl
  | cons tier rest ih =>
    have goesOn : ∀ working : tier.works = true, r.tryTiers target s (tier :: rest) =
        r.tryTiers target s ((tier :: rest).filter TierStep.works) := by
      intro working
      rw [List.filter_cons_of_pos working, tryTiers, tryTiers]
      split
      · rfl
      · exact ih _
    cases tier with
    | static => exact goesOn rfl
    | loaded => exact goesOn rfl
    | metadata => exact goesOn rfl
    | failing reason => exact ih s

theorem resolve_usual (usual : IsUsualChain r.tiers) (s : Session) (target : Target) :
    r.resolve s target = r.tryTiers target s [.static, .loaded, .metadata] := by
  rw [resolve, tryTiers_works, usual]

/-- A type of the sources is described by them, and nothing else is asked. -/
theorem resolve_declared (usual : IsUsualChain r.tiers) (s : Session) {target : Target}
    {t : SourceType} (declared : target.source? = some t) :
    r.resolve s target = (some (r.program.described t), s) := by
  rw [resolve_usual usual, tryTiers_static declared]

theorem loaded_tier_loader (s : Session) (target : Target) :
    (r.tryTier s target .loaded).2.loader =
      s.loader.loadAll r.world.modules target.module?.toList := by
  unfold tryTier
  cases target.module? with
  | none => rfl
  | some module =>
    rcases answered : s.loader.load r.world.modules module with ⟨_ | loaded, loader⟩
    · simp only [answered, Option.toList_some, Loader.loadAll, List.foldl_cons, List.foldl_nil]
    · simp only [answered, Option.toList_some, Loader.loadAll, List.foldl_cons, List.foldl_nil]
      split <;> rfl

@[simp]
theorem metadata_tier_loader (s : Session) (target : Target) :
    (r.tryTier s target .metadata).2.loader = s.loader := by
  cases named : target.module? with
  | none => simp only [tryTier, named]
  | some module =>
    have kept : (r.locate s module).2.loader = s.loader := rfl
    rcases located : r.locate s module with ⟨_ | path, later⟩
    · rw [located] at kept
      simpa only [tryTier, named, located] using kept
    · rw [located] at kept
      simp only [tryTier, named, located]
      split
      · exact kept
      · split <;> exact kept

theorem tryTiers_cons_loader {target : Target} {rest : List TierStep}
    (idle : ∀ s, (r.tryTiers target s rest).2.loader = s.loader) (s : Session) (tier : TierStep) :
    (r.tryTiers target s (tier :: rest)).2.loader = (r.tryTier s target tier).2.loader := by
  rw [tryTiers]
  split
  · rename_i answered
    rw [answered]
  · rename_i answered
    rw [idle, answered]

/-- The usual tiers ask for the module of a target that is no type of the sources, and for nothing
else. -/
theorem resolve_loader (usual : IsUsualChain r.tiers) (s : Session) (target : Target) :
    (r.resolve s target).2.loader = s.loader.loadAll r.world.modules target.needed?.toList := by
  cases declared : target.source? with
  | some t =>
    rw [resolve_declared usual s declared, Target.needed?, declared]
    rfl
  | none =>
    have passed : r.tryTiers target s [.static, .loaded, .metadata] =
        r.tryTiers target s [.loaded, .metadata] := by
      rw [tryTiers, tryTier, declared]
      rfl
    have metadata : ∀ s, (r.tryTiers target s [.metadata]).2.loader = s.loader := by
      intro s
      rw [tryTiers_cons_loader (fun _ => rfl), metadata_tier_loader]
    rw [resolve_usual usual, passed, tryTiers_cons_loader metadata, loaded_tier_loader,
      Target.needed?, declared]

structure BindsLike (r r' : Resolver) : Prop where
  program : r'.program = r.program
  disk : r'.world.disk = r.world.disk
  decode : r'.world.decode = r.world.decode
  references : r'.references? = r.references?

theorem BindsLike.refl (r : Resolver) : BindsLike r r := ⟨rfl, rfl, rfl, rfl⟩

variable {r' : Resolver}

theorem findReferenced_apart (like : BindsLike r r') (s : Session) (loader : Loader)
    (roots? : Option (List Path)) (ref : TypeRef) :
    r'.findReferenced { s with loader, roots? } ref =
      ((r.findReferenced s ref).1, { (r.findReferenced s ref).2 with loader, roots? }) := by
  simp only [findReferenced, like.references, like.disk, like.decode]
  cases r.references? with
  | none => rfl
  | some paths => rfl

theorem bindDirect_apart (like : BindsLike r r') (s : Session) (loader : Loader)
    (roots? : Option (List Path)) (request : Request) (ref : TypeRef) :
    r'.bindDirect { s with loader, roots? } request ref =
      ((r.bindDirect s request ref).1, { (r.bindDirect s request ref).2 with loader, roots? }) := by
  simp only [bindDirect, like.program, findReferenced_apart like, sourceTarget]
  cases r.program.find ref with
  | none => rfl
  | some t => rfl

theorem homeModule_apart (like : BindsLike r r') (s : Session) (loader : Loader)
    (roots? : Option (List Path)) (home : Home) :
    r'.homeModule { s with loader, roots? } home =
      ((r.homeModule s home).1, { (r.homeModule s home).2 with loader, roots? }) := by
  cases home with
  | named module => rfl
  | anchored anchor module? =>
    cases module? with
    | some module => rfl
    | none =>
      simp only [homeModule, anchorModule, like.program, findReferenced_apart like]
      cases r.program.find anchor with
      | none => rfl
      | some t => rfl

theorem bind_apart (like : BindsLike r r') (s : Session) (loader : Loader)
    (roots? : Option (List Path)) (request : Request) :
    r'.bind { s with loader, roots? } request =
      ((r.bind s request).1, { (r.bind s request).2 with loader, roots? }) := by
  have textual : r'.textualTarget = r.textualTarget := by
    funext request fullName home module?
    simp only [textualTarget, sourceTarget, like.program]
  obtain ⟨ref | fullName, home, access⟩ := request
  · exact bindDirect_apart like s loader roots? _ ref
  · have told := homeModule_apart like s loader roots? home
    simp only [bind, told, textual]

theorem bind_keeps (r : Resolver) (s : Session) (request : Request) :
    (r.bind s request).2.loader = s.loader ∧ (r.bind s request).2.roots? = s.roots? := by
  have apart := bind_apart (.refl r) s s.loader s.roots? request
  exact ⟨congrArg (fun outcome => outcome.2.loader) apart,
    congrArg (fun outcome => outcome.2.roots?) apart⟩

/-- When the records that are kept are those of the files, what else is remembered has no part in
what a request is bound to. -/
theorem bind_reading {s : Session} (agrees : s.reader.Agrees r.world.disk r.world.decode)
    (request : Request) :
    (r.bind s request).1 = (r.bind {} request).1 ∧
      (r.bind s request).2.reader.Agrees r.world.disk r.world.decode := by
  have bare : ({ reader := s.reader } : Session).Agrees r :=
    ⟨start_agrees.loader, agrees, start_agrees.roots⟩
  have apart := bind_apart (.refl r) { reader := s.reader } s.loader s.roots? request
  have settles := bind_settles (r := r) request
  constructor
  · exact (congrArg Prod.fst apart).trans (settles.same_answer bare start_agrees)
  · have same : (r.bind s request).2.reader = (r.bind { reader := s.reader } request).2.reader :=
      congrArg (fun outcome => outcome.2.reader) apart
    rw [same]
    exact (settles.leads bare).reader

end Resolver

end HiddenNames
