import HiddenNames.Emission.Pass
import HiddenNames.Proofs.Marker.ForAll
import HiddenNames.Proofs.Source.Nested
import HiddenNames.Proofs.Text.Pieces
import Mathlib.Data.List.Nodup

/-!
Requests for types of the program. When paths tell the types apart, a full reference to a type is
bound to that type, under a key that no other type has. When the sources are the first tier, they
answer for it.
-/

namespace HiddenNames

namespace SourceProgram

variable {p : SourceProgram}

theorem ref_path (t : SourceType) : t.ref.path = t.path := by
  simp only [SourceType.ref, TypeRef.path, TypeRef.segments, List.map_map]
  calc t.path.map _ = t.path.map id := by
        apply List.map_congr_left
        rintro ⟨name, arity⟩ _
        simp [TypeSegment.name, TypeSegment.arity, TypeSegment.arguments]
    _ = t.path := List.map_id _

/-- A reference names the type whose path it gives, if no other type has that path. -/
theorem find_of_path {t : SourceType} (held : t ∈ p.types)
    (unique : ∀ u ∈ p.types, u.path = t.path → u = t) {ref : TypeRef} (named : ref.path = t.path) :
    p.find ref = some t := by
  have full : ∀ c : SourceType, ref.names c.path = true ↔ c.path = t.path := by
    intro c
    rw [TypeRef.names, decide_eq_true_eq, named]
  rw [find]
  simp only [matchRef]
  cases found : p.types.filter fun c => ref.names c.path with
  | nil =>
    have self := List.filter_eq_nil_iff.mp found t held
    exact absurd ((full t).mpr rfl) self
  | cons first more =>
    have among : first ∈ p.types.filter fun c => ref.names c.path := by
      rw [found]
      exact List.mem_cons_self
    obtain ⟨known, same⟩ := List.mem_filter.mp among
    rw [unique first known ((full first).mp same)]

theorem path_of_find {ref : TypeRef} {t : SourceType} (aliased : ref.alias?.isNone = false)
    (h : p.find ref = some t) : ref.path = t.path := by
  have tails : (p.types.filter fun c => ref.namesTail c.path) = [] :=
    List.filter_eq_nil_iff.mpr fun c _ => by simp [TypeRef.namesTail, aliased]
  rw [find, matchRef, tails] at h
  cases found : p.types.filter fun c => ref.names c.path with
  | nil => rw [found] at h; cases h
  | cons first more =>
    rw [found] at h
    cases h
    have among : t ∈ p.types.filter fun c => ref.names c.path := by
      rw [found]
      exact List.mem_cons_self
    exact (of_decide_eq_true (List.mem_filter.mp among).2).symm

theorem find_ref (distinct : (p.types.map SourceType.path).Nodup) {t : SourceType}
    (held : t ∈ p.types) : p.find t.ref = some t :=
  find_of_path held (fun _ known same => List.inj_on_of_nodup_map distinct known held same)
    (ref_path t)

theorem eq_of_ref (distinct : (p.types.map SourceType.path).Nodup) {t t' : SourceType}
    (held : t ∈ p.types) (held' : t' ∈ p.types) (same : t.ref = t'.ref) : t = t' := by
  apply List.inj_on_of_nodup_map distinct held held'
  rw [← ref_path, ← ref_path, same]

def answer (p : SourceProgram) (target : Target) : Except Mishap (Option Resolved) :=
  .ok (target.source?.map p.described)

end SourceProgram

namespace Resolver

variable {r : Resolver}

theorem bind_ref (distinct : (r.program.types.map SourceType.path).Nodup) {t : SourceType}
    {request : Request} (asks : r.program.AsksFor request t) (s : Session) :
    r.backend.bind s request = (.ok (r.sourceTarget request t), s) := by
  obtain ⟨held, access, rfl⟩ := asks
  change r.bindDirect s (Request.direct t.ref access) t.ref = _
  rw [bindDirect, SourceProgram.find_ref distinct held]

theorem tryTiers_static {target : Target} {t : SourceType} (found : target.source? = some t)
    (s : Session) (rest : List TierStep) :
    r.tryTiers target s (.static :: rest) = (some (r.program.described t), s) := by
  rw [tryTiers, tryTier, found]
  rfl

theorem resolve_source (sources : r.tiers.head? = some .static) {target : Target} {t : SourceType}
    (found : target.source? = some t) (s : Session) :
    r.backend.resolve s target = (r.program.answer target, s) := by
  obtain ⟨tiers, chain⟩ : ∃ rest, r.tiers = .static :: rest := by
    cases chain : r.tiers with
    | nil => rw [chain] at sources; cases sources
    | cons first rest =>
      rw [chain] at sources
      cases sources
      exact ⟨rest, rfl⟩
  have resolved : r.resolve s target = (some (r.program.described t), s) := by
    rw [resolve, chain, tryTiers_static found]
  simp only [backend, resolved, SourceProgram.answer, found, Option.map_some]

def typeKey (r : Resolver) (t : SourceType) : String := key r.program.assemblyName t.fullName

theorem typeKey_injective (h : r.program.IsIndexed) {t t' : SourceType}
    (held : t ∈ r.program.types) (held' : t' ∈ r.program.types)
    (same : r.typeKey t = r.typeKey t') : t = t' :=
  h.eq_of_fullName held held' ((String.append_right_inj _).mp same)

theorem typeKey_ne_core (r : Resolver) (t : SourceType) : r.typeKey t ≠ Pass.coreKey := by
  intro same
  have bar : '|' ∈ (r.typeKey t).toList := by
    rw [typeKey, key, Text.toList_bar]
    exact List.mem_append_right _ List.mem_cons_self
  rw [same] at bar
  exact absurd bar (by decide)

def alone (p : SourceProgram) : Resolver where
  program := p
  world :=
    { disk := { working := [], entries := .ofList [] },
      decode := fun path _ => .error (.unreadable path),
      modules := fun _ => none }

@[simp]
theorem alone_program (p : SourceProgram) : (alone p).program = p := rfl

end Resolver

end HiddenNames
