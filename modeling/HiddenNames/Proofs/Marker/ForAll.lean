import HiddenNames.Marker.Collect
import HiddenNames.Proofs.Source.Index

/-!
Markers that say nothing but an access. On a type such a marker asks for the type, on the assembly
for all types that can be named. So if a program has only markers of that form, each of its requests
is for one of its types, and one marker on the assembly is enough to ask for all of them.
-/

namespace HiddenNames

namespace Marker

def Argument.IsAccess (argument : Argument) : Prop :=
  (argument.name? = none ∨ argument.name? = some "accessModifier") ∧
    ∃ name access, argument.value = .constant name ∧ accessOf name.parts = .ok access

structure Attribute.SaysAccess (attr : Attribute) : Prop where
  bare : attr.typeArguments = []
  access : ∀ argument ∈ attr.arguments, argument.IsAccess

theorem meanings_access {arguments : List Argument}
    (h : ∀ argument ∈ arguments, argument.IsAccess) (args : Arguments) :
    ∃ values access, meanings arguments = .ok values ∧
      args.collect values = .ok { args with access := access } := by
  induction arguments generalizing args with
  | nil => exact ⟨[], args.access, rfl, rfl⟩
  | cons argument rest ih =>
    rw [List.forall_mem_cons] at h
    obtain ⟨⟨named, name, said, value, known⟩, others⟩ := h
    obtain ⟨values, access, read, collected⟩ := ih others { args with access := some said }
    have inserted : args.insert argument.name? (.constant name.parts) =
        .ok { args with access := some said } := by
      rcases named with unnamed | named
      · rw [unnamed, Arguments.insert, known]
        rfl
      · rw [named]
        unfold Arguments.insert
        dsimp only
        rw [if_pos rfl, known]
        rfl
    refine ⟨(argument.name?, .constant name.parts) :: values, access, ?_, ?_⟩
    · simp only [meanings, value, Value.meaning, read]
      rfl
    · rw [Arguments.collect, inserted]
      exact collected

theorem Attribute.SaysAccess.marker {attr : Attribute} (h : attr.SaysAccess) :
    ∃ access, ∀ declared?, attr.marker declared? =
      .ok ⟨declared?.map fun ref => Request.direct ref access, access⟩ := by
  obtain ⟨values, access, read, collected⟩ := meanings_access h.access {}
  refine ⟨access, fun declared? => ?_⟩
  rw [Attribute.marker, read, h.bare]
  simp only [collected]
  rfl

end Marker

structure SourceMarker.SaysAccess (m : SourceMarker) : Prop where
  isMarker : Marker.isMarkerName m.text = true
  written : ∃ attr, Marker.Attribute.parse? m.text = some attr ∧ attr.SaysAccess

namespace SourceProgram

def HasPlainMarkers (p : SourceProgram) : Prop :=
  ∀ m ∈ p.markers, Marker.isMarkerName m.text = true → m.SaysAccess

def AsksFor (p : SourceProgram) (request : Request) (t : SourceType) : Prop :=
  t ∈ p.types ∧ ∃ access, request = Request.direct t.ref access

end SourceProgram

namespace Marker

variable {p : SourceProgram} {m : SourceMarker}

theorem requestsOf_unmarked (h : isMarkerName m.text = false) : requestsOf p m = .ok [] := by
  unfold requestsOf read
  rw [h]
  rfl

/-- The requests of a marker that says an access: one for the type it is on, or those for all. -/
theorem requestsOf_access (h : m.SaysAccess) : ∃ access, requestsOf p m = .ok
    (match (m.declared?.bind p.get?).map SourceType.ref with
      | some ref => [Request.direct ref access]
      | none => requestsForAll p access) := by
  obtain ⟨attr, parsed, plain⟩ := h.written
  obtain ⟨access, marker⟩ := plain.marker
  refine ⟨access, ?_⟩
  have answer : ∀ declared?, read m.text declared? =
      .ok (some ⟨declared?.map fun ref => Request.direct ref access, access⟩) := by
    intro declared?
    simp only [read, h.isMarker, parsed, marker]
    rfl
  unfold requestsOf
  rw [answer]
  cases (m.declared?.bind p.get?).map SourceType.ref <;> rfl

theorem asksFor_of_requestsForAll {access : Option Access} {request : Request}
    (h : request ∈ requestsForAll p access) : ∃ t, p.AsksFor request t := by
  obtain ⟨t, among, rfl⟩ := List.mem_map.mp h
  exact ⟨t, (List.mem_filter.mp among).1, access, rfl⟩

theorem asksFor_of_sourceRequests (plain : p.HasPlainMarkers) {request : Request}
    (h : request ∈ sourceRequests p) : ∃ t, p.AsksFor request t := by
  obtain ⟨m, held, asked⟩ := List.mem_flatMap.mp h
  cases marked : isMarkerName m.text with
  | false =>
    rw [requestsOf_unmarked marked] at asked
    cases asked
  | true =>
    obtain ⟨access, requests⟩ := requestsOf_access (p := p) (plain m held marked)
    rw [requests] at asked
    simp only at asked
    split at asked
    · rename_i ref found
      obtain ⟨t, known, rfl⟩ := Option.map_eq_some_iff.mp found
      obtain ⟨name, _, got⟩ := Option.bind_eq_some_iff.mp known
      exact ⟨t, (SourceProgram.get?_some got).1, access, List.mem_singleton.mp asked⟩
    · exact asksFor_of_requestsForAll asked

theorem asked_of_assembly (assembly : ∃ m ∈ p.markers, m.declared? = none ∧ m.SaysAccess)
    {t : SourceType} (held : t ∈ p.types) (enabled : isEnabled p t = true) :
    ∃ request ∈ sourceRequests p, p.AsksFor request t := by
  obtain ⟨m, among, unplaced, plain⟩ := assembly
  obtain ⟨access, requests⟩ := requestsOf_access (p := p) plain
  rw [unplaced] at requests
  refine ⟨Request.direct t.ref access, List.mem_flatMap.mpr ⟨m, among, ?_⟩, held, access, rfl⟩
  rw [requests]
  exact List.mem_map.mpr ⟨t, List.mem_filter.mpr ⟨held, enabled⟩, rfl⟩

theorem collect_nil (p : SourceProgram) : collect p [] = .ok (sourceRequests p) := by
  rw [collect, readAllExtra]
  exact congrArg Except.ok (List.append_nil _)

end Marker

end HiddenNames
