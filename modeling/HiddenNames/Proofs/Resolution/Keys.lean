import HiddenNames.Emission.Pass
import HiddenNames.Proofs.Marker.Plain

/-!
What the keys of targets tell apart. A key joins a module and a full name by a bar, or an unknown
anchor and a full name by the same bar, or is a reference as it is written. Two keys are equal for
targets that are the same thing, and beyond that exactly when an anchor is taken for a module or a
bar is looked for in the wrong place.
-/

namespace HiddenNames

structure Resolver.Binds (r : Resolver) (request : Request) (target : Target) : Prop where
  supported : Pass.unsupportedName? request = none
  bound : (r.bind {} request).1 = .ok target

def SameThing (request : Request) (target : Target) (request' : Request)
    (target' : Target) : Prop :=
  (∃ t, target.source? = some t ∧ target'.source? = some t) ∨
  (∃ module, target.module? = some module ∧ target'.module? = some module ∧
    target.fullName = target'.fullName) ∨
  (target.module? = none ∧ target'.module? = none ∧ request.text = request'.text)

/-- An anchor of which nothing is known is taken for the module of another target. -/
def AnchorMistaken (request : Request) (target target' : Target) : Prop :=
  target.module? = none ∧ ∃ anchor fullName, request.subject = .textual fullName ∧
    request.anchor = some anchor ∧ target'.module? = some anchor.text ∧ target'.fullName = fullName

/-- The bar between a module and a full name is looked for in the wrong place. -/
def BarMistaken (target target' : Target) : Prop :=
  ∃ module middle, target.module? = some module ∧
    target'.module? = some (module ++ "|" ++ middle) ∧
    target.fullName = middle ++ "|" ++ target'.fullName

/-- Two requests that are told to be repeats although they are bound to different things. -/
def FalseRepeat (request : Request) (target : Target) (request' : Request) (target' : Target) :
    Prop :=
  AnchorMistaken request target target' ∨ AnchorMistaken request' target' target ∨
    BarMistaken target target' ∨ BarMistaken target' target

theorem SameThing.symm {request request' : Request} {target target' : Target}
    (h : SameThing request target request' target') :
    SameThing request' target' request target := by
  rcases h with ⟨t, left, right⟩ | ⟨module, left, right, named⟩ | ⟨left, right, text⟩
  · exact Or.inl ⟨t, right, left⟩
  · exact Or.inr (Or.inl ⟨module, right, left, named.symm⟩)
  · exact Or.inr (Or.inr ⟨right, left, text.symm⟩)

theorem FalseRepeat.symm {request request' : Request} {target target' : Target}
    (h : FalseRepeat request target request' target') :
    FalseRepeat request' target' request target := by
  rcases h with first | second | third | fourth
  · exact Or.inr (Or.inl first)
  · exact Or.inl second
  · exact Or.inr (Or.inr (Or.inr third))
  · exact Or.inr (Or.inr (Or.inl fourth))

structure Target.IsKnown (r : Resolver) (target : Target) (module : String) : Prop where
  placed : target.module? = some module
  keyed : target.key = Resolver.key module target.fullName
  sourced : ∀ t, target.source? = some t →
    module = r.program.assemblyName ∧ target.fullName = t.fullName

structure Target.IsWritten (request : Request) (target : Target) (ref : TypeRef) : Prop where
  unplaced : target.module? = none
  unsourced : target.source? = none
  asked : request.subject = .direct ref
  plain : ref.IsPlain
  keyed : target.key = ref.text

structure Target.IsAnchored (request : Request) (target : Target) (anchor : TypeRef)
    (fullName : String) : Prop where
  unplaced : target.module? = none
  unsourced : target.source? = none
  asked : request.subject = .textual fullName
  anchored : request.anchor = some anchor
  plain : anchor.IsPlain
  supported : isSupportedFullName fullName = true
  keyed : target.key = Resolver.key anchor.text fullName

inductive Target.Naming (r : Resolver) (request : Request) (target : Target) : Prop where
  | known (module : String) (h : target.IsKnown r module)
  | written (ref : TypeRef) (h : target.IsWritten request ref)
  | anchored (anchor : TypeRef) (fullName : String) (h : target.IsAnchored request anchor fullName)

namespace Resolver

variable {r : Resolver} {request : Request} {target : Target}

theorem sourceTarget_known (r : Resolver) (request : Request) (t : SourceType) :
    (r.sourceTarget request t).IsKnown r r.program.assemblyName := by
  refine ⟨rfl, rfl, fun other same => ?_⟩
  cases same
  exact ⟨rfl, rfl⟩

theorem find_declared {program : SourceProgram} {t : SourceType} (h : t ∈ program.types) :
    program.find t.ref ≠ none := by
  have path : t.ref.path = t.path := by
    simp [SourceType.ref, TypeRef.path, TypeRef.segments, TypeSegment.name, TypeSegment.arity,
      TypeSegment.arguments, Function.comp_def]
  have whole : t ∈ (matchRef SourceType.path program.types t.ref).1 := by
    refine List.mem_filter.mpr ⟨h, ?_⟩
    simp only [TypeRef.names, path, decide_true]
  rcases matched : matchRef SourceType.path program.types t.ref with ⟨_ | ⟨first, more⟩, tails⟩
  · rw [matched] at whole
    cases whole
  · simp [SourceProgram.find, matched]

theorem directTarget_naming {ref : TypeRef} (place : Option References.Place)
    (asked : request.subject = .direct ref) (plain : ref.IsPlain) :
    (directTarget request ref place).Naming r request := by
  cases place with
  | none => exact .written ref ⟨rfl, rfl, asked, plain, rfl⟩
  | some place => exact .known place.1 ⟨rfl, rfl, nofun⟩

theorem anchored_of_homeModule {s : Session} {home : Home}
    (h : (r.homeModule s home).1 = .ok none) : ∃ anchor, home = .anchored anchor none := by
  cases home with
  | named module => cases h
  | anchored anchor module? =>
    cases module? with
    | some module => cases h
    | none => exact ⟨anchor, rfl⟩

theorem textualTarget_naming {fullName : String} {home : Home} {access : Option Access}
    {module? : Option String} (plain : Request.IsPlain ⟨.textual fullName, home, access⟩)
    (supported : isSupportedFullName fullName = true)
    (anchored : module? = none → ∃ anchor, home = .anchored anchor none) :
    (r.textualTarget ⟨.textual fullName, home, access⟩ fullName home module?).Naming r
      ⟨.textual fullName, home, access⟩ := by
  cases module? with
  | none =>
    obtain ⟨anchor, rfl⟩ := anchored rfl
    exact .anchored anchor fullName ⟨rfl, rfl, rfl, rfl, plain anchor rfl, supported, rfl⟩
  | some module =>
    simp only [textualTarget]
    split
    · split
      · rename_i t declared
        exact .known _ (sourceTarget_known r _ t)
      · exact .known module ⟨rfl, rfl, nofun⟩
    · exact .known module ⟨rfl, rfl, nofun⟩

/-- Every request that markers can express is bound in one of three ways. -/
theorem bind_naming (h : r.Binds request target) (expressible : request.IsExpressible r.program) :
    target.Naming r request := by
  obtain ⟨supported, bound⟩ := h
  obtain ⟨ref | fullName, home, access⟩ := request
  · simp only [bind, bindDirect] at bound
    cases declared : r.program.find ref with
    | some t =>
      simp only [declared] at bound
      cases bound
      exact .known _ (sourceTarget_known r _ t)
    | none =>
      simp only [declared] at bound
      have plain : ref.IsPlain := by
        rcases expressible with plain | ⟨t, among, access, same⟩
        · exact plain
        · cases same
          exact (find_declared among declared).elim
      obtain ⟨place, _, rfl⟩ := ok_of_map bound
      exact directTarget_naming place rfl plain
  · have plain : Request.IsPlain ⟨.textual fullName, home, access⟩ := by
      rcases expressible with plain | ⟨t, among, access, same⟩
      · exact plain
      · cases same
    have named : isSupportedFullName fullName = true := by
      simp only [Pass.unsupportedName?] at supported
      by_cases plainName : isSupportedFullName fullName = true
      · exact plainName
      · rw [if_neg plainName] at supported
        cases supported
    simp only [bind] at bound
    obtain ⟨module?, told, rfl⟩ := ok_of_map bound
    refine textualTarget_naming plain named fun unknown => ?_
    subst unknown
    exact anchored_of_homeModule told

end Resolver

theorem bar_mem_key (module fullName : String) : '|' ∈ (Resolver.key module fullName).toList := by
  simp [Resolver.key]

theorem key_eq_of_barless {a b c d : String} (ha : '|' ∉ a.toList) (hb : '|' ∉ b.toList)
    (same : Resolver.key a b = Resolver.key c d) : a = c ∧ b = d := by
  rcases (Text.append_bar_eq_iff a b c d).mp same with equal | ⟨x, _, right⟩ | ⟨x, left, _⟩
  · exact equal
  · rw [right] at hb
    simp at hb
  · rw [left] at ha
    simp at ha

theorem TypeRef.IsPlain.barless {ref : TypeRef} (h : ref.IsPlain) : '|' ∉ ref.text.toList :=
  h.not_mem (by decide) (by decide)

theorem barless_of_supported {fullName : String} (h : isSupportedFullName fullName = true) :
    '|' ∉ fullName.toList :=
  supported_not_mem h (by decide) (by decide)

namespace Target

variable {r : Resolver} {request request' : Request} {target target' : Target}
  {module module' fullName fullName' : String} {ref ref' anchor anchor' : TypeRef}

theorem IsKnown.eq_of_placed (h : target.IsKnown r module)
    (placed : target.module? = some module') : module' = module :=
  Option.some.inj (placed.symm.trans h.placed)

theorem IsKnown.not_unplaced (h : target.IsKnown r module) : target.module? ≠ none := by
  rw [h.placed]
  exact nofun

/-- Known targets have the same key when they are the same, or for a bar in the wrong place. -/
theorem IsKnown.key_eq_iff (h : target.IsKnown r module) (h' : target'.IsKnown r module') :
    target.key = target'.key ↔
      SameThing request target request' target' ∨ FalseRepeat request target request' target' := by
  rw [h.keyed, h'.keyed, Resolver.key, Resolver.key, Text.append_bar_eq_iff]
  constructor
  · rintro (⟨rfl, named⟩ | ⟨middle, rfl, named⟩ | ⟨middle, rfl, named⟩)
    · exact Or.inl (Or.inr (Or.inl ⟨module, h.placed, h'.placed, named⟩))
    · exact Or.inr (Or.inr (Or.inr (Or.inl ⟨module, middle, h.placed, h'.placed, named⟩)))
    · exact Or.inr (Or.inr (Or.inr (Or.inr ⟨module', middle, h'.placed, h.placed, named⟩)))
  · rintro ((⟨t, left, right⟩ | ⟨m, left, right, named⟩ | ⟨unplaced, _⟩) |
      (⟨unplaced, _⟩ | ⟨unplaced, _⟩ | ⟨m, middle, left, right, named⟩ |
        ⟨m, middle, left, right, named⟩))
    · obtain ⟨placed, named⟩ := h.sourced t left
      obtain ⟨placed', named'⟩ := h'.sourced t right
      exact Or.inl ⟨placed.trans placed'.symm, named.trans named'.symm⟩
    · exact Or.inl ⟨(h.eq_of_placed left).symm.trans (h'.eq_of_placed right), named⟩
    · exact (h.not_unplaced unplaced).elim
    · exact (h.not_unplaced unplaced).elim
    · exact (h'.not_unplaced unplaced).elim
    · obtain rfl := h.eq_of_placed left
      exact Or.inr (Or.inl ⟨middle, (h'.eq_of_placed right).symm, named⟩)
    · obtain rfl := h'.eq_of_placed left
      exact Or.inr (Or.inr ⟨middle, (h.eq_of_placed right).symm, named⟩)

theorem IsWritten.key_ne_known (h : target.IsWritten request ref)
    (h' : target'.IsKnown r module) : target.key ≠ target'.key := by
  rw [h.keyed, h'.keyed]
  intro same
  exact h.plain.barless (same ▸ bar_mem_key module target'.fullName)

theorem IsWritten.key_ne_anchored (h : target.IsWritten request ref)
    (h' : target'.IsAnchored request' anchor fullName) : target.key ≠ target'.key := by
  rw [h.keyed, h'.keyed]
  intro same
  exact h.plain.barless (same ▸ bar_mem_key anchor.text fullName)

/-- An anchored target has the key of a known one when its anchor is taken for a module. -/
theorem IsAnchored.key_eq_known_iff (h : target.IsAnchored request anchor fullName)
    (h' : target'.IsKnown r module) :
    target.key = target'.key ↔ AnchorMistaken request target target' := by
  rw [h.keyed, h'.keyed]
  constructor
  · intro same
    obtain ⟨placed, named⟩ :=
      key_eq_of_barless h.plain.barless (barless_of_supported h.supported) same
    exact ⟨h.unplaced, anchor, fullName, h.asked, h.anchored, placed ▸ h'.placed, named.symm⟩
  · rintro ⟨_, other, name, asked, anchored, placed, named⟩
    obtain rfl : anchor = other := Option.some.inj (h.anchored.symm.trans anchored)
    obtain rfl : fullName = name := Subject.textual.inj (h.asked.symm.trans asked)
    rw [h'.eq_of_placed placed, named]

theorem IsAnchored.text_chars (h : target.IsAnchored request anchor fullName) :
    request.text.toList =
      fullName.toList ++ ' ' :: ("(in assembly of ".toList ++ (anchor.text.toList ++ [')'])) := by
  simp only [Request.text_of_anchor h.asked h.anchored, String.toList_append, List.append_assoc]
  rfl

theorem IsAnchored.key_eq_iff (h : target.IsAnchored request anchor fullName)
    (h' : target'.IsAnchored request' anchor' fullName') :
    target.key = target'.key ↔ request.text = request'.text := by
  have texts : request.text = request'.text ↔ request.text.toList = request'.text.toList :=
    String.toList_inj.symm
  rw [h.keyed, h'.keyed, texts, h.text_chars, h'.text_chars]
  constructor
  · intro same
    obtain ⟨placed, named⟩ :=
      key_eq_of_barless h.plain.barless (barless_of_supported h.supported) same
    rw [placed, named]
  · intro same
    have blankless : ' ' ∉ fullName.toList :=
      supported_not_mem h.supported (by decide) (by decide)
    have blankless' : ' ' ∉ fullName'.toList :=
      supported_not_mem h'.supported (by decide) (by decide)
    rcases (Text.append_cons_eq_iff ' ' _ _ _ _).mp same with ⟨named, placed⟩ | ⟨x, left, _⟩ |
      ⟨x, left, _⟩
    · rw [String.toList_inj.mp named,
        String.toList_inj.mp (List.append_cancel_right (List.append_cancel_left placed))]
    · rw [left] at blankless'
      simp at blankless'
    · rw [left] at blankless
      simp at blankless

theorem IsWritten.text_ne_anchored (h : target.IsWritten request ref)
    (h' : target'.IsAnchored request' anchor fullName) : request.text ≠ request'.text := by
  intro same
  have written := Request.text_of_direct h.asked
  have opening : '(' ∉ ref.text.toList := h.plain.not_mem (by decide) (by decide)
  rw [← written, same, h'.text_chars] at opening
  simp at opening

theorem IsWritten.key_eq_iff (h : target.IsWritten request ref)
    (h' : target'.IsWritten request' ref') :
    target.key = target'.key ↔ request.text = request'.text := by
  rw [h.keyed, h'.keyed, Request.text_of_direct h.asked, Request.text_of_direct h'.asked]

/-- Targets without a module are the same when their requests are spelled the same, and are told to
be repeats for no other reason. -/
theorem sameThing_or_false_iff_of_unplaced (unplaced : target.module? = none)
    (unplaced' : target'.module? = none) (unsourced : target.source? = none) :
    SameThing request target request' target' ∨ FalseRepeat request target request' target' ↔
      request.text = request'.text := by
  constructor
  · rintro ((⟨t, left, _⟩ | ⟨m, left, _⟩ | ⟨_, _, text⟩) |
      (⟨_, _, _, _, _, placed, _⟩ | ⟨_, _, _, _, _, placed, _⟩ | ⟨m, _, placed, _⟩ |
        ⟨m, _, placed, _⟩))
    · rw [unsourced] at left
      cases left
    · rw [unplaced] at left
      cases left
    · exact text
    · rw [unplaced'] at placed
      cases placed
    · rw [unplaced] at placed
      cases placed
    · rw [unplaced] at placed
      cases placed
    · rw [unplaced'] at placed
      cases placed
  · exact fun text => Or.inl (Or.inr (Or.inr ⟨unplaced, unplaced', text⟩))

/-- A target without a module is told to be a repeat of one in a module only through its anchor. -/
theorem sameThing_or_false_iff_of_known (unplaced : target.module? = none)
    (unsourced : target.source? = none) (h' : target'.IsKnown r module) :
    SameThing request target request' target' ∨ FalseRepeat request target request' target' ↔
      AnchorMistaken request target target' := by
  constructor
  · rintro ((⟨t, left, _⟩ | ⟨m, left, _⟩ | ⟨_, unplaced', _⟩) |
      (mistaken | ⟨unplaced', _⟩ | ⟨m, _, placed, _⟩ | ⟨m, _, _, placed, _⟩))
    · rw [unsourced] at left
      cases left
    · rw [unplaced] at left
      cases left
    · exact (h'.not_unplaced unplaced').elim
    · exact mistaken
    · exact (h'.not_unplaced unplaced').elim
    · rw [unplaced] at placed
      cases placed
    · rw [unplaced] at placed
      cases placed
  · exact fun mistaken => Or.inr (Or.inl mistaken)

theorem IsWritten.not_anchorMistaken (h : target.IsWritten request ref) :
    ¬AnchorMistaken request target target' := by
  rintro ⟨_, anchor, fullName, asked, _⟩
  rw [h.asked] at asked
  cases asked

end Target

open Target

/-- Keys are equal for requests that name the same thing and for false repeats, and for no
others. -/
theorem key_eq_iff {r : Resolver} {request request' : Request} {target target' : Target}
    (h : target.Naming r request) (h' : target'.Naming r request') :
    target.key = target'.key ↔
      SameThing request target request' target' ∨ FalseRepeat request target request' target' := by
  have swapped : SameThing request target request' target' ∨
      FalseRepeat request target request' target' ↔
      SameThing request' target' request target ∨ FalseRepeat request' target' request target :=
    ⟨Or.imp SameThing.symm FalseRepeat.symm, Or.imp SameThing.symm FalseRepeat.symm⟩
  cases h with
  | known module h =>
    cases h' with
    | known module' h' => exact h.key_eq_iff h'
    | written ref h' =>
      rw [swapped, sameThing_or_false_iff_of_known h'.unplaced h'.unsourced h]
      exact iff_of_false (h'.key_ne_known h).symm h'.not_anchorMistaken
    | anchored anchor fullName h' =>
      rw [swapped, sameThing_or_false_iff_of_known h'.unplaced h'.unsourced h, eq_comm]
      exact h'.key_eq_known_iff h
  | written ref h =>
    cases h' with
    | known module h' =>
      rw [sameThing_or_false_iff_of_known h.unplaced h.unsourced h']
      exact iff_of_false (h.key_ne_known h') h.not_anchorMistaken
    | written ref' h' =>
      rw [sameThing_or_false_iff_of_unplaced h.unplaced h'.unplaced h.unsourced]
      exact h.key_eq_iff h'
    | anchored anchor fullName h' =>
      rw [sameThing_or_false_iff_of_unplaced h.unplaced h'.unplaced h.unsourced]
      exact iff_of_false (h.key_ne_anchored h') (h.text_ne_anchored h')
  | anchored anchor fullName h =>
    cases h' with
    | known module h' =>
      rw [sameThing_or_false_iff_of_known h.unplaced h.unsourced h']
      exact h.key_eq_known_iff h'
    | written ref h' =>
      rw [sameThing_or_false_iff_of_unplaced h.unplaced h'.unplaced h.unsourced]
      exact iff_of_false (h'.key_ne_anchored h).symm (h'.text_ne_anchored h).symm
    | anchored anchor' fullName' h' =>
      rw [sameThing_or_false_iff_of_unplaced h.unplaced h'.unplaced h.unsourced]
      exact h.key_eq_iff h'

theorem Target.Naming.key_ne_core {r : Resolver} {request : Request} {target : Target}
    (h : target.Naming r request) : target.key ≠ Pass.coreKey := by
  have barless : '|' ∉ Pass.coreKey.toList := by decide
  intro same
  cases h with
  | known module h =>
    rw [← same, h.keyed] at barless
    exact barless (bar_mem_key module target.fullName)
  | anchored anchor fullName h =>
    rw [← same, h.keyed] at barless
    exact barless (bar_mem_key anchor.text fullName)
  | written ref h =>
    obtain ⟨c, rest, begins, part⟩ := TypeRef.text_begins h.plain
    rw [← h.keyed, same] at begins
    obtain ⟨rfl, _⟩ := List.cons.inj begins
    exact absurd part (by decide)

end HiddenNames
