import HiddenNames.Proofs.Identifier.Fresh

/-!
Names that can be declared side by side. What a scope hands out is legal; marks aside, no two of the
names are one, and none is a name that was taken before. The number behind a name matters only for
names that end like one: any other name is handed out just when it is asked for and was not taken.
-/

namespace HiddenNames.Identifier

/-- How a text is declared where nothing else is, marks aside. -/
def stem (name : String) : String := plain (legalize name)

def IsNumbered (name : String) : Prop := ∃ front k, name = numbered front k

structure AreApart (taken names : List String) : Prop where
  legal : ∀ name ∈ names, isLegal name = true
  distinct : (names.map plain).Nodup
  free : ∀ name ∈ names, plain name ∉ taken

theorem AreApart.nil (taken : List String) : AreApart taken [] :=
  ⟨fun _ held => absurd held List.not_mem_nil, List.nodup_nil,
    fun _ held => absurd held List.not_mem_nil⟩

/-- One more name can be declared when it is legal and free, and taken for all others. -/
theorem AreApart.cons {taken names : List String} {name : String} (legal : isLegal name = true)
    (free : plain name ∉ taken) (h : AreApart (plain name :: taken) names) :
    AreApart taken (name :: names) := by
  constructor
  · exact List.forall_mem_cons.mpr ⟨legal, h.legal⟩
  · rw [List.map_cons, List.nodup_cons]
    refine ⟨fun held => ?_, h.distinct⟩
    obtain ⟨other, among, same⟩ := List.mem_map.mp held
    exact h.free other among (same ▸ List.mem_cons_self)
  · refine List.forall_mem_cons.mpr ⟨free, fun other among held => ?_⟩
    exact h.free other among (List.mem_cons_of_mem _ held)

/-- One more name can be declared behind others when it is legal, free and called like none of
them. -/
theorem AreApart.concat {taken names : List String} {name : String} (h : AreApart taken names)
    (legal : isLegal name = true) (free : plain name ∉ taken)
    (apart : plain name ∉ names.map plain) : AreApart taken (names ++ [name]) := by
  constructor
  · exact List.forall_mem_append.mpr ⟨h.legal, List.forall_mem_singleton.mpr legal⟩
  · rw [List.map_append, List.map_singleton]
    exact List.nodup_append_comm.mp (List.nodup_cons.mpr ⟨apart, h.distinct⟩)
  · exact List.forall_mem_append.mpr ⟨h.free, List.forall_mem_singleton.mpr free⟩

theorem isLegal_escapeKeyword {name : String} (bare : isBare name = true) :
    isLegal (escapeKeyword name) = true := by
  by_cases keyword : isKeyword name = true
  · rw [escapeKeyword, if_pos keyword, isLegal, String.toList_append]
    exact bare
  · rw [escapeKeyword, if_neg keyword]
    unfold isLegal
    split
    · rename_i rest shape
      rw [isBare, shape, isBareChars_cons] at bare
      exact absurd bare.1 (by decide)
    · rw [Bool.and_eq_true, Bool.not_eq_true']
      exact ⟨bare, Bool.eq_false_iff.mpr keyword⟩

theorem isLegal_legalize (name : String) : isLegal (legalize name) = true := by
  have repaired : ∀ cs, isLegal (escapeKeyword (String.ofList (repair cs))) = true := by
    intro cs
    apply isLegal_escapeKeyword
    rw [isBare, String.toList_ofList]
    exact isBareChars_repair cs
  unfold legalize
  split
  · rename_i rest shape
    by_cases bare : isBareChars rest = true
    · rw [if_pos bare, isLegal, shape]
      exact bare
    · rw [if_neg bare]
      exact repaired _
  · by_cases bare : isBareChars name.toList = true
    · rw [if_pos bare]
      exact isLegal_escapeKeyword bare
    · rw [if_neg bare]
      exact repaired _

theorem isBare_plain_of_isLegal {name : String} (h : isLegal name = true) :
    isBare (plain name) = true := by
  unfold isLegal at h
  split at h
  · rename_i rest shape
    have bare : plain name = String.ofList rest := by simp only [plain, shape]
    rw [bare, isBare, String.toList_ofList]
    exact h
  · rw [Bool.and_eq_true] at h
    rw [plain_of_isBare h.1]
    exact h.1

namespace Scope

variable {scope : Scope} {names : List String}

theorem isLegal_choose (scope : Scope) (name : String) : isLegal (scope.choose name) = true := by
  by_cases free : scope.isFree (legalize name) = true
  · rw [choose, if_pos free]
    exact isLegal_legalize name
  · rw [choose, if_neg free]
    exact isLegal_legalize _

theorem claimAll_cons (scope : Scope) (name : String) (rest : List String) :
    scope.claimAll (name :: rest) =
      (scope.choose name :: ((scope.take (scope.choose name)).claimAll rest).1,
        ((scope.take (scope.choose name)).claimAll rest).2) := rfl

@[simp]
theorem claimAll_length (scope : Scope) (names : List String) :
    (scope.claimAll names).1.length = names.length := by
  induction names generalizing scope with
  | nil => rfl
  | cons name rest ih => rw [claimAll_cons, List.length_cons, List.length_cons, ih]

theorem claimAll_append (scope : Scope) (first more : List String) :
    scope.claimAll (first ++ more) =
      ((scope.claimAll first).1 ++ ((scope.claimAll first).2.claimAll more).1,
        ((scope.claimAll first).2.claimAll more).2) := by
  induction first generalizing scope with
  | nil => rfl
  | cons name rest ih =>
    rw [List.cons_append, claimAll_cons, claimAll_cons, ih]
    rfl

/-- A scope hands out names that can be declared beside all that was taken. -/
theorem claimAll_apart (scope : Scope) (names : List String) :
    AreApart scope.taken (scope.claimAll names).1 := by
  induction names generalizing scope with
  | nil => exact .nil scope.taken
  | cons name rest ih =>
    rw [claimAll_cons]
    exact .cons (scope.isLegal_choose name) (scope.choose_free name) (ih _)

theorem mem_taken_claimAll (scope : Scope) (names : List String) (text : String) :
    text ∈ (scope.claimAll names).2.taken ↔
      text ∈ scope.taken ∨ text ∈ (scope.claimAll names).1.map plain := by
  induction names generalizing scope with
  | nil => exact (or_iff_left List.not_mem_nil).symm
  | cons name rest ih =>
    rw [claimAll_cons, ih, List.map_cons, take_taken, List.mem_cons, List.mem_cons, or_assoc,
      or_left_comm]

/-- What is handed out for a name is how it is declared, or that with a number. -/
theorem choose_cases (scope : Scope) (name : String) :
    plain (scope.choose name) = stem name ∨ IsNumbered (plain (scope.choose name)) := by
  by_cases free : scope.isFree (legalize name) = true
  · rw [choose, if_pos free]
    exact Or.inl rfl
  · rw [choose, if_neg free]
    exact Or.inr ⟨_, _, plain_legalize_numbered (isBare_plain_legalize name) _⟩

theorem stem_taken_of_choose (scope : Scope) (name : String) :
    stem name ∈ (scope.take (scope.choose name)).taken := by
  by_cases free : scope.isFree (legalize name) = true
  · rw [choose, if_pos free]
    exact List.mem_cons_self
  · exact List.mem_cons_of_mem _ (not_not.mp (mt decide_eq_true free))

theorem stem_taken (scope : Scope) {name : String} (held : name ∈ names) :
    stem name ∈ (scope.claimAll names).2.taken := by
  induction names generalizing scope with
  | nil => cases held
  | cons first rest ih =>
    rw [claimAll_cons]
    rcases List.mem_cons.mp held with rfl | later
    · exact (mem_taken_claimAll _ rest _).mpr (Or.inl (scope.stem_taken_of_choose name))
    · exact ih _ later

theorem stem_handed_out {name : String} (held : name ∈ names) (free : stem name ∉ scope.taken) :
    stem name ∈ (scope.claimAll names).1.map plain :=
  ((mem_taken_claimAll scope names _).mp (scope.stem_taken held)).resolve_left free

/-- A name that does not end like a numbered one is handed out only when it is asked for. -/
theorem asked_for {text : String} (h : text ∈ (scope.claimAll names).1.map plain)
    (unnumbered : ¬IsNumbered text) : ∃ name ∈ names, stem name = text := by
  obtain ⟨identifier, among, rfl⟩ := List.mem_map.mp h
  obtain ⟨name, held, before, rfl⟩ := mem_claimAll among
  rcases before.choose_cases name with same | number
  · exact ⟨name, held, same.symm⟩
  · exact absurd number unnumbered

end Scope

end HiddenNames.Identifier
