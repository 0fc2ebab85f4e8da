import HiddenNames.Proofs.Assoc
import HiddenNames.Surface.Unit

/-!
The text of constraint clauses. A constraint is cut into runs of word characters and single other
characters, and a run is spelled anew when it is a parameter of the type that declares the
constraint. What stands on both sides of a boundary between runs is spelled on its own.
-/

namespace HiddenNames

/-! Runs of word characters. -/

theorem wordRuns_cons (c : Char) (rest : List Char) :
    ∃ run more, wordRuns (c :: rest) = (c :: run) :: more := by
  rw [wordRuns]
  split
  · exact ⟨[], [], rfl⟩
  · split
    · exact ⟨_, _, rfl⟩
    · exact ⟨[], _, rfl⟩

/-- Between two texts there is a boundary unless one ends and the other begins with a word. -/
def IsBoundary (front back : List Char) : Prop :=
  ¬(front.getLast?.any Unicode.isWord = true ∧ back.head?.any Unicode.isWord = true)

theorem wordRuns_append {front back : List Char} (boundary : IsBoundary front back) :
    wordRuns (front ++ back) = wordRuns front ++ wordRuns back := by
  induction front with
  | nil => rfl
  | cons c rest ih =>
    cases rest with
    | nil =>
      cases back with
      | nil => rfl
      | cons d back =>
        obtain ⟨run, more, shape⟩ := wordRuns_cons d back
        have apart : (Unicode.isWord c && Unicode.isWord d) = false := by
          rw [← Bool.not_eq_true, Bool.and_eq_true]
          exact boundary
        rw [List.singleton_append, wordRuns, shape]
        simp [wordRuns, apart]
    | cons d rest =>
      have deeper : IsBoundary (d :: rest) back := by
        rw [IsBoundary, List.getLast?_cons_cons] at boundary
        exact boundary
      obtain ⟨run, more, shape⟩ := wordRuns_cons d rest
      rw [List.cons_append, wordRuns, ih deeper, shape, wordRuns, shape]
      by_cases joined : (Unicode.isWord c && Unicode.isWord d) = true <;> simp [joined]

theorem wordRuns_flatten (cs : List Char) : (wordRuns cs).flatten = cs := by
  induction cs with
  | nil => rfl
  | cons c rest ih =>
    cases shape : wordRuns rest with
    | nil =>
      rw [shape, List.flatten_nil] at ih
      rw [wordRuns, shape, ← ih]
      rfl
    | cons run more =>
      rw [shape, List.flatten_cons] at ih
      rw [wordRuns, shape, ← ih]
      by_cases joined : (Unicode.isWord c && run.head?.any Unicode.isWord) = true <;> simp [joined]

theorem wordRuns_word {word : List Char} (filled : word ≠ [])
    (isWord : ∀ c ∈ word, Unicode.isWord c) : wordRuns word = [word] := by
  induction word with
  | nil => exact absurd rfl filled
  | cons c rest ih =>
    rw [List.forall_mem_cons] at isWord
    cases rest with
    | nil => rfl
    | cons d rest =>
      rw [wordRuns, ih (List.cons_ne_nil d rest) isWord.2]
      simp [isWord.1, isWord.2 d List.mem_cons_self]

theorem singleton_mem_wordRuns {c : Char} (sign : Unicode.isWord c = false) {cs : List Char}
    (held : c ∈ cs) : [c] ∈ wordRuns cs := by
  obtain ⟨before, after, rfl⟩ := List.append_of_mem held
  have front : IsBoundary before (c :: after) := by
    rintro ⟨_, opens⟩
    simp [sign] at opens
  have back : IsBoundary [c] after := by
    rintro ⟨closes, _⟩
    simp [sign] at closes
  rw [wordRuns_append front, ← List.singleton_append, wordRuns_append back]
  exact List.mem_append_right _ List.mem_cons_self

section Renaming

variable (renames : List (String × String))

theorem renameWords_append {front back : List Char} (boundary : IsBoundary front back) :
    renameWords renames (String.ofList (front ++ back)) =
      renameWords renames (String.ofList front) ++ renameWords renames (String.ofList back) := by
  simp only [renameWords, String.toList_ofList]
  rw [wordRuns_append boundary, List.map_append, String.join_append]

theorem renameWords_word {word : String} (filled : word ≠ "")
    (isWord : ∀ c ∈ word.toList, Unicode.isWord c) :
    renameWords renames word = (renames.lookup word).getD word := by
  have one : wordRuns word.toList = [word.toList] :=
    wordRuns_word (mt String.toList_eq_nil_iff.mp filled) isWord
  have all : word.toList.all Unicode.isWord = true := List.all_eq_true.mpr isWord
  rw [renameWords, one, List.map_singleton, if_pos all, String.ofList_toList, String.join_cons,
    String.join_nil, String.append_empty]

theorem renameWords_sign {c : Char} (sign : Unicode.isWord c = false) :
    renameWords renames (String.ofList [c]) = String.ofList [c] := by
  simp [renameWords, wordRuns, sign]

theorem mem_renameWords {c : Char} (sign : Unicode.isWord c = false) {constraint : String}
    (held : c ∈ constraint.toList) : c ∈ (renameWords renames constraint).toList := by
  have run := singleton_mem_wordRuns sign held
  rw [renameWords, String.toList_join, List.mem_flatMap]
  refine ⟨String.ofList [c], List.mem_map.mpr ⟨[c], run, ?_⟩, ?_⟩
  · simp [sign]
  · simp

theorem mem_of_mem_renameWords {c : Char} {constraint : String}
    (h : c ∈ (renameWords renames constraint).toList) :
    c ∈ constraint.toList ∨ ∃ entry ∈ renames, c ∈ entry.2.toList := by
  rw [renameWords, String.toList_join, List.flatMap_map, List.mem_flatMap] at h
  obtain ⟨run, among, held⟩ := h
  have kept : c ∈ run → c ∈ constraint.toList := by
    intro inside
    rw [← wordRuns_flatten constraint.toList]
    exact List.mem_flatten.mpr ⟨run, among, inside⟩
  simp only at held
  split at held
  · cases renamed : renames.lookup (String.ofList run) with
    | none =>
      rw [renamed, Option.getD_none, String.toList_ofList] at held
      exact Or.inl (kept held)
    | some name =>
      rw [renamed, Option.getD_some] at held
      exact Or.inr ⟨_, mem_of_lookup renamed, held⟩
  · rw [String.toList_ofList] at held
    exact Or.inl (kept held)

end Renaming

end HiddenNames
