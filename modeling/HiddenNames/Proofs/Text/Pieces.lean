import HiddenNames.Text.Basic

/-!
Texts made of pieces: what is in a joined or a cut text is in one of its pieces or in what stands
between them, and texts that are joined by bars are compared piece by piece.
-/

namespace HiddenNames.Text

theorem mem_intercalate {sep : String} {pieces : List String} {c : Char}
    (h : c ∈ (sep.intercalate pieces).toList) :
    c ∈ sep.toList ∨ ∃ piece ∈ pieces, c ∈ piece.toList := by
  induction pieces with
  | nil => simp at h
  | cons piece rest ih =>
    by_cases alone : rest = []
    · subst alone
      rw [String.intercalate_singleton] at h
      exact Or.inr ⟨piece, List.mem_cons_self, h⟩
    · rw [String.intercalate_cons_of_ne_nil alone, String.toList_append, String.toList_append,
        List.mem_append, List.mem_append] at h
      rcases h with (here | between) | later
      · exact Or.inr ⟨piece, List.mem_cons_self, here⟩
      · exact Or.inl between
      · rcases ih later with between | ⟨other, held, inside⟩
        · exact Or.inl between
        · exact Or.inr ⟨other, List.mem_cons_of_mem _ held, inside⟩

theorem mem_intercalate_of_mem {sep : String} {pieces : List String} {piece : String}
    (among : piece ∈ pieces) {c : Char} (held : c ∈ piece.toList) :
    c ∈ (sep.intercalate pieces).toList := by
  induction pieces with
  | nil => cases among
  | cons first rest ih =>
    by_cases alone : rest = []
    · subst alone
      rw [String.intercalate_singleton, ← List.mem_singleton.mp among]
      exact held
    · rw [String.intercalate_cons_of_ne_nil alone, String.toList_append, List.mem_append]
      rcases List.mem_cons.mp among with rfl | later
      · exact Or.inl (String.toList_append ▸ List.mem_append_left _ held)
      · exact Or.inr (ih later)

/-- What a filter drops of a joined text are signs of the separator, when it keeps the pieces. -/
theorem filter_intercalate {keep : Char → Bool} {pieces : List String}
    (kept : ∀ piece ∈ pieces, ∀ c ∈ piece.toList, keep c = true) (sep : String) :
    (sep.intercalate pieces).toList.filter keep =
      ((String.ofList (sep.toList.filter keep)).intercalate pieces).toList := by
  induction pieces with
  | nil => rfl
  | cons piece rest ih =>
    rw [List.forall_mem_cons] at kept
    by_cases alone : rest = []
    · subst alone
      rw [String.intercalate_singleton, String.intercalate_singleton]
      exact List.filter_eq_self.mpr kept.1
    · rw [String.intercalate_cons_of_ne_nil alone, String.intercalate_cons_of_ne_nil alone]
      simp only [String.toList_append, List.filter_append, String.toList_ofList]
      rw [List.filter_eq_self.mpr kept.1, ih kept.2]

theorem splitAt_ne_nil (sep : Char) (cs : List Char) : splitAt sep cs ≠ [] := by
  cases cs with
  | nil => exact List.cons_ne_nil _ _
  | cons c rest =>
    unfold splitAt
    split
    · exact List.cons_ne_nil _ _
    · split <;> exact List.cons_ne_nil _ _

theorem split_ne_nil (sep : Char) (s : String) : split sep s ≠ [] :=
  fun empty => splitAt_ne_nil sep s.toList (List.map_eq_nil_iff.mp empty)

theorem splitAt_cons_self (sep : Char) (rest : List Char) :
    splitAt sep (sep :: rest) = [] :: splitAt sep rest := by
  obtain ⟨piece, more, pieces⟩ := List.exists_cons_of_ne_nil (splitAt_ne_nil sep rest)
  simp only [splitAt, pieces, if_true]

theorem splitAt_cons_of_ne {sep c : Char} (other : c ≠ sep) {rest piece : List Char}
    {more : List (List Char)} (pieces : splitAt sep rest = piece :: more) :
    splitAt sep (c :: rest) = (c :: piece) :: more := by
  simp only [splitAt, pieces, if_neg other]

theorem splitAt_of_not_mem {sep : Char} {cs : List Char} (absent : sep ∉ cs) :
    splitAt sep cs = [cs] := by
  induction cs with
  | nil => rfl
  | cons c rest ih =>
    rw [List.mem_cons, not_or] at absent
    exact splitAt_cons_of_ne (fun same => absent.1 same.symm) (ih absent.2)

theorem splitAt_append (sep : Char) (cs ds : List Char) :
    splitAt sep (cs ++ sep :: ds) = splitAt sep cs ++ splitAt sep ds := by
  induction cs with
  | nil => exact splitAt_cons_self sep ds
  | cons c rest ih =>
    by_cases cut : c = sep
    · rw [cut, List.cons_append, splitAt_cons_self, splitAt_cons_self, ih, List.cons_append]
    · obtain ⟨piece, more, pieces⟩ := List.exists_cons_of_ne_nil (splitAt_ne_nil sep rest)
      rw [pieces] at ih
      rw [List.cons_append, splitAt_cons_of_ne cut pieces, splitAt_cons_of_ne cut ih]
      rfl

theorem split_of_not_mem {sep : Char} {s : String} (absent : sep ∉ s.toList) :
    split sep s = [s] := by
  rw [split, splitAt_of_not_mem absent, List.map_singleton, String.ofList_toList]

theorem intercalate_split (sep : Char) (s : String) :
    (String.singleton sep).intercalate (split sep s) = s := by
  have joined : ∀ cs, (String.singleton sep).intercalate ((splitAt sep cs).map String.ofList) =
      String.ofList cs := by
    intro cs
    induction cs with
    | nil => rfl
    | cons c rest ih =>
      obtain ⟨piece, more, pieces⟩ := List.exists_cons_of_ne_nil (splitAt_ne_nil sep rest)
      have front : ∀ ds, String.ofList (c :: ds) = String.singleton c ++ String.ofList ds := by
        intro ds
        rw [← List.singleton_append, String.ofList_append]
        rfl
      by_cases cut : c = sep
      · subst cut
        rw [splitAt_cons_self, List.map_cons,
          String.intercalate_cons_of_ne_nil (by simp [pieces]), ih, front, String.ofList_nil,
          String.empty_append]
      · rw [pieces, List.map_cons] at ih
        rw [splitAt_cons_of_ne cut pieces, List.map_cons, front, String.intercalate_cons_append, ih,
          front]
  rw [split, joined, String.ofList_toList]

theorem split_append (sep : Char) (s t : String) :
    split sep (s ++ String.singleton sep ++ t) = split sep s ++ split sep t := by
  rw [split, String.toList_append, String.toList_append, String.toList_singleton, List.append_assoc,
    List.singleton_append, splitAt_append, List.map_append]
  rfl

/-- Pieces without the separator are found again in the text that joins them. -/
theorem split_intercalate (sep : Char) {pieces : List String} (filled : pieces ≠ [])
    (clean : ∀ piece ∈ pieces, sep ∉ piece.toList) :
    split sep ((String.singleton sep).intercalate pieces) = pieces := by
  induction pieces with
  | nil => exact absurd rfl filled
  | cons piece rest ih =>
    rw [List.forall_mem_cons] at clean
    by_cases alone : rest = []
    · rw [alone, String.intercalate_singleton]
      exact split_of_not_mem clean.1
    · rw [String.intercalate_cons_of_ne_nil alone, split_append, split_of_not_mem clean.1,
        ih alone clean.2, List.singleton_append]

theorem cutAt_eq_some_iff {sep : Char} {cs before after : List Char} :
    cutAt sep cs = some (before, after) ↔ cs = before ++ sep :: after ∧ sep ∉ before := by
  induction cs generalizing before with
  | nil => simp [cutAt]
  | cons c rest ih =>
    rw [cutAt]
    by_cases here : c = sep
    · subst here
      rw [if_pos rfl, Option.some_inj, Prod.mk.injEq]
      cases before with
      | nil => simp [eq_comm]
      | cons first more =>
        refine iff_of_false (fun same => List.cons_ne_nil _ _ same.1.symm) ?_
        rintro ⟨same, apart⟩
        exact apart (List.mem_cons.mpr (.inl (List.cons.inj same).1))
    · rw [if_neg here, Option.map_eq_some_iff]
      constructor
      · rintro ⟨⟨front, behind⟩, found, same⟩
        obtain ⟨rfl, rfl⟩ := Prod.mk.inj same
        obtain ⟨whole, apart⟩ := ih.mp found
        rw [whole, List.cons_append, List.mem_cons, not_or]
        exact ⟨rfl, fun same => here same.symm, apart⟩
      · rintro ⟨whole, apart⟩
        cases before with
        | nil => exact absurd (List.cons.inj whole).1 here
        | cons first front =>
          obtain ⟨rfl, rest⟩ := List.cons.inj whole
          exact ⟨(front, after),
            ih.mpr ⟨rest, fun held => apart (List.mem_cons_of_mem _ held)⟩, rfl⟩

theorem mem_splitAt (sep : Char) {c : Char} {cs : List Char} (h : c ∈ cs) :
    c = sep ∨ ∃ piece ∈ splitAt sep cs, c ∈ piece := by
  induction cs with
  | nil => cases h
  | cons d rest ih =>
    rcases pieces : splitAt sep rest with _ | ⟨piece, more⟩
    · rw [pieces] at ih
      rcases List.mem_cons.mp h with rfl | later
      · refine Or.inr ⟨[c], ?_, List.mem_singleton_self c⟩
        simp only [splitAt, pieces, List.mem_singleton]
      · rcases ih later with separator | ⟨piece, among, _⟩
        · exact Or.inl separator
        · cases among
    · by_cases cut : d = sep
      · have shape : splitAt sep (d :: rest) = [] :: piece :: more := by
          simp only [splitAt, pieces, if_pos cut]
        rw [shape]
        rcases List.mem_cons.mp h with rfl | later
        · exact Or.inl cut
        · rcases ih later with separator | ⟨other, among, inside⟩
          · exact Or.inl separator
          · exact Or.inr ⟨other, List.mem_cons_of_mem _ (pieces ▸ among), inside⟩
      · have shape : splitAt sep (d :: rest) = (d :: piece) :: more := by
          simp only [splitAt, pieces, if_neg cut]
        rw [shape]
        rcases List.mem_cons.mp h with rfl | later
        · exact Or.inr ⟨c :: piece, List.mem_cons_self, List.mem_cons_self⟩
        · rcases ih later with separator | ⟨other, among, inside⟩
          · exact Or.inl separator
          · rw [pieces] at among
            rcases List.mem_cons.mp among with rfl | behind
            · exact Or.inr ⟨d :: other, List.mem_cons_self, List.mem_cons_of_mem _ inside⟩
            · exact Or.inr ⟨other, List.mem_cons_of_mem _ behind, inside⟩

theorem append_cons_eq_iff {α : Type} (s : α) (a b c d : List α) :
    a ++ s :: b = c ++ s :: d ↔
      (a = c ∧ b = d) ∨ (∃ x, c = a ++ s :: x ∧ b = x ++ s :: d) ∨
        ∃ x, a = c ++ s :: x ∧ d = x ++ s :: b := by
  constructor
  · intro same
    rcases List.append_eq_append_iff.mp same with ⟨x, left, right⟩ | ⟨x, left, right⟩
    · cases x with
      | nil =>
        obtain ⟨_, rest⟩ := List.cons.inj right
        exact Or.inl ⟨by rw [left, List.append_nil], rest⟩
      | cons y x =>
        obtain ⟨rfl, rest⟩ := List.cons.inj right
        exact Or.inr (Or.inl ⟨x, left, rest⟩)
    · cases x with
      | nil =>
        obtain ⟨_, rest⟩ := List.cons.inj right
        exact Or.inl ⟨by rw [left, List.append_nil], rest.symm⟩
      | cons y x =>
        obtain ⟨rfl, rest⟩ := List.cons.inj right
        exact Or.inr (Or.inr ⟨x, left, rest⟩)
  · rintro (⟨rfl, rfl⟩ | ⟨x, rfl, rfl⟩ | ⟨x, rfl, rfl⟩)
    · rfl
    · rw [List.append_assoc, List.cons_append]
    · rw [List.append_assoc, List.cons_append]

theorem toList_between (a b c : String) :
    (a ++ b ++ c).toList = a.toList ++ (b.toList ++ c.toList) := by
  rw [String.toList_append, String.toList_append, List.append_assoc]

theorem toList_bar (a b : String) : (a ++ "|" ++ b).toList = a.toList ++ '|' :: b.toList :=
  toList_between a "|" b

/-- Texts that are joined by bars are equal when their parts are, or when one of the parts has a bar
of its own in the right place. -/
theorem append_bar_eq_iff (a b c d : String) :
    a ++ "|" ++ b = c ++ "|" ++ d ↔
      (a = c ∧ b = d) ∨ (∃ x, c = a ++ "|" ++ x ∧ b = x ++ "|" ++ d) ∨
        ∃ x, a = c ++ "|" ++ x ∧ d = x ++ "|" ++ b := by
  simp only [← String.toList_inj, toList_bar, append_cons_eq_iff]
  constructor
  · rintro (equal | ⟨x, left, right⟩ | ⟨x, left, right⟩)
    · exact Or.inl equal
    · refine Or.inr (Or.inl ⟨String.ofList x, ?_⟩)
      rw [String.toList_ofList]
      exact ⟨left, right⟩
    · refine Or.inr (Or.inr ⟨String.ofList x, ?_⟩)
      rw [String.toList_ofList]
      exact ⟨left, right⟩
  · rintro (equal | ⟨x, parts⟩ | ⟨x, parts⟩)
    · exact Or.inl equal
    · exact Or.inr (Or.inl ⟨x.toList, parts⟩)
    · exact Or.inr (Or.inr ⟨x.toList, parts⟩)

end HiddenNames.Text
