import HiddenNames.Proofs.Identifier.Apart

/-!
Making texts legal is a retraction onto the legal identifiers: what comes out is legal, and just the
legal texts come out as they went in. A text that is neither legal nor a keyword is repaired
character by character. That cannot make a keyword of it, since every repair leaves an underscore
and no keyword holds one.
-/

namespace HiddenNames.Identifier

theorem isLegal_iff {name : String} :
    isLegal name = true ↔
      (∃ rest, name.toList = '@' :: rest ∧ isBareChars rest = true) ∨
        (isBare name = true ∧ isKeyword name = false) := by
  unfold isLegal
  split
  · rename_i rest shape
    have marked : isBare name = false := by
      rw [← Bool.not_eq_true, isBare, shape, isBareChars_cons]
      exact fun bare => absurd bare.1 (by decide)
    simp only [shape, marked, List.cons.injEq, true_and, exists_eq_left', Bool.false_eq_true,
      false_and, or_false]
  · rename_i unmarked
    rw [Bool.and_eq_true, Bool.not_eq_true']
    refine ⟨Or.inr, fun h => h.resolve_left ?_⟩
    rintro ⟨rest, shape, -⟩
    exact unmarked rest shape

theorem not_isKeyword_of_underscore {name : String} (held : '_' ∈ name.toList) :
    isKeyword name = false := by
  have letters : (reservedWords ++ contextualWords).all (fun word => '_' ∉ word.toList) = true := by
    decide +kernel
  rw [isKeyword, Bool.or_eq_false_iff, decide_eq_false_iff_not, decide_eq_false_iff_not, ← not_or,
    ← List.mem_append]
  intro word
  exact of_decide_eq_true (List.all_eq_true.mp letters name word) held

theorem legalize_of_isLegal {name : String} (legal : isLegal name = true) :
    legalize name = name := by
  rcases isLegal_iff.mp legal with ⟨rest, shape, bare⟩ | ⟨bare, free⟩
  · simp only [legalize, shape, bare, if_true]
  · rw [legalize_of_isBare bare, escapeKeyword, free]
    exact if_neg Bool.false_ne_true

theorem legalize_of_isKeyword {name : String} (keyword : isKeyword name = true) :
    legalize name = "@" ++ name := by
  have bare : (reservedWords ++ contextualWords).all isBare = true := by decide +kernel
  have word : name ∈ reservedWords ++ contextualWords := by
    simpa [isKeyword] using keyword
  rw [legalize_of_isBare (List.all_eq_true.mp bare name word), escapeKeyword, if_pos keyword]

/-- A repair leaves every character that may stand in an identifier as it is. -/
theorem repair_eq (cs : List Char) :
    repair cs = (if cs.head?.any isStart then [] else ['_']) ++
      cs.map fun c => if isPart c then c else '_' := by
  cases cs with
  | nil => rfl
  | cons c rest => by_cases start : isStart c = true <;> simp [repair, start]

theorem underscore_mem_repair {cs : List Char} (broken : isBareChars cs = false) :
    '_' ∈ repair cs := by
  rw [repair_eq, List.mem_append]
  cases cs with
  | nil => exact Or.inl List.mem_cons_self
  | cons c rest =>
    by_cases start : isStart c = true
    · -- The text begins well, so that something behind its first character is replaced.
      rw [isBareChars, start, Bool.true_and, List.all_eq_false] at broken
      obtain ⟨d, held, other⟩ := broken
      exact Or.inr (List.mem_map.mpr ⟨d, List.mem_cons_of_mem c held, if_neg other⟩)
    · rw [List.head?_cons, Option.any_some, if_neg start]
      exact Or.inl List.mem_cons_self

theorem legalize_of_broken {name : String} (illegal : isLegal name = false)
    (free : isKeyword name = false) : (legalize name).toList = repair name.toList := by
  rw [← Bool.not_eq_true, isLegal_iff, not_or] at illegal
  have broken : isBareChars name.toList = false :=
    Bool.eq_false_iff.mpr fun bare => illegal.2 ⟨bare, free⟩
  have repaired : legalize name = escapeKeyword (String.ofList (repair name.toList)) := by
    unfold legalize
    split
    · rename_i rest shape
      rw [shape]
      exact if_neg fun bare => illegal.1 ⟨rest, shape, bare⟩
    · rw [broken]
      exact if_neg Bool.false_ne_true
  have underscore : '_' ∈ (String.ofList (repair name.toList)).toList := by
    rw [String.toList_ofList]
    exact underscore_mem_repair broken
  rw [repaired, escapeKeyword, not_isKeyword_of_underscore underscore, if_neg Bool.false_ne_true,
    String.toList_ofList]

/-- What comes out is legal, and is what went in just where that was legal already. A keyword comes
out behind the verbatim mark, and any other text with one underscore for each character that no
identifier may hold, behind one more where the text is empty or its first character begins no
identifier. -/
theorem legalize_retraction (name : String) :
    isLegal (legalize name) = true ∧ (legalize name = name ↔ isLegal name = true) ∧
      legalize (legalize name) = legalize name ∧
      (isKeyword name = true → legalize name = "@" ++ name) ∧
      (isLegal name = false → isKeyword name = false →
        (legalize name).toList = (if name.toList.head?.any isStart then [] else ['_']) ++
          name.toList.map fun c => if isPart c then c else '_') := by
  have legal := isLegal_legalize name
  refine ⟨legal, ⟨fun same => same ▸ legal, legalize_of_isLegal⟩, legalize_of_isLegal legal,
    legalize_of_isKeyword, fun illegal free => ?_⟩
  rw [legalize_of_broken illegal free, repair_eq]

/-- A keyword, and a text with a digit in front and signs that no identifier holds, one of them
twice. -/
theorem keyword_and_signs_legalized :
    (isKeyword "class" = true ∧ legalize "class" = "@class") ∧
      isLegal "1st--é²" = false ∧ isKeyword "1st--é²" = false ∧
      legalize "1st--é²" = "_1st__é_" := by
  have keyword : isKeyword "class" = true := by decide +kernel
  have illegal : isLegal "1st--é²" = false := by decide +kernel
  have free : isKeyword "1st--é²" = false := by decide +kernel
  obtain ⟨-, -, -, marked, -⟩ := legalize_retraction "class"
  obtain ⟨-, -, -, -, repaired⟩ := legalize_retraction "1st--é²"
  refine ⟨⟨keyword, (marked keyword).trans rfl⟩, illegal, free, ?_⟩
  rw [← String.toList_inj, repaired illegal free]
  decide +kernel

end HiddenNames.Identifier
