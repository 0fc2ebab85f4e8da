import HiddenNames.Proofs.Identifier.Fresh

/-!
Characters of words and characters of identifiers. All letters, and all digits and letter-like
numbers, are both; what a word may hold beyond that are the other numbers, such as fractions and
superscripts, and of these an identifier may hold none. A flattened name is thus an identifier, once
something that begins one is put in front, just when it has no such number.
-/

namespace HiddenNames

namespace Unicode

/-- A number that is written neither in digits nor as a letter. -/
def isOtherNumber (c : Char) : Bool := within otherNumbers c.toNat

/-- Two tables have no code point in common, as far as going through both at once shows in so many
steps. -/
def areApart : Nat → List (Nat × Nat) → List (Nat × Nat) → Bool
  | 0, _, _ => false
  | _, [], _ => true
  | _, _, [] => true
  | steps + 1, (lo, hi) :: rest, (lo', hi') :: rest' =>
    if hi < lo' then areApart steps rest ((lo', hi') :: rest')
    else if hi' < lo then areApart steps ((lo, hi) :: rest) rest'
    else false

theorem within_cons (lo hi : Nat) (rest : List (Nat × Nat)) (n : Nat) :
    within ((lo, hi) :: rest) n = true ↔ lo ≤ n ∧ (n ≤ hi ∨ within rest n = true) := by
  rw [within]
  by_cases above : n < lo
  · simp only [above, if_true, Bool.false_eq_true, Nat.not_le.mpr above, false_and]
  · simp only [above, if_false, Bool.or_eq_true, decide_eq_true_eq, Nat.not_lt.mp above, true_and]

theorem not_within_of_apart {steps : Nat} {ranges others : List (Nat × Nat)}
    (apart : areApart steps ranges others = true) {n : Nat} (h : within ranges n = true) :
    within others n = false := by
  induction steps generalizing ranges others with
  | zero => cases apart
  | succ steps ih =>
    match ranges, others with
    | [], _ => cases h
    | _ :: _, [] => rfl
    | (lo, hi) :: rest, (lo', hi') :: rest' =>
      rw [areApart] at apart
      rw [← Bool.not_eq_true]
      intro both
      obtain ⟨low, inside⟩ := (within_cons lo hi rest n).mp h
      obtain ⟨low', inside'⟩ := (within_cons lo' hi' rest' n).mp both
      split at apart
      · have later : within rest n = true := inside.resolve_left (by omega)
        exact Bool.eq_false_iff.mp (ih apart later) both
      · split at apart
        · have later : within rest' n = true := inside'.resolve_left (by omega)
          exact Bool.eq_false_iff.mp (ih apart h) later
        · cases apart

end Unicode

namespace Identifier

open Unicode (isOtherNumber isWord within)

theorem not_isOtherNumber_of_isPart {c : Char} (h : isPart c = true) : isOtherNumber c = false := by
  have apart : ∀ table ∈ [Unicode.letters, Unicode.letterNumbers, Unicode.decimalDigits,
      Unicode.connectors, Unicode.combiningMarks, Unicode.formats],
      Unicode.areApart 1000 table Unicode.otherNumbers = true := by decide +kernel
  simp only [isPart, isStart, Unicode.isLetter, Unicode.isLetterNumber, Unicode.isDecimalDigit,
    Bool.or_eq_true, beq_iff_eq] at h
  rcases h with (((((underscore | letter) | numeral) | digit) | connector) | mark) | format
  · rw [underscore]
    decide
  · exact Unicode.not_within_of_apart (apart _ (by simp)) letter
  · exact Unicode.not_within_of_apart (apart _ (by simp)) numeral
  · exact Unicode.not_within_of_apart (apart _ (by simp)) digit
  · exact Unicode.not_within_of_apart (apart _ (by simp)) connector
  · exact Unicode.not_within_of_apart (apart _ (by simp)) mark
  · exact Unicode.not_within_of_apart (apart _ (by simp)) format

theorem isWord_of_isOtherNumber {c : Char} (h : isOtherNumber c = true) : isWord c = true := by
  have number : within Unicode.otherNumbers c.toNat = true := h
  simp only [isWord, Unicode.isAlphanumeric, Unicode.isNumber, number, Bool.or_true, Bool.true_or]

theorem isPart_of_isWord {c : Char} (word : isWord c = true) (plain : isOtherNumber c = false) :
    isPart c = true := by
  have other : within Unicode.otherNumbers c.toNat = false := plain
  simp only [isWord, Unicode.isAlphanumeric, Unicode.isNumber, other, Bool.or_false,
    Bool.or_eq_true] at word
  simp only [isPart, isStart, Bool.or_eq_true]
  tauto

/-- What stands for a character in a flattened name is part of an identifier, except for other
numbers. -/
theorem flattened_isPart_iff (c : Char) :
    isPart (if isWord c then c else '_') = true ↔ isOtherNumber c = false := by
  by_cases word : isWord c = true
  · rw [if_pos word]
    exact ⟨not_isOtherNumber_of_isPart, isPart_of_isWord word⟩
  · rw [if_neg word, iff_true_intro (isPart_of_isStart isStart_underscore), true_iff,
      ← Bool.not_eq_true]
    exact fun number => word (isWord_of_isOtherNumber number)

theorem isBare_before_flatten_iff {front : String} (bare : isBare front = true) (name : String) :
    isBare (front ++ flatten name) = true ↔ ∀ c ∈ name.toList, isOtherNumber c = false := by
  obtain ⟨first, rest, shape⟩ : ∃ first rest, front.toList = first :: rest := by
    cases chars : front.toList with
    | nil => rw [isBare, chars] at bare; cases bare
    | cons first rest => exact ⟨first, rest, rfl⟩
  rw [isBare, shape, isBareChars_cons] at bare
  rw [isBare, String.toList_append, shape, List.cons_append, isBareChars_cons, flatten,
    String.toList_ofList, List.forall_mem_append, List.forall_mem_map, and_iff_right bare.1,
    and_iff_right bare.2]
  exact forall₂_congr fun c _ => flattened_isPart_iff c

end Identifier

end HiddenNames
