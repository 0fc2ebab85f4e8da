import HiddenNames.Types.Arity
import HiddenNames.Proofs.Identifier.Fresh
import HiddenNames.Proofs.Text.Pieces
import Mathlib.Data.List.TakeWhile

/-!
Names that are put together again from what they were taken apart into. Taking a name apart forgets
how its arity was written, so only the spelling that compilers use comes back.
-/

namespace HiddenNames

/-! Numerals. -/

def IsCanonicalNumeral (digits : List Char) : Prop :=
  (∀ c ∈ digits, c.isDigit = true) ∧ digits.head? ≠ some '0'

theorem asciiDigit {c : Char} (h : c.isDigit = true) :
    Unicode.digitValue? c = some (c.toNat - '0'.toNat) ∧
    Nat.toDigits 10 (c.toNat - '0'.toNat) = [c] ∧
      c.toNat - '0'.toNat < 10 ∧ (c = '0' ∨ 0 < c.toNat - '0'.toNat) := by
  have each : ['0', '1', '2', '3', '4', '5', '6', '7', '8', '9'].all (fun c =>
      Unicode.digitValue? c = some (c.toNat - '0'.toNat) ∧
        Nat.toDigits 10 (c.toNat - '0'.toNat) = [c] ∧
        c.toNat - '0'.toNat < 10 ∧ (c = '0' ∨ 0 < c.toNat - '0'.toNat)) = true := by decide
  exact of_decide_eq_true (List.all_eq_true.mp each c (Identifier.mem_digits h))

/-- Digits behind a number that is not zero are the last digits of the number they go on to. -/
theorem toDigits_ofDigitChars {digits : List Char} (ascii : ∀ c ∈ digits, c.isDigit = true)
    {n : Nat} (pos : 0 < n) :
    Nat.toDigits 10 (Nat.ofDigitChars 10 digits n) = Nat.toDigits 10 n ++ digits := by
  induction digits generalizing n with
  | nil => rw [Nat.ofDigitChars_nil, List.append_nil]
  | cons c rest ih =>
    obtain ⟨first, later⟩ := List.forall_mem_cons.mp ascii
    obtain ⟨-, spelled, small, -⟩ := asciiDigit first
    have longer := Nat.toDigits_append_toDigits (b := 10) (by decide) pos small
    rw [Nat.ofDigitChars_cons, ih later (by omega), ← longer, spelled, List.append_assoc,
      List.singleton_append]

theorem IsCanonicalNumeral.toDigits {digits : List Char} (h : IsCanonicalNumeral digits)
    (filled : digits ≠ []) : Nat.toDigits 10 (Nat.ofDigitChars 10 digits 0) = digits := by
  obtain ⟨c, rest, rfl⟩ := List.exists_cons_of_ne_nil filled
  obtain ⟨first, later⟩ := List.forall_mem_cons.mp h.1
  obtain ⟨-, spelled, -, counts⟩ := asciiDigit first
  have positive := counts.resolve_left fun zero => h.2 (congrArg some zero)
  rw [Nat.ofDigitChars_cons, Nat.mul_zero, Nat.zero_add, toDigits_ofDigitChars later positive,
    spelled, List.singleton_append]

theorem isCanonicalNumeral_toDigits {n : Nat} (pos : 0 < n) :
    IsCanonicalNumeral (Nat.toDigits 10 n) := by
  refine ⟨fun c held => Nat.isDigit_of_mem_toDigits (by decide) (by decide) held, ?_⟩
  induction n using Nat.strongRecOn with
  | ind n ih =>
    rw [Nat.toDigits_eq_if (by decide)]
    by_cases small : n < 10
    · rw [if_pos small, List.head?_cons, ne_eq, Option.some_inj, Nat.digitChar_eq_zero]
      exact pos.ne'
    · rw [if_neg small, List.head?_append_of_ne_nil _ Nat.toDigits_ne_nil]
      exact ih (n / 10) (by omega) (by omega)

/-- Reading a numeral in the digits of compilers gives its number, if it is not too long. -/
theorem readNumeral_ascii {digits : List Char} (ascii : ∀ c ∈ digits, c.isDigit = true) {n : Nat}
    (h : readNumeral digits = .ok n) : n = Nat.ofDigitChars 10 digits 0 := by
  have values :
      digits.mapM Unicode.digitValue? = some (digits.map fun c => c.toNat - '0'.toNat) := by
    clear h
    induction digits with
    | nil => rfl
    | cons c rest ih =>
      obtain ⟨first, later⟩ := List.forall_mem_cons.mp ascii
      rw [List.mapM_cons, (asciiDigit first).1, ih later]
      rfl
  simp only [readNumeral, values] at h
  split at h
  · cases h
  · rw [← Except.ok.inj h, numeralValue, List.foldl_map, Nat.ofDigitChars_eq_foldl]

/-! Names. -/

/-- The name has a mark, and behind the first one stands a numeral of some script. -/
def EndsInNumeral (name : String) (front suffix : List Char) : Prop :=
  Text.cutAt arityMark name.toList = some (front, suffix) ∧ suffix ≠ [] ∧
    ∀ c ∈ suffix, Unicode.isDigitForm c = true

/-- The arity behind the first mark of a name, if there is one, is written as compilers write it. -/
def HasCanonicalArity (name : String) : Prop :=
  ∀ front suffix, EndsInNumeral name front suffix → IsCanonicalNumeral suffix

theorem EndsInNumeral.unique {name : String} {front front' suffix suffix' : List Char}
    (h : EndsInNumeral name front suffix) (h' : EndsInNumeral name front' suffix') :
    front = front' ∧ suffix = suffix' :=
  Prod.mk.inj (Option.some.inj (h.1.symm.trans h'.1))

theorem isNumeral_iff {suffix : List Char} :
    (suffix.isEmpty || !suffix.all Unicode.isDigitForm) = false ↔
      suffix ≠ [] ∧ ∀ c ∈ suffix, Unicode.isDigitForm c = true := by
  rw [Bool.or_eq_false_iff, Bool.not_eq_false', List.all_eq_true, List.isEmpty_eq_false_iff]

theorem splitArity_cases {name simple : String} {arity : Nat}
    (h : splitArity name = .ok (simple, arity)) :
    (simple = name ∧ arity = 0 ∧ ∀ front suffix, ¬EndsInNumeral name front suffix) ∨
      ∃ suffix, EndsInNumeral name simple.toList suffix ∧ readNumeral suffix = .ok arity := by
  rw [splitArity] at h
  cases cut : Text.cutAt arityMark name.toList with
  | none =>
    rw [cut] at h
    obtain ⟨rfl, rfl⟩ := Prod.mk.inj (Except.ok.inj h)
    exact .inl ⟨rfl, rfl, fun front suffix numbered => nomatch cut.symm.trans numbered.1⟩
  | some both =>
    obtain ⟨front, suffix⟩ := both
    simp only [cut] at h
    split at h
    · rename_i none
      obtain ⟨rfl, rfl⟩ := Prod.mk.inj (Except.ok.inj h)
      refine .inl ⟨rfl, rfl, fun front' suffix' numbered => ?_⟩
      obtain ⟨-, rfl⟩ := Prod.mk.inj (Option.some.inj (cut.symm.trans numbered.1))
      exact Bool.false_ne_true ((isNumeral_iff.mpr numbered.2).symm.trans none)
    · rename_i numeral
      cases read : readNumeral suffix with
      | error e =>
        rw [read] at h
        cases h
      | ok n =>
        rw [read] at h
        obtain ⟨rfl, rfl⟩ := Prod.mk.inj (Except.ok.inj h)
        refine .inr ⟨suffix, ⟨?_, isNumeral_iff.mp (Bool.not_eq_true _ ▸ numeral)⟩, read⟩
        rw [String.toList_ofList, cut]

/-! Names that cannot be read. -/

structure IsLegibleNumeral (digits : List Char) : Prop where
  decimal : ∀ c ∈ digits, Unicode.isDecimalDigit c = true
  short : digits.length ≤ longestNumeral

def HasLegibleArity (name : String) : Prop :=
  ∀ front suffix, EndsInNumeral name front suffix → IsLegibleNumeral suffix

theorem isSome_valueWithin (ranges : List (Nat × Nat)) (n : Nat) :
    (Unicode.valueWithin ranges n).isSome = Unicode.within ranges n := by
  induction ranges with
  | nil => rfl
  | cons range rest ih =>
    obtain ⟨lo, hi⟩ := range
    rw [Unicode.valueWithin, Unicode.within]
    by_cases below : n < lo
    · rw [if_pos below, if_pos below, Option.isSome_none]
    · rw [if_neg below, if_neg below]
      by_cases inside : n ≤ hi <;> simp [inside, ih]

theorem isSome_digitValues (cs : List Char) :
    (cs.mapM Unicode.digitValue?).isSome = cs.all Unicode.isDecimalDigit := by
  induction cs with
  | nil => rfl
  | cons c rest ih =>
    have own : (Unicode.digitValue? c).isSome = Unicode.isDecimalDigit c := isSome_valueWithin _ _
    rw [List.all_cons, ← own, ← ih, List.mapM_cons]
    cases Unicode.digitValue? c <;> cases rest.mapM Unicode.digitValue? <;> rfl

theorem readNumeral_ok_iff {cs : List Char} :
    (∃ n, readNumeral cs = .ok n) ↔ IsLegibleNumeral cs := by
  have values := isSome_digitValues cs
  constructor
  · rintro ⟨n, read⟩
    simp only [readNumeral] at read
    split at read
    · cases read
    · rename_i short
      split at read
      · cases read
      · rename_i digits found
        rw [found, Option.isSome_some, eq_comm, List.all_eq_true] at values
        rw [List.takeWhile_eq_self_iff.mpr values, not_lt] at short
        exact ⟨values, short⟩
  · rintro ⟨decimal, short⟩
    rw [List.all_eq_true.mpr decimal, Option.isSome_iff_exists] at values
    obtain ⟨digits, found⟩ := values
    refine ⟨numeralValue digits, ?_⟩
    rw [← List.takeWhile_eq_self_iff.mpr decimal, ← not_lt] at short
    simp only [readNumeral, if_neg short, found]

/-- The name of a type can be read just if its numeral can, if it ends in one. -/
theorem splitArity_ok_iff {name : String} :
    (∃ parts, splitArity name = .ok parts) ↔ HasLegibleArity name := by
  constructor
  · rintro ⟨⟨simple, arity⟩, read⟩ front suffix numbered
    rcases splitArity_cases read with ⟨-, -, none⟩ | ⟨suffix', numbered', number⟩
    · exact absurd numbered (none front suffix)
    · obtain ⟨-, rfl⟩ := numbered.unique numbered'
      exact readNumeral_ok_iff.mp ⟨arity, number⟩
  · intro legible
    rw [splitArity]
    cases cut : Text.cutAt arityMark name.toList with
    | none => exact ⟨_, rfl⟩
    | some both =>
      obtain ⟨front, suffix⟩ := both
      simp only
      split
      · exact ⟨_, rfl⟩
      · rename_i numeral
        have numbered : EndsInNumeral name front suffix :=
          ⟨cut, isNumeral_iff.mp (Bool.not_eq_true _ ▸ numeral)⟩
        obtain ⟨n, read⟩ := readNumeral_ok_iff.mpr (legible front suffix numbered)
        rw [read]
        exact ⟨_, rfl⟩

/-! Names that come back. -/

theorem toList_withArity (name : String) {arity : Nat} (pos : 0 < arity) :
    (withArity name arity).toList = name.toList ++ arityMark :: Nat.toDigits 10 arity := by
  rw [withArity, if_neg pos.ne', Text.toList_between, Nat.toString_eq_ofList_toDigits,
    String.toList_ofList, String.toList_ofList, List.singleton_append]

theorem EndsInNumeral.withArity_iff {name simple : String} {suffix : List Char} {arity : Nat}
    (h : EndsInNumeral name simple.toList suffix) (read : readNumeral suffix = .ok arity) :
    withArity simple arity = name ↔ IsCanonicalNumeral suffix := by
  have shape := (Text.cutAt_eq_some_iff.mp h.1).1
  constructor
  · intro same
    have positive : 0 < arity := by
      refine Nat.pos_of_ne_zero fun zero => ?_
      rw [zero, withArity, if_pos rfl] at same
      simpa [same] using congrArg List.length shape
    rw [← same, toList_withArity _ positive, List.append_cancel_left_eq] at shape
    exact (List.cons.inj shape).2 ▸ isCanonicalNumeral_toDigits positive
  · intro canonical
    have digits := canonical.toDigits h.2.1
    rw [← readNumeral_ascii canonical.1 read] at digits
    have positive : 0 < arity := by
      refine Nat.pos_of_ne_zero fun zero => canonical.2 ?_
      rw [← digits, zero, Nat.toDigits_zero, List.head?_cons]
    rw [← String.toList_inj, toList_withArity _ positive, digits, shape]

/-- A name comes back from its parts just if its arity is written as compilers write it. -/
theorem withArity_splitArity_iff {name simple : String} {arity : Nat}
    (h : splitArity name = .ok (simple, arity)) :
    withArity simple arity = name ↔ HasCanonicalArity name := by
  rcases splitArity_cases h with ⟨rfl, rfl, none⟩ | ⟨suffix, numbered, read⟩
  · exact iff_of_true (if_pos rfl) fun front suffix numbered => absurd numbered (none front suffix)
  · rw [numbered.withArity_iff read]
    exact ⟨fun own _ _ other => (numbered.unique other).2 ▸ own, fun all => all _ _ numbered⟩

end HiddenNames
