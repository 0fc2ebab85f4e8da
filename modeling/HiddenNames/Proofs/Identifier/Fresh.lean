import HiddenNames.Identifier
import Mathlib.Data.List.Nodup
import Mathlib.Data.List.Perm.Subperm
import Mathlib.Tactic.IntervalCases

/-!
Numbered names never run out. Among as many numbers as there are taken names, and one more, some
number is free, so the search for the least free one ends with a free name. Names handed out by a
scope are legal, and therefore a number behind one is part of it.
-/

namespace HiddenNames.Identifier

theorem numbered_injective (name : String) : Function.Injective (numbered name) := by
  intro i j same
  have digits : Nat.toDigits 10 i = Nat.toDigits 10 j := by
    have spelled := congrArg String.toList same
    simpa [numbered, Nat.toString_eq_ofList_toDigits] using spelled
  calc i = Nat.ofDigitChars 10 (Nat.toDigits 10 i) 0 := Nat.ofDigitChars_ten_toDigits.symm
    _ = Nat.ofDigitChars 10 (Nat.toDigits 10 j) 0 := by rw [digits]
    _ = j := Nat.ofDigitChars_ten_toDigits

theorem leastFree_range (free : Nat → Bool) (fuel k : Nat) :
    free (leastFree free fuel k) = true ∨
      (leastFree free fuel k = k + fuel ∧ ∀ j, k ≤ j → j < k + fuel → free j = false) := by
  induction fuel generalizing k with
  | zero => exact Or.inr ⟨rfl, fun j low high => by omega⟩
  | succ fuel ih =>
    by_cases here : free k = true
    · rw [leastFree, if_pos here]
      exact Or.inl here
    · rw [leastFree, if_neg here]
      rcases ih (k + 1) with found | ⟨last, taken⟩
      · exact Or.inl found
      · refine Or.inr ⟨by omega, fun j low high => ?_⟩
        by_cases first : j = k
        · rw [first]
          exact Bool.eq_false_iff.mpr here
        · exact taken j (by omega) (by omega)

/-- Distinct names for distinct numbers cannot all be taken. -/
theorem leastFree_free {names : Nat → String} (distinct : Function.Injective names)
    (taken : List String) (k : Nat) :
    names (leastFree (fun j => decide (names j ∉ taken)) taken.length k) ∉ taken := by
  rcases leastFree_range (fun j => decide (names j ∉ taken)) taken.length k with
    found | ⟨last, occupied⟩
  · exact of_decide_eq_true found
  · -- All numbers that were tried are taken, and so is the last one: one name too many.
    intro held
    have fresh : ((List.range (taken.length + 1)).map fun i => names (k + i)).Nodup := by
      refine List.Nodup.map (fun i j same => ?_) List.nodup_range
      have equal := distinct same
      omega
    have inside : ((List.range (taken.length + 1)).map fun i => names (k + i)) ⊆ taken := by
      intro name among
      obtain ⟨i, low, rfl⟩ := List.mem_map.mp among
      have bound := List.mem_range.mp low
      by_cases end_reached : i = taken.length
      · rw [end_reached, ← last]
        exact held
      · have used := occupied (k + i) (by omega) (by omega)
        exact not_not.mp (of_decide_eq_false used)
    have longer := (List.subperm_of_subset fresh inside).length_le
    rw [List.length_map, List.length_range] at longer
    omega

theorem isStart_underscore : isStart '_' = true := rfl

theorem isPart_of_isStart {c : Char} (h : isStart c = true) : isPart c = true := by
  simp only [isPart, h, Bool.true_or]

theorem isBareChars_cons {c : Char} {rest : List Char} :
    isBareChars (c :: rest) = true ↔ isStart c = true ∧ ∀ d ∈ rest, isPart d = true := by
  rw [isBareChars, Bool.and_eq_true, List.all_eq_true]

theorem isPart_of_isBareChars {cs : List Char} (h : isBareChars cs = true) {c : Char}
    (held : c ∈ cs) : isPart c = true := by
  cases cs with
  | nil => cases held
  | cons d rest =>
    obtain ⟨start, parts⟩ := isBareChars_cons.mp h
    rcases List.mem_cons.mp held with rfl | later
    · exact isPart_of_isStart start
    · exact parts c later

theorem isBareChars_repair (cs : List Char) : isBareChars (repair cs) = true := by
  have parts : ∀ (ds : List Char), ∀ d ∈ ds.map (fun c => if isPart c then c else '_'),
      isPart d = true := by
    intro ds d held
    obtain ⟨c, _, rfl⟩ := List.mem_map.mp held
    by_cases part : isPart c = true
    · rw [if_pos part]
      exact part
    · rw [if_neg part]
      rfl
  cases cs with
  | nil => rfl
  | cons c rest =>
    by_cases start : isStart c = true
    · have part := isPart_of_isStart start
      simp only [repair, start, if_true, List.map_cons, part]
      exact isBareChars_cons.mpr ⟨start, parts rest⟩
    · simp only [repair, start]
      exact isBareChars_cons.mpr ⟨isStart_underscore, parts (c :: rest)⟩

theorem plain_of_isBare {name : String} (h : isBare name = true) : plain name = name := by
  unfold plain
  split
  · rename_i rest shape
    rw [isBare, shape, isBareChars_cons] at h
    exact absurd h.1 (by decide)
  · rfl

theorem toList_eq_plain (name : String) :
    name.toList = (plain name).toList ∨ name.toList = '@' :: (plain name).toList := by
  unfold plain
  split
  · rename_i rest marked
    rw [String.toList_ofList]
    exact Or.inr marked
  · exact Or.inl rfl

theorem mem_of_mem_plain {name : String} {c : Char} (held : c ∈ (plain name).toList) :
    c ∈ name.toList := by
  rcases toList_eq_plain name with same | marked
  · exact same ▸ held
  · exact marked ▸ List.mem_cons_of_mem '@' held

theorem plain_marked (name : String) : plain ("@" ++ name) = name := by
  simp only [plain, String.toList_append]
  exact String.ofList_toList

theorem plain_escapeKeyword {name : String} (h : isBare name = true) :
    plain (escapeKeyword name) = name := by
  by_cases keyword : isKeyword name = true
  · rw [escapeKeyword, if_pos keyword]
    exact plain_marked name
  · rw [escapeKeyword, if_neg keyword]
    exact plain_of_isBare h

/-- The legal form of any text is a bare identifier once its mark is taken away. -/
theorem isBare_plain_legalize (name : String) : isBare (plain (legalize name)) = true := by
  have repaired : ∀ cs, isBare (String.ofList (repair cs)) = true := by
    intro cs
    rw [isBare, String.toList_ofList]
    exact isBareChars_repair cs
  unfold legalize
  split
  · rename_i rest shape
    by_cases bare : isBareChars rest = true
    · have marked : plain name = String.ofList rest := by
        unfold plain
        split
        · rename_i inner again
          rw [shape] at again
          cases again
          rfl
        · rename_i unmarked
          exact (unmarked rest shape).elim
      rw [if_pos bare, marked, isBare, String.toList_ofList]
      exact bare
    · rw [if_neg bare, plain_escapeKeyword (repaired _)]
      exact repaired _
  · by_cases bare : isBareChars name.toList = true
    · rw [if_pos bare, plain_escapeKeyword bare]
      exact bare
    · rw [if_neg bare, plain_escapeKeyword (repaired _)]
      exact repaired _

theorem legalize_of_isBare {name : String} (bare : isBare name = true) :
    legalize name = escapeKeyword name := by
  unfold legalize
  split
  · rename_i rest shape
    rw [isBare, shape, isBareChars_cons] at bare
    exact absurd bare.1 (by decide)
  · exact if_pos bare

theorem mem_digits {c : Char} (h : c.isDigit = true) :
    c ∈ ['0', '1', '2', '3', '4', '5', '6', '7', '8', '9'] := by
  simp only [Char.isDigit, Bool.and_eq_true, decide_eq_true_eq] at h
  obtain ⟨low, high⟩ := h
  have lower : 48 ≤ c.toNat := low
  have upper : c.toNat ≤ 57 := high
  have shape : c = Char.ofNat c.toNat := (Char.ofNat_toNat c).symm
  generalize c.toNat = n at lower upper shape
  subst shape
  interval_cases n <;> decide

theorem isPart_of_isDigit {c : Char} (h : c.isDigit = true) : isPart c = true := by
  have parts : ['0', '1', '2', '3', '4', '5', '6', '7', '8', '9'].all isPart = true := by
    decide
  exact List.all_eq_true.mp parts c (mem_digits h)

theorem not_isDigit_of_isStart {c : Char} (h : isStart c = true) : c.isDigit = false := by
  have starts : ['0', '1', '2', '3', '4', '5', '6', '7', '8', '9'].any isStart = false := by
    decide
  by_contra digit
  rw [Bool.not_eq_false] at digit
  exact List.any_eq_false.mp starts c (mem_digits digit) h

theorem isBare_numbered {name : String} (h : isBare name = true) (k : Nat) :
    isBare (numbered name k) = true := by
  obtain ⟨c, rest, shape⟩ : ∃ c rest, name.toList = c :: rest := by
    cases chars : name.toList with
    | nil => rw [isBare, chars] at h; cases h
    | cons c rest => exact ⟨c, rest, rfl⟩
  have spelled : (numbered name k).toList = c :: (rest ++ '_' :: Nat.toDigits 10 k) := by
    simp [numbered, shape]
  rw [isBare, shape, isBareChars_cons] at h
  rw [isBare, spelled, isBareChars_cons]
  refine ⟨h.1, fun d held => ?_⟩
  rcases List.mem_append.mp held with inside | behind
  · exact h.2 d inside
  · rcases List.mem_cons.mp behind with rfl | digit
    · rfl
    · exact isPart_of_isDigit (Nat.isDigit_of_mem_toDigits (by decide) (by decide) digit)

theorem plain_legalize_numbered {name : String} (h : isBare name = true) (k : Nat) :
    plain (legalize (numbered name k)) = numbered name k := by
  rw [legalize_of_isBare (isBare_numbered h k)]
  exact plain_escapeKeyword (isBare_numbered h k)

namespace Scope

@[simp]
theorem take_taken (scope : Scope) (identifier : String) :
    (scope.take identifier).taken = plain identifier :: scope.taken := rfl

/-- What a scope hands out was free. -/
theorem choose_free (scope : Scope) (name : String) : plain (scope.choose name) ∉ scope.taken := by
  by_cases free : scope.isFree (legalize name) = true
  · rw [choose, if_pos free]
    exact of_decide_eq_true free
  · have bare := isBare_plain_legalize name
    have candidates := leastFree_free (numbered_injective (plain (legalize name))) scope.taken 2
    rw [choose, if_neg free]
    simp only [isFree, plain_legalize_numbered bare]
    exact candidates

theorem plain_choose {name : String} (bare : isBare name = true) (scope : Scope) :
    plain (scope.choose name) = name ∨ ∃ k, plain (scope.choose name) = numbered name k := by
  have same : plain (legalize name) = name := by
    rw [legalize_of_isBare bare, plain_escapeKeyword bare]
  by_cases free : scope.isFree (legalize name) = true
  · rw [choose, if_pos free]
    exact Or.inl same
  · rw [choose, if_neg free]
    simp only [same]
    exact Or.inr ⟨_, plain_legalize_numbered bare _⟩

theorem mem_claimAll {scope : Scope} {names : List String} {text : String}
    (h : text ∈ (scope.claimAll names).1) :
    ∃ name ∈ names, ∃ before : Scope, text = before.choose name := by
  induction names generalizing scope with
  | nil => cases h
  | cons name rest ih =>
    rcases List.mem_cons.mp h with rfl | later
    · exact ⟨name, List.mem_cons_self, scope, rfl⟩
    · obtain ⟨other, held, before, same⟩ := ih later
      exact ⟨other, List.mem_cons_of_mem name held, before, same⟩

theorem choose_mem_claimAll {names : List String} {name : String} (held : name ∈ names)
    (scope : Scope) : ∃ before : Scope, before.choose name ∈ (scope.claimAll names).1 := by
  induction names generalizing scope with
  | nil => cases held
  | cons first rest ih =>
    rcases List.mem_cons.mp held with rfl | later
    · exact ⟨scope, List.mem_cons_self⟩
    · obtain ⟨before, among⟩ := ih later (scope.claim first).2
      exact ⟨before, List.mem_cons_of_mem _ among⟩

end Scope

end HiddenNames.Identifier
