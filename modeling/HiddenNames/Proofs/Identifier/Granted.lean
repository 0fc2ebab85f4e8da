import HiddenNames.Proofs.Identifier.Retraction
import Mathlib.Order.Bounds.Basic

/-!
What a scope hands out, claim by claim. A name is handed out in its legal form while that is free.
After that it gets a number, and the search for the number ends without any bound on it, because
numbered names are identifiers already and no two of them are one.
-/

namespace HiddenNames.Identifier

/-- The search for a free number that goes on to the next one as long as it has to. -/
inductive Search (free : Nat → Prop) : Nat → Nat → Prop where
  | found {k : Nat} (here : free k) : Search free k k
  | next {k number : Nat} (occupied : ¬free k) (later : Search free (k + 1) number) :
      Search free k number

theorem Search.isLeast {free : Nat → Prop} {k number : Nat} (h : Search free k number) :
    IsLeast {j | k ≤ j ∧ free j} number := by
  induction h with
  | found here => exact ⟨⟨le_rfl, here⟩, fun _ held => held.1⟩
  | @next k number occupied _ ih =>
    obtain ⟨⟨above, free⟩, least⟩ := ih
    refine ⟨⟨by omega, free⟩, fun j held => least ⟨?_, held.2⟩⟩
    have other : k ≠ j := fun same => occupied (same ▸ held.2)
    have start : k ≤ j := held.1
    omega

/-- Going through a bounded number of numbers is the search when it ends with a free one. -/
theorem search_leastFree {free : Nat → Bool} {fuel k : Nat}
    (h : free (leastFree free fuel k) = true) :
    Search (fun j => free j = true) k (leastFree free fuel k) := by
  induction fuel generalizing k with
  | zero => exact .found h
  | succ fuel ih =>
    rw [leastFree] at h ⊢
    by_cases here : free k = true
    · rw [if_pos here]
      exact .found here
    · rw [if_neg here] at h ⊢
      exact .next here (ih h)

/-- A number behind an identifier makes no keyword of it, so that nothing is left to be made
legal. -/
theorem legalize_numbered {name : String} (bare : isBare name = true) (k : Nat) :
    legalize (numbered name k) = numbered name k := by
  have underscore : '_' ∈ (numbered name k).toList := by simp [numbered]
  exact legalize_of_isLegal
    (isLegal_iff.mpr (Or.inr ⟨isBare_numbered bare k, not_isKeyword_of_underscore underscore⟩))

/-- What is handed out for a name where others are taken: its legal form while that is free, and its
stem with the number that the search from two on ends with when it is not. -/
structure IsGranted (taken : List String) (name identifier : String) : Prop where
  own : stem name ∉ taken → identifier = legalize name
  counted : stem name ∈ taken → ∃ k,
    Search (fun j => stem (numbered (stem name) j) ∉ taken) 2 k ∧
      IsLeast {j | 2 ≤ j ∧ numbered (stem name) j ∉ taken} k ∧ identifier = numbered (stem name) k

theorem IsGranted.congr {taken others : List String} (same : ∀ text, text ∈ taken ↔ text ∈ others)
    {name identifier : String} (h : IsGranted taken name identifier) :
    IsGranted others name identifier := by
  obtain ⟨own, counted⟩ := h
  simp only [same] at own counted
  exact ⟨own, counted⟩

theorem IsGranted.unique {taken : List String} {name first second : String}
    (h : IsGranted taken name first) (h' : IsGranted taken name second) : first = second := by
  by_cases held : stem name ∈ taken
  · obtain ⟨k, -, least, rfl⟩ := h.counted held
    obtain ⟨j, -, least', rfl⟩ := h'.counted held
    rw [least.unique least']
  · rw [h.own held, h'.own held]

/-- A text that one of the names is declared by, marks aside, when they are asked for one after the
other where other texts are taken. -/
inductive IsDeclaredFor : List String → List String → String → Prop where
  | here {taken rest : List String} {name identifier : String}
      (granted : IsGranted taken name identifier) :
      IsDeclaredFor taken (name :: rest) (plain identifier)
  | later {taken rest : List String} {name identifier text : String}
      (granted : IsGranted taken name identifier)
      (behind : IsDeclaredFor (plain identifier :: taken) rest text) :
      IsDeclaredFor taken (name :: rest) text

namespace Scope

theorem isFree_iff {scope : Scope} {identifier : String} :
    scope.isFree identifier = true ↔ plain identifier ∉ scope.taken :=
  decide_eq_true_iff

theorem choose_of_taken {scope : Scope} {name : String} (held : stem name ∈ scope.taken) :
    scope.choose name = legalize (numbered (stem name) (leastFree (fun j =>
      scope.isFree (legalize (numbered (stem name) j))) scope.taken.length 2)) := by
  rw [choose, if_neg (mt isFree_iff.mp (not_not.mpr held))]
  rfl

theorem choose_granted (scope : Scope) (name : String) :
    IsGranted scope.taken name (scope.choose name) := by
  constructor
  · intro free
    rw [choose, if_pos (isFree_iff.mpr free)]
  · intro held
    have bare : isBare (stem name) = true := isBare_plain_legalize name
    have granted := isFree_iff.mpr (scope.choose_free name)
    rw [choose_of_taken held] at granted ⊢
    have search : Search (fun j => scope.isFree (legalize (numbered (stem name) j)) = true) 2 _ :=
      search_leastFree granted
    have least := search.isLeast
    simp only [isFree_iff, plain_legalize_numbered bare] at least
    simp only [isFree_iff] at search
    exact ⟨_, search, least, legalize_numbered bare _⟩

theorem mem_claimAll_iff_isDeclaredFor (scope : Scope) {names : List String} {text : String} :
    text ∈ (scope.claimAll names).1.map plain ↔ IsDeclaredFor scope.taken names text := by
  induction names generalizing scope with
  | nil =>
    constructor
    · exact fun held => absurd held List.not_mem_nil
    · exact fun declared => by cases declared
  | cons name rest ih =>
    have granted := scope.choose_granted name
    rw [claimAll_cons, List.map_cons, List.mem_cons, ih]
    constructor
    · rintro (rfl | behind)
      · exact .here granted
      · exact .later granted behind
    · intro declared
      cases declared with
      | here own => exact Or.inl (by rw [own.unique granted])
      | later own behind => exact Or.inr (own.unique granted ▸ behind)

instance (taken names : List String) (text : String) : Decidable (IsDeclaredFor taken names text) :=
  decidable_of_iff _ (mem_claimAll_iff_isDeclaredFor ⟨taken⟩)

/-- Each of the names is handed out as it would be where the results in front of it are taken
too. -/
theorem claimAll_granted (scope : Scope) {names : List String} {i : Nat} {name identifier : String}
    (asked : names[i]? = some name) (given : (scope.claimAll names).1[i]? = some identifier) :
    IsGranted (scope.taken ++ ((scope.claimAll names).1.take i).map plain) name identifier := by
  induction names generalizing scope i with
  | nil => cases asked
  | cons first rest ih =>
    rw [claimAll_cons] at given ⊢
    cases i with
    | zero =>
      obtain rfl : first = name := Option.some.inj asked
      obtain rfl : scope.choose first = identifier := Option.some.inj given
      rw [List.take_zero, List.map_nil, List.append_nil]
      exact scope.choose_granted first
    | succ i =>
      refine (ih _ asked given).congr fun text => ?_
      rw [List.take_succ_cons, List.map_cons, List.mem_append, List.mem_append, List.mem_cons,
        take_taken, List.mem_cons, or_left_comm, or_assoc]

/-- Whatever is reserved and whatever is claimed, each claim is answered, with names that can be
declared beside each other and beside the reserved ones, and each with the first of its forms that
the reserved names and the answers before it leave free. -/
theorem claims_answered_apart (reserved names : List String) :
    let given := ((ofReserved reserved).claimAll names).1
    given.length = names.length ∧ AreApart (reserved.map plain) given ∧
      ∀ i name identifier, names[i]? = some name → given[i]? = some identifier →
        IsGranted (reserved.map plain ++ (given.take i).map plain) name identifier :=
  ⟨claimAll_length _ names, claimAll_apart _ names, fun _ _ _ asked given =>
    claimAll_granted (ofReserved reserved) asked given⟩

/-- The second claim of a name of which the first number is reserved. -/
theorem second_claim_skips_reserved_number :
    let given := ((ofReserved ["A_2", "@class"]).claimAll ["A", "A", "@class", ""]).1
    given = ["A", "A_3", "class_2", "_"] ∧
      IsGranted (["A_2", "@class"].map plain ++ (given.take 1).map plain) "A" "A_3" := by
  intro given
  have answers : given = ["A", "A_3", "class_2", "_"] := by decide +kernel
  obtain ⟨-, -, granted⟩ := claims_answered_apart ["A_2", "@class"] ["A", "A", "@class", ""]
  exact ⟨answers, granted 1 "A" "A_3" rfl (congrArg (·[1]?) answers)⟩

end Scope

end HiddenNames.Identifier
