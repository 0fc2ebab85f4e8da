import HiddenNames.Proofs.CSharp.Words
import HiddenNames.Proofs.Identifier.Fresh
import HiddenNames.Proofs.Text.Pieces
import HiddenNames.Source.Program

/-!
Full names of types that are named by words. The signs between the parts of a full name are in none
of its words, so the parts are read back from it: a full name belongs to one chain of types in one
namespace. Only a namespace of no name is taken for no namespace.
-/

namespace HiddenNames

open CSharp (IsWordName)

theorem CSharp.IsWordName.not_mem {name : String} (h : IsWordName name) {c : Char}
    (sign : Token.isWordPart c = false) : c ∉ name.toList := by
  intro held
  rw [h c held] at sign
  cases sign

theorem mem_withArity {name : String} {arity : Nat} {c : Char}
    (h : c ∈ (withArity name arity).toList) :
    c ∈ name.toList ∨ c = arityMark ∨ c.isDigit = true := by
  rw [withArity] at h
  by_cases plain : arity = 0
  · rw [if_pos plain] at h
    exact Or.inl h
  · rw [if_neg plain, Text.toList_between, List.mem_append, List.mem_append] at h
    rcases h with inside | mark | digit
    · exact Or.inl inside
    · exact Or.inr (Or.inl (by simpa using mark))
    · rw [Nat.toString_eq_ofList_toDigits, String.toList_ofList] at digit
      exact Or.inr (Or.inr (Nat.isDigit_of_mem_toDigits (by decide) (by decide) digit))

/-- A name with its arity has neither the sign between types nor the one after a namespace. -/
theorem withArity_clean {name : String} (word : IsWordName name) (arity : Nat) {sign : Char}
    (between : sign = '+' ∨ sign = '.') : sign ∉ (withArity name arity).toList := by
  intro held
  rcases mem_withArity held with inside | rfl | digit
  · refine word.not_mem ?_ inside
    rcases between with rfl | rfl <;> decide
  · revert between
    decide
  · revert digit
    rcases between with rfl | rfl <;> decide

theorem withArity_injective {name name' : String} {arity arity' : Nat} (word : IsWordName name)
    (word' : IsWordName name') (same : withArity name arity = withArity name' arity') :
    name = name' ∧ arity = arity' := by
  have pieces : ∀ {name : String} (arity : Nat), IsWordName name →
      Text.split arityMark (withArity name arity) =
        name :: if arity = 0 then [] else [toString arity] := by
    intro name arity word
    have plain := Text.split_of_not_mem (word.not_mem (c := arityMark) (by decide))
    have number : arityMark ∉ (toString arity).toList := by
      rw [Nat.toString_eq_ofList_toDigits, String.toList_ofList]
      intro held
      have digit := Nat.isDigit_of_mem_toDigits (by decide) (by decide) held
      revert digit
      decide
    rw [withArity]
    by_cases none : arity = 0
    · rw [if_pos none, if_pos none, plain]
    · rw [if_neg none, if_neg none]
      exact (Text.split_append arityMark name _).trans
        (by rw [plain, Text.split_of_not_mem number, List.singleton_append])
  have split := congrArg (Text.split arityMark) same
  rw [pieces arity word, pieces arity' word'] at split
  obtain ⟨names, numbers⟩ := List.cons.inj split
  refine ⟨names, ?_⟩
  by_cases none : arity = 0 <;> by_cases none' : arity' = 0
  · rw [none, none']
  · rw [if_pos none, if_neg none'] at numbers
    cases numbers
  · rw [if_neg none, if_pos none'] at numbers
    cases numbers
  · rw [if_neg none, if_neg none'] at numbers
    apply Identifier.numbered_injective name
    rw [Identifier.numbered, Identifier.numbered, List.singleton_inj.mp numbers]

namespace SourceType

variable {space? space'? : Option String} {chain chain' : List (String × Nat)}

def AreWords (chain : List (String × Nat)) : Prop := ∀ entry ∈ chain, IsWordName entry.1

def chainText (chain : List (String × Nat)) : String :=
  "+".intercalate (chain.map fun (name, arity) => withArity name arity)

theorem chainText_injective (words : AreWords chain) (words' : AreWords chain')
    (filled : chain ≠ [])
    (filled' : chain' ≠ []) (same : chainText chain = chainText chain') : chain = chain' := by
  have pieces : ∀ {chain : List (String × Nat)}, AreWords chain → chain ≠ [] →
      Text.split '+' (chainText chain) = chain.map fun (name, arity) => withArity name arity := by
    intro chain words filled
    refine Text.split_intercalate '+' (fun none => filled (List.map_eq_nil_iff.mp none)) ?_
    intro piece held
    obtain ⟨entry, among, rfl⟩ := List.mem_map.mp held
    exact withArity_clean (words entry among) entry.2 (Or.inl rfl)
  have split := congrArg (Text.split '+') same
  rw [pieces words filled, pieces words' filled'] at split
  clear same filled filled'
  induction chain generalizing chain' with
  | nil => exact (List.map_eq_nil_iff.mp split.symm).symm
  | cons entry rest ih =>
    cases chain' with
    | nil => cases split
    | cons entry' rest' =>
      obtain ⟨first, others⟩ := List.cons.inj split
      obtain ⟨word, rest⟩ := List.forall_mem_cons.mp words
      obtain ⟨word', rest'⟩ := List.forall_mem_cons.mp words'
      rw [ih rest rest' others, Prod.ext_iff.mpr (withArity_injective word word' first)]

theorem chainText_clean (words : AreWords chain) : '.' ∉ (chainText chain).toList := by
  intro held
  rcases Text.mem_intercalate held with between | ⟨piece, among, inside⟩
  · revert between
    decide
  · obtain ⟨entry, known, rfl⟩ := List.mem_map.mp among
    exact withArity_clean (words entry known) entry.2 (Or.inr rfl) inside

/-- The namespace and the chain are what stands before the last point of a full name and after
it. -/
theorem split_chainName (words : AreWords chain) :
    Text.split '.' (chainName space? chain) =
      ((namedSpace space?).map (Text.split '.')).getD [] ++ [chainText chain] := by
  have last := Text.split_of_not_mem (chainText_clean words)
  rw [chainName, qualified]
  cases namedSpace space? with
  | none => exact last
  | some space => exact (Text.split_append '.' space _).trans (congrArg _ last)

theorem chainName_injective (words : AreWords chain) (words' : AreWords chain')
    (filled : chain ≠ [])
    (filled' : chain' ≠ []) (same : chainName space? chain = chainName space'? chain') :
    namedSpace space? = namedSpace space'? ∧ chain = chain' := by
  have split := congrArg (Text.split '.') same
  rw [split_chainName words, split_chainName words'] at split
  obtain ⟨spaces, chains⟩ := List.append_inj' split rfl
  refine ⟨?_, chainText_injective words words' filled filled' (List.singleton_inj.mp chains)⟩
  cases one : namedSpace space? with
  | none =>
    cases other : namedSpace space'? with
    | none => rfl
    | some space' =>
      rw [one, other] at spaces
      exact absurd spaces.symm (Text.split_ne_nil '.' space')
  | some space =>
    cases other : namedSpace space'? with
    | none =>
      rw [one, other] at spaces
      exact absurd spaces (Text.split_ne_nil '.' space)
    | some space' =>
      rw [one, other] at spaces
      have joined := congrArg (fun pieces => (String.singleton '.').intercalate pieces) spaces
      rw [Option.map_some, Option.map_some, Option.getD_some, Option.getD_some] at joined
      rw [Text.intercalate_split, Text.intercalate_split] at joined
      rw [joined]

end SourceType

end HiddenNames
