import HiddenNames.Proofs.Surface.Counts
import HiddenNames.Proofs.Identifier.Fresh
import HiddenNames.Proofs.Types.Spelling

/-!
The fully qualified spelling of a type, part by part. Each text in it is written for one name of the
namespace or of the chain: it is that name, with the verbatim mark or without, or, for a type
parameter whose name is taken, that name with a number.
-/

namespace HiddenNames

structure ExpressionPart where
  text : String
  parameters : List String

namespace ExpressionPart

def full (part : ExpressionPart) : String := part.text ++ parameterList part.parameters

def texts (part : ExpressionPart) : List String := part.text :: part.parameters

end ExpressionPart

namespace Identifier

def Writes (text name : String) : Prop :=
  plain text = plain name ∨ ∃ k, plain text = numbered (plain name) k

namespace Writes

variable {text name : String}

theorem bare (h : Writes text name) (known : isBare (plain name) = true) :
    isBare (plain text) = true := by
  rcases h with same | ⟨k, same⟩
  · rw [same]
    exact known
  · rw [same]
    exact isBare_numbered known k

theorem isWord (h : Writes text name) (known : IsWord (plain name)) : IsWord (plain text) := by
  rcases h with same | ⟨k, same⟩
  · rw [same]
    exact known
  · have spelled : (numbered (plain name) k).toList =
        (plain name).toList ++ '_' :: Nat.toDigits 10 k := by simp [numbered]
    rw [same]
    constructor
    · rw [spelled]
      exact List.append_ne_nil_of_left_ne_nil known.filled _
    · intro c held
      rw [spelled, List.mem_append, List.mem_cons] at held
      rcases held with inside | rfl | digit
      · exact known.spelled c inside
      · rfl
      · have isDigit := Nat.isDigit_of_mem_toDigits (by decide) (by decide) digit
        simp only [Marker.Token.isNamePart, Char.isAlphanum, isDigit, Bool.or_true, Bool.true_or]

theorem mem (h : Writes text name) {c : Char} (held : c ∈ (plain name).toList) :
    c ∈ text.toList := by
  apply mem_of_mem_plain
  rcases h with same | ⟨k, same⟩
  · rw [same]
    exact held
  · rw [same, numbered, String.toList_append, String.toList_append]
    exact List.mem_append_left _ (List.mem_append_left _ held)

end Writes

theorem writes_legalize {name : String} (bare : isBare name = true) :
    Writes (legalize name) name := by
  rw [legalize_of_isBare bare]
  exact Or.inl ((plain_escapeKeyword bare).trans (plain_of_isBare bare).symm)

theorem Scope.writes_choose {name : String} (bare : isBare name = true) (scope : Scope) :
    Writes (scope.choose name) name := by
  rw [Writes, plain_of_isBare bare]
  exact plain_choose bare scope

end Identifier

open Identifier (Writes isBare plain)

theorem mem_parameterList {names : List String} {c : Char} (h : c ∈ (parameterList names).toList) :
    c ∈ "<>, ".toList ∨ ∃ name ∈ names, c ∈ name.toList := by
  unfold parameterList at h
  split at h
  · cases h
  · rw [Text.toList_between, List.mem_append, List.mem_append] at h
    rcases h with opening | inside | closing
    · exact Or.inl (List.mem_append_left ">, ".toList opening)
    · rcases Text.mem_intercalate inside with comma | name
      · exact Or.inl (List.mem_append_right "<>".toList comma)
      · exact Or.inr name
    · exact Or.inl (List.mem_append_right "<".toList (List.mem_append_left ", ".toList closing))

theorem mem_parameterList_of_mem {names : List String} {name : String} (held : name ∈ names)
    {c : Char} (inside : c ∈ name.toList) : c ∈ (parameterList names).toList := by
  have filled : names.isEmpty = false := List.isEmpty_eq_false_iff.mpr (List.ne_nil_of_mem held)
  rw [parameterList, filled]
  rw [if_neg Bool.false_ne_true, Text.toList_between, List.mem_append, List.mem_append]
  exact Or.inr (Or.inl (Text.mem_intercalate_of_mem held inside))

theorem claimParameters_length (scope : Identifier.Scope) (heads : List TypeHead) :
    (claimParameters scope heads).length = heads.length := by
  induction heads generalizing scope with
  | nil => rfl
  | cons head rest ih =>
    simp only [claimParameters, List.length_cons]
    rw [ih]

theorem claimed_of_mem {scope : Identifier.Scope} {heads : List TypeHead} {head : TypeHead}
    {names : List String} (h : (head, names) ∈ heads.zip (claimParameters scope heads)) :
    head ∈ heads ∧ ∃ before : Identifier.Scope, names = (before.claimAll head.parameters).1 := by
  refine ⟨(List.of_mem_zip h).1, ?_⟩
  induction heads generalizing scope with
  | nil => cases h
  | cons first rest ih =>
    simp only [claimParameters, List.zip_cons_cons] at h
    rcases List.mem_cons.mp h with same | later
    · obtain ⟨rfl, rfl⟩ := Prod.mk.inj same
      exact ⟨scope, rfl⟩
    · exact ih later

namespace TypeView

variable {v : TypeView}

theorem parameterized_fst (v : TypeView) : v.parameterized.map Prod.fst = v.chain := by
  rw [parameterized]
  exact List.map_fst_zip (claimParameters_length _ _).ge

def names (v : TypeView) : List String :=
  v.spaceParts ++ v.chain.flatMap fun head => head.name :: head.parameters

/-- The names are identifiers; only those of namespaces may have the verbatim mark. -/
structure HasIdentifiers (v : TypeView) : Prop where
  space : ∀ name ∈ v.spaceParts, isBare (plain name) = true
  chain : ∀ head ∈ v.chain, isBare head.name = true ∧ ∀ name ∈ head.parameters, isBare name = true

theorem HasIdentifiers.inside (h : v.HasIdentifiers) {name : String}
    (held : name ∈ v.chain.flatMap fun head => head.name :: head.parameters) :
    isBare name = true := by
  obtain ⟨head, among, own⟩ := List.mem_flatMap.mp held
  obtain ⟨named, parameters⟩ := h.chain head among
  rcases List.mem_cons.mp own with rfl | parameter
  · exact named
  · exact parameters name parameter

theorem HasIdentifiers.bare (h : v.HasIdentifiers) {name : String} (held : name ∈ v.names) :
    isBare (plain name) = true := by
  rcases List.mem_append.mp held with space | inside
  · exact h.space name space
  · rw [Identifier.plain_of_isBare (h.inside inside)]
    exact h.inside inside

def chainPart (entry : TypeHead × List String) : ExpressionPart :=
  ⟨Identifier.legalize entry.1.name, entry.2⟩

def expressionParts (v : TypeView) : List ExpressionPart :=
  v.spaceParts.map (⟨·, []⟩) ++ v.parameterized.map chainPart

theorem chainParts_ne_nil (v : TypeView) : v.parameterized.map chainPart ≠ [] := by
  intro none
  have length := congrArg List.length (parameterized_fst v)
  rw [List.map_eq_nil_iff.mp none, chain, List.length_append] at length
  cases length

theorem expressionParts_ne_nil (v : TypeView) : v.expressionParts ≠ [] :=
  List.append_ne_nil_of_right_ne_nil _ (chainParts_ne_nil v)

theorem expression_eq (v : TypeView) :
    v.expression = "global::" ++ ".".intercalate (v.expressionParts.map ExpressionPart.full) := by
  have chain : v.expression =
      "global::" ++ qualified v.space? (".".intercalate ((v.parameterized.map chainPart).map
        ExpressionPart.full)) := by
    rw [List.map_map]
    rfl
  have spaceFull :
      (v.spaceParts.map fun name => ExpressionPart.mk name []).map ExpressionPart.full =
      v.spaceParts := by
    rw [List.map_map]
    exact (List.map_congr_left fun name _ => String.append_empty).trans (List.map_id _)
  rw [chain, expressionParts, List.map_append, spaceFull, qualified]
  cases named : namedSpace v.space? with
  | none =>
    rw [spaceParts, named]
    rfl
  | some space =>
    have parts : v.spaceParts = Text.split '.' space := by rw [spaceParts, named]
    have filled : Text.split '.' space ≠ [] := by
      rw [Text.split, Ne, List.map_eq_nil_iff]
      exact Text.splitAt_ne_nil '.' _
    have behind : (v.parameterized.map chainPart).map ExpressionPart.full ≠ [] := by
      rw [Ne, List.map_eq_nil_iff]
      exact chainParts_ne_nil v
    have joined : ".".intercalate (Text.split '.' space) = space := Text.intercalate_split '.' space
    rw [parts, String.intercalate_append_of_ne_nil filled behind, joined]

theorem mem_expression {c : Char} (h : c ∈ v.expression.toList) :
    c ∈ "global::.<>, ".toList ∨ ∃ part ∈ v.expressionParts, ∃ text ∈ part.texts,
      c ∈ text.toList := by
  rw [expression_eq, String.toList_append, List.mem_append] at h
  rcases h with front | inside
  · exact Or.inl (List.mem_append_left ".<>, ".toList front)
  · rcases Text.mem_intercalate inside with dot | ⟨_, among, inside⟩
    · rw [List.mem_singleton.mp dot]
      exact Or.inl (by decide)
    · obtain ⟨part, listed, rfl⟩ := List.mem_map.mp among
      rw [ExpressionPart.full, String.toList_append, List.mem_append] at inside
      rcases inside with named | bracketed
      · exact Or.inr ⟨part, listed, part.text, List.mem_cons_self, named⟩
      · rcases mem_parameterList bracketed with sign | ⟨name, own, inside⟩
        · exact Or.inl (List.mem_append_right "global::.".toList sign)
        · exact Or.inr ⟨part, listed, name, List.mem_cons_of_mem _ own, inside⟩

theorem mem_expression_of_mem {part : ExpressionPart} (held : part ∈ v.expressionParts)
    {text : String}
    (own : text ∈ part.texts) {c : Char} (inside : c ∈ text.toList) : c ∈ v.expression.toList := by
  have full : c ∈ part.full.toList := by
    rw [ExpressionPart.full, String.toList_append, List.mem_append]
    rcases List.mem_cons.mp own with rfl | parameter
    · exact Or.inl inside
    · exact Or.inr (mem_parameterList_of_mem parameter inside)
  rw [expression_eq, String.toList_append]
  exact List.mem_append_right _ (Text.mem_intercalate_of_mem (List.mem_map_of_mem held) full)

theorem texts_written (h : v.HasIdentifiers) {part : ExpressionPart}
    (held : part ∈ v.expressionParts) {text : String} (own : text ∈ part.texts) :
    ∃ name ∈ v.names, Writes text name := by
  rcases List.mem_append.mp held with space | inside
  · obtain ⟨name, among, rfl⟩ := List.mem_map.mp space
    obtain rfl := List.mem_singleton.mp own
    exact ⟨text, List.mem_append_left _ among, Or.inl rfl⟩
  · obtain ⟨⟨head, claimed⟩, among, rfl⟩ := List.mem_map.mp inside
    obtain ⟨around, before, rfl⟩ := claimed_of_mem among
    obtain ⟨bare, parameters⟩ := h.chain head around
    have named : ∀ name ∈ head.name :: head.parameters, name ∈ v.names := fun name listed =>
      List.mem_append_right _ (List.mem_flatMap.mpr ⟨head, around, listed⟩)
    rcases List.mem_cons.mp own with rfl | parameter
    · exact ⟨head.name, named _ List.mem_cons_self, Identifier.writes_legalize bare⟩
    · obtain ⟨name, listed, scope, rfl⟩ := Identifier.Scope.mem_claimAll parameter
      exact ⟨name, named _ (List.mem_cons_of_mem _ listed),
        scope.writes_choose (parameters name listed)⟩

theorem names_written (h : v.HasIdentifiers) {name : String} (held : name ∈ v.names) :
    ∃ part ∈ v.expressionParts, ∃ text ∈ part.texts, Writes text name := by
  rcases List.mem_append.mp held with space | inside
  · exact ⟨⟨name, []⟩, List.mem_append_left _ (List.mem_map.mpr ⟨name, space, rfl⟩), name,
      List.mem_cons_self, Or.inl rfl⟩
  · obtain ⟨head, around, own⟩ := List.mem_flatMap.mp inside
    obtain ⟨bare, parameters⟩ := h.chain head around
    have listed : head ∈ v.parameterized.map Prod.fst := parameterized_fst v ▸ around
    obtain ⟨⟨_, claimed⟩, among, rfl⟩ := List.mem_map.mp listed
    refine ⟨_, List.mem_append_right _ (List.mem_map_of_mem among), ?_⟩
    rcases List.mem_cons.mp own with rfl | parameter
    · exact ⟨_, List.mem_cons_self, Identifier.writes_legalize bare⟩
    · obtain ⟨_, before, rfl⟩ := claimed_of_mem among
      obtain ⟨scope, chosen⟩ := Identifier.Scope.choose_mem_claimAll parameter before
      exact ⟨_, List.mem_cons_of_mem _ chosen, scope.writes_choose (parameters name parameter)⟩

/-- Marks aside, an expression shows names and numbers of parameters as the type has them. -/
theorem expressionParts_path (h : v.HasIdentifiers) :
    v.expressionParts.map (fun part => (plain part.text, part.parameters.length)) =
      v.spaceParts.map (fun name => (plain name, 0)) ++
        v.chain.map fun head => (head.name, head.arity) := by
  have chain : v.chain.map (fun head => (head.name, head.arity)) =
      v.parameterized.map fun entry => (entry.1.name, entry.1.arity) := by
    rw [← parameterized_fst, List.map_map]
    rfl
  rw [expressionParts, List.map_append, List.map_map, List.map_map, chain]
  congr 1
  apply List.map_congr_left
  rintro ⟨head, claimed⟩ among
  obtain ⟨around, before, rfl⟩ := claimed_of_mem among
  have bare := (h.chain head around).1
  have named : plain (Identifier.legalize head.name) = head.name := by
    rw [Identifier.legalize_of_isBare bare, Identifier.plain_escapeKeyword bare]
  exact Prod.ext named (before.claimAll_length _)

end TypeView

end HiddenNames
