import HiddenNames.Proofs.Identifier.Fresh
import HiddenNames.Proofs.Surface.Counts
import HiddenNames.Proofs.Text.Pieces

/-!
The types that a unit declares directly in its namespace: its wrapper and, if it has a placeholder,
the outermost type of that. How many type parameters a level of a placeholder declares is read off
the list that is written behind its name; claimed names hold no comma, so it is the arity of the
type.
-/

namespace HiddenNames

namespace Identifier

theorem comma_not_mem_legalize (name : String) : ',' ∉ (legalize name).toList := by
  have bare := isBare_plain_legalize name
  have inside : ',' ∉ (plain (legalize name)).toList := by
    intro held
    exact absurd (isPart_of_isBareChars bare held) (by decide)
  rcases toList_eq_plain (legalize name) with same | marked
  · rw [same]
    exact inside
  · rw [marked, List.mem_cons, not_or]
    exact ⟨by decide, inside⟩

theorem Scope.comma_not_mem_choose (scope : Scope) (name : String) :
    ',' ∉ (scope.choose name).toList := by
  by_cases free : scope.isFree (legalize name) = true
  · rw [choose, if_pos free]
    exact comma_not_mem_legalize name
  · rw [choose, if_neg free]
    exact comma_not_mem_legalize _

theorem Scope.comma_not_mem_claimAll (scope : Scope) (names : List String) :
    ∀ name ∈ (scope.claimAll names).1, ',' ∉ name.toList := by
  intro identifier held
  obtain ⟨name, _, before, rfl⟩ := mem_claimAll held
  exact before.comma_not_mem_choose name

end Identifier

theorem count_comma_joined {first : String} {more : List String}
    (plain : ∀ name ∈ first :: more, ',' ∉ name.toList) :
    (", ".intercalate (first :: more)).toList.count ',' = more.length := by
  induction more generalizing first with
  | nil =>
    rw [String.intercalate_singleton]
    exact List.count_eq_zero.mpr (plain first List.mem_cons_self)
  | cons second rest ih =>
    have own : first.toList.count ',' = 0 :=
      List.count_eq_zero.mpr (plain first List.mem_cons_self)
    have separator : (", ").toList.count ',' = 1 := by decide
    have others := @ih second fun name held => plain name (List.mem_cons_of_mem first held)
    rw [String.intercalate_cons_of_ne_nil (List.cons_ne_nil _ _), String.toList_append,
      String.toList_append, List.count_append, List.count_append, own, separator, others,
      List.length_cons]
    omega

def StubLevel.parameterCount (level : StubLevel) : Nat :=
  if level.parameters = "" then 0 else level.parameters.toList.count ',' + 1

theorem StubLevel.parameterCount_ofHead (head : TypeHead) {names : List String}
    (plain : ∀ name ∈ names, ',' ∉ name.toList) :
    (StubLevel.ofHead head names).parameterCount = names.length := by
  cases names with
  | nil => rfl
  | cons first more =>
    have written : (StubLevel.ofHead head (first :: more)).parameters =
        "<" ++ ", ".intercalate (first :: more) ++ ">" := rfl
    have nonempty : "<" ++ ", ".intercalate (first :: more) ++ ">" ≠ "" := by
      intro empty
      have none := congrArg String.toList empty
      simp at none
    have joined := count_comma_joined plain
    have opening : ("<").toList.count ',' = 0 := by decide
    have closing : (">").toList.count ',' = 0 := by decide
    rw [parameterCount, written, if_neg nonempty, String.toList_append, String.toList_append,
      List.count_append, List.count_append, joined, opening, closing, List.length_cons]
    omega

/-- A type in a namespace, as far as two declarations of it would be told apart. -/
structure DeclaredType where
  space? : Option String
  name : String
  parameters : Nat
  deriving DecidableEq, Repr

def UnitView.declares (u : UnitView) : List DeclaredType :=
  ⟨namedSpace u.space?, Identifier.plain u.wrapper, 0⟩ ::
    (u.stub.head?.map fun level =>
      ⟨namedSpace u.space?, Identifier.plain level.name, level.parameterCount⟩).toList

namespace TypeView

def outermost (v : TypeView) : TypeHead := v.outer.headD v.head

def placeholder (v : TypeView) : DeclaredType :=
  ⟨namedSpace v.space?, Identifier.plain (Identifier.legalize v.outermost.name), v.outermost.arity⟩

theorem chain_eq_outermost (v : TypeView) : ∃ inner, v.chain = v.outermost :: inner := by
  cases around : v.outer with
  | nil => exact ⟨[], by rw [chain, outermost, around]; rfl⟩
  | cons first more => exact ⟨more ++ [v.head], by rw [chain, outermost, around]; rfl⟩

theorem stubLevels_head (v : TypeView) : ∃ level, v.stubLevels.head? = some level ∧
    level.name = Identifier.legalize v.outermost.name ∧
    level.parameterCount = v.outermost.arity := by
  let scope := Identifier.Scope.ofReserved []
  obtain ⟨inner, chain⟩ := v.chain_eq_outermost
  have count := StubLevel.parameterCount_ofHead v.outermost
    (scope.comma_not_mem_claimAll v.outermost.parameters)
  rw [Identifier.Scope.claimAll_length] at count
  refine ⟨.ofHead v.outermost (scope.claimAll v.outermost.parameters).1, ?_, rfl, count⟩
  rw [stubLevels, parameterized, chain, claimParameters, List.zip_cons_cons, List.map_cons,
    List.head?_cons]

end TypeView

theorem plain_wrapperName (identity : String) :
    Identifier.plain (wrapperName identity) = wrapperName identity := by
  rcases Identifier.toList_eq_plain (wrapperName identity) with same | marked
  · exact String.toList_injective same.symm
  · have begins : (wrapperName identity).toList.head? = some 'N' := by simp [wrapperName]
    rw [marked] at begins
    cases begins

theorem Resolved.unit_place {r : Resolved} {access : Access} {exposure : Exposure}
    {identity? : Option String} {u : UnitView} (h : r.unit access exposure identity? = some u) :
    u.space? = r.view.space? ∧
      u.stub = if r.needsStub exposure then r.view.stubLevels else [] := by
  simp only [unit] at h
  split at h
  · cases h
  · cases h
    exact ⟨rfl, rfl⟩

theorem Resolved.unit_declares {r : Resolved} {access : Access} {exposure : Exposure}
    {identity? : Option String} {u : UnitView} (h : r.unit access exposure identity? = some u) :
    u.declares = ⟨namedSpace r.view.space?, u.wrapper, 0⟩ ::
      if r.needsStub exposure then [r.view.placeholder] else [] := by
  have named := (unit_shows h).wrapper_named
  have wrapper : Identifier.plain u.wrapper = u.wrapper := by
    rw [named]
    exact plain_wrapperName _
  obtain ⟨space, stub⟩ := unit_place h
  rw [UnitView.declares, wrapper, space, stub]
  by_cases hidden : r.needsStub exposure = true
  · obtain ⟨level, first, name, count⟩ := r.view.stubLevels_head
    rw [if_pos hidden, if_pos hidden, first, Option.map_some, Option.toList_some, name, count]
    rfl
  · rw [if_neg hidden, if_neg hidden]
    rfl

end HiddenNames
