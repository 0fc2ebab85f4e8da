import HiddenNames.Proofs.Surface.Declared
import HiddenNames.Proofs.Surface.Legal
import HiddenNames.Proofs.Surface.Spaces

/-!
The chain of a target is spelled three times in a unit with a placeholder: level by level in the
placeholder, as one expression, and as the parameters of the extension block. The names in a written
list of parameters are read off it again, which is possible because claimed names are identifiers.
Main statement: there is one level for each type of the chain, the expression is the levels joined
by dots, and the extension block declares the parameters of all levels, each of them once.
-/

namespace HiddenNames

open Identifier (IsNumbered Scope isLegal plain stem)

def parametersIn (written : String) : List String :=
  if written = "" then []
  else Text.split ',' (String.ofList (written.toList.filter fun c => c ∉ ['<', '>', ' ']))

theorem parametersIn_parameterList {names : List String}
    (legal : ∀ name ∈ names, isLegal name = true) : parametersIn (parameterList names) = names := by
  let keep : Char → Bool := fun c => c ∉ ['<', '>', ' ']
  have comma : ∀ name ∈ names, ',' ∉ name.toList := fun name held =>
    Identifier.not_mem_of_isLegal (legal name held) (by decide) (by decide +kernel)
  have kept : ∀ name ∈ names, ∀ c ∈ name.toList, keep c = true := by
    intro name held c inside
    have absent {d : Char} (mark : d ≠ '@') (part : Identifier.isPart d = false) :
        d ∉ name.toList :=
      Identifier.not_mem_of_isLegal (legal name held) mark part
    rw [decide_eq_true_eq]
    intro sign
    simp only [List.mem_cons, List.not_mem_nil, or_false] at sign
    rcases sign with rfl | rfl | rfl
    · exact absent (by decide) (by decide +kernel) inside
    · exact absent (by decide) (by decide +kernel) inside
    · exact absent (by decide) (by decide +kernel) inside
  by_cases none : names = []
  · subst none
    rfl
  · have written : parameterList names = "<" ++ ", ".intercalate names ++ ">" := by
      rw [parameterList, List.isEmpty_eq_false_iff.mpr none, if_neg Bool.false_ne_true]
    have filled : parameterList names ≠ "" := by
      intro empty
      have none := congrArg String.toList empty
      simp [written] at none
    have inside : (parameterList names).toList.filter keep = (",".intercalate names).toList := by
      rw [written, Text.toList_between, List.filter_append, List.filter_append,
        Text.filter_intercalate kept]
      exact List.append_nil _
    rw [parametersIn, if_neg filled, inside, String.ofList_toList]
    exact Text.split_intercalate ',' none comma

/-- What a scope hands out stands for the names, one for one: it is how a name is declared, or that
with a number. -/
theorem Identifier.Scope.claimAll_stands (scope : Scope) (names : List String) :
    List.Forall₂ (fun text name => plain text = stem name ∨ IsNumbered (plain text))
      (scope.claimAll names).1 names := by
  induction names generalizing scope with
  | nil => exact .nil
  | cons name rest ih => exact .cons (scope.choose_cases name) (ih _)

namespace StubLevel

def parameterNames (level : StubLevel) : List String := parametersIn level.parameters

def spelled (level : StubLevel) : String := level.name ++ level.parameters

structure IsFor (level : StubLevel) (head : TypeHead) : Prop where
  named : level.name = Identifier.legalize head.name
  kind : level.keyword = head.kind.text
  closed : level.isSealed = decide (head.kind = .classKind)
  unmade : level.hasConstructor = decide (head.kind = .classKind)
  written : level.parameters = parameterList level.parameterNames
  parameters : List.Forall₂
    (fun text declared => plain text = stem declared ∨ IsNumbered (plain text))
    level.parameterNames head.parameters

end StubLevel

structure UnitView.SpellsAlike (u : UnitView) (chain : List TypeHead) : Prop where
  levels : List.Forall₂ StubLevel.IsFor u.stub chain
  target : u.target =
    "global::" ++ qualified u.space? (".".intercalate (u.stub.map StubLevel.spelled))
  written : u.parameters = parameterList (u.stub.flatMap StubLevel.parameterNames)
  extension : parametersIn u.parameters = u.stub.flatMap StubLevel.parameterNames
  once : ((parametersIn u.parameters).map plain).Nodup

namespace TypeView

variable {v : TypeView}

theorem parameterNames_ofHead {head : TypeHead} {names : List String}
    (held : (head, names) ∈ v.parameterized) :
    (StubLevel.ofHead head names).parameterNames = names :=
  parametersIn_parameterList (names_isLegal held)

theorem isFor_ofHead {head : TypeHead} {names : List String}
    (held : (head, names) ∈ v.parameterized) : (StubLevel.ofHead head names).IsFor head := by
  have read := parameterNames_ofHead held
  refine ⟨rfl, rfl, rfl, rfl, ?_, ?_⟩
  · rw [read]
    rfl
  · obtain ⟨_, before, rfl⟩ := claimed_of_mem held
    rw [read]
    exact before.claimAll_stands head.parameters

theorem stubLevels_for (v : TypeView) : List.Forall₂ StubLevel.IsFor v.stubLevels v.chain := by
  rw [stubLevels, ← parameterized_fst, List.forall₂_map_left_iff, List.forall₂_map_right_iff,
    List.forall₂_same]
  exact fun _ held => isFor_ofHead held

theorem stubLevels_expression (v : TypeView) : v.expression =
    "global::" ++ qualified v.space? (".".intercalate (v.stubLevels.map StubLevel.spelled)) := by
  rw [stubLevels, List.map_map]
  rfl

theorem stubLevels_parameters (v : TypeView) :
    v.stubLevels.flatMap StubLevel.parameterNames = v.extensionParameters := by
  rw [stubLevels, List.flatMap_map, extensionParameters]
  exact List.flatMap_congr fun _ held => parameterNames_ofHead held

end TypeView

namespace Resolved

variable {r : Resolved} {access : Access} {exposure : Exposure} {identity? : Option String}
  {u : UnitView}

/-- A unit has a placeholder just when the target can only be named through one. -/
theorem stub_ne_nil_iff (h : r.unit access exposure identity? = some u) :
    u.stub ≠ [] ↔ r.needsStub exposure = true := by
  rw [(unit_place h).2]
  by_cases hidden : r.needsStub exposure = true
  · rw [if_pos hidden]
    refine iff_of_true (fun none => ?_) hidden
    obtain ⟨level, first, _⟩ := r.view.stubLevels_head
    rw [none] at first
    cases first
  · rw [if_neg hidden]
    exact iff_of_false (fun some => some rfl) hidden

/-- Whatever the types around a target and their parameters are called, a unit with a placeholder
has one level for each type of the chain, spells its target as the levels joined by dots, and
declares the parameters of all levels at its extension block, in order and without repetitions. -/
theorem placeholder_spells_target (h : r.unit access exposure identity? = some u)
    (placed : u.stub ≠ []) : u.SpellsAlike r.view.chain := by
  have levels : u.stub = r.view.stubLevels :=
    (unit_place h).2.trans (if_pos ((stub_ne_nil_iff h).mp placed))
  obtain ⟨space, _, target, _⟩ := unit_target h
  obtain ⟨_, parameters⟩ := unit_extension h
  have apart := (unit_names_apart h).parameters
  have read : parametersIn u.parameters = r.view.extensionParameters := by
    rw [parameters]
    exact parametersIn_parameterList apart.legal
  constructor
  · rw [levels]
    exact r.view.stubLevels_for
  · rw [target, space, levels]
    exact r.view.stubLevels_expression
  · rw [parameters, levels, r.view.stubLevels_parameters]
  · rw [read, levels, r.view.stubLevels_parameters]
  · rw [read]
    exact apart.distinct

/-- A compiled class three types deep, all of them private. The types and their parameters are
called like each other and like keywords. -/
def buriedGeneric : Resolved :=
  let secret (name : String) (kind : TypeKind) (parameters : List String) : TypeHead :=
    { name, kind, visibility := .priv, parameters }
  { tier := .metadata
    view :=
      { tier := .metadata
        space? := some "N"
        outer := [secret "class" .structKind ["T", "T_2"], secret "I" .interfaceKind ["T", "int"]]
        tree := .node
          { secret "Leaf" .classKind ["T"] with
            members := [{ name := "x", kind := .field, visibility := .priv }] } [] } }

theorem buriedGeneric_spelled : ∃ u, buriedGeneric.unit .pub .chain none = some u ∧ u.stub ≠ [] ∧
    u.SpellsAlike buriedGeneric.view.chain ∧
      u.target = "global::N.@class<T, T_2>.I<T_3, @int>.Leaf<T_4>" := by
  have shown : "x" ∈ buriedGeneric.view.hiddenNames := by
    rw [mem_hiddenNames]
    decide +kernel
  cases built : buriedGeneric.unit .pub .chain none with
  | none =>
    rw [((unit_eq_none_iff _ _ _ _).mp built).1] at shown
    cases shown
  | some u =>
    have placed : u.stub ≠ [] := (stub_ne_nil_iff built).mpr (by decide +kernel)
    have target : u.target = buriedGeneric.view.expression := (unit_target built).2.2.1
    refine ⟨u, rfl, placed, placeholder_spells_target built placed, ?_⟩
    rw [target]
    decide +kernel

end Resolved

end HiddenNames
