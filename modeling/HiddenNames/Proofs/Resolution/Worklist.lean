import HiddenNames.Proofs.Metadata.Listed
import Mathlib.Logic.Function.Iterate

/-!
The types of a file as a worklist finds them. The list of all types is written as a recursion over
trees; taking pending types from the end, one after the other, goes through the same list and comes
to its end after as many steps as there are types.
-/

namespace HiddenNames

/-- The types found so far and those that are pending, the next one last. -/
structure Worklist where
  found : List TypeView
  pending : List TypeView

namespace Worklist

/-- Moves the last pending type to those found and puts the types directly inside it in its
place. -/
def next (w : Worklist) : Worklist :=
  match w.pending.getLast? with
  | none => w
  | some v => ⟨w.found ++ [v], w.pending.dropLast ++ v.nested⟩

def start (records : Metadata.Records) : Worklist :=
  ⟨[], records.map fun entry => entry.2.view .metadata⟩

/-- Taking as many steps as there are types in a list replaces certain pending types by the list,
before anything that is pending in front of them is touched. -/
def Clears (pending listed : List TypeView) : Prop :=
  ∀ found others : List TypeView,
    next^[listed.length] ⟨found, others ++ pending⟩ = ⟨found ++ listed, others⟩

variable {v : TypeView} {pending listed others : List TypeView}

theorem clears_nil : Clears [] [] := by
  intro found others
  rw [List.append_nil, List.append_nil, List.length_nil, Function.iterate_zero_apply]

theorem Clears.around (h : Clears v.nested listed) : Clears [v] (v :: listed) := by
  intro found others
  have step : next ⟨found, others ++ [v]⟩ = ⟨found ++ [v], others ++ v.nested⟩ := by
    simp only [next, List.getLast?_concat, List.dropLast_concat]
  rw [List.length_cons, Function.iterate_succ_apply, step, h, List.append_assoc,
    List.singleton_append]

theorem Clears.cons (first : Clears [v] listed) (later : Clears pending others) :
    Clears (v :: pending) (others ++ listed) := by
  intro found before
  rw [List.length_append, Nat.add_comm, Function.iterate_add_apply, List.append_cons, later, first,
    List.append_assoc]

mutual

theorem clears_everyView (v : TypeView) (t : TypeTree) :
    Clears [{ v with tree := t }] (TypeTree.everyView v t) := by
  cases t with
  | node head nested =>
    rw [TypeTree.everyView]
    exact Clears.around (clears_everyNested _ nested)

theorem clears_everyNested (v : TypeView) (ts : List TypeTree) :
    Clears (ts.map fun t => { v with tree := t }) (TypeTree.everyNested v ts) := by
  cases ts with
  | nil => exact clears_nil
  | cons t rest =>
    rw [TypeTree.everyNested, List.map_cons]
    exact (clears_everyView v t).cons (clears_everyNested v rest)

end

theorem clears_typesOf (records : Metadata.Records) :
    Clears (records.map fun entry => entry.2.view .metadata) (References.typesOf records) := by
  induction records with
  | nil => exact clears_nil
  | cons entry rest ih =>
    have listed : References.typesOf (entry :: rest) =
        References.typesOf rest ++ TypeTree.everyView (entry.2.view .metadata) entry.2.tree := by
      simp only [References.typesOf, List.reverse_cons, List.flatMap_append, List.flatMap_singleton]
    rw [List.map_cons, listed]
    exact (clears_everyView (entry.2.view .metadata) entry.2.tree).cons ih

/-- The worklist ends with the list of all types. -/
theorem next_typesOf (records : Metadata.Records) :
    next^[(References.typesOf records).length] (start records) = ⟨References.typesOf records, []⟩ :=
  clears_typesOf records [] []

end Worklist

namespace TypeTree

mutual

/-- Where the names of all types inside can be read, a walk through them does not fail. -/
theorem everyError_eq_none (v : TypeView) (t : TypeTree)
    (readable : ∀ w ∈ everyView v t, w.head.nameError = none) : t.everyError = none := by
  cases t with
  | node head nested =>
    rw [everyView, List.forall_mem_cons] at readable
    have own : (nested.findSome? fun t => t.head.nameError) = none := by
      rw [List.findSome?_eq_none_iff]
      exact fun t among => readable.2 _ ((TypeView.mem_everyNested _ nested).mpr ⟨t, among, .self⟩)
    rw [everyError, own, everyErrorIn_eq_none _ nested readable.2]
    rfl

theorem everyErrorIn_eq_none (v : TypeView) (ts : List TypeTree)
    (readable : ∀ w ∈ everyNested v ts, w.head.nameError = none) : everyErrorIn ts = none := by
  cases ts with
  | nil => rfl
  | cons t rest =>
    rw [everyNested, List.forall_mem_append] at readable
    rw [everyErrorIn, everyErrorIn_eq_none v rest readable.1, everyError_eq_none v t readable.2]
    rfl

end

end TypeTree

/-- The types of a file are listed if the names of all of them can be read. -/
theorem References.typesIn_of_readable {records : Metadata.Records}
    (readable : ∀ v ∈ typesOf records, v.head.nameError = none) :
    typesIn (.ok records) = .ok (typesOf records) := by
  have inside : ∀ entry ∈ records, ∀ v ∈ TypeTree.everyView (entry.2.view .metadata) entry.2.tree,
      v.head.nameError = none := fun entry among v held =>
    readable v (List.mem_flatMap.mpr ⟨entry, List.mem_reverse.mpr among, held⟩)
  have own : (records.findSome? fun entry => entry.2.tree.head.nameError) = none := by
    rw [List.findSome?_eq_none_iff]
    exact fun entry among => inside entry among _ ((TypeView.mem_everyView _ _).mpr .self)
  have further : (records.reverse.findSome? fun entry => entry.2.tree.everyError) = none := by
    rw [List.findSome?_eq_none_iff]
    exact fun entry among =>
      TypeTree.everyError_eq_none _ _ (inside entry (List.mem_reverse.mp among))
  have none : nameError records = none := by
    rw [nameError, own, further]
    rfl
  rw [typesIn, none]

end HiddenNames
