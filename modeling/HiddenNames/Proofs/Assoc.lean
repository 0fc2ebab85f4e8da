import HiddenNames.Assoc
import Mathlib.Data.List.Induction
import Mathlib.Data.List.Nodup

/-!
What association lists answer. A key has the value that was set last, and settings of which no two
disagree are all kept. Where entries are kept under keys of their own, looking up a key is searching
for the entry of that key.
-/

namespace HiddenNames

theorem find?_key_some {α κ : Type} [DecidableEq κ] {key : α → κ} {xs : List α} {name : κ} {x : α}
    (found : xs.find? (fun y => key y = name) = some x) : x ∈ xs ∧ key x = name :=
  ⟨List.mem_of_find?_eq_some found, by simpa using List.find?_some found⟩

theorem find?_key_none_iff {α κ : Type} [DecidableEq κ] {key : α → κ} {xs : List α} {name : κ} :
    xs.find? (fun y => key y = name) = none ↔ name ∉ xs.map key := by
  simp only [List.find?_eq_none, List.mem_map, not_exists, not_and, decide_eq_true_eq]

theorem find?_key_iff {α κ : Type} [DecidableEq κ] {key : α → κ} {xs : List α}
    (distinct : (xs.map key).Nodup) {name : κ} {x : α} :
    xs.find? (fun y => key y = name) = some x ↔ x ∈ xs ∧ key x = name := by
  refine ⟨find?_key_some, ?_⟩
  rintro ⟨held, rfl⟩
  cases found : xs.find? (fun y => key y = key x) with
  | none => exact absurd (List.mem_map_of_mem held) (find?_key_none_iff.mp found)
  | some y =>
    obtain ⟨among, same⟩ := find?_key_some found
    rw [List.inj_on_of_nodup_map distinct among held same]

theorem find?_eq_of_perm {α κ : Type} [DecidableEq κ] {key : α → κ} {xs ys : List α}
    (perm : xs.Perm ys) (distinct : (xs.map key).Nodup) (name : κ) :
    xs.find? (fun x => key x = name) = ys.find? fun x => key x = name := by
  refine Option.ext fun x => ?_
  rw [find?_key_iff distinct,
    find?_key_iff ((perm.map key).nodup_iff.mp distinct), perm.mem_iff]

/-- Entries that are kept under a key of their own are looked up by searching for the key. -/
theorem lookup_map_eq {α β κ : Type} [DecidableEq κ] (key : α → κ) (value : α → β) (xs : List α)
    (name : κ) :
    (xs.map fun x => (key x, value x)).lookup name =
    (xs.find? fun x => key x = name).map value := by
  induction xs with
  | nil => rfl
  | cons x rest ih =>
    rw [List.map_cons, List.lookup_cons, List.find?_cons, ih]
    by_cases here : key x = name
    · rw [beq_iff_eq.mpr here.symm, decide_eq_true here]
      rfl
    · rw [beq_eq_false_iff_ne.mpr (Ne.symm here), decide_eq_false here]

theorem assignAll_of_distinct {α β : Type} [DecidableEq α] {entries : List (α × β)}
    (distinct : (entries.map Prod.fst).Nodup) : assignAll entries = entries := by
  have settles : ∀ (before after : List (α × β)), ((before ++ after).map Prod.fst).Nodup →
      after.foldl (fun entries entry => assign entries entry.1 entry.2) before =
        before ++ after := by
    intro before after
    induction after generalizing before with
    | nil => exact fun _ => (List.append_nil before).symm
    | cons entry rest ih =>
      intro keys
      have shifted : before ++ entry :: rest = before ++ [entry] ++ rest := by
        rw [List.append_assoc, List.singleton_append]
      have absent : entry.1 ∉ before.map Prod.fst := by
        rw [List.map_append, List.nodup_append] at keys
        exact fun held => keys.2.2 _ held _ (List.mem_cons_self ..) rfl
      rw [List.foldl_cons, assign_of_absent absent, shifted]
      exact ih _ (shifted ▸ keys)
  exact settles [] entries distinct

theorem mem_of_mem_assignAll {α β : Type} [DecidableEq α] {settings : List (α × β)} {entry : α × β}
    (h : entry ∈ assignAll settings) : entry ∈ settings := by
  induction settings using List.reverseRecOn with
  | nil => exact h
  | append_singleton before last ih =>
    rw [assignAll, List.foldl_append] at h
    rcases mem_of_mem_assign h with kept | rfl
    · exact List.mem_append_left _ (ih kept)
    · exact List.mem_append_right _ (List.mem_singleton_self last)

theorem assignAll_concat {α β : Type} [DecidableEq α] (before : List (α × β)) (last : α × β) :
    assignAll (before ++ [last]) = assign (assignAll before) last.1 last.2 := by
  rw [assignAll, List.foldl_append]
  rfl

theorem lookup_assignAll {α β : Type} [DecidableEq α] [BEq α] [LawfulBEq α]
    {settings : List (α × β)} {key : α} {value : β}
    (agree : ∀ {key : α} {first second : β}, (key, first) ∈ settings → (key, second) ∈ settings →
      first = second) :
    (assignAll settings).lookup key = some value ↔ (key, value) ∈ settings := by
  induction settings using List.reverseRecOn with
  | nil => simp [assignAll]
  | append_singleton before last ih =>
    have kept : ∀ {key : α} {first second : β}, (key, first) ∈ before → (key, second) ∈ before →
        first = second :=
      fun held among => agree (List.mem_append_left _ held) (List.mem_append_left _ among)
    have here : last ∈ before ++ [last] := List.mem_append_right _ (List.mem_singleton_self last)
    rw [assignAll_concat, lookup_assign]
    by_cases same : key = last.1
    · rw [if_pos same, Option.some_inj, same]
      constructor
      · rintro rfl
        exact here
      · exact fun held => agree here held
    · have other : (key, value) ≠ last := fun equal => same (congrArg Prod.fst equal)
      rw [if_neg same, ih kept, List.mem_append, List.mem_singleton, or_iff_left other]

theorem lookup_assignAll_reverse {α β : Type} [DecidableEq α] [BEq α] [LawfulBEq α]
    (settings : List (α × β)) (key : α) :
    (assignAll settings).lookup key = settings.reverse.lookup key := by
  induction settings using List.reverseRecOn with
  | nil => rfl
  | append_singleton before last ih =>
    rw [assignAll_concat, lookup_assign, ih, List.reverse_append, List.reverse_singleton,
      List.singleton_append, List.lookup_cons]
    by_cases same : key = last.1
    · rw [if_pos same, beq_iff_eq.mpr same]
    · rw [if_neg same, beq_eq_false_iff_ne.mpr same]

theorem assignAll_distinct {α β : Type} [DecidableEq α] (settings : List (α × β)) :
    ((assignAll settings).map Prod.fst).Nodup := by
  induction settings using List.reverseRecOn with
  | nil => exact List.nodup_nil
  | append_singleton before last ih =>
    rw [assignAll_concat]
    exact assign_distinct ih _ _

/-! The settings that count. -/

def IsLast {α β : Type} (settings : List (α × β)) (key : α) (value : β) : Prop :=
  ∃ before after, settings = before ++ (key, value) :: after ∧ ∀ later ∈ after, later.1 ≠ key

/-- Kept are the last settings of all keys. -/
theorem mem_assignAll_iff {α β : Type} [DecidableEq α] {settings : List (α × β)} {key : α}
    {value : β} : (key, value) ∈ assignAll settings ↔ IsLast settings key value := by
  rw [← lookup_iff_mem (assignAll_distinct settings), lookup_assignAll_reverse,
    List.lookup_eq_some_iff]
  constructor
  · rintro ⟨later, earlier, shape, others⟩
    refine ⟨earlier.reverse, later.reverse, ?_, fun entry held => ?_⟩
    · rw [← List.reverse_inj, shape, List.reverse_append, List.reverse_cons, List.reverse_reverse,
        List.reverse_reverse, List.append_assoc, List.singleton_append]
    · exact fun same => bne_iff_ne.mp (others entry (List.mem_reverse.mp held)) same.symm
  · rintro ⟨before, after, rfl, others⟩
    refine ⟨after.reverse, before.reverse, ?_, fun entry held => ?_⟩
    · rw [List.reverse_append, List.reverse_cons, List.append_assoc, List.singleton_append]
    · exact bne_iff_ne.mpr fun same => others entry (List.mem_reverse.mp held) same.symm

theorem IsLast.mem {α β : Type} {settings : List (α × β)} {key : α} {value : β}
    (h : IsLast settings key value) : (key, value) ∈ settings := by
  obtain ⟨before, after, rfl, -⟩ := h
  exact List.mem_append_right _ List.mem_cons_self

instance {α β : Type} [DecidableEq α] [DecidableEq β] (settings : List (α × β)) (key : α)
    (value : β) : Decidable (IsLast settings key value) :=
  decidable_of_iff _ mem_assignAll_iff

theorem IsLast.unique {α β : Type} [DecidableEq α] {settings : List (α × β)} {key : α}
    {first second : β} (h : IsLast settings key first) (h' : IsLast settings key second) :
    first = second := by
  have found := (lookup_iff_mem (assignAll_distinct settings)).mpr (mem_assignAll_iff.mpr h)
  have found' := (lookup_iff_mem (assignAll_distinct settings)).mpr (mem_assignAll_iff.mpr h')
  exact Option.some.inj (found.symm.trans found')

/-- Of settings in a strict order the last one of a key is the one that no other of the key
follows. -/
theorem isLast_map_iff {α β γ : Type} {follows : γ → γ → Prop} {items : List γ}
    (ordered : items.Pairwise follows) (strict : ∀ {a b}, follows a b → ¬follows b a)
    (f : γ → α × β) {key : α} {value : β} :
    IsLast (items.map f) key value ↔
      ∃ item ∈ items, f item = (key, value) ∧ ∀ later ∈ items, follows item later →
        (f later).1 ≠ key := by
  constructor
  · rintro ⟨before, after, shape, others⟩
    obtain ⟨earlier, rest, rfl, rfl, behind⟩ := List.map_eq_append_iff.mp shape
    obtain ⟨item, later, rfl, set, rfl⟩ := List.map_eq_cons_iff.mp behind
    obtain ⟨-, -, apart⟩ := List.pairwise_append.mp ordered
    refine ⟨item, List.mem_append_right _ List.mem_cons_self, set, fun other held step => ?_⟩
    rcases List.mem_append.mp held with first | behind
    · exact absurd step (strict (apart other first item List.mem_cons_self))
    · rcases List.mem_cons.mp behind with rfl | last
      · exact absurd step (strict step)
      · exact others _ (List.mem_map_of_mem last)
  · rintro ⟨item, held, set, others⟩
    obtain ⟨earlier, later, rfl⟩ := List.append_of_mem held
    refine ⟨earlier.map f, later.map f, ?_, fun entry among => ?_⟩
    · rw [List.map_append, List.map_cons, set]
    · obtain ⟨other, last, rfl⟩ := List.mem_map.mp among
      have step := List.rel_of_pairwise_cons (List.pairwise_append.mp ordered).2.1 last
      exact others other (List.mem_append_right _ (List.mem_cons_of_mem _ last)) step

theorem assign_map {α β γ : Type} [DecidableEq α] (f : β → γ) (entries : List (α × β)) (key : α)
    (value : β) :
    assign (entries.map (Prod.map id f)) key (f value) =
      (assign entries key value).map (Prod.map id f) := by
  induction entries with
  | nil => rfl
  | cons entry rest ih =>
    rw [List.map_cons, assign, assign, Prod.map_fst, id_eq]
    split
    · rfl
    · rw [ih, List.map_cons]

theorem assignAll_map {α β γ : Type} [DecidableEq α] (f : β → γ) (settings : List (α × β)) :
    assignAll (settings.map (Prod.map id f)) = (assignAll settings).map (Prod.map id f) := by
  induction settings using List.reverseRecOn with
  | nil => rfl
  | append_singleton before last ih =>
    rw [List.map_append, List.map_singleton, assignAll_concat, assignAll_concat, ih, ← assign_map]
    rfl

end HiddenNames
