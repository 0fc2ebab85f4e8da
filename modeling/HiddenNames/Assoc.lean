/-!
Association lists in which every key keeps the place where it was first set.
-/

namespace HiddenNames

/-- Sets the value of a key. A key that is there already keeps its place. -/
def assign {α β : Type} [DecidableEq α] (entries : List (α × β)) (key : α) (value : β) :
    List (α × β) :=
  match entries with
  | [] => [(key, value)]
  | entry :: rest =>
    if entry.1 = key then (key, value) :: rest else entry :: assign rest key value

/-- The association list of a list of settings, of which the last one for a key counts. -/
def assignAll {α β : Type} [DecidableEq α] (settings : List (α × β)) : List (α × β) :=
  settings.foldl (fun entries entry => assign entries entry.1 entry.2) []

section assign

variable {α β : Type} [DecidableEq α] {entries : List (α × β)} {key : α}

theorem assign_of_absent (absent : key ∉ entries.map Prod.fst) (value : β) :
    assign entries key value = entries ++ [(key, value)] := by
  induction entries with
  | nil => rfl
  | cons entry rest ih =>
    rw [List.map_cons, List.mem_cons, not_or] at absent
    rw [assign, if_neg fun same => absent.1 same.symm, ih absent.2, List.cons_append]

theorem assign_middle {before after : List (α × β)} (absent : key ∉ before.map Prod.fst)
    (old value : β) :
    assign (before ++ (key, old) :: after) key value = before ++ (key, value) :: after := by
  induction before with
  | nil => rw [List.nil_append, assign, if_pos rfl, List.nil_append]
  | cons entry rest ih =>
    rw [List.map_cons, List.mem_cons, not_or] at absent
    rw [List.cons_append, assign, if_neg (Ne.symm absent.1), ih absent.2, List.cons_append]

theorem keys_assign_of_mem (there : key ∈ entries.map Prod.fst) (value : β) :
    (assign entries key value).map Prod.fst = entries.map Prod.fst := by
  induction entries with
  | nil => cases there
  | cons entry rest ih =>
    by_cases here : entry.1 = key
    · simp [assign, here]
    · have later : key ∈ rest.map Prod.fst := by simpa [Ne.symm here] using there
      simp [assign, here, ih later]

theorem assign_distinct (distinct : (entries.map Prod.fst).Nodup) (key : α) (value : β) :
    ((assign entries key value).map Prod.fst).Nodup := by
  by_cases there : key ∈ entries.map Prod.fst
  · rwa [keys_assign_of_mem there]
  · rw [assign_of_absent there, List.map_append, List.nodup_append]
    refine ⟨distinct, List.pairwise_singleton _ _, fun other held last among same => ?_⟩
    rw [List.map_singleton, List.mem_singleton] at among
    rw [same, among] at held
    exact there held

theorem mem_of_mem_assign {value : β} {entry : α × β} (h : entry ∈ assign entries key value) :
    entry ∈ entries ∨ entry = (key, value) := by
  induction entries with
  | nil => exact Or.inr (List.mem_singleton.mp h)
  | cons first rest ih =>
    rw [assign] at h
    split at h
    · rcases List.mem_cons.mp h with set | later
      · exact Or.inr set
      · exact Or.inl (List.mem_cons_of_mem _ later)
    · rcases List.mem_cons.mp h with rfl | later
      · exact Or.inl List.mem_cons_self
      · exact (ih later).imp_left (List.mem_cons_of_mem _)

theorem lookup_cons_ite [BEq α] [LawfulBEq α] (entry : α × β) (rest : List (α × β)) (other : α) :
    (entry :: rest).lookup other = if other = entry.1 then some entry.2 else rest.lookup other := by
  by_cases here : other = entry.1
  · rw [if_pos here, here, List.lookup_cons_self]
  · rw [if_neg here, List.lookup_cons, beq_eq_false_iff_ne.mpr here]

@[simp] theorem lookup_assign [BEq α] [LawfulBEq α] (entries : List (α × β)) (key other : α)
    (value : β) :
    (assign entries key value).lookup other =
      if other = key then some value else entries.lookup other := by
  induction entries with
  | nil => rw [assign, lookup_cons_ite]
  | cons entry rest ih =>
    by_cases here : entry.1 = key
    · by_cases same : other = key <;> simp [assign, here, lookup_cons_ite, same]
    · by_cases same : other = key
      · subst same
        simp [assign, here, lookup_cons_ite, ih, Ne.symm here]
      · simp [assign, here, lookup_cons_ite, ih, same]

end assign

section lookup

variable {α β : Type} [BEq α] [LawfulBEq α] {entries : List (α × β)} {key : α} {value : β}

theorem mem_of_lookup (h : entries.lookup key = some value) : (key, value) ∈ entries := by
  obtain ⟨before, after, rfl, _⟩ := List.lookup_eq_some_iff.mp h
  exact List.mem_append_right _ List.mem_cons_self

theorem lookup_iff_mem (distinct : (entries.map Prod.fst).Nodup) :
    entries.lookup key = some value ↔ (key, value) ∈ entries := by
  induction entries with
  | nil => simp
  | cons entry rest ih =>
    rw [List.map_cons, List.nodup_cons] at distinct
    rw [List.lookup_cons, List.mem_cons, ← ih distinct.2]
    cases same : key == entry.1 with
    | false =>
      have other : (key, value) ≠ entry := fun eq => beq_eq_false_iff_ne.mp same (eq ▸ rfl)
      exact (or_iff_right other).symm
    | true =>
      have here : key = entry.1 := eq_of_beq same
      have absent : rest.lookup key ≠ some value := by
        rw [ne_eq, ih distinct.2, here]
        exact fun held => distinct.1 (List.mem_map.mpr ⟨_, held, rfl⟩)
      rw [or_iff_left absent, here, Option.some_inj]
      exact ⟨fun eq => eq ▸ rfl, fun eq => congrArg Prod.snd eq.symm⟩

theorem lookup_eq_of_perm {other : List (α × β)} (perm : other.Perm entries)
    (distinct : (entries.map Prod.fst).Nodup) (key : α) :
    other.lookup key = entries.lookup key := by
  refine Option.ext fun value => ?_
  rw [lookup_iff_mem ((perm.map Prod.fst).nodup_iff.mpr distinct), lookup_iff_mem distinct,
    perm.mem_iff]

end lookup

end HiddenNames
