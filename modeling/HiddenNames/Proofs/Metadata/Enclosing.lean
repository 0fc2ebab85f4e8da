import HiddenNames.Metadata.Records
import HiddenNames.Proofs.Assoc
import Mathlib.Data.List.Perm.Subperm

/-!
Which row stands in which. Nobody checks the tables: several rows may have one index, and pairs may
name rows that are not there, the row itself, or rows further in. Following the rows around a row
ends in one way or not at all, and where it ends no row comes twice.
-/

namespace HiddenNames

namespace Metadata

/-- The row is the last one of its index. -/
def Counts (rows : List RawType) (raw : RawType) : Prop :=
  IsLast (rows.map fun raw => (raw.index, raw)) raw.index raw

/-- The last pair for the index of a row leads to the other, and both rows count. -/
structure StandsIn (rows : List RawType) (nesting : List (Int × Int)) (raw owner : RawType) :
    Prop where
  inner : Counts rows raw
  outer : Counts rows owner
  pair : IsLast nesting raw.index owner.index

def StandsFree (rows : List RawType) (nesting : List (Int × Int)) (raw : RawType) : Prop :=
  Counts rows raw ∧ ∀ owner, ¬StandsIn rows nesting raw owner

/-- Following the rows around a row ends at one that stands in none. The list has the rows on the
way, outermost first, without the row itself. -/
inductive EndsAt (rows : List RawType) (nesting : List (Int × Int)) :
    RawType → List RawType → RawType → Prop
  | free {raw : RawType} : StandsFree rows nesting raw → EndsAt rows nesting raw [] raw
  | inside {raw owner root : RawType} {outer : List RawType} : StandsIn rows nesting raw owner →
      EndsAt rows nesting owner outer root → EndsAt rows nesting raw (outer ++ [owner]) root

variable {rows : List RawType} {nesting : List (Int × Int)}
  {raw raw' owner owner' root root' : RawType} {outer outer' : List RawType}

theorem Counts.mem (h : Counts rows raw) : raw ∈ rows := by
  obtain ⟨row, held, same⟩ := List.mem_map.mp (IsLast.mem h)
  exact (Prod.mk.inj same).2 ▸ held

theorem Counts.same (h : Counts rows raw) (h' : Counts rows raw') (same : raw.index = raw'.index) :
    raw = raw' :=
  h.unique (same ▸ h')

theorem StandsIn.unique (h : StandsIn rows nesting raw owner)
    (h' : StandsIn rows nesting raw owner') : owner = owner' :=
  h.outer.same h'.outer (h.pair.unique h'.pair)

theorem standsFree_iff : StandsFree rows nesting raw ↔
    Counts rows raw ∧ ∀ owner ∈ rows, ¬StandsIn rows nesting raw owner :=
  and_congr_right fun _ =>
    ⟨fun h owner _ => h owner, fun h owner step => h owner step.outer.mem step⟩

instance : Decidable (Counts rows raw) :=
  inferInstanceAs (Decidable (IsLast (rows.map fun raw => (raw.index, raw)) raw.index raw))

instance : Decidable (StandsIn rows nesting raw owner) :=
  decidable_of_iff
    (Counts rows raw ∧ Counts rows owner ∧ IsLast nesting raw.index owner.index)
    ⟨fun h => ⟨h.1, h.2.1, h.2.2⟩, fun h => ⟨h.inner, h.outer, h.pair⟩⟩

instance : Decidable (StandsFree rows nesting raw) := decidable_of_iff _ standsFree_iff.symm

namespace EndsAt

theorem counts (h : EndsAt rows nesting raw outer root) : Counts rows raw := by
  cases h with
  | free alone => exact alone.1
  | inside step _ => exact step.inner

theorem unique (h : EndsAt rows nesting raw outer root)
    (h' : EndsAt rows nesting raw outer' root') : outer = outer' ∧ root = root' := by
  induction h generalizing outer' with
  | free alone =>
    cases h' with
    | free _ => exact ⟨rfl, rfl⟩
    | inside step _ => exact absurd step (alone.2 _)
  | inside step _ ih =>
    cases h' with
    | free alone => exact absurd step (alone.2 _)
    | inside step' further =>
      obtain rfl := step.unique step'
      obtain ⟨rfl, rfl⟩ := ih further
      exact ⟨rfl, rfl⟩

theorem around (h : EndsAt rows nesting raw outer root) (among : owner ∈ outer) :
    ∃ outer', EndsAt rows nesting owner outer' root ∧ (outer' ++ [owner]) <+: outer := by
  induction h with
  | free _ => cases among
  | @inside raw owner' root outer _ further ih =>
    rcases List.mem_append.mp among with earlier | last
    · obtain ⟨outer', way, part⟩ := ih earlier
      exact ⟨outer', way, part.trans (List.prefix_append _ _)⟩
    · obtain rfl := List.mem_singleton.mp last
      exact ⟨outer, further, List.prefix_refl _⟩

/-- No row is among those around it, as the way from there would be a shorter one. -/
theorem not_mem (h : EndsAt rows nesting raw outer root) : raw ∉ outer := by
  intro among
  obtain ⟨outer', way, part⟩ := h.around among
  obtain ⟨rfl, -⟩ := h.unique way
  have longer := part.length_le
  rw [List.length_append, List.length_singleton] at longer
  exact Nat.not_succ_le_self _ longer

theorem nodup (h : EndsAt rows nesting raw outer root) : (outer ++ [raw]).Nodup := by
  have apart := h.not_mem
  induction h with
  | free _ => exact List.nodup_singleton _
  | inside _ further ih =>
    refine List.nodup_append.mpr ⟨ih further.not_mem, List.nodup_singleton _, ?_⟩
    rintro other among _ last rfl
    exact apart (List.mem_singleton.mp last ▸ among)

end EndsAt

/-! The rows as they are looked up. -/

theorem mem_distinctRows_iff : raw ∈ distinctRows rows ↔ Counts rows raw := by
  rw [distinctRows, List.mem_map, Counts, ← mem_assignAll_iff]
  constructor
  · rintro ⟨⟨index, row⟩, kept, rfl⟩
    obtain ⟨other, -, same⟩ := List.mem_map.mp (mem_of_mem_assignAll kept)
    obtain ⟨rfl, rfl⟩ := Prod.mk.inj same
    exact kept
  · exact fun kept => ⟨_, kept, rfl⟩

theorem mem_orderedRows_iff : raw ∈ orderedRows rows ↔ Counts rows raw := by
  rw [orderedRows, (List.mergeSort_perm _ _).mem_iff, mem_distinctRows_iff]

/-- Records are built just if the arities of all rows that count can be read. -/
theorem buildRecords_eq_ok_iff {records : Records} : buildRecords rows nesting = .ok records ↔
    (∀ raw, Counts rows raw → ∃ parts, splitArity raw.name = .ok parts) ∧
      records = forest rows nesting := by
  have readable : arityError rows = none ↔
      ∀ raw, Counts rows raw → ∃ parts, splitArity raw.name = .ok parts := by
    rw [arityError, List.findSome?_eq_none_iff]
    refine forall_congr' fun raw => imp_congr mem_distinctRows_iff ?_
    cases splitArity raw.name <;> simp
  rw [buildRecords, ← readable]
  cases arityError rows with
  | none => simp [eq_comm]
  | some e => simp

theorem orderedRows_ascending :
    (orderedRows rows).Pairwise fun first second => first.index < second.index := by
  have indexes : (distinctRows rows).map RawType.index =
      (assignAll (rows.map fun raw => (raw.index, raw))).map Prod.fst := by
    rw [distinctRows, List.map_map]
    refine List.map_congr_left fun entry kept => ?_
    obtain ⟨raw, -, rfl⟩ := List.mem_map.mp (mem_of_mem_assignAll kept)
    rfl
  have distinct : ((orderedRows rows).map RawType.index).Nodup := by
    rw [orderedRows, ((List.mergeSort_perm _ _).map _).nodup_iff, indexes]
    exact assignAll_distinct _
  have sorted : (orderedRows rows).Pairwise fun first second => first.index ≤ second.index := by
    refine List.Pairwise.imp (fun le => of_decide_eq_true le) (List.pairwise_mergeSort ?_ ?_ _)
    · intro a b c first second
      exact decide_eq_true (Int.le_trans (of_decide_eq_true first) (of_decide_eq_true second))
    · intro a b
      rw [Bool.or_eq_true, decide_eq_true_eq, decide_eq_true_eq]
      exact Int.le_total ..
  exact sorted.imp₂ (fun _ _ le ne => Int.lt_iff_le_and_ne.mpr ⟨le, ne⟩)
    (List.pairwise_map.mp distinct)

theorem ownerOf_eq_some_iff_standsIn (held : Counts rows raw) {index : Int} :
    ownerOf (orderedRows rows) (enclosingOf nesting) raw = some index ↔
      ∃ owner, StandsIn rows nesting raw owner ∧ owner.index = index := by
  rw [ownerOf, enclosingOf, Option.filter_eq_some_iff, lookup_iff_mem (assignAll_distinct nesting),
    mem_assignAll_iff, List.any_eq_true]
  simp only [mem_orderedRows_iff, decide_eq_true_eq]
  constructor
  · rintro ⟨pair, owner, counted, rfl⟩
    exact ⟨owner, ⟨held, counted, pair⟩, rfl⟩
  · rintro ⟨owner, step, rfl⟩
    exact ⟨step.pair, owner, step.outer, rfl⟩

theorem mem_filter_ownerOf_iff (counted : Counts rows owner) :
    raw ∈ (orderedRows rows).filter (fun r =>
      ownerOf (orderedRows rows) (enclosingOf nesting) r = some owner.index) ↔
      StandsIn rows nesting raw owner := by
  rw [List.mem_filter, mem_orderedRows_iff, decide_eq_true_eq]
  constructor
  · rintro ⟨held, around⟩
    obtain ⟨owner', step, same⟩ := (ownerOf_eq_some_iff_standsIn held).mp around
    exact step.outer.same counted same ▸ step
  · exact fun step => ⟨step.inner, (ownerOf_eq_some_iff_standsIn step.inner).mpr ⟨owner, step, rfl⟩⟩

theorem ownerOf_isNone_iff_standsFree (held : Counts rows raw) :
    (ownerOf (orderedRows rows) (enclosingOf nesting) raw).isNone = true ↔
      StandsFree rows nesting raw := by
  rw [Option.isNone_iff_eq_none, Option.eq_none_iff_forall_ne_some, StandsFree, and_iff_right held]
  constructor
  · exact fun none owner step =>
      none owner.index ((ownerOf_eq_some_iff_standsIn held).mpr ⟨owner, step, rfl⟩)
  · intro alone index found
    obtain ⟨owner, step, -⟩ := (ownerOf_eq_some_iff_standsIn held).mp found
    exact alone owner step

theorem EndsAt.depth_lt (h : EndsAt rows nesting raw outer root) :
    outer.length < (orderedRows rows).length := by
  have listed : outer ++ [raw] ⊆ orderedRows rows := by
    intro other among
    rw [mem_orderedRows_iff]
    rcases List.mem_append.mp among with further | last
    · obtain ⟨_, way, _⟩ := h.around further
      exact way.counts
    · exact List.mem_singleton.mp last ▸ h.counts
  have bound := (h.nodup.subperm listed).length_le
  rwa [List.length_append, List.length_singleton] at bound

end Metadata

end HiddenNames
