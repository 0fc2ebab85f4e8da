import HiddenNames.Proofs.Metadata.Rows
import HiddenNames.Resolution.References

/-!
The types that a module lists and the type that is found by a full name. The list goes down all
trees of records, the search goes down the names that the full name is cut into. Where the names of
rows can be cut out of full names, and full names tell the listed types apart, the search finds what
is listed.
-/

namespace HiddenNames

namespace TypeView

variable {base v w : TypeView} {names : List String}

inductive Inside (base : TypeView) : TypeView → Prop where
  | self : Inside base base
  | nested {v w : TypeView} : Inside base v → w ∈ v.nested → Inside base w

theorem inside_iff : Inside base w ↔ w = base ∨ ∃ n ∈ base.nested, Inside n w := by
  constructor
  · intro h
    induction h with
    | self => exact Or.inl rfl
    | @nested v w _ among ih =>
      rcases ih with rfl | ⟨n, first, below⟩
      · exact Or.inr ⟨w, among, .self⟩
      · exact Or.inr ⟨n, first, below.nested among⟩
  · rintro (rfl | ⟨n, first, below⟩)
    · exact .self
    · induction below with
      | self => exact Inside.self.nested first
      | nested _ among ih => exact ih.nested among

mutual

theorem mem_everyView (v : TypeView) (t : TypeTree) :
    w ∈ TypeTree.everyView v t ↔ Inside { v with tree := t } w := by
  cases t with
  | node head inner =>
    rw [TypeTree.everyView, List.mem_cons, mem_everyNested, inside_iff]
    refine or_congr_right ?_
    simp only [nested, List.mem_map, exists_exists_and_eq_and]
    rfl

theorem mem_everyNested (v : TypeView) (ts : List TypeTree) :
    w ∈ TypeTree.everyNested v ts ↔ ∃ t ∈ ts, Inside { v with tree := t } w := by
  cases ts with
  | nil => simp [TypeTree.everyNested]
  | cons t rest =>
    rw [TypeTree.everyNested, List.mem_append, mem_everyNested v rest, mem_everyView v t, or_comm,
      List.exists_mem_cons_iff]

end

/-! Full names. -/

theorem qualified_append (space? : Option String) (name more : String) :
    qualified space? (name ++ more) = qualified space? name ++ more := by
  rw [qualified, qualified]
  cases namedSpace space? with
  | none => rfl
  | some space => exact String.append_assoc.symm

theorem child_fullName (v : TypeView) (t : TypeTree) :
    (v.child t).fullName = v.fullName ++ "+" ++ t.head.metadataName := by
  have filled : v.chain.map TypeHead.metadataName ≠ [] := by
    rw [chain, List.map_append]
    exact List.append_ne_nil_of_right_ne_nil _ (List.cons_ne_nil _ _)
  have names : (v.child t).chain.map TypeHead.metadataName =
      v.chain.map TypeHead.metadataName ++ [t.head.metadataName] := List.map_append
  have joined := String.intercalate_append_of_ne_nil (s := "+") filled
    (List.cons_ne_nil t.head.metadataName [])
  rw [fullName, fullNameOf, names, joined, String.intercalate_singleton, qualified_append,
    qualified_append]
  rfl

/-- Going down leads to a type inside, whose full name is spelled by the way. -/
theorem inside_of_descend (h : base.descend names = some w) :
    Inside base w ∧ w.fullName = "+".intercalate (base.fullName :: names) := by
  induction names generalizing base with
  | nil =>
    obtain rfl := Option.some.inj h
    exact ⟨.self, String.intercalate_singleton.symm⟩
  | cons name rest ih =>
    rw [descend] at h
    cases step : base.nested.find? fun n => n.head.metadataName = name with
    | none =>
      rw [step] at h
      cases h
    | some n =>
      rw [step] at h
      obtain ⟨below, spelled⟩ := ih h
      obtain ⟨among, named⟩ := find?_key_some step
      obtain ⟨t, -, rfl⟩ := List.mem_map.mp among
      refine ⟨inside_iff.mpr (.inr ⟨_, among, below⟩), ?_⟩
      rw [spelled, child_fullName, String.intercalate_cons_append, String.intercalate_cons_cons,
        ← named]
      rfl

theorem descentError_of_readable (h : ∀ v, Inside base v → v.head.nameError = none) :
    base.descentError names = none := by
  induction names generalizing base with
  | nil => rfl
  | cons name rest ih =>
    have own : base.nestedError = none := by
      rw [nestedError, List.findSome?_eq_none_iff]
      intro t among
      exact h (base.child t) (Inside.self.nested (List.mem_map_of_mem among))
    rw [descentError, own]
    cases step : base.nested.find? fun n => n.head.metadataName = name with
    | none => rfl
    | some n =>
      have among := List.mem_of_find?_eq_some step
      exact ih fun v below => h v (inside_iff.mpr (.inr ⟨n, among, below⟩))

/-- Where names tell the types inside a type apart and can be cut out of full names, cutting the
full name of a type gives the way down to it. -/
theorem Inside.descent (h : Inside base w)
    (apart : ∀ v, Inside base v → ∀ n ∈ v.nested, ∀ n' ∈ v.nested,
      n.head.metadataName = n'.head.metadataName → n = n')
    (plain : ∀ v, Inside base v → '+' ∉ v.head.metadataName.toList) :
    ∃ names, Text.split '+' w.fullName = Text.split '+' base.fullName ++ names ∧
      base.descend names = some w := by
  induction h with
  | self => exact ⟨[], (List.append_nil _).symm, rfl⟩
  | @nested v w here among ih =>
    obtain ⟨names, cut, found⟩ := ih
    refine ⟨names ++ [w.head.metadataName], ?_, ?_⟩
    · have last := Text.split_of_not_mem (plain w (here.nested among))
      obtain ⟨t, -, rfl⟩ := List.mem_map.mp among
      rw [child_fullName, ← List.append_assoc, ← cut, ← last]
      exact Text.split_append '+' v.fullName t.head.metadataName
    · rw [descend_append found]
      -- The step goes to the first sibling of the name, which is the only one.
      cases step : v.nested.find? fun n => n.head.metadataName = w.head.metadataName with
      | none =>
        exact absurd (decide_eq_true rfl) (List.find?_eq_none.mp step w among)
      | some n =>
        obtain ⟨other, named⟩ := find?_key_some step
        exact congrArg some (apart v here n other w among named)

end TypeView

namespace Metadata

variable {rows : List RawType} {enclosing nesting : List (Int × Int)} {raw : RawType}
  {records : Records} {key : String} {record : TypeRecord}

/-! Records of rows. -/

theorem mem_of_mem_orderedRows (h : raw ∈ orderedRows rows) : raw ∈ rows := by
  rw [orderedRows, (List.mergeSort_perm _ _).mem_iff, distinctRows] at h
  obtain ⟨entry, kept, rfl⟩ := List.mem_map.mp h
  obtain ⟨row, among, rfl⟩ := List.mem_map.mp (mem_of_mem_assignAll kept)
  exact among

@[simp]
theorem recordTree_head (fuel : Nat) :
    (recordOf rows enclosing fuel raw).tree.head = raw.typeHead := by
  cases fuel <;> rfl

theorem recordTree_nested {fuel : Nat} {t : TypeTree}
    (h : t ∈ (recordOf rows enclosing (fuel + 1) raw).tree.nested) :
    ∃ r ∈ rows, t = (recordOf rows enclosing fuel r).tree := by
  rw [TypeRecord.tree_nested] at h
  obtain ⟨inner, among, rfl⟩ := List.mem_map.mp h
  obtain ⟨r, inside, rfl⟩ := List.mem_map.mp among
  exact ⟨r, (List.mem_filter.mp inside).1, rfl⟩

theorem recordTree_inside {base v : TypeView} (h : TypeView.Inside base v) {fuel : Nat}
    (held : raw ∈ rows) (shape : base.tree = (recordOf rows enclosing fuel raw).tree) :
    ∃ fuel', ∃ r ∈ rows, v.tree = (recordOf rows enclosing fuel' r).tree := by
  induction h with
  | self => exact ⟨fuel, raw, held, shape⟩
  | nested _ among ih =>
    obtain ⟨fuel', r, _, above⟩ := ih
    obtain ⟨t, inside, rfl⟩ := List.mem_map.mp among
    rw [above] at inside
    cases fuel' with
    | zero => cases inside
    | succ fuel' => exact ⟨fuel', recordTree_nested inside⟩

theorem recordView_fullName (h : raw.IsSpelled) (fuel : Nat) (tier : Tier) :
    ((recordOf rows enclosing fuel raw).view tier).fullName = raw.key := by
  have space : namedSpace (recordOf rows enclosing fuel raw).head.space? =
      namedSpace (some raw.space) := by
    have head : (recordOf rows enclosing fuel raw).head = raw.head raw.arity := by
      cases fuel <;> rfl
    rw [head, RawType.head, namedSpace, namedSpace, Option.filter_some]
    by_cases empty : raw.space = "" <;> simp [empty]
  rw [TypeView.fullName, TypeView.fullNameOf, TypeView.chain, TypeView.head, TypeRecord.view,
    recordTree_head, List.nil_append, List.map_singleton, String.intercalate_singleton,
    h.metadataName, RawType.key, qualified, qualified, space]

theorem mem_forest (h : (key, record) ∈ forest rows nesting) :
    ∃ raw ∈ orderedRows rows, key = raw.key ∧
      ∃ fuel, record = recordOf (orderedRows rows) (enclosingOf nesting) fuel raw := by
  obtain ⟨raw, among, same⟩ := List.mem_map.mp (mem_of_mem_assignAll h)
  obtain ⟨rfl, rfl⟩ := Prod.mk.inj same
  exact ⟨raw, (List.mem_filter.mp among).1, rfl, _, rfl⟩

theorem head_of_inside (h : (key, record) ∈ forest rows nesting) {tier : Tier} {v : TypeView}
    (inside : TypeView.Inside (record.view tier) v) :
    ∃ r ∈ orderedRows rows, v.head = r.typeHead := by
  obtain ⟨raw, held, rfl, fuel, rfl⟩ := mem_forest h
  obtain ⟨fuel', r, among, shape⟩ := recordTree_inside inside held rfl
  exact ⟨r, among, (congrArg TypeTree.head shape).trans (recordTree_head fuel')⟩

structure IsEntry (key : String) (record : TypeRecord) : Prop where
  named : (record.view .metadata).fullName = key
  whole : '+' ∉ key.toList
  plain : ∀ v, TypeView.Inside (record.view .metadata) v → '+' ∉ v.head.metadataName.toList
  readable : ∀ v, TypeView.Inside (record.view .metadata) v → v.head.nameError = none

theorem isEntry_of_mem (spelled : ∀ r ∈ rows, r.IsSpelled)
    (h : (key, record) ∈ forest rows nesting) : IsEntry key record := by
  have ordered : ∀ r ∈ orderedRows rows, r.IsSpelled :=
    fun r among => spelled r (mem_of_mem_orderedRows among)
  refine ⟨?_, ?_, ?_, ?_⟩
  · obtain ⟨raw, held, rfl, fuel, rfl⟩ := mem_forest h
    exact recordView_fullName (ordered raw held) fuel .metadata
  · obtain ⟨raw, held, rfl, -⟩ := mem_forest h
    exact (ordered raw held).key
  · intro v inside
    obtain ⟨r, among, head⟩ := head_of_inside h inside
    rw [head, (ordered r among).metadataName]
    exact (ordered r among).name
  · intro v inside
    obtain ⟨r, among, head⟩ := head_of_inside h inside
    rw [head]
    exact (ordered r among).nameError

/-! Listing and looking up. -/

/-- The records of a module whose rows have names that can be told apart in full names, and whose
listed types are told apart by full names. -/
structure IsListed (records : Records) : Prop where
  built : ∃ rows nesting, buildRecords rows nesting = .ok records ∧ ∀ raw ∈ rows, raw.IsSpelled
  names : ((References.typesOf records).map TypeView.fullName).Nodup

theorem IsListed.entry (h : IsListed records) (among : (key, record) ∈ records) :
    IsEntry key record := by
  obtain ⟨rows, nesting, built, spelled⟩ := h.built
  rw [buildRecords] at built
  split at built
  · cases built
  · obtain rfl := Except.ok.inj built
    exact isEntry_of_mem spelled among

theorem mem_typesOf {v : TypeView} : v ∈ References.typesOf records ↔
    ∃ key record, (key, record) ∈ records ∧ TypeView.Inside (record.view .metadata) v := by
  simp only [References.typesOf, List.mem_flatMap, List.mem_reverse, TypeView.mem_everyView,
    Prod.exists]
  rfl

theorem IsListed.same (h : IsListed records) {v w : TypeView}
    (held : v ∈ References.typesOf records)
    (among : w ∈ References.typesOf records) (same : v.fullName = w.fullName) : v = w :=
  List.inj_on_of_nodup_map h.names held among same

theorem IsListed.descend (h : IsListed records) {v : TypeView}
    (held : v ∈ References.typesOf records)
    {outer : String} {nested : List String} (cut : Text.split '+' v.fullName = outer :: nested) :
    ∃ record, records.lookup outer = some record ∧
      (record.view .metadata).descend nested = some v := by
  obtain ⟨key, record, among, inside⟩ := mem_typesOf.mp held
  have entry := h.entry among
  have listed : ∀ w, TypeView.Inside (record.view .metadata) w → w ∈ References.typesOf records :=
    fun w below => mem_typesOf.mpr ⟨key, record, among, below⟩
  -- Siblings of one name have one full name.
  have apart : ∀ w, TypeView.Inside (record.view .metadata) w → ∀ n ∈ w.nested, ∀ n' ∈ w.nested,
      n.head.metadataName = n'.head.metadataName → n = n' := by
    intro w below n first n' second named
    refine h.same (listed n (below.nested first)) (listed n' (below.nested second)) ?_
    obtain ⟨t, -, rfl⟩ := List.mem_map.mp first
    obtain ⟨t', -, rfl⟩ := List.mem_map.mp second
    rw [TypeView.child_fullName, TypeView.child_fullName]
    exact congrArg (w.fullName ++ "+" ++ ·) named
  obtain ⟨names, pieces, found⟩ := inside.descent apart entry.plain
  rw [entry.named, Text.split_of_not_mem entry.whole, cut] at pieces
  obtain ⟨rfl, rfl⟩ := List.cons.inj pieces
  cases first : records.lookup outer with
  | none =>
    have other := List.lookup_eq_none_iff.mp first _ among
    simp at other
  | some record' =>
    -- The first entry of the key need not be the one at hand, but it lists a type of the same full
    -- name.
    have among' := mem_of_lookup first
    have same : record'.view .metadata = record.view .metadata :=
      h.same (mem_typesOf.mpr ⟨outer, record', among', .self⟩) (listed _ .self)
        ((h.entry among').named.trans entry.named.symm)
    exact ⟨record', rfl, same ▸ found⟩

/-- Looking a type up by its full name is going through the list of all types. -/
theorem findType_eq_find (h : IsListed records) (fullName : String) :
    findType records fullName .metadata =
      .ok ((References.typesOf records).find? fun v => v.fullName = fullName) := by
  obtain ⟨outer, nested, cut⟩ := List.exists_cons_of_ne_nil (Text.split_ne_nil '+' fullName)
  have listed : ∀ v, (References.typesOf records).find? (fun v => v.fullName = fullName) = some v ↔
      v ∈ References.typesOf records ∧ v.fullName = fullName := fun v => find?_key_iff h.names
  rw [findType, cut]
  cases found : records.lookup outer with
  | none =>
    simp only [found]
    refine congrArg Except.ok (Option.eq_none_iff_forall_ne_some.mpr fun v held => ?_).symm
    obtain ⟨among, rfl⟩ := (listed v).mp held
    obtain ⟨record, first, _⟩ := h.descend among cut
    exact Option.some_ne_none record (first.symm.trans found)
  | some record =>
    have among := mem_of_lookup found
    have entry := h.entry among
    have own : record.tree.head.nameError = none := entry.readable _ .self
    have view : record.view? .metadata = .ok (record.view .metadata) := by
      rw [TypeRecord.view?, own]
    have down : (record.view .metadata).findNested nested =
        .ok ((record.view .metadata).descend nested) := by
      rw [TypeView.findNested, TypeView.descentError_of_readable entry.readable]
    simp only [found, view, down]
    refine congrArg Except.ok (Option.ext fun v => ?_)
    rw [listed v]
    constructor
    · intro way
      obtain ⟨inside, spelled⟩ := TypeView.inside_of_descend way
      refine ⟨mem_typesOf.mpr ⟨outer, record, among, inside⟩, ?_⟩
      rw [spelled, entry.named, ← cut]
      exact Text.intercalate_split '+' fullName
    · rintro ⟨held, rfl⟩
      obtain ⟨record', first, way⟩ := h.descend held cut
      obtain rfl := Option.some.inj (first.symm.trans found)
      exact way

end Metadata

end HiddenNames
