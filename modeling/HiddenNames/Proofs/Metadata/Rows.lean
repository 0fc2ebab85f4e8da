import HiddenNames.Proofs.Metadata.Enclosing
import HiddenNames.Proofs.Text.Pieces
import HiddenNames.Proofs.Types.Listing

/-!
Where the types of a module stand. The pairs of its nesting table put a row inside at most one
other; going down from the rows that stand in none leads to every type, under the full name that is
spelled on the way. Records are looked up by that name.
-/

namespace HiddenNames

namespace Metadata

def IsOutermost (rows : List RawType) (nesting : List (Int × Int)) (raw : RawType) : Prop :=
  raw ∈ rows ∧ ∀ owner ∈ rows, (raw.index, owner.index) ∉ nesting

/-- Where a type stands: its full name, the outermost type around it or the type itself, and all
types around it, outermost first. -/
structure Place where
  fullName : String
  outermost : RawType
  outer : List RawType
  deriving DecidableEq

def Place.inside (place : Place) (owner raw : RawType) : Place :=
  ⟨place.fullName ++ "+" ++ raw.name, place.outermost, place.outer ++ [owner]⟩

/-- The types of a module with their places. Rows that lie on a cycle, or inside one, have none. -/
inductive Placed (rows : List RawType) (nesting : List (Int × Int)) : Place → RawType → Prop
  | outermost {raw : RawType} : IsOutermost rows nesting raw →
      Placed rows nesting ⟨raw.key, raw, []⟩ raw
  | inside {place : Place} {owner raw : RawType} : Placed rows nesting place owner → raw ∈ rows →
      (raw.index, owner.index) ∈ nesting → Placed rows nesting (place.inside owner raw) raw

structure RawType.IsSpelled (raw : RawType) : Prop where
  name : '+' ∉ raw.name.toList
  space : '+' ∉ raw.space.toList
  arity : (splitArity raw.name).map (fun (name, arity) => withArity name arity) = .ok raw.name

structure Distinguished (rows : List RawType) (nesting : List (Int × Int)) : Prop where
  indexes : (rows.map RawType.index).Nodup
  owners : ∀ {index first second : Int}, (index, first) ∈ nesting → (index, second) ∈ nesting →
    first = second
  spelled : ∀ raw ∈ rows, raw.IsSpelled
  names : ∀ {place place' : Place} {raw raw' : RawType}, Placed rows nesting place raw →
    Placed rows nesting place' raw' → place.fullName = place'.fullName → raw = raw'

variable {rows : List RawType} {nesting : List (Int × Int)} {place place' : Place}
  {raw raw' owner owner' : RawType}

theorem Placed.mem (h : Placed rows nesting place raw) : raw ∈ rows := by
  cases h with
  | outermost free => exact free.1
  | inside _ held _ => exact held

theorem Distinguished.same_row (h : Distinguished rows nesting) (held : raw ∈ rows)
    (among : raw' ∈ rows) (same : raw.index = raw'.index) : raw = raw' :=
  List.inj_on_of_nodup_map h.indexes held among same

theorem Placed.unique (h : Distinguished rows nesting) (here : Placed rows nesting place raw)
    (there : Placed rows nesting place' raw) : place = place' := by
  induction here generalizing place' with
  | outermost free =>
    cases there with
    | outermost _ => rfl
    | inside around _ pair => exact absurd pair (free.2 _ around.mem)
  | inside around _ pair ih =>
    cases there with
    | outermost free => exact absurd pair (free.2 _ around.mem)
    | inside around' _ pair' =>
      have same := h.same_row around.mem around'.mem (h.owners pair pair')
      subst same
      rw [ih around']

/-- All types around a type have places themselves, with fewer types around them. -/
theorem Placed.around (here : Placed rows nesting place raw) :
    ∀ owner ∈ place.outer, ∃ place', Placed rows nesting place' owner ∧
      place'.outer.length < place.outer.length := by
  induction here with
  | outermost _ => exact fun _ among => absurd among List.not_mem_nil
  | @inside place owner _ around _ _ ih =>
    intro other among
    rw [Place.inside, List.length_append, List.length_singleton]
    rcases List.mem_append.mp among with further | last
    · obtain ⟨place', placed, fewer⟩ := ih other further
      exact ⟨place', placed, Nat.lt_succ_of_lt fewer⟩
    · rw [List.mem_singleton.mp last]
      exact ⟨place, around, Nat.lt_succ_self _⟩

/-! The rows as they are looked up. -/

theorem distinctRows_eq (h : Distinguished rows nesting) : distinctRows rows = rows := by
  rw [distinctRows, assignAll_of_distinct, List.map_map]
  · exact List.map_id rows
  · rw [List.map_map]
    exact h.indexes

theorem orderedRows_perm (h : Distinguished rows nesting) : (orderedRows rows).Perm rows := by
  rw [orderedRows, distinctRows_eq h]
  exact List.mergeSort_perm rows _

theorem mem_orderedRows (h : Distinguished rows nesting) : raw ∈ orderedRows rows ↔ raw ∈ rows :=
  (orderedRows_perm h).mem_iff

theorem Distinguished.counts (h : Distinguished rows nesting) (held : raw ∈ rows) :
    Counts rows raw :=
  mem_orderedRows_iff.mp ((mem_orderedRows h).mpr held)

theorem Distinguished.isLast (h : Distinguished rows nesting) {index owner : Int}
    (held : (index, owner) ∈ nesting) : IsLast nesting index owner :=
  mem_assignAll_iff.mp (mem_of_lookup ((lookup_assignAll h.owners).mpr held))

/-- The types around a type are those that its rows lead to. -/
theorem Placed.endsAt (h : Distinguished rows nesting) (here : Placed rows nesting place raw) :
    EndsAt rows nesting raw place.outer place.outermost := by
  induction here with
  | outermost free =>
    exact .free ⟨h.counts free.1, fun owner step => free.2 owner step.outer.mem step.pair.mem⟩
  | inside around held pair ih =>
    exact .inside ⟨h.counts held, h.counts around.mem, h.isLast pair⟩ ih

theorem Placed.depth_lt (h : Distinguished rows nesting) (here : Placed rows nesting place raw) :
    place.outer.length < rows.length :=
  (orderedRows_perm h).length_eq ▸ (here.endsAt h).depth_lt

theorem ownerOf_eq_some_iff (h : Distinguished rows nesting) {index : Int} :
    ownerOf (orderedRows rows) (enclosingOf nesting) raw = some index ↔
      (raw.index, index) ∈ nesting ∧ ∃ owner ∈ rows, owner.index = index := by
  rw [ownerOf, enclosingOf, Option.filter_eq_some_iff, lookup_assignAll h.owners, List.any_eq_true]
  simp only [mem_orderedRows h, decide_eq_true_eq]

theorem ownerOf_row_iff (h : Distinguished rows nesting) (held : owner ∈ rows) :
    ownerOf (orderedRows rows) (enclosingOf nesting) raw = some owner.index ↔
      (raw.index, owner.index) ∈ nesting := by
  rw [ownerOf_eq_some_iff h]
  exact and_iff_left ⟨owner, held, rfl⟩

theorem ownerOf_isNone_iff (h : Distinguished rows nesting) :
    (ownerOf (orderedRows rows) (enclosingOf nesting) raw).isNone = true ↔
      ∀ owner ∈ rows, (raw.index, owner.index) ∉ nesting := by
  rw [Option.isNone_iff_eq_none, Option.eq_none_iff_forall_ne_some]
  constructor
  · intro none owner held pair
    exact none owner.index ((ownerOf_row_iff h held).mpr pair)
  · intro none index found
    obtain ⟨pair, owner, held, rfl⟩ := (ownerOf_eq_some_iff h).mp found
    exact none owner held pair

def rowsInside (rows : List RawType) (nesting : List (Int × Int)) (owner : RawType) :
    List RawType :=
  rows.filter fun raw => (raw.index, owner.index) ∈ nesting

theorem mem_rowsInside :
    raw ∈ rowsInside rows nesting owner ↔ raw ∈ rows ∧ (raw.index, owner.index) ∈ nesting := by
  rw [rowsInside, List.mem_filter, decide_eq_true_eq]

def rowRecord (rows : List RawType) (nesting : List (Int × Int)) (fuel : Nat) (raw : RawType) :
    TypeRecord :=
  recordOf (orderedRows rows) (enclosingOf nesting) fuel raw

@[simp]
theorem rowRecord_head (fuel : Nat) :
    (rowRecord rows nesting fuel raw).head = raw.head raw.arity := by
  cases fuel <;> rfl

theorem rowRecord_nested (h : Distinguished rows nesting) (held : raw ∈ rows) (fuel : Nat) :
    ∃ listed : List RawType, listed.Perm (rowsInside rows nesting raw) ∧
      (rowRecord rows nesting (fuel + 1) raw).nested =
        listed.map (rowRecord rows nesting fuel) := by
  refine ⟨(orderedRows rows).filter fun r =>
    ownerOf (orderedRows rows) (enclosingOf nesting) r = some raw.index, ?_, rfl⟩
  have same :
      (fun r => decide (ownerOf (orderedRows rows) (enclosingOf nesting) r = some raw.index)) =
      fun r => decide ((r.index, raw.index) ∈ nesting) :=
    funext fun r => decide_eq_decide.mpr (ownerOf_row_iff h held)
  rw [same]
  exact (orderedRows_perm h).filter _

/-! Names. -/

@[simp]
theorem length_parameterNames (arity : Nat) : (TypeRecord.parameterNames arity).length = arity := by
  match arity with
  | 0 | 1 => rfl
  | arity + 2 => exact (List.length_map _).trans List.length_range

def RawType.typeHead (raw : RawType) : TypeHead := (raw.head raw.arity).typeHead

theorem RawType.IsSpelled.split (h : raw.IsSpelled) : ∃ name,
    splitArity raw.name = .ok (name, raw.arity) ∧ withArity name raw.arity = raw.name := by
  have spelled := h.arity
  rw [RawType.arity]
  cases parts : splitArity raw.name with
  | error e =>
    rw [parts] at spelled
    cases spelled
  | ok both =>
    rw [parts] at spelled
    exact ⟨both.1, rfl, Except.ok.inj spelled⟩

theorem RawType.IsSpelled.metadataName (h : raw.IsSpelled) :
    raw.typeHead.metadataName = raw.name := by
  obtain ⟨name, parts, whole⟩ := h.split
  have arity : raw.typeHead.arity = raw.arity := length_parameterNames raw.arity
  have simple : raw.typeHead.name = name := by
    simp only [RawType.typeHead, RecordHead.typeHead, RawType.head, parts]
  rw [TypeHead.metadataName, arity, simple, whole]

theorem RawType.typeHead_nameError {parts : String × Nat} (read : splitArity raw.name = .ok parts) :
    raw.typeHead.nameError = none := by
  simp only [RawType.typeHead, RecordHead.typeHead, RawType.head, read]

theorem RawType.IsSpelled.nameError (h : raw.IsSpelled) : raw.typeHead.nameError = none := by
  obtain ⟨name, parts, _⟩ := h.split
  exact typeHead_nameError parts

@[simp]
theorem rowTree_head (fuel : Nat) : (rowRecord rows nesting fuel raw).tree.head = raw.typeHead := by
  cases fuel <;> rfl

theorem rowTree_nested (h : Distinguished rows nesting) (held : raw ∈ rows) (fuel : Nat) :
    ∃ listed : List RawType, listed.Perm (rowsInside rows nesting raw) ∧
      (rowRecord rows nesting (fuel + 1) raw).tree.nested =
        listed.map fun r => (rowRecord rows nesting fuel r).tree := by
  obtain ⟨listed, perm, nested⟩ := rowRecord_nested h held fuel
  refine ⟨listed, perm, ?_⟩
  rw [TypeRecord.tree_nested, nested, List.map_map]
  rfl

theorem rowTree_walkError (h : Distinguished rows nesting) (held : raw ∈ rows) (fuel : Nat) :
    (rowRecord rows nesting fuel raw).tree.walkError = none := by
  induction fuel generalizing raw with
  | zero => exact TypeTree.walkError_eq_none_iff.mpr fun _ among => absurd among List.not_mem_nil
  | succ fuel ih =>
    rw [TypeTree.walkError_eq_none_iff]
    obtain ⟨listed, perm, nested⟩ := rowTree_nested h held fuel
    rw [nested]
    intro t among
    obtain ⟨r, inside, rfl⟩ := List.mem_map.mp among
    have row := (mem_rowsInside.mp (perm.mem_iff.mp inside)).1
    rw [rowTree_head]
    exact ⟨(h.spelled r row).nameError, fun _ => ih row⟩

/-! Looking up. -/

theorem forest_lookup (h : Distinguished rows nesting) (free : IsOutermost rows nesting raw)
    (ordinary : raw.name ≠ moduleType) :
    (forest rows nesting).lookup raw.key = some (rowRecord rows nesting rows.length raw) := by
  have length : (orderedRows rows).length = rows.length := (orderedRows_perm h).length_eq
  have listed : ∀ r, r ∈ (orderedRows rows).filter (fun raw =>
      (ownerOf (orderedRows rows) (enclosingOf nesting) raw).isNone && raw.name ≠ moduleType) ↔
      IsOutermost rows nesting r ∧ r.name ≠ moduleType := by
    intro r
    rw [List.mem_filter, Bool.and_eq_true, ownerOf_isNone_iff h, mem_orderedRows h,
      decide_eq_true_eq, ← and_assoc]
    rfl
  have rowsNodup : (orderedRows rows).Nodup :=
    (orderedRows_perm h).nodup_iff.mpr (List.Nodup.of_map _ h.indexes)
  have keys : ((((orderedRows rows).filter fun raw =>
      (ownerOf (orderedRows rows) (enclosingOf nesting) raw).isNone && raw.name ≠ moduleType).map
        fun raw => (raw.key, recordOf (orderedRows rows) (enclosingOf nesting)
          (orderedRows rows).length raw)).map Prod.fst).Nodup := by
    rw [List.map_map]
    refine List.Nodup.map_on ?_ (rowsNodup.filter _)
    intro r among r' among' same
    exact h.names (.outermost ((listed r).mp among).1) (.outermost ((listed r').mp among').1) same
  rw [forest, assignAll_of_distinct keys, lookup_iff_mem keys, ← length]
  exact List.mem_map.mpr ⟨raw, (listed raw).mpr ⟨free, ordinary⟩, rfl⟩

theorem buildRecords_ok (h : Distinguished rows nesting) :
    buildRecords rows nesting = .ok (forest rows nesting) := by
  have readable : arityError rows = none := by
    rw [arityError, List.findSome?_eq_none_iff]
    intro raw among
    obtain ⟨name, parts, _⟩ := (h.spelled raw (distinctRows_eq h ▸ among)).split
    rw [parts]
  rw [buildRecords, readable]

def placedView (rows : List RawType) (nesting : List (Int × Int)) (place : Place) (raw : RawType) :
    TypeView where
  tier := .metadata
  space? := namedSpace (some place.outermost.space)
  outer := place.outer.map RawType.typeHead
  tree := (rowRecord rows nesting (rows.length - place.outer.length) raw).tree

theorem rowsInside_names (h : Distinguished rows nesting)
    (around : Placed rows nesting place owner) :
    ((rowsInside rows nesting owner).map RawType.name).Nodup := by
  refine List.Nodup.map_on ?_ ((List.Nodup.of_map _ h.indexes).filter _)
  intro r among r' among' same
  obtain ⟨held, pair⟩ := mem_rowsInside.mp among
  obtain ⟨held', pair'⟩ := mem_rowsInside.mp among'
  refine h.names (.inside around held pair) (.inside around held' pair') ?_
  exact congrArg (place.fullName ++ "+" ++ ·) same

theorem placedView_nested (h : Distinguished rows nesting)
    (around : Placed rows nesting place owner) :
    ∃ listed : List RawType, listed.Perm (rowsInside rows nesting owner) ∧
      (placedView rows nesting place owner).tree.nested =
        listed.map fun r =>
          (rowRecord rows nesting (rows.length - (place.outer ++ [owner]).length) r).tree := by
  have fuel : rows.length - place.outer.length =
      rows.length - (place.outer ++ [owner]).length + 1 := by
    have deep := around.depth_lt h
    rw [List.length_append, List.length_singleton]
    omega
  rw [placedView, fuel]
  exact rowTree_nested h around.mem _

theorem placedView_find (h : Distinguished rows nesting) (around : Placed rows nesting place owner)
    (held : raw ∈ rows) (pair : (raw.index, owner.index) ∈ nesting) :
    (placedView rows nesting place owner).nested.find?
        (fun n => n.head.metadataName = raw.name) =
      some (placedView rows nesting (place.inside owner raw) raw) := by
  obtain ⟨listed, perm, nested⟩ := placedView_nested h around
  have views : (placedView rows nesting place owner).nested = listed.map fun r =>
      (placedView rows nesting place owner).child
        (rowRecord rows nesting (rows.length - (place.outer ++ [owner]).length) r).tree := by
    rw [TypeView.nested, nested, List.map_map]
    rfl
  have spelled : ∀ r ∈ rows, ((placedView rows nesting place owner).child
      (rowRecord rows nesting (rows.length - (place.outer ++ [owner]).length)
        r).tree).head.metadataName = r.name := by
    intro r row
    simp [TypeView.child, TypeView.head, (h.spelled r row).metadataName]
  have names : ((placedView rows nesting place owner).nested.map
      fun n => n.head.metadataName).Nodup := by
    rw [views, List.map_map, List.map_congr_left (g := RawType.name)]
    · exact (perm.map _).nodup_iff.mpr (rowsInside_names h around)
    · exact fun r inside => spelled r (mem_rowsInside.mp (perm.mem_iff.mp inside)).1
  have chain : (placedView rows nesting place owner).chain =
      (place.outer ++ [owner]).map RawType.typeHead := by
    rw [TypeView.chain, TypeView.head, List.map_append, placedView, rowTree_head]
    rfl
  have child : placedView rows nesting (place.inside owner raw) raw =
      (placedView rows nesting place owner).child
        (rowRecord rows nesting (rows.length - (place.outer ++ [owner]).length) raw).tree := by
    rw [TypeView.child, chain]
    rfl
  rw [child]
  refine (find?_key_iff names).mpr ⟨?_, spelled raw held⟩
  rw [views]
  exact List.mem_map.mpr ⟨raw, perm.mem_iff.mpr (mem_rowsInside.mpr ⟨held, pair⟩), rfl⟩

theorem placedView_nestedError (h : Distinguished rows nesting)
    (around : Placed rows nesting place owner) :
    (placedView rows nesting place owner).nestedError = none := by
  obtain ⟨listed, perm, nested⟩ := placedView_nested h around
  rw [TypeView.nestedError, nested, List.findSome?_eq_none_iff]
  intro t among
  obtain ⟨r, inside, rfl⟩ := List.mem_map.mp among
  rw [rowTree_head]
  exact (h.spelled r (mem_rowsInside.mp (perm.mem_iff.mp inside)).1).nameError

end Metadata

namespace TypeView

variable {v w : TypeView} {names : List String} {name : String}

theorem descend_append (found : v.descend names = some w) :
    v.descend (names ++ [name]) = w.nested.find? fun n => n.head.metadataName = name := by
  induction names generalizing v with
  | nil =>
    obtain rfl := Option.some.inj found
    rw [List.nil_append, descend]
    cases v.nested.find? fun n => n.head.metadataName = name <;> rfl
  | cons first rest ih =>
    rw [descend] at found
    rw [List.cons_append, descend]
    cases step : v.nested.find? fun n => n.head.metadataName = first with
    | none =>
      rw [step] at found
      cases found
    | some n =>
      rw [step] at found
      exact ih found

theorem descentError_append (found : v.descend names = some w)
    (before : v.descentError names = none)
    (own : w.nestedError = none) : v.descentError (names ++ [name]) = none := by
  induction names generalizing v with
  | nil =>
    obtain rfl := Option.some.inj found
    rw [List.nil_append, descentError, own]
    simp only
    cases v.nested.find? fun n => n.head.metadataName = name <;> rfl
  | cons first rest ih =>
    rw [descend] at found
    rw [descentError] at before
    rw [List.cons_append, descentError]
    cases error : v.nestedError with
    | some e =>
      rw [error] at before
      cases before
    | none =>
      rw [error] at before
      simp only at before ⊢
      cases step : v.nested.find? fun n => n.head.metadataName = first with
      | none => rfl
      | some n =>
        rw [step] at found before
        exact ih found before

end TypeView

namespace Metadata

variable {rows : List RawType} {nesting : List (Int × Int)} {place : Place} {raw : RawType}

theorem RawType.IsSpelled.key (h : raw.IsSpelled) : '+' ∉ raw.key.toList := by
  rw [RawType.key, qualified]
  cases named : namedSpace (some raw.space) with
  | none => exact h.name
  | some space =>
    rw [namedSpace, Option.filter_eq_some_iff] at named
    obtain rfl := Option.some.inj named.1
    simp only [String.toList_append, List.mem_append, not_or]
    exact ⟨⟨h.space, by decide⟩, h.name⟩

/-- The way down from the outermost type is spelled in the full name, and leads to the view. -/
theorem Placed.descent (h : Distinguished rows nesting) (here : Placed rows nesting place raw) :
    ∃ names, Text.split '+' place.fullName = place.outermost.key :: names ∧
      (placedView rows nesting ⟨place.outermost.key, place.outermost, []⟩
        place.outermost).descend names = some (placedView rows nesting place raw) ∧
      (placedView rows nesting ⟨place.outermost.key, place.outermost, []⟩
        place.outermost).descentError names = none := by
  induction here with
  | outermost free =>
    exact ⟨[], Text.split_of_not_mem (h.spelled _ free.1).key, rfl, rfl⟩
  | @inside place owner raw around held pair ih =>
    obtain ⟨names, cut, found, readable⟩ := ih
    refine ⟨names ++ [raw.name], ?_, ?_, ?_⟩
    · have last := Text.split_of_not_mem (h.spelled raw held).name
      have both := Text.split_append '+' place.fullName raw.name
      rw [cut, last] at both
      exact both
    · exact (TypeView.descend_append found).trans (placedView_find h around held pair)
    · exact TypeView.descentError_append found readable (placedView_nestedError h around)

theorem Placed.free (here : Placed rows nesting place raw) :
    IsOutermost rows nesting place.outermost := by
  induction here with
  | outermost free => exact free
  | inside _ _ _ ih => exact ih

/-- Every type of a module is found by its full name, the types inside the one for all that belongs
to no type excepted. -/
theorem findType_placed (h : Distinguished rows nesting) (here : Placed rows nesting place raw)
    (ordinary : place.outermost.name ≠ moduleType) :
    findType (forest rows nesting) place.fullName .metadata =
      .ok (some (placedView rows nesting place raw)) := by
  obtain ⟨names, cut, found, readable⟩ := here.descent h
  have record := forest_lookup h here.free ordinary
  have view : (rowRecord rows nesting rows.length place.outermost).view? .metadata =
      .ok (placedView rows nesting ⟨place.outermost.key, place.outermost, []⟩ place.outermost) := by
    have space : (rowRecord rows nesting rows.length place.outermost).head.space? =
        namedSpace (some place.outermost.space) := by
      rw [rowRecord_head, namedSpace, RawType.head, Option.filter_some]
      by_cases empty : place.outermost.space = "" <;> simp [empty]
    rw [TypeRecord.view?, rowTree_head, (h.spelled _ here.free.1).nameError]
    simp only [TypeRecord.view, placedView, space, List.map_nil, List.length_nil, Nat.sub_zero]
  rw [findType, cut]
  simp only [record, view]
  rw [TypeView.findNested, readable, found]

end Metadata

end HiddenNames
