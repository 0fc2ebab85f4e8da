import HiddenNames.Proofs.Metadata.Enclosing
import HiddenNames.Proofs.Metadata.Listed
import HiddenNames.Proofs.Resolution.Worklist

/-!
Records as trees of rows. A record does not say which row it was made from; a tree of rows does, and
the records of a module are those of the trees of its rows. Every row from which the rows around it
lead to an outermost one has its place there, once, unless a later type took the name of the
outermost one. No other row has, so that a walk down the trees meets each place and ends.
-/

namespace HiddenNames

namespace Metadata

inductive RowTree where
  | node (row : RawType) (nested : List RowTree)

structure Spot where
  outer : List RawType
  tree : RowTree

namespace RowTree

def row : RowTree → RawType
  | .node row _ => row

def nested : RowTree → List RowTree
  | .node _ nested => nested

mutual

def record : RowTree → TypeRecord
  | .node row nested => .node (row.head row.arity) (recordsOf nested)

def recordsOf : List RowTree → List TypeRecord
  | [] => []
  | t :: rest => record t :: recordsOf rest

end

mutual

/-- All places in a tree that stands inside the rows of a list, each before those further in, later
siblings first. -/
def spots (outer : List RawType) : RowTree → List Spot
  | .node row nested => ⟨outer, .node row nested⟩ :: spotsOf (outer ++ [row]) nested

def spotsOf (outer : List RawType) : List RowTree → List Spot
  | [] => []
  | t :: rest => spotsOf outer rest ++ spots outer t

end

theorem recordsOf_eq (ts : List RowTree) : recordsOf ts = ts.map record := by
  induction ts with
  | nil => rfl
  | cons t rest ih => rw [recordsOf, ih, List.map_cons]

theorem spotsOf_eq (outer : List RawType) (ts : List RowTree) :
    spotsOf outer ts = ts.reverse.flatMap (spots outer) := by
  induction ts with
  | nil => rfl
  | cons t rest ih =>
    rw [spotsOf, ih, List.reverse_cons, List.flatMap_append, List.flatMap_singleton]

end RowTree

namespace Spot

def row (s : Spot) : RawType := s.tree.row

def chain (s : Spot) : List RawType := s.outer ++ [s.row]

def view (base : TypeView) (s : Spot) : TypeView :=
  { base with outer := s.outer.map RawType.typeHead, tree := s.tree.record.tree }

end Spot

namespace RowTree

variable {s : Spot} {row : RawType} {outer : List RawType} {nested : List RowTree} {t t' : RowTree}

theorem mem_spots_node : s ∈ spots outer (.node row nested) ↔
    s = ⟨outer, .node row nested⟩ ∨ ∃ t ∈ nested, s ∈ spots (outer ++ [row]) t := by
  rw [spots, List.mem_cons, spotsOf_eq, List.mem_flatMap]
  simp only [List.mem_reverse]

theorem self_mem_spots (outer : List RawType) (t : RowTree) : ⟨outer, t⟩ ∈ spots outer t := by
  cases t
  exact mem_spots_node.mpr (.inl rfl)

mutual

theorem mem_spots_nested (t : RowTree) {outer : List RawType} {s : Spot} (held : s ∈ spots outer t)
    (inner : t' ∈ s.tree.nested) : ⟨s.chain, t'⟩ ∈ spots outer t := by
  cases t with
  | node row nested =>
    rw [spots, List.mem_cons] at held ⊢
    rcases held with rfl | further
    · refine .inr ?_
      rw [spotsOf_eq, List.mem_flatMap]
      exact ⟨t', List.mem_reverse.mpr inner, self_mem_spots _ t'⟩
    · exact .inr (mem_spotsOf_nested nested further inner)

theorem mem_spotsOf_nested (ts : List RowTree) {outer : List RawType} {s : Spot}
    (held : s ∈ spotsOf outer ts) (inner : t' ∈ s.tree.nested) :
    ⟨s.chain, t'⟩ ∈ spotsOf outer ts := by
  cases ts with
  | nil => cases held
  | cons t rest =>
    rw [spotsOf, List.mem_append] at held ⊢
    exact held.imp (mem_spotsOf_nested rest · inner) (mem_spots_nested t · inner)

end

mutual

/-- The types inside a type are listed in the order of the places of their rows. -/
theorem everyView_record (base : TypeView) {outer : List RawType}
    (placed : base.outer = outer.map RawType.typeHead) (t : RowTree) :
    TypeTree.everyView base t.record.tree = (spots outer t).map (Spot.view base) := by
  cases t with
  | node row nested =>
    let here : TypeView := { base with tree := (RowTree.node row nested).record.tree }
    have own : here = Spot.view base ⟨outer, .node row nested⟩ := by rw [Spot.view, ← placed]
    have around : here.chain = (outer ++ [row]).map RawType.typeHead := by
      rw [List.map_append, ← placed]
      rfl
    have inner := everyNested_records { here with outer := here.chain } around nested
    rw [record, TypeRecord.tree, TypeTree.everyView, spots, List.map_cons, ← own]
    exact congrArg (here :: ·) inner

theorem everyNested_records (base : TypeView) {outer : List RawType}
    (placed : base.outer = outer.map RawType.typeHead) (ts : List RowTree) :
    TypeTree.everyNested base (TypeRecord.trees (recordsOf ts)) =
      (spotsOf outer ts).map (Spot.view base) := by
  cases ts with
  | nil => rfl
  | cons t rest =>
    rw [recordsOf, TypeRecord.trees, TypeTree.everyNested, spotsOf, List.map_append,
      everyNested_records base placed rest, everyView_record base placed t]

end

end RowTree

open RowTree (spots)

variable {rows : List RawType} {nesting : List (Int × Int)} {raw raw' root root' : RawType}
  {outer : List RawType} {s s' : Spot} {fuel fuel' : Nat} {key : String} {tree : RowTree}

def rowsIn (rows : List RawType) (nesting : List (Int × Int)) (raw : RawType) : List RawType :=
  (orderedRows rows).filter fun r =>
    ownerOf (orderedRows rows) (enclosingOf nesting) r = some raw.index

def grow (rows : List RawType) (nesting : List (Int × Int)) : Nat → RawType → RowTree
  | 0, raw => .node raw []
  | fuel + 1, raw => .node raw ((rowsIn rows nesting raw).map (grow rows nesting fuel))

def grove (rows : List RawType) (nesting : List (Int × Int)) : List (String × RowTree) :=
  let outermost := (orderedRows rows).filter fun raw =>
    (ownerOf (orderedRows rows) (enclosingOf nesting) raw).isNone && raw.name ≠ moduleType
  assignAll (outermost.map fun raw => (raw.key, grow rows nesting (orderedRows rows).length raw))

@[simp]
theorem grow_row (fuel : Nat) (raw : RawType) : (grow rows nesting fuel raw).row = raw := by
  cases fuel <;> rfl

theorem grow_record (fuel : Nat) (raw : RawType) : (grow rows nesting fuel raw).record =
    recordOf (orderedRows rows) (enclosingOf nesting) fuel raw := by
  induction fuel generalizing raw with
  | zero => rfl
  | succ fuel ih =>
    rw [grow, RowTree.record, RowTree.recordsOf_eq, List.map_map, recordOf]
    exact congrArg (TypeRecord.node _) (List.map_congr_left fun r _ => ih r)

/-- The records of a module are those of the trees of its rows. -/
theorem forest_eq_grove :
    forest rows nesting = (grove rows nesting).map (Prod.map id RowTree.record) := by
  rw [grove, ← assignAll_map, List.map_map, forest]
  refine congrArg assignAll (List.map_congr_left fun raw _ => ?_)
  rw [Function.comp_apply, Prod.map_apply, id_eq, grow_record]

/-! Places. -/

theorem endsAt_of_mem_rowsIn (h : EndsAt rows nesting raw outer root)
    (inside : raw' ∈ rowsIn rows nesting raw) : EndsAt rows nesting raw' (outer ++ [raw]) root :=
  .inside ((mem_filter_ownerOf_iff h.counts).mp inside) h

theorem mem_spots_grow (h : EndsAt rows nesting raw outer root)
    (held : s ∈ spots outer (grow rows nesting fuel raw)) :
    EndsAt rows nesting s.row s.outer root ∧ outer ++ [raw] <+: s.chain ∧
      ∃ fuel', s.tree = grow rows nesting fuel' s.row := by
  induction fuel generalizing raw outer with
  | zero =>
    rcases RowTree.mem_spots_node.mp held with rfl | ⟨_, among, _⟩
    · exact ⟨h, List.prefix_refl _, 0, rfl⟩
    · cases among
  | succ fuel ih =>
    rcases RowTree.mem_spots_node.mp held with rfl | ⟨t, among, further⟩
    · exact ⟨h, List.prefix_refl _, fuel + 1, rfl⟩
    · obtain ⟨r, inside, rfl⟩ := List.mem_map.mp among
      obtain ⟨way, part, shape⟩ := ih (endsAt_of_mem_rowsIn h inside) further
      exact ⟨way, (List.prefix_append _ _).trans part, shape⟩

theorem spots_apart (h : EndsAt rows nesting raw outer root)
    (h' : EndsAt rows nesting raw' outer root')
    (held : s ∈ spots outer (grow rows nesting fuel raw))
    (held' : s' ∈ spots outer (grow rows nesting fuel' raw')) (same : s.row = s'.row) :
    raw = raw' := by
  obtain ⟨way, part, -⟩ := mem_spots_grow h held
  obtain ⟨way', part', -⟩ := mem_spots_grow h' held'
  have chain : s.chain = s'.chain := by
    rw [Spot.chain, Spot.chain, same, (way.unique (same ▸ way')).1]
  have lengths : (outer ++ [raw]).length = (outer ++ [raw']).length := by
    rw [List.length_append, List.length_append, List.length_singleton, List.length_singleton]
  have both := List.prefix_of_prefix_length_le part (chain ▸ part') lengths.le
  exact List.singleton_inj.mp (List.append_cancel_left (both.eq_of_length lengths))

/-- Further in than a row there is no other place of it, as the way from there would be a longer
one. -/
theorem row_ne_of_inside (h : EndsAt rows nesting raw outer root)
    (inside : raw' ∈ rowsIn rows nesting raw)
    (held : s ∈ spots (outer ++ [raw]) (grow rows nesting fuel raw')) : s.row ≠ raw := by
  intro same
  obtain ⟨way, part, -⟩ := mem_spots_grow (endsAt_of_mem_rowsIn h inside) held
  have longer := part.length_le
  rw [Spot.chain, (way.unique (same ▸ h)).1] at longer
  simp at longer

/-- In a tree every row has one place. -/
theorem spots_nodup (h : EndsAt rows nesting raw outer root) (fuel : Nat) :
    ((spots outer (grow rows nesting fuel raw)).map Spot.row).Nodup := by
  induction fuel generalizing raw outer with
  | zero => exact List.nodup_singleton raw
  | succ fuel ih =>
    rw [grow, RowTree.spots, RowTree.spotsOf_eq, List.map_cons, List.map_flatMap, List.nodup_cons,
      List.nodup_flatMap]
    refine ⟨fun held => ?_, fun t among => ?_, ?_⟩
    · obtain ⟨t, among, within⟩ := List.mem_flatMap.mp held
      obtain ⟨r, inside, rfl⟩ := List.mem_map.mp (List.mem_reverse.mp among)
      obtain ⟨s, place, same⟩ := List.mem_map.mp within
      exact row_ne_of_inside h inside place same
    · obtain ⟨r, inside, rfl⟩ := List.mem_map.mp (List.mem_reverse.mp among)
      exact ih (endsAt_of_mem_rowsIn h inside)
    · rw [List.pairwise_reverse, List.pairwise_map]
      have ascending : (rowsIn rows nesting raw).Pairwise fun r r' => r.index < r'.index :=
        orderedRows_ascending.filter _
      refine ascending.imp_of_mem fun {r r'} inside inside' less row held held' => ?_
      obtain ⟨s, place, rfl⟩ := List.mem_map.mp held
      obtain ⟨s', place', same⟩ := List.mem_map.mp held'
      obtain rfl := spots_apart (endsAt_of_mem_rowsIn h inside') (endsAt_of_mem_rowsIn h inside)
        place place' same.symm
      exact Int.lt_irrefl _ less

/-- Every row from which the rows around it lead to an outermost one has its place in the tree of
that one, if the tree is deep enough. -/
theorem mem_spots_of_endsAt (h : EndsAt rows nesting raw outer root) (deep : outer.length ≤ fuel) :
    ⟨outer, grow rows nesting (fuel - outer.length) raw⟩ ∈
      spots [] (grow rows nesting fuel root) := by
  induction h with
  | free _ => exact RowTree.self_mem_spots _ _
  | @inside raw owner root outer step further ih =>
    rw [List.length_append, List.length_singleton] at deep ⊢
    have place := ih (Nat.le_of_succ_le deep)
    obtain ⟨more, left⟩ := Nat.exists_eq_add_one_of_ne_zero (Nat.sub_ne_zero_of_lt deep)
    rw [left] at place
    have listed : grow rows nesting more raw ∈ (grow rows nesting (more + 1) owner).nested :=
      List.mem_map_of_mem ((mem_filter_ownerOf_iff step.outer).mpr step)
    rw [← Nat.sub_sub, left, Nat.add_sub_cancel]
    exact RowTree.mem_spots_nested _ place listed

/-! The module. -/

def IsTopLevel (rows : List RawType) (nesting : List (Int × Int)) (raw : RawType) : Prop :=
  StandsFree rows nesting raw ∧ raw.name ≠ moduleType

/-- The row is an outermost one, and the last one of its full name. -/
def IsKept (rows : List RawType) (nesting : List (Int × Int)) (raw : RawType) : Prop :=
  IsTopLevel rows nesting raw ∧
    ∀ later, IsTopLevel rows nesting later → raw.index < later.index → later.key ≠ raw.key

theorem mem_grove_iff : (key, tree) ∈ grove rows nesting ↔
    ∃ root, IsKept rows nesting root ∧ key = root.key ∧
      tree = grow rows nesting (orderedRows rows).length root := by
  have listed : ∀ raw, raw ∈ (orderedRows rows).filter (fun raw =>
      (ownerOf (orderedRows rows) (enclosingOf nesting) raw).isNone && raw.name ≠ moduleType) ↔
      IsTopLevel rows nesting raw := by
    intro raw
    rw [List.mem_filter, mem_orderedRows_iff, Bool.and_eq_true, decide_eq_true_eq, IsTopLevel,
      ← and_assoc]
    refine and_congr_left fun _ =>
      ⟨fun h => (ownerOf_isNone_iff_standsFree h.1).mp h.2, fun h => ?_⟩
    exact ⟨h.1, (ownerOf_isNone_iff_standsFree h.1).mpr h⟩
  rw [grove, mem_assignAll_iff, isLast_map_iff (orderedRows_ascending.filter _) Int.lt_asymm]
  simp only [listed, Prod.mk.injEq]
  constructor
  · rintro ⟨root, top, ⟨rfl, rfl⟩, last⟩
    exact ⟨root, ⟨top, last⟩, rfl, rfl⟩
  · rintro ⟨root, kept, rfl, rfl⟩
    exact ⟨root, kept.1, ⟨rfl, rfl⟩, kept.2⟩

def placesOf (grove : List (String × RowTree)) : List Spot :=
  grove.reverse.flatMap fun entry => entry.2.spots []

def viewsOf (grove : List (String × RowTree)) : List TypeView :=
  grove.reverse.flatMap fun entry =>
    (entry.2.spots []).map (Spot.view (entry.2.record.view .metadata))

structure IsGrove (rows : List RawType) (nesting : List (Int × Int))
    (grove : List (String × RowTree)) : Prop where
  /-- No two trees have one key. -/
  keys : (grove.map Prod.fst).Nodup
  /-- A row has a place, in the tree of a key and inside certain rows, just if these are the rows
  around it and lead to an outermost row of that key that is kept. -/
  places : ∀ key raw outer,
    (∃ tree, (key, tree) ∈ grove ∧ ∃ s ∈ tree.spots [], s.row = raw ∧ s.outer = outer) ↔
      ∃ root, EndsAt rows nesting raw outer root ∧ IsKept rows nesting root ∧ key = root.key
  /-- No row has two places, in one tree or in two. -/
  once : ((placesOf grove).map Spot.row).Nodup
  /-- No row is inside itself, at any depth. -/
  acyclic : ∀ s ∈ placesOf grove, s.row ∉ s.outer
  /-- Rows directly inside one row are in the order of their indexes. -/
  ascending : ∀ s ∈ placesOf grove,
    (s.tree.nested.map RowTree.row).Pairwise fun first second => first.index < second.index

theorem IsKept.endsAt (h : IsKept rows nesting root) : EndsAt rows nesting root [] root :=
  .free h.1.1

theorem grove_keys : ((grove rows nesting).map Prod.fst).Nodup := assignAll_distinct _

theorem mem_placesOf_grove (held : s ∈ placesOf (grove rows nesting)) :
    ∃ root, IsKept rows nesting root ∧
      s ∈ spots [] (grow rows nesting (orderedRows rows).length root) := by
  obtain ⟨⟨key, tree⟩, among, inside⟩ := List.mem_flatMap.mp held
  obtain ⟨root, kept, -, rfl⟩ := mem_grove_iff.mp (List.mem_reverse.mp among)
  exact ⟨root, kept, inside⟩

theorem grow_nested_ascending (fuel : Nat) (raw : RawType) :
    ((grow rows nesting fuel raw).nested.map RowTree.row).Pairwise
      fun first second => first.index < second.index := by
  cases fuel with
  | zero => exact List.Pairwise.nil
  | succ fuel =>
    have rowsOnly :
        (grow rows nesting (fuel + 1) raw).nested.map RowTree.row = rowsIn rows nesting raw := by
      rw [grow, RowTree.nested, List.map_map]
      exact (List.map_congr_left fun r _ => grow_row fuel r).trans (List.map_id _)
    rw [rowsOnly]
    exact orderedRows_ascending.filter _

theorem grove_nodup : ((placesOf (grove rows nesting)).map Spot.row).Nodup := by
  rw [placesOf, List.map_flatMap, List.nodup_flatMap, List.pairwise_reverse]
  constructor
  · rintro ⟨key, tree⟩ among
    obtain ⟨root, kept, -, rfl⟩ := mem_grove_iff.mp (List.mem_reverse.mp among)
    exact spots_nodup kept.endsAt _
  · refine List.Pairwise.imp_of_mem ?_ (List.pairwise_map.mp grove_keys)
    rintro ⟨key, tree⟩ ⟨key', tree'⟩ among among' apart row held held'
    obtain ⟨root, kept, rfl, rfl⟩ := mem_grove_iff.mp among
    obtain ⟨root', kept', rfl, rfl⟩ := mem_grove_iff.mp among'
    obtain ⟨s, place, rfl⟩ := List.mem_map.mp held
    obtain ⟨s', place', same⟩ := List.mem_map.mp held'
    exact apart
      (congrArg RawType.key (spots_apart kept'.endsAt kept.endsAt place place' same.symm)).symm

theorem isGrove_grove (rows : List RawType) (nesting : List (Int × Int)) :
    IsGrove rows nesting (grove rows nesting) where
  keys := grove_keys
  places := by
    intro key raw outer
    constructor
    · rintro ⟨tree, among, s, place, rfl, rfl⟩
      obtain ⟨root, kept, rfl, rfl⟩ := mem_grove_iff.mp among
      exact ⟨root, (mem_spots_grow kept.endsAt place).1, kept, rfl⟩
    · rintro ⟨root, way, kept, rfl⟩
      have place := mem_spots_of_endsAt way way.depth_lt.le
      exact ⟨_, mem_grove_iff.mpr ⟨root, kept, rfl, rfl⟩, _, place, grow_row _ raw, rfl⟩
  once := grove_nodup
  acyclic := by
    intro s held
    obtain ⟨root, kept, place⟩ := mem_placesOf_grove held
    exact (mem_spots_grow kept.endsAt place).1.not_mem
  ascending := by
    intro s held
    obtain ⟨root, kept, place⟩ := mem_placesOf_grove held
    obtain ⟨fuel, shape⟩ := (mem_spots_grow kept.endsAt place).2.2
    rw [shape]
    exact grow_nested_ascending fuel s.row

theorem typesOf_grove (grove : List (String × RowTree)) :
    References.typesOf (grove.map (Prod.map id RowTree.record)) = viewsOf grove := by
  rw [References.typesOf, viewsOf, ← List.map_reverse, List.flatMap_map]
  exact List.flatMap_congr fun entry _ =>
    RowTree.everyView_record (entry.2.record.view .metadata) rfl entry.2

theorem length_viewsOf (grove : List (String × RowTree)) :
    (viewsOf grove).length = (placesOf grove).length := by
  simp only [viewsOf, placesOf, List.length_flatMap, List.length_map]

/-- Whatever the rows and pairs are, if the arities of the rows that count can be read, the records
are those of trees in which just the rows that a kept outermost row is reached from have places,
each one. The worklist over the records takes a step for each place, lists the types at the places
and ends. -/
theorem buildRecords_grove (rows : List RawType) (nesting : List (Int × Int))
    (readable : ∀ raw, Counts rows raw → ∃ parts, splitArity raw.name = .ok parts) :
    ∃ grove : List (String × RowTree), ∃ records,
      buildRecords rows nesting = .ok records ∧ records = grove.map (Prod.map id RowTree.record) ∧
      IsGrove rows nesting grove ∧ References.typesIn (.ok records) = .ok (viewsOf grove) ∧
      Worklist.next^[(placesOf grove).length] (Worklist.start records) = ⟨viewsOf grove, []⟩ := by
  have listed := typesOf_grove (grove rows nesting)
  rw [← forest_eq_grove] at listed
  refine ⟨grove rows nesting, forest rows nesting, buildRecords_eq_ok_iff.mpr ⟨readable, rfl⟩,
    forest_eq_grove, isGrove_grove rows nesting, ?_, ?_⟩
  · rw [References.typesIn_of_readable, listed]
    intro v held
    obtain ⟨key, record, among, inside⟩ := mem_typesOf.mp held
    obtain ⟨r, counted, head⟩ := head_of_inside among inside
    obtain ⟨parts, read⟩ := readable r (mem_orderedRows_iff.mp counted)
    rw [head, RawType.typeHead_nameError read]
  · rw [← length_viewsOf, ← listed]
    exact Worklist.next_typesOf _

/-- Tables that nobody checked: an index and a full name that come twice, two rows around each
other, a row around itself, a pair for a row that is not there, and pairs that are taken back. -/
def tangledRows : List RawType :=
  [{ index := 2, name := "Lid" }, { index := 1, name := "Box", space := "Store" },
    { index := 3, name := "Lock" }, { index := 3, name := "Key" }, { index := 4, name := "Hen" },
    { index := 5, name := "Egg" }, { index := 6, name := "Self" },
    { index := 7, name := "Box", space := "Store" }, { index := 8, name := moduleType }]

def tangledPairs : List (Int × Int) :=
  [(2, 1), (2, 7), (3, 2), (4, 5), (5, 4), (6, 6), (7, 99), (8, 2), (8, 99)]

def lastBox : RawType := { index := 7, name := "Box", space := "Store" }

theorem lastBox_kept : IsKept tangledRows tangledPairs lastBox := by
  refine ⟨⟨by decide, by decide⟩, fun later top after => ?_⟩
  have only : ∀ later ∈ tangledRows, lastBox.index < later.index → later.name = moduleType := by
    decide
  exact absurd (only later top.1.1.mem after) top.2

/-- The key, whose index was given to a lock before, is in the lid of the last box. -/
theorem key_in_last_box :
    (∀ raw, Counts tangledRows raw → ∃ parts, splitArity raw.name = .ok parts) ∧
      ∃ grove : List (String × RowTree), ∃ records,
        buildRecords tangledRows tangledPairs = .ok records ∧
        records = grove.map (Prod.map id RowTree.record) ∧
        ∃ tree, ("Store.Box", tree) ∈ grove ∧ ∃ s ∈ tree.spots [],
          s.row = { index := 3, name := "Key" } ∧
          s.outer = [lastBox, { index := 2, name := "Lid" }] := by
  have readable : ∀ raw, Counts tangledRows raw → ∃ parts, splitArity raw.name = .ok parts := by
    have each : ∀ raw ∈ tangledRows, splitArity raw.name = .ok (raw.name, 0) := by decide
    exact fun raw counted => ⟨_, each raw counted.mem⟩
  obtain ⟨grove, records, built, shape, holds, -⟩ :=
    buildRecords_grove tangledRows tangledPairs readable
  have lid :
      EndsAt tangledRows tangledPairs { index := 2, name := "Lid" } ([] ++ [lastBox]) lastBox :=
    .inside (by decide) lastBox_kept.endsAt
  have way : EndsAt tangledRows tangledPairs { index := 3, name := "Key" }
      ([lastBox] ++ [{ index := 2, name := "Lid" }]) lastBox := .inside (by decide) lid
  exact ⟨readable, grove, records, built, shape,
    (holds.places "Store.Box" _ _).mpr ⟨lastBox, way, lastBox_kept, rfl⟩⟩

end Metadata

end HiddenNames
