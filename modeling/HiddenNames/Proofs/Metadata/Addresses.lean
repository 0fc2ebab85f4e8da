import HiddenNames.Proofs.Metadata.Enclosing
import HiddenNames.Proofs.Metadata.Listed
import HiddenNames.Proofs.Types.Arity

/-!
Full names as addresses. A row's name is taken apart into a simple name and an arity, its type
invents parameters for the arity, and the full name is spelled from their count. Where compilers
wrote the names of the rows, looking up what is spelled leads back to the type, in every tier.
-/

namespace HiddenNames

namespace TypeView

variable {base v : TypeView}

/-- What is inside the view of a record with distinct siblings is the view of such a record. -/
theorem Inside.record (h : Inside base v) {r : TypeRecord} (shape : base.tree = r.tree)
    (distinct : r.SiblingsDistinct) : ∃ r : TypeRecord, v.tree = r.tree ∧ r.SiblingsDistinct := by
  induction h with
  | self => exact ⟨r, shape, distinct⟩
  | nested _ among ih =>
    obtain ⟨owner, above, names⟩ := ih
    obtain ⟨t, inner, rfl⟩ := List.mem_map.mp among
    rw [above, TypeRecord.tree_nested] at inner
    obtain ⟨r, held, rfl⟩ := List.mem_map.mp inner
    exact ⟨r, rfl, names.nested.2.mem held⟩

theorem nested_injective {r : TypeRecord} (shape : v.tree = r.tree) (distinct : r.SiblingsDistinct)
    {n n' : TypeView} (first : n ∈ v.nested) (second : n' ∈ v.nested)
    (named : n.head.metadataName = n'.head.metadataName) : n = n' := by
  have names : (v.nested.map fun n => n.head.metadataName).Nodup := by
    rw [nested, shape, TypeRecord.tree_nested, List.map_map, List.map_map]
    have spelled : ((fun n : TypeView => n.head.metadataName) ∘ v.child) ∘ TypeRecord.tree =
        TypeRecord.metadataName :=
      funext fun r => congrArg TypeHead.metadataName r.tree_head
    exact spelled ▸ distinct.nested.1
  exact List.inj_on_of_nodup_map names first second named

end TypeView

namespace Metadata

/-- The names of a row have no sign that leads into a type, and its arity is written as compilers
write it. -/
structure RawType.IsPlain (raw : RawType) : Prop where
  name : '+' ∉ raw.name.toList
  space : '+' ∉ raw.space.toList
  arity : HasCanonicalArity raw.name

def IsListedIn (records : Records) (tier : Tier) (v : TypeView) : Prop :=
  ∃ key record, (key, record) ∈ records ∧ TypeView.Inside (record.view tier) v

variable {rows : List RawType} {nesting : List (Int × Int)} {records : Records} {raw : RawType}
  {key : String} {record : TypeRecord} {tier : Tier} {v : TypeView}

theorem RawType.isSpelled_iff :
    raw.IsSpelled ↔ raw.IsPlain ∧ ∃ parts, splitArity raw.name = .ok parts := by
  constructor
  · intro h
    obtain ⟨simple, read, whole⟩ := h.split
    exact ⟨⟨h.name, h.space, (withArity_splitArity_iff read).mp whole⟩, _, read⟩
  · rintro ⟨plain, parts, read⟩
    refine ⟨plain.name, plain.space, ?_⟩
    rw [read]
    exact congrArg Except.ok ((withArity_splitArity_iff read).mpr plain.arity)

structure IsAddressed (rows : List RawType) (nesting : List (Int × Int)) (records : Records) :
    Prop where
  built : buildRecords rows nesting = .ok records
  plain : ∀ raw ∈ rows, raw.IsPlain
  siblings : ∀ entry ∈ records, entry.2.SiblingsDistinct

namespace IsAddressed

theorem spelled (h : IsAddressed rows nesting records) (held : raw ∈ orderedRows rows) :
    raw.IsSpelled :=
  RawType.isSpelled_iff.mpr
    ⟨h.plain raw (mem_of_mem_orderedRows held),
      (buildRecords_eq_ok_iff.mp h.built).1 raw (mem_orderedRows_iff.mp held)⟩

theorem mem_forest (h : IsAddressed rows nesting records) (among : (key, record) ∈ records) :
    (key, record) ∈ forest rows nesting :=
  (buildRecords_eq_ok_iff.mp h.built).2 ▸ among

theorem keys (h : IsAddressed rows nesting records) : (records.map Prod.fst).Nodup := by
  rw [(buildRecords_eq_ok_iff.mp h.built).2]
  exact assignAll_distinct _

theorem named (h : IsAddressed rows nesting records) (among : (key, record) ∈ records)
    (tier : Tier) : (record.view tier).fullName = key ∧ '+' ∉ key.toList := by
  obtain ⟨raw, held, rfl, fuel, rfl⟩ := Metadata.mem_forest (h.mem_forest among)
  exact ⟨recordView_fullName (h.spelled held) fuel tier, (h.spelled held).key⟩

theorem plainName (h : IsAddressed rows nesting records) (among : (key, record) ∈ records)
    (inside : TypeView.Inside (record.view tier) v) : '+' ∉ v.head.metadataName.toList := by
  obtain ⟨r, held, head⟩ := head_of_inside (h.mem_forest among) inside
  rw [head, (h.spelled held).metadataName]
  exact (h.spelled held).name

theorem nameError (h : IsAddressed rows nesting records) (among : (key, record) ∈ records)
    (inside : TypeView.Inside (record.view tier) v) : v.head.nameError = none := by
  obtain ⟨r, held, head⟩ := head_of_inside (h.mem_forest among) inside
  rw [head]
  exact (h.spelled held).nameError

theorem nestedError (h : IsAddressed rows nesting records) (listed : IsListedIn records tier v) :
    v.nestedError = none := by
  obtain ⟨key, record, among, inside⟩ := listed
  rw [TypeView.nestedError, List.findSome?_eq_none_iff]
  intro t inner
  exact h.nameError among (inside.nested (List.mem_map_of_mem (f := v.child) inner))

theorem view (h : IsAddressed rows nesting records) (among : (key, record) ∈ records)
    (tier : Tier) : record.view? tier = .ok (record.view tier) := by
  have own : record.tree.head.nameError = none :=
    h.nameError among (.self : TypeView.Inside (record.view tier) _)
  rw [TypeRecord.view?, own]

/-- The pieces of a full name lead from the record of the first piece down to the type. -/
theorem descent (h : IsAddressed rows nesting records) (among : (key, record) ∈ records)
    (inside : TypeView.Inside (record.view tier) v) :
    ∃ names, Text.split '+' v.fullName = key :: names ∧
      (record.view tier).descend names = some v := by
  have apart : ∀ w, TypeView.Inside (record.view tier) w → ∀ n ∈ w.nested, ∀ n' ∈ w.nested,
      n.head.metadataName = n'.head.metadataName → n = n' := by
    intro w below n first n' second named
    obtain ⟨r, shape, distinct⟩ := below.record rfl (h.siblings _ among)
    exact TypeView.nested_injective shape distinct first second named
  obtain ⟨names, cut, found⟩ := inside.descent apart fun w below => h.plainName among below
  obtain ⟨own, whole⟩ := h.named among tier
  rw [own, Text.split_of_not_mem whole] at cut
  exact ⟨names, cut, found⟩

theorem findType_eq (h : IsAddressed rows nesting records) {fullName outer : String}
    {nested : List String} (cut : Text.split '+' fullName = outer :: nested) (tier : Tier) :
    findType records fullName tier =
      .ok ((records.lookup outer).bind fun record => (record.view tier).descend nested) := by
  rw [findType, cut]
  cases first : records.lookup outer with
  | none => simp only [first, Option.bind_none]
  | some record =>
    have among := mem_of_lookup first
    have readable : (record.view tier).descentError nested = none :=
      TypeView.descentError_of_readable fun w below => h.nameError among below
    simp only [first, h.view among, TypeView.findNested, readable, Option.bind_some]

theorem findType_some_iff (h : IsAddressed rows nesting records) (fullName : String) :
    findType records fullName tier = .ok (some v) ↔
      IsListedIn records tier v ∧ v.fullName = fullName := by
  obtain ⟨outer, nested, cut⟩ := List.exists_cons_of_ne_nil (Text.split_ne_nil '+' fullName)
  rw [h.findType_eq cut, Except.ok.injEq, Option.bind_eq_some_iff]
  constructor
  · rintro ⟨record, first, way⟩
    have among := mem_of_lookup first
    obtain ⟨inside, spelled⟩ := TypeView.inside_of_descend way
    refine ⟨⟨outer, record, among, inside⟩, ?_⟩
    rw [spelled, (h.named among tier).1, ← cut]
    exact Text.intercalate_split '+' fullName
  · rintro ⟨⟨key, record, among, inside⟩, rfl⟩
    obtain ⟨names, pieces, way⟩ := h.descent among inside
    obtain ⟨rfl, rfl⟩ := List.cons.inj (cut.symm.trans pieces)
    exact ⟨record, (lookup_iff_mem h.keys).mpr among, way⟩

end IsAddressed

/-- Where compilers wrote the names of the rows, which then are the metadata names, and siblings
have distinct ones, the types of a module can all be looked at, looking up the full name of one
finds that type with all that is around and inside it, and looking up any text finds a type of that
full name or, without failing, none. -/
theorem fullNames_address (built : buildRecords rows nesting = .ok records)
    (plain : ∀ raw ∈ rows, raw.IsPlain) (siblings : ∀ entry ∈ records, entry.2.SiblingsDistinct)
    (tier : Tier) :
    (∀ entry ∈ records, entry.2.view? tier = .ok (entry.2.view tier)) ∧
      (∀ v, IsListedIn records tier v →
        v.nestedError = none ∧ findType records v.fullName tier = .ok (some v)) ∧
      ∀ fullName, ∃ found?, findType records fullName tier = .ok found? ∧
        ∀ v ∈ found?, IsListedIn records tier v ∧ v.fullName = fullName := by
  have h : IsAddressed rows nesting records := ⟨built, plain, siblings⟩
  refine ⟨fun entry among => h.view among tier, fun v listed => ?_, fun fullName => ?_⟩
  · exact ⟨h.nestedError listed, (h.findType_some_iff _).mpr ⟨listed, rfl⟩⟩
  · obtain ⟨outer, nested, cut⟩ := List.exists_cons_of_ne_nil (Text.split_ne_nil '+' fullName)
    refine ⟨_, h.findType_eq cut tier, fun v found => ?_⟩
    exact (h.findType_some_iff fullName).mp
      ((h.findType_eq cut tier).trans (congrArg Except.ok found))

/-- A type in a type in a type, whose names have an arity of one digit, one of two and none. -/
def keyRows : List RawType :=
  [{ index := 1, name := "Box\x601", space := "Store" }, { index := 2, name := "Lid\x6012" },
    { index := 3, name := "Key\x60x" }]

def keyRecord : TypeRecord :=
  .node { name := "Box\x601", space? := some "Store", visibility := .internal, parameters := ["T"] }
    [.node { name := "Lid\x6012", visibility := .internal,
             parameters := TypeRecord.parameterNames 12 }
      [.node { name := "Key\x60x", visibility := .internal } []]]

theorem key_addressed :
    buildRecords keyRows [(2, 1), (3, 2)] = .ok [("Store.Box\x601", keyRecord)] ∧
      (∀ raw ∈ keyRows, raw.IsPlain) ∧ keyRecord.SiblingsDistinct ∧
      ∃ v, findType [("Store.Box\x601", keyRecord)] "Store.Box\x601+Lid\x6012+Key\x60x" .loaded =
          .ok (some v) ∧
        v.chain.map (fun head => (head.name, head.arity)) =
          [("Box", 1), ("Lid", 12), ("Key\x60x", 0)] := by
  have ordered : orderedRows keyRows = keyRows := List.mergeSort_of_pairwise (by decide)
  have built : buildRecords keyRows [(2, 1), (3, 2)] = .ok [("Store.Box\x601", keyRecord)] := by
    rw [buildRecords, forest, ordered]
    rfl
  have plain : ∀ raw ∈ keyRows, raw.IsPlain := by
    have spelled : ∀ raw ∈ keyRows, '+' ∉ raw.name.toList ∧ '+' ∉ raw.space.toList ∧
      (splitArity raw.name).map (fun read => withArity read.1 read.2) = .ok raw.name := by decide
    intro raw held
    obtain ⟨name, space, arity⟩ := spelled raw held
    exact (RawType.isSpelled_iff.mp ⟨name, space, arity⟩).1
  have siblings : keyRecord.SiblingsDistinct := by
    have single : ∀ name : String, [name].Nodup := List.nodup_singleton
    exact And.intro (single _) ⟨And.intro (single _) ⟨And.intro List.nodup_nil trivial, trivial⟩,
      trivial⟩
  have listed := List.forall_mem_singleton (p := fun entry : String × TypeRecord =>
    entry.2.SiblingsDistinct) (a := ("Store.Box\x601", keyRecord)) |>.mpr siblings
  refine ⟨built, plain, siblings, ?_⟩
  obtain ⟨v, way⟩ : ∃ v, (keyRecord.view .loaded).descend ["Lid\x6012", "Key\x60x"] = some v :=
    ⟨_, rfl⟩
  have inside := (TypeView.inside_of_descend way).1
  have found := ((fullNames_address built plain listed .loaded).2.1 v
    ⟨_, keyRecord, List.mem_singleton.mpr rfl, inside⟩).2
  obtain rfl := Option.some.inj way
  exact ⟨_, found, by decide⟩

end Metadata

end HiddenNames
