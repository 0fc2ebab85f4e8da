import HiddenNames.Proofs.Reflection.Flags

/-!
A running module and the tables of its file tell the same of a type. Its types mirror the rows when
each tells what its row says and has the types of the rows inside, in any order. Then both ways of
looking find every type by its full name, and the texts for what they find are the same.
-/

namespace HiddenNames

namespace Reflection

open Metadata

mutual

/-- The type tells what the row says, and the types inside of it tell what the rows inside say. The
namespace is that of the outermost type. -/
def ReflectedType.Mirrors (rows : List RawType) (nesting : List (Int × Int)) (space : String) :
    ReflectedType → RawType → Prop
  | .node info nested, raw =>
    info.Tells space raw ∧ ∃ listed : List RawType,
      listed.Perm (rowsInside rows nesting raw) ∧ EachMirrors rows nesting space nested listed

def EachMirrors (rows : List RawType) (nesting : List (Int × Int)) (space : String) :
    List ReflectedType → List RawType → Prop
  | [], [] => True
  | t :: rest, raw :: others =>
    t.Mirrors rows nesting space raw ∧ EachMirrors rows nesting space rest others
  | [], _ :: _ => False
  | _ :: _, [] => False

end

structure MirrorsAll (rows : List RawType) (nesting : List (Int × Int))
    (types : List ReflectedType) : Prop where
  sound : ∀ t ∈ types, ∃ raw, IsOutermost rows nesting raw ∧ t.Mirrors rows nesting raw.space raw
  complete : ∀ raw, IsOutermost rows nesting raw → raw.name ≠ moduleType →
    ∃ t ∈ types, t.Mirrors rows nesting raw.space raw

variable {rows : List RawType} {nesting : List (Int × Int)} {types : List ReflectedType}
  {place : Place} {raw : RawType} {t : ReflectedType} {space : String}

theorem ReflectedType.Mirrors.tells (h : t.Mirrors rows nesting space raw) :
    t.info.Tells space raw := by
  cases t
  exact h.1

/-! Records. -/

structure Agrees (rows : List RawType) (nesting : List (Int × Int)) (place : Place) (raw : RawType)
    (r : TypeRecord) : Prop where
  space : r.head.space? = namedSpace (some place.outermost.space)
  face : r.tree.head.face = raw.typeHead.face
  name : r.tree.head.metadataName = raw.name
  named : r.tree.head.nameError = none
  readable : r.tree.walkError = none
  settled : r.tree.settled .loaded = (placedView rows nesting place raw).tree.settled .metadata

/-- Records that agree with all rows inside a row make up one that agrees with the row. -/
theorem Agrees.node (h : Distinguished rows nesting) (lawful : raw.IsLawful)
    (here : Placed rows nesting place raw) {info : TypeInfo}
    (tells : info.Tells place.outermost.space raw) {listed : List RawType}
    (perm : listed.Perm (rowsInside rows nesting raw)) {records : List TypeRecord}
    (agree : List.Forall₂ (fun r inner => Agrees rows nesting (place.inside raw inner) inner r)
      records listed) :
    Agrees rows nesting place raw (.node (info.head raw.arity info.members) records) := by
  have spelled := h.spelled raw here.mem
  have face : (TypeRecord.node (info.head raw.arity info.members) records).tree.head.face =
      raw.typeHead.face := by
    rw [TypeRecord.tree_head]
    exact tells.face lawful info.members
  refine ⟨tells.space, face, ?_, ?_, ?_, ?_⟩
  · rw [← spelled.metadataName]
    exact TypeHead.congr_of_face (f := TypeHead.metadataName) (fun _ => rfl) face
  · rw [← spelled.nameError]
    exact TypeHead.congr_of_face (f := TypeHead.nameError) (fun _ => rfl) face
  · rw [TypeTree.walkError_eq_none_iff, TypeRecord.tree_nested, List.forall_mem_map]
    exact ((List.forall₂_and_left _ _).mp (agree.imp fun r _ agrees =>
      ⟨And.intro agrees.named fun _ => agrees.readable, agrees⟩)).1
  · obtain ⟨listed', perm', nested⟩ := placedView_nested h here
    have whole : (placedView rows nesting place raw).tree = .node raw.typeHead (listed'.map fun r =>
        (rowRecord rows nesting (rows.length - (place.outer ++ [raw]).length) r).tree) := by
      have head : (placedView rows nesting place raw).tree.head = raw.typeHead := rowTree_head _
      rw [← nested, ← head]
      exact (TypeTree.eta _).symm
    have settled : (records.map TypeRecord.tree).map (TypeTree.settled .loaded) =
        (listed.map fun r => (rowRecord rows nesting (rows.length - (place.outer ++ [raw]).length)
          r).tree).map (TypeTree.settled .metadata) := by
      rw [List.map_map, List.map_map, ← List.forall₂_eq_eq_eq, List.forall₂_map_left_iff,
        List.forall₂_map_right_iff]
      exact agree.imp fun _ _ => Agrees.settled
    have names : (records.map TypeRecord.tree).map (fun t => t.head.metadataName) =
        listed.map RawType.name := by
      rw [List.map_map, ← List.forall₂_eq_eq_eq, List.forall₂_map_left_iff,
        List.forall₂_map_right_iff]
      exact agree.imp fun _ _ => Agrees.name
    rw [TypeRecord.tree, TypeRecord.trees_eq, whole]
    refine TypeTree.settled_eq_of_perm (tells.settled lawful) ?_ ?_
    · rw [settled]
      exact ((perm.trans perm'.symm).map _).map _
    · rw [names]
      exact (perm.map _).nodup_iff.mpr (rowsInside_names h here)

mutual

theorem record_agrees (h : Distinguished rows nesting) (lawful : ∀ raw ∈ rows, raw.IsLawful)
    (t : ReflectedType) {place : Place} {raw : RawType} (here : Placed rows nesting place raw)
    (mirrors : t.Mirrors rows nesting place.outermost.space raw) :
    ∃ r, t.record = .ok r ∧ Agrees rows nesting place raw r := by
  match t, mirrors with
  | .node info nested, ⟨tells, listed, perm, each⟩ =>
    have inside : ∀ r ∈ listed, Placed rows nesting (place.inside raw r) r := by
      intro r among
      obtain ⟨held, pair⟩ := mem_rowsInside.mp (perm.mem_iff.mp among)
      exact .inside here held pair
    obtain ⟨records, told, agree⟩ := records_agree h lawful nested inside each
    obtain ⟨name, parts, _⟩ := (h.spelled raw here.mem).split
    rw [← tells.name] at parts
    refine ⟨.node (info.head raw.arity info.members) records, ?_, ?_⟩
    · rw [ReflectedType.record, parts, told]
    · exact .node h (lawful raw here.mem) here tells perm agree

theorem records_agree (h : Distinguished rows nesting) (lawful : ∀ raw ∈ rows, raw.IsLawful)
    (ts : List ReflectedType) {place : Place} {owner : RawType} {listed : List RawType}
    (inside : ∀ r ∈ listed, Placed rows nesting (place.inside owner r) r)
    (each : EachMirrors rows nesting place.outermost.space ts listed) :
    ∃ rs, records ts = .ok rs ∧
      List.Forall₂ (fun r raw => Agrees rows nesting (place.inside owner raw) raw r) rs listed := by
  match ts, listed, each with
  | [], [], _ => exact ⟨[], rfl, .nil⟩
  | t :: rest, raw :: others, ⟨first, later⟩ =>
    obtain ⟨own, behind⟩ := List.forall_mem_cons.mp inside
    obtain ⟨r, told, agrees⟩ := record_agrees h lawful t own first
    obtain ⟨rs, toldAll, agree⟩ := records_agree h lawful rest behind later
    refine ⟨r :: rs, ?_, .cons agrees agree⟩
    rw [records, told]
    simp only [toldAll]
    rfl

end

/-! Types under their full names. -/

structure Stands (rows : List RawType) (nesting : List (Int × Int)) (place : Place) (raw : RawType)
    (listed : Listed) : Prop where
  fullName : listed.fullName = place.fullName
  type : listed.type.Mirrors rows nesting place.outermost.space raw
  outer : List.Forall₂ (TypeInfo.Tells · place.outermost.space ·)
    listed.outer place.outer

theorem TypeInfo.Tells.outermostName {info : TypeInfo} (h : info.Tells raw.space raw) :
    info.outermostName = raw.key := by
  rw [TypeInfo.outermostName, RawType.key, qualified, qualified, h.space, h.name]

theorem EachMirrors.exists_of_mem {ts : List ReflectedType} {listed : List RawType}
    (h : EachMirrors rows nesting space ts listed) (among : raw ∈ listed) :
    ∃ t ∈ ts, t.Mirrors rows nesting space raw := by
  induction ts generalizing listed with
  | nil =>
    cases listed with
    | nil => cases among
    | cons _ _ => exact absurd h id
  | cons t rest ih =>
    cases listed with
    | nil => cases among
    | cons first others =>
      rcases List.mem_cons.mp among with rfl | later
      · exact ⟨t, List.mem_cons_self, h.1⟩
      · obtain ⟨u, held, mirrors⟩ := ih h.2 later
        exact ⟨u, List.mem_cons_of_mem _ held, mirrors⟩

mutual

theorem listing_stands (t : ReflectedType) {outer : List TypeInfo} {place : Place} {raw : RawType}
    (here : Placed rows nesting place raw)
    (mirrors : t.Mirrors rows nesting place.outermost.space raw)
    (around : List.Forall₂ (TypeInfo.Tells · place.outermost.space ·)
      outer place.outer) {listed : Listed} (held : listed ∈ listing outer place.fullName t) :
    ∃ place' raw', Placed rows nesting place' raw' ∧ Stands rows nesting place' raw' listed := by
  match t, mirrors with
  | .node info nested, mirrors =>
    rw [listing] at held
    rcases List.mem_cons.mp held with rfl | below
    · exact ⟨place, raw, here, rfl, mirrors, around⟩
    · obtain ⟨tells, inside, perm, each⟩ := mirrors
      have own : List.Forall₂ (TypeInfo.Tells · place.outermost.space ·)
          (outer ++ [info]) (place.outer ++ [raw]) :=
        List.rel_append around (.cons tells .nil)
      exact listings_stand nested here each
        (fun r among => mem_rowsInside.mp (perm.mem_iff.mp among)) own below

theorem listings_stand (ts : List ReflectedType) {outer : List TypeInfo} {place : Place}
    {owner : RawType} {inside : List RawType} (here : Placed rows nesting place owner)
    (each : EachMirrors rows nesting place.outermost.space ts inside)
    (rowsOf : ∀ r ∈ inside, r ∈ rows ∧ (r.index, owner.index) ∈ nesting)
    (around : List.Forall₂ (TypeInfo.Tells · place.outermost.space ·)
      outer (place.outer ++ [owner])) {listed : Listed}
    (held : listed ∈ listings outer place.fullName ts) :
    ∃ place' raw', Placed rows nesting place' raw' ∧ Stands rows nesting place' raw' listed := by
  match ts, inside, each with
  | [], [], _ => cases held
  | t :: rest, raw :: others, ⟨first, later⟩ =>
    rw [listings] at held
    obtain ⟨row, behind⟩ := List.forall_mem_cons.mp rowsOf
    rcases List.mem_append.mp held with own | further
    · rw [first.tells.name] at own
      exact listing_stands t (.inside here row.1 row.2) first around own
    · exact listings_stand rest here later behind around further

end

theorem mem_listings {ts : List ReflectedType} (held : t ∈ ts) (outer : List TypeInfo)
    (ownerName : String) :
    ⟨ownerName ++ "+" ++ t.info.name, outer, t⟩ ∈ listings outer ownerName ts := by
  induction ts with
  | nil => cases held
  | cons first rest ih =>
    rw [listings, List.mem_append]
    rcases List.mem_cons.mp held with rfl | later
    · left
      cases t
      exact List.mem_cons_self
    · exact Or.inr (ih later)

mutual

theorem listing_inside (t : ReflectedType) {outer : List TypeInfo} {name : String} {listed : Listed}
    (held : listed ∈ listing outer name t) {u : ReflectedType} (inner : u ∈ listed.type.nested) :
    ⟨listed.fullName ++ "+" ++ u.info.name, listed.outer ++ [listed.type.info], u⟩ ∈
      listing outer name t := by
  match t with
  | .node info nested =>
    rw [listing] at held ⊢
    rcases List.mem_cons.mp held with rfl | below
    · exact List.mem_cons_of_mem _ (mem_listings inner (outer ++ [info]) name)
    · exact List.mem_cons_of_mem _ (listings_inside nested below inner)

theorem listings_inside (ts : List ReflectedType) {outer : List TypeInfo} {ownerName : String}
    {listed : Listed} (held : listed ∈ listings outer ownerName ts) {u : ReflectedType}
    (inner : u ∈ listed.type.nested) :
    ⟨listed.fullName ++ "+" ++ u.info.name, listed.outer ++ [listed.type.info], u⟩ ∈
      listings outer ownerName ts := by
  match ts with
  | [] => cases held
  | t :: rest =>
    rw [listings] at held ⊢
    rcases List.mem_append.mp held with own | further
    · exact List.mem_append_left _ (listing_inside t own inner)
    · exact List.mem_append_right _ (listings_inside rest further inner)

end

theorem allTypes_stand (h : MirrorsAll rows nesting types) {listed : Listed}
    (held : listed ∈ allTypes types) :
    ∃ place raw, Placed rows nesting place raw ∧ Stands rows nesting place raw listed := by
  obtain ⟨t, among, below⟩ := List.mem_flatMap.mp held
  obtain ⟨raw, free, mirrors⟩ := h.sound t among
  rw [mirrors.tells.outermostName] at below
  have outermost : Placed rows nesting ⟨raw.key, raw, []⟩ raw := .outermost free
  exact listing_stands t outermost mirrors .nil below

theorem exists_stands (h : MirrorsAll rows nesting types) (here : Placed rows nesting place raw)
    (ordinary : place.outermost.name ≠ moduleType) :
    ∃ listed ∈ allTypes types, Stands rows nesting place raw listed := by
  induction here with
  | @outermost raw free =>
    obtain ⟨t, among, mirrors⟩ := h.complete raw free ordinary
    refine ⟨⟨raw.key, [], t⟩, List.mem_flatMap.mpr ⟨t, among, ?_⟩, rfl, mirrors, .nil⟩
    rw [mirrors.tells.outermostName]
    cases t
    exact List.mem_cons_self
  | @inside place owner raw around held pair ih =>
    obtain ⟨listed, among, stands⟩ := ih ordinary
    obtain ⟨t, top, below⟩ := List.mem_flatMap.mp among
    obtain ⟨fullName, outer, type⟩ := listed
    cases type with
    | node info nested =>
      obtain ⟨tells, inside, perm, each⟩ := stands.type
      obtain ⟨u, inner, mirrors⟩ :=
        each.exists_of_mem (perm.mem_iff.mpr (mem_rowsInside.mpr ⟨held, pair⟩))
      refine ⟨_, List.mem_flatMap.mpr ⟨t, top, listing_inside t below inner⟩, ?_, mirrors, ?_⟩
      · rw [mirrors.tells.name, stands.fullName]
        rfl
      · exact List.rel_append stands.outer (.cons tells .nil)

theorem find_stands (h : Distinguished rows nesting) (all : MirrorsAll rows nesting types)
    (here : Placed rows nesting place raw) (ordinary : place.outermost.name ≠ moduleType) :
    ∃ listed,
      (allTypes types).find? (fun listed => listed.fullName = place.fullName) = some listed ∧
      Stands rows nesting place raw listed := by
  obtain ⟨wanted, among, stands⟩ := exists_stands all here ordinary
  cases found : (allTypes types).find? fun listed => listed.fullName = place.fullName with
  | none => exact absurd (decide_eq_true stands.fullName) (List.find?_eq_none.mp found wanted among)
  | some listed =>
    obtain ⟨among', same⟩ := find?_key_some found
    obtain ⟨place', raw', there, other⟩ := allTypes_stand all among'
    obtain rfl := h.names there here (other.fullName.symm.trans same)
    obtain rfl := there.unique h here
    exact ⟨listed, rfl, other⟩

/-! The types around a type. -/

theorem shells_ok (h : Distinguished rows nesting) (lawful : ∀ raw ∈ rows, raw.IsLawful)
    {infos : List TypeInfo} {owners : List RawType}
    (tells : List.Forall₂ (TypeInfo.Tells · space ·) infos owners)
    (held : ∀ owner ∈ owners, owner ∈ rows) :
    ∃ heads, shells infos = .ok heads ∧
      heads.map (fun head => head.typeHead.face) = owners.map (fun owner => owner.typeHead.face) ∧
      ∀ head ∈ heads, head.space? = namedSpace (some space) := by
  induction tells with
  | nil => exact ⟨[], rfl, rfl, fun _ among => absurd among List.not_mem_nil⟩
  | @cons info owner infos owners first others ih =>
    obtain ⟨row, behind⟩ := List.forall_mem_cons.mp held
    obtain ⟨heads, told, faces, spaces⟩ := ih behind
    obtain ⟨name, parts, _⟩ := (h.spelled owner row).split
    rw [← first.name] at parts
    refine ⟨info.head owner.arity [] :: heads, ?_, ?_, ?_⟩
    · rw [shells, TypeInfo.shell, parts]
      simp only [Except.map, told]
    · rw [List.map_cons, List.map_cons, faces, first.face (lawful owner row) []]
    · exact List.forall_mem_cons.mpr ⟨first.space, spaces⟩

theorem Stands.describe {listed : Listed} (h : Distinguished rows nesting)
    (lawful : ∀ raw ∈ rows, raw.IsLawful) (here : Placed rows nesting place raw)
    (stands : Stands rows nesting place raw listed) :
    ∃ f, describe listed = .ok f ∧ f.view.tree.walkError = none ∧
      (placedView rows nesting place raw).ShowsSame f.view := by
  obtain ⟨r, told, agrees⟩ := record_agrees h lawful listed.type here stands.type
  have around : ∀ owner ∈ place.outer, owner ∈ rows := by
    intro owner among
    obtain ⟨_, placed, _⟩ := here.around owner among
    exact placed.mem
  obtain ⟨heads, toldAll, faces, spaces⟩ := shells_ok h lawful stands.outer around
  refine ⟨⟨heads, r⟩, ?_, agrees.readable, ?_, agrees.settled.symm⟩
  · rw [Reflection.describe, told]
    simp only [toldAll, Except.map]
  · have space : namedSpace (some place.outermost.space) = (Found.view ⟨heads, r⟩).space? := by
      cases heads with
      | nil => exact agrees.space.symm
      | cons head others => exact (spaces head List.mem_cons_self).symm
    have outer : (place.outer.map RawType.typeHead).map TypeHead.face =
        (heads.map RecordHead.typeHead).map TypeHead.face := by
      rw [List.map_map, List.map_map]
      exact faces.symm
    have head : (placedView rows nesting place raw).head.face = r.tree.head.face := by
      rw [agrees.face, TypeView.head, placedView, rowTree_head]
    rw [TypeView.bare, TypeView.bare, TypeView.mk.injEq]
    exact ⟨rfl, rfl, space, outer, congrArg (TypeTree.node · []) head⟩

/-- Every type of a module is found by its full name in the tables and in the running module, and
both lead to the same text. Only the types inside the one for all that belongs to no type are not
found in the tables. -/
theorem text_of_mirrored (h : Distinguished rows nesting) (lawful : ∀ raw ∈ rows, raw.IsLawful)
    (mirrors : MirrorsAll rows nesting types) (here : Placed rows nesting place raw)
    (ordinary : place.outermost.name ≠ moduleType) :
    ∃ records v f, buildRecords rows nesting = .ok records ∧
      Metadata.findType records place.fullName .metadata = .ok (some v) ∧
      Reflection.findType types place.fullName = .ok (some f) ∧
      v.tree.walkError = none ∧ f.view.tree.walkError = none ∧
      ∀ (file? module? : Option String) (access : Access) (exposure : Exposure)
        (identity? : Option String),
        Resolved.render ⟨.metadata, v, file?⟩ access exposure identity? =
          Resolved.render ⟨.loaded, f.view, module?⟩ access exposure identity? := by
  obtain ⟨listed, found, stands⟩ := find_stands h mirrors here ordinary
  obtain ⟨f, described, readable, same⟩ := stands.describe h lawful here
  refine ⟨forest rows nesting, placedView rows nesting place raw, f, buildRecords_ok h,
    findType_placed h here ordinary, ?_, rowTree_walkError h here.mem _, readable, ?_⟩
  · rw [Reflection.findType, found]
    simp only [described, Except.map]
  · intro file? module? access exposure identity?
    exact Resolved.render_congr same access exposure identity?

/-! A generic class with a structure inside of it. -/

def moduleRow : RawType := { index := 1, name := moduleType }

def boxRow : RawType where
  index := 2
  name := "Box\x601"
  space := "Store"
  flags := 0x100001
  extends? := some "System.Object"
  fields := [⟨"count", 1⟩]
  methods := [⟨".ctor", 0x1886⟩, ⟨"get_Size", 0x883⟩, ⟨"Fill", 0x86⟩]
  properties := [⟨"Size", [0x883]⟩]

def lidRow : RawType where
  index := 3
  name := "Lid"
  flags := 0x100103
  extends? := some "System.ValueType"
  fields := [⟨"hinge", 1⟩]

def storeRows : List RawType := [moduleRow, boxRow, lidRow]

def storeTypes : List ReflectedType :=
  [.node
    { name := "Box\x601", space? := some "Store", traits := { isPublic := true },
      fields := [⟨"count", {}⟩],
      properties := [⟨"Size", [some ⟨"get_Size", memberTraits 0x883⟩, none]⟩],
      methods := [⟨"Fill", memberTraits 0x86⟩, ⟨"get_Size", memberTraits 0x883⟩] }
    [.node
      { name := "Lid", space? := some "Store",
        traits := { isNestedPrivate := true, isValueType := true }, fields := [⟨"hinge", {}⟩] } []]]

def storePlaces : List (Place × RawType) :=
  [(⟨"<Module>", moduleRow, []⟩, moduleRow), (⟨"Store.Box\x601", boxRow, []⟩, boxRow),
    (⟨"Store.Box\x601+Lid", boxRow, [boxRow]⟩, lidRow)]

theorem store_placed {place : Place} {raw : RawType} (here : Placed storeRows [(3, 2)] place raw) :
    (place, raw) ∈ storePlaces := by
  induction here with
  | outermost free =>
    have known : ∀ raw ∈ storeRows, (∀ owner ∈ storeRows, (raw.index, owner.index) ∉ [(3, 2)]) →
        (Place.mk raw.key raw [], raw) ∈ storePlaces := by decide
    exact known _ free.1 free.2
  | inside _ held pair ih =>
    have known : ∀ around ∈ storePlaces, ∀ raw ∈ storeRows,
        (raw.index, around.2.index) ∈ [((3, 2) : Int × Int)] →
          (around.1.inside around.2 raw, raw) ∈ storePlaces := by decide
    exact known _ ih _ held pair

theorem store_distinguished : Distinguished storeRows [(3, 2)] where
  indexes := by decide
  owners := by
    intro index first second held among
    rw [List.mem_singleton] at held among
    exact congrArg Prod.snd (held.trans among.symm)
  spelled := by
    have known : ∀ raw ∈ storeRows, '+' ∉ raw.name.toList ∧ '+' ∉ raw.space.toList ∧
      (splitArity raw.name).map (fun read => withArity read.1 read.2) = .ok raw.name := by decide
    exact fun raw held => ⟨(known raw held).1, (known raw held).2.1, (known raw held).2.2⟩
  names := by
    have known : ∀ a ∈ storePlaces, ∀ b ∈ storePlaces, a.1.fullName = b.1.fullName → a.2 = b.2 := by
      decide
    intro place place' raw raw' here there
    exact known _ (store_placed here) _ (store_placed there)

theorem store_lawful : ∀ raw ∈ storeRows, raw.IsLawful := by
  have known : ∀ raw ∈ storeRows,
      (∀ m ∈ raw.methods, m.isConstructor = true → isSpecialName m.flags = true) ∧
        (raw.space = "System" → raw.name = "Enum" → raw.extends? ≠ some "System.Enum") := by decide
  exact fun raw held => ⟨(known raw held).1, (known raw held).2⟩

theorem box_outermost : IsOutermost storeRows [(3, 2)] boxRow := by
  unfold IsOutermost
  decide

theorem store_mirrors : MirrorsAll storeRows [(3, 2)] storeTypes := by
  have box : ∀ t ∈ storeTypes, t.Mirrors storeRows [(3, 2)] "Store" boxRow := by
    intro t among
    rw [List.mem_singleton.mp among]
    refine And.intro ⟨rfl, rfl, rfl, .refl _, by decide, .refl _, .refl _⟩ ⟨[lidRow], .refl _, ?_⟩
    refine And.intro (And.intro ⟨rfl, rfl, rfl, .refl _, .refl _, .refl _, .refl _⟩ ?_) trivial
    exact ⟨[], .refl _, trivial⟩
  refine ⟨fun t among => ⟨boxRow, box_outermost, box t among⟩, ?_⟩
  intro raw outermost ordinary
  have only : ∀ raw ∈ storeRows, (∀ owner ∈ storeRows, (raw.index, owner.index) ∉ [(3, 2)]) →
      raw.name ≠ moduleType → raw = boxRow := by decide
  rw [only raw outermost.1 outermost.2 ordinary]
  exact ⟨_, List.mem_singleton.mpr rfl, box _ (List.mem_singleton.mpr rfl)⟩

theorem lid_text :
    ∃ records v f, buildRecords storeRows [(3, 2)] = .ok records ∧
      Metadata.findType records "Store.Box\x601+Lid" .metadata = .ok (some v) ∧
      Reflection.findType storeTypes "Store.Box\x601+Lid" = .ok (some f) ∧
      v.tree.walkError = none ∧ f.view.tree.walkError = none ∧
      ∀ (file? module? : Option String) (access : Access) (exposure : Exposure)
        (identity? : Option String),
        Resolved.render ⟨.metadata, v, file?⟩ access exposure identity? =
          Resolved.render ⟨.loaded, f.view, module?⟩ access exposure identity? := by
  have lid :
      Placed storeRows [(3, 2)] (Place.inside ⟨boxRow.key, boxRow, []⟩ boxRow lidRow) lidRow :=
    .inside (.outermost box_outermost) (by decide) (by decide)
  have name : (Place.inside ⟨boxRow.key, boxRow, []⟩ boxRow lidRow).fullName =
      "Store.Box\x601+Lid" := by decide
  have agree := text_of_mirrored store_distinguished store_lawful store_mirrors lid (by decide)
  rw [name] at agree
  exact agree

end Reflection

end HiddenNames
