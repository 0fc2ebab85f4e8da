import HiddenNames.Proofs.Metadata.Listed
import HiddenNames.Proofs.Resolution.History
import Mathlib.Data.List.Find

/-!
From a referenced type to its module and back. Binding goes through the references and keeps of the
one that has the type no more than its simple name; the metadata tier goes back from that name to
the first reference of the name. The type is found again exactly if that reference lists it, as it
does when no two references have one simple name.
-/

namespace HiddenNames

namespace References

variable {disk : Disk} {decode : Decoder} {reader : Reader} {ref : TypeRef} {tails : List Place}
  {paths : List Path} {place : Place}

def Lists (disk : Disk) (decode : Decoder) (path : Path) (place : Place) : Prop :=
  ∃ records, Reader.content disk decode (disk.resolve path) = .ok records ∧
    ∃ v ∈ typesOf records, placeOf path v = place

theorem lists_of_typesIn {path : Path} {types : List TypeView} {v : TypeView}
    (typed : typesIn (Reader.content disk decode (disk.resolve path)) = .ok types)
    (held : v ∈ types) : Lists disk decode path (placeOf path v) := by
  unfold typesIn at typed
  split at typed
  · cases typed
  · obtain rfl := Except.ok.inj typed
    cases held
  · split at typed
    · cases typed
    · obtain rfl := Except.ok.inj typed
      exact ⟨_, ‹_›, v, held, rfl⟩

theorem search_lists (agrees : reader.Agrees disk decode)
    (found : (search disk decode ref reader tails paths).1 = .ok (some place)) :
    place ∈ tails ∨ ∃ path ∈ paths, Lists disk decode path place := by
  induction paths generalizing reader tails with
  | nil =>
    have only := Except.ok.inj found
    split at only
    · exact Or.inl (List.mem_singleton.mpr (Option.some.inj only).symm)
    · cases only
  | cons path rest ih =>
    simp only [search, Reader.read_answer agrees path] at found
    split at found
    · cases found
    · rename_i types typed
      split at found
      · rename_i v more others matched
        obtain rfl := Option.some.inj (Except.ok.inj found)
        have among : v ∈ (matchRef TypeView.path types ref).1 := by
          rw [matched]
          exact List.mem_cons_self
        have held := (List.mem_filter.mp among).1
        exact Or.inr ⟨path, List.mem_cons_self, lists_of_typesIn typed held⟩
      · rename_i partly matched
        rcases ih (Reader.read_agrees agrees path) found with tail | ⟨other, later, lists⟩
        · rcases List.mem_append.mp tail with earlier | here
          · exact Or.inl earlier
          · obtain ⟨v, among, rfl⟩ := List.mem_map.mp here
            have ends : v ∈ (matchRef TypeView.path types ref).2 := by
              rw [matched]
              exact among
            have held := (List.mem_filter.mp ends).1
            exact Or.inr ⟨path, List.mem_cons_self, lists_of_typesIn typed held⟩
        · exact Or.inr ⟨other, List.mem_cons_of_mem _ later, lists⟩

end References

namespace Resolver

variable {r : Resolver} {s : Session} {ref : TypeRef} {access : Option Access} {target : Target}
  {module : String}

/-- A reference to no type of the program is bound to a type that one of the references lists. -/
theorem bind_lists {paths : List Path} (given : r.references? = some paths) (agrees : s.Agrees r)
    (undeclared : r.program.find ref = none)
    (bound : (r.bind s (Request.direct ref access)).1 = .ok target)
    (known : target.module? = some module) :
    ∃ path ∈ paths,
      References.Lists r.world.disk r.world.decode path (module, target.fullName) := by
  have answer : (r.bind s (Request.direct ref access)).1 =
      (References.search r.world.disk r.world.decode ref s.reader [] paths).1.map
        (directTarget (Request.direct ref access) ref) := by
    simp only [bind, Request.direct, bindDirect, undeclared, findReferenced, given, References.find]
  rw [answer] at bound
  cases found : (References.search r.world.disk r.world.decode ref s.reader [] paths).1 with
  | error e =>
    rw [found] at bound
    cases bound
  | ok place? =>
    rw [found] at bound
    obtain rfl := Except.ok.inj bound
    cases place? with
    | none => cases known
    | some place =>
      obtain rfl := Option.some.inj known
      rcases References.search_lists agrees.reader found with tail | listed
      · cases tail
      · exact listed

/-- A module whose simple name is that of a reference is looked for in the first such reference. -/
theorem locate_reference {path : Path}
    (files : ∀ p ∈ r.locator.references, r.world.disk.isFile p = true)
    (first : r.locator.references.find? (fun p => p.stem = module) = some path) :
    (r.locate s module).1 = some path := by
  have both : r.locator.references.find? (fun p => p.stem = module && r.world.disk.isFile p) =
      some path := by
    rw [← first]
    refine List.find?_congr fun p held => ?_
    rw [files p held, Bool.and_true]
  simp only [locate, Locator.locate, both]

/-- The metadata tier answers from the list of types of the file that is located. -/
theorem metadata_answer {path : Path} {records : Metadata.Records} (agrees : s.Agrees r)
    (known : target.module? = some module) (located : (r.locate s module).1 = some path)
    (read : Reader.content r.world.disk r.world.decode (r.world.disk.resolve path) = .ok records)
    (listed : Metadata.IsListed records) :
    (r.tryTier s target .metadata).1 =
      .ok (((References.typesOf records).find? fun v => v.fullName = target.fullName).map fun v =>
        { tier := .metadata, view := v, module? := some module }) := by
  rcases locating : r.locate s module with ⟨file?, later⟩
  rw [locating] at located
  obtain rfl : file? = some path := located
  have kept : later.reader = s.reader := congrArg (fun answer => answer.2.reader) locating.symm
  have content : (later.reader.read r.world.disk r.world.decode path).1 = .ok records := by
    rw [kept, Reader.read_answer agrees.reader, read]
  simp only [tryTier, known, locating, content, Metadata.findType_eq_find listed]

structure HasReferences (r : Resolver) : Prop where
  shared : r.references? = some r.locator.references
  files : ∀ p ∈ r.locator.references, r.world.disk.isFile p = true
  listed : ∀ p ∈ r.locator.references, ∃ records,
    Reader.content r.world.disk r.world.decode (r.world.disk.resolve p) = .ok records ∧
      Metadata.IsListed records

def FirstLists (r : Resolver) (module fullName : String) : Prop :=
  ∃ path, r.locator.references.find? (fun p => p.stem = module) = some path ∧
    References.Lists r.world.disk r.world.decode path (module, fullName)

def Describes (r : Resolver) (s : Session) (target : Target) : Prop :=
  ∃ resolved, (r.tryTier s target .metadata).1 = .ok (some resolved) ∧
    resolved.view.fullName = target.fullName

theorem describes_iff (given : r.HasReferences) (agrees : s.Agrees r)
    (known : target.module? = some module) (named : ∃ p ∈ r.locator.references, p.stem = module) :
    r.Describes s target ↔ r.FirstLists module target.fullName := by
  obtain ⟨p, among, stem⟩ := named
  obtain ⟨path, first⟩ :
      ∃ path, r.locator.references.find? (fun p => p.stem = module) = some path :=
    Option.isSome_iff_exists.mp (List.find?_isSome.mpr ⟨p, among, decide_eq_true stem⟩)
  obtain ⟨listing, same⟩ := find?_key_some first
  obtain ⟨records, read, listed⟩ := given.listed path listing
  have answer := metadata_answer agrees known (locate_reference given.files first) read listed
  constructor
  · rintro ⟨resolved, found, spelled⟩
    rw [answer] at found
    obtain ⟨v, held, rfl⟩ := Option.map_eq_some_iff.mp (Except.ok.inj found)
    exact ⟨path, first, records, read, v, List.mem_of_find?_eq_some held, Prod.ext same spelled⟩
  · rintro ⟨path', first', records', read', v, held, place⟩
    obtain rfl := Option.some.inj (first.symm.trans first')
    obtain rfl := Except.ok.inj (read.symm.trans read')
    have spelled : v.fullName = target.fullName := congrArg Prod.snd place
    have found := (find?_key_iff listed.names).mpr ⟨held, spelled⟩
    refine ⟨{ tier := .metadata, view := v, module? := some module }, ?_, spelled⟩
    rw [answer, found]
    rfl

/-- What binding finds in the references, the metadata tier describes exactly if the first reference
of the module's simple name lists the type. It does so in particular if no two references have one
simple name. -/
theorem metadata_describes_iff {s' : Session} (given : r.HasReferences) (agrees : s.Agrees r)
    (agrees' : s'.Agrees r) (undeclared : r.program.find ref = none)
    (bound : (r.bind s (Request.direct ref access)).1 = .ok target)
    (known : target.module? = some module) :
    (r.Describes s' target ↔ r.FirstLists module target.fullName) ∧
      ((r.locator.references.map Path.stem).Nodup → r.Describes s' target) := by
  obtain ⟨path, among, lists⟩ := bind_lists given.shared agrees undeclared bound known
  have stem : path.stem = module := by
    obtain ⟨_, _, _, _, place⟩ := lists
    exact congrArg Prod.fst place
  have iff := describes_iff given agrees' known ⟨path, among, stem⟩
  refine ⟨iff, fun distinct => iff.mpr ⟨path, ?_, lists⟩⟩
  exact (find?_key_iff distinct).mpr ⟨among, stem⟩

/-! Two files. -/

/-- The rows of a module with one type, and of one with a type inside another. -/
def flatRows : List Metadata.RawType := [{ index := 1, name := "U", space := "N" }]

def deepRows : List Metadata.RawType :=
  [{ index := 1, name := "T", space := "N" }, { index := 2, name := "I" }]

def flatRecords : Metadata.Records :=
  [("N.U", .node { name := "U", space? := some "N", visibility := .internal } [])]

def deepRecords : Metadata.Records :=
  [("N.T", .node { name := "T", space? := some "N", visibility := .internal }
    [.node { name := "I", visibility := .internal } []])]

theorem flat_listed : Metadata.IsListed flatRecords := by
  have ordered : Metadata.orderedRows flatRows = flatRows := List.mergeSort_singleton _
  refine ⟨⟨flatRows, [], ?_, ?_⟩, ?_⟩
  · rw [Metadata.buildRecords, Metadata.forest, ordered]
    rfl
  · intro raw among
    obtain rfl := List.mem_singleton.mp among
    exact ⟨by decide, by decide, by decide⟩
  · decide +kernel

theorem deep_listed : Metadata.IsListed deepRecords := by
  have ordered : Metadata.orderedRows deepRows = deepRows :=
    List.mergeSort_of_pairwise (by decide)
  refine ⟨⟨deepRows, [(2, 1)], ?_, ?_⟩, ?_⟩
  · rw [Metadata.buildRecords, Metadata.forest, ordered]
    rfl
  · intro raw among
    rcases List.mem_cons.mp among with rfl | inner
    · exact ⟨by decide, by decide, by decide⟩
    · obtain rfl := List.mem_singleton.mp inner
      exact ⟨by decide, by decide, by decide⟩
  · decide +kernel

def overFiles (name : String) : Resolver :=
  standard {}
    { disk :=
        { working := [],
          entries := .ofList [(["a"], .folder), (["a", "Lib.dll"], .file ByteArray.empty false),
            (["b"], .folder), (["b", name], .file ByteArray.empty false)] },
      decode := fun path _ =>
        .ok (if path.parts.head? = some "a" then flatRecords else deepRecords),
      modules := fun _ => none }
    { references := [⟨true, ["a", "Lib.dll"]⟩, ⟨true, ["b", name]⟩] }

theorem overFiles_references {name : String} (h : name = "Lib.dll" ∨ name = "More.dll") :
    (overFiles name).HasReferences := by
  refine ⟨rfl, ?_, ?_⟩
  · rcases h with rfl | rfl
    · decide +kernel
    · decide +kernel
  · intro p among
    rcases List.mem_cons.mp among with rfl | second
    · refine ⟨flatRecords, ?_, flat_listed⟩
      rcases h with rfl | rfl
      · rfl
      · rfl
    · obtain rfl := List.mem_singleton.mp second
      refine ⟨deepRecords, ?_, deep_listed⟩
      rcases h with rfl | rfl
      · rfl
      · rfl

def innerTarget (module : String) : Target :=
  { key := key module "N.T+I", request := Request.direct (.mk none [.mk "T" [], .mk "I" []]),
    fullName := "N.T+I", module? := some module }

theorem overFiles_describes : (overFiles "More.dll").HasReferences ∧
    (overFiles "More.dll").program.find (.mk none [.mk "T" [], .mk "I" []]) = none ∧
    ((overFiles "More.dll").bind {} (Request.direct (.mk none [.mk "T" [], .mk "I" []]))).1 =
      .ok (innerTarget "More") ∧
    (overFiles "More.dll").Describes {} (innerTarget "More") := by
  have given := overFiles_references (Or.inr rfl)
  have bound : ((overFiles "More.dll").bind {} (Request.direct
      (.mk none [.mk "T" [], .mk "I" []]))).1 = .ok (innerTarget "More") := rfl
  exact ⟨given, rfl, bound,
    (metadata_describes_iff given start_agrees start_agrees rfl bound rfl).2 (by decide)⟩

/-- A file in front that has the same simple name is taken for the module of the type. -/
theorem same_stem_hides_type : (overFiles "Lib.dll").HasReferences ∧
    (overFiles "Lib.dll").program.find (.mk none [.mk "T" [], .mk "I" []]) = none ∧
    ((overFiles "Lib.dll").bind {} (Request.direct (.mk none [.mk "T" [], .mk "I" []]))).1 =
      .ok (innerTarget "Lib") ∧
    ¬(overFiles "Lib.dll").Describes {} (innerTarget "Lib") := by
  have given := overFiles_references (Or.inl rfl)
  refine ⟨given, rfl, rfl, ?_⟩
  rintro ⟨resolved, found, _⟩
  have first : ((overFiles "Lib.dll").locate {} "Lib").1 = some ⟨true, ["a", "Lib.dll"]⟩ :=
    locate_reference given.files rfl
  rw [metadata_answer start_agrees rfl first rfl flat_listed] at found
  exact absurd found nofun

end Resolver

end HiddenNames
