import HiddenNames.Proofs.Resolution.Search
import HiddenNames.Proofs.Types.Listing

/-!
The answer of the search does not depend on the order in which files list their types. Records that
list the same at every level define the same types, whichever of the types inside a type comes
first, and what a reference names is told by the types that are defined.
-/

namespace HiddenNames

namespace TypeView

theorem bare_path (v : TypeView) : v.bare.path = v.path := by
  rw [path, path, v.bare_outline.chain_map fun _ => rfl]
  rfl

theorem bare_definition (v : TypeView) : v.bare.definition = v.definition := by
  rw [definition, definition, bare_path, v.bare_outline.fullName]

end TypeView

namespace TypeTree

theorem everyNested_perm (v : TypeView) (ts : List TypeTree) :
    (everyNested v ts).Perm (ts.flatMap (everyView v)) := by
  induction ts with
  | nil => exact List.Perm.nil
  | cons t rest ih =>
    rw [everyNested, List.flatMap_cons]
    exact (ih.append_right _).trans List.perm_append_comm

end TypeTree

namespace TypeRecord

open TypeTree (everyView everyNested everyNested_perm)

mutual

theorem Alike.everyView (r : TypeRecord) {r' : TypeRecord} (h : r.Alike r') {v w : TypeView}
    (place : { v with tree := r.tree }.bare = { w with tree := r'.tree }.bare) :
    ((TypeTree.everyView v r.tree).map TypeView.bare).Perm
      ((TypeTree.everyView w r'.tree).map TypeView.bare) := by
  match r, r', h with
  | .node head nested, .node head' nested', ⟨_, listed, perm, each⟩ =>
    rw [tree, tree] at place ⊢
    rw [TypeTree.everyView, TypeTree.everyView, List.map_cons, List.map_cons, place, trees_eq,
      trees_eq]
    refine List.Perm.cons _ (((everyNested_perm _ _).map _).trans ?_)
    refine List.Perm.trans ?_ ((everyNested_perm _ _).map _).symm
    refine (EachAlike.everyNested nested each ?_).trans
      (((perm.map tree).flatMap_right _).map _)
    rw [trees_eq, trees_eq] at place
    exact place

theorem EachAlike.everyNested (rs : List TypeRecord) {rs' : List TypeRecord} (h : EachAlike rs rs')
    {v w : TypeView} (outer : v.bare = w.bare) :
    (((rs.map tree).flatMap (TypeTree.everyView { v with outer := v.chain })).map
      TypeView.bare).Perm
      (((rs'.map tree).flatMap (TypeTree.everyView { w with outer := w.chain })).map
        TypeView.bare) := by
  match rs, rs', h with
  | [], [], _ => exact List.Perm.nil
  | r :: rest, r' :: rest', ⟨first, others⟩ =>
    have face : r.tree.head.face = r'.tree.head.face := by
      rw [tree_head, tree_head, first.head.face]
    simp only [List.map_cons, List.flatMap_cons, List.map_append]
    exact (Alike.everyView r first (TypeView.bare_child outer face)).append
      (EachAlike.everyNested rest others outer)

end

end TypeRecord

/-- Two lists of records are the same up to order at every level, and up to the order and repetition
of members. -/
def Metadata.Relisted (records records' : Metadata.Records) : Prop :=
  ∃ listed, listed.Perm records' ∧
    List.Forall₂ (fun entry entry' => entry.1 = entry'.1 ∧ entry.2.Alike entry'.2) records listed

namespace References

theorem typesOf_perm (records : Metadata.Records) :
    (typesOf records).Perm
      (records.flatMap fun entry => TypeTree.everyView (entry.2.view .metadata) entry.2.tree) :=
  (List.reverse_perm records).flatMap_right _

theorem typesOf_relisted {records records' : Metadata.Records}
    (h : Metadata.Relisted records records') :
    ((typesOf records).map TypeView.bare).Perm ((typesOf records').map TypeView.bare) := by
  obtain ⟨listed, perm, each⟩ := h
  refine ((typesOf_perm records).map _).trans
    (List.Perm.trans ?_ ((typesOf_perm records').map _).symm)
  refine List.Perm.trans ?_ ((perm.flatMap_right _).map _)
  clear perm
  induction each with
  | nil => exact List.Perm.nil
  | cons first _ ih =>
    simp only [List.flatMap_cons, List.map_append]
    exact (TypeRecord.Alike.everyView _ first.2 first.2.view_bare).append ih

/-- What is read off the bare views of the types is the same, in some order. -/
theorem typesOf_map_relisted {α : Type} {records records' : Metadata.Records} {f : TypeView → α}
    (h : Metadata.Relisted records records') (reads : ∀ v, f v.bare = f v) :
    ((typesOf records).map f).Perm ((typesOf records').map f) := by
  have through : f ∘ TypeView.bare = f := funext reads
  rw [← through, ← List.map_map, ← List.map_map]
  exact (typesOf_relisted h).map f

/-- What a file holds and what it holds in another order, or the one reason for which it holds
nothing. -/
inductive SameContent :
    Except ReadError Metadata.Records → Except ReadError Metadata.Records → Prop where
  | failed (e : ReadError) : SameContent (.error e) (.error e)
  | read {records records' : Metadata.Records} (relisted : Metadata.Relisted records records') :
      SameContent (.ok records) (.ok records')

variable {disk disk' : Disk} {decode decode' : Decoder} {path : Path}

theorem SameContent.isSound
    (h : SameContent (contentAt disk decode path) (contentAt disk' decode' path))
    (sound : IsSound disk decode path) : IsSound disk' decode' path := by
  obtain ⟨skipped, readable, distinct⟩ := sound
  rw [IsReadable] at readable
  generalize contentAt disk decode path = here at h skipped readable distinct
  generalize there : contentAt disk' decode' path = content at h
  cases h with
  | failed e =>
    refine ⟨fun e' failed => ?_, fun records read => ?_, fun records read => ?_⟩
    · exact skipped e' (there.symm.trans failed)
    · cases there.symm.trans read
    · cases there.symm.trans read
  | @read records records' relisted =>
    have errors := typesOf_map_relisted (f := fun v => v.head.nameError) relisted fun _ => rfl
    have paths := typesOf_map_relisted relisted TypeView.bare_path
    refine ⟨fun e failed => ?_, fun records read => ?_, fun records read => ?_⟩
    · cases there.symm.trans failed
    · obtain rfl := Except.ok.inj (there.symm.trans read)
      have none : ∀ error ∈ (typesOf records).map fun v => v.head.nameError, error = none :=
        List.forall_mem_map.mpr (readable records rfl)
      exact List.forall_mem_map.mp fun error among => none error (errors.mem_iff.mpr among)
    · obtain rfl := Except.ok.inj (there.symm.trans read)
      exact paths.nodup_iff.mp (distinct _ rfl)

theorem SameContent.defines_iff
    (h : SameContent (contentAt disk decode path) (contentAt disk' decode' path)) {d : Definition} :
    Defines disk decode path d ↔ Defines disk' decode' path d := by
  rw [Defines, Defines]
  generalize contentAt disk decode path = here at h
  generalize contentAt disk' decode' path = there at h
  cases h with
  | failed e => exact Iff.rfl
  | read relisted =>
    have same := (typesOf_map_relisted relisted TypeView.bare_definition).mem_iff (a := d)
    rw [List.mem_map, List.mem_map] at same
    simpa only [Except.ok.injEq, exists_eq_left'] using same

/-- What a reference names is told by the types that the references define. -/
theorem Answers.congr {defines defines' : Path → Definition → Prop} {ref : TypeRef}
    {paths : List Path} {place : Place} (same : ∀ q ∈ paths, ∀ d, defines q d ↔ defines' q d)
    (h : Answers defines ref paths place) : Answers defines' ref paths place := by
  cases h with
  | @full before rest path d order earlier held named =>
    obtain ⟨here, others⟩ := mem_of_parts order
    refine .full order (fun q first other has => ?_) ((same path here d).mp held) named
    exact earlier q first other ((same q (others q (List.mem_append_left _ first)) other).mpr has)
  | @tail before rest path d order absent held ends alone nowhere =>
    obtain ⟨here, others⟩ := mem_of_parts order
    refine .tail order (fun q among other has => ?_) ((same path here d).mp held) ends
      (fun other has => alone other ((same path here other).mpr has)) fun q among other has => ?_
    · exact absent q among other ((same q among other).mpr has)
    · exact nowhere q among other ((same q (others q among) other).mpr has)

/-- What the search finds is told by the sets of types that the references define, and the order in
which files list their types has no part in it. -/
theorem find_told_by_types {reader : Reader} {paths : List Path}
    (agrees : reader.Agrees disk decode)
    (sound : ∀ path ∈ paths, IsSound disk decode path) (ref : TypeRef) :
    (∃ place?, (find disk decode paths reader ref).1 = .ok place? ∧
      ∀ place, place? = some place ↔ Answers (Defines disk decode) ref paths place) ∧
    ∀ disk' decode' (reader' : Reader), reader'.Agrees disk' decode' →
      (∀ path ∈ paths, SameContent (contentAt disk decode path) (contentAt disk' decode' path)) →
      (find disk' decode' paths reader' ref).1 = (find disk decode paths reader ref).1 := by
  refine ⟨find_answers agrees sound ref, fun disk' decode' reader' agrees' same => ?_⟩
  obtain ⟨place?, found, answer⟩ := find_answers agrees sound ref
  obtain ⟨place?', found', answer'⟩ :=
    find_answers agrees' (fun path among => (same path among).isSound (sound path among)) ref
  rw [found, found']
  refine congrArg Except.ok (Option.ext fun place => ?_)
  rw [answer, answer']
  exact ⟨Answers.congr fun q among _ => (same q among).defines_iff.symm,
    Answers.congr fun q among _ => (same q among).defines_iff⟩

/-! A file. -/

def libraryPath : Path := ⟨true, ["a", "Lib.dll"]⟩

def libraryDisk : Disk where
  working := []
  entries := .ofList [(["a"], .folder), (["a", "Lib.dll"], .file ByteArray.empty false)]

def holder (first second : String) : Metadata.Records :=
  [("N.T", .node { name := "T", space? := some "N" }
    [.node { name := first } [], .node { name := second } []])]

theorem holder_relisted (first second : String) :
    Metadata.Relisted (holder first second) (holder second first) := by
  have leaf : ∀ name, TypeRecord.Alike (.node { name } []) (.node { name } []) :=
    fun _ => ⟨⟨rfl, rfl, rfl, rfl, rfl, fun _ => Iff.rfl⟩, [], .nil, trivial⟩
  refine ⟨_, List.Perm.refl _, .cons ⟨rfl, ?_⟩ .nil⟩
  refine ⟨⟨rfl, rfl, rfl, rfl, rfl, fun _ => Iff.rfl⟩, _, List.Perm.swap _ _ [], ?_⟩
  exact ⟨leaf first, leaf second, trivial⟩

/-- The end of a path names a type inside another one, whichever type inside is listed first. -/
theorem find_holder :
    IsSound libraryDisk (fun _ _ => .ok (holder "I" "J")) libraryPath ∧
      Answers (Defines libraryDisk fun _ _ => .ok (holder "I" "J"))
        (.mk none [.mk "T" [], .mk "I" []]) [libraryPath] ("Lib", "N.T+I") ∧
      (find libraryDisk (fun _ _ => .ok (holder "J" "I")) [libraryPath] {}
        (.mk none [.mk "T" [], .mk "I" []])).1 = .ok (some ("Lib", "N.T+I")) := by
  have sound : IsSound libraryDisk (fun _ _ => .ok (holder "I" "J")) libraryPath := by
    refine ⟨nofun, ?_, ?_⟩
    · rintro records ⟨⟩
      decide +kernel
    · rintro records ⟨⟩
      decide +kernel
  have run : (find libraryDisk (fun _ _ => .ok (holder "I" "J")) [libraryPath] {}
      (.mk none [.mk "T" [], .mk "I" []])).1 = .ok (some ("Lib", "N.T+I")) := rfl
  obtain ⟨⟨place?, found, answer⟩, order⟩ := find_told_by_types (Reader.empty_agrees libraryDisk _)
    (List.forall_mem_singleton.mpr sound) (.mk none [.mk "T" [], .mk "I" []])
  refine ⟨sound, (answer _).mp (Except.ok.inj (found.symm.trans run)), ?_⟩
  refine (order _ _ {} (Reader.empty_agrees libraryDisk _) ?_).trans run
  exact List.forall_mem_singleton.mpr (.read (holder_relisted "I" "J"))

end References

end HiddenNames
