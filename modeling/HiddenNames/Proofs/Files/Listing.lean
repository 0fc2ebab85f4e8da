import HiddenNames.Proofs.Files.Written
import Mathlib.Data.List.Nodup

/-!
What a folder lists. A disk may list the entries of a folder in any order; which entries they are,
and what stands where, does not depend on it.
-/

namespace HiddenNames

@[simp]
theorem Path.name_child (p : Path) (name : String) : (p.child name).name = name := by
  rw [Path.name, Path.child, List.getLast?_concat, Option.getD_some]

namespace Disk

variable {disk other : Disk} {p folder : Path}

structure Relists (disk other : Disk) : Prop where
  working : other.working = disk.working
  entries : other.entries.toList.Perm disk.entries.toList

def folderEntry (p : Path) (place : List String) : List String × Entry → Option Path
  | (parts, .folder) => parts.getLast?.bind fun name =>
      if parts.dropLast = place then some (p.child name) else none
  | (_, .file _ _) => none

theorem folderEntry_eq_some_iff {place : List String} {entry : List String × Entry} :
    folderEntry p place entry = some folder ↔
      ∃ name, entry = (place ++ [name], Entry.folder) ∧ folder = p.child name := by
  obtain ⟨parts, kind⟩ := entry
  cases kind with
  | file content executable => simp [folderEntry]
  | folder =>
    rcases parts.eq_nil_or_concat' with rfl | ⟨front, last, rfl⟩
    · simp [folderEntry]
    · rw [folderEntry, List.getLast?_concat, Option.bind_some, List.dropLast_concat,
        Option.ite_none_right_eq_some, Option.some_inj]
      constructor
      · rintro ⟨rfl, rfl⟩
        exact ⟨last, rfl, rfl⟩
      · rintro ⟨name, same, rfl⟩
        obtain ⟨front, last⟩ := List.append_inj' (congrArg Prod.fst same) rfl
        rw [List.singleton_inj.mp last]
        exact ⟨front, rfl⟩

theorem foldersIn_eq (disk : Disk) (p : Path) :
    disk.foldersIn p = ((disk.walk (disk.start p) p.parts).map fun place =>
      disk.entries.toList.filterMap (folderEntry p place)).getD [] := by
  rw [foldersIn, listing]
  cases disk.walk (disk.start p) p.parts with
  | none => rfl
  | some place =>
    rw [Option.map_some, Option.getD_some, List.filterMap_filterMap]
    refine List.filterMap_congr fun ⟨parts, kind⟩ _ => ?_
    rcases parts.eq_nil_or_concat' with rfl | ⟨front, last, rfl⟩
    · cases kind <;> rfl
    · simp only [List.getLast?_concat, List.dropLast_concat]
      by_cases here : front = place <;> cases kind <;> simp [folderEntry, here]

theorem mem_foldersIn_iff : folder ∈ disk.foldersIn p ↔
    ∃ place name, disk.walk (disk.start p) p.parts = some place ∧
      (place ++ [name], Entry.folder) ∈ disk.entries.toList ∧ folder = p.child name := by
  rw [foldersIn_eq]
  cases disk.walk (disk.start p) p.parts with
  | none => simp
  | some place =>
    rw [Option.map_some, Option.getD_some, List.mem_filterMap]
    constructor
    · rintro ⟨entry, held, named⟩
      obtain ⟨name, rfl, rfl⟩ := folderEntry_eq_some_iff.mp named
      exact ⟨place, name, rfl, held, rfl⟩
    · rintro ⟨_, name, same, held, rfl⟩
      obtain rfl := Option.some.inj same
      exact ⟨_, held, folderEntry_eq_some_iff.mpr ⟨name, rfl, rfl⟩⟩

theorem parent_of_mem (inside : folder ∈ disk.foldersIn p) : folder.parent = p := by
  obtain ⟨_, name, -, -, rfl⟩ := mem_foldersIn_iff.mp inside
  rw [Path.parent, Path.child, List.dropLast_concat]

theorem eq_of_name {a b : Path} (first : a ∈ disk.foldersIn p) (second : b ∈ disk.foldersIn p)
    (same : a.name = b.name) : a = b := by
  obtain ⟨_, name, -, -, rfl⟩ := mem_foldersIn_iff.mp first
  obtain ⟨_, name', -, -, rfl⟩ := mem_foldersIn_iff.mp second
  obtain rfl : name = name' := by simpa using same
  rfl

theorem foldersIn_nodup (disk : Disk) (p : Path) : (disk.foldersIn p).Nodup := by
  rw [foldersIn_eq]
  cases disk.walk (disk.start p) p.parts with
  | none => exact List.nodup_nil
  | some place =>
    rw [Option.map_some, Option.getD_some, List.Nodup, List.pairwise_filterMap]
    refine (List.pairwise_map.mp disk.entries.distinct).imp fun {a b} apart => ?_
    rintro _ first _ second rfl
    obtain ⟨name, rfl, rfl⟩ := folderEntry_eq_some_iff.mp first
    obtain ⟨name', rfl, same⟩ := folderEntry_eq_some_iff.mp second
    have named : p.parts ++ [name] = p.parts ++ [name'] := congrArg Path.parts same
    exact apart (congrArg (place ++ ·) (List.append_cancel_left named))

theorem Relists.refl (disk : Disk) : disk.Relists disk := ⟨rfl, .refl _⟩

theorem Relists.entryAt (h : disk.Relists other) (place : List String) :
    other.entryAt place = disk.entryAt place := by
  have same := lookup_eq_of_perm h.entries disk.entries.distinct place
  rw [Disk.entryAt, Disk.entryAt, entryIn, entryIn, same]

theorem Relists.isFolderAt (h : disk.Relists other) (place : List String) :
    other.isFolderAt place = disk.isFolderAt place := by
  rw [Bool.eq_iff_iff, isFolderAt_iff, isFolderAt_iff, h.entryAt]

theorem Relists.walk (h : disk.Relists other) (place parts : List String) :
    other.walk place parts = disk.walk place parts :=
  walk_congr h.isFolderAt place parts

theorem Relists.foldersIn (h : disk.Relists other) (p : Path) :
    (other.foldersIn p).Perm (disk.foldersIn p) := by
  have start : other.start p = disk.start p := by rw [Disk.start, Disk.start, h.working]
  rw [foldersIn_eq, foldersIn_eq, start, h.walk]
  cases disk.walk (disk.start p) p.parts with
  | none => exact .nil
  | some place => exact h.entries.filterMap _

end Disk

def Entries.reversed (entries : Entries) : Entries where
  toList := entries.toList.reverse
  distinct := by
    rw [List.map_reverse, List.nodup_reverse]
    exact entries.distinct
  closed := by
    intro place held
    rw [List.map_reverse, List.mem_reverse] at held
    have same := lookup_eq_of_perm entries.toList.reverse_perm entries.distinct place.dropLast
    rw [isFolderIn, entryIn, same]
    exact entries.closed place held

namespace Disk

variable {disk : Disk}

def reversed (disk : Disk) : Disk := { disk with entries := disk.entries.reversed }

theorem reversed_relists (disk : Disk) : disk.Relists disk.reversed :=
  ⟨rfl, disk.entries.toList.reverse_perm⟩

theorem foldersIn_reversed (disk : Disk) (p : Path) :
    disk.reversed.foldersIn p = (disk.foldersIn p).reverse := by
  have start : disk.reversed.start p = disk.start p := rfl
  rw [foldersIn_eq, foldersIn_eq, start, disk.reversed_relists.walk]
  cases disk.walk (disk.start p) p.parts with
  | none => rfl
  | some place => exact List.filterMap_reverse

end Disk

end HiddenNames
