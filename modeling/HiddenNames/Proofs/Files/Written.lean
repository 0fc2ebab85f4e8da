import HiddenNames.CommandLine.Run
import Mathlib.Data.List.Induction

/-!
What stands on a disk after files were written. A file that was written is read back, one that
stands elsewhere is not touched, and the last of several files written in one place is the one that
stays.
-/

namespace HiddenNames

namespace Disk

def writeFiles (disk : Disk) : List (Path × String) → Except FileFault Disk
  | [] => .ok disk
  | (path, text) :: rest =>
    match disk.write path text.toUTF8 with
    | .error fault => .error fault
    | .ok disk => disk.writeFiles rest

def after (disk : Disk) (effect : CommandLine.Effect) : Except FileFault Disk :=
  match effect.folder? with
  | none => disk.writeFiles effect.files
  | some folder =>
    match disk.ensureFolders folder with
    | .error fault => .error fault
    | .ok disk => disk.writeFiles effect.files

theorem put_ok {disk later : Disk} {place : List String} {entry : Entry}
    (h : disk.put place entry = .ok later) :
    disk.entryAt place ≠ some .folder ∧ later.working = disk.working ∧
      ∀ other, later.entryAt other = if other = place then some entry else disk.entryAt other := by
  unfold put at h
  split at h
  · cases h
  · rename_i free
    split at h
    · cases h
      have inside : place ≠ [] := by
        rintro rfl
        exact free rfl
      exact ⟨mt isFolderAt_iff.mpr free, rfl, entryIn_assign inside entry⟩
    · cases h

theorem walk_congr {disk disk' : Disk}
    (same : ∀ place, disk.isFolderAt place = disk'.isFolderAt place) (place parts : List String) :
    disk.walk place parts = disk'.walk place parts := by
  induction parts generalizing place with
  | nil => rfl
  | cons part rest ih => simp only [walk, same, ih]

theorem walk_of_reach {disk : Disk} {place parts found : List String}
    (h : disk.reach place parts = .ok found) : disk.walk place parts = some found := by
  induction parts generalizing place with
  | nil =>
    cases h
    rfl
  | cons part rest ih =>
    rcases entry : disk.entryAt place with _ | _ | ⟨content, executable⟩
    · simp [reach, entry] at h
    · have folder := isFolderAt_iff.mpr entry
      simp only [reach, entry] at h
      split at h
      · cases h
      · rw [walk, if_pos folder]
        exact ih h
    · simp [reach, entry] at h

theorem walk_append (disk : Disk) (place parts more : List String) :
    disk.walk place (parts ++ more) = (disk.walk place parts).bind fun found =>
      disk.walk found more := by
  induction parts generalizing place with
  | nil => rfl
  | cons part rest ih =>
    simp only [List.cons_append, walk]
    split
    · exact ih _
    · rfl

theorem walk_plain {disk : Disk} {place parts found : List String} (plain : ".." ∉ parts)
    (h : disk.walk place parts = some found) : found = place ++ parts := by
  induction parts generalizing place with
  | nil => rw [List.append_nil, Option.some.inj h]
  | cons part rest ih =>
    rw [List.mem_cons, not_or] at plain
    rw [walk, if_neg (Ne.symm plain.1)] at h
    split at h
    · rw [ih plain.2 h, List.append_assoc, List.singleton_append]
    · cases h

/-- The way to an entry leads through folders. -/
theorem walk_of_entry {disk : Disk} {place : List String} (plain : ".." ∉ place)
    (there : disk.entryAt place ≠ none) : disk.walk [] place = some place := by
  induction place using List.reverseRecOn with
  | nil => rfl
  | append_singleton front last ih =>
    rw [List.mem_append, List.mem_singleton, not_or] at plain
    have above : disk.isFolderAt front = true := by
      obtain ⟨entry, found⟩ := Option.ne_none_iff_exists'.mp there
      rw [entryAt, entryIn, if_neg (by simp)] at found
      have closed := disk.entries.closed _ (List.mem_map_of_mem (mem_of_lookup found))
      rwa [List.dropLast_concat] at closed
    have listed : disk.entryAt front ≠ none := by
      rw [isFolderAt_iff.mp above]
      exact Option.some_ne_none _
    have reached := ih plain.1 listed
    rw [walk_append, reached, Option.bind_some, walk, if_pos above, if_neg (Ne.symm plain.2), walk]

/-- A rooted path that leads nowhere back stands for what the disk has in its place. -/
theorem entry?_rooted (disk : Disk) {place : List String} (plain : ".." ∉ place) :
    disk.entry? ⟨true, place⟩ = disk.entryAt place := by
  have start : disk.start ⟨true, place⟩ = [] := rfl
  unfold entry?
  rw [start]
  cases walked : disk.walk [] place with
  | some found => rw [walk_plain plain walked, List.nil_append, Option.bind_some]
  | none =>
    by_contra there
    have reached := walk_of_entry plain fun absent => there absent.symm
    exact Option.some_ne_none place (reached.symm.trans walked)

/-- A file that is written replaces what is read at its place and nothing else. -/
theorem write_ok {disk later : Disk} {path : Path} {content : ByteArray}
    (h : disk.write path content = .ok later) :
    ∃ place, disk.walk (disk.start path) path.parts = some place ∧
      ∀ other : Path, later.walk (later.start other) other.parts =
          disk.walk (disk.start other) other.parts ∧
        later.read? other =
          if disk.walk (disk.start other) other.parts = some place then some content
          else disk.read? other := by
  unfold write at h
  split at h
  · cases h
  · rename_i place reached
    obtain ⟨free, working, entries⟩ := put_ok h
    have folders : ∀ q, later.isFolderAt q = disk.isFolderAt q := by
      intro q
      rw [Bool.eq_iff_iff, isFolderAt_iff, isFolderAt_iff, entries]
      by_cases here : q = place
      · simp [here, free]
      · rw [if_neg here]
    have start : ∀ other : Path, later.start other = disk.start other := by
      intro other
      rw [Disk.start, Disk.start, working]
    refine ⟨place, walk_of_reach reached, fun other => ?_⟩
    have walks : later.walk (later.start other) other.parts =
        disk.walk (disk.start other) other.parts := by
      rw [start]
      exact walk_congr folders _ _
    refine ⟨walks, ?_⟩
    rw [read?, entry?, walks, read?, entry?]
    cases found : disk.walk (disk.start other) other.parts with
    | none => simp
    | some q =>
      by_cases here : q = place
      · simp [entries, here]
      · simp [entries, here]

theorem read_written {disk later : Disk} {path : Path} {content : ByteArray}
    (h : disk.write path content = .ok later) : later.read? path = some content := by
  obtain ⟨place, walked, reads⟩ := write_ok h
  rw [(reads path).2, if_pos walked]

theorem child_places {disk : Disk} {folder : Path} {name other : String} (ne : other ≠ name)
    (plain : name ≠ "..") (plain' : other ≠ "..") {place : List String}
    (walked : disk.walk (disk.start (folder.child name)) (folder.child name).parts = some place) :
    disk.walk (disk.start (folder.child other)) (folder.child other).parts ≠ some place := by
  have start : disk.start (folder.child other) = disk.start (folder.child name) := rfl
  simp only [Path.child, walk_append] at walked ⊢
  simp only [Path.child] at start
  rw [start]
  cases found : disk.walk (disk.start { folder with parts := folder.parts ++ [name] })
      folder.parts with
  | none => simp [found] at walked
  | some q =>
    rw [found, Option.bind_some, walk, if_neg plain] at walked
    rw [Option.bind_some, walk, if_neg plain']
    split at walked
    · rename_i isFolder
      rw [if_pos isFolder]
      intro same
      have equal := (Option.some.inj same).trans (Option.some.inj walked).symm
      exact ne (List.singleton_inj.mp (List.append_cancel_left equal))
    · cases walked

theorem read_beside {disk later : Disk} {folder : Path} {name other : String} {content : ByteArray}
    (h : disk.write (folder.child name) content = .ok later) (ne : other ≠ name)
    (plain : name ≠ "..") (plain' : other ≠ "..") :
    later.read? (folder.child other) = disk.read? (folder.child other) := by
  obtain ⟨place, walked, reads⟩ := write_ok h
  rw [(reads _).2, if_neg (child_places ne plain plain' walked)]

/-- Files of other names in a folder leave what is read under a name alone. -/
theorem read_untouched {disk later : Disk} {folder : Path} {name : String}
    {files : List (String × String)} (plain : ∀ file ∈ files, file.1 ≠ "..")
    (plain' : name ≠ "..") (fresh : name ∉ files.map Prod.fst)
    (h : disk.writeFiles (files.map fun file => (folder.child file.1, file.2)) = .ok later) :
    later.read? (folder.child name) = disk.read? (folder.child name) := by
  induction files generalizing disk with
  | nil =>
    cases h
    rfl
  | cons file rest ih =>
    simp only [List.map_cons, writeFiles] at h
    simp only [List.map_cons, List.mem_cons, not_or] at fresh
    split at h
    · cases h
    · rename_i between written
      have others := ih (fun file held => plain file (List.mem_cons_of_mem _ held)) fresh.2 h
      rw [others]
      exact read_beside written fresh.1 (plain file List.mem_cons_self) plain'

theorem read_last {disk later : Disk} {folder : Path} {name text : String}
    {before rest : List (String × String)} (plain : ∀ file ∈ rest, file.1 ≠ "..")
    (plain' : name ≠ "..") (fresh : name ∉ rest.map Prod.fst)
    (h : disk.writeFiles ((before ++ (name, text) :: rest).map fun file =>
      (folder.child file.1, file.2)) = .ok later) :
    later.read? (folder.child name) = some text.toUTF8 := by
  induction before generalizing disk with
  | nil =>
    simp only [List.nil_append, List.map_cons, writeFiles] at h
    split at h
    · cases h
    · rename_i between written
      rw [read_untouched plain plain' fresh h]
      exact read_written written
  | cons file more ih =>
    simp only [List.cons_append, List.map_cons, writeFiles] at h
    split at h
    · cases h
    · exact ih h

end Disk

namespace CommandLine

theorem writeAll_ok {disk : Disk} {files written : List (Path × String)}
    (h : writeAll disk files = (written, none)) :
    written = files ∧ ∃ later, disk.writeFiles files = .ok later := by
  induction files generalizing disk written with
  | nil =>
    cases h
    exact ⟨rfl, disk, rfl⟩
  | cons file rest ih =>
    obtain ⟨path, text⟩ := file
    unfold writeAll at h
    split at h
    · cases h
    · rename_i between done
      rcases more : writeAll between rest with ⟨others, fault?⟩
      rw [more] at h
      cases h
      obtain ⟨rfl, later, all⟩ := ih more
      exact ⟨rfl, later, by rw [Disk.writeFiles, done]; exact all⟩

/-- A pass whose files are written without a fault leaves a disk with all of them written. -/
theorem emit_ok {disk : Disk} {folder : Path} {result : PassResult}
    (h : (emit disk folder result).fault? = none) :
    ∃ ready later : Disk, disk.after (emit disk folder result) = .ok later ∧
      ready.writeFiles (filesOf folder result) = .ok later := by
  cases folders : disk.ensureFolders folder with
  | error fault => simp [emit, folders] at h
  | ok ready =>
    rcases written : writeAll ready (filesOf folder result) with ⟨files, _ | fault⟩
    · obtain ⟨rfl, later, all⟩ := writeAll_ok written
      refine ⟨ready, later, ?_, all⟩
      simp only [emit, folders, written, Disk.after]
      exact all
    · simp [emit, folders, written] at h

end CommandLine

end HiddenNames
