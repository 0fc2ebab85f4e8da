import HiddenNames.Resolution.Locator
import Mathlib.Data.List.Lex
import Mathlib.Data.String.Basic
import Mathlib.Order.Lex

/-!
Where the file of a module is found. The folders are looked at part by part, and one that comes up
again is passed over, which loses nothing: on a disk that stays as it is, a folder without a file of
the module has none the second time. The file is therefore the first of the plain list of all files
that are considered.
-/

namespace HiddenNames

/-! Sorting by a key. -/

def ComparesBy {α κ : Type} [LE κ] (le : α → α → Bool) (key : α → κ) : Prop :=
  ∀ a b, le a b = true ↔ key a ≤ key b

namespace ComparesBy

variable {α κ : Type} [LinearOrder κ] {le : α → α → Bool} {key : α → κ}

theorem trans (h : ComparesBy le key) (a b c : α) (first : le a b = true) (second : le b c = true) :
    le a c = true :=
  (h a c).mpr (((h a b).mp first).trans ((h b c).mp second))

theorem total (h : ComparesBy le key) (a b : α) : (le a b || le b a) = true := by
  rw [Bool.or_eq_true, h, h]
  exact le_total (key a) (key b)

theorem sorted (h : ComparesBy le key) (xs : List α) :
    (xs.mergeSort le).Pairwise fun a b => key a ≤ key b :=
  (List.pairwise_mergeSort h.trans h.total xs).imp fun {a b} below => (h a b).mp below

end ComparesBy

theorem before_comparesBy : ComparesBy Path.before Path.parts := by
  intro a b
  rw [Path.before, Bool.not_eq_true', decide_eq_false_iff_not]
  exact not_lt

theorem newer_comparesBy :
    ComparesBy (fun a b : Path => !decide (numbersIn a.name < numbersIn b.name))
      fun folder => OrderDual.toDual (numbersIn folder.name) := by
  intro a b
  rw [Bool.not_eq_true', decide_eq_false_iff_not]
  exact not_lt

/-! Folders. -/

structure AreByPath (disk : Disk) (folder : Path) (inside : List Path) : Prop where
  all : inside.Perm (disk.foldersIn folder)
  sorted : inside.Pairwise fun a b => a.parts ≤ b.parts

structure AreByNumbers (disk : Disk) (folder : Path) (inside : List Path) : Prop where
  all : inside.Perm (disk.foldersIn folder)
  sorted : inside.Pairwise fun a b => numbersIn b.name ≤ numbersIn a.name

theorem byName_areByPath (disk : Disk) (folder : Path) :
    AreByPath disk folder (byName (disk.foldersIn folder)) :=
  ⟨List.mergeSort_perm _ _, before_comparesBy.sorted _⟩

theorem newestFirst_areByNumbers (disk : Disk) (folder : Path) :
    AreByNumbers disk folder (newestFirst (disk.foldersIn folder)) :=
  ⟨List.mergeSort_perm _ _, newer_comparesBy.sorted _⟩

/-- The folders of the version of a runtime in the frameworks beside it, if it is inside of one. -/
def AreBeside (disk : Disk) (runtime : Path) (siblings : List Path) : Prop :=
  if 2 ≤ runtime.parts.length then
    ∃ frameworks, AreByPath disk runtime.parent.parent frameworks ∧
      siblings = frameworks.map fun framework => framework.child runtime.name
  else siblings = []

def AreInstalled (disk : Disk) (root : Path) (folders : List Path) : Prop :=
  ∃ frameworks, ∃ versions : Path → List Path, AreByPath disk (root.child "shared") frameworks ∧
    (∀ framework, AreByNumbers disk framework (versions framework)) ∧
    folders = frameworks.flatMap versions

namespace Locator

theorem runtimeFolders_eq (locator : Locator) (disk : Disk) : ∃ siblings : Path → List Path,
    (∀ runtime, AreBeside disk runtime (siblings runtime)) ∧
      locator.runtimeFolders disk =
        locator.runtimeFolder?.toList.flatMap fun runtime => runtime :: siblings runtime := by
  refine ⟨fun runtime => if 2 ≤ runtime.parts.length then
    (byName (disk.foldersIn runtime.parent.parent)).map fun framework =>
      framework.child runtime.name else [], fun runtime => ?_, ?_⟩
  · by_cases inside : 2 ≤ runtime.parts.length
    · simp only [AreBeside, inside, if_true]
      exact ⟨_, byName_areByPath disk _, rfl⟩
    · simp only [AreBeside, inside, if_false]
  · rw [runtimeFolders]
    cases locator.runtimeFolder? with
    | none => rfl
    | some runtime => rw [Option.toList_some, List.flatMap_singleton]

theorem sharedFrameworkFolders_areInstalled (disk : Disk) (root : Path) :
    AreInstalled disk root (sharedFrameworkFolders disk root) :=
  ⟨_, _, byName_areByPath disk _, newestFirst_areByNumbers disk, rfl⟩

/-- Folders that were looked at have no file of the module, so that passing them over changes
nothing. -/
theorem searchFolders_eq {disk : Disk} {identity : String} {seen : List Path}
    (empty : ∀ folder ∈ seen, (filesIn identity folder).find? disk.isFile = none)
    (folders : List Path) :
    searchFolders disk identity seen folders =
      (folders.flatMap (filesIn identity)).find? disk.isFile := by
  induction folders generalizing seen with
  | nil => rfl
  | cons folder rest ih =>
    rw [searchFolders, List.flatMap_cons, List.find?_append]
    by_cases known : folder ∈ seen
    · rw [if_pos known, ih empty, empty folder known, Option.none_or]
    · rw [if_neg known]
      cases found : (filesIn identity folder).find? disk.isFile with
      | some file => rfl
      | none => exact ih (List.forall_mem_cons.mpr ⟨found, empty⟩)

theorem locate_eq (locator : Locator) (disk : Disk) (loaded? : Option Path) (identity : String) :
    locator.locate disk loaded? identity =
      ((locator.references.filter fun reference => reference.stem = identity) ++
        (locator.candidateFolders disk loaded?).flatMap (filesIn identity)).find? disk.isFile := by
  have named : locator.references.find? (fun p => p.stem = identity && disk.isFile p) =
      (locator.references.filter fun reference => reference.stem = identity).find? disk.isFile := by
    rw [List.find?_filter]
    simp only [Bool.decide_and, Bool.decide_eq_true]
  rw [locate, named, List.find?_append,
    ← searchFolders_eq fun _ none => absurd none List.not_mem_nil]
  cases (locator.references.filter fun reference => reference.stem = identity).find? disk.isFile
    <;> rfl

/-- The file of a module is the first that exists of the references of its name and the files of its
name in all folders, however often a folder comes up, and there is none when none of these exists.
The folders are that of the module if it is loaded, the search paths, those of the references, that
of the runtime with the same version of the frameworks beside it, and those of the installed
versions. -/
theorem locate_first_of_plain (locator : Locator) (disk : Disk) (loaded? : Option Path)
    (identity : String) :
    ∃ siblings installed : Path → List Path,
      (∀ runtime, AreBeside disk runtime (siblings runtime)) ∧
      (∀ root, AreInstalled disk root (installed root)) ∧
      let folders := (loaded?.map Path.parent).toList ++ locator.searchPaths ++
        locator.references.map Path.parent ++
        (locator.runtimeFolder?.toList.flatMap fun runtime => runtime :: siblings runtime) ++
        locator.roots.flatMap installed
      let files := (locator.references.filter fun reference => reference.stem = identity) ++
        folders.flatMap fun folder => [folder.join (Path.ofText (identity ++ ".dll")),
          folder.join (Path.ofText (identity ++ ".exe"))]
      locator.candidateFolders disk loaded? = folders ∧
        locator.locate disk loaded? identity = files.find? disk.isFile ∧
        (locator.locate disk loaded? identity = none ↔
          ∀ file ∈ files, disk.isFile file = false) := by
  obtain ⟨siblings, beside, runtime⟩ := locator.runtimeFolders_eq disk
  refine ⟨siblings, sharedFrameworkFolders disk, beside,
    sharedFrameworkFolders_areInstalled disk, ?_⟩
  intro folders files
  have places : locator.candidateFolders disk loaded? = folders := by rw [candidateFolders, runtime]
  have first : locator.locate disk loaded? identity = files.find? disk.isFile := by
    rw [locate_eq, places]
    rfl
  refine ⟨places, first, ?_⟩
  rw [first, List.find?_eq_none]
  simp only [Bool.not_eq_true]

example :
    let locator : Locator :=
      { searchPaths := [⟨true, ["a"]⟩, ⟨true, ["a"]⟩, ⟨true, ["b"]⟩, ⟨true, ["c"]⟩] }
    locator.locate
      { working := [],
        entries := .ofList [(["a"], .folder), (["b"], .folder),
          (["b", "Lib.exe"], .file .empty false), (["c"], .folder),
          (["c", "Lib.dll"], .file .empty false)] } none "Lib" =
      some ⟨true, ["b", "Lib.exe"]⟩ := by
  decide +kernel

end Locator

end HiddenNames
