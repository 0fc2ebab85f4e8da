import HiddenNames.Proofs.Files.Listing
import HiddenNames.Proofs.Resolution.Locating
import HiddenNames.Proofs.Types.Arity
import Mathlib.Data.Prod.Lex
import Mathlib.Data.Sum.Order
import Mathlib.Order.WithBot

/-!
The order in which the versions of a framework are looked in. Versions have an order of their own,
by major, minor and patch, with a release after its pre-releases and pre-releases by their labels.
Folders are put in order by the numbers in their names. The numbers agree with the order of versions
up to the patch, and beyond it only so far as the labels do: main statement.
-/

namespace HiddenNames

/-! Numbers in names. -/

open Unicode (digitValue?)

theorem runs_ne_nil {c : Char} {n : Nat} (digit : digitValue? c = some n) (rest : List Char) :
    numbersIn.runs (c :: rest) ≠ [] := by
  simp only [numbersIn.runs, digit]
  split <;> exact List.cons_ne_nil _ _

theorem runs_append {c : Char} (sign : digitValue? c = none) (front rest : List Char) :
    numbersIn.runs (front ++ c :: rest) = numbersIn.runs front ++ numbersIn.runs rest := by
  induction front with
  | nil => simp only [List.nil_append, numbersIn.runs, sign]
  | cons d front ih =>
    rw [List.cons_append, numbersIn.runs, numbersIn.runs, ih]
    cases digitValue? d with
    | none => rfl
    | some n =>
      cases front with
      | nil => simp [sign, numbersIn.runs]
      | cons e front =>
        cases next : digitValue? e with
        | none => simp [next]
        | some m =>
          -- The run goes on over the next digit, so there is a first run to go on with.
          obtain ⟨run, more, shape⟩ := List.exists_cons_of_ne_nil (runs_ne_nil next front)
          simp [next, shape]

theorem runs_digits {digits : List Char} (ascii : ∀ c ∈ digits, c.isDigit = true)
    (filled : digits ≠ []) : numbersIn.runs digits = [digits.map fun c => c.toNat - '0'.toNat] := by
  induction digits with
  | nil => exact absurd rfl filled
  | cons c rest ih =>
    obtain ⟨first, later⟩ := List.forall_mem_cons.mp ascii
    rw [numbersIn.runs, (asciiDigit first).1]
    cases rest with
    | nil => rfl
    | cons d rest =>
      rw [ih later (List.cons_ne_nil d rest), List.head?_cons, Option.bind_some,
        (asciiDigit (later d List.mem_cons_self)).1]
      rfl

theorem numbersIn_toString (n : Nat) : numbersIn (toString n) = [n] := by
  have ascii : ∀ c ∈ Nat.toDigits 10 n, c.isDigit = true := fun c held =>
    Nat.isDigit_of_mem_toDigits (by decide) (by decide) held
  rw [numbersIn, Nat.toString_eq_ofList_toDigits, String.toList_ofList,
    runs_digits ascii Nat.toDigits_ne_nil, List.map_singleton, numeralValue, List.foldl_map,
    ← Nat.ofDigitChars_eq_foldl, Nat.ofDigitChars_ten_toDigits]

theorem numbersIn_append {sep : String} {c : Char} (single : sep.toList = [c])
    (sign : digitValue? c = none) (a b : String) :
    numbersIn (a ++ sep ++ b) = numbersIn a ++ numbersIn b := by
  rw [numbersIn, String.toList_append, String.toList_append, single, List.append_assoc,
    List.singleton_append, runs_append sign, List.map_append]
  rfl

theorem numbersIn_intercalate (pieces : List String) :
    numbersIn (".".intercalate pieces) = pieces.flatMap numbersIn := by
  induction pieces with
  | nil => rfl
  | cons piece rest ih =>
    by_cases alone : rest = []
    · rw [alone, String.intercalate_singleton, List.flatMap_singleton]
    · rw [String.intercalate_cons_of_ne_nil alone, numbersIn_append rfl (by decide), ih,
        List.flatMap_cons]

/-! Versions. -/

/-- A word of a label: letters, digits and hyphens, and not digits alone. -/
structure LabelWord where
  text : String
  signs : text.toList.all (fun c => c.isAlphanum || c == '-') = true
  other : text.toList.any (fun c => !c.isDigit) = true

inductive LabelPart where
  | number (n : Nat)
  | word (w : LabelWord)

namespace LabelPart

def rank : LabelPart → ℕ ⊕ₗ String
  | number n => toLex (Sum.inl n)
  | word w => toLex (Sum.inr w.text)

theorem rank_injective : Function.Injective rank := by
  rintro (n | ⟨text, _, _⟩) (m | ⟨other, _, _⟩) same
  · cases same
    rfl
  · cases same
  · cases same
  · cases same
    rfl

/-- Numbers come before words. -/
instance : LinearOrder LabelPart := LinearOrder.lift' rank rank_injective

def text : LabelPart → String
  | number n => toString n
  | word w => w.text

def numbers : LabelPart → List Nat
  | number n => [n]
  | word w => numbersIn w.text

theorem numbersIn_text (part : LabelPart) : numbersIn part.text = part.numbers := by
  cases part with
  | number n => exact numbersIn_toString n
  | word w => rfl

end LabelPart

/-- A version. A release has no label, a pre-release has one of at least one part. -/
structure Version where
  major : Nat
  minor : Nat
  patch : Nat
  label : List LabelPart := []

namespace Version

variable {v w : Version}

def core (v : Version) : List Nat := [v.major, v.minor, v.patch]

/-- No label comes after all labels. -/
def labelRank (v : Version) : WithTop (List LabelPart) :=
  if v.label.isEmpty then ⊤ else v.label

def rank (v : Version) : List Nat ×ₗ WithTop (List LabelPart) := toLex (v.core, v.labelRank)

theorem labelRank_inj : v.labelRank = w.labelRank ↔ v.label = w.label := by
  rw [labelRank, labelRank]
  cases v.label <;> cases w.label <;> simp

theorem rank_injective : Function.Injective rank := by
  rintro ⟨major, minor, patch, label⟩ ⟨major', minor', patch', label'⟩ same
  obtain ⟨cores, labels⟩ := Prod.mk.inj (toLex.injective same)
  obtain rfl : label = label' := labelRank_inj.mp labels
  simp only [core, List.cons.injEq, and_true] at cores
  obtain ⟨rfl, rfl, rfl⟩ := cores
  rfl

instance : LinearOrder Version := LinearOrder.lift' rank rank_injective

theorem lt_iff : v < w ↔ v.core < w.core ∨
    v.core = w.core ∧ v.label ≠ [] ∧ (w.label = [] ∨ v.label < w.label) := by
  have lifted : v < w ↔ v.rank < w.rank := Iff.rfl
  rw [lifted, rank, rank, Prod.Lex.toLex_lt_toLex, labelRank, labelRank]
  cases v.label <;> cases w.label <;> simp

def text (v : Version) : String :=
  let front := toString v.major ++ "." ++ toString v.minor ++ "." ++ toString v.patch
  if v.label.isEmpty then front
  else front ++ "-" ++ ".".intercalate (v.label.map LabelPart.text)

def labelNumbers (v : Version) : List Nat := v.label.flatMap LabelPart.numbers

theorem numbersIn_text (v : Version) : numbersIn v.text = v.core ++ v.labelNumbers := by
  have front : numbersIn (toString v.major ++ "." ++ toString v.minor ++ "." ++ toString v.patch) =
      v.core := by
    rw [numbersIn_append rfl (by decide), numbersIn_append rfl (by decide), numbersIn_toString,
      numbersIn_toString, numbersIn_toString]
    rfl
  rw [text, labelNumbers]
  by_cases release : v.label = []
  · rw [release, List.isEmpty_nil, if_pos rfl, front, List.flatMap_nil, List.append_nil]
  · rw [if_neg (mt List.isEmpty_iff.mp release), numbersIn_append rfl (by decide), front,
      numbersIn_intercalate, List.flatMap_map]
    simp only [LabelPart.numbersIn_text]

theorem numbers_lt_iff : numbersIn v.text < numbersIn w.text ↔
    v.core < w.core ∨ v.core = w.core ∧ v.labelNumbers < w.labelNumbers := by
  rw [numbersIn_text, numbersIn_text]
  simp only [core, List.cons_append, List.nil_append, List.cons_lt_cons_iff, List.cons.injEq,
    List.not_lt_nil, and_true, and_false, or_false]
  tauto

end Version

/-! Folders of versions. -/

theorem pair_sublist_or {α : Type} {a b : α} (ne : a ≠ b) {xs : List α} (first : a ∈ xs)
    (second : b ∈ xs) : [a, b].Sublist xs ∨ [a, b].Sublist xs.reverse := by
  obtain ⟨front, back, rfl⟩ := List.append_of_mem first
  rcases List.mem_append.mp second with ahead | here
  · have pair : [b, a].Sublist (front ++ a :: back) :=
      (List.singleton_sublist.mpr ahead).append (List.singleton_sublist.mpr List.mem_cons_self)
    exact Or.inr (List.reverse_sublist.mpr pair)
  · have behind : b ∈ back := (List.mem_cons.mp here).resolve_left ne.symm
    have pair : [a, b].Sublist (a :: back) := (List.singleton_sublist.mpr behind).cons_cons a
    exact Or.inl (pair.trans (List.sublist_append_right _ _))

def versionsListed (disk : Disk) (root framework : Path) : List Path :=
  (sharedFrameworkFolders disk root).filter fun folder => folder.parent = framework

section

variable {disk other : Disk} {root framework : Path} {version : Path → Version}

theorem versionsListed_eq (inside : framework ∈ disk.foldersIn (root.child "shared")) :
    versionsListed disk root framework = newestFirst (disk.foldersIn framework) := by
  have frameworks := List.mergeSort_perm (disk.foldersIn (root.child "shared")) Path.before
  have once := frameworks.nodup_iff.mpr (disk.foldersIn_nodup _)
  obtain ⟨before, after, shape⟩ := List.append_of_mem (frameworks.mem_iff.mpr inside)
  have parents : ∀ f, ∀ folder ∈ newestFirst (disk.foldersIn f), folder.parent = f :=
    fun f folder held => Disk.parent_of_mem (List.mem_mergeSort.mp held)
  have own : (newestFirst (disk.foldersIn framework)).filter (fun folder =>
      folder.parent = framework) = newestFirst (disk.foldersIn framework) :=
    List.filter_eq_self.mpr fun folder held => decide_eq_true (parents framework folder held)
  have none : ∀ fs : List Path, framework ∉ fs → (fs.flatMap fun f =>
      (newestFirst (disk.foldersIn f)).filter fun folder => folder.parent = framework) = [] := by
    intro fs absent
    refine List.flatMap_eq_nil_iff.mpr fun f held => List.filter_eq_nil_iff.mpr ?_
    intro folder among same
    exact absent (of_decide_eq_true same ▸ parents f folder among ▸ held)
  rw [shape, List.nodup_middle, List.nodup_cons, List.mem_append, not_or] at once
  rw [versionsListed, sharedFrameworkFolders, List.filter_flatMap, byName, shape,
    List.flatMap_append, List.flatMap_cons, none before once.1.1, none after once.1.2, own,
    List.nil_append, List.append_nil]

/-- However the folders are listed, each comes once, and none behind one with smaller numbers. -/
theorem listed_areByNumbers (inside : framework ∈ disk.foldersIn (root.child "shared"))
    (h : disk.Relists other) :
    AreByNumbers disk framework (versionsListed other root framework) := by
  rw [versionsListed_eq ((h.foldersIn _).mem_iff.mpr inside)]
  obtain ⟨all, sorted⟩ := newestFirst_areByNumbers other framework
  exact ⟨all.trans (h.foldersIn framework), sorted⟩

/-- A folder whose numbers are not the smaller ones is ahead of the other, if not as the disk lists
them then as it does the other way round. -/
theorem ahead_in_some_listing (inside : framework ∈ disk.foldersIn (root.child "shared"))
    {a b : Path}
    (first : a ∈ disk.foldersIn framework) (second : b ∈ disk.foldersIn framework) (ne : a ≠ b)
    (above : numbersIn b.name ≤ numbersIn a.name) :
    ∃ other, disk.Relists other ∧ [a, b].Sublist (versionsListed other root framework) := by
  have kept : ∀ {xs : List Path}, [a, b].Sublist xs → [a, b].Sublist (newestFirst xs) := fun pair =>
    List.pair_sublist_mergeSort newer_comparesBy.trans newer_comparesBy.total
      ((newer_comparesBy a b).mpr above) pair
  rcases pair_sublist_or ne first second with here | there
  · refine ⟨disk, .refl disk, ?_⟩
    rw [versionsListed_eq inside]
    exact kept here
  · have relisted := disk.reversed_relists
    refine ⟨disk.reversed, relisted, ?_⟩
    rw [versionsListed_eq ((relisted.foldersIn _).mem_iff.mpr inside), disk.foldersIn_reversed]
    exact kept there

/-- However the folders of the versions of a framework are listed, each comes once, and none behind
one that is smaller in major, minor and patch. They come from the newest version to the oldest,
whatever the listing, just if no release is there beside a pre-release of it and, of two
pre-releases of one release, the newer has the greater numbers in its label. -/
theorem versions_descend_iff (inside : framework ∈ disk.foldersIn (root.child "shared"))
    (named : ∀ folder ∈ disk.foldersIn framework, folder.name = (version folder).text) :
    (∀ other, disk.Relists other →
      (versionsListed other root framework).Perm (disk.foldersIn framework) ∧
        (versionsListed other root framework).Pairwise fun a b =>
          (version b).core ≤ (version a).core) ∧
    ((∀ other, disk.Relists other →
        (versionsListed other root framework).Pairwise fun a b => version b < version a) ↔
      ∀ a ∈ disk.foldersIn framework, ∀ b ∈ disk.foldersIn framework,
        (version a).core = (version b).core → version a < version b →
          (version b).label ≠ [] ∧ (version a).labelNumbers < (version b).labelNumbers) := by
  have numbers : ∀ {a b : Path}, a ∈ disk.foldersIn framework → b ∈ disk.foldersIn framework →
      (numbersIn a.name < numbersIn b.name ↔ (version a).core < (version b).core ∨
        (version a).core = (version b).core ∧
          (version a).labelNumbers < (version b).labelNumbers) := by
    intro a b first second
    rw [named a first, named b second, Version.numbers_lt_iff]
  refine ⟨fun other h => ?_, fun descend a first b second core older => ?_, fun told other h => ?_⟩
  · obtain ⟨all, sorted⟩ := listed_areByNumbers inside h
    refine ⟨all, sorted.imp_of_mem fun {a b} held held' above => not_lt.mp fun less => ?_⟩
    have smaller := (numbers (all.mem_iff.mp held) (all.mem_iff.mp held')).mpr (Or.inl less)
    exact not_lt.mpr above smaller
  · have greater : (version a).labelNumbers < (version b).labelNumbers := by
      by_contra smaller
      have above : numbersIn b.name ≤ numbersIn a.name := by
        rw [← not_lt, numbers first second, core, lt_self_iff_false, false_or, eq_self, true_and]
        exact smaller
      have ne : a ≠ b := fun same => lt_irrefl _ (same ▸ older)
      obtain ⟨other, h, ahead⟩ := ahead_in_some_listing inside first second ne above
      have newer := List.pairwise_pair.mp ((descend other h).sublist ahead)
      exact lt_asymm older newer
    refine ⟨fun release => ?_, greater⟩
    rw [Version.labelNumbers, Version.labelNumbers, release, List.flatMap_nil] at greater
    exact List.not_lt_nil _ greater
  · obtain ⟨all, sorted⟩ := listed_areByNumbers inside h
    have once := all.nodup_iff.mpr (disk.foldersIn_nodup framework)
    refine (sorted.and once).imp_of_mem fun {a b} held held' apart => ?_
    obtain ⟨above, ne⟩ := apart
    have first := all.mem_iff.mp held
    have second := all.mem_iff.mp held'
    refine lt_of_not_ge fun below => not_lt.mpr above ((numbers first second).mpr ?_)
    have unequal : version a ≠ version b := fun same =>
      ne (Disk.eq_of_name first second (by rw [named a first, named b second, same]))
    have older : version a < version b := lt_of_le_of_ne below unequal
    rcases Version.lt_iff.mp older with core | ⟨core, -⟩
    · exact Or.inl core
    · exact Or.inr ⟨core, (told a first b second core older).2⟩

end

/-! An installation of one framework. -/

def sdkRoot : Path := ⟨true, ["sdk"]⟩

def coreApp : Path := ⟨true, ["sdk", "shared", "App"]⟩

def installed (versions : List Version) : Disk where
  working := []
  entries := .ofList <| [["sdk"], ["sdk", "shared"], ["sdk", "shared", "App"]].map (·, .folder) ++
    versions.map fun v => (["sdk", "shared", "App", v.text], .folder)

def versionOf (versions : List Version) (folder : Path) : Version :=
  (versions.find? fun v => v.text = folder.name).getD ⟨0, 0, 0, []⟩

def preview : LabelPart := .word ⟨"preview", by decide, by decide⟩

def candidate : LabelPart := .word ⟨"rc", by decide, by decide⟩

/-- Pre-releases of one word, without the release. -/
theorem candidates_descend :
    let versions : List Version := [⟨8, 0, 2, []⟩, ⟨9, 0, 0, [candidate, .number 1]⟩,
      ⟨10, 0, 0, []⟩, ⟨9, 0, 0, [candidate, .number 2, .number 10]⟩]
    coreApp ∈ (installed versions).foldersIn (sdkRoot.child "shared") ∧
      (∀ folder ∈ (installed versions).foldersIn coreApp,
        folder.name = (versionOf versions folder).text) ∧
      ∀ other, (installed versions).Relists other →
        (versionsListed other sdkRoot coreApp).Pairwise fun a b =>
          versionOf versions b < versionOf versions a := by
  intro versions
  have inside : coreApp ∈ (installed versions).foldersIn (sdkRoot.child "shared") := by
    decide +kernel
  have named : ∀ folder ∈ (installed versions).foldersIn coreApp,
      folder.name = (versionOf versions folder).text := by decide +kernel
  refine ⟨inside, named, (versions_descend_iff inside named).2.mpr ?_⟩
  decide +kernel

theorem sharedFrameworkFolders_installed {versions : List Version} {folders : List Path}
    (alone : (installed versions).foldersIn (sdkRoot.child "shared") = [coreApp])
    (listed : (installed versions).foldersIn coreApp = folders)
    (sorted : folders.Pairwise fun a b => numbersIn b.name ≤ numbersIn a.name) :
    sharedFrameworkFolders (installed versions) sdkRoot = folders := by
  rw [sharedFrameworkFolders, alone, byName, List.mergeSort_singleton,
    List.flatMap_singleton, listed]
  exact List.mergeSort_of_pairwise (sorted.imp fun {a b} => (newer_comparesBy a b).mpr)

/-- A pre-release is listed before its release, and a preview before the candidate that came
later. -/
theorem older_listed_first :
    sharedFrameworkFolders (installed [⟨9, 0, 0, [candidate, .number 1, .number 24431, .number 7]⟩,
        ⟨9, 0, 0, []⟩]) sdkRoot = [coreApp.child "9.0.0-rc.1.24431.7", coreApp.child "9.0.0"] ∧
      (⟨9, 0, 0, [candidate, .number 1, .number 24431, .number 7]⟩ : Version) < ⟨9, 0, 0, []⟩ ∧
    sharedFrameworkFolders (installed [⟨9, 0, 0, [preview, .number 7, .number 24405, .number 7]⟩,
        ⟨9, 0, 0, [candidate, .number 1, .number 24431, .number 7]⟩]) sdkRoot =
      [coreApp.child "9.0.0-preview.7.24405.7", coreApp.child "9.0.0-rc.1.24431.7"] ∧
      (⟨9, 0, 0, [preview, .number 7, .number 24405, .number 7]⟩ : Version) <
        ⟨9, 0, 0, [candidate, .number 1, .number 24431, .number 7]⟩ := by
  refine ⟨sharedFrameworkFolders_installed ?_ ?_ ?_, ?_,
    sharedFrameworkFolders_installed ?_ ?_ ?_, ?_⟩ <;> decide +kernel

end HiddenNames
