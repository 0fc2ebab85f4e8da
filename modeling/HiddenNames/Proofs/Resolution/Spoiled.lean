import HiddenNames.Resolution.Reader
import HiddenNames.Proofs.Resolution.Search
import HiddenNames.Proofs.Types.Arity

/-!
Files that spoil a search. A file that is missing or no assembly is passed over, but a numeral in
the name of a row that cannot be read is an error of its own, which ends the search. It is met
unless a type of the written path was found before; a search that does not meet one comes to what
the readable files alone say.
-/

namespace HiddenNames

open Metadata (RawType Counts buildRecords)

abbrev RowReader := Path → ByteArray → Option (List RawType × List (Int × Int))

/-- Records are built of rows that were read. Without rows, a file is refused for what it is. -/
structure Decoder.BuildsFrom (decode : Decoder) (rowsOf : RowReader) : Prop where
  built : ∀ {path bytes rows nesting}, rowsOf path bytes = some (rows, nesting) →
    decode path bytes = (buildRecords rows nesting).mapError ReadError.arity
  refused : ∀ {path bytes}, rowsOf path bytes = none →
    ∃ e, decode path bytes = .error e ∧ ∀ a, e ≠ .arity a

namespace Metadata

def imageRows : RowReader := fun _ bytes =>
  ((Image.ofBytes? bytes).bind Streams.ofImage?).map fun streams =>
    ((Tables.ofStreams streams).types, (Tables.ofStreams streams).nesting)

/-- Assemblies are decoded in this way. -/
theorem decode_buildsFrom : Decoder.BuildsFrom decode imageRows := by
  refine ⟨fun {path bytes rows nesting} read => ?_, fun {path bytes} none => ?_⟩
  · rw [imageRows, Option.map_eq_some_iff] at read
    obtain ⟨streams, found, same⟩ := read
    obtain ⟨image, opened, tables⟩ := Option.bind_eq_some_iff.mp found
    obtain ⟨rfl, rfl⟩ := Prod.mk.inj same
    simp only [decode, opened, tables]
  · rw [imageRows, Option.map_eq_none_iff] at none
    cases opened : Image.ofBytes? bytes with
    | none => exact ⟨.unreadable path, by simp only [decode, opened], nofun⟩
    | some image =>
      rw [opened, Option.bind_some] at none
      exact ⟨.notAssembly path, by simp only [decode, opened, none], nofun⟩

end Metadata

namespace References

variable {disk : Disk} {decode : Decoder} {rowsOf : RowReader} {reader : Reader} {ref : TypeRef}
  {paths : List Path} {path : Path} {records : Metadata.Records}

def rowsAt (disk : Disk) (rowsOf : RowReader) (path : Path) :
    Option (List RawType × List (Int × Int)) :=
  (disk.read? (disk.resolve path)).bind (rowsOf (disk.resolve path))

/-- A reference has a row that counts, in whose name stands a numeral that cannot be read. -/
def IsSpoiled (disk : Disk) (rowsOf : RowReader) (path : Path) : Prop :=
  ∃ rows nesting, rowsAt disk rowsOf path = some (rows, nesting) ∧
    ∃ raw, Counts rows raw ∧ ¬HasLegibleArity raw.name

/-- The search comes to a spoiled reference: none of those before it has a type of the written
path. -/
def MeetsSpoiled (disk : Disk) (decode : Decoder) (rowsOf : RowReader) (ref : TypeRef)
    (paths : List Path) : Prop :=
  ∃ before path rest, paths = before ++ path :: rest ∧ IsSpoiled disk rowsOf path ∧
    ∀ q ∈ before, ∀ d, Defines disk decode q d → d.path ≠ ref.path

def readOf (disk : Disk) (decode : Decoder) (paths : List Path) : List Path :=
  paths.filter fun path => (contentAt disk decode path).isOk

/-! Reading. -/

section reading

variable (build : decode.BuildsFrom rowsOf)

include build

theorem content_of_rows {rows : List RawType} {nesting : List (Int × Int)}
    (read : rowsAt disk rowsOf path = some (rows, nesting)) :
    contentAt disk decode path = (buildRecords rows nesting).mapError ReadError.arity := by
  obtain ⟨bytes, found, given⟩ := Option.bind_eq_some_iff.mp read
  rw [contentAt, Reader.content, found]
  exact build.built given

theorem content_without_rows (none : rowsAt disk rowsOf path = none) :
    ∃ e, contentAt disk decode path = .error e ∧ ∀ a, e ≠ .arity a := by
  rw [contentAt, Reader.content]
  cases found : disk.read? (disk.resolve path) with
  | none => exact ⟨_, rfl, nofun⟩
  | some bytes =>
    rw [rowsAt, found, Option.bind_some] at none
    exact build.refused none

/-- A reference that is read has no numerals that cannot be read, and its records are made of its
rows. -/
theorem rows_of_content (content : contentAt disk decode path = .ok records) :
    ∃ rows nesting, rowsAt disk rowsOf path = some (rows, nesting) ∧
      (∀ raw, Counts rows raw → HasLegibleArity raw.name) ∧
      records = Metadata.forest rows nesting := by
  cases read : rowsAt disk rowsOf path with
  | none =>
    obtain ⟨e, failed, -⟩ := content_without_rows build read
    cases content.symm.trans failed
  | some tables =>
    obtain ⟨rows, nesting⟩ := tables
    rw [content_of_rows build read] at content
    cases made : buildRecords rows nesting with
    | error e =>
      rw [made] at content
      cases content
    | ok found =>
      rw [made] at content
      obtain rfl := Except.ok.inj content
      obtain ⟨legible, same⟩ := Metadata.buildRecords_eq_ok_iff.mp made
      exact ⟨rows, nesting, rfl, fun raw counts => splitArity_ok_iff.mp (legible raw counts), same⟩

theorem isReadable : IsReadable disk decode path := by
  intro records content v held
  obtain ⟨rows, nesting, -, legible, rfl⟩ := rows_of_content build content
  obtain ⟨key, record, among, inside⟩ := Metadata.mem_typesOf.mp held
  obtain ⟨raw, counted, head⟩ := Metadata.head_of_inside among inside
  obtain ⟨parts, read⟩ :=
    splitArity_ok_iff.mpr (legible raw (Metadata.mem_orderedRows_iff.mp counted))
  rw [head, RawType.typeHead_nameError read]

/-- Of all ways to fail, numerals alone are no reason to pass a reference over. -/
theorem isSpoiled_iff :
    IsSpoiled disk rowsOf path ↔ ∃ e, contentAt disk decode path = .error (.arity e) := by
  constructor
  · rintro ⟨rows, nesting, read, raw, counts, illegible⟩
    rw [content_of_rows build read]
    cases made : buildRecords rows nesting with
    | error e => exact ⟨e, rfl⟩
    | ok records =>
      have legible := (Metadata.buildRecords_eq_ok_iff.mp made).1 raw counts
      exact absurd (splitArity_ok_iff.mp legible) illegible
  · rintro ⟨e, failed⟩
    cases read : rowsAt disk rowsOf path with
    | none =>
      obtain ⟨e', failed', skipped⟩ := content_without_rows build read
      exact absurd (Except.error.inj (failed'.symm.trans failed)) (skipped e)
    | some tables =>
      obtain ⟨rows, nesting⟩ := tables
      refine ⟨rows, nesting, read, ?_⟩
      by_contra none
      push Not at none
      have made : buildRecords rows nesting = .ok (Metadata.forest rows nesting) :=
        Metadata.buildRecords_eq_ok_iff.mpr
          ⟨fun raw counts => splitArity_ok_iff.mpr (none raw counts), rfl⟩
      rw [content_of_rows build read, made] at failed
      cases failed

theorem told_iff : typesIn (contentAt disk decode path) = .ok (listed disk decode path) ↔
    ¬IsSpoiled disk rowsOf path := by
  rw [isSpoiled_iff build]
  cases content : contentAt disk decode path with
  | ok records =>
    have readable : IsReadable disk decode path := isReadable build
    rw [readable.listed_eq content, typesIn_of_readable (readable records content)]
    exact iff_of_true rfl nofun
  | error e =>
    rw [listed_of_error content]
    cases e with
    | arity e => exact iff_of_false nofun (not_not_intro ⟨e, rfl⟩)
    | missing | unreadable | notAssembly => exact iff_of_true rfl nofun

theorem passes_iff_not_spoiled : Passes disk decode ref path ↔
    ¬IsSpoiled disk rowsOf path ∧ ∀ d, Defines disk decode path d → d.path ≠ ref.path := by
  constructor
  · intro passes
    exact ⟨(told_iff build).mp passes.told, ((isReadable build).passes_iff passes.told).mp passes⟩
  · rintro ⟨clean, absent⟩
    exact ((isReadable build).passes_iff ((told_iff build).mpr clean)).mpr absent

/-- Where the types of a reference cannot be told, a numeral is to blame. -/
theorem spoiled_of_fail {e : Mishap} (failed : typesIn (contentAt disk decode path) = .error e) :
    IsSpoiled disk rowsOf path ∧ ∃ a, e = .arity a := by
  have spoiled : IsSpoiled disk rowsOf path := by
    by_contra clean
    cases ((told_iff build).mpr clean).symm.trans failed
  obtain ⟨a, content⟩ := (isSpoiled_iff build).mp spoiled
  rw [content] at failed
  exact ⟨spoiled, a, (Except.error.inj failed).symm⟩

theorem not_spoiled_of_read (h : (contentAt disk decode path).isOk = true) :
    ¬IsSpoiled disk rowsOf path := by
  rw [isSpoiled_iff build]
  rintro ⟨e, failed⟩
  rw [failed] at h
  cases h

end reading

theorem tailsIn_of_unread (h : (contentAt disk decode path).isOk = false) :
    tailsIn disk decode ref path = [] := by
  cases content : contentAt disk decode path with
  | ok records =>
    rw [content] at h
    cases h
  | error e => rw [tailsIn, listed_of_error content, List.filter_nil, List.map_nil]

theorem isOk_of_mem_listed {v : TypeView} (held : v ∈ listed disk decode path) :
    (contentAt disk decode path).isOk = true := by
  cases content : contentAt disk decode path with
  | ok records => rfl
  | error e =>
    rw [listed_of_error content] at held
    cases held

theorem flatMap_tailsIn_readOf (paths : List Path) :
    (readOf disk decode paths).flatMap (tailsIn disk decode ref) =
      paths.flatMap (tailsIn disk decode ref) := by
  induction paths with
  | nil => rfl
  | cons path rest ih =>
    rw [List.flatMap_cons, ← ih, readOf, readOf, List.filter_cons]
    split
    · exact List.flatMap_cons
    · rename_i unread
      rw [tailsIn_of_unread (Bool.not_eq_true _ ▸ unread), List.nil_append]

/-! The search. -/

section search

variable (build : decode.BuildsFrom rowsOf) (agrees : reader.Agrees disk decode)

include build agrees

theorem find_of_meets (meets : MeetsSpoiled disk decode rowsOf ref paths) :
    ∃ a, (find disk decode paths reader ref).1 = .error (.arity a) := by
  obtain ⟨before, path, rest, rfl, spoiled, absent⟩ := meets
  have blocks : ¬Passes disk decode ref path := fun passes =>
    ((passes_iff_not_spoiled build).mp passes).1 spoiled
  rcases passes_or_ends disk decode ref (before ++ path :: rest) with
    passed | ⟨before', path', rest', order, passed, ends⟩
  · exact absurd (passed path (List.mem_append_right _ List.mem_cons_self)) blocks
  · rcases ends_cases ends with ⟨told, v, found⟩ | ⟨e, failed⟩
    · -- A type of the written path would have to come first, where there is none.
      have named : v.path = ref.path :=
        TypeRef.names_iff.mp (List.find?_some (p := fun v : TypeView => ref.names v.path) found)
      have defined : Defines disk decode path' v.definition :=
        (isReadable build).defines_iff.mpr ⟨v, List.mem_of_find?_eq_some found, rfl⟩
      rcases parts_compare order with rfl | first | first
      · exact absurd spoiled ((told_iff build).mp told)
      · exact absurd (passed path first) blocks
      · exact absurd named (absent path' first _ defined)
    · obtain ⟨-, a, rfl⟩ := spoiled_of_fail build failed
      rw [order]
      exact ⟨a, find_of_fail agrees passed failed⟩

theorem find_of_not_meets (clean : ¬MeetsSpoiled disk decode rowsOf ref paths) :
    (find disk decode paths reader ref).1 =
      (find disk decode (readOf disk decode paths) reader ref).1 := by
  rcases passes_or_ends disk decode ref paths with
    passed | ⟨before, path, rest, rfl, passed, ends⟩
  · have kept : ∀ q ∈ readOf disk decode paths, Passes disk decode ref q :=
      fun q among => passed q (List.mem_filter.mp among).1
    rw [find_of_passed agrees passed, find_of_passed agrees kept, flatMap_tailsIn_readOf]
  · have kept : ∀ q ∈ readOf disk decode before, Passes disk decode ref q :=
      fun q among => passed q (List.mem_filter.mp among).1
    rcases ends_cases ends with ⟨told, v, found⟩ | ⟨e, failed⟩
    · have read := isOk_of_mem_listed (List.mem_of_find?_eq_some found)
      have same : readOf disk decode (before ++ path :: rest) =
          readOf disk decode before ++ path :: readOf disk decode rest :=
        List.filter_append .. |>.trans (congrArg _ (List.filter_cons_of_pos read))
      rw [same, find_of_stop agrees passed told found, find_of_stop agrees kept told found]
    · refine absurd ⟨before, path, rest, rfl, (spoiled_of_fail build failed).1, ?_⟩ clean
      exact fun q first => ((passes_iff_not_spoiled build).mp (passed q first)).2

theorem find_readOf (ref : TypeRef) (paths : List Path) :
    ∃ place?, (find disk decode (readOf disk decode paths) reader ref).1 = .ok place? := by
  rcases passes_or_ends disk decode ref (readOf disk decode paths) with
    passed | ⟨before, path, rest, order, passed, ends⟩
  · exact ⟨_, find_of_passed agrees passed⟩
  · have among : path ∈ readOf disk decode paths :=
      order ▸ List.mem_append_right _ List.mem_cons_self
    rcases ends_cases ends with ⟨told, v, found⟩ | ⟨e, failed⟩
    · rw [order]
      exact ⟨_, find_of_stop agrees passed told found⟩
    · have clean := not_spoiled_of_read build (List.mem_filter.mp among).2
      exact absurd (spoiled_of_fail build failed).1 clean

/-- The references that are read have one answer. The search through all of them comes to it just if
it does not meet a spoiled one; if it does, it fails with the numeral that cannot be read. -/
theorem find_beside_unread (ref : TypeRef) (paths : List Path) :
    ∃ place?, (find disk decode (readOf disk decode paths) reader ref).1 = .ok place? ∧
      (¬MeetsSpoiled disk decode rowsOf ref paths →
        (find disk decode paths reader ref).1 = .ok place?) ∧
      (MeetsSpoiled disk decode rowsOf ref paths →
        ∃ a, (find disk decode paths reader ref).1 = .error (.arity a)) := by
  obtain ⟨place?, answer⟩ := find_readOf build agrees ref paths
  exact ⟨place?, answer, fun clean => (find_of_not_meets build agrees clean).trans answer,
    find_of_meets build agrees⟩

end search

/-! A raised digit. -/

def rowDecoder (rowsOf : RowReader) : Decoder := fun path bytes =>
  match rowsOf path bytes with
  | some (rows, nesting) => (buildRecords rows nesting).mapError ReadError.arity
  | none => .error (.notAssembly path)

theorem rowDecoder_buildsFrom (rowsOf : RowReader) : (rowDecoder rowsOf).BuildsFrom rowsOf := by
  refine ⟨fun read => ?_, fun {path _} none => ⟨.notAssembly path, ?_, nofun⟩⟩
  · rw [rowDecoder, read]
  · rw [rowDecoder, none]

def raisedPath : Path := ⟨true, ["bad", "A.dll"]⟩

def plainPath : Path := ⟨true, ["Lib.dll"]⟩

def raisedDisk : Disk where
  working := []
  entries := .ofList [(["bad"], .folder), (["bad", "A.dll"], .file ByteArray.empty false),
    (["Lib.dll"], .file ByteArray.empty false)]

def raisedRow : RawType := { index := 1, name := "T\x60²" }

def plainRow : RawType := { index := 1, name := "U", space := "N" }

/-- A file with a type whose arity is a raised digit, and one with an ordinary type. -/
def raisedRows : RowReader := fun path _ =>
  some ([if path = raisedPath then raisedRow else plainRow], [])

def plainRef : TypeRef := .mk none [.mk "N" [], .mk "U" []]

theorem raised_content : contentAt raisedDisk (rowDecoder raisedRows) raisedPath =
    .error (.arity (.notDecimal "²")) := rfl

def plainRecord : TypeRecord :=
  .node { name := "U", space? := some "N", visibility := .internal } []

theorem plain_content :
    contentAt raisedDisk (rowDecoder raisedRows) plainPath = .ok [("N.U", plainRecord)] := by
  have built : contentAt raisedDisk (rowDecoder raisedRows) plainPath =
      (buildRecords [plainRow] []).mapError ReadError.arity := rfl
  have ordered : Metadata.orderedRows [plainRow] = [plainRow] := List.mergeSort_singleton _
  rw [built, buildRecords, Metadata.forest, ordered]
  rfl

theorem plain_listed :
    listed raisedDisk (rowDecoder raisedRows) plainPath = [plainRecord.view .metadata] := by
  rw [listed, plain_content]
  rfl

theorem find_plain (rest : List Path) :
    (find raisedDisk (rowDecoder raisedRows) (plainPath :: rest) {} plainRef).1 =
      .ok (some ("Lib", "N.U")) := by
  have told : typesIn (contentAt raisedDisk (rowDecoder raisedRows) plainPath) =
      .ok (listed raisedDisk (rowDecoder raisedRows) plainPath) := by
    rw [listed, plain_content]
    rfl
  have found : (listed raisedDisk (rowDecoder raisedRows) plainPath).find?
      (fun v => plainRef.names v.path) = some (plainRecord.view .metadata) := by
    rw [plain_listed]
    rfl
  exact search_stop (Reader.empty_agrees _ _) told found

/-- A raised digit for an arity counts as a digit and is no numeral, so that the search fails over a
file that it would do without. -/
theorem raised_digit_spoils_search :
    (find raisedDisk (rowDecoder raisedRows) [raisedPath, plainPath] {} plainRef).1 =
        .error (.arity (.notDecimal "²")) ∧
      readOf raisedDisk (rowDecoder raisedRows) [raisedPath, plainPath] = [plainPath] ∧
      (find raisedDisk (rowDecoder raisedRows) [plainPath] {} plainRef).1 =
        .ok (some ("Lib", "N.U")) := by
  refine ⟨rfl, ?_, find_plain []⟩
  rw [readOf, List.filter_cons, List.filter_cons, raised_content, plain_content]
  rfl

/-- The search fails where the raised digit comes first, and does not get to it where the type
does. -/
theorem raised_digit_first_or_last :
    MeetsSpoiled raisedDisk (rowDecoder raisedRows) raisedRows plainRef [raisedPath, plainPath] ∧
      (∃ a, (find raisedDisk (rowDecoder raisedRows) [raisedPath, plainPath] {} plainRef).1 =
        .error (.arity a)) ∧
      ¬MeetsSpoiled raisedDisk (rowDecoder raisedRows) raisedRows plainRef [plainPath, raisedPath] ∧
      (find raisedDisk (rowDecoder raisedRows)
        (readOf raisedDisk (rowDecoder raisedRows) [plainPath, raisedPath]) {} plainRef).1 =
        .ok (some ("Lib", "N.U")) := by
  have build := rowDecoder_buildsFrom raisedRows
  have agrees := Reader.empty_agrees raisedDisk (rowDecoder raisedRows)
  have meets : MeetsSpoiled raisedDisk (rowDecoder raisedRows) raisedRows plainRef
      [raisedPath, plainPath] :=
    ⟨[], raisedPath, [plainPath], rfl, (isSpoiled_iff build).mpr ⟨_, raised_content⟩, nofun⟩
  have clean : ¬MeetsSpoiled raisedDisk (rowDecoder raisedRows) raisedRows plainRef
      [plainPath, raisedPath] := by
    rintro ⟨before, path, rest, order, spoiled, absent⟩
    rcases before with _ | ⟨q, before⟩
    · obtain rfl := (List.cons.inj order).1
      exact not_spoiled_of_read build (by rw [plain_content]; rfl) spoiled
    · obtain rfl := (List.cons.inj order).1
      have defined : Defines raisedDisk (rowDecoder raisedRows) plainPath
          (plainRecord.view .metadata).definition :=
        ⟨_, plain_content, _, List.mem_singleton_self _, rfl⟩
      exact absent plainPath List.mem_cons_self _ defined rfl
  obtain ⟨_, _, _, fails⟩ := find_beside_unread build agrees plainRef [raisedPath, plainPath]
  obtain ⟨place?, answer, whole, _⟩ :=
    find_beside_unread build agrees plainRef [plainPath, raisedPath]
  refine ⟨meets, fails meets, clean, answer.trans ?_⟩
  exact (whole clean).symm.trans (find_plain [raisedPath])

end References

end HiddenNames
