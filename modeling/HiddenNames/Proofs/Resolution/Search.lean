import HiddenNames.Proofs.Resolution.Memory
import HiddenNames.Proofs.Resolution.Worklist
import HiddenNames.Proofs.Source.Lookup

/-!
What the search through the references comes to. It passes the references that do not define a type
of the written path and keeps the types whose paths end so; the first reference that does ends it,
and if there is none a single type that was kept is the answer. So the answer is told by the sets of
types that the references define.
-/

namespace HiddenNames

structure Definition where
  path : List (String × Nat)
  fullName : String
  deriving DecidableEq, Repr

def TypeView.definition (v : TypeView) : Definition := ⟨v.path, v.fullName⟩

namespace References

open SourceProgram (only only_eq_some eq_singleton_iff)

abbrev contentAt (disk : Disk) (decode : Decoder) (path : Path) :
    Except ReadError Metadata.Records :=
  Reader.content disk decode (disk.resolve path)

/-- The types of a reference, none if it is passed over or cannot be told. -/
def listed (disk : Disk) (decode : Decoder) (path : Path) : List TypeView :=
  match typesIn (contentAt disk decode path) with
  | .ok types => types
  | .error _ => []

def tailsIn (disk : Disk) (decode : Decoder) (ref : TypeRef) (path : Path) : List Place :=
  ((listed disk decode path).filter fun v => ref.namesTail v.path).map (placeOf path)

/-- The search goes on behind a reference that has no type of the written path. -/
structure Passes (disk : Disk) (decode : Decoder) (ref : TypeRef) (path : Path) : Prop where
  told : typesIn (contentAt disk decode path) = .ok (listed disk decode path)
  absent : ∀ v ∈ listed disk decode path, v.path ≠ ref.path

variable {disk : Disk} {decode : Decoder} {reader : Reader} {ref : TypeRef} {tails : List Place}
  {paths before rest : List Path} {path : Path} {types : List TypeView} {v : TypeView}

/-- Which types of a reference are kept, where it has none of the written path. -/
theorem Passes.mem_kept (h : Passes disk decode ref path) :
    (v ∈ (listed disk decode path).filter fun v => ref.namesTail v.path) ↔
      v ∈ listed disk decode path ∧ ref.IsTailOf v.path := by
  rw [List.mem_filter, TypeRef.namesTail_iff]
  exact and_congr_right fun held => and_iff_right (h.absent v held)

theorem listed_of_typesIn (h : typesIn (contentAt disk decode path) = .ok types) :
    listed disk decode path = types := by
  rw [listed, h]

/-! Steps of the search. -/

theorem search_pass (agrees : reader.Agrees disk decode) (passes : Passes disk decode ref path)
    (tails : List Place) (rest : List Path) :
    ∃ later : Reader, later.Agrees disk decode ∧
      search disk decode ref reader tails (path :: rest) =
        search disk decode ref later (tails ++ tailsIn disk decode ref path) rest := by
  have none : (listed disk decode path).filter (fun v => ref.names v.path) = [] :=
    List.filter_eq_nil_iff.mpr fun v held named =>
      passes.absent v held (TypeRef.names_iff.mp named)
  refine ⟨_, Reader.read_agrees agrees path, ?_⟩
  simp only [search, Reader.read_answer agrees path, passes.told, matchRef, none, tailsIn]

theorem search_stop (agrees : reader.Agrees disk decode)
    (told : typesIn (contentAt disk decode path) = .ok (listed disk decode path))
    (found : (listed disk decode path).find? (fun v => ref.names v.path) = some v) :
    (search disk decode ref reader tails (path :: rest)).1 = .ok (some (placeOf path v)) := by
  rw [← List.head?_filter, List.head?_eq_some_iff] at found
  obtain ⟨more, full⟩ := found
  simp only [search, Reader.read_answer agrees path, told, matchRef, full]

theorem search_fail (agrees : reader.Agrees disk decode) {e : Mishap}
    (failed : typesIn (contentAt disk decode path) = .error e) :
    (search disk decode ref reader tails (path :: rest)).1 = .error e := by
  simp only [search, Reader.read_answer agrees path, failed]

/-- References that are passed leave nothing but the types whose paths end as written. -/
theorem search_past (agrees : reader.Agrees disk decode)
    (passed : ∀ q ∈ before, Passes disk decode ref q) (tails : List Place) (rest : List Path) :
    ∃ later : Reader, later.Agrees disk decode ∧
      search disk decode ref reader tails (before ++ rest) =
        search disk decode ref later (tails ++ before.flatMap (tailsIn disk decode ref)) rest := by
  induction before generalizing reader tails with
  | nil => exact ⟨reader, agrees, by rw [List.flatMap_nil, List.append_nil, List.nil_append]⟩
  | cons path others ih =>
    obtain ⟨first, more⟩ := List.forall_mem_cons.mp passed
    obtain ⟨next, agrees, step⟩ := search_pass agrees first tails (others ++ rest)
    obtain ⟨later, agrees, run⟩ := ih agrees more (tails ++ tailsIn disk decode ref path)
    refine ⟨later, agrees, ?_⟩
    rw [List.cons_append, step, run, List.flatMap_cons, List.append_assoc]

/-! Runs. -/

theorem find_of_passed (agrees : reader.Agrees disk decode)
    (passed : ∀ q ∈ paths, Passes disk decode ref q) :
    (find disk decode paths reader ref).1 =
      .ok (only (paths.flatMap (tailsIn disk decode ref))) := by
  obtain ⟨later, -, run⟩ := search_past agrees passed [] []
  rw [List.append_nil, List.nil_append] at run
  rw [find, run]
  rcases paths.flatMap (tailsIn disk decode ref) with _ | ⟨_, _ | _⟩ <;> rfl

theorem find_of_stop (agrees : reader.Agrees disk decode)
    (passed : ∀ q ∈ before, Passes disk decode ref q)
    (told : typesIn (contentAt disk decode path) = .ok (listed disk decode path))
    (found : (listed disk decode path).find? (fun v => ref.names v.path) = some v) :
    (find disk decode (before ++ path :: rest) reader ref).1 = .ok (some (placeOf path v)) := by
  obtain ⟨later, agrees, run⟩ := search_past agrees passed [] (path :: rest)
  rw [find, run]
  exact search_stop agrees told found

theorem find_of_fail (agrees : reader.Agrees disk decode)
    (passed : ∀ q ∈ before, Passes disk decode ref q) {e : Mishap}
    (failed : typesIn (contentAt disk decode path) = .error e) :
    (find disk decode (before ++ path :: rest) reader ref).1 = .error e := by
  obtain ⟨later, agrees, run⟩ := search_past agrees passed [] (path :: rest)
  rw [find, run]
  exact search_fail agrees failed

/-- The search passes all references, or it comes to a first one that it does not pass. -/
theorem passes_or_ends (disk : Disk) (decode : Decoder) (ref : TypeRef) (paths : List Path) :
    (∀ q ∈ paths, Passes disk decode ref q) ∨
      ∃ before path rest, paths = before ++ path :: rest ∧
        (∀ q ∈ before, Passes disk decode ref q) ∧ ¬Passes disk decode ref path := by
  induction paths with
  | nil => exact .inl nofun
  | cons path others ih =>
    by_cases passes : Passes disk decode ref path
    · rcases ih with all | ⟨before, last, rest, rfl, passed, ends⟩
      · exact .inl (List.forall_mem_cons.mpr ⟨passes, all⟩)
      · exact .inr ⟨path :: before, last, rest, rfl,
          List.forall_mem_cons.mpr ⟨passes, passed⟩, ends⟩
    · exact .inr ⟨[], path, others, rfl, nofun, passes⟩

/-- The search ends at a reference that has a type of the written path, or at one that fails. -/
theorem ends_cases (ends : ¬Passes disk decode ref path) :
    (typesIn (contentAt disk decode path) = .ok (listed disk decode path) ∧
      ∃ v, (listed disk decode path).find? (fun v => ref.names v.path) = some v) ∨
    ∃ e, typesIn (contentAt disk decode path) = .error e := by
  cases told : typesIn (contentAt disk decode path) with
  | error e => exact .inr ⟨e, rfl⟩
  | ok types =>
    have same := listed_of_typesIn told
    refine .inl ⟨congrArg Except.ok same.symm, ?_⟩
    rw [← same] at told
    rw [← Option.isSome_iff_exists, List.find?_isSome]
    by_contra none
    exact ends ⟨told, fun v held same => none ⟨v, held, TypeRef.names_iff.mpr same⟩⟩

/-! What references define. -/

def Defines (disk : Disk) (decode : Decoder) (path : Path) (d : Definition) : Prop :=
  ∃ records, contentAt disk decode path = .ok records ∧ ∃ v ∈ typesOf records, v.definition = d

def IsReadable (disk : Disk) (decode : Decoder) (path : Path) : Prop :=
  ∀ records, contentAt disk decode path = .ok records →
    ∀ v ∈ typesOf records, v.head.nameError = none

structure IsSound (disk : Disk) (decode : Decoder) (path : Path) : Prop where
  skipped : ∀ e, contentAt disk decode path ≠ .error (.arity e)
  readable : IsReadable disk decode path
  distinct : ∀ records, contentAt disk decode path = .ok records →
    ((typesOf records).map TypeView.path).Nodup

/-- What a reference names among references by the types that they define: a type of the written
path in the first one that has one, or, if none has, the one type of them all whose path ends so. -/
inductive Answers (defines : Path → Definition → Prop) (ref : TypeRef) (paths : List Path) :
    Place → Prop where
  | full {before rest : List Path} {path : Path} {d : Definition}
      (order : paths = before ++ path :: rest)
      (earlier : ∀ q ∈ before, ∀ other, defines q other → other.path ≠ ref.path)
      (held : defines path d) (named : d.path = ref.path) :
      Answers defines ref paths (path.stem, d.fullName)
  | tail {before rest : List Path} {path : Path} {d : Definition}
      (order : paths = before ++ path :: rest)
      (absent : ∀ q ∈ paths, ∀ other, defines q other → other.path ≠ ref.path)
      (held : defines path d) (ends : ref.IsTailOf d.path)
      (alone : ∀ other, defines path other → ref.IsTailOf other.path → other = d)
      (nowhere : ∀ q ∈ before ++ rest, ∀ other, defines q other → ¬ref.IsTailOf other.path) :
      Answers defines ref paths (path.stem, d.fullName)

theorem IsReadable.listed_eq (h : IsReadable disk decode path) {records : Metadata.Records}
    (content : contentAt disk decode path = .ok records) :
    listed disk decode path = typesOf records := by
  rw [listed, content, typesIn_of_readable (h records content)]

theorem listed_of_error {e : ReadError} (content : contentAt disk decode path = .error e) :
    listed disk decode path = [] := by
  rw [listed, content]
  cases e <;> rfl

theorem IsReadable.defines_iff (h : IsReadable disk decode path) {d : Definition} :
    Defines disk decode path d ↔ ∃ v ∈ listed disk decode path, v.definition = d := by
  rw [Defines]
  cases content : contentAt disk decode path with
  | ok records => simp only [h.listed_eq content, Except.ok.injEq, exists_eq_left']
  | error e => simp [listed_of_error content]

theorem IsReadable.passes_iff (h : IsReadable disk decode path)
    (told : typesIn (contentAt disk decode path) = .ok (listed disk decode path)) :
    Passes disk decode ref path ↔ ∀ d, Defines disk decode path d → d.path ≠ ref.path := by
  constructor
  · rintro passes d defined
    obtain ⟨v, held, rfl⟩ := h.defines_iff.mp defined
    exact passes.absent v held
  · exact fun absent => ⟨told, fun v held => absent v.definition (h.defines_iff.mpr ⟨v, held, rfl⟩)⟩

namespace IsSound

theorem told (h : IsSound disk decode path) :
    typesIn (contentAt disk decode path) = .ok (listed disk decode path) := by
  cases content : contentAt disk decode path with
  | ok records =>
    rw [h.readable.listed_eq content, typesIn_of_readable (h.readable records content)]
  | error e =>
    rw [listed_of_error content]
    cases e with
    | arity e => exact absurd content (h.skipped e)
    | missing | unreadable | notAssembly => rfl

theorem distinct_listed (h : IsSound disk decode path) :
    ((listed disk decode path).map TypeView.path).Nodup := by
  cases content : contentAt disk decode path with
  | ok records =>
    rw [h.readable.listed_eq content]
    exact h.distinct records content
  | error e =>
    rw [listed_of_error content]
    exact List.nodup_nil

theorem defines_iff (h : IsSound disk decode path) {d : Definition} :
    Defines disk decode path d ↔ ∃ v ∈ listed disk decode path, v.definition = d :=
  h.readable.defines_iff

theorem passes_iff (h : IsSound disk decode path) :
    Passes disk decode ref path ↔ ∀ d, Defines disk decode path d → d.path ≠ ref.path :=
  h.readable.passes_iff h.told

theorem tailsIn_eq_nil_iff (h : IsSound disk decode path) (passes : Passes disk decode ref path) :
    tailsIn disk decode ref path = [] ↔
      ∀ d, Defines disk decode path d → ¬ref.IsTailOf d.path := by
  rw [tailsIn, List.map_eq_nil_iff, List.eq_nil_iff_forall_not_mem]
  constructor
  · rintro none d defined ends
    obtain ⟨v, held, rfl⟩ := h.defines_iff.mp defined
    exact none v (passes.mem_kept.mpr ⟨held, ends⟩)
  · intro nowhere v kept
    obtain ⟨held, ends⟩ := passes.mem_kept.mp kept
    exact nowhere v.definition (h.defines_iff.mpr ⟨v, held, rfl⟩) ends

theorem tailsIn_eq_singleton_iff (h : IsSound disk decode path)
    (passes : Passes disk decode ref path) {place : Place} :
    tailsIn disk decode ref path = [place] ↔
      ∃ d, Defines disk decode path d ∧ ref.IsTailOf d.path ∧ (path.stem, d.fullName) = place ∧
        ∀ other, Defines disk decode path other → ref.IsTailOf other.path → other = d := by
  have distinct : ((listed disk decode path).filter fun v => ref.namesTail v.path).Nodup :=
    (List.Nodup.of_map _ h.distinct_listed).filter _
  rw [tailsIn, List.map_eq_singleton_iff]
  constructor
  · rintro ⟨v, single, rfl⟩
    obtain ⟨kept, alone⟩ := (eq_singleton_iff distinct).mp single
    obtain ⟨held, ends⟩ := passes.mem_kept.mp kept
    refine ⟨v.definition, h.defines_iff.mpr ⟨v, held, rfl⟩, ends, rfl,
      fun other defined ends' => ?_⟩
    obtain ⟨w, held', rfl⟩ := h.defines_iff.mp defined
    rw [alone w (passes.mem_kept.mpr ⟨held', ends'⟩)]
  · rintro ⟨d, defined, ends, rfl, alone⟩
    obtain ⟨v, held, rfl⟩ := h.defines_iff.mp defined
    refine ⟨v, (eq_singleton_iff distinct).mpr ⟨passes.mem_kept.mpr ⟨held, ends⟩, ?_⟩, rfl⟩
    intro w kept
    obtain ⟨held', ends'⟩ := passes.mem_kept.mp kept
    have same := alone w.definition (h.defines_iff.mpr ⟨w, held', rfl⟩) ends'
    exact List.inj_on_of_nodup_map h.distinct_listed held' held (congrArg Definition.path same)

end IsSound

/-! The answer. -/

theorem mem_of_parts (parts : paths = before ++ path :: rest) :
    path ∈ paths ∧ ∀ q ∈ before ++ rest, q ∈ paths := by
  subst parts
  have subset := List.sublist_cons_self path rest |>.append_left before |>.subset
  exact ⟨List.mem_append_right _ List.mem_cons_self, fun q other => subset other⟩

/-- One type is kept of all references if one reference keeps it and the others keep none. -/
theorem kept_eq_singleton_iff {place : Place} :
    paths.flatMap (tailsIn disk decode ref) = [place] ↔
      ∃ before path rest, paths = before ++ path :: rest ∧
        tailsIn disk decode ref path = [place] ∧
          ∀ q ∈ before ++ rest, tailsIn disk decode ref q = [] := by
  rw [List.flatMap_def, List.flatten_eq_singleton_iff]
  constructor
  · rintro ⟨front, back, parts, before_nil, rest_nil⟩
    obtain ⟨before, more, rfl, rfl, tail⟩ := List.map_eq_append_iff.mp parts
    obtain ⟨path, rest, rfl, single, rfl⟩ := List.map_eq_cons_iff.mp tail
    exact ⟨before, path, rest, rfl, single, List.forall_mem_append.mpr
      ⟨List.forall_mem_map.mp before_nil, List.forall_mem_map.mp rest_nil⟩⟩
  · rintro ⟨before, path, rest, rfl, single, none⟩
    obtain ⟨before_nil, rest_nil⟩ := List.forall_mem_append.mp none
    exact ⟨before.map (tailsIn disk decode ref), rest.map (tailsIn disk decode ref),
      by rw [List.map_append, List.map_cons, single], List.forall_mem_map.mpr before_nil,
      List.forall_mem_map.mpr rest_nil⟩

/-- Where no reference has a type of the written path, an answer is the one type that is kept. -/
theorem answers_iff_of_passed (sound : ∀ q ∈ paths, IsSound disk decode q)
    (passed : ∀ q ∈ paths, Passes disk decode ref q) {place : Place} :
    Answers (Defines disk decode) ref paths place ↔
      paths.flatMap (tailsIn disk decode ref) = [place] := by
  have absent : ∀ q ∈ paths, ∀ d, Defines disk decode q d → d.path ≠ ref.path :=
    fun q among => (sound q among).passes_iff.mp (passed q among)
  rw [kept_eq_singleton_iff]
  constructor
  · intro answers
    cases answers with
    | full order _ held named => exact absurd named (absent _ (mem_of_parts order).1 _ held)
    | @tail before rest path d order _ held ends alone nowhere =>
      obtain ⟨here, others⟩ := mem_of_parts order
      refine ⟨before, path, rest, order, ?_, fun q other => ?_⟩
      · exact ((sound path here).tailsIn_eq_singleton_iff (passed path here)).mpr
          ⟨d, held, ends, rfl, alone⟩
      · exact ((sound q (others q other)).tailsIn_eq_nil_iff (passed q (others q other))).mpr
          (nowhere q other)
  · rintro ⟨before, path, rest, order, single, none⟩
    obtain ⟨here, others⟩ := mem_of_parts order
    obtain ⟨d, held, ends, rfl, alone⟩ :=
      ((sound path here).tailsIn_eq_singleton_iff (passed path here)).mp single
    exact .tail order absent held ends alone fun q other =>
      ((sound q (others q other)).tailsIn_eq_nil_iff (passed q (others q other))).mp (none q other)

theorem parts_compare {α : Type} {xs xs' ys ys' : List α} {x x' : α}
    (same : xs ++ x :: ys = xs' ++ x' :: ys') : x = x' ∨ x ∈ xs' ∨ x' ∈ xs := by
  rcases List.append_eq_append_iff.mp same with ⟨middle, rfl, rest⟩ | ⟨middle, rfl, rest⟩
  · rcases middle with _ | ⟨y, middle⟩
    · exact .inl (List.cons.inj rest).1
    · obtain rfl := (List.cons.inj rest).1
      exact .inr (.inl (List.mem_append_right _ List.mem_cons_self))
  · rcases middle with _ | ⟨y, middle⟩
    · exact .inl (List.cons.inj rest).1.symm
    · obtain rfl := (List.cons.inj rest).1
      exact .inr (.inr (List.mem_append_right _ List.mem_cons_self))

theorem answers_iff_of_stop (sound : ∀ q ∈ before ++ path :: rest, IsSound disk decode q)
    (passed : ∀ q ∈ before, Passes disk decode ref q) (held : v ∈ listed disk decode path)
    (named : v.path = ref.path) {place : Place} :
    Answers (Defines disk decode) ref (before ++ path :: rest) place ↔ placeOf path v = place := by
  have here : path ∈ before ++ path :: rest := List.mem_append_right _ List.mem_cons_self
  have defined : Defines disk decode path v.definition :=
    (sound path here).defines_iff.mpr ⟨v, held, rfl⟩
  have absent : ∀ q ∈ before, ∀ other, Defines disk decode q other → other.path ≠ ref.path :=
    fun q first => (sound q (List.mem_append_left _ first)).passes_iff.mp (passed q first)
  constructor
  · intro answers
    cases answers with
    | @full before' rest' path' d order earlier held' named' =>
      obtain rfl : path = path' := by
        rcases parts_compare order with same | first | first
        · exact same
        · exact absurd named (earlier path first _ defined)
        · exact absurd named' (absent path' first d held')
      obtain ⟨w, kept, rfl⟩ := (sound path here).defines_iff.mp held'
      rw [List.inj_on_of_nodup_map (sound path here).distinct_listed held kept
        (named.trans named'.symm)]
      rfl
    | tail order nothing held' ends alone nowhere =>
      exact absurd named (nothing path here _ defined)
  · rintro rfl
    exact .full rfl absent defined named

/-- The search finds what the types of the references say, or nothing if they say nothing. -/
theorem find_answers (agrees : reader.Agrees disk decode)
    (sound : ∀ q ∈ paths, IsSound disk decode q) (ref : TypeRef) :
    ∃ place?, (find disk decode paths reader ref).1 = .ok place? ∧
      ∀ place, place? = some place ↔ Answers (Defines disk decode) ref paths place := by
  rcases passes_or_ends disk decode ref paths with passed | ⟨before, path, rest, rfl, passed, ends⟩
  · refine ⟨_, find_of_passed agrees passed, fun place => ?_⟩
    rw [only_eq_some, answers_iff_of_passed sound passed]
  · have here := sound path (List.mem_append_right _ List.mem_cons_self)
    rcases ends_cases ends with ⟨told, v, found⟩ | ⟨e, failed⟩
    · refine ⟨_, find_of_stop agrees passed told found, fun place => ?_⟩
      obtain ⟨held, named⟩ := (find?_key_iff here.distinct_listed).mp found
      rw [Option.some_inj, answers_iff_of_stop sound passed held named]
    · cases here.told.symm.trans failed

end References

end HiddenNames
