import HiddenNames.Resolution.Resolver

/-!
What a resolver remembers is what the world would tell it again: the modules that were loaded, the
records that were read, and the roots of installations. Every request keeps this agreement, and
under it the answer to a request does not depend on what is remembered.
-/

namespace HiddenNames

def Remembers {α β : Type} [BEq α] (entries : List (α × β)) (right : α → β → Prop) : Prop :=
  ∀ key value, entries.lookup key = some value → right key value

theorem Remembers.append {α β : Type} [BEq α] [LawfulBEq α] {entries : List (α × β)}
    {right : α → β → Prop} (h : Remembers entries right) {key : α} {value : β}
    (hv : right key value) : Remembers (entries ++ [(key, value)]) right := by
  intro other found held
  rw [List.lookup_append] at held
  cases prior : entries.lookup other with
  | some first =>
    rw [prior, Option.some_or] at held
    exact h other found (prior.trans held)
  | none =>
    by_cases same : other = key
    · subst same
      rw [prior, Option.none_or, List.lookup_cons_self] at held
      exact Option.some.inj held ▸ hv
    · have apart : (other == key) = false := by simpa using same
      rw [prior, Option.none_or, List.lookup_cons, apart] at held
      simp at held

/-- Every decision that is kept is the one that the process would come to again. -/
def Loader.Agrees (source : ModuleSource) (loader : Loader) : Prop :=
  Remembers loader.decided fun identity outcome => outcome = source identity

def Reader.Agrees (disk : Disk) (decode : Decoder) (reader : Reader) : Prop :=
  Remembers reader.cache fun path records => Reader.content disk decode path = .ok records

structure Session.Agrees (r : Resolver) (s : Session) : Prop where
  loader : s.loader.Agrees r.world.modules
  reader : s.reader.Agrees r.world.disk r.world.decode
  roots : ∀ roots, s.roots? = some roots → roots = r.locator.foundRoots r.world.disk

namespace Loader

variable {source : ModuleSource} {loader : Loader}

theorem load_answer (h : loader.Agrees source) (identity : String) :
    (loader.load source identity).1 = source identity := by
  unfold load
  split
  · rename_i outcome kept
    exact h identity outcome kept
  · rfl

theorem load_agrees (h : loader.Agrees source) (identity : String) :
    (loader.load source identity).2.Agrees source := by
  unfold load
  split
  · exact h
  · exact h.append rfl

theorem load_decides (h : loader.Agrees source) (identity : String) :
    (loader.load source identity).2.decided.lookup identity = some (source identity) := by
  unfold load
  split
  · rename_i outcome kept
    rw [kept, h identity outcome kept]
  · rename_i fresh
    rw [List.lookup_append, fresh, Option.none_or, List.lookup_cons_self]

end Loader

namespace Reader

variable {disk : Disk} {decode : Decoder} {reader : Reader}

theorem empty_agrees (disk : Disk) (decode : Decoder) : Reader.Agrees disk decode {} := by
  intro path records kept
  cases kept

/-- Reading gives what the file holds, whether it was read before or not. -/
theorem read_answer (h : reader.Agrees disk decode) (path : Path) :
    (reader.read disk decode path).1 = content disk decode (disk.resolve path) := by
  simp only [read]
  split
  · rename_i records kept
    exact (h _ records kept).symm
  · split
    · rename_i found
      exact found.symm
    · rename_i found
      exact found.symm

theorem read_agrees (h : reader.Agrees disk decode) (path : Path) :
    (reader.read disk decode path).2.Agrees disk decode := by
  simp only [read]
  split
  · exact h
  · split
    · rename_i found
      exact h.append found
    · exact h

end Reader

/-- From all states with `pre` an action gives one and the same answer, and it leads to states with
`post`. -/
def Settles {σ α : Type} (pre post : σ → Prop) (act : σ → α × σ) : Prop :=
  ∃ answer, ∀ s, pre s → ∃ later, act s = (answer, later) ∧ post later

namespace Settles

variable {σ α : Type} {pre post : σ → Prop} {act : σ → α × σ}

theorem still {answer : α} : Settles pre pre (fun s => (answer, s)) :=
  ⟨answer, fun s h => ⟨s, rfl, h⟩⟩

theorem map {β : Type} (h : Settles pre post act) (f : α → β) :
    Settles pre post (fun s => (f (act s).1, (act s).2)) := by
  obtain ⟨answer, run⟩ := h
  refine ⟨f answer, fun s hs => ?_⟩
  obtain ⟨later, ran, hl⟩ := run s hs
  refine ⟨later, ?_, hl⟩
  simp only [ran]

theorem same_answer (h : Settles pre post act) {s t : σ} (hs : pre s) (ht : pre t) :
    (act s).1 = (act t).1 := by
  obtain ⟨answer, run⟩ := h
  obtain ⟨_, ran, _⟩ := run s hs
  obtain ⟨_, ran', _⟩ := run t ht
  rw [ran, ran']

theorem leads (h : Settles pre post act) {s : σ} (hs : pre s) : post (act s).2 := by
  obtain ⟨answer, run⟩ := h
  obtain ⟨later, ran, hl⟩ := run s hs
  rw [ran]
  exact hl

end Settles

namespace References

variable {disk : Disk} {decode : Decoder}

/-- The search only reads files, so its answer does not depend on which of them were read before. -/
theorem search_settles (ref : TypeRef) (paths : List Path) (tails : List Place) :
    Settles (Reader.Agrees disk decode) (Reader.Agrees disk decode)
      (fun reader => search disk decode ref reader tails paths) := by
  induction paths generalizing tails with
  | nil => exact ⟨_, fun reader h => ⟨reader, rfl, h⟩⟩
  | cons path rest ih =>
    cases typed : typesIn (Reader.content disk decode (disk.resolve path)) with
    | error e =>
      refine ⟨.error e, fun reader h => ⟨_, ?_, Reader.read_agrees h path⟩⟩
      simp only [search, Reader.read_answer h path, typed]
    | ok types =>
      rcases matched : matchRef TypeView.path types ref with ⟨whole, found⟩
      cases whole with
      | cons v more =>
        refine ⟨.ok (some (placeOf path v)), fun reader h => ⟨_, ?_, Reader.read_agrees h path⟩⟩
        simp only [search, Reader.read_answer h path, typed, matched]
      | nil =>
        obtain ⟨answer, run⟩ := ih (tails ++ found.map (placeOf path))
        refine ⟨answer, fun reader h => ?_⟩
        simp only [search, Reader.read_answer h path, typed, matched]
        exact run _ (Reader.read_agrees h path)

end References

namespace Resolver

variable {r : Resolver}

theorem findReferenced_settles (ref : TypeRef) :
    Settles (Session.Agrees r) (Session.Agrees r) (fun s => r.findReferenced s ref) := by
  cases given : r.references? with
  | none =>
    simp only [findReferenced, given]
    exact Settles.still
  | some paths =>
    obtain ⟨answer, run⟩ := References.search_settles ref paths []
    refine ⟨answer, fun s h => ?_⟩
    obtain ⟨reader, ran, agrees⟩ := run s.reader h.reader
    refine ⟨{ s with reader }, ?_, h.loader, agrees, h.roots⟩
    simp only [findReferenced, given, References.find, ran]

theorem bindDirect_settles (request : Request) (ref : TypeRef) :
    Settles (Session.Agrees r) (Session.Agrees r) (fun s => r.bindDirect s request ref) := by
  cases declared : r.program.find ref with
  | some t =>
    simp only [bindDirect, declared]
    exact Settles.still
  | none =>
    simp only [bindDirect, declared]
    exact (findReferenced_settles ref).map fun found => found.map (directTarget request ref)

theorem homeModule_settles (home : Home) :
    Settles (Session.Agrees r) (Session.Agrees r) (fun s => r.homeModule s home) := by
  cases home with
  | named module => exact Settles.still
  | anchored anchor module? =>
    cases module? with
    | some module => exact Settles.still
    | none =>
      cases declared : r.program.find anchor with
      | some t =>
        simp only [homeModule, anchorModule, declared]
        exact Settles.still
      | none =>
        simp only [homeModule, anchorModule, declared]
        exact (findReferenced_settles anchor).map fun found => found.map fun place =>
          place.map Prod.fst

/-- What a request is bound to does not depend on what is remembered. -/
theorem bind_settles (request : Request) :
    Settles (Session.Agrees r) (Session.Agrees r) (fun s => r.bind s request) := by
  obtain ⟨ref | fullName, home, access⟩ := request
  · exact bindDirect_settles _ ref
  · exact (homeModule_settles home).map fun module? =>
      module?.map (r.textualTarget _ fullName home)

end Resolver

end HiddenNames
