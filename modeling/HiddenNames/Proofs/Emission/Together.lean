import HiddenNames.Proofs.Emission.Moves
import Mathlib.Data.List.Flatten

/-!
Passes that share a registry. They move in any order, and what one of them remembers at a move may
have been learned by others. No two passes hold the same key or the same identity, so no two of them
generate the same file.
-/

namespace HiddenNames.Pass

structure Workshop where
  registry : Registry := {}
  passes : List Running

structure Job where
  resolver : Resolver
  options : PassOptions
  requests : List Request

def Job.opened (job : Job) : Running :=
  { resolver := job.resolver, options := job.options, phase := .starting job.requests }

namespace Workshop

def opened (jobs : List Job) : Workshop := { passes := jobs.map Job.opened }

def move (w : Workshop) (mover : Nat × Session) : Workshop :=
  match w.passes[mover.1]? with
  | none => w
  | some p =>
    { registry := (p.next w.registry mover.2).2,
      passes := w.passes.set mover.1 (p.next w.registry mover.2).1 }

def after (w : Workshop) (movers : List (Nat × Session)) : Workshop := movers.foldl move w

def emissions (w : Workshop) : List Emission := w.passes.flatMap Running.emissions

structure EmitsOnce (w : Workshop) : Prop where
  results : ∀ p ∈ w.passes, ∀ result, p.result? = some result → result.units = p.core ++ p.files
  files : ∀ p ∈ w.passes, p.files = p.emissions.map Emission.file
  viewed : ∀ e ∈ w.emissions, ∃ view, e.view? = some view ∧ e.file.source = view.text
  placed : ∀ e ∈ w.emissions, ∃ module, e.emitted.resolved.module? = some module
  subjects : (w.emissions.map Emission.subject).Nodup
  wrappers : (w.emissions.map fun e => e.view?.map UnitView.wrapper).Nodup
  hintNames : ((w.passes.flatMap Running.files).map EmissionUnit.hintName).Nodup
  core : (w.passes.flatMap Running.core).length ≤ 1

structure Invariant (w : Workshop) : Prop where
  sound : ∀ p ∈ w.passes, p.IsSound
  keys : (w.passes.flatMap Running.keys).Perm w.registry.keys
  keys_distinct : w.registry.keys.Nodup
  identities : (w.passes.flatMap Running.identities).Perm w.registry.identities
  identities_distinct : w.registry.identities.Nodup

theorem opened_invariant (jobs : List Job) : (opened jobs).Invariant := by
  have nothing : ∀ f : Running → List String, (∀ job : Job, f job.opened = []) →
      (jobs.map Job.opened).flatMap f = [] := by
    intro f none
    rw [List.flatMap_map]
    exact List.flatMap_eq_nil_iff.mpr fun job _ => none job
  constructor
  · intro p held
    obtain ⟨job, _, rfl⟩ := List.mem_map.mp held
    rfl
  · rw [opened, nothing Running.keys fun _ => rfl]
  · exact List.nodup_nil
  · rw [opened, nothing Running.identities fun _ => rfl]
  · exact List.nodup_nil

/-- What one pass holds anew is what was taken anew, so all passes still hold what is taken. -/
theorem held_perm {f : Running → List String} {before after : List Running} {p p' : Running}
    {taken taken' new : List String} (held : ((before ++ p :: after).flatMap f).Perm taken)
    (takes : Takes taken new taken') (grown : f p' = f p ++ new) :
    ((before ++ p' :: after).flatMap f).Perm taken' := by
  refine List.Perm.trans ?_ takes.perm.symm
  refine List.Perm.trans ?_ (held.append_right new)
  simp only [List.flatMap_append, List.flatMap_cons, grown, List.append_assoc]
  apply List.Perm.append_left
  apply List.Perm.append_left
  exact List.perm_append_comm

theorem set_middle {α : Type} (before after : List α) (x y : α) :
    (before ++ x :: after).set before.length y = before ++ y :: after := by
  rw [List.set_append_right _ _ (Nat.le_refl _), Nat.sub_self, List.set_cons_zero]

theorem move_invariant {w : Workshop} (h : w.Invariant) (mover : Nat × Session) :
    (w.move mover).Invariant := by
  rw [move]
  cases own : w.passes[mover.1]? with
  | none => exact h
  | some p =>
    obtain ⟨before, after, split, length⟩ := split_at own
    have sound := h.sound p (List.mem_of_getElem? own)
    have advances := Running.next_advances sound w.registry mover.2
    obtain ⟨new_keys, takes_keys, held_keys⟩ := advances.keys
    obtain ⟨new_identities, takes_identities, held_identities⟩ := advances.identities
    have keys := h.keys
    have identities := h.identities
    rw [split] at keys identities
    simp only [split, ← length, set_middle]
    constructor
    · intro q held
      rcases List.mem_append.mp held with early | late
      · exact h.sound q (split ▸ List.mem_append_left _ early)
      · rcases List.mem_cons.mp late with rfl | late
        · exact advances.sound
        · exact h.sound q (split ▸ List.mem_append_right _ (List.mem_cons_of_mem _ late))
    · exact held_perm keys takes_keys held_keys
    · exact takes_keys.nodup h.keys_distinct
    · exact held_perm identities takes_identities held_identities
    · exact takes_identities.nodup h.identities_distinct

theorem after_invariant {w : Workshop} (h : w.Invariant) (movers : List (Nat × Session)) :
    (w.after movers).Invariant := by
  induction movers generalizing w with
  | nil => exact h
  | cons mover rest ih => exact ih (move_invariant h mover)

theorem subjects_distinct {w : Workshop} (h : w.Invariant) :
    (w.emissions.map Emission.subject).Nodup := by
  have keys : (w.emissions.map fun e => e.target.key).Nodup := by
    rw [emissions, List.map_flatMap]
    have held := h.keys.nodup_iff.mpr h.keys_distinct
    exact held.sublist (.flatMap_right w.passes fun p _ => Running.emission_keys p)
  -- The key of an emission is made from what the emission is about.
  have keyed : (w.emissions.map fun e => e.target.key) =
      (w.emissions.map Emission.subject).map fun subject =>
        Resolver.key (subject.1.getD "") subject.2 := by
    rw [List.map_map]
    apply List.map_congr_left
    intro e held
    obtain ⟨p, among, emits⟩ := List.mem_flatMap.mp held
    obtain ⟨module, found, same⟩ := (Running.emission_sound (h.sound p among) e emits).located
    simp only [Function.comp_apply, Emission.subject, found, same, Option.getD_some]
  rw [keyed] at keys
  exact keys.of_map

theorem core_once {w : Workshop} (h : w.Invariant) :
    (w.passes.flatMap Running.core).length ≤ 1 := by
  have among : (w.passes.flatMap fun p => p.core.map fun _ => coreKey).Sublist
      (w.passes.flatMap Running.keys) :=
    .flatMap_right w.passes fun p _ => List.sublist_append_left _ _
  have distinct := (h.keys.nodup_iff.mpr h.keys_distinct).sublist among
  rw [← List.map_flatMap, List.map_const'] at distinct
  exact List.nodup_replicate.mp distinct

theorem emits_once_of_invariant {w : Workshop} (h : w.Invariant) : w.EmitsOnce := by
  have sound : ∀ e ∈ w.emissions, e.IsSound := by
    intro e held
    obtain ⟨p, among, emits⟩ := List.mem_flatMap.mp held
    exact Running.emission_sound (h.sound p among) e emits
  have files : ∀ p ∈ w.passes, p.files = p.emissions.map Emission.file :=
    fun p held => Running.files_eq (h.sound p held)
  have identities : (w.emissions.map fun e => e.emitted.identity).Nodup := by
    rw [emissions, List.map_flatMap]
    exact h.identities.nodup_iff.mpr h.identities_distinct
  constructor
  · intro p held result finished
    unfold Running.result? at finished
    split at finished
    · rename_i done generated
      rw [← Option.some.inj finished, resultOf, List.filterMap_map, Running.files, generated]
      rfl
    · cases finished
  · exact files
  · intro e held
    obtain ⟨view, built, _, written⟩ := (sound e held).viewed
    exact ⟨view, built, written⟩
  · intro e held
    obtain ⟨module, found, _⟩ := (sound e held).located
    exact ⟨module, found⟩
  · exact subjects_distinct h
  · have named : (w.emissions.map fun e => e.view?.map UnitView.wrapper) =
        (w.emissions.map fun e => e.emitted.identity).map fun identity =>
          some (wrapperName identity) := by
      rw [List.map_map]
      apply List.map_congr_left
      intro e held
      obtain ⟨view, built, named, _⟩ := (sound e held).viewed
      rw [built, Option.map_some, named]
      rfl
    rw [named]
    apply identities.map
    intro identity other same
    exact (String.append_right_inj _).mp (Option.some.inj same)
  · have named : (w.passes.flatMap Running.files).map EmissionUnit.hintName =
        (w.emissions.map fun e => e.emitted.identity).map hintName := by
      rw [List.flatMap_congr files, ← List.map_flatMap, List.map_map, List.map_map]
      rfl
    rw [named]
    exact identities.map hintName_injective
  · exact core_once h

/-- What the moves do to the registry is to serve demands, one for each move at most. -/
theorem after_serves {w : Workshop} (h : w.Invariant) (movers : List (Nat × Session)) :
    ∃ demands : List Registry.Demand, demands.length ≤ movers.length ∧
      (w.after movers).registry = w.registry.after demands := by
  induction movers generalizing w with
  | nil => exact ⟨[], Nat.le_refl _, rfl⟩
  | cons mover rest ih =>
    obtain ⟨demands, few, served⟩ := ih (move_invariant h mover)
    have first : Serves w.registry (w.move mover).registry := by
      rw [move]
      cases own : w.passes[mover.1]? with
      | none => exact .none w.registry
      | some p =>
        have sound := h.sound p (List.mem_of_getElem? own)
        exact (Running.next_advances sound w.registry mover.2).serves
    obtain ⟨demand?, after_first⟩ := first
    refine ⟨demand?.toList ++ demands, ?_, ?_⟩
    · rw [List.length_append, List.length_cons]
      have one : demand?.toList.length ≤ 1 := by cases demand? <;> simp
      omega
    · rw [after, List.foldl_cons, ← after, served, after_first]
      exact List.foldl_append.symm

end Workshop

/-! A pass that makes all its moves in a row does what a run does. -/

def Running.Reaches (start finish : Running × Registry) : Prop :=
  ∃ sessions : List Session, sessions.foldl (fun state s => state.1.next state.2 s) start = finish

namespace Running

variable {a b c : Running × Registry}

theorem Reaches.refl (a : Running × Registry) : Reaches a a := ⟨[], rfl⟩

theorem Reaches.head (s : Session) (h : Reaches (a.1.next a.2 s) b) : Reaches a b := by
  obtain ⟨sessions, reached⟩ := h
  exact ⟨s :: sessions, reached⟩

theorem Reaches.trans (h : Reaches a b) (h' : Reaches b c) : Reaches a c := by
  obtain ⟨sessions, rfl⟩ := h
  obtain ⟨others, rfl⟩ := h'
  exact ⟨sessions ++ others, List.foldl_append⟩

variable (r : Resolver) (options : PassOptions) (core : List EmissionUnit)

theorem reaches_bound (done : List Progress) (registry : Registry) (s : Session)
    (requests : List Request) :
    Reaches (⟨r, options, core, .binding done requests⟩, registry)
      (⟨r, options, core, .binding (done ++ (bindAll r.backend registry s requests).1) []⟩,
        (bindAll r.backend registry s requests).2.1) := by
  induction requests generalizing done registry s with
  | nil =>
    rw [bindAll, List.append_nil]
    exact .refl _
  | cons request rest ih =>
    apply Reaches.head s
    have others := ih (done ++ [(bindOne r.backend registry s request).1])
      (bindOne r.backend registry s request).2.1 (bindOne r.backend registry s request).2.2
    rw [List.append_assoc] at others
    exact others

theorem reaches_resolved (done : List Stage) (registry : Registry) (s : Session)
    (waiting : List Progress) :
    Reaches (⟨r, options, core, .resolving done waiting⟩, registry)
      (⟨r, options, core, .resolving (done ++ (resolveAll r.backend s waiting).1) []⟩,
        registry) := by
  induction waiting generalizing done s with
  | nil =>
    rw [resolveAll, List.append_nil]
    exact .refl _
  | cons progress rest ih =>
    apply Reaches.head s
    cases progress with
    | finished outcome =>
      have others := ih (done ++ [.finished outcome]) s
      rw [List.append_assoc] at others
      exact others
    | bound request target =>
      have others := ih (done ++ [.resolved request target (r.backend.resolve s target).1])
        (r.backend.resolve s target).2
      rw [List.append_assoc] at others
      exact others

theorem reaches_generated (done : List Made) (registry : Registry) (stages : List Stage) :
    ∃ made : List Made, made.map Made.outcome = (synthesizeAll options registry stages).1 ∧
      Reaches (⟨r, options, core, .generating done stages⟩, registry)
        (⟨r, options, core, .generating (done ++ made) []⟩,
          (synthesizeAll options registry stages).2) := by
  induction stages generalizing done registry with
  | nil => exact ⟨[], rfl, by rw [List.append_nil]; exact .refl _⟩
  | cons stage rest ih =>
    let first : Made := ⟨stage, (synthesizeOne options registry stage).1,
      emittedOne options registry stage⟩
    obtain ⟨made, outcomes, others⟩ := ih (done ++ [first]) (synthesizeOne options registry stage).2
    refine ⟨first :: made, ?_, Reaches.head {} ?_⟩
    · rw [List.map_cons, outcomes]
      rfl
    · rw [List.append_assoc] at others
      exact others

/-- The moves of a pass in a row come to the result of a run, and leave the same registry. -/
theorem reaches_run (registry : Registry) (s : Session) (requests : List Request) :
    ∃ finished : Running,
      Reaches (Job.opened ⟨r, options, requests⟩, registry)
        (finished, (run r.backend options registry s requests).2.1) ∧
      finished.result? = some (run r.backend options registry s requests).1 := by
  let core := (coreUnits options registry).1
  let bound := bindAll r.backend (coreUnits options registry).2 s requests
  have binds := reaches_bound r options core [] (coreUnits options registry).2 s requests
  have resolves := reaches_resolved r options core [] bound.2.1 bound.2.2 bound.1
  obtain ⟨made, outcomes, generates⟩ := reaches_generated r options core [] bound.2.1
    (resolveAll r.backend bound.2.2 bound.1).1
  refine ⟨⟨r, options, core, .generating made []⟩, ?_, ?_⟩
  · apply Reaches.head {}
    apply binds.trans
    apply Reaches.head {}
    apply resolves.trans
    exact Reaches.head {} generates
  · simp only [result?, outcomes]
    rfl

end Running

theorem Workshop.after_of_reaches {p p' : Running} {registry registry' : Registry}
    (h : Running.Reaches (p, registry) (p', registry')) (before after : List Running) :
    ∃ movers, Workshop.after ⟨registry, before ++ p :: after⟩ movers =
      ⟨registry', before ++ p' :: after⟩ := by
  obtain ⟨sessions, reached⟩ := h
  refine ⟨sessions.map fun s => (before.length, s), ?_⟩
  induction sessions generalizing p registry with
  | nil =>
    cases reached
    rfl
  | cons s rest ih =>
    have first : Workshop.move ⟨registry, before ++ p :: after⟩ (before.length, s) =
        ⟨(p.next registry s).2, before ++ (p.next registry s).1 :: after⟩ := by
      simp only [move, getElem?_middle, set_middle]
    rw [Workshop.after, List.map_cons, List.foldl_cons, first]
    exact ih reached

/-- A registry grants every key once and gives every identity once, whatever is asked of it and in
whatever order. So passes that share a registry generate no file twice, however their moves are
mixed; and any of them may come to the result of a run, whatever the others have done. -/
theorem shared_registry_emits_once :
    (∀ demands, Registry.ServesOnce demands (Registry.replies {} demands)) ∧
    (∀ (jobs : List Job) (movers : List (Nat × Session)),
      ((Workshop.opened jobs).after movers).EmitsOnce ∧
      ∃ demands : List Registry.Demand, demands.length ≤ movers.length ∧
        ((Workshop.opened jobs).after movers).registry = Registry.after {} demands) ∧
    ∀ (job : Job) (before after : List Running) (registry : Registry) (s : Session),
      ∃ movers finished, Workshop.after ⟨registry, before ++ job.opened :: after⟩ movers =
          ⟨(run job.resolver.backend job.options registry s job.requests).2.1,
            before ++ finished :: after⟩ ∧
        finished.result? =
          some (run job.resolver.backend job.options registry s job.requests).1 := by
  refine ⟨Registry.serves_once, fun jobs movers => ⟨?_, ?_⟩, fun job before after registry s => ?_⟩
  · apply Workshop.emits_once_of_invariant
    exact Workshop.after_invariant (Workshop.opened_invariant jobs) movers
  · exact Workshop.after_serves (Workshop.opened_invariant jobs) movers
  · obtain ⟨finished, reaches, result⟩ :=
      Running.reaches_run job.resolver job.options registry s job.requests
    obtain ⟨movers, moved⟩ := Workshop.after_of_reaches reaches before after
    exact ⟨movers, finished, moved, result⟩

end HiddenNames.Pass
