import HiddenNames.Emission.Report
import HiddenNames.Proofs.Identifier.Fresh

/-!
A registry under any sequence of demands. Demands are served one after the other, so whatever the
passes are that share a registry, the sequence of their demands is some list. No key is granted
twice and no identity is given twice.
-/

namespace HiddenNames

namespace Identifier

theorem leastFree_le (free : Nat → Bool) (fuel k : Nat) : leastFree free fuel k ≤ k + fuel := by
  induction fuel generalizing k with
  | zero => exact Nat.le_refl k
  | succ fuel ih =>
    by_cases here : free k = true
    · rw [leastFree, if_pos here]
      omega
    · rw [leastFree, if_neg here]
      have := ih (k + 1)
      omega

theorem leastFree_least (free : Nat → Bool) (fuel k : Nat) {j : Nat} (low : k ≤ j)
    (passed : j < leastFree free fuel k) : free j = false := by
  induction fuel generalizing k with
  | zero =>
    rw [leastFree] at passed
    omega
  | succ fuel ih =>
    by_cases here : free k = true
    · rw [leastFree, if_pos here] at passed
      omega
    · rw [leastFree, if_neg here] at passed
      by_cases first : j = k
      · rw [first]
        exact Bool.eq_false_iff.mpr here
      · exact ih (k + 1) (by omega) passed

theorem le_leastFree (free : Nat → Bool) (fuel k : Nat) : k ≤ leastFree free fuel k := by
  induction fuel generalizing k with
  | zero => exact Nat.le_refl k
  | succ fuel ih =>
    by_cases here : free k = true
    · rw [leastFree, if_pos here]
    · rw [leastFree, if_neg here]
      have := ih (k + 1)
      omega

end Identifier

namespace Registry

inductive Demand where
  | key (key : String)
  | identity (identity : String)
  deriving DecidableEq, Repr

inductive Reply where
  | granted (free : Bool)
  | given (identity : String)
  deriving DecidableEq, Repr

def Reply.identity? : Reply → Option String
  | .granted _ => none
  | .given identity => some identity

def reply (r : Registry) : Demand → Reply
  | .key key => .granted (r.claim key).1
  | .identity identity => .given (r.claimIdentity identity).1

def next (r : Registry) : Demand → Registry
  | .key key => (r.claim key).2
  | .identity identity => (r.claimIdentity identity).2

def after (r : Registry) (demands : List Demand) : Registry := demands.foldl next r

def replies (r : Registry) : List Demand → List Reply
  | [] => []
  | demand :: rest => r.reply demand :: (r.next demand).replies rest

/-- The identity that is given for the one that is asked for: that one if it is free, else that one
with the least number from two on that is free. The search is over before it has seen more numbers
than there are taken identities, and one more. -/
inductive Gives (taken : List String) (asked : String) : String → Prop where
  | free (h : asked ∉ taken) : Gives taken asked asked
  | numbered (k : Nat) (collides : asked ∈ taken) (low : 2 ≤ k) (ends : k ≤ taken.length + 2)
      (free : Identifier.numbered asked k ∉ taken)
      (least : ∀ j, 2 ≤ j → j < k → Identifier.numbered asked j ∈ taken) :
      Gives taken asked (Identifier.numbered asked k)

/-- Every demanded key is granted at one place, no identity is given at two places, and every demand
for an identity is met with regard to those given before. -/
structure ServesOnce (demands : List Demand) (replies : List Reply) : Prop where
  answered : replies.length = demands.length
  granted : ∀ key, .key key ∈ demands →
    ∃! place : Nat, demands[place]? = some (.key key) ∧ replies[place]? = some (.granted true)
  distinct : (replies.filterMap Reply.identity?).Nodup
  given : ∀ (place : Nat) (asked : String), demands[place]? = some (.identity asked) →
    ∃ identity, replies[place]? = some (.given identity) ∧
      Gives ((replies.take place).filterMap Reply.identity?) asked identity

variable (r : Registry)

theorem chooseIdentity_gives (asked : String) :
    Gives r.identities asked (r.chooseIdentity asked) := by
  by_cases taken : asked ∈ r.identities
  · rw [chooseIdentity, if_pos taken]
    constructor
    · exact taken
    · exact Identifier.le_leastFree _ _ _
    · have := Identifier.leastFree_le (fun k => Identifier.numbered asked k ∉ r.identities)
        r.identities.length 2
      omega
    · exact Identifier.leastFree_free (Identifier.numbered_injective asked) r.identities 2
    · intro j low passed
      have occupied := Identifier.leastFree_least _ _ _ low passed
      exact not_not.mp (of_decide_eq_false occupied)
  · rw [chooseIdentity, if_neg taken]
    exact .free taken

theorem Gives.not_mem {taken : List String} {asked identity : String}
    (h : Gives taken asked identity) : identity ∉ taken := by
  cases h with
  | free h => exact h
  | numbered k _ _ _ free _ => exact free

theorem Gives.perm {taken taken' : List String} {asked identity : String}
    (h : Gives taken asked identity) (same : taken.Perm taken') : Gives taken' asked identity := by
  cases h with
  | free h => exact .free fun held => h (same.mem_iff.mpr held)
  | numbered k collides low ends free least =>
    constructor
    · exact same.mem_iff.mp collides
    · exact low
    · rw [← same.length_eq]
      exact ends
    · exact fun held => free (same.mem_iff.mpr held)
    · exact fun j low passed => same.mem_iff.mp (least j low passed)

@[simp]
theorem replies_length (demands : List Demand) : (r.replies demands).length = demands.length := by
  induction demands generalizing r with
  | nil => rfl
  | cons demand rest ih => rw [replies, List.length_cons, List.length_cons, ih]

theorem replies_append (before after : List Demand) :
    r.replies (before ++ after) = r.replies before ++ (r.after before).replies after := by
  induction before generalizing r with
  | nil => rfl
  | cons demand rest ih =>
    rw [List.cons_append, replies, replies, ih]
    rfl

/-- The reply at a place is given by the registry after all demands before that place. -/
theorem replies_getElem? {demands : List Demand} {place : Nat} {demand : Demand}
    (own : demands[place]? = some demand) :
    (r.replies demands)[place]? = some ((r.after (demands.take place)).reply demand) := by
  induction demands generalizing r place with
  | nil => cases own
  | cons first rest ih =>
    cases place with
    | zero =>
      obtain rfl := Option.some.inj own
      rfl
    | succ place => exact ih (r.next first) own

@[simp]
theorem next_keys (demand : Demand) (key : String) :
    key ∈ (r.next demand).keys ↔ demand = .key key ∨ key ∈ r.keys := by
  cases demand with
  | identity asked => simp [next, claimIdentity]
  | key asked =>
    by_cases taken : asked ∈ r.keys
    · simp only [next, claim, if_pos taken, Demand.key.injEq]
      constructor
      · exact Or.inr
      · rintro (rfl | held)
        · exact taken
        · exact held
    · simp [next, claim, if_neg taken, eq_comm]

theorem after_keys (demands : List Demand) (key : String) :
    key ∈ (r.after demands).keys ↔ .key key ∈ demands ∨ key ∈ r.keys := by
  induction demands generalizing r with
  | nil => simp [after]
  | cons demand rest ih =>
    have later := ih (r.next demand)
    rw [next_keys] at later
    rw [after, List.foldl_cons, ← after, later, List.mem_cons, eq_comm (a := Demand.key key)]
    tauto

@[simp]
theorem next_identities (demand : Demand) :
    (r.next demand).identities = (r.reply demand).identity?.toList ++ r.identities := by
  cases demand with
  | identity asked => rfl
  | key asked =>
    by_cases taken : asked ∈ r.keys
    · simp [next, reply, Reply.identity?, claim, if_pos taken]
    · simp [next, reply, Reply.identity?, claim, if_neg taken]

/-- The taken identities are those that were given, and those from before. -/
theorem after_identities (demands : List Demand) :
    ((r.replies demands).filterMap Reply.identity? ++ r.identities).Perm
      (r.after demands).identities := by
  induction demands generalizing r with
  | nil => exact List.Perm.refl _
  | cons demand rest ih =>
    have later := ih (r.next demand)
    rw [next_identities, ← List.append_assoc] at later
    refine List.Perm.trans ?_ later
    apply List.Perm.append_right
    cases given : (r.reply demand).identity? with
    | none => simp [replies, given]
    | some identity => simpa [replies, given] using (List.perm_append_singleton identity _).symm

theorem reply_fresh {demand : Demand} {identity : String}
    (h : (r.reply demand).identity? = some identity) : identity ∉ r.identities := by
  cases demand with
  | key asked => cases h
  | identity asked =>
    obtain rfl := Option.some.inj h
    exact (r.chooseIdentity_gives asked).not_mem

theorem next_nodup (demand : Demand) (h : r.identities.Nodup) :
    (r.next demand).identities.Nodup := by
  rw [next_identities]
  cases given : (r.reply demand).identity? with
  | none => exact h
  | some identity => exact List.nodup_cons.mpr ⟨r.reply_fresh given, h⟩

theorem after_nodup (demands : List Demand) (h : r.identities.Nodup) :
    (r.after demands).identities.Nodup := by
  induction demands generalizing r with
  | nil => exact h
  | cons demand rest ih => exact ih (r.next demand) (r.next_nodup demand h)

theorem granted_iff {demands : List Demand} {place : Nat} {key : String}
    (own : demands[place]? = some (.key key)) :
    (r.replies demands)[place]? = some (.granted true) ↔
      .key key ∉ demands.take place ∧ key ∉ r.keys := by
  rw [r.replies_getElem? own, ← not_or, ← r.after_keys]
  by_cases taken : key ∈ (r.after (demands.take place)).keys
  · simp [reply, claim, taken]
  · simp [reply, claim, taken]

/-- A demanded key that is not taken has a first demand, and that is the one to which it is
granted. -/
theorem granted_once {demands : List Demand} {key : String} (free : key ∉ r.keys)
    (held : .key key ∈ demands) :
    ∃! place : Nat, demands[place]? = some (.key key) ∧
      (r.replies demands)[place]? = some (.granted true) := by
  have some_place : ∃ place : Nat, demands[place]? = some (.key key) :=
    List.mem_iff_getElem?.mp held
  classical
  have first := Nat.find_spec some_place
  refine ⟨Nat.find some_place, ⟨first, ?_⟩, ?_⟩
  · rw [r.granted_iff first]
    refine ⟨fun early => ?_, free⟩
    obtain ⟨place, inside, same⟩ := List.mem_take_iff_getElem.mp early
    have earlier : place < Nat.find some_place := by omega
    apply Nat.find_min some_place earlier
    rw [← same]
    exact List.getElem?_eq_getElem _
  · rintro place ⟨own, granted⟩
    have unheard := ((r.granted_iff own).mp granted).1
    apply Nat.le_antisymm
    · by_contra late
      apply unheard
      obtain ⟨inside, same⟩ := List.getElem?_eq_some_iff.mp first
      exact List.mem_take_iff_getElem.mpr ⟨Nat.find some_place, by omega, same⟩
    · exact Nat.find_min' some_place own

/-- A fresh registry serves any sequence of demands, each key once and each identity once. -/
theorem serves_once (demands : List Demand) : ServesOnce demands (replies {} demands) := by
  constructor
  · exact replies_length {} demands
  · exact fun key held => granted_once {} List.not_mem_nil held
  · have given := after_identities {} demands
    rw [List.append_nil] at given
    exact given.nodup_iff.mpr (after_nodup {} demands List.nodup_nil)
  · intro place asked own
    refine ⟨_, replies_getElem? {} own, ?_⟩
    -- The identities taken so far are those given so far, in some order.
    have before : (replies {} demands).take place = replies {} (demands.take place) := by
      conv_lhs => rw [← List.take_append_drop place demands, replies_append]
      rw [List.take_append_of_le_length, List.take_of_length_le]
      all_goals
        have inside := (List.getElem?_eq_some_iff.mp own).1
        rw [replies_length, List.length_take]
        omega
    have given := after_identities {} (demands.take place)
    rw [List.append_nil] at given
    rw [before]
    exact (chooseIdentity_gives _ asked).perm given.symm

end Registry

end HiddenNames
