import HiddenNames.Proofs.Emission.Agreement
import HiddenNames.Proofs.Emission.Binding

/-!
A request without a unit leaves no trace. All that generation looks at are the identities taken so
far, and an outcome without a unit takes none; the key that the request may have taken matters to no
request after it that is bound to something else.
-/

namespace HiddenNames

def Report.isDiagnosed (report : Report) : Bool := report.status.code?.isSome

def PassResult.without (result : PassResult) (place : Nat) : PassResult where
  units := result.units
  diagnostics :=
    if result.reports[place]?.any Report.isDiagnosed then
      result.diagnostics.eraseIdx ((result.reports.take place).countP Report.isDiagnosed)
    else result.diagnostics
  reports := result.reports.eraseIdx place

namespace Pass

variable {options : PassOptions} {registry : Registry} {σ : Type} {b : Backend σ} {good : σ → Prop}
  {bind : Request → Except Mishap Target}
  {resolve : Target → Except Mishap (Option Resolved)} {requests : List Request}

def outcomesOf (bind : Request → Except Mishap Target)
    (resolve : Target → Except Mishap (Option Resolved)) (options : PassOptions)
    (registry : Registry) (requests : List Request) : List Outcome :=
  let (progress, registry, _) := bindAll (.ofAnswers bind resolve) registry () requests
  (synthesizeAll options registry (progress.map (stageOf resolve))).1

theorem run_outcomes (h : b.Steady good bind resolve) (options : PassOptions) (registry : Registry)
    {s : σ} (hs : good s) (requests : List Request) :
    (run b options registry s requests).1 = resultOf (coreUnits options registry).1
      (outcomesOf bind resolve options (coreUnits options registry).2 requests) := by
  obtain ⟨mid, bound, hm⟩ :=
    bindAll_steady h.toBindsBy resolve requests (coreUnits options registry).2 hs
  obtain ⟨later, staged⟩ := resolveAll_steady h
    (bindAll (.ofAnswers bind resolve) (coreUnits options registry).2 () requests).1 hm
  simp only [run, bound, staged, outcomesOf]

theorem outcomesOf_fits (bind : Request → Except Mishap Target)
    (resolve : Target → Except Mishap (Option Resolved)) (options : PassOptions)
    (registry : Registry) (requests : List Request) :
    List.Forall₂ (Outcome.Fits options.exposure) requests
      (outcomesOf bind resolve options registry requests) := by
  have functions : (Backend.ofAnswers bind resolve).Steady (fun _ => True) bind resolve :=
    ofAnswers_steady
  obtain ⟨_, staged⟩ := resolveAll_steady functions
    (bindAll (.ofAnswers bind resolve) registry () requests).1 (s := ()) trivial
  have bound := bindAll_of options.exposure (Backend.ofAnswers bind resolve) registry () requests
  have stages := resolveAll_of (Backend.ofAnswers bind resolve) () bound
  rw [staged] at stages
  exact synthesizeAll_fits stages _

/-- Leaving out a request without a unit, to whose key nothing later is bound, leaves out its
outcome only. -/
theorem outcomesOf_without {before after : List Request} {request : Request} {outcome : Outcome}
    (whole :
      (outcomesOf bind resolve options registry (before ++ request :: after))[before.length]? =
      some outcome)
    (quiet : outcome.report.status ≠ .emitted)
    (unmatched : ∀ target, boundTarget? bind request = some target →
      ∀ other ∈ after, ∀ target', boundTarget? bind other = some target' →
        target'.key ≠ target.key) :
    outcomesOf bind resolve options registry (before ++ after) =
      (outcomesOf bind resolve options registry (before ++ request :: after)).eraseIdx
        before.length := by
  rcases first : bindAll (.ofAnswers bind resolve) registry () before with ⟨front, taken, _⟩
  rcases own : bindOne (.ofAnswers bind resolve) taken () request with ⟨p, next, _⟩
  have later : (bindAll (.ofAnswers bind resolve) next () after).1 =
      (bindAll (.ofAnswers bind resolve) taken () after).1 := by
    refine bindAll_congr fun other held target' found' => ?_
    have keys := bindOne_keys bind resolve taken request target'.key
    rw [own] at keys
    rw [keys]
    constructor
    · rintro (⟨target, found, same⟩ | before)
      · exact (unmatched target found other held target' found' same.symm).elim
      · exact before
    · exact Or.inr
  have wholeBound : bindAll (.ofAnswers bind resolve) registry () (before ++ request :: after) =
      (front ++ p :: (bindAll (.ofAnswers bind resolve) next () after).1,
        (bindAll (.ofAnswers bind resolve) next () after).2) := by
    rw [bindAll_append, first, bindAll, own]
  have partBound : bindAll (.ofAnswers bind resolve) registry () (before ++ after) =
      (front ++ (bindAll (.ofAnswers bind resolve) taken () after).1,
        (bindAll (.ofAnswers bind resolve) taken () after).2) := by
    rw [bindAll_append, first]
  have identities : (bindAll (.ofAnswers bind resolve) taken () after).2.1.identities =
      (bindAll (.ofAnswers bind resolve) next () after).2.1.identities := by
    have kept : next.identities = taken.identities := by
      simpa [own] using bindOne_identities (.ofAnswers bind resolve) taken () request
    simp [kept]
  have length : (front.map (stageOf resolve)).length = before.length := by
    simpa [first] using bindAll_length (.ofAnswers bind resolve) registry () before
  simp only [outcomesOf, wholeBound, partBound, List.map_append, List.map_cons, later] at whole ⊢
  rw [synthesizeAll_congr identities]
  rw [← length] at whole ⊢
  exact synthesizeAll_without whole quiet

end Pass

namespace PassResult

theorem fits_of_mem {exposure : Exposure} {requests : List Request} {outcomes : List Outcome}
    (h : List.Forall₂ (Outcome.Fits exposure) requests outcomes) {outcome : Outcome}
    (held : outcome ∈ outcomes) : ∃ request, outcome.Fits exposure request := by
  induction h with
  | nil => cases held
  | cons first _ ih =>
    rcases List.mem_cons.mp held with rfl | later
    · exact ⟨_, first⟩
    · exact ih later

theorem diagnosed_of_fits {exposure : Exposure} {request : Request} {outcome : Outcome}
    (h : outcome.Fits exposure request) :
    outcome.diagnostic?.isSome = outcome.report.isDiagnosed := by
  have diagnosed := congrArg Option.isSome h.diagnosed
  rwa [Option.isSome_map, Option.isSome_map] at diagnosed

theorem diagnostics_counted {outcomes : List Outcome}
    (h : ∀ outcome ∈ outcomes, outcome.diagnostic?.isSome = outcome.report.isDiagnosed) :
    (outcomes.filterMap Outcome.diagnostic?).length =
      (outcomes.map Outcome.report).countP Report.isDiagnosed := by
  rw [List.length_filterMap_eq_countP, List.countP_map]
  exact List.countP_congr fun outcome held => by rw [h outcome held]; rfl

/-- Of an outcome without a unit nothing but its report and its diagnostic is in a result. -/
theorem resultOf_without {core : List EmissionUnit} {exposure : Exposure} {requests : List Request}
    {outcomes : List Outcome} {outcome : Outcome} {place : Nat}
    (own : outcomes[place]? = some outcome)
    (fits : List.Forall₂ (Outcome.Fits exposure) requests outcomes)
    (quiet : outcome.report.status ≠ .emitted) :
    Pass.resultOf core (outcomes.eraseIdx place) = (Pass.resultOf core outcomes).without place := by
  have diagnosed : ∀ other ∈ outcomes, other.diagnostic?.isSome = other.report.isDiagnosed := by
    intro other held
    obtain ⟨_, fit⟩ := fits_of_mem fits held
    exact diagnosed_of_fits fit
  have silent : outcome.unit? = none := by
    obtain ⟨_, fit⟩ := fits_of_mem fits (List.mem_of_getElem? own)
    exact fit.withheld quiet
  obtain ⟨before, after, rfl, rfl⟩ := split_at own
  have counted :=
    diagnostics_counted fun other held => diagnosed other (List.mem_append_left _ held)
  have told := diagnosed outcome (List.mem_append_right _ List.mem_cons_self)
  have place : before.length = (before.map Outcome.report).length := by rw [List.length_map]
  have units : (before ++ outcome :: after).filterMap Outcome.unit? =
      (before ++ after).filterMap Outcome.unit? := by
    rw [List.filterMap_append, List.filterMap_cons_none silent, List.filterMap_append]
  have reports : ((before ++ outcome :: after).map Outcome.report).eraseIdx before.length =
      (before ++ after).map Outcome.report := by
    rw [List.map_append, List.map_cons, place, eraseIdx_middle, List.map_append]
  have here : ((before ++ outcome :: after).map Outcome.report)[before.length]? =
      some outcome.report := by
    rw [List.getElem?_map, getElem?_middle, Option.map_some]
  have earlier : ((before ++ outcome :: after).map Outcome.report).take before.length =
      before.map Outcome.report := by
    rw [List.map_append, place, List.take_left]
  have diagnostics : (if outcome.report.isDiagnosed then
        ((before ++ outcome :: after).filterMap Outcome.diagnostic?).eraseIdx
          ((before.map Outcome.report).countP Report.isDiagnosed)
      else (before ++ outcome :: after).filterMap Outcome.diagnostic?) =
      (before ++ after).filterMap Outcome.diagnostic? := by
    rw [← counted, ← told, List.filterMap_append, List.filterMap_append]
    cases said : outcome.diagnostic? with
    | none => rw [List.filterMap_cons_none said, if_neg (by decide)]
    | some d =>
      rw [List.filterMap_cons_some said, if_pos Option.isSome_some, eraseIdx_middle]
  rw [eraseIdx_middle]
  simp only [Pass.resultOf, without, units, reports, here, earlier, Option.any_some, diagnostics]

end PassResult

namespace Pass

variable {σ : Type} {b : Backend σ} {good : σ → Prop} {bind : Request → Except Mishap Target}
  {resolve : Target → Except Mishap (Option Resolved)}

/-- A request that gives no unit, and to whose key nothing later is bound, leaves no trace: without
it a pass gives the same units, and the same reports and diagnostics apart from its own. -/
theorem quiet_request_leaves_no_trace (h : b.Steady good bind resolve) (options : PassOptions)
    (registry : Registry) {s : σ} (hs : good s) (requests : List Request) (place : Nat)
    (inside : place < requests.length)
    (quiet : ∀ report, (run b options registry s requests).1.reports[place]? = some report →
      report.status ≠ .emitted)
    (unmatched : ∀ target, boundTarget? bind requests[place] = some target →
      ∀ other ∈ requests.drop (place + 1), ∀ target', boundTarget? bind other = some target' →
        target'.key ≠ target.key) :
    (run b options registry s (requests.eraseIdx place)).1 =
      (run b options registry s requests).1.without place := by
  have whole := run_outcomes h options registry hs requests
  have fits := outcomesOf_fits bind resolve options
    (coreUnits options registry).2 requests
  obtain ⟨before, after, around, rfl⟩ := split_at (List.getElem?_eq_getElem inside)
  generalize requests[before.length] = request at around unmatched
  subst around
  have later : (before ++ request :: after).drop (before.length + 1) = after := by
    rw [List.drop_append, List.drop_eq_nil_of_le (Nat.le_succ _)]
    simp
  rw [later] at unmatched
  obtain ⟨outcome, own⟩ : ∃ outcome, (outcomesOf bind resolve options (coreUnits options registry).2
      (before ++ request :: after))[before.length]? = some outcome :=
    ⟨_, List.getElem?_eq_getElem (fits.length_eq ▸ inside)⟩
  have status : outcome.report.status ≠ .emitted := by
    refine quiet outcome.report ?_
    rw [whole]
    simp only [resultOf, List.getElem?_map, own, Option.map_some]
  rw [whole, run_outcomes h options registry hs, eraseIdx_middle,
    outcomesOf_without own status unmatched]
  exact PassResult.resultOf_without own fits status

/-- References cannot be looked up, textual requests are for public classes with a private field. -/
def halfBroken : Backend Unit :=
  .ofAnswers
    (fun request =>
      match request.subject with
      | .direct _ => .error (.broken "no references")
      | .textual fullName => .ok { key := fullName, request, fullName })
    (fun target =>
      let field : Member := { name := "count", kind := .field, visibility := .priv }
      let head : TypeHead :=
        { name := target.fullName, kind := .classKind, visibility := .pub, members := [field] }
      .ok (some { tier := .metadata, view := { tier := .metadata, tree := .node head [] } }))

theorem failing_reference_leaves_no_trace :
    let requests : List Request :=
      [.direct (.mk none [.mk "Gone" []]), { subject := .textual "Kept", home := Home.named "Lib" }]
    (run halfBroken {} {} () requests).1.reports.head?.map Report.status = some .failed ∧
    (run halfBroken {} {} () (requests.eraseIdx 0)).1 =
      (run halfBroken {} {} () requests).1.without 0 := by
  intro requests
  have status : (run halfBroken {} {} () requests).1.reports[0]?.map Report.status =
      some .failed := rfl
  refine ⟨rfl, quiet_request_leaves_no_trace ofAnswers_steady {} {} trivial requests 0 (by decide)
    ?_ ?_⟩
  · intro report own
    have failed : report.status = .failed := by
      rw [halfBroken, own] at status
      exact Option.some.inj status
    rw [failed]
    decide
  · intro target bound
    cases bound

end Pass

end HiddenNames
