import HiddenNames.Marker.Collect
import HiddenNames.Proofs.Types.Spelling

/-!
What markers can express. Names come out of tokens, so all references in a marker are plain, and a
textual request has something that tells its module. A marker that is applied to a type, or to the
whole assembly, asks for declared types instead.
-/

namespace HiddenNames

theorem ok_of_map {ε α β : Type} {f : α → β} {x : Except ε α} {b : β} (h : x.map f = .ok b) :
    ∃ a, x = .ok a ∧ f a = b := by
  cases x with
  | error e => cases h
  | ok a => exact ⟨a, rfl, Except.ok.inj h⟩

theorem ok_of_bind {ε α β : Type} {f : α → Except ε β} {x : Except ε α} {b : β}
    (h : x.bind f = .ok b) : ∃ a, x = .ok a ∧ f a = .ok b := by
  cases x with
  | error e => cases h
  | ok a => exact ⟨a, rfl, h⟩

def Request.IsPlain (request : Request) : Prop :=
  match request.subject with
  | .direct ref => ref.IsPlain
  | .textual _ => ∀ anchor, request.anchor = some anchor → anchor.IsPlain

/-- A request as the markers of a program and those outside of it can make it. -/
def Request.IsExpressible (program : SourceProgram) (request : Request) : Prop :=
  request.IsPlain ∨ ∃ t ∈ program.types, ∃ access, request = Request.direct t.ref access

namespace Marker

namespace Token

def IsPlain : Token → Prop
  | .ident text => IsWord (nameOf text)
  | _ => True

theorem start_is_part {c : Char} (h : isNameStart c = true) : isNamePart c = true := by
  simp only [isNameStart, isNamePart, Char.isAlphanum, Bool.or_eq_true, decide_eq_true_eq] at h ⊢
  rcases h with letter | underscore
  · exact Or.inl (Or.inl letter)
  · exact Or.inr underscore

/-- A name that was taken out of a text is a word, with a mark in front of it or not. -/
theorem taken_word {c : Char} (h : isNameStart c = true) (rest : List Char) :
    IsWord (nameOf (String.ofList (c :: rest.takeWhile isNamePart))) ∧
      IsWord (nameOf (String.ofList ('@' :: c :: rest.takeWhile isNamePart))) := by
  have unmarked : decide (c = '@') = false := by
    refine decide_eq_false fun marked => ?_
    rw [marked] at h
    exact absurd h (by decide)
  have word : IsWord (String.ofList (c :: rest.takeWhile isNamePart)) := by
    constructor
    · simp
    · intro d held
      rw [String.toList_ofList] at held
      rcases List.mem_cons.mp held with rfl | later
      · exact start_is_part h
      · exact List.all_eq_true.mp List.all_takeWhile d later
  have name : nameOf (String.ofList (c :: rest.takeWhile isNamePart)) =
      String.ofList (c :: rest.takeWhile isNamePart) := by
    simp only [nameOf, String.toList_ofList, List.dropWhile_cons, unmarked, Bool.false_eq_true,
      if_false]
  have marked : nameOf (String.ofList ('@' :: c :: rest.takeWhile isNamePart)) =
      String.ofList (c :: rest.takeWhile isNamePart) := by
    simp only [nameOf, String.toList_ofList, List.dropWhile_cons, unmarked, decide_true,
      Bool.false_eq_true, if_false, if_true]
  rw [name, marked]
  exact ⟨word, word⟩

theorem first_plain {cs after : List Char} {token : Token} (h : first cs = some (token, after)) :
    token.IsPlain := by
  unfold first at h
  split at h
  case h_9 rest =>
    obtain ⟨_, _, same⟩ := Option.map_eq_some_iff.mp h
    cases same
    trivial
  case h_10 rest =>
    obtain ⟨_, _, same⟩ := Option.map_eq_some_iff.mp h
    cases same
    trivial
  case h_11 c rest _ =>
    split at h
    · rename_i start
      cases h
      exact (taken_word start rest).2
    · cases h
  case h_12 c rest _ _ _ _ _ _ _ _ _ _ _ =>
    split at h
    · rename_i start
      cases h
      exact (taken_word start rest).1
    · cases h
  case h_13 => cases h
  all_goals
    cases h
    trivial

def AllPlain (tokens : List Token) : Prop := ∀ token ∈ tokens, token.IsPlain

theorem allPlain_cons {token : Token} {tokens : List Token} :
    AllPlain (token :: tokens) ↔ token.IsPlain ∧ AllPlain tokens := List.forall_mem_cons

theorem scanSteps_plain (steps : Nat) {cs : List Char} {tokens : List Token}
    (h : scanSteps steps cs = some tokens) : AllPlain tokens := by
  induction steps generalizing cs tokens with
  | zero => cases h
  | succ steps ih =>
    rw [scanSteps] at h
    split at h
    · cases h
      exact fun _ held => by cases held
    · split at h
      · rename_i token after taken
        obtain ⟨more, scanned, rfl⟩ := Option.map_eq_some_iff.mp h
        exact allPlain_cons.mpr ⟨first_plain taken, ih scanned⟩
      · cases h

end Token

open Token (AllPlain allPlain_cons)

theorem takeAlias_plain {ts rest : List Token} {alias? : Option String} (plain : AllPlain ts)
    (h : takeAlias ts = (alias?, rest)) :
    (∀ name, alias? = some name → IsWord name) ∧ AllPlain rest := by
  unfold takeAlias at h
  split at h
  · cases h
    obtain ⟨word, _, others⟩ :=
      allPlain_cons.mp plain |>.imp_right allPlain_cons.mp
    refine ⟨fun name same => ?_, others⟩
    cases same
    exact word
  · cases h
    exact ⟨nofun, plain⟩

theorem openList_plain {ts rest : List Token} {commas : Nat} (plain : AllPlain ts)
    (h : openList ts = some (commas, rest)) : AllPlain rest := by
  induction ts generalizing commas with
  | nil => cases h
  | cons token ts ih =>
    have others := (allPlain_cons.mp plain).2
    cases token
    case comma =>
      obtain ⟨⟨_, _⟩, taken, same⟩ := Option.map_eq_some_iff.mp h
      cases same
      exact ih others taken
    case greater =>
      cases h
      exact others
    all_goals cases h

theorem argumentsPlain_replicate (n : Nat) :
    TypeRef.ArgumentsPlain (List.replicate n none) := by
  induction n with
  | zero => exact trivial
  | succ n ih => exact ⟨trivial, ih⟩

mutual

theorem takeRef_plain (fuel : Nat) {ts rest : List Token} {ref : TypeRef} (plain : AllPlain ts)
    (h : takeRef fuel ts = some (ref, rest)) : ref.IsPlain ∧ AllPlain rest := by
  cases fuel with
  | zero => cases h
  | succ fuel =>
    rcases aliased : takeAlias ts with ⟨alias?, names⟩
    simp only [takeRef, aliased] at h
    obtain ⟨⟨segments, _⟩, taken, same⟩ := Option.map_eq_some_iff.mp h
    cases same
    obtain ⟨word, others⟩ := takeAlias_plain plain aliased
    obtain ⟨filled, named, after⟩ := takeSegments_plain fuel others taken
    exact ⟨⟨word, filled, named⟩, after⟩

theorem takeSegments_plain (fuel : Nat) {ts rest : List Token} {segments : List TypeSegment}
    (plain : AllPlain ts) (h : takeSegments fuel ts = some (segments, rest)) :
    segments ≠ [] ∧ TypeSegment.ArePlain segments ∧ AllPlain rest := by
  cases fuel with
  | zero => cases h
  | succ fuel =>
    unfold takeSegments at h
    split at h
    · obtain ⟨word, others⟩ := allPlain_cons.mp plain
      split at h
      · rename_i arguments dotted taken
        obtain ⟨argued, after⟩ := takeTypeArguments_plain fuel others taken
        obtain ⟨⟨more, _⟩, taken, same⟩ := Option.map_eq_some_iff.mp h
        cases same
        obtain ⟨_, named, after⟩ := takeSegments_plain fuel (allPlain_cons.mp after).2 taken
        exact ⟨List.cons_ne_nil _ _, ⟨⟨word, argued⟩, named⟩, after⟩
      · rename_i arguments after _ taken
        obtain ⟨argued, after⟩ := takeTypeArguments_plain fuel others taken
        cases h
        exact ⟨List.cons_ne_nil _ _, ⟨⟨word, argued⟩, trivial⟩, after⟩
      · cases h
    · cases h

theorem takeTypeArguments_plain (fuel : Nat) {ts rest : List Token}
    {arguments : List (Option TypeRef)} (plain : AllPlain ts)
    (h : takeTypeArguments fuel ts = some (arguments, rest)) :
    TypeRef.ArgumentsPlain arguments ∧ AllPlain rest := by
  cases fuel with
  | zero => cases h
  | succ fuel =>
    unfold takeTypeArguments at h
    split at h
    · have others := (allPlain_cons.mp plain).2
      split at h
      · rename_i commas after opened
        cases h
        exact ⟨argumentsPlain_replicate _, openList_plain others opened⟩
      · exact takeRefs_plain fuel others h
    · cases h
      exact ⟨trivial, plain⟩

theorem takeRefs_plain (fuel : Nat) {ts rest : List Token} {arguments : List (Option TypeRef)}
    (plain : AllPlain ts) (h : takeRefs fuel ts = some (arguments, rest)) :
    TypeRef.ArgumentsPlain arguments ∧ AllPlain rest := by
  cases fuel with
  | zero => cases h
  | succ fuel =>
    unfold takeRefs at h
    split at h
    · rename_i ref after taken
      obtain ⟨named, after⟩ := takeRef_plain fuel plain taken
      obtain ⟨⟨more, _⟩, taken, same⟩ := Option.map_eq_some_iff.mp h
      cases same
      obtain ⟨others, after⟩ := takeRefs_plain fuel (allPlain_cons.mp after).2 taken
      exact ⟨⟨named, others⟩, after⟩
    · rename_i ref after taken
      obtain ⟨named, after⟩ := takeRef_plain fuel plain taken
      cases h
      exact ⟨⟨named, trivial⟩, (allPlain_cons.mp after).2⟩
    · cases h

end

theorem takeParts_plain {ts rest : List Token} {parts : List String} (plain : AllPlain ts)
    (h : takeParts ts = some (parts, rest)) : AllPlain rest := by
  fun_induction takeParts ts generalizing parts with
  | case1 text ts ih =>
    obtain ⟨⟨more, _⟩, taken, same⟩ := Option.map_eq_some_iff.mp h
    cases same
    exact ih (allPlain_cons.mp (allPlain_cons.mp plain).2).2 taken
  | case2 text ts =>
    cases h
    exact (allPlain_cons.mp plain).2
  | case3 => cases h

theorem takeDottedName_plain {ts rest : List Token} {name : DottedName} (plain : AllPlain ts)
    (h : takeDottedName ts = some (name, rest)) : AllPlain rest := by
  rcases aliased : takeAlias ts with ⟨alias?, names⟩
  simp only [takeDottedName, aliased] at h
  obtain ⟨⟨parts, _⟩, taken, same⟩ := Option.map_eq_some_iff.mp h
  cases same
  exact takeParts_plain (takeAlias_plain plain aliased).2 taken

def Value.IsPlain : Value → Prop
  | .typeOf ref => ref.IsPlain
  | _ => True

theorem takeValue_plain {ts rest : List Token} {value : Value} (plain : AllPlain ts)
    (h : takeValue ts = some (value, rest)) : value.IsPlain ∧ AllPlain rest := by
  unfold takeValue at h
  split at h
  · have inside := (allPlain_cons.mp (allPlain_cons.mp plain).2).2
    split at h
    · rename_i ref after taken
      obtain ⟨named, after⟩ := takeRef_plain _ inside taken
      cases h
      exact ⟨named, (allPlain_cons.mp after).2⟩
    · cases h
  · cases h
    exact ⟨trivial, (allPlain_cons.mp plain).2⟩
  · cases h
    exact ⟨trivial, (allPlain_cons.mp plain).2⟩
  · obtain ⟨⟨name, _⟩, taken, same⟩ := Option.map_eq_some_iff.mp h
    cases same
    exact ⟨trivial, takeDottedName_plain plain taken⟩

theorem takeArgument_plain {ts rest : List Token} {argument : Argument} (plain : AllPlain ts)
    (h : takeArgument ts = some (argument, rest)) : argument.value.IsPlain ∧ AllPlain rest := by
  unfold takeArgument at h
  split at h
  · have inside := (allPlain_cons.mp (allPlain_cons.mp plain).2).2
    obtain ⟨⟨value, _⟩, taken, same⟩ := Option.map_eq_some_iff.mp h
    cases same
    exact takeValue_plain inside taken
  · obtain ⟨⟨value, _⟩, taken, same⟩ := Option.map_eq_some_iff.mp h
    cases same
    exact takeValue_plain plain taken

theorem takeArguments_plain (fuel : Nat) {ts rest : List Token} {arguments : List Argument}
    (plain : AllPlain ts) (h : takeArguments fuel ts = some (arguments, rest)) :
    ∀ argument ∈ arguments, argument.value.IsPlain := by
  induction fuel generalizing ts arguments with
  | zero => cases h
  | succ fuel ih =>
    unfold takeArguments at h
    split at h
    · rename_i argument after taken
      obtain ⟨named, after⟩ := takeArgument_plain plain taken
      obtain ⟨⟨more, _⟩, taken, same⟩ := Option.map_eq_some_iff.mp h
      cases same
      exact List.forall_mem_cons.mpr ⟨named, ih (allPlain_cons.mp after).2 taken⟩
    · rename_i argument after taken
      cases h
      exact List.forall_mem_cons.mpr ⟨(takeArgument_plain plain taken).1, nofun⟩
    · cases h

theorem takeArgumentList_plain {ts rest : List Token} {arguments : List Argument}
    (plain : AllPlain ts) (h : takeArgumentList ts = some (arguments, rest)) :
    ∀ argument ∈ arguments, argument.value.IsPlain := by
  unfold takeArgumentList at h
  split at h
  · cases h
    exact nofun
  · exact takeArguments_plain _ (allPlain_cons.mp plain).2 h
  · cases h
    exact nofun

theorem parse_plain {text : String} {attr : Attribute} (h : Attribute.parse? text = some attr) :
    TypeRef.ArgumentsPlain attr.typeArguments ∧
      ∀ argument ∈ attr.arguments, argument.value.IsPlain := by
  obtain ⟨ts, scanned, read⟩ := Option.bind_eq_some_iff.mp h
  have plain : AllPlain ts := Token.scanSteps_plain _ scanned
  unfold Attribute.ofTokens? at read
  split at read
  · cases read
  · rename_i name rest named
    have others := takeDottedName_plain plain named
    split at read
    · cases read
    · rename_i typeArguments after typed
      obtain ⟨argued, others⟩ := takeTypeArguments_plain _ others typed
      split at read
      · rename_i arguments listed
        cases read
        exact ⟨argued, takeArgumentList_plain others listed⟩
      · cases read

def Meaning.IsPlain : Meaning → Prop
  | .typeOf ref => ref.IsPlain
  | _ => True

theorem meaning_plain {value : Value} {meaning : Meaning} (plain : value.IsPlain)
    (h : value.meaning = .ok meaning) : meaning.IsPlain := by
  cases value with
  | typeOf ref =>
    cases h
    exact plain
  | regular raw =>
    simp only [Value.meaning] at h
    split at h
    · cases h
      trivial
    · cases h
  | verbatim raw =>
    cases h
    trivial
  | constant name =>
    cases h
    trivial

theorem meanings_plain {arguments : List Argument} {values : List (Option String × Meaning)}
    (plain : ∀ argument ∈ arguments, argument.value.IsPlain)
    (h : meanings arguments = .ok values) : ∀ value ∈ values, value.2.IsPlain := by
  induction arguments generalizing values with
  | nil =>
    cases h
    exact nofun
  | cons argument rest ih =>
    obtain ⟨first, others⟩ := List.forall_mem_cons.mp plain
    unfold meanings at h
    split at h
    · cases h
    · rename_i value meant
      obtain ⟨values, more, rfl⟩ := ok_of_map h
      exact List.forall_mem_cons.mpr ⟨meaning_plain first meant, ih others more⟩

structure Arguments.ArePlain (args : Arguments) : Prop where
  positional : ∀ value ∈ args.positional, value.IsPlain
  anchor : ∀ ref, args.anchor = some ref → ref.IsPlain

namespace Arguments

theorem insert_plain {args after : Arguments} {name? : Option String} {value : Meaning}
    (plain : args.ArePlain) (meant : value.IsPlain) (h : args.insert name? value = .ok after) :
    after.ArePlain := by
  have access : ∀ parts, (accessOf parts).map (fun access => { args with access := some access }) =
      .ok after → after.ArePlain := by
    intro parts taken
    obtain ⟨found, _, rfl⟩ := ok_of_map taken
    exact ⟨plain.positional, plain.anchor⟩
  unfold insert at h
  split at h
  · exact access _ h
  · cases h
    refine ⟨fun other held => ?_, plain.anchor⟩
    rcases List.mem_append.mp held with before | own
    · exact plain.positional other before
    · rw [List.mem_singleton.mp own]
      exact meant
  · split at h
    · split at h
      · exact access _ h
      · cases h
    · split at h
      · split at h
        · cases h
          refine ⟨plain.positional, fun ref same => ?_⟩
          cases same
          exact meant
        · cases h
      · split at h
        · split at h
          · cases h
            exact ⟨plain.positional, plain.anchor⟩
          · cases h
        · cases h

theorem collect_plain {args after : Arguments} {values : List (Option String × Meaning)}
    (plain : args.ArePlain) (meant : ∀ value ∈ values, value.2.IsPlain)
    (h : args.collect values = .ok after) : after.ArePlain := by
  induction values generalizing args with
  | nil =>
    cases h
    exact plain
  | cons value rest ih =>
    obtain ⟨first, others⟩ := List.forall_mem_cons.mp meant
    unfold collect at h
    split at h
    · rename_i inserted
      exact ih (insert_plain plain first inserted) others h
    · cases h

/-- The request of sorted arguments is plain, or it is for the type that the marker is applied
to. -/
theorem marker_plain {args : Arguments} {declared? : Option TypeRef} {marker : Marker}
    (plain : args.ArePlain) (h : args.marker declared? = .ok marker) {request : Request}
    (asked : marker.request? = some request) :
    request.IsPlain ∨ ∃ ref access, declared? = some ref ∧ request = Request.direct ref access := by
  unfold Arguments.marker at h
  split at h
  · split at h
    · cases h
      obtain ⟨ref, declared, rfl⟩ := Option.map_eq_some_iff.mp asked
      exact Or.inr ⟨ref, args.access, declared, rfl⟩
    · cases h
  · rename_i ref listed
    split at h
    · cases h
      cases asked
      refine Or.inl ?_
      exact plain.positional (.typeOf ref) (listed ▸ List.mem_cons_self)
    · cases h
  · rename_i fullName rest listed
    split at h
    · split at h
      · cases h
      · rename_i home told
        cases h
        cases asked
        refine Or.inl fun anchor same => plain.anchor anchor ?_
        exact (Home.ofParts?_eq_some_iff.mp told).1.trans same
    · rename_i ref anchorless
      cases h
      cases asked
      refine Or.inl fun anchor same => ?_
      cases same
      exact plain.positional (.typeOf ref)
        (listed ▸ List.mem_cons_of_mem _ List.mem_cons_self)
    · cases h
  · cases h

end Arguments

theorem attribute_plain {attr : Attribute} {declared? : Option TypeRef} {marker : Marker}
    (typed : TypeRef.ArgumentsPlain attr.typeArguments)
    (plain : ∀ argument ∈ attr.arguments, argument.value.IsPlain)
    (h : attr.marker declared? = .ok marker) {request : Request}
    (asked : marker.request? = some request) :
    request.IsPlain ∨ ∃ ref access, declared? = some ref ∧ request = Request.direct ref access := by
  unfold Attribute.marker at h
  split at h
  · cases h
  · rename_i values meant
    split at h
    · split at h
      · cases h
      · rename_i args sorted
        have start : ({} : Arguments).ArePlain := ⟨nofun, nofun⟩
        exact Arguments.marker_plain
          (Arguments.collect_plain start (meanings_plain plain meant) sorted) h asked
    · rename_i ref listed
      cases h
      cases asked
      rw [listed] at typed
      exact Or.inl typed.1
    · cases h

theorem read_plain {text : String} {declared? : Option TypeRef} {marker : Marker}
    (h : read text declared? = .ok (some marker)) {request : Request}
    (asked : marker.request? = some request) :
    request.IsPlain ∨ ∃ ref access, declared? = some ref ∧ request = Request.direct ref access := by
  unfold read at h
  split at h
  · cases h
  · split at h
    · cases h
    · rename_i attr parsed
      obtain ⟨typed, plain⟩ := parse_plain parsed
      obtain ⟨found, made, same⟩ := ok_of_map h
      obtain rfl : found = marker := Option.some.inj same
      exact attribute_plain typed plain made asked

theorem readExtra_plain {text : String} {request : Request} (h : readExtra text = .ok request) :
    request.IsPlain := by
  unfold readExtra at h
  split at h
  · cases h
  · cases h
  · rename_i marker found
    split at h
    · cases h
    · rename_i asked
      cases h
      rcases read_plain found asked with plain | ⟨ref, access, declared, _⟩
      · exact plain
      · cases declared

/-- Each request of the markers outside the sources is made by one of them. -/
theorem mem_readAllExtra {texts : List String} {requests : List Request}
    (h : readAllExtra texts = .ok requests) {request : Request} (held : request ∈ requests) :
    ∃ text ∈ texts, readExtra text = .ok request := by
  induction texts generalizing requests with
  | nil =>
    cases h
    cases held
  | cons text rest ih =>
    rw [readAllExtra] at h
    obtain ⟨own, first, later⟩ := ok_of_bind h
    obtain ⟨more, others, rfl⟩ := ok_of_map later
    rcases List.mem_cons.mp held with rfl | behind
    · exact ⟨text, List.mem_cons_self, first⟩
    · obtain ⟨other, among, made⟩ := ih others behind
      exact ⟨other, List.mem_cons_of_mem text among, made⟩

theorem readAllExtra_plain {texts : List String} {requests : List Request}
    (h : readAllExtra texts = .ok requests) : ∀ request ∈ requests, request.IsPlain := by
  intro request held
  obtain ⟨text, _, made⟩ := mem_readAllExtra h held
  exact readExtra_plain made

theorem requestsOf_expressible {p : SourceProgram} {m : SourceMarker} {requests : List Request}
    (h : requestsOf p m = .ok requests) : ∀ request ∈ requests, request.IsExpressible p := by
  intro request held
  unfold requestsOf at h
  split at h
  · cases h
  · cases h
    cases held
  · rename_i marker found
    split at h
    · rename_i own asked
      cases h
      rw [List.mem_singleton] at held
      subst held
      rcases read_plain found asked with plain | ⟨ref, access, declared, rfl⟩
      · exact Or.inl plain
      · obtain ⟨t, known, rfl⟩ := Option.map_eq_some_iff.mp declared
        obtain ⟨fullName, _, there⟩ := Option.bind_eq_some_iff.mp known
        exact Or.inr ⟨t, List.mem_of_find?_eq_some there, access, rfl⟩
    · cases h
      rw [requestsForAll] at held
      obtain ⟨t, there, rfl⟩ := List.mem_map.mp held
      exact Or.inr ⟨t, (List.mem_filter.mp there).1, marker.access, rfl⟩

/-- All requests that are collected are expressible. -/
theorem collect_expressible {p : SourceProgram} {extra : List String} {requests : List Request}
    (h : collect p extra = .ok requests) : ∀ request ∈ requests, request.IsExpressible p := by
  intro request held
  obtain ⟨more, others, rfl⟩ := ok_of_map h
  rcases List.mem_append.mp held with inSource | outside
  · obtain ⟨m, _, inside⟩ := List.mem_flatMap.mp inSource
    cases own : requestsOf p m with
    | error e =>
      rw [own] at inside
      cases inside
    | ok requests =>
      rw [own] at inside
      exact requestsOf_expressible own request inside
  · exact Or.inl (readAllExtra_plain others request outside)

end Marker

end HiddenNames
