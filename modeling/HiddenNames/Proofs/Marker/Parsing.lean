import HiddenNames.Proofs.Marker.Lexing

/-!
The reader of attributes accepts what the grammar derives, and gives the attribute that the
derivation stands for. So a text stands for one attribute at most.
-/

namespace HiddenNames.Marker

/-! What is read is derived. -/

/-- Wherever the tokens are scanned, the phrase is derived, and the rest of the tokens is left. -/
def Reads (phrase : Phrase) (ts rest : List Token) : Prop :=
  ∀ {s : List Char}, Token.scan s = some ts → ∃ t, Derives phrase s t ∧ Token.scan t = some rest

theorem named_word (text : String) : named (Token.ident text).word = nameOf text :=
  congrArg nameOf String.ofList_toList

theorem takeAlias_reads {ts rest : List Token} {alias? : Option String}
    (h : takeAlias ts = (alias?, rest)) : Reads (.alias? alias?) ts rest := by
  intro s scanned
  unfold takeAlias at h
  split at h
  · cases h
    obtain ⟨t, name, scanned⟩ := takes_of_scan scanned
    obtain ⟨u, colons, scanned⟩ := takes_of_scan scanned
    exact ⟨u, named_word _ ▸ .inFront name colons, scanned⟩
  · cases h
    exact ⟨s, .noAlias, scanned⟩

theorem openList_reads {ts rest : List Token} {commas : Nat}
    (h : openList ts = some (commas, rest)) : Reads (.commas commas) ts (.greater :: rest) := by
  intro s scanned
  fun_induction openList ts generalizing commas s with
  | case1 ts ih =>
    obtain ⟨⟨_, _⟩, taken, same⟩ := Option.map_eq_some_iff.mp h
    cases same
    obtain ⟨t, comma, scanned⟩ := takes_of_scan scanned
    obtain ⟨u, more, scanned⟩ := ih taken scanned
    exact ⟨u, .comma comma more, scanned⟩
  | case2 ts =>
    cases h
    exact ⟨s, .noComma, scanned⟩
  | case3 => cases h

mutual

theorem takeRef_reads (fuel : Nat) {ts rest : List Token} {ref : TypeRef}
    (h : takeRef fuel ts = some (ref, rest)) : Reads (.ref ref) ts rest := by
  intro s scanned
  cases fuel with
  | zero => cases h
  | succ fuel =>
    rcases aliased : takeAlias ts with ⟨alias?, names⟩
    simp only [takeRef, aliased] at h
    obtain ⟨⟨segments, _⟩, taken, same⟩ := Option.map_eq_some_iff.mp h
    cases same
    obtain ⟨t, before, scanned⟩ := takeAlias_reads aliased scanned
    obtain ⟨u, parts, scanned⟩ := takeSegments_reads fuel taken scanned
    exact ⟨u, .ref before parts, scanned⟩

theorem takeSegments_reads (fuel : Nat) {ts rest : List Token} {segments : List TypeSegment}
    (h : takeSegments fuel ts = some (segments, rest)) : Reads (.segments segments) ts rest := by
  intro s scanned
  cases fuel with
  | zero => cases h
  | succ fuel =>
    unfold takeSegments at h
    split at h
    · obtain ⟨t, name, scanned⟩ := takes_of_scan scanned
      split at h
      · rename_i arguments after taken
        obtain ⟨u, typed, scanned⟩ := takeTypeArguments_reads fuel taken scanned
        obtain ⟨v, dot, scanned⟩ := takes_of_scan scanned
        obtain ⟨⟨more, _⟩, taken, same⟩ := Option.map_eq_some_iff.mp h
        cases same
        obtain ⟨x, parts, scanned⟩ := takeSegments_reads fuel taken scanned
        exact ⟨x, named_word _ ▸ .segment name typed dot parts, scanned⟩
      · rename_i arguments after _ taken
        obtain ⟨u, typed, scanned⟩ := takeTypeArguments_reads fuel taken scanned
        cases h
        exact ⟨u, named_word _ ▸ .lastSegment name typed, scanned⟩
      · cases h
    · cases h

theorem takeTypeArguments_reads (fuel : Nat) {ts rest : List Token}
    {arguments : List (Option TypeRef)} (h : takeTypeArguments fuel ts = some (arguments, rest)) :
    Reads (.typeArguments arguments) ts rest := by
  intro s scanned
  cases fuel with
  | zero => cases h
  | succ fuel =>
    unfold takeTypeArguments at h
    split at h
    · obtain ⟨t, less, scanned⟩ := takes_of_scan scanned
      split at h
      · rename_i commas after opened
        cases h
        obtain ⟨u, commas, scanned⟩ := openList_reads opened scanned
        obtain ⟨v, greater, scanned⟩ := takes_of_scan scanned
        exact ⟨v, .unbound less commas greater, scanned⟩
      · obtain ⟨refs, rfl, read⟩ := takeRefs_reads fuel h
        obtain ⟨u, refs, scanned⟩ := read scanned
        obtain ⟨v, greater, scanned⟩ := takes_of_scan scanned
        exact ⟨v, .bound less refs greater, scanned⟩
    · cases h
      exact ⟨s, .noTypeArguments, scanned⟩

theorem takeRefs_reads (fuel : Nat) {ts rest : List Token} {arguments : List (Option TypeRef)}
    (h : takeRefs fuel ts = some (arguments, rest)) :
    ∃ refs, arguments = refs.map some ∧ Reads (.refs refs) ts (.greater :: rest) := by
  cases fuel with
  | zero => cases h
  | succ fuel =>
    unfold takeRefs at h
    split at h
    · rename_i ref after taken
      obtain ⟨⟨more, _⟩, further, same⟩ := Option.map_eq_some_iff.mp h
      cases same
      obtain ⟨refs, rfl, others⟩ := takeRefs_reads fuel further
      refine ⟨ref :: refs, rfl, fun scanned => ?_⟩
      obtain ⟨t, first, scanned⟩ := takeRef_reads fuel taken scanned
      obtain ⟨u, comma, scanned⟩ := takes_of_scan scanned
      obtain ⟨v, more, scanned⟩ := others scanned
      exact ⟨v, .moreRefs first comma more, scanned⟩
    · rename_i ref after taken
      cases h
      refine ⟨[ref], rfl, fun scanned => ?_⟩
      obtain ⟨t, only, scanned⟩ := takeRef_reads fuel taken scanned
      exact ⟨t, .lastRef only, scanned⟩
    · cases h

end

theorem takeParts_reads {ts rest : List Token} {parts : List String}
    (h : takeParts ts = some (parts, rest)) : Reads (.parts parts) ts rest := by
  intro s scanned
  fun_induction takeParts ts generalizing parts s with
  | case1 text ts ih =>
    obtain ⟨⟨more, _⟩, taken, same⟩ := Option.map_eq_some_iff.mp h
    cases same
    obtain ⟨t, name, scanned⟩ := takes_of_scan scanned
    obtain ⟨u, dot, scanned⟩ := takes_of_scan scanned
    obtain ⟨v, more, scanned⟩ := ih taken scanned
    exact ⟨v, named_word _ ▸ .part name dot more, scanned⟩
  | case2 text ts =>
    cases h
    obtain ⟨t, name, scanned⟩ := takes_of_scan scanned
    exact ⟨t, named_word _ ▸ .lastPart name, scanned⟩
  | case3 => cases h

theorem takeDottedName_reads {ts rest : List Token} {name : DottedName}
    (h : takeDottedName ts = some (name, rest)) : Reads (.dotted name) ts rest := by
  intro s scanned
  rcases aliased : takeAlias ts with ⟨alias?, names⟩
  simp only [takeDottedName, aliased] at h
  obtain ⟨⟨parts, _⟩, taken, same⟩ := Option.map_eq_some_iff.mp h
  cases same
  obtain ⟨t, before, scanned⟩ := takeAlias_reads aliased scanned
  obtain ⟨u, parts, scanned⟩ := takeParts_reads taken scanned
  exact ⟨u, .dotted before parts, scanned⟩

theorem takeValue_reads {ts rest : List Token} {value : Value}
    (h : takeValue ts = some (value, rest)) : Reads (.value value) ts rest := by
  intro s scanned
  unfold takeValue at h
  split at h
  · split at h
    · rename_i ref after taken
      cases h
      obtain ⟨t, keyword, scanned⟩ := takes_of_scan scanned
      obtain ⟨u, opening, scanned⟩ := takes_of_scan scanned
      obtain ⟨v, inside, scanned⟩ := takeRef_reads _ taken scanned
      obtain ⟨x, closing, scanned⟩ := takes_of_scan scanned
      exact ⟨x, .typeOf (takes_typeof keyword) opening inside closing, scanned⟩
    · cases h
  · cases h
    obtain ⟨t, taken, scanned⟩ := takes_of_scan scanned
    exact ⟨t, .regular taken, scanned⟩
  · cases h
    obtain ⟨t, taken, scanned⟩ := takes_of_scan scanned
    exact ⟨t, .verbatim taken, scanned⟩
  · obtain ⟨⟨name, _⟩, taken, same⟩ := Option.map_eq_some_iff.mp h
    cases same
    obtain ⟨t, name, scanned⟩ := takeDottedName_reads taken scanned
    exact ⟨t, .constant name, scanned⟩

theorem takeArgument_reads {ts rest : List Token} {argument : Argument}
    (h : takeArgument ts = some (argument, rest)) : Reads (.argument argument) ts rest := by
  intro s scanned
  unfold takeArgument at h
  split at h
  · obtain ⟨⟨value, _⟩, taken, same⟩ := Option.map_eq_some_iff.mp h
    cases same
    obtain ⟨t, name, scanned⟩ := takes_of_scan scanned
    obtain ⟨u, colon, scanned⟩ := takes_of_scan scanned
    obtain ⟨v, value, scanned⟩ := takeValue_reads taken scanned
    exact ⟨v, named_word _ ▸ .named name colon value, scanned⟩
  · obtain ⟨⟨value, _⟩, taken, same⟩ := Option.map_eq_some_iff.mp h
    cases same
    obtain ⟨t, value, scanned⟩ := takeValue_reads taken scanned
    exact ⟨t, .positional value, scanned⟩

theorem takeArguments_reads (fuel : Nat) {ts rest : List Token} {arguments : List Argument}
    (h : takeArguments fuel ts = some (arguments, rest)) :
    Reads (.arguments arguments) ts (.closing :: rest) := by
  intro s scanned
  induction fuel generalizing ts arguments s with
  | zero => cases h
  | succ fuel ih =>
    unfold takeArguments at h
    split at h
    · rename_i argument after taken
      obtain ⟨⟨more, _⟩, further, same⟩ := Option.map_eq_some_iff.mp h
      cases same
      obtain ⟨t, first, scanned⟩ := takeArgument_reads taken scanned
      obtain ⟨u, comma, scanned⟩ := takes_of_scan scanned
      obtain ⟨v, more, scanned⟩ := ih further scanned
      exact ⟨v, .moreArguments first comma more, scanned⟩
    · rename_i argument after taken
      cases h
      obtain ⟨t, only, scanned⟩ := takeArgument_reads taken scanned
      exact ⟨t, .lastArgument only, scanned⟩
    · cases h

theorem takeArgumentList_reads {ts rest : List Token} {arguments : List Argument}
    (h : takeArgumentList ts = some (arguments, rest)) :
    Reads (.argumentList arguments) ts rest := by
  intro s scanned
  unfold takeArgumentList at h
  split at h
  · cases h
    obtain ⟨t, opening, scanned⟩ := takes_of_scan scanned
    obtain ⟨u, closing, scanned⟩ := takes_of_scan scanned
    exact ⟨u, .emptyList opening closing, scanned⟩
  · obtain ⟨t, opening, scanned⟩ := takes_of_scan scanned
    obtain ⟨u, arguments, scanned⟩ := takeArguments_reads _ h scanned
    obtain ⟨v, closing, scanned⟩ := takes_of_scan scanned
    exact ⟨v, .list opening arguments closing, scanned⟩
  · cases h
    exact ⟨s, .noList, scanned⟩

theorem written_of_parse {text : String} {attr : Attribute}
    (h : Attribute.parse? text = some attr) : attr.IsWritten text := by
  obtain ⟨ts, scanned, read⟩ := Option.bind_eq_some_iff.mp h
  unfold Attribute.ofTokens? at read
  split at read
  · cases read
  · rename_i name rest named
    split at read
    · cases read
    · rename_i typeArguments after typed
      split at read
      · rename_i arguments listed
        cases read
        obtain ⟨t, name, scanned⟩ := takeDottedName_reads named scanned
        obtain ⟨u, types, scanned⟩ := takeTypeArguments_reads _ typed scanned
        obtain ⟨v, arguments, scanned⟩ := takeArgumentList_reads listed scanned
        exact ⟨v, .whole name types arguments, Token.scan_nil_iff.mp scanned⟩
      · cases read

/-! What is derived is read. -/

def Opens (signs ts rest : List Token) : Prop :=
  ∃ text more, ts = .ident text :: more ∧ (more = rest ∨ ∃ sign ∈ signs, more.head? = some sign)

def Avoids (signs ts : List Token) : Prop := ∀ t ∈ ts.head?, t ∉ signs

def Ends (ts : List Token) : Prop := ts.head? = some .comma ∨ ts.head? = some .closing

/-- The tokens of a phrase are read, if what follows does not go on with it. What the tokens begin
with is there to tell phrases apart. -/
def IsRead : Phrase → List Token → List Token → Prop
  | .alias? alias?, ts, rest => (alias? = none ∧ ts = rest) ∨
      ∃ text, alias? = some (nameOf text) ∧ ts = .ident text :: .doubleColon :: rest
  | .parts parts, ts, rest => Opens [.dot] ts rest ∧
      (Avoids [.dot] rest → takeParts ts = some (parts, rest))
  | .dotted name, ts, rest => Opens [.doubleColon, .dot] ts rest ∧
      (Avoids [.doubleColon, .dot] rest → takeDottedName ts = some (name, rest))
  | .ref ref, ts, rest => Opens [.doubleColon, .dot, .less] ts rest ∧
      (Avoids [.doubleColon, .dot, .less] rest →
        ∀ fuel, 4 * ts.length ≤ fuel → takeRef fuel ts = some (ref, rest))
  | .segments segments, ts, rest => Opens [.dot, .less] ts rest ∧
      (Avoids [.dot, .less] rest →
        ∀ fuel, 4 * ts.length ≤ fuel + 1 → takeSegments fuel ts = some (segments, rest))
  | .refs refs, ts, rest => (∃ text more, ts = .ident text :: more) ∧
      ∀ after, rest = .greater :: after →
        ∀ fuel, 4 * ts.length + 1 ≤ fuel → takeRefs fuel ts = some (refs.map some, after)
  | .commas count, ts, rest =>
      ∀ after, rest = .greater :: after → openList ts = some (count, after)
  | .typeArguments arguments, ts, rest => (ts = rest ∨ ts.head? = some .less) ∧
      (Avoids [.less] rest →
        ∀ fuel, 4 * ts.length + 1 ≤ fuel → takeTypeArguments fuel ts = some (arguments, rest))
  | .value value, ts, rest => Avoids [.closing, .colon, .doubleColon] ts ∧
      (Ends rest → takeValue ts = some (value, rest) ∧
        ∀ text more, ts ≠ .ident text :: .colon :: more)
  | .argument argument, ts, rest => ts.head? ≠ some .closing ∧
      (Ends rest → takeArgument ts = some (argument, rest))
  | .arguments arguments, ts, rest => ts.head? ≠ some .closing ∧
      ∀ after, rest = .closing :: after →
        ∀ fuel, ts.length ≤ fuel → takeArguments fuel ts = some (arguments, after)
  | .argumentList arguments, ts, rest => (ts = rest ∨ ts.head? = some .opening) ∧
      (rest = [] → takeArgumentList ts = some (arguments, []))
  | .whole attr, ts, rest => rest = [] → Attribute.ofTokens? ts = some attr

variable {ts mid rest : List Token} {text : String}

theorem Avoids.mono {signs fewer : List Token} (h : Avoids signs ts) (among : fewer ⊆ signs) :
    Avoids fewer ts := fun t first held => h t first (among held)

theorem Avoids.of_head {signs : List Token} {t : Token} (first : ts.head? = some t)
    (other : t ∉ signs) : Avoids signs ts := by
  intro sign held
  rw [first] at held
  rwa [← Option.some.inj held]

theorem Ends.avoids {signs : List Token} (h : Ends rest) (comma : .comma ∉ signs)
    (closing : .closing ∉ signs) : Avoids signs rest :=
  h.elim (.of_head · comma) (.of_head · closing)

/-- Behind the name comes no sign that neither may come nor is the first of the rest. -/
theorem Opens.second {signs : List Token} {sign : Token} {more : List Token}
    (h : Opens signs ts rest) (other : sign ∉ signs) (avoids : Avoids [sign] rest) :
    ts ≠ .ident text :: sign :: more := by
  rintro rfl
  obtain ⟨_, behind, same, shape⟩ := h
  obtain rfl : sign :: more = behind := (List.cons.inj same).2
  rcases shape with rfl | ⟨allowed, among, first⟩
  · exact avoids sign rfl (List.mem_singleton_self sign)
  · exact other (Option.some.inj first ▸ among)

theorem takeAlias_none (h : ∀ text more, ts ≠ .ident text :: .doubleColon :: more) :
    takeAlias ts = (none, ts) := by
  unfold takeAlias
  split
  · exact absurd rfl (h _ _)
  · rfl

namespace IsRead

theorem lastPart : IsRead (.parts [nameOf text]) (.ident text :: rest) rest := by
  refine ⟨⟨text, rest, rfl, Or.inl rfl⟩, fun avoids => ?_⟩
  rw [takeParts]
  rintro more rfl
  exact avoids .dot rfl (List.mem_singleton_self _)

theorem part {parts : List String} (h : IsRead (.parts parts) ts rest) :
    IsRead (.parts (nameOf text :: parts)) (.ident text :: .dot :: ts) rest := by
  refine ⟨⟨text, .dot :: ts, rfl, Or.inr ⟨.dot, List.mem_singleton_self _, rfl⟩⟩, fun avoids => ?_⟩
  rw [takeParts, h.2 avoids]
  rfl

theorem aliased {alias? : Option String} {signs : List Token} (h : IsRead (.alias? alias?) ts mid)
    (opens : Opens signs mid rest) (other : .doubleColon ∉ signs)
    (avoids : Avoids [.doubleColon] rest) : takeAlias ts = (alias?, mid) := by
  rcases h with ⟨rfl, rfl⟩ | ⟨text, rfl, rfl⟩
  · exact takeAlias_none fun _ _ => opens.second other avoids
  · rfl

theorem opens_aliased {alias? : Option String} {signs : List Token}
    (h : IsRead (.alias? alias?) ts mid) (opens : Opens signs mid rest) :
    Opens (.doubleColon :: signs) ts rest := by
  rcases h with ⟨rfl, rfl⟩ | ⟨text, rfl, rfl⟩
  · obtain ⟨text, more, rfl, shape⟩ := opens
    refine ⟨text, more, rfl, shape.imp_right ?_⟩
    rintro ⟨sign, among, first⟩
    exact ⟨sign, List.mem_cons_of_mem _ among, first⟩
  · exact ⟨text, .doubleColon :: mid, rfl, Or.inr ⟨.doubleColon, List.mem_cons_self, rfl⟩⟩

theorem dotted {alias? : Option String} {parts : List String}
    (front : IsRead (.alias? alias?) ts mid)
    (h : IsRead (.parts parts) mid rest) : IsRead (.dotted ⟨alias?, parts⟩) ts rest := by
  refine ⟨front.opens_aliased h.1, fun avoids => ?_⟩
  have taken := front.aliased h.1 (by decide) (avoids.mono (by decide))
  rw [takeDottedName, taken]
  simp only [h.2 (avoids.mono (by decide)), Option.map_some]

theorem ref {alias? : Option String} {segments : List TypeSegment}
    (front : IsRead (.alias? alias?) ts mid) (h : IsRead (.segments segments) mid rest) :
    IsRead (.ref (.mk alias? segments)) ts rest := by
  refine ⟨front.opens_aliased h.1, fun avoids fuel enough => ?_⟩
  have taken := front.aliased h.1 (by decide) (avoids.mono (by decide))
  have shorter : mid.length ≤ ts.length := by
    rcases front with ⟨_, rfl⟩ | ⟨_, _, rfl⟩
    · exact Nat.le_refl _
    · simp only [List.length_cons]
      omega
  obtain ⟨text, more, rfl, _⟩ := h.1
  rw [List.length_cons] at shorter
  cases fuel with
  | zero => omega
  | succ fuel =>
    rw [takeRef, taken]
    have inside := h.2 (avoids.mono (by decide)) fuel (by rw [List.length_cons]; omega)
    simp only [inside, Option.map_some]

theorem behind_name {arguments : List (Option TypeRef)} {signs : List Token}
    (h : IsRead (.typeArguments arguments) ts rest)
    (further : ts = rest → rest = mid ∨ ∃ sign ∈ signs, rest.head? = some sign)
    (less : .less ∈ signs) : Opens signs (.ident text :: ts) mid := by
  refine ⟨text, ts, rfl, ?_⟩
  rcases h.1 with none | bracket
  · rw [none]
    exact further none
  · exact Or.inr ⟨.less, less, bracket⟩

theorem lastSegment {arguments : List (Option TypeRef)}
    (h : IsRead (.typeArguments arguments) ts rest) :
    IsRead (.segments [.mk (nameOf text) arguments]) (.ident text :: ts) rest := by
  refine ⟨h.behind_name (fun _ => Or.inl rfl) (by decide), fun avoids fuel enough => ?_⟩
  rw [List.length_cons] at enough
  cases fuel with
  | zero => omega
  | succ fuel =>
    rw [takeSegments, h.2 (avoids.mono (by decide)) fuel (by omega)]
    cases rest with
    | nil => rfl
    | cons t more =>
      cases t with
      | dot => exact absurd (by decide) (avoids .dot rfl)
      | _ => rfl

theorem segment {arguments : List (Option TypeRef)} {segments : List TypeSegment}
    (h : IsRead (.typeArguments arguments) ts (.dot :: mid)) (shorter : mid.length < ts.length)
    (others : IsRead (.segments segments) mid rest) :
    IsRead (.segments (.mk (nameOf text) arguments :: segments)) (.ident text :: ts) rest := by
  refine ⟨h.behind_name (fun _ => Or.inr ⟨.dot, by decide, rfl⟩) (by decide), ?_⟩
  intro avoids fuel enough
  rw [List.length_cons] at enough
  cases fuel with
  | zero => omega
  | succ fuel =>
    have typed := h.2 (.of_head rfl (by decide)) fuel (by omega)
    rw [takeSegments, typed]
    simp only [others.2 avoids fuel (by omega), Option.map_some]

theorem lastRef {r : TypeRef} (h : IsRead (.ref r) ts rest) : IsRead (.refs [r]) ts rest := by
  obtain ⟨text, more, rfl, _⟩ := h.1
  refine ⟨⟨text, more, rfl⟩, ?_⟩
  rintro after rfl fuel enough
  cases fuel with
  | zero => omega
  | succ fuel =>
    rw [takeRefs, h.2 (.of_head rfl (by decide)) fuel (by omega)]
    rfl

theorem moreRefs {r : TypeRef} {refs : List TypeRef} (h : IsRead (.ref r) ts (.comma :: mid))
    (shorter : mid.length < ts.length) (others : IsRead (.refs refs) mid rest) :
    IsRead (.refs (r :: refs)) ts rest := by
  obtain ⟨text, more, rfl, _⟩ := h.1
  refine ⟨⟨text, more, rfl⟩, ?_⟩
  rintro after rfl fuel enough
  cases fuel with
  | zero => omega
  | succ fuel =>
    rw [takeRefs, h.2 (.of_head rfl (by decide)) fuel (by omega)]
    simp only [others.2 after rfl fuel (by omega), Option.map_some, List.map_cons]

theorem noComma : IsRead (.commas 0) rest rest := by
  rintro after rfl
  rfl

theorem comma {count : Nat} (h : IsRead (.commas count) ts rest) :
    IsRead (.commas (count + 1)) (.comma :: ts) rest := by
  rintro after rfl
  rw [openList, h after rfl]
  rfl

theorem noTypeArguments : IsRead (.typeArguments []) rest rest := by
  refine ⟨Or.inl rfl, fun avoids fuel enough => ?_⟩
  cases fuel with
  | zero => omega
  | succ fuel =>
    rw [takeTypeArguments]
    rintro more rfl
    exact avoids .less rfl (List.mem_singleton_self _)

theorem bound {refs : List TypeRef} (h : IsRead (.refs refs) ts (.greater :: rest)) :
    IsRead (.typeArguments (refs.map some)) (.less :: ts) rest := by
  obtain ⟨text, more, rfl⟩ := h.1
  refine ⟨Or.inr rfl, fun _ fuel enough => ?_⟩
  rw [List.length_cons] at enough
  cases fuel with
  | zero => omega
  | succ fuel =>
    rw [takeTypeArguments]
    exact h.2 rest rfl fuel (by omega)

theorem unbound {count : Nat} (h : IsRead (.commas count) ts (.greater :: rest)) :
    IsRead (.typeArguments (List.replicate (count + 1) none)) (.less :: ts) rest := by
  refine ⟨Or.inr rfl, fun _ fuel enough => ?_⟩
  cases fuel with
  | zero => omega
  | succ fuel => rw [takeTypeArguments, h rest rfl]

theorem typeOf {r : TypeRef} (h : IsRead (.ref r) ts (.closing :: rest)) :
    IsRead (.value (.typeOf r)) (.ident "typeof" :: .opening :: ts) rest := by
  refine ⟨Avoids.of_head rfl (by decide), fun _ => ⟨?_, ?_⟩⟩
  · have taken := h.2 (.of_head rfl (by decide)) (refFuel ts) (Nat.le_add_right _ _)
    rw [takeValue, taken]
  · intro text more same
    cases (List.cons.inj (List.cons.inj same).2).1

theorem regular {raw : List Char} : IsRead (.value (.regular raw)) (.regular raw :: rest) rest :=
  ⟨.of_head rfl (by simp), fun _ => ⟨rfl, nofun⟩⟩

theorem verbatim {raw : List Char} : IsRead (.value (.verbatim raw)) (.verbatim raw :: rest) rest :=
  ⟨.of_head rfl (by simp), fun _ => ⟨rfl, nofun⟩⟩

theorem constant {name : DottedName} (h : IsRead (.dotted name) ts rest) :
    IsRead (.value (.constant name)) ts rest := by
  have unnamed (ends : Ends rest) (text : String) (more : List Token) :
      ts ≠ .ident text :: .colon :: more :=
    h.1.second (by decide) (ends.avoids (by decide) (by decide))
  refine ⟨?_, fun ends => ⟨?_, unnamed ends⟩⟩
  · obtain ⟨text, more, rfl, _⟩ := h.1
    exact .of_head rfl (by simp)
  · have opens : ∀ more, ts ≠ .ident "typeof" :: .opening :: more := by
      rintro more rfl
      obtain ⟨_, behind, same, rfl | ⟨sign, among, first⟩⟩ := h.1
      · obtain ⟨_, rfl⟩ := List.cons.inj same
        rcases ends with sign | sign <;> cases sign
      · obtain ⟨_, rfl⟩ := List.cons.inj same
        cases first
        exact absurd among (by decide)
    have read := h.2 (ends.avoids (by decide) (by decide))
    unfold takeValue
    obtain ⟨text, more, rfl, _⟩ := h.1
    split
    · rename_i same
      exact absurd same (opens _)
    · rename_i same
      cases same
    · rename_i same
      cases same
    · rw [read]
      rfl

theorem positional {value : Value} (h : IsRead (.value value) ts rest) :
    IsRead (.argument ⟨none, value⟩) ts rest := by
  refine ⟨fun closing => h.1 .closing closing (by decide), fun ends => ?_⟩
  obtain ⟨taken, unnamed⟩ := h.2 ends
  unfold takeArgument
  split
  · exact absurd rfl (unnamed _ _)
  · rw [taken]
    rfl

theorem named {value : Value} (h : IsRead (.value value) ts rest) :
    IsRead (.argument ⟨some (nameOf text), value⟩) (.ident text :: .colon :: ts) rest := by
  refine ⟨nofun, fun ends => ?_⟩
  rw [takeArgument, (h.2 ends).1]
  rfl

theorem lastArgument {argument : Argument} (h : IsRead (.argument argument) ts rest)
    (shorter : rest.length ≤ ts.length) : IsRead (.arguments [argument]) ts rest := by
  refine ⟨h.1, ?_⟩
  rintro after rfl fuel enough
  rw [List.length_cons] at shorter
  cases fuel with
  | zero => omega
  | succ fuel => rw [takeArguments, h.2 (Or.inr rfl)]

theorem moreArguments {argument : Argument} {arguments : List Argument}
    (h : IsRead (.argument argument) ts (.comma :: mid)) (shorter : mid.length < ts.length)
    (others : IsRead (.arguments arguments) mid rest) :
    IsRead (.arguments (argument :: arguments)) ts rest := by
  refine ⟨h.1, ?_⟩
  rintro after rfl fuel enough
  cases fuel with
  | zero => omega
  | succ fuel =>
    rw [takeArguments, h.2 (Or.inl rfl)]
    simp only [others.2 after rfl fuel (by omega), Option.map_some]

theorem noList : IsRead (.argumentList []) rest rest := by
  refine ⟨Or.inl rfl, ?_⟩
  rintro rfl
  rfl

theorem emptyList : IsRead (.argumentList []) (.opening :: .closing :: rest) rest := by
  refine ⟨Or.inr rfl, ?_⟩
  rintro rfl
  rfl

theorem list {arguments : List Argument} (h : IsRead (.arguments arguments) ts (.closing :: rest)) :
    IsRead (.argumentList arguments) (.opening :: ts) rest := by
  refine ⟨Or.inr rfl, ?_⟩
  rintro rfl
  unfold takeArgumentList
  split
  · rename_i same
    cases same
    exact absurd rfl h.1
  · rename_i same
    cases same
    exact h.2 [] rfl _ (Nat.le_refl _)
  · rename_i more _ other
    exact absurd rfl (other ts)

theorem whole {name : DottedName} {typeArguments : List (Option TypeRef)}
    {arguments : List Argument} {last : List Token} (front : IsRead (.dotted name) ts mid)
    (types : IsRead (.typeArguments typeArguments) mid rest)
    (h : IsRead (.argumentList arguments) rest last) :
    IsRead (.whole ⟨name, typeArguments, arguments⟩) ts last := by
  rintro rfl
  have behind : Avoids [.less] rest ∧ Avoids [.doubleColon, .dot] rest := by
    rcases h.1 with rfl | opening
    · exact ⟨nofun, nofun⟩
    · exact ⟨.of_head opening (by decide), .of_head opening (by decide)⟩
  have between : Avoids [.doubleColon, .dot] mid := by
    rcases types.1 with rfl | less
    · exact behind.2
    · exact .of_head less (by decide)
  rw [Attribute.ofTokens?, front.2 between]
  simp only [types.2 behind.1 (refFuel mid) (by unfold refFuel; omega), h.2 rfl]

end IsRead

/-- Where the rest is scanned, the whole is, to tokens of which the phrase is read. The phrases of a
derivation stand one behind the other, so their tokens are found from the last to the first. -/
theorem read_of_derives {phrase : Phrase} {s t : List Char} (h : Derives phrase s t) :
    ∀ {rest : List Token}, Token.scan t = some rest →
      ∃ ts, Token.scan s = some ts ∧ rest.length ≤ ts.length ∧ IsRead phrase ts rest := by
  induction h with
  | noAlias =>
    intro rest scanned
    exact ⟨rest, scanned, Nat.le_refl _, Or.inl ⟨rfl, rfl⟩⟩
  | inFront name colons =>
    intro rest scanned
    have scanned := scan_of_ident name (scan_of_literal .doubleColon rfl colons scanned nofun)
    exact ⟨_, scanned, by simp only [List.length_cons]; omega, Or.inr ⟨_, rfl, rfl⟩⟩
  | lastPart name =>
    intro rest scanned
    exact ⟨_, scan_of_ident name scanned, Nat.le_succ _, .lastPart⟩
  | part name dot _ ih =>
    intro rest scanned
    obtain ⟨ts, scanned, shorter, parts⟩ := ih scanned
    have scanned := scan_of_ident name (scan_of_literal .dot rfl dot scanned nofun)
    exact ⟨_, scanned, by simp only [List.length_cons]; omega, .part parts⟩
  | dotted _ _ front ih =>
    intro rest scanned
    obtain ⟨ts, scanned, shorter, parts⟩ := ih scanned
    obtain ⟨all, scanned, longer, front⟩ := front scanned
    exact ⟨all, scanned, Nat.le_trans shorter longer, front.dotted parts⟩
  | ref _ _ front ih =>
    intro rest scanned
    obtain ⟨ts, scanned, shorter, segments⟩ := ih scanned
    obtain ⟨all, scanned, longer, front⟩ := front scanned
    exact ⟨all, scanned, Nat.le_trans shorter longer, front.ref segments⟩
  | lastSegment name _ ih =>
    intro rest scanned
    obtain ⟨ts, scanned, shorter, types⟩ := ih scanned
    exact ⟨_, scan_of_ident name scanned, Nat.le_succ_of_le shorter, types.lastSegment⟩
  | segment name _ dot _ types ih =>
    intro rest scanned
    obtain ⟨ts, scanned, shorter, segments⟩ := ih scanned
    obtain ⟨all, scanned, longer, types⟩ := types (scan_of_literal .dot rfl dot scanned nofun)
    rw [List.length_cons] at longer
    exact ⟨_, scan_of_ident name scanned, by rw [List.length_cons]; omega,
      types.segment longer segments⟩
  | lastRef _ ih =>
    intro rest scanned
    obtain ⟨ts, scanned, shorter, only⟩ := ih scanned
    exact ⟨ts, scanned, shorter, only.lastRef⟩
  | moreRefs _ comma _ first ih =>
    intro rest scanned
    obtain ⟨ts, scanned, shorter, more⟩ := ih scanned
    obtain ⟨all, scanned, longer, first⟩ :=
      first (scan_of_literal .comma rfl comma scanned nofun)
    rw [List.length_cons] at longer
    exact ⟨all, scanned, by omega, first.moreRefs longer more⟩
  | noComma =>
    intro rest scanned
    exact ⟨rest, scanned, Nat.le_refl _, .noComma⟩
  | comma comma _ ih =>
    intro rest scanned
    obtain ⟨ts, scanned, shorter, commas⟩ := ih scanned
    exact ⟨_, scan_of_literal .comma rfl comma scanned nofun,
      Nat.le_succ_of_le shorter, commas.comma⟩
  | noTypeArguments =>
    intro rest scanned
    exact ⟨rest, scanned, Nat.le_refl _, .noTypeArguments⟩
  | bound less _ greater ih =>
    intro rest scanned
    obtain ⟨ts, scanned, shorter, refs⟩ :=
      ih (scan_of_literal .greater rfl greater scanned nofun)
    rw [List.length_cons] at shorter
    exact ⟨_, scan_of_literal .less rfl less scanned nofun,
      by rw [List.length_cons]; omega, refs.bound⟩
  | unbound less _ greater ih =>
    intro rest scanned
    obtain ⟨ts, scanned, shorter, commas⟩ :=
      ih (scan_of_literal .greater rfl greater scanned nofun)
    rw [List.length_cons] at shorter
    exact ⟨_, scan_of_literal .less rfl less scanned nofun,
      by rw [List.length_cons]; omega, commas.unbound⟩
  | typeOf keyword opening _ closing ih =>
    intro rest scanned
    obtain ⟨ts, scanned, shorter, inside⟩ :=
      ih (scan_of_literal .closing rfl closing scanned nofun)
    rw [List.length_cons] at shorter
    have scanned :=
      scan_typeof keyword (scan_of_literal .opening rfl opening scanned nofun)
    exact ⟨_, scanned, by simp only [List.length_cons]; omega, inside.typeOf⟩
  | @regular raw _ _ taken =>
    intro rest scanned
    exact ⟨_, scan_of_takes (.regular raw) taken scanned nofun, Nat.le_succ _, .regular⟩
  | @verbatim raw _ _ taken =>
    intro rest scanned
    exact ⟨_, scan_of_takes (.verbatim raw) taken scanned nofun, Nat.le_succ _, .verbatim⟩
  | constant _ ih =>
    intro rest scanned
    obtain ⟨ts, scanned, shorter, name⟩ := ih scanned
    exact ⟨ts, scanned, shorter, name.constant⟩
  | positional _ ih =>
    intro rest scanned
    obtain ⟨ts, scanned, shorter, value⟩ := ih scanned
    exact ⟨ts, scanned, shorter, value.positional⟩
  | named name colon _ ih =>
    intro rest scanned
    obtain ⟨ts, scanned, shorter, value⟩ := ih scanned
    -- a double colon would be the longer word, but no value begins with a colon
    have single := no_colon_of_scan scanned fun t first =>
      ⟨fun same => value.1 t first (by rw [same]; decide),
        fun same => value.1 t first (by rw [same]; decide)⟩
    have scanned :=
      scan_of_ident name (scan_of_literal .colon rfl colon scanned fun _ => single)
    exact ⟨_, scanned, by simp only [List.length_cons]; omega, value.named⟩
  | lastArgument _ ih =>
    intro rest scanned
    obtain ⟨ts, scanned, shorter, only⟩ := ih scanned
    exact ⟨ts, scanned, shorter, only.lastArgument shorter⟩
  | moreArguments _ comma _ first ih =>
    intro rest scanned
    obtain ⟨ts, scanned, shorter, more⟩ := ih scanned
    obtain ⟨all, scanned, longer, first⟩ :=
      first (scan_of_literal .comma rfl comma scanned nofun)
    rw [List.length_cons] at longer
    exact ⟨all, scanned, by omega, first.moreArguments longer more⟩
  | noList =>
    intro rest scanned
    exact ⟨rest, scanned, Nat.le_refl _, .noList⟩
  | emptyList opening closing =>
    intro rest scanned
    have scanned := scan_of_literal .closing rfl closing scanned nofun
    exact ⟨_, scan_of_literal .opening rfl opening scanned nofun,
      by simp only [List.length_cons]; omega, .emptyList⟩
  | list opening _ closing ih =>
    intro rest scanned
    obtain ⟨ts, scanned, shorter, arguments⟩ :=
      ih (scan_of_literal .closing rfl closing scanned nofun)
    rw [List.length_cons] at shorter
    exact ⟨_, scan_of_literal .opening rfl opening scanned nofun,
      by rw [List.length_cons]; omega, arguments.list⟩
  | whole _ _ _ front types ih =>
    intro rest scanned
    obtain ⟨ts, scanned, shorter, arguments⟩ := ih scanned
    obtain ⟨more, scanned, longer, types⟩ := types scanned
    obtain ⟨all, scanned, longest, front⟩ := front scanned
    exact ⟨all, scanned, by omega, front.whole types arguments⟩

theorem parse_of_written {text : String} {attr : Attribute} (h : attr.IsWritten text) :
    Attribute.parse? text = some attr := by
  obtain ⟨rest, derived, blank⟩ := h
  obtain ⟨ts, scanned, _, read⟩ := read_of_derives derived (Token.scan_nil_iff.mpr blank)
  rw [Attribute.parse?, scanned]
  exact read rfl

/-- The reader accepts exactly the texts of the grammar, each with the one attribute that it stands
for. -/
theorem parse_iff_written :
    (∀ (text : String) (attr : Attribute),
      Attribute.parse? text = some attr ↔ attr.IsWritten text) ∧
    ∀ (text : String) (attr other : Attribute), attr.IsWritten text → other.IsWritten text →
      attr = other := by
  refine ⟨fun text attr => ⟨written_of_parse, parse_of_written⟩, fun text attr other h h' => ?_⟩
  have same : some attr = some other := (parse_of_written h).symm.trans (parse_of_written h')
  exact Option.some.inj same

end HiddenNames.Marker
