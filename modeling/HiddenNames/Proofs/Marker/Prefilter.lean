import HiddenNames.Proofs.Marker.Application
import HiddenNames.Proofs.Text.Pieces

/-!
Telling markers from other attributes before they are read. Only the front of the name is looked at,
which ends where a blank stands around a dot, and the last part of the front decides. The grammar
lets blanks stand there, so what is told is right for all attributes without such blanks, and for
the others only by accident.
-/

namespace HiddenNames.Marker

/-- Whether blanks stand in front of a dot of a name, and whether some stand behind it. -/
structure Gap where
  before : Bool := false
  behind : Bool := false
  deriving DecidableEq, Repr

def startsBlank (s : List Char) : Bool := s.head?.any Token.isSpace

inductive Spaced : List String → List Gap → List Char → List Char → Prop
  | last {w s t : List Char} : Takes .ident w s t → Spaced [named w] [] s t
  | part {w w' s t u v : List Char} {parts : List String} {gaps : List Gap} : Takes .ident w s t →
      Takes (.literal ".") w' t u → Spaced parts gaps u v →
      Spaced (named w :: parts) (⟨startsBlank t, startsBlank u⟩ :: gaps) s v

/-- The text derives the attribute, with gaps at the dots of the attribute's name. -/
def Attribute.IsSpaced (attr : Attribute) (gaps : List Gap) (text : String) : Prop :=
  ∃ s t u rest, Derives (.alias? attr.name.alias?) text.toList s ∧ Spaced attr.name.parts gaps s t ∧
    Derives (.typeArguments attr.typeArguments) t u ∧
    Derives (.argumentList attr.arguments) u rest ∧
      ∀ c ∈ rest, Token.isSpace c = true

/-- The part that stands at the end of the unbroken front of a name, unless a dot stands there. -/
def frontEnd : List String → List Gap → Option String
  | part :: _, [] => some part
  | part :: rest, gap :: gaps =>
    if gap.before then some part else if gap.behind then none else frontEnd rest gaps
  | [], _ => none

variable {attr : Attribute} {text : String} {parts : List String} {gaps : List Gap}
  {w w' b r s t u v : List Char}

theorem derives_parts_iff : Derives (.parts parts) s t ↔ ∃ gaps, Spaced parts gaps s t := by
  constructor
  · intro h
    generalize phrase : Phrase.parts parts = p at h
    induction h generalizing parts with
    | lastPart name =>
      cases phrase
      exact ⟨[], .last name⟩
    | part name dot _ ih =>
      cases phrase
      obtain ⟨gaps, spaced⟩ := ih rfl
      exact ⟨_, .part name dot spaced⟩
    | _ => cases phrase
  · rintro ⟨gaps, spaced⟩
    induction spaced with
    | last name => exact .lastPart name
    | part name dot _ ih => exact .part name dot ih

/-- Every text of the grammar has some gaps at its dots. -/
theorem isWritten_iff_spaced : attr.IsWritten text ↔ ∃ gaps, attr.IsSpaced gaps text := by
  constructor
  · rintro ⟨rest, derived, blank⟩
    cases derived with
    | whole name types arguments =>
      cases name with
      | dotted front names =>
        obtain ⟨gaps, spaced⟩ := derives_parts_iff.mp names
        exact ⟨gaps, _, _, _, rest, front, spaced, types, arguments, blank⟩
  · rintro ⟨gaps, s, t, u, rest, front, spaced, types, arguments, blank⟩
    have names := derives_parts_iff.mpr ⟨gaps, spaced⟩
    exact ⟨rest, .whole (.dotted front names) types arguments, blank⟩

theorem frontEnd_of_closed (h : Spaced parts gaps s t) (closed : ∀ gap ∈ gaps, gap = {}) :
    frontEnd parts gaps = parts.getLast? := by
  induction h with
  | last name => rfl
  | part name dot spaced ih =>
    rw [List.forall_mem_cons] at closed
    rw [frontEnd, closed.1, ih closed.2]
    cases spaced <;> rfl

/-! Characters. -/

theorem toNat_lt_of_isNamePart {c : Char} (h : Token.isNamePart c = true) : c.toNat < 128 := by
  have below : ∀ d : Char, d.val.toNat < 128 → c.val ≤ d.val → c.toNat < 128 :=
    fun d bound le => lt_of_le_of_lt (UInt32.le_iff_toNat_le.mp le) bound
  simp only [Token.isNamePart, Bool.or_eq_true, decide_eq_true_eq] at h
  rcases h with part | rfl
  · rcases Bool.or_eq_true_iff.mp part with letter | digit
    · rcases Bool.or_eq_true_iff.mp letter with upper | lower
      · exact below 'Z' (by decide) (of_decide_eq_true upper).2
      · exact below 'z' (by decide) (of_decide_eq_true (Bool.and_eq_true_iff.mp lower).2)
    · exact lt_of_le_of_lt (Char.isDigit_iff_toNat.mp digit).2 (by decide)
  · decide

/-- What may stand in a name of the grammar is a word character, and no blank. -/
theorem word_of_isNamePart {c : Char} (h : Token.isNamePart c = true) :
    Unicode.isWord c = true ∧ Unicode.isBlank c = false := by
  have each : (List.range 128).all (fun n => !Token.isNamePart (Char.ofNat n) ||
      (Unicode.isWord (Char.ofNat n) && !Unicode.isBlank (Char.ofNat n))) = true := by
    decide +kernel
  have own := List.all_eq_true.mp each c.toNat (List.mem_range.mpr (toNat_lt_of_isNamePart h))
  rw [Char.ofNat_toNat, h, Bool.not_true, Bool.false_or, Bool.and_eq_true, Bool.not_eq_true'] at own
  exact own

/-- The blanks of the grammar are blanks, and nothing that a name may hold. -/
theorem space_kinds {c : Char} (h : Token.isSpace c = true) : Unicode.isBlank c = true ∧
    Unicode.isWord c = false ∧ isNameChar c = false := by
  have each : [' ', '\t', '\x0c', '\r', '\n'].all (fun c => Unicode.isBlank c = true ∧
      Unicode.isWord c = false ∧ isNameChar c = false) = true := by decide
  exact of_decide_eq_true (List.all_eq_true.mp each c (of_decide_eq_true h))

theorem isNamePart_of_space {c : Char} (h : Token.isSpace c = true) :
    Token.isNamePart c = false := by
  by_contra part
  have word := (word_of_isNamePart (Bool.not_eq_false _ ▸ part)).1
  exact Bool.false_ne_true ((space_kinds h).2.1.symm.trans word)

theorem word_parts (h : Terminal.ident.Spells w) : ∃ mark c name, (mark = [] ∨ mark = ['@']) ∧
    w = mark ++ c :: name ∧ c ≠ '@' ∧ ∀ d ∈ c :: name, Token.isNamePart d = true := by
  obtain ⟨mark, c, name, marked, rfl, start, parts⟩ := h
  refine ⟨mark, c, name, marked, rfl, ?_,
    List.forall_mem_cons.mpr ⟨Token.start_is_part start, parts⟩⟩
  rintro rfl
  cases start

theorem isNameChar_of_word (h : Terminal.ident.Spells w) :
    ∀ c ∈ w, isNameChar c = true ∧ c ≠ '.' ∧ Unicode.isBlank c = false := by
  obtain ⟨mark, c, name, marked, rfl, -, parts⟩ := word_parts h
  have inside : ∀ d ∈ c :: name, isNameChar d = true ∧ d ≠ '.' ∧ Unicode.isBlank d = false := by
    intro d among
    obtain ⟨word, solid⟩ := word_of_isNamePart (parts d among)
    refine ⟨by rw [isNameChar, word]; rfl, ?_, solid⟩
    rintro rfl
    cases parts '.' among
  rcases marked with rfl | rfl
  · exact inside
  · exact List.forall_mem_cons.mpr ⟨by decide, inside⟩

/-! What comes behind a name. -/

def EndsWith (signs r : List Char) : Prop :=
  ∃ blanks next, (∀ c ∈ blanks, Token.isSpace c = true) ∧ r = blanks ++ next ∧
    ∀ c ∈ next.head?, c ∈ signs

theorem endsWith_of_takes {sign : String} {c : Char} (h : Takes (.literal sign) w s t)
    (starts : sign.toList.head? = some c) {signs : List Char} (listed : c ∈ signs) :
    EndsWith signs s := by
  obtain ⟨blanks, body, blank, rfl, own⟩ := h
  obtain rfl := own.front
  obtain rfl : w = sign.toList := own.spelled
  refine ⟨blanks, _, blank, rfl, fun d first => ?_⟩
  rw [Option.mem_def, List.head?_append, starts, Option.some_or, Option.some_inj] at first
  exact first ▸ listed

/-- The name of an attribute ends in front of a bracket, of a parenthesis or at the end. -/
theorem endsWith_of_brackets {types : List (Option TypeRef)} {arguments : List Argument}
    (front : Derives (.typeArguments types) t u) (back : Derives (.argumentList arguments) u r)
    (blank : ∀ c ∈ r, Token.isSpace c = true) : EndsWith ['<', '('] t := by
  cases front with
  | bound opening | unbound opening => exact endsWith_of_takes opening rfl (by decide)
  | noTypeArguments =>
    cases back with
    | noList => exact ⟨_, [], blank, (List.append_nil _).symm, nofun⟩
    | emptyList opening | list opening => exact endsWith_of_takes opening rfl (by decide)

theorem EndsWith.mono {signs signs' : List Char} (h : EndsWith signs r) (more : signs ⊆ signs') :
    EndsWith signs' r := by
  obtain ⟨blanks, next, blank, rfl, starts⟩ := h
  exact ⟨blanks, next, blank, rfl, fun c first => more (starts c first)⟩

/-- No character goes on behind a name that no blank and none of the signs is. -/
theorem EndsWith.stops {signs : List Char} (h : EndsWith signs r) {p : Char → Bool}
    (spaces : ∀ c, Token.isSpace c = true → p c = false) (others : signs.any p = false) :
    ∀ c ∈ r.head?, p c = false := by
  obtain ⟨blanks, next, blank, rfl, starts⟩ := h
  intro c first
  cases blanks with
  | nil => exact Bool.eq_false_iff.mpr (List.any_eq_false.mp others c (starts c first))
  | cons d more =>
    obtain rfl := Option.some.inj first
    exact spaces d (blank d List.mem_cons_self)

theorem dropWhile_blanks (blank : ∀ c ∈ b, Token.isSpace c = true)
    (starts : ∀ c ∈ r.head?, Unicode.isBlank c = false) : (b ++ r).dropWhile Unicode.isBlank = r :=
  (Token.span_parts (fun c held => (space_kinds (blank c held)).1) starts).2

/-! The front of a name. -/

theorem afterAlias_mark {c : Char} {cs : List Char} (other : c ≠ '@') :
    afterAlias ('@' :: c :: cs) = afterAlias (c :: cs) := by
  rw [afterAlias, afterAlias]
  exact fun _ same => other (List.cons.inj same).1

/-- A word in front of two colons is an alias, blanks aside, and no other word is. -/
theorem afterAlias_of_word (spelled : Terminal.ident.Spells w)
    (ends : ∀ c ∈ r.head?, Unicode.isWord c = false) :
    (∀ rest, r.dropWhile Unicode.isBlank = ':' :: ':' :: rest →
      afterAlias (w ++ r) = some (rest.dropWhile Unicode.isBlank)) ∧
    ((∀ c ∈ (r.dropWhile Unicode.isBlank).head?, c ≠ ':') → afterAlias (w ++ r) = none) := by
  obtain ⟨mark, c, name, marked, rfl, other, parts⟩ := word_parts spelled
  obtain ⟨taken, left⟩ :=
    Token.span_parts (fun d held => (word_of_isNamePart (parts d held)).1) ends
  have unmarked : afterAlias (mark ++ c :: name ++ r) = afterAlias (c :: (name ++ r)) := by
    rcases marked with rfl | rfl
    · rfl
    · exact afterAlias_mark other
  rw [List.cons_append] at taken left
  rw [unmarked, afterAlias]
  · simp only [taken, left, List.isEmpty_cons, Bool.false_eq_true, if_false]
    refine ⟨fun rest colons => by simp only [colons], fun plain => ?_⟩
    split
    · rename_i colons
      exact absurd rfl (plain ':' (by rw [colons]; rfl))
    · rfl
  · exact fun _ same => other (List.cons.inj same).1

theorem solid_of_word (spelled : Terminal.ident.Spells w) (r : List Char) :
    ∀ c ∈ (w ++ r).head?, Unicode.isBlank c = false := by
  obtain ⟨filled, -⟩ := ident_tail spelled
  intro c first
  rw [List.head?_append_of_ne_nil _ filled] at first
  exact (isNameChar_of_word spelled c (List.mem_of_mem_head? first)).2.2

theorem leadingName_of_word (blank : ∀ c ∈ b, Token.isSpace c = true)
    (spelled : Terminal.ident.Spells w) (ends : EndsWith ['.', '<', '('] r) :
    leadingName (b ++ (w ++ r)) = (w ++ r).takeWhile isNameChar := by
  have bare : afterAlias (w ++ r) = none := by
    refine (afterAlias_of_word spelled
      (ends.stops (fun c space => (space_kinds space).2.1) rfl)).2 ?_
    obtain ⟨blanks, next, spaces, rfl, starts⟩ := ends
    have signs : ['.', '<', '('].all (fun c => !Unicode.isBlank c && c != ':') = true := rfl
    have other : ∀ c ∈ next.head?, Unicode.isBlank c = false ∧ c ≠ ':' := fun c first => by
      simpa only [Bool.and_eq_true, Bool.not_eq_true', bne_iff_ne] using
        List.all_eq_true.mp signs c (starts c first)
    rw [dropWhile_blanks spaces fun c first => (other c first).1]
    exact fun c first => (other c first).2
  rw [leadingName, dropWhile_blanks blank (solid_of_word spelled r), bare]
  rfl

/-- Behind an alias the front begins with the first word behind the colons. -/
theorem leadingName_of_alias (blank : ∀ c ∈ b, Token.isSpace c = true)
    (spelled : Terminal.ident.Spells w) (colons : Takes (.literal "::") w' r (s ++ (u ++ v)))
    (blank' : ∀ c ∈ s, Token.isSpace c = true) (spelled' : Terminal.ident.Spells u) :
    leadingName (b ++ (w ++ r)) = (u ++ v).takeWhile isNameChar := by
  have behind : afterAlias (w ++ r) = some (u ++ v) := by
    have ends := endsWith_of_takes colons rfl (List.mem_singleton_self ':')
    have read :=
      (afterAlias_of_word spelled (ends.stops (fun c space => (space_kinds space).2.1) rfl)).1
    obtain ⟨blanks, body, spaces, rfl, own⟩ := colons
    obtain rfl := own.front
    obtain rfl : w' = [':', ':'] := own.spelled
    rw [read (s ++ (u ++ v)) (dropWhile_blanks spaces (by rintro c ⟨⟩; decide)),
      dropWhile_blanks blank' (solid_of_word spelled' v)]
  have filled : ((u ++ v).takeWhile isNameChar).isEmpty = false := by
    have inside : ∀ c ∈ u, isNameChar c = true :=
      fun c held => (isNameChar_of_word spelled' c held).1
    rw [List.takeWhile_append_of_pos inside, List.isEmpty_eq_false_iff]
    exact List.append_ne_nil_of_left_ne_nil (ident_tail spelled').1 _
  rw [leadingName, dropWhile_blanks blank (solid_of_word spelled r), behind]
  simp only [Option.getD_some, filled, Bool.false_eq_true, if_false]

/-! Its end. -/

def lastName (front : List Char) : String :=
  String.ofList (((Text.splitAt '.' front).getLast?.getD []).dropWhile (· = '@'))

theorem isMarkerName_iff : isMarkerName text = true ↔
    lastName (leadingName text.toList) ∈ markerNames := by
  rw [isMarkerName, lastName]
  cases last : (Text.splitAt '.' (leadingName text.toList)).getLast? with
  | none => exact absurd (List.getLast?_eq_none_iff.mp last) (Text.splitAt_ne_nil _ _)
  | some part => exact decide_eq_true_iff

theorem lastName_word (spelled : Terminal.ident.Spells w) : lastName w = named w := by
  have whole : '.' ∉ w := fun held => (isNameChar_of_word spelled '.' held).2.1 rfl
  rw [lastName, Text.splitAt_of_not_mem whole, named, nameOf, String.toList_ofList]
  rfl

theorem lastName_behind_dot (front cs : List Char) :
    lastName (front ++ '.' :: cs) = lastName cs := by
  rw [lastName, Text.splitAt_append, List.getLast?_append_of_ne_nil _ (Text.splitAt_ne_nil _ _),
    lastName]

theorem takeWhile_word (spelled : Terminal.ident.Spells w)
    (ends : ∀ c ∈ r.head?, isNameChar c = false) : (w ++ r).takeWhile isNameChar = w :=
  (Token.span_parts (fun c held => (isNameChar_of_word spelled c held).1) ends).1

theorem takeWhile_blank (h : startsBlank s = true) : s.takeWhile isNameChar = [] := by
  cases s with
  | nil => rfl
  | cons c more => exact List.takeWhile_cons_of_neg (Bool.eq_false_iff.mp (space_kinds h).2.2)

theorem nil_of_solid (blank : ∀ c ∈ b, Token.isSpace c = true) (h : startsBlank (b ++ r) = false) :
    b = [] := by
  cases b with
  | nil => rfl
  | cons c more => exact absurd (blank c List.mem_cons_self) (Bool.eq_false_iff.mp h)

/-- One step along a dotted name: blanks in front of the dot end the front with the word, blanks
behind it end it with the dot. -/
theorem lastName_step (spelled : Terminal.ident.Spells w) (dot : Takes (.literal ".") w' t u) :
    lastName ((w ++ t).takeWhile isNameChar) =
      if startsBlank t then named w else
        if startsBlank u then "" else lastName (u.takeWhile isNameChar) := by
  cases before : startsBlank t with
  | true =>
    have stop : ∀ c ∈ t.head?, isNameChar c = false := by
      intro c first
      rw [startsBlank, Option.mem_def.mp first] at before
      exact (space_kinds before).2.2
    rw [takeWhile_word spelled stop, lastName_word spelled, if_pos rfl]
  | false =>
    obtain ⟨blanks, body, spaces, rfl, own⟩ := dot
    obtain rfl := own.front
    obtain rfl : w' = ['.'] := own.spelled
    obtain rfl := nil_of_solid spaces before
    have front :
        (w ++ ([] ++ (['.'] ++ u))).takeWhile isNameChar = w ++ '.' :: u.takeWhile isNameChar := by
      rw [List.takeWhile_append_of_pos fun c held => (isNameChar_of_word spelled c held).1]
      rfl
    rw [front, lastName_behind_dot, if_neg Bool.false_ne_true]
    split
    · rename_i behind
      rw [takeWhile_blank behind]
      rfl
    · rfl

theorem Spaced.front (h : Spaced parts gaps s t) (ends : EndsWith ['<', '('] t) :
    ∃ b w r, (∀ c ∈ b, Token.isSpace c = true) ∧ s = b ++ (w ++ r) ∧ Terminal.ident.Spells w ∧
      EndsWith ['.', '<', '('] r ∧
        lastName ((w ++ r).takeWhile isNameChar) = (frontEnd parts gaps).getD "" := by
  induction h with
  | @last w s t name =>
    obtain ⟨b, body, blank, rfl, own⟩ := name
    obtain ⟨rfl, spelled, -⟩ := longest_ident_iff.mp own
    have stop := ends.stops (fun c space => (space_kinds space).2.2) rfl
    refine ⟨b, w, t, blank, rfl, spelled, ends.mono (List.subset_cons_self _ _), ?_⟩
    rw [takeWhile_word spelled stop, lastName_word spelled]
    rfl
  | @part w w' s t u v parts gaps name dot spaced ih =>
    obtain ⟨b, body, blank, rfl, own⟩ := name
    obtain ⟨rfl, spelled, -⟩ := longest_ident_iff.mp own
    refine ⟨b, w, t, blank, rfl, spelled, endsWith_of_takes dot rfl List.mem_cons_self, ?_⟩
    obtain ⟨behind, inner, more, spaces, rfl, -, -, found⟩ := ih ends
    rw [lastName_step spelled dot, frontEnd]
    split
    · rfl
    · split
      · rfl
      · rename_i solid
        obtain rfl := nil_of_solid spaces (Bool.not_eq_true _ ▸ solid)
        exact found

/-- What is told at the front of an attribute is the part in front of the first gap of its name. -/
theorem lastName_of_spaced (h : attr.IsSpaced gaps text) :
    lastName (leadingName text.toList) = (frontEnd attr.name.parts gaps).getD "" := by
  obtain ⟨s, t, u, rest, front, spaced, types, arguments, blank⟩ := h
  obtain ⟨b, w, r, spaces, rfl, spelled, ends, found⟩ :=
    spaced.front (endsWith_of_brackets types arguments blank)
  generalize attr.name.alias? = alias?, text.toList = whole at front
  cases front with
  | noAlias => rw [leadingName_of_word spaces spelled ends, found]
  | inFront name colons =>
    obtain ⟨before, body, spaces', rfl, own⟩ := name
    obtain ⟨rfl, spelled', -⟩ := longest_ident_iff.mp own
    rw [leadingName_of_alias spaces' spelled' colons spaces spelled, found]

/-- The prefilter tells an attribute for a marker by the part of its name in front of the first gap
at a dot, which is the last part where there are no such gaps; the attributes that it lets through
are read, the others are not. -/
theorem prefilter_reads_front (attr : Attribute) (text : String) :
    (attr.IsWritten text ↔ ∃ gaps, attr.IsSpaced gaps text) ∧
      ∀ gaps, attr.IsSpaced gaps text →
        (isMarkerName text = true ↔ ∃ part ∈ frontEnd attr.name.parts gaps, part ∈ markerNames) ∧
        ((∀ gap ∈ gaps, gap = {}) →
          (isMarkerName text = true ↔ ∃ part ∈ attr.name.parts.getLast?, part ∈ markerNames)) ∧
        ∀ declared?, read text declared? =
          if isMarkerName text then (attr.marker declared?).map some else .ok none := by
  refine ⟨isWritten_iff_spaced, fun gaps spaced => ?_⟩
  have told : isMarkerName text = true ↔
      ∃ part ∈ frontEnd attr.name.parts gaps, part ∈ markerNames := by
    rw [isMarkerName_iff, lastName_of_spaced spaced]
    cases frontEnd attr.name.parts gaps with
    | none => simp [markerNames]
    | some part => simp
  refine ⟨told, fun closed => ?_, fun declared? => ?_⟩
  · obtain ⟨_, _, _, _, -, names, -⟩ := spaced
    rw [told, frontEnd_of_closed names closed]
  · split
    · rename_i front
      exact read_of_written front (isWritten_iff_spaced.mpr ⟨gaps, spaced⟩) declared?
    · rename_i other
      rw [read, Bool.eq_false_iff.mpr other]
      rfl

/-! Two parts. -/

theorem startsBlank_append (blank : ∀ c ∈ b, Token.isSpace c = true)
    (solid : startsBlank r = false) : startsBlank (b ++ r) = !b.isEmpty := by
  cases b with
  | nil => exact solid
  | cons c more => exact blank c List.mem_cons_self

theorem startsBlank_word (spelled : Terminal.ident.Spells w) (r : List Char) :
    startsBlank (w ++ r) = false := by
  cases first : startsBlank (w ++ r) with
  | false => rfl
  | true =>
    rw [startsBlank, Option.any_eq_true] at first
    obtain ⟨c, here, space⟩ := first
    have solid := solid_of_word spelled r c here
    rw [(space_kinds space).1] at solid
    cases solid

theorem isSpaced_pair {first last : String} {arguments : List Argument} (b b' : List Char)
    (own : Terminal.ident.Spells first.toList) (own' : Terminal.ident.Spells last.toList)
    (blank : ∀ c ∈ b ++ b', Token.isSpace c = true) (list : Derives (.argumentList arguments) r [])
    (ends : ∀ d ∈ r.head?, Token.isNamePart d = false)
    (whole : text.toList = first.toList ++ (b ++ ('.' :: (b' ++ (last.toList ++ r))))) :
    Attribute.IsSpaced ⟨⟨none, [nameOf first, nameOf last]⟩, [], arguments⟩
      [⟨!b.isEmpty, !b'.isEmpty⟩] text := by
  obtain ⟨before, behind⟩ := List.forall_mem_append.mp blank
  have dot : Takes (.literal ".") ".".toList (b ++ ('.' :: (b' ++ (last.toList ++ r))))
      (b' ++ (last.toList ++ r)) := (takes_literal "." _).behind before
  have stop := (endsWith_of_takes dot rfl (List.mem_singleton_self '.')).stops
    (fun c => isNamePart_of_space) rfl
  have names := Spaced.part (takes_name own stop) dot (.last ((takes_name own' ends).behind behind))
  rw [named_toList, named_toList, startsBlank_append before rfl,
    startsBlank_append behind (startsBlank_word own' r)] at names
  exact ⟨_, _, _, [], whole ▸ .noAlias, names, .noTypeArguments, list, nofun⟩

theorem derives_typeOf (spelled : Terminal.ident.Spells text.toList) :
    Derives (.argumentList [⟨none, .typeOf (.mk none [.mk (nameOf text) []])⟩])
      ("(".toList ++ (("typeof(" ++ text ++ ")").toList ++ (")".toList ++ []))) [] := by
  have taken : Takes .ident text.toList (text.toList ++ []) [] := takes_name spelled nofun
  rw [List.append_nil] at taken
  have segment := Derives.lastSegment taken .noTypeArguments
  rw [named_toList] at segment
  have operand := written_positional (written_typeOf ⟨[], .ref .noAlias segment, nofun⟩)
  have list := derives_argumentList (.cons operand .nil)
  rwa [String.intercalate_singleton] at list

def appliedToType (first last : String) : Attribute :=
  ⟨⟨none, [first, last]⟩, [], [⟨none, .typeOf (.mk none [.mk "A" []])⟩]⟩

theorem isSpaced_appliedToType (first last text : String) (b b' : List Char)
    (own : Terminal.ident.Spells first.toList ∧ nameOf first = first)
    (own' : Terminal.ident.Spells last.toList ∧ nameOf last = last)
    (blank : ∀ c ∈ b ++ b', Token.isSpace c = true)
    (whole : text.toList = first.toList ++
      (b ++ ('.' :: (b' ++ (last.toList ++ "(typeof(A))".toList))))) :
    (appliedToType first last).IsSpaced [⟨!b.isEmpty, !b'.isEmpty⟩] text := by
  have word : Terminal.ident.Spells "A".toList ∧ nameOf "A" = "A" :=
    ⟨spells_name (c := 'A') (by decide) (by decide), by decide⟩
  have brackets : "(".toList ++ (("typeof(" ++ "A" ++ ")").toList ++ (")".toList ++ [])) =
      "(typeof(A))".toList := by decide
  have list := derives_typeOf word.1
  rw [word.2, brackets] at list
  have spaced := isSpaced_pair b b' own.1 own'.1 blank list (ends_before rfl _) whole
  rw [own.2, own'.2] at spaced
  exact spaced

theorem spells_space : Terminal.ident.Spells "Nameof".toList ∧ nameOf "Nameof" = "Nameof" :=
  ⟨spells_name (c := 'N') (by decide) (by decide), by decide⟩

theorem spells_short :
    Terminal.ident.Spells "GenerateNameof".toList ∧ nameOf "GenerateNameof" = "GenerateNameof" :=
  spells_markerName List.mem_cons_self

theorem spells_other : Terminal.ident.Spells "Foo".toList ∧ nameOf "Foo" = "Foo" :=
  ⟨spells_name (c := 'F') (by decide) (by decide), by decide⟩

/-- Blanks around a dot hide a marker, and they make one of another attribute. -/
theorem gaps_mislead_prefilter :
    (appliedToType "Nameof" "GenerateNameof").IsWritten "Nameof . GenerateNameof(typeof(A))" ∧
      read "Nameof . GenerateNameof(typeof(A))" none = .ok none ∧
      (appliedToType "GenerateNameof" "Foo").IsWritten "GenerateNameof . Foo(typeof(A))" ∧
      read "GenerateNameof . Foo(typeof(A))" none =
        .ok (some ⟨some (Request.direct (.mk none [.mk "A" []])), none⟩) := by
  have hidden :=
    isSpaced_appliedToType "Nameof" "GenerateNameof" "Nameof . GenerateNameof(typeof(A))"
    [' '] [' '] spells_space spells_short (List.all_eq_true.mp rfl) (by decide)
  have made := isSpaced_appliedToType "GenerateNameof" "Foo" "GenerateNameof . Foo(typeof(A))"
    [' '] [' '] spells_short spells_other (List.all_eq_true.mp rfl) (by decide)
  have written := isWritten_iff_spaced.mpr ⟨_, made⟩
  refine ⟨isWritten_iff_spaced.mpr ⟨_, hidden⟩, rfl, written, ?_⟩
  rw [read_of_written (by decide) written]
  rfl

/-- A marker is told by its last part without gaps, and is missed with a blank behind the dot. -/
theorem prefilter_at_dot :
    (appliedToType "Nameof" "GenerateNameof").IsSpaced [{}] "Nameof.GenerateNameof(typeof(A))" ∧
      read "Nameof.GenerateNameof(typeof(A))" none =
        .ok (some ⟨some (Request.direct (.mk none [.mk "A" []])), none⟩) ∧
      (appliedToType "Nameof" "GenerateNameof").IsSpaced [⟨false, true⟩]
        "Nameof. GenerateNameof(typeof(A))" ∧
      read "Nameof. GenerateNameof(typeof(A))" none = .ok none := by
  have plain := isSpaced_appliedToType "Nameof" "GenerateNameof" "Nameof.GenerateNameof(typeof(A))"
    [] [] spells_space spells_short nofun (by decide)
  have gap := isSpaced_appliedToType "Nameof" "GenerateNameof" "Nameof. GenerateNameof(typeof(A))"
    [] [' '] spells_space spells_short (List.all_eq_true.mp rfl) (by decide)
  obtain ⟨-, closed, answer⟩ := (prefilter_reads_front _ _).2 _ plain
  obtain ⟨told, -, answer'⟩ := (prefilter_reads_front _ _).2 _ gap
  refine ⟨plain, ?_, gap, ?_⟩
  · have front : isMarkerName "Nameof.GenerateNameof(typeof(A))" = true :=
      (closed (by decide)).mpr ⟨_, rfl, List.mem_cons_self⟩
    rw [answer, if_pos front]
    rfl
  · have hidden : ¬isMarkerName "Nameof. GenerateNameof(typeof(A))" = true := fun front => by
      obtain ⟨part, here, -⟩ := told.mp front
      cases here
    rw [answer', if_neg hidden]

end HiddenNames.Marker
