import HiddenNames.Proofs.Marker.Grammar
import HiddenNames.Proofs.Marker.Plain
import Mathlib.Data.List.TakeWhile

/-!
Scanning takes what the terminals of the grammar take. Every token is the longest word of its
terminal, and where a terminal takes a word and what is left can be scanned, the token is scanned.
Only a colon in front of another is taken for a part of a longer sign.
-/

namespace HiddenNames.Marker

/-! Strings. -/

theorem regularBody_sound {cs raw after : List Char}
    (h : Token.regularBody cs = some (raw, after)) : Escaped raw ∧ cs = raw ++ '"' :: after := by
  fun_induction Token.regularBody cs generalizing raw with
  | case1 => cases h
  | case2 rest =>
    obtain ⟨rfl, rfl⟩ := Prod.mk.inj (Option.some.inj h)
    exact ⟨.nil, rfl⟩
  | case3 => cases h
  | case4 => cases h
  | case5 c rest inLine ih =>
    obtain ⟨⟨raw', after'⟩, found, same⟩ := Option.map_eq_some_iff.mp h
    obtain ⟨rfl, rfl⟩ := Prod.mk.inj same
    obtain ⟨escaped, rfl⟩ := ih found
    exact ⟨.pair inLine escaped, rfl⟩
  | case6 c rest quote last pair ih =>
    obtain ⟨⟨raw', after'⟩, found, same⟩ := Option.map_eq_some_iff.mp h
    obtain ⟨rfl, rfl⟩ := Prod.mk.inj same
    obtain ⟨escaped, shape⟩ := ih found
    have plain : c ≠ '\\' := by
      rintro rfl
      cases rest with
      | nil => exact last rfl rfl
      | cons d more => exact pair d more rfl rfl
    exact ⟨.plain quote plain escaped, congrArg (c :: ·) shape⟩

theorem regularBody_complete {raw : List Char} (h : Escaped raw) (after : List Char) :
    Token.regularBody (raw ++ '"' :: after) = some (raw, after) := by
  induction h with
  | nil => rfl
  | @plain c cs quote slash _ ih =>
    rw [List.cons_append, Token.regularBody, ih]
    · rfl
    · exact quote
    · exact fun same => absurd same slash
    · exact fun _ _ same => absurd same slash
  | pair inLine _ ih =>
    rw [List.cons_append, List.cons_append, Token.regularBody, if_neg inLine, ih]
    rfl

theorem verbatimBody_sound {cs raw after : List Char}
    (h : Token.verbatimBody cs = some (raw, after)) :
    Doubled raw ∧ cs = raw ++ '"' :: after ∧ after.head? ≠ some '"' := by
  fun_induction Token.verbatimBody cs generalizing raw with
  | case1 => cases h
  | case2 rest ih =>
    obtain ⟨⟨raw', after'⟩, found, same⟩ := Option.map_eq_some_iff.mp h
    obtain ⟨rfl, rfl⟩ := Prod.mk.inj same
    obtain ⟨doubled, rfl, alone⟩ := ih found
    exact ⟨.pair doubled, rfl, alone⟩
  | case3 rest alone =>
    obtain ⟨rfl, rfl⟩ := Prod.mk.inj (Option.some.inj h)
    refine ⟨.nil, rfl, fun quote => ?_⟩
    obtain ⟨more, shape⟩ := List.head?_eq_some_iff.mp quote
    exact alone more shape
  | case4 c rest _ quote ih =>
    obtain ⟨⟨raw', after'⟩, found, same⟩ := Option.map_eq_some_iff.mp h
    obtain ⟨rfl, rfl⟩ := Prod.mk.inj same
    obtain ⟨doubled, shape, alone⟩ := ih found
    exact ⟨.plain quote doubled, congrArg (c :: ·) shape, alone⟩

theorem verbatimBody_complete {raw : List Char} (h : Doubled raw) {after : List Char}
    (alone : after.head? ≠ some '"') :
    Token.verbatimBody (raw ++ '"' :: after) = some (raw, after) := by
  induction h with
  | nil =>
    cases after with
    | nil => rfl
    | cons c rest =>
      rw [List.nil_append, Token.verbatimBody]
      intro more same
      exact alone (congrArg List.head? same)
  | @plain c cs quote _ ih =>
    rw [List.cons_append, Token.verbatimBody, ih]
    · rfl
    · exact fun _ same => absurd same quote
    · exact quote
  | pair _ ih =>
    rw [List.cons_append, List.cons_append, Token.verbatimBody, ih]
    rfl

/-- No longer verbatim string stands where the quote that ends one stands alone. -/
theorem doubled_longest {raw : List Char} (h : Doubled raw) {after : List Char}
    (alone : after.head? ≠ some '"') {other more : List Char} (doubled : Doubled other)
    (same : raw ++ '"' :: after = other ++ '"' :: more) : other.length ≤ raw.length := by
  induction h generalizing other with
  | nil =>
    cases doubled with
    | nil => exact Nat.le_refl _
    | plain quote _ => exact absurd (List.cons.inj same).1.symm quote
    | pair _ => exact absurd (congrArg List.head? (List.cons.inj same).2) alone
  | plain quote _ ih =>
    cases doubled with
    | nil => exact absurd (List.cons.inj same).1 quote
    | plain _ others => exact Nat.succ_le_succ (ih others (List.cons.inj same).2)
    | pair _ => exact absurd (List.cons.inj same).1 quote
  | pair _ ih =>
    cases doubled with
    | nil => exact Nat.zero_le _
    | plain quote _ => exact absurd (List.cons.inj same).1.symm quote
    | pair others =>
      exact Nat.succ_le_succ (Nat.succ_le_succ
        (ih others (List.cons.inj (List.cons.inj same).2).2))

theorem Doubled.append {raw other : List Char} (h : Doubled raw) (more : Doubled other) :
    Doubled (raw ++ other) := by
  induction h with
  | nil => exact more
  | plain quote _ ih => exact .plain quote ih
  | pair _ ih => exact .pair ih

theorem doubled_of_not_mem {cs : List Char} (absent : '"' ∉ cs) : Doubled cs := by
  induction cs with
  | nil => exact .nil
  | cons c rest ih =>
    rw [List.mem_cons, not_or] at absent
    exact .plain (fun same => absent.1 same.symm) (ih absent.2)

/-! Longest words. -/

theorem longest_literal {text : String} {word : List Char} (spelled : word = text.toList)
    (rest : List Char) : Longest (Terminal.literal text).Spells (word ++ rest) word rest where
  front := rfl
  spelled := spelled
  longest := fun _ _ _ other => Nat.le_of_eq (congrArg List.length (other.trans spelled.symm))

theorem longest_regular {raw rest : List Char} (h : Escaped raw) :
    Longest Terminal.regular.Spells ('"' :: raw ++ '"' :: rest) ('"' :: raw ++ ['"']) rest where
  front := by rw [List.append_assoc, List.singleton_append]
  spelled := ⟨raw, h, rfl⟩
  longest := by
    rintro _ more same ⟨other, escaped, rfl⟩
    rw [List.append_assoc, List.singleton_append] at same
    have bodies : raw ++ '"' :: rest = other ++ '"' :: more := (List.cons.inj same).2
    have read := regularBody_complete h rest
    rw [bodies, regularBody_complete escaped more] at read
    exact Nat.le_of_eq (congrArg (fun cs => ('"' :: cs ++ ['"']).length)
      (Prod.mk.inj (Option.some.inj read)).1)

theorem longest_verbatim {raw rest : List Char} (h : Doubled raw) (alone : rest.head? ≠ some '"') :
    Longest Terminal.verbatim.Spells ('@' :: '"' :: raw ++ '"' :: rest) ('@' :: '"' :: raw ++ ['"'])
      rest where
  front := by rw [List.append_assoc, List.singleton_append]
  spelled := ⟨raw, h, rfl⟩
  longest := by
    rintro _ more same ⟨other, doubled, rfl⟩
    rw [List.append_assoc, List.singleton_append] at same
    have shorter := doubled_longest h alone doubled (List.cons.inj (List.cons.inj same).2).2
    simpa using shorter

/-- Behind its first character a name has nothing but what may go on with it. -/
theorem spells_name {c : Char} {name : List Char} (start : Token.isNameStart c = true)
    (parts : name.all Token.isNamePart = true) : Terminal.ident.Spells (c :: name) :=
  ⟨[], c, name, Or.inl rfl, rfl, start, List.all_eq_true.mp parts⟩

theorem ident_tail {word : List Char} (h : Terminal.ident.Spells word) :
    word ≠ [] ∧ ∀ d ∈ word.tail, Token.isNamePart d = true := by
  obtain ⟨mark, c, name, rfl | rfl, rfl, start, parts⟩ := h
  · exact ⟨List.cons_ne_nil c name, parts⟩
  · refine ⟨List.cons_ne_nil '@' (c :: name), fun d held => ?_⟩
    rcases List.mem_cons.mp held with rfl | later
    · exact Token.start_is_part start
    · exact parts d later

/-- A word is the longest name when no character that could go on with it comes next. -/
theorem longest_ident_iff {cs word rest : List Char} :
    Longest Terminal.ident.Spells cs word rest ↔
      cs = word ++ rest ∧ Terminal.ident.Spells word ∧
        ∀ d ∈ rest.head?, Token.isNamePart d = false := by
  constructor
  · intro h
    refine ⟨h.front, h.spelled, fun d next => ?_⟩
    obtain ⟨more, rfl⟩ := List.head?_eq_some_iff.mp next
    obtain ⟨mark, c, name, marked, rfl, start, parts⟩ := h.spelled
    by_contra part
    rw [Bool.not_eq_false] at part
    have longer : Terminal.ident.Spells (mark ++ c :: name ++ [d]) := by
      refine ⟨mark, c, name ++ [d], marked, by simp, start, fun e held => ?_⟩
      rcases List.mem_append.mp held with before | last
      · exact parts e before
      · rw [List.mem_singleton.mp last]
        exact part
    have bound := h.longest _ more (by rw [h.front]; simp) longer
    rw [List.length_append, List.length_singleton] at bound
    exact Nat.not_succ_le_self _ bound
  · rintro ⟨rfl, spelled, ends⟩
    refine ⟨rfl, spelled, fun other more same name => ?_⟩
    rcases List.append_eq_append_iff.mp same with ⟨x, rfl, after⟩ | ⟨x, rfl, _⟩
    · cases x with
      | nil => exact Nat.le_of_eq (congrArg List.length (List.append_nil word))
      | cons d x =>
        have next : d ∈ rest.head? := by
          rw [after]
          rfl
        have inside : d ∈ (word ++ d :: x).tail := by
          rw [List.tail_append_of_ne_nil (ident_tail spelled).1]
          exact List.mem_append_right _ List.mem_cons_self
        exact absurd ((ident_tail name).2 d inside) (Bool.eq_false_iff.mp (ends d next))
    · rw [List.length_append]
      exact Nat.le_add_right _ _

/-! Tokens. -/

namespace Token

def terminal : Token → Terminal
  | .ident _ => .ident
  | .regular _ => .regular
  | .verbatim _ => .verbatim
  | .less => .literal "<"
  | .greater => .literal ">"
  | .comma => .literal ","
  | .dot => .literal "."
  | .opening => .literal "("
  | .closing => .literal ")"
  | .colon => .literal ":"
  | .doubleColon => .literal "::"

def word : Token → List Char
  | .ident text => text.toList
  | .regular raw => '"' :: raw ++ ['"']
  | .verbatim raw => '@' :: '"' :: raw ++ ['"']
  | .less => ['<']
  | .greater => ['>']
  | .comma => [',']
  | .dot => ['.']
  | .opening => ['(']
  | .closing => [')']
  | .colon => [':']
  | .doubleColon => [':', ':']

theorem longest_taken (mark : List Char) {c : Char} (marked : mark = [] ∨ mark = ['@'])
    (start : isNameStart c = true) (rest : List Char) :
    Longest Terminal.ident.Spells (mark ++ c :: rest)
      (String.ofList (mark ++ c :: rest.takeWhile isNamePart)).toList
        (rest.dropWhile isNamePart) := by
  rw [longest_ident_iff, String.toList_ofList, List.append_assoc, List.cons_append,
    List.takeWhile_append_dropWhile]
  refine ⟨rfl, ⟨mark, c, _, marked, rfl, start, List.all_eq_true.mp List.all_takeWhile⟩, ?_⟩
  intro d next
  have ends := List.head?_dropWhile_not isNamePart rest
  rw [Option.mem_def.mp next] at ends
  exact ends

theorem first_longest {cs after : List Char} {token : Token} (h : first cs = some (token, after)) :
    Longest token.terminal.Spells cs token.word after := by
  unfold first at h
  split at h
  case h_9 rest =>
    obtain ⟨⟨raw, _⟩, body, same⟩ := Option.map_eq_some_iff.mp h
    obtain ⟨rfl, rfl⟩ := Prod.mk.inj same
    obtain ⟨escaped, rfl⟩ := regularBody_sound body
    exact longest_regular escaped
  case h_10 rest =>
    obtain ⟨⟨raw, _⟩, body, same⟩ := Option.map_eq_some_iff.mp h
    obtain ⟨rfl, rfl⟩ := Prod.mk.inj same
    obtain ⟨doubled, rfl, alone⟩ := verbatimBody_sound body
    exact longest_verbatim doubled alone
  case h_11 c rest _ =>
    split at h
    · rename_i start
      cases h
      exact longest_taken ['@'] (Or.inr rfl) start rest
    · cases h
  case h_12 c rest _ _ _ _ _ _ _ _ _ _ _ =>
    split at h
    · rename_i start
      cases h
      exact longest_taken [] (Or.inl rfl) start rest
    · cases h
  case h_13 => cases h
  all_goals
    cases h
    exact ⟨rfl, rfl, fun _ _ _ spelled => Nat.le_of_eq (congrArg List.length spelled)⟩

theorem span_parts {p : Char → Bool} {name rest : List Char} (parts : ∀ d ∈ name, p d = true)
    (ends : ∀ d ∈ rest.head?, p d = false) :
    (name ++ rest).takeWhile p = name ∧ (name ++ rest).dropWhile p = rest := by
  rw [List.takeWhile_append_of_pos parts, List.dropWhile_append_of_pos parts]
  cases rest with
  | nil => exact ⟨List.append_nil name, rfl⟩
  | cons d more =>
    have other : ¬p d = true := Bool.not_eq_true _ ▸ ends d rfl
    rw [List.takeWhile_cons_of_neg other, List.dropWhile_cons_of_neg other]
    exact ⟨List.append_nil name, rfl⟩

theorem first_start {c : Char} (start : isNameStart c = true) (rest : List Char) :
    first (c :: rest) =
      some (.ident (String.ofList (c :: rest.takeWhile isNamePart)),
        rest.dropWhile isNamePart) := by
  unfold first
  split
  case h_12 same =>
    obtain ⟨rfl, rfl⟩ := List.cons.inj same
    exact if_pos start
  case h_13 same => cases same
  all_goals
    rename_i same
    obtain ⟨rfl, _⟩ := List.cons.inj same
    exact absurd start (by decide)

theorem first_marked {c : Char} (start : isNameStart c = true) (rest : List Char) :
    first ('@' :: c :: rest) =
      some (.ident (String.ofList ('@' :: c :: rest.takeWhile isNamePart)),
        rest.dropWhile isNamePart) := by
  rw [first]
  · exact if_pos start
  · rintro rfl
    exact absurd start (by decide)

/-- The longest word of a terminal is the first token, a colon in front of another and the end of a
verbatim string in front of another quote excepted. -/
theorem first_of_longest {cs rest : List Char} {token : Token}
    (h : Longest token.terminal.Spells cs token.word rest)
    (single : token = .colon → rest.head? ≠ some ':')
    (alone : ∀ raw, token = .verbatim raw → rest.head? ≠ some '"') :
    first cs = some (token, rest) := by
  have front := h.front
  cases token with
  | ident text =>
    obtain ⟨_, ⟨mark, c, name, marked, spelled, start, parts⟩, ends⟩ := longest_ident_iff.mp h
    obtain ⟨taken, left⟩ := span_parts parts ends
    have whole : text = String.ofList (mark ++ c :: name) := by
      rw [← spelled]
      exact String.ofList_toList.symm
    rw [front, spelled, whole]
    rcases marked with rfl | rfl
    · have read := first_start start (name ++ rest)
      rw [taken, left] at read
      exact read
    · have read := first_marked start (name ++ rest)
      rw [taken, left] at read
      exact read
  | regular raw =>
    obtain ⟨other, escaped, same⟩ := h.spelled
    have body : raw = other := List.append_cancel_right (List.cons.inj same).2
    rw [front, word, List.append_assoc, List.singleton_append, body, List.cons_append, first,
      regularBody_complete escaped]
    rfl
  | verbatim raw =>
    obtain ⟨other, doubled, same⟩ := h.spelled
    have body : raw = other :=
      List.append_cancel_right (List.cons.inj (List.cons.inj same).2).2
    rw [front, word, List.append_assoc, List.singleton_append, body, List.cons_append,
      List.cons_append, first, verbatimBody_complete doubled (alone raw rfl)]
    rfl
  | colon =>
    rw [front]
    cases rest with
    | nil => rfl
    | cons c more =>
      have other : c ≠ ':' := fun same => single rfl (congrArg some same)
      exact first.eq_8 _ fun _ same => other (List.cons.inj same).1
  | less | greater | comma | dot | opening | closing | doubleColon =>
    rw [front]
    rfl

theorem not_space_of {p : Char → Bool} (apart : [' ', '\t', '\x0c', '\r', '\n'].any p = false)
    {c : Char} (h : p c = true) : isSpace c = false := by
  by_contra space
  rw [Bool.not_eq_false, isSpace, decide_eq_true_eq] at space
  exact List.any_eq_false.mp apart c space h

theorem word_begins {token : Token} (spelled : token.terminal.Spells token.word) :
    ∃ c more, token.word = c :: more ∧ isSpace c = false := by
  cases token with
  | ident text =>
    obtain ⟨mark, c, name, rfl | rfl, same, start, _⟩ := spelled
    · exact ⟨c, name, same, not_space_of (by decide) start⟩
    · exact ⟨'@', c :: name, same, by decide⟩
  | regular raw => exact ⟨'"', raw ++ ['"'], rfl, by decide⟩
  | verbatim raw => exact ⟨'@', '"' :: raw ++ ['"'], rfl, by decide⟩
  | less | greater | comma | dot | opening | closing | colon | doubleColon =>
    exact ⟨_, _, rfl, by decide⟩

theorem first_begins {cs after : List Char} {token : Token} (h : first cs = some (token, after)) :
    ∃ c more, cs = c :: more ∧ isSpace c = false ∧ after.length < cs.length := by
  have longest := first_longest h
  obtain ⟨c, more, begins, solid⟩ := word_begins longest.spelled
  have front := longest.front
  rw [begins] at front
  refine ⟨c, more ++ after, front, solid, ?_⟩
  rw [front, List.cons_append, List.length_cons, List.length_append]
  omega

/-! Scanning. -/

theorem scanSteps_eq (steps : Nat) {other : Nat} {cs : List Char} (enough : cs.length < steps)
    (more : cs.length < other) : scanSteps steps cs = scanSteps other cs := by
  induction steps generalizing other cs with
  | zero => exact absurd enough (Nat.not_lt_zero _)
  | succ steps ih =>
    obtain ⟨other, rfl⟩ := Nat.exists_eq_succ_of_ne_zero (Nat.ne_of_gt (Nat.zero_lt_of_lt more))
    rw [scanSteps, scanSteps]
    have shorter : (cs.dropWhile isSpace).length ≤ cs.length := (List.dropWhile_sublist _).length_le
    cases body : cs.dropWhile isSpace with
    | nil => rfl
    | cons c rest =>
      simp only
      cases found : first (c :: rest) with
      | none => rfl
      | some pair =>
        obtain ⟨token, after⟩ := pair
        obtain ⟨_, _, _, _, less⟩ := first_begins found
        rw [body] at shorter
        have same : scanSteps steps after = scanSteps other after := ih (by omega) (by omega)
        simp only [same]

theorem scan_eq (cs : List Char) : scan cs =
    match cs.dropWhile isSpace with
    | [] => some []
    | c :: rest =>
      match first (c :: rest) with
      | some (token, after) => (scan after).map (token :: ·)
      | none => none := by
  have shorter : (cs.dropWhile isSpace).length ≤ cs.length := (List.dropWhile_sublist _).length_le
  rw [scan, scanSteps]
  cases body : cs.dropWhile isSpace with
  | nil => rfl
  | cons c rest =>
    simp only
    cases found : first (c :: rest) with
    | none => rfl
    | some pair =>
      obtain ⟨token, after⟩ := pair
      obtain ⟨_, _, _, _, less⟩ := first_begins found
      rw [body] at shorter
      have same : scanSteps cs.length after = scan after := scanSteps_eq _ (by omega) (by omega)
      simp only [same]

theorem scan_nil_iff {cs : List Char} : scan cs = some [] ↔ ∀ c ∈ cs, isSpace c = true := by
  rw [scan_eq, ← List.dropWhile_eq_nil_iff]
  cases cs.dropWhile isSpace with
  | nil => simp
  | cons c rest =>
    simp only
    cases first (c :: rest) with
    | none => simp
    | some pair => simp

theorem scan_cons_iff {cs : List Char} {token : Token} {ts : List Token} :
    scan cs = some (token :: ts) ↔
      ∃ after, first (cs.dropWhile isSpace) = some (token, after) ∧ scan after = some ts := by
  rw [scan_eq]
  cases cs.dropWhile isSpace with
  | nil => simp [first]
  | cons c rest =>
    simp only
    cases first (c :: rest) with
    | none => simp
    | some pair =>
      obtain ⟨found, after⟩ := pair
      simp only [Option.map_eq_some_iff, List.cons.injEq, Option.some.injEq, Prod.mk.injEq]
      constructor
      · rintro ⟨more, further, rfl, rfl⟩
        exact ⟨after, ⟨rfl, rfl⟩, further⟩
      · rintro ⟨_, ⟨rfl, rfl⟩, further⟩
        exact ⟨ts, further, rfl, rfl⟩

end Token

theorem takes_of_scan {cs : List Char} {token : Token} {ts : List Token}
    (h : Token.scan cs = some (token :: ts)) :
    ∃ after, Takes token.terminal token.word cs after ∧ Token.scan after = some ts := by
  obtain ⟨after, found, further⟩ := Token.scan_cons_iff.mp h
  refine ⟨after, ⟨cs.takeWhile Token.isSpace, cs.dropWhile Token.isSpace, ?_, ?_,
    Token.first_longest found⟩, further⟩
  · exact List.all_eq_true.mp List.all_takeWhile
  · exact List.takeWhile_append_dropWhile.symm

theorem quote_of_scan {more : List Char} {ts : List Token}
    (h : Token.scan ('"' :: more) = some ts) : '"' ∈ more := by
  rw [Token.scan_eq, List.dropWhile_cons_of_neg (by decide)] at h
  simp only [Token.first] at h
  cases body : Token.regularBody more with
  | none =>
    rw [body] at h
    cases h
  | some pair =>
    obtain ⟨raw, after⟩ := pair
    obtain ⟨_, rfl⟩ := regularBody_sound body
    exact List.mem_append_right _ List.mem_cons_self

/-- The longest verbatim string ends in front of a quote only if there is no other quote behind. -/
theorem no_quote_behind {cs raw more : List Char}
    (h : Longest Terminal.verbatim.Spells cs ('@' :: '"' :: raw ++ ['"']) ('"' :: more)) :
    '"' ∉ more := by
  intro held
  obtain ⟨before, behind, rfl, absent⟩ := List.eq_append_cons_of_mem held
  obtain ⟨other, doubled, same⟩ := h.spelled
  obtain rfl : raw = other := List.append_cancel_right (List.cons.inj (List.cons.inj same).2).2
  have longer : Terminal.verbatim.Spells
      ('@' :: '"' :: (raw ++ '"' :: '"' :: before) ++ ['"']) :=
    ⟨_, doubled.append (.pair (doubled_of_not_mem absent)), rfl⟩
  have bound := h.longest _ behind (by rw [h.front]; simp) longer
  simp only [List.length_append, List.length_cons] at bound
  omega

/-- The word that a terminal takes is scanned, if what is left can be. -/
theorem scan_of_takes (token : Token) {cs after : List Char} {ts : List Token}
    (h : Takes token.terminal token.word cs after) (further : Token.scan after = some ts)
    (single : token = .colon → after.head? ≠ some ':') : Token.scan cs = some (token :: ts) := by
  obtain ⟨blanks, body, blank, rfl, longest⟩ := h
  have alone : ∀ raw, token = .verbatim raw → after.head? ≠ some '"' := by
    rintro raw rfl quote
    obtain ⟨more, rfl⟩ := List.head?_eq_some_iff.mp quote
    exact no_quote_behind longest (quote_of_scan further)
  have found := Token.first_of_longest longest single alone
  obtain ⟨c, more, rfl, solid, _⟩ := Token.first_begins found
  have begins : (blanks ++ c :: more).dropWhile Token.isSpace = c :: more := by
    rw [List.dropWhile_append_of_pos blank, List.dropWhile_cons_of_neg (Bool.eq_false_iff.mp solid)]
  exact Token.scan_cons_iff.mpr ⟨after, begins.symm ▸ found, further⟩

theorem scan_of_ident {w cs after : List Char} {ts : List Token} (h : Takes .ident w cs after)
    (further : Token.scan after = some ts) :
    Token.scan cs = some (.ident (String.ofList w) :: ts) := by
  refine scan_of_takes (.ident (String.ofList w)) ?_ further nofun
  rw [Token.word, String.toList_ofList]
  exact h

theorem scan_of_literal (token : Token) {text : String} {w cs after : List Char} {ts : List Token}
    (sign : token.terminal = .literal text) (h : Takes (.literal text) w cs after)
    (further : Token.scan after = some ts) (single : token = .colon → after.head? ≠ some ':') :
    Token.scan cs = some (token :: ts) := by
  have spelled : w = token.word := by
    obtain ⟨_, _, _, _, longest⟩ := h
    rw [longest.spelled]
    cases token <;> cases sign <;> rfl
  rw [spelled, ← sign] at h
  exact scan_of_takes token h further single

/-! What comes next. -/

theorem head_of_scan {cs : List Char} {c : Char} {token : Token} {ts : List Token}
    (h : Token.scan cs = some (token :: ts)) (next : cs.head? = some c) :
    Token.isSpace c = true ∨ token.word.head? = some c := by
  obtain ⟨rest, rfl⟩ := List.head?_eq_some_iff.mp next
  by_cases blank : Token.isSpace c = true
  · exact Or.inl blank
  · obtain ⟨after, found, _⟩ := Token.scan_cons_iff.mp h
    rw [List.dropWhile_cons_of_neg blank] at found
    have longest := Token.first_longest found
    obtain ⟨d, more, begins, _⟩ := Token.word_begins longest.spelled
    have front := longest.front
    rw [begins] at front
    rw [begins, (List.cons.inj front).1]
    exact Or.inr rfl

theorem no_colon_of_scan {cs : List Char} {ts : List Token} (h : Token.scan cs = some ts)
    (other : ∀ t ∈ ts.head?, t ≠ .colon ∧ t ≠ .doubleColon) : cs.head? ≠ some ':' := by
  intro next
  cases ts with
  | nil =>
    have blank := Token.scan_nil_iff.mp h ':' (List.mem_of_mem_head? next)
    exact absurd blank (by decide)
  | cons token ts =>
    rcases head_of_scan h next with blank | sign
    · exact absurd blank (by decide)
    · obtain ⟨_, taken, _⟩ := takes_of_scan h
      obtain ⟨_, _, _, _, longest⟩ := taken
      obtain ⟨colon, doubleColon⟩ := other token rfl
      cases token with
      | colon => exact colon rfl
      | doubleColon => exact doubleColon rfl
      | ident text =>
        obtain ⟨mark, c, name, rfl | rfl, same, start, _⟩ := longest.spelled
        · rw [same] at sign
          obtain rfl := Option.some.inj sign
          exact absurd start (by decide)
        · rw [same] at sign
          cases sign
      | _ => cases sign

theorem scan_typeof {w cs after : List Char} {ts : List Token}
    (h : Takes (.literal "typeof") w cs after)
    (further : Token.scan after = some (.opening :: ts)) :
    Token.scan cs = some (.ident "typeof" :: .opening :: ts) := by
  obtain ⟨blanks, body, blank, rfl, longest⟩ := h
  have spelled : w = "typeof".toList := longest.spelled
  have name : Longest Terminal.ident.Spells body (Token.ident "typeof").word after := by
    refine longest_ident_iff.mpr ⟨?_, spells_name (c := 't') (by decide) (by decide), ?_⟩
    · rw [longest.front, spelled]
      rfl
    · intro d next
      rcases head_of_scan further next with blank | sign
      · by_contra part
        rw [Bool.not_eq_false] at part
        rw [Token.not_space_of (by decide) part] at blank
        cases blank
      · obtain rfl := Option.some.inj sign
        decide
  exact scan_of_takes (.ident "typeof") ⟨blanks, body, blank, rfl, name⟩ further nofun

theorem takes_typeof {cs after : List Char} (h : Takes .ident "typeof".toList cs after) :
    Takes (.literal "typeof") "typeof".toList cs after := by
  obtain ⟨blanks, body, blank, rfl, longest⟩ := h
  refine ⟨blanks, body, blank, rfl, ?_⟩
  rw [longest.front]
  exact longest_literal rfl after

end HiddenNames.Marker
