import HiddenNames.CSharp.Reader
import Mathlib.Data.List.TakeWhile

/-!
The names that the reader gives to types are words: whatever a source says, a declared type is
called by the characters of a word token, without its verbatim mark. The nodes that a declaration is
read from are those of the source, so what holds of its tokens holds of them.
-/

namespace HiddenNames.CSharp

def IsWordName (name : String) : Prop := ∀ c ∈ name.toList, Token.isWordPart c = true

namespace Token

/-- A word token holds the characters of a word, after a verbatim mark if it has one. -/
def IsClean (t : Token) : Prop :=
  t.kind = .word → IsWordName (Identifier.plain (String.ofList t.text))

theorem isWordPart_of_start {c : Char} (h : isWordStart c = true) : isWordPart c = true := by
  rw [isWordStart, Bool.or_eq_true] at h
  rw [isWordPart, Bool.or_eq_true]
  rcases h with start | escape
  · left
    rw [Identifier.isPart, start]
    rfl
  · exact Or.inr escape

theorem isWordName_plain {c : Char} {rest : List Char} (first : isWordStart c = true ∨ c = '@')
    (inside : ∀ d ∈ rest, isWordPart d = true) :
    IsWordName (Identifier.plain (String.ofList (c :: rest))) := by
  intro d held
  unfold Identifier.plain at held
  split at held
  · rename_i more marked
    rw [String.toList_ofList] at marked held
    obtain ⟨_, rfl⟩ := List.cons.inj marked
    exact inside d held
  · rename_i unmarked
    rw [String.toList_ofList] at held
    rcases List.mem_cons.mp held with rfl | later
    · rcases first with start | mark
      · exact isWordPart_of_start start
      · exact absurd (by rw [String.toList_ofList, mark]) (unmarked rest)
    · exact inside d later

theorem measure_word {cs : List Char} (h : (measure cs).1 = .word) :
    ∃ c rest, cs = c :: rest ∧ (isWordStart c = true ∨ c = '@') ∧
      (measure cs).2 = 1 + (rest.takeWhile isWordPart).length := by
  cases cs with
  | nil => cases h
  | cons c rest =>
    refine ⟨c, rest, rfl, ?_⟩
    simp only [measure] at h ⊢
    by_cases text : startsString (c :: rest) = true
    · rw [if_pos text] at h
      cases h
    by_cases quoted : c = '\''
    · rw [if_neg text, if_pos quoted] at h
      cases h
    by_cases digit : c.isDigit = true
    · rw [if_neg text, if_neg quoted, if_pos digit] at h
      cases h
    by_cases word : (isWordStart c || (c = '@' && rest.head?.any isWordStart)) = true
    · rw [if_neg text, if_neg quoted, if_neg digit, if_pos word]
      refine ⟨?_, rfl⟩
      rw [Bool.or_eq_true, Bool.and_eq_true] at word
      rcases word with start | ⟨mark, _⟩
      · exact Or.inl start
      · exact Or.inr (of_decide_eq_true mark)
    · rw [if_neg text, if_neg quoted, if_neg digit, if_neg word] at h
      split at h
      · cases h
      · split at h <;> cases h

theorem scanSteps_clean (steps line : Nat) (cs : List Char) :
    ∀ t ∈ scanSteps steps line cs, t.IsClean := by
  induction steps generalizing line cs with
  | zero => exact fun _ held => absurd held List.not_mem_nil
  | succ steps ih =>
    intro t held
    simp only [scanSteps] at held
    split at held
    · cases held
    · split at held
      · rcases List.mem_cons.mp held with rfl | later
        · intro word
          cases word
        · exact ih _ _ t later
      · rcases List.mem_cons.mp held with rfl | later
        · intro word
          obtain ⟨c, rest, shape, first, length⟩ := measure_word word
          have text : (cs.drop (gap cs.length cs).length).take
              (measure (cs.drop (gap cs.length cs).length)).2 = c :: rest.takeWhile isWordPart := by
            rw [length, shape, Nat.add_comm, List.take_succ_cons]
            exact congrArg (c :: ·)
              (List.prefix_iff_eq_take.mp (List.takeWhile_prefix isWordPart)).symm
          change IsWordName (Identifier.plain (String.ofList _))
          rw [text]
          exact isWordName_plain first fun d among => List.mem_takeWhile_imp among
        · exact ih _ _ t later

theorem scan_clean (cs : List Char) : ∀ t ∈ scan cs, t.IsClean := scanSteps_clean _ _ cs

end Token

namespace Node

mutual

def IsClean : Node → Prop
  | .leaf t => t.IsClean
  | .tree _ inner _ => AreClean inner
  | .branches bodies => BodiesClean bodies

def AreClean : List Node → Prop
  | [] => True
  | n :: rest => n.IsClean ∧ AreClean rest

def BodiesClean : List (List Node) → Prop
  | [] => True
  | body :: rest => AreClean body ∧ BodiesClean rest

end

theorem areClean_iff (ns : List Node) : AreClean ns ↔ ∀ n ∈ ns, n.IsClean := by
  induction ns with
  | nil => exact iff_of_true trivial fun _ held => absurd held List.not_mem_nil
  | cons n rest ih => rw [AreClean, ih, List.forall_mem_cons]

theorem bodiesClean_iff (bodies : List (List Node)) :
    BodiesClean bodies ↔ ∀ body ∈ bodies, AreClean body := by
  induction bodies with
  | nil => exact iff_of_true trivial fun _ held => absurd held List.not_mem_nil
  | cons body rest ih => rw [BodiesClean, ih, List.forall_mem_cons]

theorem AreClean.of_subset {ns ms : List Node} (h : AreClean ms) (inside : ns ⊆ ms) :
    AreClean ns := by
  rw [areClean_iff] at h ⊢
  exact fun n held => h n (inside held)

structure Frame.IsClean (f : Frame) : Prop where
  done : AreClean f.done
  bodies : BodiesClean f.bodies

structure Stack.IsClean (s : Stack) : Prop where
  frames : ∀ f ∈ s.frames, f.IsClean
  done : AreClean s.done

theorem AreClean.reverse {ns : List Node} (h : AreClean ns) : AreClean ns.reverse :=
  h.of_subset fun _ held => List.mem_reverse.mp held

theorem BodiesClean.append {bodies : List (List Node)} {body : List Node}
    (h : BodiesClean bodies) (last : AreClean body) : BodiesClean (bodies ++ [body]) := by
  rw [bodiesClean_iff] at h ⊢
  intro other held
  rcases List.mem_append.mp held with before | same
  · exact h other before
  · rw [List.mem_singleton.mp same]
    exact last

theorem Frame.IsClean.node {f : Frame} (h : f.IsClean) (closing : Option Token) :
    (f.node closing).IsClean := by
  unfold Frame.node
  split
  · exact h.bodies.append h.done.reverse
  · exact h.done.reverse

namespace Stack

theorem IsClean.push {s : Stack} (h : s.IsClean) {n : Node} (clean : n.IsClean) :
    (s.push n).IsClean := by
  unfold Stack.push
  split
  · rename_i f rest open'
    have frames := h.frames
    rw [open', List.forall_mem_cons] at frames
    refine ⟨?_, h.done⟩
    rw [List.forall_mem_cons]
    exact ⟨⟨⟨clean, frames.1.done⟩, frames.1.bodies⟩, frames.2⟩
  · exact ⟨h.frames, clean, h.done⟩

theorem IsClean.close {s : Stack} (h : s.IsClean) (closing : Option Token) :
    (s.close closing).IsClean := by
  unfold Stack.close
  split
  · rename_i f rest open'
    have frames := h.frames
    rw [open', List.forall_mem_cons] at frames
    have others : IsClean { s with frames := rest } := ⟨frames.2, h.done⟩
    exact others.push (frames.1.node closing)
  · exact h

theorem IsClean.open {s : Stack} (h : s.IsClean) (t : Token) :
    IsClean { s with frames := ⟨t, [], []⟩ :: s.frames } := by
  refine ⟨?_, h.done⟩
  rw [List.forall_mem_cons]
  exact ⟨⟨trivial, trivial⟩, h.frames⟩

theorem IsClean.next {s : Stack} (h : s.IsClean) {t : Token} (clean : t.IsClean) :
    (s.next t).IsClean := by
  unfold Stack.next
  split
  · split
    · exact h.open t
    · split
      · exact h.close (some t)
      · split
        · rename_i f rest open'
          have frames := h.frames
          rw [open', List.forall_mem_cons] at frames
          refine ⟨?_, h.done⟩
          rw [List.forall_mem_cons]
          exact ⟨⟨trivial, frames.1.bodies.append frames.1.done.reverse⟩, frames.2⟩
        · exact h
  · split
    · exact h.open t
    · split
      · exact h.close (some t)
      · exact h.push clean

theorem IsClean.finish {s : Stack} (h : s.IsClean) (fuel : Nat) : AreClean (s.finish fuel) := by
  induction fuel generalizing s with
  | zero => exact h.done.reverse
  | succ fuel ih =>
    unfold Stack.finish
    split
    · exact h.done.reverse
    · exact ih (h.close none)

end Stack

theorem ofTokens_clean {ts : List Token} (h : ∀ t ∈ ts, t.IsClean) : AreClean (ofTokens ts) := by
  have run : ∀ (ts : List Token) (s : Stack), s.IsClean → (∀ t ∈ ts, t.IsClean) →
      (ts.foldl Stack.next s).IsClean := by
    intro ts
    induction ts with
    | nil => exact fun s clean _ => clean
    | cons t rest ih =>
      intro s clean tokens
      rw [List.forall_mem_cons] at tokens
      exact ih (s.next t) (clean.next tokens.1) tokens.2
  have start : Stack.IsClean {} := ⟨fun _ held => absurd held List.not_mem_nil, trivial⟩
  exact (run ts {} start h).finish _

theorem afterAngles_suffix {depth : Nat} {ns after : List Node}
    (h : afterAngles depth ns = some after) : after <:+ ns := by
  induction ns generalizing depth with
  | nil => cases h
  | cons n rest ih =>
    unfold afterAngles at h
    split at h
    · exact (ih h).trans (List.suffix_cons n rest)
    · split at h
      · split at h
        · obtain rfl := Option.some.inj h
          exact List.suffix_cons n rest
        · exact (ih h).trans (List.suffix_cons n rest)
      · exact (ih h).trans (List.suffix_cons n rest)

end Node

namespace Declaration

mutual

/-- All types that are declared, also inside of others, are called by words. -/
def IsNamed : Declaration → Prop
  | .namespaceBlock _ body => AreNamed body
  | .namespaceLine _ => True
  | .assemblyAttributes _ => True
  | .type header body => IsWordName header.name ∧ AreNamed body
  | .members _ _ _ => True
  | .group body => AreNamed body

def AreNamed : List Declaration → Prop
  | [] => True
  | d :: rest => d.IsNamed ∧ AreNamed rest

end

theorem areNamed_iff (ds : List Declaration) : AreNamed ds ↔ ∀ d ∈ ds, d.IsNamed := by
  induction ds with
  | nil => exact iff_of_true trivial fun _ held => absurd held List.not_mem_nil
  | cons d rest ih => rw [AreNamed, ih, List.forall_mem_cons]

end Declaration

namespace Reader

open Node (AreClean BodiesClean areClean_iff bodiesClean_iff)

theorem mem_of_mem_ite {α : Type} {p : Prop} [Decidable p] {x : α} {a b : List α}
    (h : x ∈ if p then a else b) : x ∈ a ∨ x ∈ b := by
  by_cases holds : p
  · rw [if_pos holds] at h
    exact Or.inl h
  · rw [if_neg holds] at h
    exact Or.inr h

theorem items_mem {current ns : List Node} {s : ItemState} {item : List Node}
    (h : item ∈ items current s ns) : ∀ n ∈ item, n ∈ current ∨ n ∈ ns := by
  induction ns generalizing current s item with
  | nil =>
    unfold items at h
    split at h
    · cases h
    · obtain rfl := List.mem_singleton.mp h
      exact fun n held => Or.inl (List.mem_reverse.mp held)
  | cons m rest ih =>
    have behind : ∀ {n : Node}, n ∈ ([] : List Node) ∨ n ∈ rest → n ∈ current ∨ n ∈ m :: rest := by
      rintro n (none | later)
      · cases none
      · exact Or.inr (List.mem_cons_of_mem m later)
    have start : ∀ {n : Node}, n ∈ m :: current → n ∈ current ∨ n ∈ m :: rest := by
      intro n held
      rcases List.mem_cons.mp held with rfl | earlier
      · exact Or.inr List.mem_cons_self
      · exact Or.inl earlier
    unfold items at h
    rcases mem_of_mem_ite h with skipped | h
    · exact fun n held => behind (ih skipped n held)
    rcases mem_of_mem_ite h with alone | h
    · rcases List.mem_cons.mp alone with rfl | later
      · intro n held
        rw [List.mem_singleton.mp held]
        exact Or.inr List.mem_cons_self
      · exact fun n held => behind (ih later n held)
    rcases mem_of_mem_ite h with ended | h
    · rcases List.mem_cons.mp ended with rfl | later
      · exact fun n held => start (List.mem_reverse.mp held)
      · exact fun n held => behind (ih later n held)
    · intro n held
      rcases ih h n held with earlier | later
      · exact start earlier
      · exact Or.inr (List.mem_cons_of_mem m later)

theorem takeAttributes_suffix (ns : List Node) : (takeAttributes ns).2 <:+ ns := by
  induction ns with
  | nil => exact List.suffix_refl []
  | cons n rest ih =>
    unfold takeAttributes
    split
    · exact ih.trans (List.suffix_cons n rest)
    · split
      · exact ih.trans (List.suffix_cons n rest)
      · exact List.suffix_refl _

theorem takeModifiers_suffix (ns : List Node) : (takeModifiers ns).2 <:+ ns := by
  induction ns with
  | nil => exact List.suffix_refl []
  | cons n rest ih =>
    unfold takeModifiers
    split
    · split
      · exact ih.trans (List.suffix_cons n rest)
      · exact List.suffix_refl _
    · exact List.suffix_refl _

theorem skipSuffixes_suffix (ns : List Node) : skipSuffixes ns <:+ ns := by
  induction ns with
  | nil => exact List.suffix_refl []
  | cons n rest ih =>
    unfold skipSuffixes
    split
    · exact ih.trans (List.suffix_cons n rest)
    · split
      · split
        · exact ih.trans (List.suffix_cons _ rest)
        · exact List.suffix_refl _
      · exact List.suffix_refl _

theorem skipNamed_suffix {fuel : Nat} {ns after : List Node} (h : skipNamed fuel ns = some after) :
    after <:+ ns := by
  induction fuel generalizing ns with
  | zero => cases h
  | succ fuel ih =>
    cases ns with
    | nil => cases h
    | cons n rest =>
      apply List.IsSuffix.trans _ (List.suffix_cons n rest)
      simp only [skipNamed] at h
      split at h
      · cases h
      cases rest with
      | nil =>
        obtain rfl := Option.some.inj h
        exact List.nil_suffix
      | cons opening inner =>
        have short : (if opening.isLeaf "<" = true then (Node.afterAngles 0 inner).getD []
            else opening :: inner) <:+ opening :: inner := by
          split
          · cases closed : Node.afterAngles 0 inner with
            | none => exact List.nil_suffix
            | some behind =>
              exact (Node.afterAngles_suffix closed).trans (List.suffix_cons opening inner)
          · exact List.suffix_refl _
        simp only at h
        generalize (if opening.isLeaf "<" = true then (Node.afterAngles 0 inner).getD []
            else opening :: inner) = left at short h
        apply List.IsSuffix.trans _ short
        cases left with
        | nil =>
          obtain rfl := Option.some.inj h
          exact List.nil_suffix
        | cons dot more =>
          simp only at h
          split at h
          · exact (ih h).trans (List.suffix_cons dot more)
          · obtain rfl := Option.some.inj h
            exact List.suffix_refl _

theorem skipType_suffix {ns after : List Node} (h : skipType ns = some after) : after <:+ ns := by
  cases ns with
  | nil => cases h
  | cons n rest =>
    rw [skipType] at h
    split at h
    · obtain rfl := Option.some.inj h
      exact (skipSuffixes_suffix rest).trans (List.suffix_cons n rest)
    · split at h
      · obtain ⟨behind, closed, rfl⟩ := Option.map_eq_some_iff.mp h
        have inside := (Node.afterAngles_suffix closed).trans (List.drop_suffix 1 _)
        exact ((skipSuffixes_suffix behind).trans inside).trans
          ((List.dropWhile_suffix _).trans (List.suffix_cons n rest))
      · obtain ⟨behind, named, rfl⟩ := Option.map_eq_some_iff.mp h
        exact (skipSuffixes_suffix behind).trans (skipNamed_suffix named)

theorem typeKeyword_suffix {ns named : List Node} {kind : TypeKind}
    (h : typeKeyword ns = some (kind, named)) : named <:+ ns := by
  cases ns with
  | nil => cases h
  | cons n rest =>
    have direct : ∀ k : TypeKind, some (k, rest) = some (kind, named) → named <:+ n :: rest := by
      intro k same
      cases same
      exact List.suffix_cons n _
    simp only [typeKeyword] at h
    split at h
    · exact direct _ h
    · exact direct _ h
    · exact direct _ h
    · exact direct _ h
    · split at h
      · rename_i m more
        split at h
        · cases h
          exact (List.suffix_cons m _).trans (List.suffix_cons n _)
        · split at h
          · cases h
            exact (List.suffix_cons m _).trans (List.suffix_cons n _)
          · split at h
            · exact direct _ h
            · cases h
      · cases h
    · cases h

theorem isWordName_of_word {n : Node} (clean : n.IsClean) {name : String}
    (h : Node.word? n = some name) : IsWordName (bareName name) := by
  cases n with
  | leaf t =>
    simp only [Node.word?] at h
    split at h
    · rename_i word
      cases h
      exact clean word
    · cases h
  | tree opening inner closing => cases h
  | branches bodies => cases h

theorem typeHeader_named {kind : TypeKind} {isDelegate : Bool} {attributes : List AttributeText}
    {modifiers : List String} {ns : List Node} (clean : AreClean ns) {header : TypeHeader}
    (h : typeHeader kind isDelegate attributes modifiers ns = some header) :
    IsWordName header.name := by
  obtain ⟨⟨name, parameters, after⟩, taken, rfl⟩ := Option.map_eq_some_iff.mp h
  cases ns with
  | nil => cases taken
  | cons n rest =>
    obtain ⟨word, found, same⟩ := Option.map_eq_some_iff.mp taken
    cases same
    exact isWordName_of_word clean.1 found

theorem bodyOf_clean {ns : List Node} (clean : AreClean ns) : AreClean (bodyOf ns) := by
  unfold bodyOf
  split
  · rename_i opening inner closing last
    have held := (areClean_iff ns).mp clean _ (List.mem_of_getLast? last)
    split
    · exact held
    · trivial
  · trivial

theorem namespaceParts_clean {ns body : List Node} {name : String} (clean : AreClean ns)
    (h : namespaceParts ns = (name, some body)) : AreClean body := by
  unfold namespaceParts at h
  split at h
  · rename_i opening inner closing last
    obtain rfl := Option.some.inj (Prod.mk.inj h).2
    exact (areClean_iff ns).mp clean _ (List.mem_of_getLast? last)
  · exact absurd (Prod.mk.inj h).2 (Option.some_ne_none body).symm

theorem delegateHeader_named {attributes : List AttributeText} {modifiers : List String}
    {ns : List Node} (clean : AreClean ns) {header : TypeHeader}
    (h : delegateHeader attributes modifiers ns = some header) : IsWordName header.name := by
  obtain ⟨rest, skipped, declared⟩ := Option.bind_eq_some_iff.mp h
  have inside := (skipType_suffix skipped).trans (takeModifiers_suffix ns)
  exact typeHeader_named (clean.of_subset inside.subset) declared

def Item.IsClean : Item → Prop
  | .namespaceBlock _ body => AreClean body
  | .namespaceLine _ => True
  | .assembly _ => True
  | .type header body => IsWordName header.name ∧ AreClean body
  | .group bodies => BodiesClean bodies
  | .members declarations => Declaration.AreNamed declarations

theorem memberOf_named (modifiers : List String) (ns : List Node) :
    Declaration.AreNamed (memberOf modifiers ns) := by
  unfold memberOf
  split
  · trivial
  · split
    · trivial
    · split <;> split <;> trivial

theorem itemOf_clean {ns : List Node} (clean : AreClean ns) : (itemOf ns).IsClean := by
  unfold itemOf
  split
  · exact clean.1
  · split <;> trivial
  · have modifiers := takeModifiers_suffix (takeAttributes ns).2
    have inside := modifiers.trans (takeAttributes_suffix ns)
    simp only
    generalize (takeModifiers (takeAttributes ns).2).2 = rest at inside
    have restClean := clean.of_subset inside.subset
    split
    · trivial
    · rename_i n after
      have afterClean : AreClean after := restClean.2
      split
      · split
        · rename_i name body parts
          exact namespaceParts_clean afterClean parts
        · trivial
      · split
        · rename_i kind named keyword
          have namedClean := restClean.of_subset (typeKeyword_suffix keyword).subset
          split
          · rename_i header declared
            refine ⟨typeHeader_named namedClean declared, ?_⟩
            split
            · trivial
            · exact bodyOf_clean namedClean
          · trivial
        · split
          · split
            · rename_i header declared
              exact ⟨delegateHeader_named afterClean declared, trivial⟩
            · trivial
          · exact memberOf_named _ _

mutual

theorem declarations_named (fuel : Nat) {ns : List Node} (clean : AreClean ns) :
    Declaration.AreNamed (declarations fuel ns) := by
  cases fuel with
  | zero => trivial
  | succ fuel =>
    rw [declarations, Declaration.areNamed_iff]
    intro d held
    obtain ⟨item, among, read⟩ := List.mem_flatMap.mp held
    have itemNodes : AreClean item := by
      apply clean.of_subset
      intro n inside
      rcases items_mem among n inside with none | here
      · cases none
      · exact here
    have itemClean := itemOf_clean itemNodes
    revert itemClean read
    cases itemOf item with
    | namespaceBlock name body =>
      intro read bodyClean
      rw [List.mem_singleton.mp read]
      exact declarations_named fuel bodyClean
    | namespaceLine name =>
      intro read _
      rw [List.mem_singleton.mp read]
      trivial
    | assembly attributes =>
      intro read _
      rw [List.mem_singleton.mp read]
      trivial
    | type header body =>
      intro read typeClean
      rw [List.mem_singleton.mp read]
      exact ⟨typeClean.1, declarations_named fuel typeClean.2⟩
    | group bodies =>
      intro read bodiesClean
      rw [List.mem_singleton.mp read]
      exact groupOf_named fuel bodiesClean
    | members found =>
      intro read named
      exact (Declaration.areNamed_iff found).mp named d read

theorem groupOf_named (fuel : Nat) {bodies : List (List Node)} (clean : BodiesClean bodies) :
    (groupOf fuel bodies).IsNamed := by
  cases fuel with
  | zero => trivial
  | succ fuel =>
    match bodies, clean with
    | [], _ => trivial
    | [body], clean => exact declarations_named fuel clean.1
    | body :: next :: more, clean =>
      have first := declarations_named fuel clean.1
      have others := groupOf_named fuel clean.2
      rw [groupOf, Declaration.IsNamed, Declaration.areNamed_iff]
      · intro d held
        rcases List.mem_append.mp held with here | later
        · exact (Declaration.areNamed_iff _).mp first d here
        · rw [List.mem_singleton.mp later]
          exact others
      · nofun

end

theorem read_named (text : String) : ∀ d ∈ read text, d.IsNamed := by
  have clean := Node.ofTokens_clean (Token.scan_clean text.toList)
  unfold read
  dsimp only
  generalize Node.ofTokens (Token.scan text.toList) = nodes at clean ⊢
  generalize 2 * (Token.scan text.toList).length + 2 = fuel
  exact (Declaration.areNamed_iff _).mp (declarations_named fuel clean)

end Reader

end HiddenNames.CSharp
