import HiddenNames.Marker.Attribute

/-!
The grammar of attributes, apart from any reader. A terminal takes the longest of its words that
stands behind blanks, and a phrase takes what its parts take one after the other. Along with the
text that it takes, a phrase has the part of an attribute that it stands for.
-/

namespace HiddenNames.Marker

inductive Terminal where
  | ident
  | regular
  | verbatim
  | literal (text : String)

/-- What may stand in a regular string: a backslash only with the character behind it, which is no
line feed, and a quote only behind a backslash. -/
inductive Escaped : List Char → Prop
  | nil : Escaped []
  | plain {c : Char} {cs : List Char} : c ≠ '"' → c ≠ '\\' → Escaped cs → Escaped (c :: cs)
  | pair {c : Char} {cs : List Char} : c ≠ '\n' → Escaped cs → Escaped ('\\' :: c :: cs)

inductive Doubled : List Char → Prop
  | nil : Doubled []
  | plain {c : Char} {cs : List Char} : c ≠ '"' → Doubled cs → Doubled (c :: cs)
  | pair {cs : List Char} : Doubled cs → Doubled ('"' :: '"' :: cs)

def Terminal.Spells : Terminal → List Char → Prop
  | .ident, word => ∃ mark c name, (mark = [] ∨ mark = ['@']) ∧ word = mark ++ c :: name ∧
      Token.isNameStart c = true ∧ ∀ d ∈ name, Token.isNamePart d = true
  | .regular, word => ∃ raw, Escaped raw ∧ word = '"' :: raw ++ ['"']
  | .verbatim, word => ∃ raw, Doubled raw ∧ word = '@' :: '"' :: raw ++ ['"']
  | .literal text, word => word = text.toList

structure Longest (words : List Char → Prop) (cs word rest : List Char) : Prop where
  front : cs = word ++ rest
  spelled : words word
  longest : ∀ other more, cs = other ++ more → words other → other.length ≤ word.length

/-- The terminal takes a word, with the blanks in front of it, and leaves the rest. -/
def Takes (terminal : Terminal) (word cs rest : List Char) : Prop :=
  ∃ blanks body, (∀ c ∈ blanks, Token.isSpace c = true) ∧ cs = blanks ++ body ∧
    Longest terminal.Spells body word rest

def named (word : List Char) : String := nameOf (String.ofList word)

inductive Phrase where
  | alias? (alias? : Option String)
  | parts (parts : List String)
  | dotted (name : DottedName)
  | ref (ref : TypeRef)
  | segments (segments : List TypeSegment)
  | refs (refs : List TypeRef)
  | commas (count : Nat)
  | typeArguments (arguments : List (Option TypeRef))
  | value (value : Value)
  | argument (argument : Argument)
  | arguments (arguments : List Argument)
  | argumentList (arguments : List Argument)
  | whole (attr : Attribute)

/-- What the phrases of the grammar take from the front of a text. -/
inductive Derives : Phrase → List Char → List Char → Prop
  -- `alias?`, where `alias: name "::"`
  | noAlias {s : List Char} : Derives (.alias? none) s s
  | inFront {w w' s t u : List Char} : Takes .ident w s t → Takes (.literal "::") w' t u →
      Derives (.alias? (some (named w))) s u
  -- `name ("." name)*`
  | lastPart {w s t : List Char} : Takes .ident w s t → Derives (.parts [named w]) s t
  | part {w w' s t u v : List Char} {parts : List String} : Takes .ident w s t →
      Takes (.literal ".") w' t u → Derives (.parts parts) u v →
        Derives (.parts (named w :: parts)) s v
  -- `attribute_name` and `constant: alias? name ("." name)*`
  | dotted {alias? : Option String} {parts : List String} {s t u : List Char} :
      Derives (.alias? alias?) s t → Derives (.parts parts) t u →
        Derives (.dotted ⟨alias?, parts⟩) s u
  -- `type_ref: alias? segment ("." segment)*`, where `segment: name type_arguments?`
  | ref {alias? : Option String} {segments : List TypeSegment} {s t u : List Char} :
      Derives (.alias? alias?) s t → Derives (.segments segments) t u →
      Derives (.ref (.mk alias? segments)) s u
  | lastSegment {w s t u : List Char} {arguments : List (Option TypeRef)} : Takes .ident w s t →
      Derives (.typeArguments arguments) t u → Derives (.segments [.mk (named w) arguments]) s u
  | segment {w w' s t u v x : List Char} {arguments : List (Option TypeRef)}
      {segments : List TypeSegment} : Takes .ident w s t → Derives (.typeArguments arguments) t u →
      Takes (.literal ".") w' u v → Derives (.segments segments) v x →
      Derives (.segments (.mk (named w) arguments :: segments)) s x
  -- `type_ref ("," type_ref)*`
  | lastRef {ref : TypeRef} {s t : List Char} : Derives (.ref ref) s t → Derives (.refs [ref]) s t
  | moreRefs {ref : TypeRef} {refs : List TypeRef} {w s t u v : List Char} :
      Derives (.ref ref) s t →
      Takes (.literal ",") w t u → Derives (.refs refs) u v → Derives (.refs (ref :: refs)) s v
  -- `comma*`
  | noComma {s : List Char} : Derives (.commas 0) s s
  | comma {w s t u : List Char} {count : Nat} : Takes (.literal ",") w s t →
      Derives (.commas count) t u → Derives (.commas (count + 1)) s u
  -- `type_arguments?`, bound or unbound
  | noTypeArguments {s : List Char} : Derives (.typeArguments []) s s
  | bound {w w' s t u v : List Char} {refs : List TypeRef} : Takes (.literal "<") w s t →
      Derives (.refs refs) t u → Takes (.literal ">") w' u v →
      Derives (.typeArguments (refs.map some)) s v
  | unbound {w w' s t u v : List Char} {count : Nat} : Takes (.literal "<") w s t →
      Derives (.commas count) t u → Takes (.literal ">") w' u v →
      Derives (.typeArguments (List.replicate (count + 1) none)) s v
  -- `value: typeof | string | constant`
  | typeOf {w w' w'' s t u v x : List Char} {ref : TypeRef} : Takes (.literal "typeof") w s t →
      Takes (.literal "(") w' t u → Derives (.ref ref) u v → Takes (.literal ")") w'' v x →
      Derives (.value (.typeOf ref)) s x
  | regular {raw s t : List Char} : Takes .regular ('"' :: raw ++ ['"']) s t →
      Derives (.value (.regular raw)) s t
  | verbatim {raw s t : List Char} : Takes .verbatim ('@' :: '"' :: raw ++ ['"']) s t →
      Derives (.value (.verbatim raw)) s t
  | constant {name : DottedName} {s t : List Char} : Derives (.dotted name) s t →
      Derives (.value (.constant name)) s t
  -- `argument: argument_name? value`, where `argument_name: name ":"`
  | positional {value : Value} {s t : List Char} : Derives (.value value) s t →
      Derives (.argument ⟨none, value⟩) s t
  | named {w w' s t u v : List Char} {value : Value} : Takes .ident w s t →
      Takes (.literal ":") w' t u → Derives (.value value) u v →
      Derives (.argument ⟨some (named w), value⟩) s v
  -- `argument ("," argument)*`
  | lastArgument {argument : Argument} {s t : List Char} : Derives (.argument argument) s t →
      Derives (.arguments [argument]) s t
  | moreArguments {argument : Argument} {arguments : List Argument} {w s t u v : List Char} :
      Derives (.argument argument) s t → Takes (.literal ",") w t u →
      Derives (.arguments arguments) u v → Derives (.arguments (argument :: arguments)) s v
  -- `arguments?`, with or without anything between the parentheses
  | noList {s : List Char} : Derives (.argumentList []) s s
  | emptyList {w w' s t u : List Char} : Takes (.literal "(") w s t → Takes (.literal ")") w' t u →
      Derives (.argumentList []) s u
  | list {w w' s t u v : List Char} {arguments : List Argument} : Takes (.literal "(") w s t →
      Derives (.arguments arguments) t u → Takes (.literal ")") w' u v →
      Derives (.argumentList arguments) s v
  -- `attribute: attribute_name type_arguments? arguments?`
  | whole {name : DottedName} {typeArguments : List (Option TypeRef)}
      {arguments : List Argument} {s t u v : List Char} : Derives (.dotted name) s t →
      Derives (.typeArguments typeArguments) t u → Derives (.argumentList arguments) u v →
      Derives (.whole ⟨name, typeArguments, arguments⟩) s v

def Attribute.IsWritten (attr : Attribute) (text : String) : Prop :=
  ∃ rest, Derives (.whole attr) text.toList rest ∧ ∀ c ∈ rest, Token.isSpace c = true

end HiddenNames.Marker
