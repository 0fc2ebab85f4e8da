import HiddenNames.Resolution.Host
import HiddenNames.Resolution.Reader

/-!
The types of the referenced assemblies. A reference to a type is tied to the first assembly that has
a type of exactly that name; without one, to the only type of all assemblies whose name ends so.
-/

namespace HiddenNames

namespace TypeTree

mutual

/-- A type and all types inside it, each before those inside it, later siblings first. -/
def everyView (v : TypeView) : TypeTree → List TypeView
  | .node head nested =>
    let here := { v with tree := .node head nested }
    here :: everyNested { here with outer := here.chain } nested

def everyNested (inside : TypeView) : List TypeTree → List TypeView
  | [] => []
  | t :: rest => everyNested inside rest ++ everyView inside t

end

mutual

def everyError : TypeTree → Option ArityError
  | .node _ nested => (nested.findSome? fun t => t.head.nameError) <|> everyErrorIn nested

def everyErrorIn : List TypeTree → Option ArityError
  | [] => none
  | t :: rest => everyErrorIn rest <|> everyError t

end

end TypeTree

namespace References

def typesOf (records : Metadata.Records) : List TypeView :=
  records.reverse.flatMap fun (_, r) => TypeTree.everyView (r.view .metadata) r.tree

def nameError (records : Metadata.Records) : Option ArityError :=
  (records.findSome? fun (_, r) => r.tree.head.nameError) <|>
    records.reverse.findSome? fun (_, r) => r.tree.everyError

/-- The types of a reference. One that is no readable assembly has none. -/
def typesIn (content : Except ReadError Metadata.Records) : Except Mishap (List TypeView) :=
  match content with
  | .error (.arity e) => .error (.arity e)
  | .error _ => .ok []
  | .ok records =>
    match nameError records with
    | some e => .error (.arity e)
    | none => .ok (typesOf records)

abbrev Place := String × String

def placeOf (path : Path) (v : TypeView) : Place := (path.stem, v.fullName)

/-- Goes through the references. `tails` holds the types so far whose names end as written. -/
def search (disk : Disk) (decode : Decoder) (ref : TypeRef) (reader : Reader)
    (tails : List Place) : List Path → Except Mishap (Option Place) × Reader
  | [] =>
    (.ok (match tails with
      | [place] => some place
      | _ => none), reader)
  | path :: rest =>
    let (content, reader) := reader.read disk decode path
    match typesIn content with
    | .error e => (.error e, reader)
    | .ok types =>
      match matchRef TypeView.path types ref with
      | (v :: _, _) => (.ok (some (placeOf path v)), reader)
      | ([], found) => search disk decode ref reader (tails ++ found.map (placeOf path)) rest

def find (disk : Disk) (decode : Decoder) (references : List Path) (reader : Reader)
    (ref : TypeRef) : Except Mishap (Option Place) × Reader :=
  search disk decode ref reader [] references

end References

end HiddenNames
