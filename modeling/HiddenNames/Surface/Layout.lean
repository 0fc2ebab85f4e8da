import HiddenNames.Surface.Unit

/-!
The text of a generated file, and of the file that declares the marker type and the attributes which
ask for surfaces.
-/

namespace HiddenNames

def markupSafe (s : String) : String :=
  String.join (s.toList.map fun c =>
    if c = '&' then "&amp;"
    else if c = '<' then "&lt;"
    else if c = '>' then "&gt;"
    else if c = '\'' then "&#39;"
    else if c = '"' then "&#34;"
    else c.toString)

def joinLines (lines : List String) : String := "\n".intercalate lines

def summaryLines (margin text : String) : List String :=
  [margin ++ "/// <summary>", margin ++ "/// " ++ text, margin ++ "/// </summary>"]

def stubText : List StubLevel → String
  | [] => ""
  | level :: inner =>
    joinLines
      (summaryLines ""
          ("This type was auto-generated for referencing non-accessible type within nameof " ++
            "expressions.")
        ++ ["internal " ++ (if level.isSealed then "sealed " else "") ++ level.keyword ++ " " ++
              level.name ++ level.parameters,
            "\x7b"]
        ++ (if level.hasConstructor then ["    private " ++ level.name ++ "() \x7b \x7d"] else [])
        ++ (if inner.isEmpty then [] else [Text.indent 4 (stubText inner)])
        ++ ["\x7d"])

def Accessor.line (modifiers : String) (a : Accessor) : String :=
  "        " ++ modifiers ++ "string " ++ a.identifier ++ " => " ++ a.value ++ ";"

def Forward.line (modifiers : String) (f : Forward) : String :=
  "        " ++ modifiers ++ f.container ++ " " ++ f.identifier ++ " => new " ++
    f.container ++ "();"

def ContainerView.lines (c : ContainerView) : List String :=
  summaryLines "    "
      ("Auto-generated names of the non-accessible members of nested type " ++
        markupSafe c.summary ++ ".")
    ++ ["    public readonly struct " ++ c.name, "    \x7b"]
    ++ c.accessors.map (Accessor.line "public ")
    ++ c.forwards.map (Forward.line "public ")
    ++ ["        public override string ToString() => " ++ c.display ++ ";", "    \x7d"]

namespace UnitView

def wrapperLines (u : UnitView) : List String :=
  summaryLines ""
      ("Auto-generated names of the non-accessible members of " ++ markupSafe u.display ++ ".")
    ++ [u.visibility.text ++ " static class " ++ u.wrapper, "\x7b",
        "    extension" ++ u.parameters ++ "(global::Nameof.nameof<" ++ u.target ++ ">)" ++
          u.constraints,
        "    \x7b"]
    ++ u.accessors.map (Accessor.line "public static ")
    ++ u.forwards.map (Forward.line "public static ")
    ++ ["    \x7d"]
    ++ u.containers.flatMap ContainerView.lines
    ++ ["\x7d"]

def body (u : UnitView) : String :=
  joinLines ((if u.stub.isEmpty then [] else [stubText u.stub, ""]) ++ u.wrapperLines)

def text (u : UnitView) : String :=
  "// <auto-generated/>\n#nullable enable\n\n" ++
    match namedSpace u.space? with
    | some space =>
      "namespace " ++ space ++ "\n\x7b\n" ++ Text.indent 4 u.body ++ "\n\x7d\n"
    | none => u.body ++ "\n"

end UnitView

def Resolved.render (r : Resolved) (access : Access := .pub) (exposure : Exposure := .chain)
    (identity? : Option String := none) : Option String :=
  (r.unit access exposure identity?).map UnitView.text

end HiddenNames
