import HiddenNames.CSharp.Reader
import HiddenNames.Files.Disk
import HiddenNames.Source.Program

/-!
Programs from files. A folder stands for all source files below it, except those in folders of build
output and version control.
-/

namespace HiddenNames

structure UnreadableSource where
  path : Path
  deriving DecidableEq, Repr

def UnreadableSource.message (e : UnreadableSource) : String := "Cannot read " ++ e.path.text

def skippedFolders : List String := ["bin", "obj", ".git"]

namespace SourceProgram

def addSource (p : SourceProgram) (text : String) (path : String) : SourceProgram :=
  p.addDeclarations path (CSharp.Reader.read text)

def isSourcePlace (parts : List String) : Bool :=
  (parts.getLast?.getD "").endsWith ".cs" && !(parts.dropLast.any (· ∈ skippedFolders))

def filesOf (disk : Disk) (path : Path) : List Path :=
  if disk.isFolder path then
    ((disk.below path).filter isSourcePlace).mergeSort (fun a b => !decide (b < a))
      |>.map fun parts => { path with parts := path.parts ++ parts }
  else [path]

def unifyBreaks : List Char → List Char
  | [] => []
  | '\r' :: '\n' :: rest => '\n' :: unifyBreaks rest
  | c :: rest => (if c = '\r' then '\n' else c) :: unifyBreaks rest

def byteOrderMark : List UInt8 := [0xEF, 0xBB, 0xBF]

/-- The text of a file. A mark at its front is left out, also when the file ends inside of it. -/
def decodeText (content : ByteArray) : Option String :=
  let bytes := content.toList
  if bytes.length < 3 && bytes.isPrefixOf byteOrderMark then some ""
  else
    let body := if byteOrderMark.isPrefixOf bytes then bytes.drop 3 else bytes
    (String.fromUTF8? body.toByteArray).map fun text => String.ofList (unifyBreaks text.toList)

def addFiles (disk : Disk) (p : SourceProgram) : List Path → Except UnreadableSource SourceProgram
  | [] => .ok p
  | path :: rest =>
    match (disk.read? path).bind decodeText with
    | some text => addFiles disk (p.addSource text path.text) rest
    | none => .error ⟨path⟩

def ofPaths (disk : Disk) (paths : List Path) (assemblyName : String := "Program") :
    Except UnreadableSource SourceProgram :=
  addFiles disk { assemblyName } (paths.flatMap (filesOf disk))

end SourceProgram

end HiddenNames
