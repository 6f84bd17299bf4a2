/-
Files by name, reading them as text, and writing them.

A text file is UTF-8; every line break in it, whether a line feed, a carriage return or both in this order, is read as a
line feed. The names of files are paths without parts that go up, and the folders are those that hold a file. Of what lies
outside the directory nothing is known but the folders above it.
-/
import LetScript.Path

namespace LetScript

/-- the files of a directory, with their contents -/
abbrev Directory := List (String × ByteArray)

namespace Directory

/-- the contents of a file -/
def get? (name : String) : Directory → Option ByteArray
  | [] => none
  | (file, contents) :: rest => if file = name then some contents else get? name rest

/-- puts a file, in the place of an earlier one of the same name -/
def put (name : String) (contents : ByteArray) : Directory → Directory
  | [] => [(name, contents)]
  | (file, old) :: rest => if file = name then (file, contents) :: rest else (file, old) :: put name contents rest

/-! ## Finding -/

/-- what a path leads to -/
inductive Place where
  | file (name : String)
  /-- no file, but a folder it could be put in -/
  | vacant (name : String)
  | folder
  | nowhere
  /-- a part is longer than names can be -/
  | tooLong
  deriving DecidableEq

/-- the name of the place that is reached by the given parts, last first -/
def nameOf (here : List String) : String := "/".intercalate here.reverse

/-- whether the place reached by the given parts, last first, is a folder -/
def isFolder (here : List String) (directory : Directory) : Bool :=
  here.isEmpty || directory.any fun file => (nameOf here ++ "/").toList.isPrefixOf file.1.toList

/-- what stands at the place reached by the given parts, last first -/
def placeAt (here : List String) (directory : Directory) : Place :=
  if directory.isFolder here then .folder
  else
    match directory.get? (nameOf here) with
    | some _ => .file (nameOf here)
    | none => .vacant (nameOf here)

/-- what parts lead to from a folder outside the directory -/
def walkOutside : List String → Place
  | [] => .folder
  | part :: rest =>
    if part = ".." then walkOutside rest else if Path.isTooLong part then .tooLong else .nowhere

/-- what parts lead to from the place reached by `here`, last first. Only a folder leads on. -/
def walk (directory : Directory) : List String → List String → Place
  | here, [] => directory.placeAt here
  | here, part :: rest =>
    if !directory.isFolder here then .nowhere
    else if part = ".." then
      match here with
      | [] => walkOutside rest
      | _ :: above => walk directory above rest
    else if Path.isTooLong part then .tooLong
    else walk directory (part :: here) rest

/-- what a path leads to; a file that is listed under the path as it stands is found at once -/
def find (path : Path) (directory : Directory) : Place :=
  if !path.isUsable then .nowhere
  else if Path.lengthLimit ≤ path.text.utf8ByteSize then .tooLong
  else
    match directory.get? path.text with
    | some _ => .file path.text
    | none => if path.root.isEmpty then walk directory [] path.parts else walkOutside path.parts

/-! ## Reading and writing -/

/-- why a file is not read or written -/
inductive FileError where
  | missing
  | notText
  /-- there is a folder of that name -/
  | isFolder
  | nameTooLong
  deriving DecidableEq

/-- a text with every line break as a line feed -/
def unifyBreaks : List Char → List Char
  | [] => []
  | '\r' :: '\n' :: rest => '\n' :: unifyBreaks rest
  | '\r' :: rest => '\n' :: unifyBreaks rest
  | c :: rest => c :: unifyBreaks rest

/-- the text in the contents of a file -/
def decode (contents : ByteArray) : Except FileError String :=
  match String.fromUTF8? contents with
  | some text => .ok (String.ofList (unifyBreaks text.toList))
  | none => .error .notText

/-- reads a text file -/
def readText (path : Path) (directory : Directory) : Except FileError String :=
  match directory.find path with
  | .file name =>
    match directory.get? name with
    | some contents => decode contents
    | none => .error .missing
  | .vacant _ => .error .missing
  | .nowhere => .error .missing
  | .folder => .error .isFolder
  | .tooLong => .error .nameTooLong

/-- writes a text file -/
def writeText (path : Path) (text : String) (directory : Directory) : Except FileError Directory :=
  match directory.find path with
  | .file name => .ok (directory.put name text.toUTF8)
  | .vacant name => .ok (directory.put name text.toUTF8)
  | .nowhere => .error .missing
  | .folder => .error .isFolder
  | .tooLong => .error .nameTooLong

/-- the files that are new or have other contents than before, in the order of their names -/
def changedSince (directory before : Directory) : Directory :=
  (directory.filter fun file => before.get? file.1 != some file.2).mergeSort fun a b => a.1 < b.1 || a.1 = b.1

end Directory

end LetScript
