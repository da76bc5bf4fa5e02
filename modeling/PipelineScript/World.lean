import PipelineScript.Table

/-! # What a command finds around it

The library reads no disk: whoever calls it says what there is under a path. A file tree is one
way of saying so, with all files in memory. -/

namespace PipelineScript

/-- Why there is no text under a path. -/
inductive FileFault where
  | missing
  | isDirectory
  /-- The path goes on behind a file. -/
  | notDirectory
  | denied
  /-- The bytes are no UTF-8. -/
  | notText
deriving DecidableEq, Repr

namespace FileFault

def message : FileFault → String
  | missing => "No such file or directory (os error 2)"
  | isDirectory => "Is a directory (os error 21)"
  | notDirectory => "Not a directory (os error 20)"
  | denied => "Permission denied (os error 13)"
  | notText => "stream did not contain valid UTF-8"

end FileFault

abbrev FileText := Except FileFault String

/-- Whether a path leads to anything. -/
def FileText.exists_ : FileText → Bool
  | .error .missing | .error .notDirectory => false
  | _ => true

structure World where
  /-- The directory in which paths begin that are not absolute. -/
  directory : String
  /-- The variables of the process. -/
  environment : Table String
  file : String → FileText

/-! ## Paths -/

namespace Path

/-- The text between the slashes. -/
def split : List Char → List (List Char)
  | [] => [[]]
  | c :: cs =>
    match split cs with
    | [] => [[]]
    | part :: parts => if c = '/' then [] :: part :: parts else (c :: part) :: parts

def parts (path : String) : List String := (split path.toList).map String.ofList

def isAbsolute (path : String) : Bool := path.toList.head? == some '/'

def absolute (directory path : String) : String :=
  if isAbsolute path then path else directory ++ "/" ++ path

def join (directory name : String) : String :=
  if directory = "" ∨ directory.toList.getLast? = some '/' then directory ++ name
  else directory ++ "/" ++ name

def isName (part : String) : Bool := part ≠ "" && part ≠ "."

def ofNames (names : List String) : String := "/" ++ "/".intercalate names

/-- A directory and the ones that it lies in, from the inside out. -/
def ancestors (directory : String) : List String :=
  let names := (parts directory).filter isName
  (List.range (names.length + 1)).map fun n => ofNames (names.take (names.length - n))

/-- The path with an extension added to its last name, unless it ends in `..`. -/
def withExtension? (directory path extension : String) : Option String :=
  let names := (parts (absolute directory path)).filter isName
  match names.getLast? with
  | none | some ".." => none
  | some last => some (ofNames (names.dropLast ++ [last ++ "." ++ extension]))

end Path

/-! ## File trees -/

/-- Files by the names on the way from the root. The directories are those that hold a file. -/
structure FileTree where
  files : List (List String × String)
  /-- Directories that need not hold anything. -/
  directories : List (List String)

namespace FileTree

def empty : FileTree := ⟨[], [[]]⟩

def addDirectory (t : FileTree) (path : String) : FileTree :=
  { t with directories := (Path.parts path).filter Path.isName :: t.directories }

def addFile (t : FileTree) (path text : String) : FileTree :=
  { t with files := ((Path.parts path).filter Path.isName, text) :: t.files }

def isDirectory (t : FileTree) (names : List String) : Bool :=
  t.directories.any (names.isPrefixOf ·) ||
    t.files.any fun (file, _) => names.isPrefixOf file && names ≠ file

/-- What the parts of a path lead to from the directory `here`. -/
def walk (t : FileTree) (here : List String) : List String → FileText
  | [] => .error .isDirectory
  | part :: rest =>
    if !Path.isName part then walk t here rest
    else if part = ".." then walk t here.dropLast rest
    else
      let next := here ++ [part]
      match t.files.lookup next with
      | some text => if rest = [] then .ok text else .error .notDirectory
      | none => if t.isDirectory next then walk t next rest else .error .missing

/-- What is found under a path; the empty path leads nowhere. -/
def file (t : FileTree) (directory path : String) : FileText :=
  if path = "" then .error .missing else walk t [] (Path.parts (Path.absolute directory path))

end FileTree

end PipelineScript
