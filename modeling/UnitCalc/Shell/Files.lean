import UnitCalc.Shell.Text

/-! Files as the shell sees them: reading a path gives a text or says why it cannot be read. A file
tree holds the files and directories below the root by their paths, and resolves paths from the
root or from its working directory. -/

namespace UnitCalc

inductive FileFault where
  | missing
  | isDirectory
  | notDirectory
  | permissionDenied
  | nameTooLong
  | nulInName
  | notText
deriving DecidableEq, Repr

def FileFault.message : FileFault → String
  | missing => "No such file or directory (os error 2)"
  | isDirectory => "Is a directory (os error 21)"
  | notDirectory => "Not a directory (os error 20)"
  | permissionDenied => "Permission denied (os error 13)"
  | nameTooLong => "File name too long (os error 36)"
  | nulInName => "file name contained an unexpected NUL byte"
  | notText => "stream did not contain valid UTF-8"

structure Files where
  read : String → Except FileFault String
  /-- Why no file can be written at a path, if none can. -/
  writeFault? : String → Option FileFault

/-- There is a file at the path, be it readable or not. -/
def Files.isFile (files : Files) (path : String) : Bool :=
  match files.read path with
  | .ok _ | .error .permissionDenied | .error .notText => true
  | .error _ => false

/-! ### Paths -/

/-- The parts of a path between slashes. -/
def pathParts (path : String) : List String := (pieces '/' path.toList).map String.ofList

def isAbsolute (path : String) : Bool := path.toList.head? = some '/'

/-- The bytes that one part of a path may have. -/
def maxPartBytes : Nat := 255

/-- The bytes that a path may have. -/
def maxPathBytes : Nat := 4095

/-- What is wrong with a path as a text, wherever it leads. -/
def pathFault? (path : String) : Option FileFault :=
  if '\x00' ∈ path.toList then some .nulInName
  else if path = "" then some .missing
  else if maxPathBytes < path.utf8ByteSize then some .nameTooLong
  else none

/-- Parts that lead on from a directory to itself. -/
def isStay (part : String) : Bool := part = "" || part = "."

/-- Files and directories by the names on the way to them from the root. -/
structure FileTree where
  files : List (List String × String)
  directories : List (List String)
  /-- Where paths start that do not start at the root. -/
  working : List String

namespace FileTree

/-- A tree of files at paths, which count from the working directory unless they are absolute. -/
def ofList (directories : List (List String)) (working : List String)
    (entries : List (String × String)) : FileTree :=
  { files := entries.map fun (path, content) =>
      let names := (pathParts path).filter (!isStay ·)
      (if isAbsolute path then names else working ++ names, content)
    directories, working }

def file? (t : FileTree) (path : List String) : Option String := t.files.lookup path

/-- A directory is given as such, or there is something below it. -/
def isDirectory (t : FileTree) (path : List String) : Bool :=
  path.isEmpty || path.isPrefixOf t.working || t.directories.any path.isPrefixOf ||
    t.files.any fun f => path.isPrefixOf f.1 && path.length < f.1.length

/-- There is a file or a directory. -/
def isPresent (t : FileTree) (path : List String) : Bool :=
  t.isDirectory path || (t.file? path).isSome

/-- Follows the parts of a path from a directory, whose own path is given backwards. Above the root
is the root. -/
def follow (t : FileTree) (directory : List String) : List String → Except FileFault (List String)
  | [] => .ok directory
  | part :: rest =>
    if isStay part then t.follow directory rest
    else if part = ".." then t.follow directory.tail rest
    else if maxPartBytes < part.utf8ByteSize then .error .nameTooLong
    else
      let path := part :: directory
      if t.isDirectory path.reverse then t.follow path rest
      else if (t.file? path.reverse).isSome then
        if rest = [] then .ok path else .error .notDirectory
      else .error .missing

/-- The directory at which a path starts, backwards. -/
def start (t : FileTree) (path : String) : List String :=
  if isAbsolute path then [] else t.working.reverse

/-- The names on the way from the root to what a path leads to. -/
def resolve (t : FileTree) (path : String) : Except FileFault (List String) :=
  match pathFault? path with
  | some fault => .error fault
  | none => (t.follow (t.start path) (pathParts path)).map List.reverse

def read (t : FileTree) (path : String) : Except FileFault String := do
  let names ← t.resolve path
  match t.file? names with
  | some content => .ok content
  | none => .error .isDirectory

/-- The place of a file that is written at a path. All parts but the last lead to a directory that
is there; a path that ends with a slash or leads to a directory is no place for a file. -/
def place (t : FileTree) (path : String) : Except FileFault (List String) :=
  match pathFault? path with
  | some fault => .error fault
  | none =>
    let parts := (pathParts path).reverse
    match parts.dropWhile (· = "") with
    | [] => .error .isDirectory
    | name :: above => do
      let directory ← t.follow (t.start path) (above.reverse ++ ["."])
      let names := (name :: directory).reverse
      if name = "." || name = ".." || parts.head? = some "" then .error .isDirectory
      else if maxPartBytes < name.utf8ByteSize then .error .nameTooLong
      else if t.isDirectory names then .error .isDirectory
      else .ok names

def toFiles (t : FileTree) : Files where
  read := t.read
  writeFault? path :=
    match t.place path with
    | .ok _ => none
    | .error fault => some fault

end FileTree

end UnitCalc
