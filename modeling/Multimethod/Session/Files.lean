import Multimethod.Value.Error

/-!
# Files

The files that a program can read. Paths are taken apart at their slashes; relative ones start at
the working directory. Whatever stands before a slash in the path of a file is a directory. The
null device exists and is empty; no other file has an absolute path outside the working directory.
-/

namespace Multimethod

abbrev PathParts := List (List Char)

/-- The parts of a path between its slashes, without empty ones and those that stay in place. -/
def pathParts (path : String) : PathParts :=
  (path.toList.splitOn '/').filter fun part => !part.isEmpty && part ≠ ['.']

/-- Does the path start at the root? -/
def isAbsolutePath (path : String) : Bool := path.toList.head? = some '/'

/-- A path taken from a directory, unless it starts at the root. -/
def joinPath (directory path : String) : String :=
  if isAbsolutePath path then path
  else if directory.isEmpty || directory.toList.getLast? = some '/' then directory ++ path
  else directory ++ "/" ++ path

/-- A path, its characters last one first, without slashes and parts that stay in place at its end.
The slash of the root and a dot that is the whole path remain. -/
def trimReversed : List Char → List Char
  | '/' :: rest =>
    match trimReversed rest with
    | [] => ['/']
    | trimmed => trimmed
  | '.' :: '/' :: rest =>
    match trimReversed rest with
    | [] => ['/']
    | trimmed => trimmed
  | cs => cs

/-- The path of the directory that holds what a path stands for; there is none of the root. -/
def parentPath? (path : String) : Option String :=
  match trimReversed path.toList.reverse with
  | [] | ['/'] => none
  | cs => some (String.ofList (trimReversed (cs.dropWhile (· ≠ '/'))).reverse)

/-- What is kept under a path. -/
inductive FileEntry where
  | text (contents : String)
  /-- Bytes that are no text. -/
  | binary
  | directory
  deriving DecidableEq, Repr

/-- The entry of a file that holds these bytes. -/
def FileEntry.ofBytes (bytes : ByteArray) : FileEntry :=
  match String.fromUTF8? bytes with
  | some contents => .text contents
  | none => .binary

structure Files where
  /-- The absolute path of the working directory. -/
  base : String := ""
  /-- Files and directories by the parts of their absolute paths. -/
  entries : List (PathParts × FileEntry) := []
  deriving Repr

namespace Files

def nullDevice : PathParts := ["dev".toList, "null".toList]

/-- The parts of the absolute path that a path stands for. A path that spells out the working
directory does not start there once more. -/
def place (files : Files) (path : String) : PathParts :=
  let here := files.base ++ "/"
  if here.toList.isPrefixOf path.toList then
    pathParts files.base ++ pathParts (String.ofList (path.toList.drop here.length))
  else if isAbsolutePath path then pathParts path
  else pathParts files.base ++ pathParts path

def add (files : Files) (path : String) (entry : FileEntry) : Files :=
  { files with entries := files.entries ++ [(files.place path, entry)] }

def entryAt? (files : Files) (parts : PathParts) : Option FileEntry :=
  match files.entries.find? (·.1 = parts) with
  | some (_, entry) => some entry
  | none =>
    if parts = nullDevice then some (.text "")
    else if (nullDevice :: pathParts files.base :: files.entries.map (·.1)).any parts.isPrefixOf then
      some .directory
    else none

/-- The place that parts lead to from `place`, the parts of which stand last one first. A step up
needs a directory to leave; the root is above itself. -/
def walkFrom? (files : Files) : (place : PathParts) → PathParts → Option PathParts
  | place, [] => some place.reverse
  | place, part :: rest =>
    if part = ['.', '.'] then
      if files.entryAt? place.reverse = some .directory then walkFrom? files place.tail rest else none
    else walkFrom? files (part :: place) rest

/-- What is found under a path. -/
def find? (files : Files) (path : String) : Option FileEntry :=
  if path.isEmpty then none
  else
    let parts := files.place path
    match files.entryAt? parts with
    | some entry => some entry
    | none => (files.walkFrom? [] parts).bind files.entryAt?

/-- Is there a file under the path, and not a directory? -/
def isFile (files : Files) (path : String) : Bool :=
  match files.find? path with
  | some (.text _) | some .binary => true
  | _ => false

def read (files : Files) (path : String) : Except FileProblem String :=
  match files.find? path with
  | some (.text contents) => .ok contents
  | some .binary => .error .notText
  | some .directory => .error .isDirectory
  | none => .error .notFound

end Files

end Multimethod
