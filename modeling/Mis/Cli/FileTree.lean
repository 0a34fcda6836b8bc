import Mis.Cli.Path
import Mis.Table

/-!
The files that a command works on: one tree of folders and files, and the folder
in it that the command runs in. There are no links: each place holds a file of its
own. Paths are followed part by part, from the root if they start with a slash and
from the working folder otherwise.
-/
namespace Mis.Cli

/-- Why a path could not be used. -/
inductive Fault where
  | notFound
  | notADirectory
  | isADirectory
  | nameTooLong
  | notText
  | other (text : String)
deriving DecidableEq, Repr

def Fault.message : Fault → String
  | .notFound => "No such file or directory (os error 2)"
  | .notADirectory => "Not a directory (os error 20)"
  | .isADirectory => "Is a directory (os error 21)"
  | .nameTooLong => "File name too long (os error 36)"
  | .notText => "stream did not contain valid UTF-8"
  | .other text => text

/-- The most bytes that one name in a path may have. -/
def maxNameBytes : Nat := 255

/-- The most bytes that a whole path may have. -/
def maxPathBytes : Nat := 4095

/-- A place in the tree: the names on the way to it from the root. -/
abbrev Place := List String

/-- The working folder and the folders above it always exist, listed or not. -/
structure FileTree where
  folders : List Place
  files : Table Place ByteArray
  working : Place

/-- What stands at the end of a path. -/
inductive Entry where
  | folder (place : Place)
  | file (place : Place)
  | missing (place : Place)

/-- Where writing can fail although there is a place for the file. -/
structure Disk where
  /-- Why the file at a place cannot be opened, if it cannot. -/
  opening : FileTree → Place → Option Fault
  /-- How many bytes are written when writing breaks off, and why, if it does. -/
  writing : FileTree → Place → ByteArray → Option (Nat × Fault)

/-- A disk that takes all that is written to it. -/
def Disk.sound : Disk where
  opening _ _ := none
  writing _ _ _ := none

namespace FileTree

def isFolder (t : FileTree) (place : Place) : Bool :=
  place.isPrefixOf t.working || place ∈ t.folders

def entryAt (t : FileTree) (place : Place) : Entry :=
  if t.isFolder place then .folder place
  else if (t.files.get? place).isSome then .file place
  else .missing place

/-- What a folder holds under a name. A name that is too long is refused before
it is looked for. -/
def lookup (t : FileTree) (place : Place) (name : String) : Except Fault Entry :=
  if maxNameBytes < name.utf8ByteSize then .error .nameTooLong
  else .ok (t.entryAt (place ++ [name]))

/-- One part of a path further. Only folders have parts, and the root is above itself. -/
def step (t : FileTree) : Entry → String → Except Fault Entry
  | .folder place, part =>
    if part = "" || part = "." then .ok (.folder place)
    else if part = ".." then .ok (.folder place.dropLast)
    else t.lookup place part
  | .file _, _ => .error .notADirectory
  | .missing _, _ => .error .notFound

/-- Where a path starts. A path that is empty or too long leads nowhere. -/
def start (t : FileTree) (path : String) : Except Fault Entry :=
  if path.isEmpty then .error .notFound
  else if maxPathBytes < path.utf8ByteSize then .error .nameTooLong
  else .ok (.folder (if path.startsWith "/" then [] else t.working))

def find (t : FileTree) (path : String) : Except Fault Entry := do
  let entry ← t.start path
  (pathParts path).foldlM t.step entry

def read (t : FileTree) (path : String) : Except Fault ByteArray := do
  match ← t.find path with
  | .folder _ => .error .isADirectory
  | .missing _ => .error .notFound
  | .file place =>
    match t.files.get? place with
    | some bytes => .ok bytes
    | none => .error .notFound

/-- The place of the file that writing to `path` makes or replaces. A path that
can only mean a folder is refused before its last name is looked for. -/
def target (t : FileTree) (path : String) : Except Fault Place := do
  let entry ← t.start path
  let parts := pathParts path
  let named := (parts.reverse.dropWhile (· = "")).reverse
  match named.getLast? with
  | none => .error .isADirectory
  | some name =>
    match ← named.dropLast.foldlM t.step entry with
    | .file _ => .error .notADirectory
    | .missing _ => .error .notFound
    | .folder place =>
      if named.length < parts.length || name = "." || name = ".." then .error .isADirectory
      else
        match ← t.lookup place name with
        | .folder _ => .error .isADirectory
        | .file place | .missing place => .ok place

/-- The tree with other bytes at one place. -/
def put (t : FileTree) (place : Place) (bytes : ByteArray) : FileTree :=
  { t with files := t.files.insert place bytes }

/-- The tree after writing, with the fault if there was one. A file that is opened has lost what
it held, so where writing breaks off only the bytes up to there are left. -/
def write (t : FileTree) (path : String) (bytes : ByteArray) (disk : Disk := .sound) :
    Except (Fault × FileTree) FileTree :=
  match t.target path with
  | .error fault => .error (fault, t)
  | .ok place =>
    match disk.opening t place with
    | some fault => .error (fault, t)
    | none =>
      match disk.writing t place bytes with
      | some (length, fault) => .error (fault, t.put place (bytes.extract 0 length))
      | none => .ok (t.put place bytes)

/-- The files below the working folder, by the names on the way from there. -/
def workingFiles (t : FileTree) : List (Place × ByteArray) :=
  t.files.entries.filterMap fun (place, bytes) =>
    if t.working.isPrefixOf place then some (place.drop t.working.length, bytes) else none

/-- The files below the working folder that are new in `after` or differ there. -/
def changes (before after : FileTree) : List (Place × ByteArray) :=
  after.workingFiles.filter fun (place, bytes) =>
    match before.files.get? (after.working ++ place) with
    | some old => old != bytes
    | none => true

end FileTree
end Mis.Cli
