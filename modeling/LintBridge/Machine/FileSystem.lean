import LintBridge.Path.Basic
/-!
A file system: a tree of named entries without links. A path is looked up step by step from the root
or from a working directory; every directory on the way must exist, and the process must be allowed to
search it. Permissions are known for directories alone: what may be found may be read and written.
-/
namespace LintBridge

abbrev Location := List String

inductive FileContent where
  | text (text : String)
  | binary
deriving DecidableEq

def FileContent.ofBytes (bytes : ByteArray) : FileContent :=
  match String.fromUTF8? bytes with
  | some content => text content
  | none => binary

inductive Entry where
  | directory
  | file (content : FileContent)
  | program
deriving DecidableEq

inductive SystemError where
  | notFound
  | denied
  | notDirectory
  | isDirectory
  | notText
deriving DecidableEq

def SystemError.message : SystemError → String
  | notFound => "No such file or directory (os error 2)"
  | denied => "Permission denied (os error 13)"
  | notDirectory => "Not a directory (os error 20)"
  | isDirectory => "Is a directory (os error 21)"
  | notText => "stream did not contain valid UTF-8"

structure FileSystem where
  entries : List (Location × Entry)
  /-- The directories that the process may neither search nor enter. -/
  locked : List Location

namespace FileSystem

def entry? (fs : FileSystem) (place : Location) : Option Entry :=
  if place.isEmpty then some .directory else fs.entries.lookup place

def put (fs : FileSystem) (place : Location) (entry : Entry) : FileSystem :=
  let entries :=
    if (fs.entries.lookup place).isSome then
      fs.entries.map fun e => if e.1 = place then (place, entry) else e
    else (place, entry) :: fs.entries
  { fs with entries := entries }

/-- Makes directories of all places on the way to a place and of the place itself, where nothing is
yet. -/
def makeDirectories (fs : FileSystem) (place : Location) : FileSystem :=
  (List.range (place.length + 1)).foldl (fun fs n =>
    if (fs.entry? (place.take n)).isSome then fs else fs.put (place.take n) .directory) fs

def putDeep (fs : FileSystem) (place : Location) (entry : Entry) : FileSystem :=
  (fs.makeDirectories place.dropLast).put place entry

def remove (fs : FileSystem) (place : Location) : FileSystem :=
  { fs with entries := fs.entries.filter fun e => !place.isPrefixOf e.1 }

/-- Walks the pieces of a path from a place. Between two slashes nothing is looked up, so that an empty
piece only needs a directory; every other piece, dots included, is searched for. -/
def walk (fs : FileSystem) : Location → List (List Char) → Except SystemError Location
  | place, [] => .ok place
  | place, piece :: rest =>
    match fs.entry? place with
    | none => .error .notFound
    | some .directory =>
      if piece ≠ [] ∧ place ∈ fs.locked then .error .denied
      else if Path.isIdle piece then walk fs place rest
      else if piece = ['.', '.'] then walk fs place.dropLast rest
      else
        let next := place ++ [String.ofList piece]
        if (fs.entry? next).isSome then walk fs next rest else .error .notFound
    | some _ => .error .notDirectory

def locate (fs : FileSystem) (workingDirectory : Option Location) (p : Path) :
    Except SystemError Location :=
  if p.text.isEmpty then .error .notFound
  else if p.isAbsolute then fs.walk [] (Text.pieces '/' p.text.toList)
  else match workingDirectory with
    | none => .error .notFound
    | some place => fs.walk place (Text.pieces '/' p.text.toList)

end FileSystem

def Path.place (p : Path) : Location :=
  p.components.foldl (fun place c => match c with
    | .name text => place ++ [text]
    | .parent => place.dropLast
    | _ => place) []

def Location.path (place : Location) : Path := ⟨"/" ++ String.intercalate "/" place⟩

end LintBridge
