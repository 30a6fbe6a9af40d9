import LintBridge.Machine.FileSystem
import LintBridge.Text.Pieces
/-!
The machine that a lint pass runs on: its files, the working directory of the process, the environment
and the programs that can be run. Programs answer as functions of how they are called. A pass holds
the working directory while its engine stands in another one, and goes back to it afterwards.
-/
namespace LintBridge

structure Invocation where
  program : Path
  arguments : List String
  directory : Option Location
  environment : List (String × String)
  input : String

inductive Ending where
  | exited (code : Nat)
  | killed (signal : Nat)
deriving DecidableEq

inductive Response where
  | hangs
  | ends (output errors : List Nat) (ending : Ending)

/-- A machine. The working directory is unknown once it has been removed. -/
structure Machine where
  files : FileSystem
  workingDirectory : Option Location
  environment : List (String × String)
  respond : Invocation → Response

structure HeldDirectory where
  machine : Machine
  previous : Path

namespace Machine

def locate (m : Machine) (p : Path) : Except SystemError Location :=
  m.files.locate m.workingDirectory p

def entry? (m : Machine) (p : Path) : Option Entry :=
  match m.locate p with
  | .ok place => m.files.entry? place
  | .error _ => none

def existsAt (m : Machine) (p : Path) : Bool := (m.entry? p).isSome

def isFile (m : Machine) (p : Path) : Bool :=
  match m.entry? p with
  | some (.file _) => true
  | some .program => true
  | _ => false

def isDirectory (m : Machine) (p : Path) : Bool := m.entry? p = some .directory

def isProgram (m : Machine) (p : Path) : Bool := m.entry? p = some .program

def readText (m : Machine) (p : Path) : Except SystemError String := do
  match m.files.entry? (← m.locate p) with
  | some (.file (.text text)) => return text
  | some (.file .binary) => throw .notText
  | some .program => throw .notText
  | some .directory => throw .isDirectory
  | none => throw .notFound

def writeText (m : Machine) (p : Path) (text : String) : Except SystemError Machine :=
  let put place := { m with files := m.files.put place (.file (.text text)) }
  match m.locate p with
  | .ok place =>
    if m.files.entry? place = some .directory then .error .isDirectory else .ok (put place)
  | .error .notFound =>
    match p.parent?, p.fileName? with
    | some parent, some name =>
      let parent := if parent.text.isEmpty then ⟨"."⟩ else parent
      if m.isDirectory parent then (m.locate parent).map fun place => put (place ++ [name])
      else .error .notFound
    | _, _ => .error .notFound
  | .error e => .error e

def currentDirectory? (m : Machine) : Option Path := m.workingDirectory.map Location.path

def currentDirectory (m : Machine) : Except SystemError Path :=
  match m.currentDirectory? with
  | some p => .ok p
  | none => .error .notFound

def enter (m : Machine) (place : Location) : Except SystemError Machine :=
  if m.files.entry? place = some .directory then
    if m.files.locked.contains place then .error .denied
    else .ok { m with workingDirectory := some place }
  else .error .notDirectory

def changeDirectory (m : Machine) (p : Path) : Except SystemError Machine := do m.enter (← m.locate p)

def hold (m : Machine) (dir : Path) : Except SystemError HeldDirectory := do
  let previous ← m.currentDirectory
  return ⟨← m.changeDirectory dir, previous⟩

/-- Goes back to a directory. Where that fails the machine stays where it is. -/
def goBack (m : Machine) (previous : Path) : Machine :=
  match m.changeDirectory previous with
  | .ok m => m
  | .error _ => m

/-- Takes out what a path names, with all below it. A working directory that goes with it is unknown
from then on. -/
def remove (m : Machine) (p : Path) : Machine :=
  match m.locate p with
  | .ok place =>
    { m with
      files := m.files.remove place
      workingDirectory := m.workingDirectory.filter fun w => !place.isPrefixOf w }
  | .error _ => m

def environmentValue? (m : Machine) (name : String) : Option String := m.environment.lookup name

def home? (m : Machine) : Option Path :=
  match m.environmentValue? "HOME" with
  | some home => if home.isEmpty then none else some ⟨home⟩
  | none => none

def searchDirectories (m : Machine) : List Path :=
  match m.environmentValue? "PATH" with
  | some dirs => (Text.splitOn ':' dirs).map Path.mk
  | none => []

def expandHome (m : Machine) (dir : Path) : Path :=
  match dir.components, m.home? with
  | .name "~" :: steps, some home => steps.foldl (fun dir c => dir.child c.text) home
  | _, _ => dir

def findProgram (m : Machine) (name : String) : Option Path :=
  (m.searchDirectories.map fun dir => (m.expandHome dir).child name).find? m.isProgram

/-- A path made absolute with the working directory: repeated slashes and dots vanish, `..` stays, and
so do two slashes at the start and a slash at the end. -/
def absolute (m : Machine) (p : Path) : Except SystemError Path := do
  let steps := p.components.filter fun c => c ≠ .current && c ≠ .root
  let chars := p.text.toList
  let base ←
    if p.isAbsolute then
      pure ⟨if chars.take 2 = ['/', '/'] && chars[2]? ≠ some '/' then "//" else "/"⟩
    else m.currentDirectory
  let path := steps.foldl (fun dir c => dir.child c.text) base
  return if chars.getLast? = some '/' then path.child "" else path

end Machine
end LintBridge
