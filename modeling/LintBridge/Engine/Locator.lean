import LintBridge.Engine.Basic
import LintBridge.Recent
import LintBridge.Trust
/-!
Finding the engine for a file: on the path given in the settings, in the directory of the file, and
among the modules installed for all workspaces. What was found for a file is remembered for the files
used last; global directories and loaded modules are remembered for good.
-/
namespace LintBridge

inductive LibrarySource where
  | searchPath
  | workspace
  | global
deriving DecidableEq

structure Library where
  modulePath : Path
  source : LibrarySource
deriving DecidableEq

structure LocateOptions where
  nodePath : Option Path
  packageManager : PackageManager
  allowWorkspace : Bool

def samePath? : Option Path → Option Path → Bool
  | some p, some q => p.same q
  | none, none => true
  | _, _ => false

def LocateOptions.same (a b : LocateOptions) : Bool :=
  samePath? a.nodePath b.nodePath && a.packageManager = b.packageManager
    && a.allowWorkspace = b.allowWorkspace

def locatorCapacity : Nat := 100

structure Locator where
  recent : Recent locatorCapacity (LocateOptions × Option Library)
  roots : List (PackageManager × Option Path)
  loads : List (Path × Bool)

structure Located where
  library : Option Library
  locator : Locator
  warnings : List String
  events : List Event

structure Loaded where
  engine : Option Engine
  locator : Locator
  events : List Event

def Located.after (l : Located) (warnings : List String) (events : List Event) : Located :=
  { l with warnings := warnings ++ l.warnings, events := events ++ l.events }

namespace Locator

def new : Locator := ⟨.empty, [], []⟩

def ask (t : Toolchain) (m : Machine) (search : Option Path) (dir : Path) :
    Option Path × List Event :=
  let (found, calls) := t.resolveModule m search dir
  (found, .resolved search dir :: calls.map .called)

def root (l : Locator) (t : Toolchain) (m : Machine) (manager : PackageManager) :
    Option Path × Locator × List Event :=
  match l.roots.lookup manager with
  | some known => (known, l, [])
  | none =>
    let (found, calls) := t.globalRoot m manager
    (found, { l with roots := (manager, found) :: l.roots },
      .globalRoot manager :: calls.map .called)

/-- Looks among the modules of the global directory, as seen from `dir`, or from the global directory
itself. -/
def amongGlobal (l : Locator) (t : Toolchain) (m : Machine) (manager : PackageManager)
    (dir : Option Path) : Located :=
  match l.root t m manager with
  | (none, l, events) => ⟨none, l, [], events⟩
  | (some root, l, events) =>
    let (found, asked) := ask t m (some root) (dir.getD root)
    ⟨found.map fun path => ⟨path, .global⟩, l, [], events ++ asked⟩

def fromDirectory (l : Locator) (t : Toolchain) (m : Machine) (manager : PackageManager)
    (dir : Path) : Located :=
  match ask t m none dir with
  | (some path, events) =>
    ⟨some ⟨path, if isWorkspaceModule path dir then .workspace else .global⟩, l, [], events⟩
  | (none, events) => (l.amongGlobal t m manager (some dir)).after [] events

def startOf (file : Path) : Path := file.parent?.getD ⟨"."⟩

/-- Looks for the engine of a file. A path given in the settings that does not exist is left out with
a warning. -/
def search (l : Locator) (t : Toolchain) (m : Machine) (file : Path) (o : LocateOptions) : Located :=
  if o.allowWorkspace then
    match o.nodePath with
    | none => l.fromDirectory t m o.packageManager (startOf file)
    | some path =>
      if m.existsAt path then
        match ask t m (some path) path with
        | (some found, events) => ⟨some ⟨found, .searchPath⟩, l, [], events⟩
        | (none, events) =>
          (l.amongGlobal t m o.packageManager (some (startOf file))).after [] events
      else
        (l.fromDirectory t m o.packageManager (startOf file)).after
          [(LintError.invalidNodePath path).message] []
  else l.amongGlobal t m o.packageManager none

def remembered? (l : Locator) (file : Path) (o : LocateOptions) : Option (Option Library) :=
  match l.recent.get? file with
  | some (options, library) => if options.same o then some library else none
  | none => none

def remember (l : Locator) (file : Path) (o : LocateOptions) (library : Option Library) : Locator :=
  { l with recent := l.recent.put file (o, library) }

def locate (l : Locator) (t : Toolchain) (m : Machine) (file : Path) (o : LocateOptions) : Located :=
  match l.remembered? file o with
  | some library => ⟨library, l.remember file o library, [], []⟩
  | none =>
    let found := l.search t m file o
    { found with locator := found.locator.remember file o found.library }

/-- Loads the engine of a module, once. A module keeps the name it was first loaded with. -/
def load (l : Locator) (t : Toolchain) (m : Machine) (modulePath : Path) : Loaded :=
  match l.loads.find? (·.1.same modulePath) with
  | some (path, ok) => ⟨if ok then some (t.engine path) else none, l, []⟩
  | none =>
    let ok := (t.load m modulePath).isOk
    ⟨if ok then some (t.engine modulePath) else none,
      { l with loads := (modulePath, ok) :: l.loads }, [.loaded modulePath]⟩

end Locator
end LintBridge
