import LintBridge.Config.Loading
import LintBridge.Machine.Process
/-!
Finding the configuration that applies to a file. It is remembered until another file is asked for.
Rules that harm a host that runs for long are taken out on demand.
-/
namespace LintBridge

structure DiscoveredConfiguration where
  configuration : Option Configuration
  path : Option Path

structure Discovery where
  findPath : Machine → Option Path → Path → Option Path
  find : Machine → Option Path → Path →
    Except LintError DiscoveredConfiguration × List Invocation

namespace Configuration

def fileNames : List String := ["tslint.json", "tslint.yaml", "tslint.yml"]

def inDirectory? (m : Machine) (dir : Path) : Option Path :=
  (fileNames.map dir.child).find? m.isFile

/-- The configuration file for a file: the given one, or the first in the directories above the file
and in the home directory. -/
def pathFor? (m : Machine) (given : Option Path) (file : Path) : Option Path :=
  match given with
  | some path => some path
  | none => (file.parents.findSome? (inDirectory? m)).or (m.home?.bind (inDirectory? m))

/-- The configuration for a file, or the engine's own if no configuration file applies. -/
def findFor (m : Machine) (given : Option Path) (file : Path) :
    Except LintError DiscoveredConfiguration :=
  match pathFor? m given file with
  | none => .ok ⟨some recommended, none⟩
  | some path =>
    if m.isFile path then (load m path).map fun c => ⟨some c, some path⟩
    else .error (.configRead ("Could not find config file at: " ++ path.text))

end Configuration

def Discovery.inFiles : Discovery where
  findPath := Configuration.pathFor?
  find m given file := (Configuration.findFor m given file, [])

def unstableRules : List String := ["no-unused-variable"]

structure ResolvedConfiguration where
  configuration : Option Configuration
  isDefault : Bool
  path : Option Path

structure ConfigResolver where
  cache : Option (Path × ResolvedConfiguration)
  stripUnstable : Bool

inductive DiscoveryCall where
  | findPath (given : Option Path) (file : Path)
  | find (given : Option Path) (file : Path)

structure Resolution where
  answer : Except LintError ResolvedConfiguration
  resolver : ConfigResolver
  asked : List DiscoveryCall
  calls : List Invocation

namespace ConfigResolver

def new : ConfigResolver := ⟨none, true⟩

def flush (r : ConfigResolver) : ConfigResolver := { r with cache := none }

/-- Says whether unstable rules are taken out. A change makes the last answer void. -/
def setStripUnstable (r : ConfigResolver) (strip : Bool) : ConfigResolver :=
  if r.stripUnstable = strip then r else ⟨none, strip⟩

def cached? (r : ConfigResolver) (file : Path) : Option ResolvedConfiguration :=
  match r.cache with
  | some (cachedFile, resolved) => if cachedFile.same file then some resolved else none
  | none => none

def prepare (r : ConfigResolver) (c : Configuration) : Configuration :=
  if r.stripUnstable then c.removeRules unstableRules else c

/-- The configuration for a file. An answer is remembered, an error is not. -/
def resolve (r : ConfigResolver) (d : Discovery) (m : Machine) (file : Path) (given : Option Path) :
    Resolution :=
  match r.cached? file with
  | some resolved => ⟨.ok resolved, r, [], []⟩
  | none =>
    let isDefault := (d.findPath m given file).isNone
    let (found, calls) := d.find m given file
    let asked := [.findPath given file, .find given file]
    match found with
    | .error e => ⟨.error e, r, asked, calls⟩
    | .ok found =>
      let resolved := ⟨found.configuration.map r.prepare, isDefault, found.path⟩
      ⟨.ok resolved, { r with cache := some (file, resolved) }, asked, calls⟩

end ConfigResolver
end LintBridge
