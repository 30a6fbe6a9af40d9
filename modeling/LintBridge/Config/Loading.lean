import LintBridge.Config.Text
import LintBridge.Config.Layering
import LintBridge.Machine.Basic
/-!
Configuration files and the files they build on. A file's own entries are layered over those of the
files that it extends, in the order in which it names them; a file that extends itself, directly or
through others, is an error. Paths are compared by their components.
-/
namespace LintBridge

namespace Configuration

def ofFile (m : Machine) (file : Path) : Except LintError Configuration :=
  match m.readText file with
  | .error e => .error (.configRead ("Failed to read " ++ file.text ++ ": " ++ e.message))
  | .ok content =>
    match file.extension? with
    | none => ofText .json content
    | some extension =>
      if extension = "yaml" || extension = "yml" then ofText .yaml content
      else if extension = "json" then ofText .json content
      else .error (.configRead
        ("Unsupported configuration file type '." ++ extension ++ "': " ++ file.text))

def isPathName (name : String) : Bool :=
  let chars := name.toList
  ['.', '/'].isPrefixOf chars || ['.', '.', '/'].isPrefixOf chars || (Path.mk name).isAbsolute

/-- The file that a base names by its path, as seen from a directory. A name without extension is
tried with `.json` first. -/
def baseFile (m : Machine) (dir : Path) (name : String) : Path :=
  let file : Path := ⟨dir.resolve name⟩
  if file.extension?.isNone && m.isFile (file.withExtension "json") then file.withExtension "json"
  else file

def baseFile? (m : Machine) (dir : Path) (name : String) : Option Path :=
  if isPathName name then some (baseFile m dir name) else none

def directoryOf (file : Path) : Path := file.parent?.getD ⟨""⟩

def extendedFiles (m : Machine) (dir : Path) (c : Configuration) : List Path :=
  (entries c.bases).filterMap (baseFile? m dir)

def packages (c : Configuration) : List String := (entries c.bases).filter (!isPathName ·)

def circular (file : Path) : LintError := .configRead ("Circular extends through " ++ file.text)

/-- What a file says itself: its paths made absolute, and of its bases the packages. -/
def ownPart (file : Path) (c : Configuration) : Configuration :=
  { c.resolvePaths (directoryOf file) with bases := fieldOf (packages c) }

def loadEach (load : Path → Option (Except LintError Configuration)) :
    Configuration → List Path → Option (Except LintError Configuration)
  | merged, [] => some (.ok merged)
  | merged, file :: rest =>
    match load file with
    | none => none
    | some (.error e) => some (.error e)
    | some (.ok base) => loadEach load (base.extending merged) rest

/-- Loads a file with all that it extends, unless more than `fuel` files extend each other. `chain`
holds the files that are being loaded. -/
def loadWithin (m : Machine) : Nat → List Path → Path → Option (Except LintError Configuration)
  | 0, _, _ => none
  | fuel + 1, chain, file =>
    if chain.any (Path.same file) then some (.error (circular file))
    else match ofFile m file with
      | .error e => some (.error e)
      | .ok own =>
        match loadEach (loadWithin m fuel (file :: chain)) blank
            (extendedFiles m (directoryOf file) own) with
        | none => none
        | some (.error e) => some (.error e)
        | some (.ok merged) => some (.ok ((ownPart file own).extending merged))

def readableFiles (m : Machine) : List Configuration :=
  m.files.entries.flatMap fun e =>
    match e.2 with
    | .file (.text content) =>
      [ConfigFormat.json, .yaml].filterMap fun format => (ofText format content).toOption
    | _ => []

/-- The absolute paths from which a chain of files may go on: where it starts, and the absolute names
of bases. -/
def chainOrigins (m : Machine) (start : Path) : List Path :=
  start :: (readableFiles m).flatMap fun c =>
    ((entries c.bases).map Path.mk).filter Path.isAbsolute

/-- A bound on the length of chains. A file in a chain is named by a beginning of one of the origins
and an end of the place of an entry. -/
def chainBound (m : Machine) (start : Path) : Nat :=
  let beginnings := ((chainOrigins m start).map fun p => p.components.length + 1).foldr (· + ·) 0
  let ends := (m.files.entries.map fun e => e.1.length + 1).foldr (· + ·) 1
  beginnings * ends + 2

/-- Chains of up to this length are followed without computing the bound. -/
def usualChain : Nat := 64

def load (m : Machine) (file : Path) : Except LintError Configuration :=
  match loadWithin m usualChain [] file with
  | some result => result
  | none => (loadWithin m (chainBound m file) [] file).getD (.error (circular file))

end Configuration
end LintBridge
