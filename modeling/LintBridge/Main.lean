import LintBridge.CommandLine.Commands
/-!
The command line on the files of the disk. The files that a command may read are taken over into a
machine, the command runs there, and what it has changed is written back. Programs of the disk are not
run: no engine is found.
-/
namespace LintBridge.CommandLine

def Command.files : Command → List Path
  | lint files _ => files
  | fix files _ => files
  | config file => [file]

def configCandidates (m : Machine) (file : Path) : List Path :=
  (file.parents ++ m.home?.toList).flatMap fun dir => Configuration.fileNames.map dir.child

def baseCandidates (dir : Path) (name : String) : List Path :=
  if Configuration.isPathName name then
    let file : Path := ⟨dir.resolve name⟩
    [file, file.withExtension "json"]
  else []

def extendedCandidates (m : Machine) (file : Path) : List Path :=
  match Configuration.ofFile m file with
  | .ok c =>
    (Configuration.entries c.bases).flatMap (baseCandidates (Configuration.directoryOf file))
  | .error _ => []

def candidates (m : Machine) (a : Arguments) : List Path :=
  let files := a.command.files.filterMap fun file => (m.absolute file).toOption
  let given := match loadSettings m a.settings with
    | .ok settings => settings.configFile.toList
    | .error _ => []
  a.settings.toList ++ files ++ files.flatMap (configCandidates m) ++ given
    ++ m.files.entries.flatMap fun e => extendedCandidates m (Location.path e.1)

def variableNames : List String := ["HOME", "PATH", "NODE_PATH", Trust.variableName]

def fetch (m : Machine) (p : Path) : IO Machine := do
  let place := ((m.currentDirectory?.getD ⟨"/"⟩).join p).place
  if (m.files.entry? place).isSome then return m
  try
    let bytes ← IO.FS.readBinFile p.text
    return { m with files := m.files.putDeep place (.file (.ofBytes bytes)) }
  catch _ => return m

/-- Takes over the files that a command line may read, as long as they name further ones. -/
def fetchAll (a : Arguments) : Nat → Machine → IO Machine
  | 0, m => return m
  | rounds + 1, m => do
    let next ← (candidates m a).foldlM fetch m
    if next.files.entries.length = m.files.entries.length then return m
    fetchAll a rounds next

def writeBack (before after : Machine) (p : Path) : IO Unit :=
  match before.readText p, after.readText p with
  | .ok old, .ok new => if old = new then return () else IO.FS.writeFile p.text new
  | _, _ => return ()

def emptyMachine : IO Machine := do
  let place := (Path.mk (← IO.currentDir).toString).place
  let environment ← variableNames.filterMapM fun name => do
    return (← IO.getEnv name).map fun value => (name, value)
  return ⟨FileSystem.makeDirectories ⟨[], []⟩ place, some place, environment, fun _ => .hangs⟩

def fetchRounds : Nat := 1000

def runOnDisk (a : Arguments) : IO UInt32 := do
  let m ← fetchAll a fetchRounds (← emptyMachine)
  let report := run m a
  a.command.files.forM (writeBack m report.machine)
  IO.print report.output
  if let .error e := report.result then IO.eprintln e.message
  return UInt32.ofNat report.exitCode

def synopsis : String :=
  "Usage: [--settings FILE] [--workspace DIRECTORY] [--node PROGRAM] [--verbose] COMMAND\n"
    ++ "Commands: lint [--format text|json] FILE..., fix [--dry-run] FILE..., config FILE"

end LintBridge.CommandLine

open LintBridge.CommandLine in
def main (texts : List String) : IO UInt32 := do
  match parse texts with
  | .ok a => runOnDisk a
  | .error usage =>
    if usage.exitCode = 0 then IO.println synopsis else IO.eprintln synopsis
    return UInt32.ofNat usage.exitCode
