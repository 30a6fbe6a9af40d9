import LintBridge.Engine.Script
import LintBridge.Engine.Basic
/-!
Engines that run under Node. The module is found by Node itself, the global directory by the package
manager, and every request starts a process of its own.
-/
namespace LintBridge

structure Node where
  program : Option Path
  searchLimit : Nat
  engineLimit : Option Nat

namespace Node

def usualSearchLimit : Nat := 5000

def ofProgram (m : Machine) (given : Option Path) : Node :=
  ⟨given.or (m.findProgram "node"), usualSearchLimit, none⟩

def printed (m : Machine) (limit : Nat) (c : Command) : Option Path × List Invocation :=
  let (result, calls) := m.run c none (some limit)
  let found := match result with
    | .ok output =>
      let text := Text.trim output.output.toList
      if output.ending.isSuccess && !text.isEmpty then some ⟨String.ofList text⟩ else none
    | .error _ => none
  (found, calls)

/-- The search path with another path in front. A path that itself holds a colon cannot be put into
it. -/
def searchVariables (m : Machine) (search : Option Path) : List (String × String) :=
  match search with
  | none => []
  | some path =>
    if path.text.toList.contains ':' then []
    else [("NODE_PATH", match m.environmentValue? "NODE_PATH" with
      | some existing => path.text ++ ":" ++ existing
      | none => path.text)]

/-- Finds the engine's module as seen from a directory, or from the working directory where there is
no such directory. -/
def resolveModule (n : Node) (m : Machine) (search : Option Path) (dir : Path) :
    Option Path × List Invocation :=
  match n.program with
  | none => (none, [])
  | some program =>
    printed m n.searchLimit
      ⟨program, ["-e", Script.resolve], if m.isDirectory dir then some dir else none,
        searchVariables m search⟩

def globalRoot (n : Node) (m : Machine) (manager : PackageManager) :
    Option Path × List Invocation :=
  match m.findProgram manager.name with
  | none => (none, [])
  | some program =>
    let (found, calls) := printed m n.searchLimit ⟨program, manager.globalRootArguments, none, []⟩
    (found.map manager.modulesDirectory, calls)

def load (n : Node) (m : Machine) (modulePath : Path) : Except LintError Unit :=
  if n.program.isNone then .error (.engineMissing "no 'node' executable on PATH")
  else if m.isFile modulePath then .ok ()
  else .error (.engineMissing modulePath.text)

def crash (modulePath : Path) (ending : Ending) : LintError :=
  .engineCrash (modulePath.text ++ " exited with " ++ ending.text)

def request (m : Machine) (program : Path) (limit : Option Nat) (script : String)
    (modulePath : Path) (dir : Option Path) (input : Json) :
    Except LintError ProcessOutput × List Invocation :=
  m.run ⟨program, ["-e", script, modulePath.text], dir, []⟩ (some input.compact) limit

def foundConfiguration (modulePath : Path) (output : ProcessOutput) :
    Except LintError DiscoveredConfiguration :=
  if output.ending = .exited Script.rejected then
    .error (.configRead (Text.trimmed output.errors))
  else if output.ending.isSuccess then
    match DiscoveredConfiguration.ofText? output.output with
    | some found => .ok found
    | none => .error (.protocol "Invalid configuration output: the text has another form")
  else .error (crash modulePath output.ending)

/-- Finding configurations with an engine's own means. Which file applies is decided here. -/
def discovery (program : Path) (limit : Option Nat) (modulePath : Path) : Discovery where
  findPath := Configuration.pathFor?
  find m given file :=
    let (result, calls) := request m program limit Script.configuration modulePath none
      (configurationRequest given file)
    (result.bind (foundConfiguration modulePath), calls)

def warningLines (errors : String) : List String :=
  ((Text.lines errors.toList).filter fun line => !(Text.trim line).isEmpty).map String.ofList

def report (modulePath : Path) (output : ProcessOutput) : Except LintError LintOutput :=
  if output.ending.isSuccess then
    match LintOutput.ofText? output.output with
    | some report => .ok report
    | none => .error (.protocol "Invalid engine output: the text has another form")
  else .error (crash modulePath output.ending)

/-- Has a module lint a file. What it writes besides its report are warnings. -/
def lint (program : Path) (limit : Option Nat) (modulePath : Path) (m : Machine)
    (r : LintRequest) : LintReply :=
  match request m program limit Script.lint modulePath r.workingDirectory r.toJson with
  | (.error e, calls) => ⟨[], .error e, calls⟩
  | (.ok output, calls) => ⟨warningLines output.errors, report modulePath output, calls⟩

def engine (n : Node) (modulePath : Path) : Engine :=
  let program := n.program.getD ⟨"node"⟩
  ⟨discovery program n.engineLimit modulePath, lint program n.engineLimit modulePath⟩

def toolchain (n : Node) : Toolchain := ⟨n.resolveModule, n.globalRoot, n.load, n.engine⟩

end Node
end LintBridge
