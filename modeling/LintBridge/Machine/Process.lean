import LintBridge.Machine.Basic
import LintBridge.Text.Encoding
import LintBridge.LintError
/-!
Running programs to their end, with a limit on the time they take.
-/
namespace LintBridge

def signalNames : List (Nat × String) :=
  [(1, "SIGHUP"), (2, "SIGINT"), (3, "SIGQUIT"), (4, "SIGILL"), (5, "SIGTRAP"), (6, "SIGABRT"),
    (7, "SIGBUS"), (8, "SIGFPE"), (9, "SIGKILL"), (10, "SIGUSR1"), (11, "SIGSEGV"), (12, "SIGUSR2"),
    (13, "SIGPIPE"), (14, "SIGALRM"), (15, "SIGTERM")]

namespace Ending

def text : Ending → String
  | exited code => "exit status: " ++ toString code
  | killed signal =>
    "signal: " ++ toString signal ++ match signalNames.lookup signal with
      | some name => " (" ++ name ++ ")"
      | none => ""

def isSuccess (e : Ending) : Bool := e = exited 0

end Ending

structure Command where
  program : Path
  arguments : List String
  directory : Option Path
  environment : List (String × String)

structure ProcessOutput where
  ending : Ending
  output : String
  errors : String

def Machine.directoryOf (m : Machine) (c : Command) : Except SystemError (Option Location) :=
  match c.directory with
  | none => .ok m.workingDirectory
  | some dir => (m.changeDirectory dir).map (·.workingDirectory)

def Machine.checkProgram (m : Machine) (p : Path) : Except SystemError Unit := do
  match m.files.entry? (← m.locate p) with
  | some .program => return ()
  | _ => throw .denied

/-- Checks that a name is a program in one of some directories. A file there that is no program is
reported if none is found. -/
def Machine.checkSearched (m : Machine) (name : String) : List Path → SystemError → Except SystemError Unit
  | [], reason => .error reason
  | dir :: rest, reason =>
    match m.checkProgram (dir.child name) with
    | .ok () => .ok ()
    | .error .denied => m.checkSearched name rest .denied
    | .error _ => m.checkSearched name rest reason

def Machine.checkCommand (m : Machine) (program : Path) : Except SystemError Unit :=
  if program.text.isEmpty then .error .notFound
  else if program.text.toList.contains '/' then m.checkProgram program
  else
    let dirs := if (m.environmentValue? "PATH").isNone then [⟨"/bin"⟩, ⟨"/usr/bin"⟩] else m.searchDirectories
    m.checkSearched program.text dirs .notFound

def Machine.start (m : Machine) (c : Command) (input : Option String) :
    Except SystemError Invocation := do
  let directory ← m.directoryOf c
  { m with workingDirectory := directory }.checkCommand c.program
  let inherited := m.environment.filter fun v => !(c.environment.map (·.1)).contains v.1
  return ⟨c.program, c.arguments, directory, c.environment ++ inherited, input.getD ""⟩

/-- Runs a command to its end: what is left of it, and how it was called, if it was and came to an end.
A program that does not end is stopped at the limit, in milliseconds; without limit nothing is left of
it. -/
def Machine.run (m : Machine) (c : Command) (input : Option String) (limit : Option Nat) :
    Except LintError ProcessOutput × List Invocation :=
  match m.start c input with
  | .error e => (.error (.io e.message), [])
  | .ok call =>
    match m.respond call with
    | .hangs =>
      (.error (match limit with
        | some limit => .timeout limit
        | none => .engineCrash "child output reader stopped"), [])
    | .ends output errors ending =>
      (.ok ⟨ending, String.ofList (Text.decodeBytes output), String.ofList (Text.decodeBytes errors)⟩,
        [call])

end LintBridge
