import LintBridge.Path.Basic
/-!
The arguments of the command line. Options may stand before or after the command, with their value
attached or in the next argument. A value is checked when the next argument settles it, so an unknown
argument is reported before a bad value right in front of it.
-/
namespace LintBridge.CommandLine

inductive OutputFormat where
  | text
  | json
deriving DecidableEq

inductive Command where
  | lint (files : List Path) (format : OutputFormat)
  | fix (files : List Path) (dryRun : Bool)
  | config (file : Path)
deriving DecidableEq

structure Arguments where
  settings : Option Path
  workspace : Option Path
  node : Option Path
  verbose : Bool
  command : Command
deriving DecidableEq

inductive Usage where
  | help
  | version
  | helpOnMissing
  | missingSubcommand
  | missingRequired
  | invalidSubcommand
  | invalidValue
  | unknownArgument
  | argumentConflict
  | tooManyValues
deriving DecidableEq

def Usage.exitCode : Usage → Nat
  | help => 0
  | version => 0
  | _ => 2

inductive Scope where
  | top
  | lint
  | fix
  | config
deriving DecidableEq

def Scope.ofName? (name : String) : Option Scope :=
  if name = "lint" then some lint
  else if name = "fix" then some fix
  else if name = "config" then some config
  else none

inductive Parameter where
  | settings
  | workspace
  | node
  | format
deriving DecidableEq

inductive Switch where
  | parameter (p : Parameter)
  | verbose
  | dryRun
  | help
  | version

def Scope.long? (s : Scope) (name : String) : Option Switch :=
  if name = "settings" then some (.parameter .settings)
  else if name = "workspace" then some (.parameter .workspace)
  else if name = "node" then some (.parameter .node)
  else if name = "verbose" then some .verbose
  else if name = "help" then some .help
  else if name = "version" && s = top then some .version
  else if name = "format" && s = lint then some (.parameter .format)
  else if name = "dry-run" && s = fix then some .dryRun
  else none

def Scope.short? (s : Scope) (letter : Char) : Option Switch :=
  if letter = 's' then some (.parameter .settings)
  else if letter = 'w' then some (.parameter .workspace)
  else if letter = 'v' then some .verbose
  else if letter = 'h' then some .help
  else if letter = 'V' && s = top then some .version
  else if letter = 'f' && s = lint then some (.parameter .format)
  else none

structure Given where
  settings : Option Path
  workspace : Option Path
  node : Option Path
  format : Option OutputFormat
  verbose : Bool
  dryRun : Bool
  files : List Path
deriving DecidableEq

def Given.none : Given := ⟨.none, .none, .none, .none, false, false, []⟩

/-- What is not settled yet: an option with the value it has so far, or files. -/
inductive Pending where
  | nothing
  | parameter (p : Parameter) (value : Option String)
  | files (texts : List String)

structure Reading where
  given : Given
  pending : Pending

def nonEmptyPath (text : String) : Except Usage Path :=
  if text.isEmpty then .error .invalidValue else .ok ⟨text⟩

def formatOfName (text : String) : Except Usage OutputFormat :=
  if text = "text" then .ok .text
  else if text = "json" then .ok .json
  else .error .invalidValue

def once {α : Type} (earlier : Option α) (value : Except Usage α) : Except Usage (Option α) :=
  match earlier with
  | some _ => .error .argumentConflict
  | none => value.map some

namespace Given

def set (g : Given) (p : Parameter) (text : String) : Except Usage Given :=
  match p with
  | .settings => (once g.settings (nonEmptyPath text)).map fun value => { g with settings := value }
  | .workspace => (once g.workspace (nonEmptyPath text)).map fun value => { g with workspace := value }
  | .node => (once g.node (nonEmptyPath text)).map fun value => { g with node := value }
  | .format => (once g.format (formatOfName text)).map fun value => { g with format := value }

def addFiles (g : Given) (texts : List String) : Except Usage Given :=
  (texts.mapM nonEmptyPath).map fun files => { g with files := g.files ++ files }

def raise (g : Given) : Switch → Except Usage Given
  | .verbose => if g.verbose then .error .argumentConflict else .ok { g with verbose := true }
  | .dryRun => if g.dryRun then .error .argumentConflict else .ok { g with dryRun := true }
  | .help => .error .help
  | .version => .error .version
  | .parameter _ => .ok g

end Given

namespace Reading

def settle (r : Reading) : Except Usage Given :=
  match r.pending with
  | .nothing => .ok r.given
  | .parameter _ none => .error .invalidValue
  | .parameter p (some text) => r.given.set p text
  | .files texts => r.given.addFiles texts

def isWaiting (r : Reading) : Bool :=
  match r.pending with
  | .parameter _ none => true
  | _ => false

def takeParameter (r : Reading) (p : Parameter) (attached : Option String) :
    Except Usage Reading := do
  let given ← r.settle
  match attached with
  | some text => return ⟨← given.set p text, .nothing⟩
  | none => return ⟨given, .parameter p none⟩

def takeSwitch (r : Reading) (s : Switch) : Except Usage Reading := do
  return ⟨← (← r.settle).raise s, .nothing⟩

def takeLong (r : Reading) (s : Scope) (name : String) (attached : Option String) :
    Except Usage Reading :=
  match s.long? name with
  | none => .error .unknownArgument
  | some (.parameter p) => r.takeParameter p attached
  | some other => if attached.isSome then .error .tooManyValues else r.takeSwitch other

def attachedValue : List Char → Option String
  | [] => none
  | '=' :: rest => some (String.ofList rest)
  | rest => some (String.ofList rest)

/-- Takes letters; the first that takes a value takes what follows it. -/
def takeLetters (r : Reading) (s : Scope) : List Char → Except Usage Reading
  | [] => .ok r
  | letter :: rest =>
    match s.short? letter with
    | none => .error .unknownArgument
    | some (.parameter p) => r.takeParameter p (attachedValue rest)
    | some other =>
      match r.takeSwitch other with
      | .ok r => r.takeLetters s rest
      | .error e => .error e

def hasFile (r : Reading) : Bool :=
  match r.pending with
  | .files _ => true
  | _ => !r.given.files.isEmpty

def takeFile (r : Reading) (s : Scope) (text : String) : Except Usage Reading :=
  match s, r.pending with
  | .top, _ => .error .invalidSubcommand
  | .config, _ =>
    if r.hasFile then .error .unknownArgument
    else r.settle.map fun given => ⟨given, .files [text]⟩
  | _, .files texts => .ok ⟨r.given, .files (texts ++ [text])⟩
  | _, _ => r.settle.map fun given => ⟨given, .files [text]⟩

def takeArgument (r : Reading) (s : Scope) (text : String) : Except Usage Reading :=
  match text.toList with
  | '-' :: '-' :: name =>
    let (name, rest) := name.span (· ≠ '=')
    r.takeLong s (String.ofList name) (match rest with
      | [] => none
      | _ :: value => some (String.ofList value))
  | '-' :: letter :: rest => r.takeLetters s (letter :: rest)
  | _ =>
    match r.pending with
    | .parameter p none => .ok ⟨r.given, .parameter p (some text)⟩
    | _ => r.takeFile s text

end Reading

/-- Reads the arguments after a command. After two dashes all arguments are files. -/
def readRest (s : Scope) : Bool → Reading → List String → Except Usage Given
  | _, r, [] => r.settle
  | true, r, text :: rest => do readRest s true (← r.takeFile s text) rest
  | false, r, text :: rest =>
    if text = "--" then readRest s true r rest
    else do readRest s false (← r.takeArgument s text) rest

def command (s : Scope) (g : Given) : Except Usage Command :=
  match s, g.files with
  | .lint, file :: files => .ok (.lint (file :: files) (g.format.getD .text))
  | .fix, file :: files => .ok (.fix (file :: files) g.dryRun)
  | .config, file :: _ => .ok (.config file)
  | _, _ => .error .missingRequired

/-- A command with the options that were given before and after its name. Of two the one after it
counts. -/
def arguments (before after : Given) (c : Command) : Arguments where
  settings := after.settings.or before.settings
  workspace := after.workspace.or before.workspace
  node := after.node.or before.node
  verbose := after.verbose || before.verbose
  command := c

def helpOn : List String → Usage
  | [] => .help
  | [name] => if (Scope.ofName? name).isSome || name = "help" then .help else .invalidSubcommand
  | _ => .invalidSubcommand

def withoutCommand (g : Given) : Usage :=
  if g = .none then .helpOnMissing else .missingSubcommand

def strayArgument (text : String) : Usage :=
  if (Scope.ofName? text).isSome || text = "help" then .unknownArgument else .invalidSubcommand

def readFrom : Reading → List String → Except Usage Arguments
  | r, [] => do throw (withoutCommand (← r.settle))
  | r, text :: rest =>
    match if r.isWaiting then none else Scope.ofName? text with
    | some s => do
      let after ← readRest s false ⟨.none, .nothing⟩ rest
      let c ← command s after
      return arguments (← r.settle) after c
    | none =>
      if text = "help" && !r.isWaiting then .error (helpOn rest)
      else if text = "--" then
        match rest with
        | [] => do throw (withoutCommand (← r.settle))
        | stray :: _ => .error (strayArgument stray)
      else do readFrom (← r.takeArgument .top text) rest

def parse (texts : List String) : Except Usage Arguments := readFrom ⟨.none, .nothing⟩ texts

end LintBridge.CommandLine
