import LintBridge.Config.Decoding
import LintBridge.Config.Resolver
import LintBridge.Json.Printer
import LintBridge.PackageManager
/-!
The lint engine as it is seen from here: what it is given, what it answers, and how it is found and
loaded. Everything that is asked of it is kept as a list of events, in order. An engine that runs
as a process is given one JSON text and answers with one.
-/
namespace LintBridge

structure LintRequest where
  file : Path
  contents : String
  configuration : Configuration
  configPath : Option Path
  rulesDirectory : List String
  /-- Rules to take out once the engine has applied its own bases. -/
  disabledRules : List String
  workingDirectory : Option Path

structure LintReply where
  warnings : List String
  result : Except LintError LintOutput
  calls : List Invocation

structure Engine where
  discovery : Discovery
  lint : Machine → LintRequest → LintReply

structure Toolchain where
  resolveModule : Machine → Option Path → Path → Option Path × List Invocation
  globalRoot : Machine → PackageManager → Option Path × List Invocation
  load : Machine → Path → Except LintError Unit
  engine : Path → Engine

/-- What is asked of a toolchain or an engine. The last two are asked from a working directory. -/
inductive Event where
  | resolved (search : Option Path) (dir : Path)
  | globalRoot (manager : PackageManager)
  | loaded (modulePath : Path)
  | called (call : Invocation)
  | configured (question : DiscoveryCall) (workingDirectory : Option Location)
  | linted (request : LintRequest) (workingDirectory : Option Location)

def Path.toJson (p : Path) : Json := .str p.text

def LintRequest.toJson (r : LintRequest) : Json :=
  .obj [("fileName", r.file.toJson), ("contents", .str r.contents),
    ("configuration", r.configuration.toJson),
    ("configDirectory", Json.ofOption Path.toJson (r.configPath.bind Path.parent?)),
    ("rulesDirectory", .ofStrings r.rulesDirectory), ("disabledRules", .ofStrings r.disabledRules)]

def configurationRequest (given : Option Path) (file : Path) : Json :=
  .obj [("configFile", Json.ofOption Path.toJson given), ("fileName", file.toJson)]

def LintOutput.ofText? (text : String) : Option LintOutput :=
  (Json.readStrict? shape text).bind ofJson?

namespace DiscoveredConfiguration

def optional? {α : Type} (read : Json → Option α) : Option Json → Option (Option α)
  | none => some none
  | some .null => some none
  | some value => (read value).map some

def ofFields? (path configuration : Option Json) : Option DiscoveredConfiguration := do
  let path ← optional? Json.str? path
  let configuration ← optional? Configuration.ofJson? configuration
  return ⟨configuration, path.map Path.mk⟩

def ofJson? : Json → Option DiscoveredConfiguration
  | .obj members => do
    ofFields? (← field? ["path"] members) (← field? ["configuration"] members)
  | .arr items => if items.length ≤ 2 then ofFields? items[0]? items[1]? else none
  | _ => none

def shape : Json.Shape := .record [("path", .whole), ("configuration", .whole)] []

def ofText? (text : String) : Option DiscoveredConfiguration :=
  (Json.readStrict? shape text).bind ofJson?

end DiscoveredConfiguration
end LintBridge
