import LintBridge.Path.Basic
/-!
The package managers that engines are installed with.
-/
namespace LintBridge

inductive PackageManager where
  | npm
  | pnpm
  | yarn
deriving DecidableEq, Inhabited

namespace PackageManager

def name : PackageManager → String
  | npm => "npm"
  | pnpm => "pnpm"
  | yarn => "yarn"

def all : List PackageManager := [npm, pnpm, yarn]

def ofName? (text : String) : Option PackageManager := all.find? (·.name = text)

theorem ofName?_name (p : PackageManager) : ofName? p.name = some p := by
  cases p <;> decide

def localInstall : PackageManager → String
  | npm => "npm install tslint"
  | pnpm => "pnpm add tslint"
  | yarn => "yarn add tslint"

def globalInstall : PackageManager → String
  | npm => "npm install -g tslint"
  | pnpm => "pnpm add -g tslint"
  | yarn => "yarn global add tslint"

def globalRootArguments : PackageManager → List String
  | npm => ["root", "-g"]
  | pnpm => ["root", "-g"]
  | yarn => ["global", "dir"]

def modulesDirectory (p : PackageManager) (printed : Path) : Path :=
  match p with
  | yarn => printed.child "node_modules"
  | _ => printed

end PackageManager
end LintBridge
