import LintBridge.Json.Printer
import LintBridge.Path.Basic
import LintBridge.Service.Diagnostic
import LintBridge.Text.Encoding
/-!
Reports on linted files, as text or as JSON.
-/
namespace LintBridge.CommandLine

structure Finding where
  diagnostic : Diagnostic
  line : Nat
  column : UInt32

structure FileReport where
  path : Path
  findings : List Finding
  warnings : List String

namespace Finding

def ofFailure (t : SourceText) (file : String) (alwaysWarn : Bool) (f : Failure) : Finding :=
  let line := t.lineOf f.start
  ⟨Diagnostic.ofFailure f file alwaysWarn, line + 1, f.start - t.lineStart line + 1⟩

def severity : Category → String
  | .error => "error"
  | .warning => "warning"
  | .suggestion => "suggestion"
  | .message => "info"

def text (f : Finding) : String :=
  "  " ++ toString f.line ++ ":" ++ toString f.column.toNat ++ " " ++ severity f.diagnostic.category
    ++ ": " ++ f.diagnostic.messageText ++ "\n"

def toJson (f : Finding) : Json :=
  .obj [("column", .int f.column.toNat), ("diagnostic", f.diagnostic.toJson), ("line", .int f.line)]

end Finding

namespace FileReport

def hasErrors (r : FileReport) : Bool := r.findings.any (·.diagnostic.category = .error)

def text (r : FileReport) : String :=
  if r.findings.isEmpty then ""
  else "\n" ++ r.path.text ++ ":\n" ++ String.join (r.findings.map Finding.text)

def toJson (r : FileReport) : Json :=
  .obj [("diagnostics", .arr (r.findings.map Finding.toJson)), ("path", .str r.path.text),
    ("warnings", .ofStrings r.warnings)]

end FileReport

def textReport (reports : List FileReport) : String :=
  let total := (reports.map fun r => r.findings.length).foldr (· + ·) 0
  String.join (reports.map FileReport.text) ++ "\nChecked " ++ toString reports.length
    ++ " files, found " ++ toString total ++ " problems\n"

def jsonReport (reports : List FileReport) : String :=
  (Json.arr (reports.map FileReport.toJson)).pretty ++ "\n"

/-- What has been fixed: the number of replacements made in each file, and the files that could not be
written, with the reason. -/
structure FixSummary where
  fixed : List (Path × Nat)
  failed : List (Path × String)

namespace FixSummary

def empty : FixSummary := ⟨[], []⟩

def total (s : FixSummary) : Nat := (s.fixed.map (·.2)).foldr (· + ·) 0

def report (s : FixSummary) (dryRun : Bool) : String :=
  if s.total = 0 && s.failed.isEmpty then "No fixable issues found.\n"
  else
    let fixed :=
      if s.total = 0 then ""
      else (if dryRun then "Would apply" else "Applied") ++ " " ++ toString s.total
        ++ " replacements in " ++ toString s.fixed.length ++ " files:\n"
        ++ String.join (s.fixed.map fun f => "  " ++ f.1.text ++ ": " ++ toString f.2 ++ "\n")
    let failed :=
      if s.failed.isEmpty then ""
      else "Failed to fix " ++ toString s.failed.length ++ " files:\n"
        ++ String.join (s.failed.map fun f => "  " ++ f.1.text ++ ": " ++ f.2 ++ "\n")
    fixed ++ failed

end FixSummary
end LintBridge.CommandLine
