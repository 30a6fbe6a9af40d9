import LintBridge.Main
import LintBridge.Service.Plugin
import LintBridge.Proofs.Edit.Fixing
import LintBridge.Proofs.Path.Parent
import LintBridge.Proofs.Engine.Locator
import LintBridge.Proofs.Pass.Stages
import LintBridge.Proofs.Pass.Disallow
import LintBridge.Proofs.Pass.Permission
import LintBridge.Proofs.Config.Resolver
import LintBridge.Proofs.Pass.Memory
import LintBridge.Proofs.Pass.Decision
import LintBridge.Proofs.Pass.Cache
import LintBridge.Proofs.Pass.Folder
import LintBridge.Proofs.Service.Diagnostics
import LintBridge.Proofs.Service.Actions
import LintBridge.Proofs.Service.Conflicts
import LintBridge.Proofs.Service.Shown
import LintBridge.Proofs.Service.Watching
import LintBridge.Proofs.Service.FixAll
import LintBridge.Proofs.Service.Session
import LintBridge.Proofs.Dictionary
import LintBridge.Proofs.Edit.Problems
import LintBridge.Proofs.Path.Resolve
import LintBridge.Proofs.Machine.Walk
import LintBridge.Proofs.Config.Chain
import LintBridge.Proofs.Config.Cycle
import LintBridge.Proofs.Config.Layers
import LintBridge.Proofs.Edit.Encoding
import LintBridge.Proofs.Edit.Overlap
import LintBridge.Proofs.Edit.Applying
import LintBridge.Proofs.Edit.Attempts
import LintBridge.Proofs.Service.SourceOrder
import LintBridge.Proofs.Config.Grouping
import LintBridge.Proofs.Machine.Standing
import LintBridge.Proofs.Pass.WorkingDirectory
import LintBridge.Proofs.Path.Lexical
import LintBridge.Proofs.Glob.Reading
import LintBridge.Proofs.Config.Excluding
import LintBridge.Proofs.Engine.Recency
import LintBridge.Proofs.Engine.Memory
import LintBridge.Proofs.Engine.Installed
import LintBridge.Proofs.Config.Answers
import LintBridge.Proofs.Pass.Unstable
import LintBridge.Proofs.CommandLine.Positions
import LintBridge.Proofs.Config.Tidy
import LintBridge.Proofs.Config.Wire
import LintBridge.Proofs.Json.Schema
import LintBridge.Proofs.Service.Disabling
import LintBridge.Proofs.Service.SettingsBlock
import LintBridge.Proofs.Path.Canonical
import LintBridge.Proofs.CommandLine.DryRun
