import LintBridge.Proofs.Pass.Stages
import Mathlib.Data.List.Induction
/-!
What a runner remembers after a history of passes. Each pass only looks for an engine and loads one
that was found (`pass_locator`), so the locator stays faithful to the searches of the history
(`after_faithful`).
-/
namespace LintBridge

inductive Act where
  | pass (m : Machine) (c : PassCall)
  | configChange

def Act.On (m : Machine) : Act → Prop
  | pass m' _ => m' = m
  | configChange => True

def Asked (history : List Act) (m : Machine) (s : Search) : Prop :=
  ∃ c, .pass m c ∈ history ∧ c.search m = s

theorem Asked.append {history : List Act} {m : Machine} {s : Search} (asked : Asked history m s)
    (act : Act) : Asked (history ++ [act]) m s := by
  obtain ⟨c, member, search⟩ := asked
  exact ⟨c, List.mem_append_left _ member, search⟩

theorem asked_last (history : List Act) (m : Machine) (c : PassCall) :
    Asked (history ++ [.pass m c]) m (c.search m) :=
  ⟨c, by simp, rfl⟩

theorem asked_unchanging {history : List Act} {m : Machine} (unchanging : ∀ act ∈ history, act.On m) :
    ∀ m' s, Asked history m' s → m' = m := by
  rintro m' s ⟨c, member, -⟩
  exact unchanging _ member

namespace Runner

def act (t : Toolchain) (r : Runner) : Act → Runner
  | .pass m c => (r.pass t m c).runner
  | .configChange => r.onConfigChange

def after (t : Toolchain) (history : List Act) : Runner := history.foldl (act t) .new

theorem after_append (t : Toolchain) (history : List Act) (last : Act) :
    after t (history ++ [last]) = act t (after t history) last := by
  simp [after]

theorem pass_locator (r : Runner) (t : Toolchain) (m : Machine) (c : PassCall) :
    (r.pass t m c).runner.locator = (r.located t m c).locator ∨
      ∃ library, (r.located t m c).library = some library ∧
        (r.pass t m c).runner.locator = (r.loaded t m c library).locator := by
  rcases pass_cases r t m c with ⟨library, allowed, engine, worked⟩ | stopped
  · exact Or.inr ⟨library, worked.reaches.located, by rw [worked.runner]⟩
  · exact stopped.locator

theorem pass_faithful {r : Runner} {t : Toolchain} {m : Machine} {c : PassCall}
    {asked : Machine → Search → Prop} (faithful : Locator.Faithful t asked r.locator)
    (asks : asked m (c.search m)) : Locator.Faithful t asked (r.pass t m c).runner.locator := by
  obtain ⟨⟨origin, gives, -⟩, found⟩ := Locator.locate_faithful faithful asks
  change Search.Gives t asked origin (r.located t m c).library at gives
  rcases pass_locator r t m c with left | ⟨library, located, left⟩
  · rw [left]
    exact found
  · rw [left]
    rw [located] at gives
    exact (Locator.load_faithful found asks gives).2

theorem after_faithful (t : Toolchain) (history : List Act) :
    Locator.Faithful t (Asked history) (after t history).locator := by
  induction history using List.reverseRecOn with
  | nil => exact Locator.faithful_new _
  | append_singleton history last ih =>
    have before := ih.mono fun _ _ asked => asked.append last
    rw [after_append]
    cases last with
    | configChange => exact before
    | pass m c => exact pass_faithful before (asked_last history m c)

end Runner

/-- A toolchain that looks for modules beside a directory and above it, then in the path to search.
Its engines use the given configuration file or one in their module, and find no failures. -/
def Toolchain.simple : Toolchain where
  resolveModule m search dir :=
    let dirs := dir.ancestors.map (·.child "node_modules") ++ search.toList
    (if m.isDirectory dir then (dirs.map (·.child "tslint")).find? m.existsAt else none, [])
  globalRoot _ _ := (some ⟨"/lib/node_modules"⟩, [])
  load _ _ := .ok ()
  engine path :=
    let configuration := { Configuration.blank with rulesDirectory := some (.one "rules") }
    { discovery :=
        { findPath := fun _ given _ => given
          find := fun m given file =>
            let own := path.child (if m.isFile file then "tslint.json" else "default.json")
            (.ok ⟨some configuration, some (given.getD own)⟩, []) }
      lint := fun _ _ => ⟨[], .ok .empty, []⟩ }

/-- A machine with a workspace that holds a file and an engine, an engine for all workspaces, and a
directory without one. -/
def Machine.simple : Machine where
  files := ⟨[(["w"], .directory), (["w", "a.ts"], .file (.text "")),
    (["w", "node_modules"], .directory), (["w", "node_modules", "tslint"], .directory),
    (["lib"], .directory), (["lib", "node_modules"], .directory),
    (["lib", "node_modules", "tslint"], .directory), (["bare"], .directory)], []⟩
  workingDirectory := some []
  environment := []
  respond _ := .hangs

def PassCall.simple (trust : Trust) (nodePath configFile : Option Path) : PassCall :=
  ⟨⟨"/w/a.ts"⟩, .text "", { (default : PassOptions) with
    workspaceTrust := trust
    nodePath := nodePath
    configFile := configFile }⟩

end LintBridge
