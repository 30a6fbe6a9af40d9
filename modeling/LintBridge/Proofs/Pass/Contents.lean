import LintBridge.Engine.Node
import LintBridge.Proofs.Machine.Alike
import LintBridge.Proofs.Pass.WorkingDirectory
/-!
Passes do not look into files. A toolchain that runs its engines as programs cannot tell machines apart
that differ in the contents of files alone (`Node.ignoresContents`), and neither can a pass with it:
what it finds, remembers and asks is the same on both machines, and each of them is left as it was
(`Runner.pass_alike`).
-/
namespace LintBridge

/-- Whether an engine is asked alike on machines that differ in the contents of files alone. -/
structure Engine.IgnoresContents (engine : Engine) : Prop where
  findPath : ∀ {m m' : Machine}, m.Alike m' → engine.discovery.findPath m' = engine.discovery.findPath m
  find : ∀ {m m' : Machine}, m.Alike m' → engine.discovery.find m' = engine.discovery.find m
  lint : ∀ {m m' : Machine}, m.Alike m' → engine.lint m' = engine.lint m

structure Toolchain.IgnoresContents (t : Toolchain) : Prop where
  resolveModule : ∀ {m m' : Machine}, m.Alike m' → t.resolveModule m' = t.resolveModule m
  globalRoot : ∀ {m m' : Machine}, m.Alike m' → t.globalRoot m' = t.globalRoot m
  load : ∀ {m m' : Machine}, m.Alike m' → t.load m' = t.load m
  engine : ∀ modulePath, (t.engine modulePath).IgnoresContents

/-! ### Engines that run under Node -/

section Node

variable {m m' : Machine} (alike : m.Alike m')
include alike

theorem Configuration.pathFor?_alike (given : Option Path) (file : Path) :
    pathFor? m' given file = pathFor? m given file := by
  have files : m'.isFile = m.isFile := funext alike.isFile
  have inDirectory : inDirectory? m' = inDirectory? m := by
    funext dir
    rw [inDirectory?, files, inDirectory?]
  simp only [pathFor?, inDirectory, alike.home?]

namespace Node

theorem printed_alike (limit : Nat) (c : Command) : printed m' limit c = printed m limit c := by
  rw [printed, alike.run, printed]

theorem resolveModule_alike (n : Node) (search : Option Path) (dir : Path) :
    n.resolveModule m' search dir = n.resolveModule m search dir := by
  simp only [resolveModule, searchVariables, printed_alike alike, alike.isDirectory,
    alike.environmentValue?]

theorem globalRoot_alike (n : Node) (manager : PackageManager) :
    n.globalRoot m' manager = n.globalRoot m manager := by
  simp only [globalRoot, printed_alike alike, alike.findProgram]

theorem load_alike (n : Node) (modulePath : Path) : n.load m' modulePath = n.load m modulePath := by
  rw [load, alike.isFile, load]

theorem request_alike (program : Path) (limit : Option Nat) (script : String) (modulePath : Path)
    (dir : Option Path) (input : Json) :
    request m' program limit script modulePath dir input =
      request m program limit script modulePath dir input :=
  alike.run _ _ _

end Node
end Node

/-- Node reads the files itself, if at all, and answers as a function of how it is called. -/
theorem Node.ignoresContents (n : Node) : n.toolchain.IgnoresContents where
  resolveModule alike := funext fun search => funext fun dir => resolveModule_alike alike n search dir
  globalRoot alike := funext fun manager => globalRoot_alike alike n manager
  load alike := funext fun modulePath => load_alike alike n modulePath
  engine modulePath :=
    { findPath := fun alike => funext fun given => funext fun file =>
        Configuration.pathFor?_alike alike given file
      find := fun alike => funext fun given => funext fun file => by
        simp only [toolchain, engine, discovery, request_alike alike]
      lint := fun alike => funext fun request => by
        simp only [toolchain, engine, lint, request_alike alike] }

/-! ### Machines left behind -/

namespace Runner

variable {m m' : Machine}

/-- Whether two passes on alike machines have found, remembered and asked the same, and have left the
machines as they were but for the working directory, which is the same again. -/
def LeftAlike (m m' : Machine) (report report' : PassReport) : Prop :=
  ∃ dir, report.machine = { m with workingDirectory := dir } ∧
    report' = { report with machine := { m' with workingDirectory := dir } }

theorem LeftAlike.after {report report' : PassReport} (left : LeftAlike m m' report report')
    (events : List Event) : LeftAlike m m' (report.after events) (report'.after events) := by
  obtain ⟨dir, machine, rfl⟩ := left
  exact ⟨dir, machine, rfl⟩

section Alike

variable (alike : m.Alike m')
include alike

theorem leftAlike_of_machine {report : PassReport} (same : report.machine = m) :
    LeftAlike m m' report { report with machine := m' } :=
  ⟨m.workingDirectory, same, by rw [← alike.workingDirectory]⟩

theorem configure_alike (r : Runner) {engine : Engine} (blind : engine.IgnoresContents) (c : PassCall)
    (allowed : Bool) (w : List String) :
    r.configure m' engine c.file c.source c.options allowed w =
      { r.configure m engine c.file c.source c.options allowed w with machine := m' } := by
  have resolved : (r.resolver.setStripUnstable c.options.stripUnstable).resolve engine.discovery m'
      c.file c.options.configFile = r.resolution m engine c := by
    simp only [resolution, ConfigResolver.resolve, blind.findPath alike, blind.find alike]
  unfold configure
  simp only [resolved, ← resolution.eq_def, alike.workingDirectory]
  split
  · rfl
  · rfl
  · split
    · rfl
    · split
      · rfl
      · split
        · rfl
        · simp only [lint, blind.lint alike, alike.workingDirectory, PassReport.after]

theorem inWorkspace_alike {act : Machine → PassReport}
    (acts : ∀ {place place' : Machine}, place.Alike place' →
      act place' = { act place with machine := place' })
    (leaves : ∀ place, (act place).machine = place) (folder : Option Path) (allowed : Bool) :
    LeftAlike m m' (inWorkspace m folder allowed act) (inWorkspace m' folder allowed act) := by
  by_cases enters : ∃ start place, m.Enters folder allowed start place
  · obtain ⟨start, place, enters⟩ := enters
    have inside := alike.standing (some place)
    rw [inWorkspace_of_enters enters, inWorkspace_of_enters (alike.enters enters), acts inside]
    simp only [leaves]
    obtain ⟨dir, back, back'⟩ := inside.goBack start.path
    exact ⟨dir, back, by rw [back']⟩
  · have stays (start place : Location) : ¬m.Enters folder allowed start place :=
      fun entered => enters ⟨start, place, entered⟩
    have stays' (start place : Location) : ¬m'.Enters folder allowed start place :=
      fun entered => stays start place (alike.symm.enters entered)
    rw [inWorkspace_of_stays stays, inWorkspace_of_stays stays', acts alike]
    exact leftAlike_of_machine alike (leaves m)

end Alike

end Runner

theorem Locator.exists_engine_of_load {t : Toolchain} {m : Machine} {l : Locator}
    {modulePath : Path} {engine : Engine}
    (loaded : (l.load t m modulePath).engine = some engine) : ∃ path, t.engine path = engine := by
  unfold Locator.load at loaded
  split at loaded
  · rename_i path ok _
    exact ⟨path, (Option.ite_some_none_eq_some.mp loaded).2⟩
  · exact ⟨modulePath, (Option.ite_some_none_eq_some.mp loaded).2⟩

/-! ### Passes -/

section Pass

variable {t : Toolchain} (ignores : t.IgnoresContents) {m m' : Machine} (alike : m.Alike m')
include ignores alike

namespace Locator

theorem ask_alike (search : Option Path) (dir : Path) : ask t m' search dir = ask t m search dir := by
  rw [ask, ignores.resolveModule alike, ask]

theorem amongGlobal_alike (l : Locator) (manager : PackageManager) (dir : Option Path) :
    l.amongGlobal t m' manager dir = l.amongGlobal t m manager dir := by
  simp only [amongGlobal, root, ignores.globalRoot alike, ask_alike ignores alike]

theorem fromDirectory_alike (l : Locator) (manager : PackageManager) (dir : Path) :
    l.fromDirectory t m' manager dir = l.fromDirectory t m manager dir := by
  simp only [fromDirectory, ask_alike ignores alike, amongGlobal_alike ignores alike]

theorem search_alike (l : Locator) (file : Path) (o : LocateOptions) :
    l.search t m' file o = l.search t m file o := by
  simp only [search, ask_alike ignores alike, amongGlobal_alike ignores alike,
    fromDirectory_alike ignores alike, alike.existsAt]

theorem locate_alike (l : Locator) (file : Path) (o : LocateOptions) :
    l.locate t m' file o = l.locate t m file o := by
  simp only [locate, search_alike ignores alike]

theorem load_alike (l : Locator) (modulePath : Path) : l.load t m' modulePath = l.load t m modulePath := by
  simp only [load, ignores.load alike]

end Locator

namespace Runner

theorem located_alike (r : Runner) (c : PassCall) : r.located t m' c = r.located t m c := by
  simp only [located, PassCall.search, PassCall.trust, Locator.locate_alike ignores alike,
    alike.environmentValue?]

theorem runWith_alike (r : Runner) (library : Library) (c : PassCall) (allowed : Bool)
    (w : List String) :
    LeftAlike m m' (r.runWith t m library c.file c.source c.options allowed w)
      (r.runWith t m' library c.file c.source c.options allowed w) := by
  rw [runWith_eq, runWith_eq]
  simp only [Locator.load_alike ignores alike]
  cases loaded : (r.locator.load t m library.modulePath).engine with
  | none => exact leftAlike_of_machine alike rfl
  | some engine =>
    obtain ⟨path, rfl⟩ := Locator.exists_engine_of_load loaded
    cases kept : c.leftOut with
    | true => exact leftAlike_of_machine alike rfl
    | false =>
      simp only [Bool.false_eq_true, if_false]
      exact (inWorkspace_alike alike (fun alike => configure_alike alike _ (ignores.engine path) c _ _)
        (fun place => (configure_leaves _ place _ c allowed w).2) _ _).after _

/-- What a pass finds, remembers and asks does not depend on the contents of files, and neither does
the directory in which it leaves the machine. -/
theorem pass_alike (r : Runner) (c : PassCall) : LeftAlike m m' (r.pass t m c) (r.pass t m' c) := by
  rw [pass_eq, pass_eq]
  simp only [located_alike ignores alike]
  cases found : (r.located t m c).library with
  | none => exact leftAlike_of_machine alike rfl
  | some library =>
    have decided : c.permission? m' library = c.permission? m library := by
      simp only [PassCall.permission?, PassCall.trust, alike.environmentValue?]
    simp only [decided]
    cases c.permission? m library with
    | none => exact leftAlike_of_machine alike rfl
    | some allowed =>
      exact (runWith_alike ignores alike ⟨(r.located t m c).locator, r.resolver⟩ library c allowed _).after _

end Runner
end Pass

theorem Runner.pass_machine {m : Machine} (sound : m.Sound) (back : m.CanReturn) (r : Runner)
    (t : Toolchain) (c : PassCall) : (r.pass t m c).machine = m := by
  obtain ⟨entering, staying⟩ := pass_stands r t m c
  by_cases enters : ∃ start place, Enters r t m c start place
  · obtain ⟨start, place, enters⟩ := enters
    have known := enters.enters.known
    have returns : Machine.goBack { m with workingDirectory := some place } start.path = _ :=
      sound.goBack known fun _ there => there
    rw [(entering start place enters).1, returns, if_pos (back start known), ← known]
  · exact (staying fun start place entered => enters ⟨start, place, entered⟩).1

end LintBridge
