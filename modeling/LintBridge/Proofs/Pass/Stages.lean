import LintBridge.Pass.Runner
import LintBridge.Proofs.Engine.Locator
/-!
How far a pass gets. It either `Reaches` the engine, and then its report is that of `configure` in the
workspace, or it ends before in one of four ways (`pass_course`), without having asked an engine
anything (`pass_cases`). What it gives
depends on what is remembered only through the engine that is found and loaded and the configuration
that is resolved (`pass_agree`).
-/
namespace LintBridge

structure PassCall where
  file : Path
  source : LintSource
  options : PassOptions

namespace PassCall

def trust (m : Machine) (c : PassCall) : Trust :=
  c.options.trust (m.environmentValue? Trust.variableName)

def search (m : Machine) (c : PassCall) : Search := ⟨c.file, c.options.locateOptions (c.trust m)⟩

def permission? (m : Machine) (c : PassCall) (library : Library) : Option Bool :=
  LintBridge.permission? (c.trust m) library c.options.hostInstallRoot

def leftOut (c : PassCall) : Bool := c.options.leavesOut c.file (c.options.directory? c.source)

def inFolder (c : PassCall) (folder : Path) : PassCall :=
  { c with options := { c.options with workspaceFolder := some folder } }

end PassCall

/-- The machine in which an engine is asked: in the workspace folder, if code of the workspace may run
and the folder can be entered. -/
def Machine.inside (m : Machine) (folder : Option Path) (allowed : Bool) : Machine :=
  match (if allowed then folder else none).map m.hold with
  | some (.ok held) => held.machine
  | _ => m

def Event.request? : Event → Option (LintRequest × Option Location)
  | .linted request dir => some (request, dir)
  | _ => none

theorem Event.IsLookup.request? {e : Event} (lookup : e.IsLookup) : e.request? = none := by
  cases e <;> first | rfl | contradiction

namespace PassReport

def requests (report : PassReport) : List (LintRequest × Option Location) :=
  report.events.filterMap Event.request?

def outline (report : PassReport) : Except LintError PassResult :=
  report.result.map fun result => { result with warnings := [] }

def Silent (events : List Event) : Prop := events.filterMap Event.request? = []

theorem silent_of_lookups {events : List Event} (lookups : ∀ e ∈ events, e.IsLookup) :
    Silent events :=
  List.filterMap_eq_nil_iff.mpr fun e member => (lookups e member).request?

theorem silent_of_loads {events : List Event} {path : Path} (loads : ∀ e ∈ events, e = .loaded path) :
    Silent events :=
  silent_of_lookups fun e member => by
    rw [loads e member]
    trivial

theorem requests_after {report : PassReport} {events : List Event} (silent : Silent events) :
    (report.after events).requests = report.requests := by
  rw [requests, after, List.filterMap_append, silent]
  rfl

/-- Two reports agree but for warnings of the search for the engine, `w` and `w'`. -/
structure Agree (w w' : List String) (report report' : PassReport) : Prop where
  outline : report.outline = report'.outline
  requests : report.requests = report'.requests
  result : w = w' → report.result = report'.result

theorem Agree.after {w w' : List String} {report report' : PassReport}
    (agree : Agree w w' report report') {events events' : List Event} (silent : Silent events)
    (silent' : Silent events') : Agree w w' (report.after events) (report'.after events') :=
  ⟨agree.outline, by rw [requests_after silent, requests_after silent', agree.requests],
    agree.result⟩

theorem agree_unlinted (w w' : List String) (extend : List String → List String)
    (outcome : PassOutcome) {r r' : Runner} {m m' : Machine} {events events' : List Event}
    (silent : Silent events) (silent' : Silent events') :
    Agree w w' ⟨.ok (.unlinted outcome (extend w)), r, m, events⟩
      ⟨.ok (.unlinted outcome (extend w')), r', m', events'⟩ :=
  ⟨rfl, silent.trans silent'.symm, by rintro rfl; rfl⟩

theorem agree_error (w w' : List String) (e : LintError) {r r' : Runner} {m m' : Machine}
    {events events' : List Event} (silent : Silent events) (silent' : Silent events') :
    Agree w w' ⟨.error e, r, m, events⟩ ⟨.error e, r', m', events'⟩ :=
  ⟨rfl, silent.trans silent'.symm, fun _ => rfl⟩

end PassReport

open PassReport

def Runner.resolution (r : Runner) (m : Machine) (engine : Engine) (c : PassCall) : Resolution :=
  (r.resolver.setStripUnstable c.options.stripUnstable).resolve engine.discovery m c.file
    c.options.configFile

def Runner.located (r : Runner) (t : Toolchain) (m : Machine) (c : PassCall) : Located :=
  r.locator.locate t m c.file (c.search m).options

def Runner.loaded (r : Runner) (t : Toolchain) (m : Machine) (c : PassCall) (library : Library) :
    Loaded :=
  (r.located t m c).locator.load t m library.modulePath

def Runner.pass (r : Runner) (t : Toolchain) (m : Machine) (c : PassCall) : PassReport :=
  r.run t m c.file c.source c.options

namespace Runner

theorem silent_resolution (resolution : Resolution) (dir : Option Location) :
    Silent (resolution.asked.map (Event.configured · dir) ++ resolution.calls.map Event.called) := by
  simp [Silent, Event.request?]

theorem lint_agree (r r' : Runner) (m : Machine) (engine : Engine) (request : LintRequest)
    (folder : Option Path) (w w' : List String) :
    Agree w w' (r.lint m engine request folder w) (r'.lint m engine request folder w') := by
  refine ⟨?_, ?_, by rintro rfl; rfl⟩
  · simp only [lint, outline]
    cases (engine.lint m request).result <;> rfl
  · simp [lint, requests, Event.request?]

theorem configure_agree (r r' : Runner) {m : Machine} {engine : Engine} {c : PassCall}
    (answer : (r.resolution m engine c).answer = (r'.resolution m engine c).answer)
    (allowed : Bool) (w w' : List String) :
    Agree w w' (r.configure m engine c.file c.source c.options allowed w)
      (r'.configure m engine c.file c.source c.options allowed w') := by
  have silent := silent_resolution (r.resolution m engine c) m.workingDirectory
  have silent' := silent_resolution (r'.resolution m engine c) m.workingDirectory
  unfold configure
  simp only [resolution] at answer silent silent'
  simp only [answer]
  split
  · exact agree_unlinted w w' (· ++ _) .configError silent silent'
  · exact agree_error w w' _ silent silent'
  · split
    · exact agree_unlinted w w' id .configMissing silent silent'
    · split
      · rename_i outcome _
        exact agree_unlinted w w' id outcome silent silent'
      · split
        · exact agree_error w w' _ silent silent'
        · exact (lint_agree _ _ m engine _ _ w w').after silent silent'

theorem inWorkspace_eq (m : Machine) (folder : Option Path) (allowed : Bool)
    (act : Machine → PassReport) :
    ∃ after, inWorkspace m folder allowed act =
        { act (m.inside folder allowed) with machine := after } ∧
      (allowed = false → after = (act m).machine) := by
  unfold inWorkspace Machine.inside
  cases allowed with
  | false => exact ⟨_, rfl, fun _ => rfl⟩
  | true =>
    simp only [if_true]
    rcases folder.map m.hold with _ | _ | held
    · exact ⟨_, rfl, by simp⟩
    · exact ⟨_, rfl, by simp⟩
    · exact ⟨_, rfl, by simp⟩

theorem inWorkspace_agree {m : Machine} {folder : Option Path} {allowed : Bool}
    {act act' : Machine → PassReport} {w w' : List String}
    (agree : Agree w w' (act (m.inside folder allowed)) (act' (m.inside folder allowed))) :
    Agree w w' (inWorkspace m folder allowed act) (inWorkspace m folder allowed act') := by
  obtain ⟨after, eq, -⟩ := inWorkspace_eq m folder allowed act
  obtain ⟨after', eq', -⟩ := inWorkspace_eq m folder allowed act'
  rw [eq, eq']
  exact ⟨agree.outline, agree.requests, agree.result⟩

def installWarnings (c : PassCall) (warnings : List String) : List String :=
  warnings ++ [installMessage c.file c.options.workspaceFolder c.options.packageManager]

theorem pass_eq (r : Runner) (t : Toolchain) (m : Machine) (c : PassCall) :
    r.pass t m c =
      let located := r.located t m c
      let r := { r with locator := located.locator }
      match located.library with
      | none =>
        ⟨.ok (.unlinted .libraryMissing (installWarnings c located.warnings)), r, m, located.events⟩
      | some library =>
        match c.permission? m library with
        | none =>
          ⟨.ok (.unlinted .workspaceNotTrusted
            (located.warnings ++ [untrustedMessage library.modulePath])), r, m, located.events⟩
        | some allowed =>
          (r.runWith t m library c.file c.source c.options allowed located.warnings).after
            located.events :=
  rfl

theorem runWith_eq (r : Runner) (t : Toolchain) (m : Machine) (library : Library) (c : PassCall)
    (allowed : Bool) (warnings : List String) :
    r.runWith t m library c.file c.source c.options allowed warnings =
      let loaded := r.locator.load t m library.modulePath
      let r := { r with locator := loaded.locator }
      match loaded.engine with
      | none =>
        ⟨.ok (.unlinted .libraryMissing (installWarnings c warnings)), r, m, loaded.events⟩
      | some engine =>
        if c.leftOut then ⟨.ok (.unlinted .excluded warnings), r, m, loaded.events⟩
        else
          (inWorkspace m c.options.workspaceFolder allowed fun place =>
            r.configure place engine c.file c.source c.options allowed warnings).after
              loaded.events :=
  rfl

/-- A pass with an engine that was found depends on what is remembered through the engine that is
loaded and the configuration. -/
theorem runWith_agree (r r' : Runner) {t : Toolchain} {m : Machine} {library : Library} (c : PassCall)
    (allowed : Bool) (w w' : List String)
    (engine : (r.locator.load t m library.modulePath).engine =
      (r'.locator.load t m library.modulePath).engine)
    (answer : ∀ engine, (r.locator.load t m library.modulePath).engine = some engine →
      c.leftOut = false →
      (r.resolution (m.inside c.options.workspaceFolder allowed) engine c).answer =
        (r'.resolution (m.inside c.options.workspaceFolder allowed) engine c).answer) :
    Agree w w' (r.runWith t m library c.file c.source c.options allowed w)
      (r'.runWith t m library c.file c.source c.options allowed w') := by
  have silent := silent_of_loads (r.locator.load_events (t := t) (m := m) library.modulePath)
  have silent' := silent_of_loads (r'.locator.load_events (t := t) (m := m) library.modulePath)
  rw [runWith_eq, runWith_eq]
  simp only [← engine]
  cases loaded : (r.locator.load t m library.modulePath).engine with
  | none => exact agree_unlinted w w' (installWarnings c) .libraryMissing silent silent'
  | some engine =>
    cases kept : c.leftOut with
    | true => exact agree_unlinted w w' id .excluded silent silent'
    | false =>
      have agree := configure_agree ⟨(r.locator.load t m library.modulePath).locator, r.resolver⟩
        ⟨(r'.locator.load t m library.modulePath).locator, r'.resolver⟩
        (answer engine loaded kept) allowed w w'
      exact (inWorkspace_agree agree).after silent silent'

variable (r : Runner) (t : Toolchain) (m : Machine) (c : PassCall)

theorem located_events : ∀ e ∈ (r.located t m c).events, e.IsLookup :=
  r.locator.locate_events c.file (c.search m).options

/-- A pass gets as far as asking for a configuration: an engine is found that may run, its module
loads, and the file is not left out. -/
structure Reaches (library : Library) (allowed : Bool) (engine : Engine) : Prop where
  located : (r.located t m c).library = some library
  permitted : c.permission? m library = some allowed
  loaded : (r.loaded t m c library).engine = some engine
  kept : c.leftOut = false

variable {r t m c}

theorem pass_agree {r' : Runner}
    (library : (r.located t m c).library = (r'.located t m c).library)
    (engine : ∀ library, (r.located t m c).library = some library →
      (r.loaded t m c library).engine = (r'.loaded t m c library).engine)
    (answer : ∀ library allowed engine, r.Reaches t m c library allowed engine →
      (r.resolution (m.inside c.options.workspaceFolder allowed) engine c).answer =
        (r'.resolution (m.inside c.options.workspaceFolder allowed) engine c).answer) :
    Agree (r.located t m c).warnings (r'.located t m c).warnings (r.pass t m c) (r'.pass t m c) := by
  have silent := silent_of_lookups (r.located_events t m c)
  have silent' := silent_of_lookups (r'.located_events t m c)
  rw [pass_eq, pass_eq]
  simp only [← library]
  cases found : (r.located t m c).library with
  | none => exact agree_unlinted _ _ (installWarnings c) .libraryMissing silent silent'
  | some library =>
    cases permitted : c.permission? m library with
    | none =>
      simp only [permitted]
      exact agree_unlinted _ _ (· ++ [untrustedMessage library.modulePath]) .workspaceNotTrusted
        silent silent'
    | some allowed =>
      simp only [permitted]
      have agree := runWith_agree ⟨(r.located t m c).locator, r.resolver⟩
        ⟨(r'.located t m c).locator, r'.resolver⟩ c allowed (r.located t m c).warnings
        (r'.located t m c).warnings (engine library found) fun engine loaded kept =>
          answer library allowed engine ⟨found, permitted, loaded, kept⟩
      exact agree.after silent silent'

def IsWork (m : Machine) (c : PassCall) (allowed : Bool) : Event → Prop
  | .configured _ dir => dir = m.workingDirectory
  | .called _ => True
  | .linted request dir => dir = m.workingDirectory ∧ ∃ contents configuration path,
      request = c.options.request c.file contents configuration path
        (c.options.directory? c.source) allowed
  | _ => False

theorem configure_events (r : Runner) (m : Machine) (engine : Engine) (c : PassCall)
    (allowed : Bool) (w : List String) :
    ∀ e ∈ (r.configure m engine c.file c.source c.options allowed w).events, IsWork m c allowed e := by
  have resolving (resolution : Resolution) : ∀ e ∈ resolution.asked.map
      (Event.configured · m.workingDirectory) ++ resolution.calls.map Event.called,
      IsWork m c allowed e := by
    intro e member
    rcases List.mem_append.mp member with member | member
    · obtain ⟨_, _, rfl⟩ := List.mem_map.mp member
      exact rfl
    · obtain ⟨_, _, rfl⟩ := List.mem_map.mp member
      trivial
  unfold configure
  simp only
  split
  · exact resolving _
  · exact resolving _
  · split
    · exact resolving _
    · split
      · exact resolving _
      · split
        · exact resolving _
        · intro e member
          rcases List.mem_append.mp member with member | member
          · exact resolving _ e member
          · rcases List.mem_cons.mp member with rfl | member
            · exact ⟨rfl, _, _, _, rfl⟩
            · obtain ⟨_, _, rfl⟩ := List.mem_map.mp member
              trivial

theorem configure_leaves (r : Runner) (m : Machine) (engine : Engine) (c : PassCall)
    (allowed : Bool) (w : List String) :
    (r.configure m engine c.file c.source c.options allowed w).runner =
        { r with resolver := (r.resolution m engine c).resolver } ∧
      (r.configure m engine c.file c.source c.options allowed w).machine = m := by
  unfold configure
  simp only
  split
  · exact ⟨rfl, rfl⟩
  · exact ⟨rfl, rfl⟩
  · split
    · exact ⟨rfl, rfl⟩
    · split
      · exact ⟨rfl, rfl⟩
      · split <;> exact ⟨rfl, rfl⟩

theorem Reaches.report {r : Runner} {t : Toolchain} {m : Machine} {c : PassCall} {library : Library}
    {allowed : Bool} {engine : Engine} (reaches : r.Reaches t m c library allowed engine) :
    ∃ after, (allowed = false → after = m) ∧
      r.pass t m c =
        (PassReport.after
          { configure ⟨(r.loaded t m c library).locator, r.resolver⟩
              (m.inside c.options.workspaceFolder allowed) engine c.file c.source c.options allowed
              (r.located t m c).warnings with machine := after }
          (r.loaded t m c library).events).after (r.located t m c).events := by
  have loaded : ((r.located t m c).locator.load t m library.modulePath).engine = some engine :=
    reaches.loaded
  have pass := r.pass_eq t m c
  simp only [reaches.located, reaches.permitted, runWith_eq, loaded, reaches.kept,
    Bool.false_eq_true, if_false] at pass
  obtain ⟨after, asked, back⟩ := inWorkspace_eq m c.options.workspaceFolder allowed fun place =>
    configure ⟨((r.located t m c).locator.load t m library.modulePath).locator, r.resolver⟩ place
      engine c.file c.source c.options allowed (r.located t m c).warnings
  rw [asked] at pass
  exact ⟨after, fun denied => (back denied).trans (configure_leaves _ _ _ _ _ _).2, pass⟩

/-- How a pass goes, with the report that it gives: it ends before a configuration is asked for, or it
gets as far as that. -/
inductive Course (r : Runner) (t : Toolchain) (m : Machine) (c : PassCall) : PassReport → Prop
  | notFound (found : (r.located t m c).library = none) :
      Course r t m c
        ⟨.ok (.unlinted .libraryMissing (installWarnings c (r.located t m c).warnings)),
          ⟨(r.located t m c).locator, r.resolver⟩, m, (r.located t m c).events⟩
  | notTrusted {library : Library} (found : (r.located t m c).library = some library)
      (refused : c.permission? m library = none) :
      Course r t m c
        ⟨.ok (.unlinted .workspaceNotTrusted
            ((r.located t m c).warnings ++ [untrustedMessage library.modulePath])),
          ⟨(r.located t m c).locator, r.resolver⟩, m, (r.located t m c).events⟩
  | notLoaded {library : Library} {allowed : Bool}
      (found : (r.located t m c).library = some library)
      (permitted : c.permission? m library = some allowed)
      (unloaded : (r.loaded t m c library).engine = none) :
      Course r t m c
        ⟨.ok (.unlinted .libraryMissing (installWarnings c (r.located t m c).warnings)),
          ⟨(r.loaded t m c library).locator, r.resolver⟩, m,
          (r.located t m c).events ++ (r.loaded t m c library).events⟩
  | leftOut {library : Library} {allowed : Bool} {engine : Engine}
      (found : (r.located t m c).library = some library)
      (permitted : c.permission? m library = some allowed)
      (loaded : (r.loaded t m c library).engine = some engine) (out : c.leftOut = true) :
      Course r t m c
        ⟨.ok (.unlinted .excluded (r.located t m c).warnings),
          ⟨(r.loaded t m c library).locator, r.resolver⟩, m,
          (r.located t m c).events ++ (r.loaded t m c library).events⟩
  | reached {library : Library} {allowed : Bool} {engine : Engine}
      (reaches : r.Reaches t m c library allowed engine) : Course r t m c (r.pass t m c)

theorem pass_course (r : Runner) (t : Toolchain) (m : Machine) (c : PassCall) :
    Course r t m c (r.pass t m c) := by
  have pass := r.pass_eq t m c
  cases found : (r.located t m c).library with
  | none =>
    simp only [found] at pass
    rw [pass]
    exact .notFound found
  | some library =>
    cases permitted : c.permission? m library with
    | none =>
      simp only [found, permitted] at pass
      rw [pass]
      exact .notTrusted found permitted
    | some allowed =>
      simp only [found, permitted, runWith_eq] at pass
      cases loaded : ((r.located t m c).locator.load t m library.modulePath).engine with
      | none =>
        simp only [loaded] at pass
        rw [pass]
        exact .notLoaded found permitted loaded
      | some engine =>
        cases kept : c.leftOut with
        | false => exact .reached ⟨found, permitted, loaded, kept⟩
        | true =>
          simp only [loaded, kept, if_true] at pass
          rw [pass]
          exact .leftOut found permitted loaded kept

structure Worked (r : Runner) (t : Toolchain) (m : Machine) (c : PassCall) (library : Library)
    (allowed : Bool) (engine : Engine) : Prop where
  reaches : r.Reaches t m c library allowed engine
  runner : (r.pass t m c).runner = ⟨(r.loaded t m c library).locator,
    (r.resolution (m.inside c.options.workspaceFolder allowed) engine c).resolver⟩
  machine : allowed = false → (r.pass t m c).machine = m
  events : ∀ e ∈ (r.pass t m c).events, e ∈ (r.located t m c).events ∨ (∃ path, e = .loaded path) ∨
    IsWork (m.inside c.options.workspaceFolder allowed) c allowed e

structure Stopped (r : Runner) (t : Toolchain) (m : Machine) (c : PassCall) : Prop where
  locator : (r.pass t m c).runner.locator = (r.located t m c).locator ∨
    ∃ library, (r.located t m c).library = some library ∧
      (r.pass t m c).runner.locator = (r.loaded t m c library).locator
  resolver : (r.pass t m c).runner.resolver = r.resolver
  machine : (r.pass t m c).machine = m
  events : ∀ e ∈ (r.pass t m c).events, e ∈ (r.located t m c).events ∨ ∃ path, e = .loaded path

theorem Reaches.worked {r : Runner} {t : Toolchain} {m : Machine} {c : PassCall} {library : Library}
    {allowed : Bool} {engine : Engine} (reaches : r.Reaches t m c library allowed engine) :
    Worked r t m c library allowed engine := by
  obtain ⟨after, back, pass⟩ := reaches.report
  refine ⟨reaches, ?_, ?_, ?_⟩ <;> rw [pass]
  · exact (configure_leaves _ _ _ _ _ _).1
  · exact back
  · intro e member
    rcases List.mem_append.mp member with looked | later
    · exact Or.inl looked
    · rcases List.mem_append.mp later with load | asked
      · exact Or.inr (Or.inl ⟨_, Locator.load_events _ _ e load⟩)
      · exact Or.inr (Or.inr (configure_events _ _ engine c allowed _ e asked))

theorem pass_cases (r : Runner) (t : Toolchain) (m : Machine) (c : PassCall) :
    (∃ library allowed engine, Worked r t m c library allowed engine) ∨ Stopped r t m c := by
  have course := pass_course r t m c
  have before (library : Library) : ∀ e ∈ (r.located t m c).events ++ (r.loaded t m c library).events,
      e ∈ (r.located t m c).events ∨ ∃ path, e = .loaded path := fun e member =>
    (List.mem_append.mp member).imp_right fun member => ⟨_, Locator.load_events _ _ e member⟩
  generalize pass : r.pass t m c = report at course
  cases course with
  | notFound found =>
    refine Or.inr ⟨Or.inl ?_, ?_, ?_, ?_⟩ <;> rw [pass]
    exact fun _ => Or.inl
  | notTrusted found refused =>
    refine Or.inr ⟨Or.inl ?_, ?_, ?_, ?_⟩ <;> rw [pass]
    exact fun _ => Or.inl
  | notLoaded found permitted unloaded =>
    refine Or.inr ⟨Or.inr ⟨_, found, ?_⟩, ?_, ?_, ?_⟩ <;> rw [pass]
    exact before _
  | leftOut found permitted loaded out =>
    refine Or.inr ⟨Or.inr ⟨_, found, ?_⟩, ?_, ?_, ?_⟩ <;> rw [pass]
    exact before _
  | reached reaches => exact Or.inl ⟨_, _, _, reaches.worked⟩

end Runner
end LintBridge
