import LintBridge.Proofs.Pass.History
/-!
Passes without permission. When code of the workspace must not run, the path of the engine, the rule
directories and the place of the host make no difference, and nothing of the workspace is used.
-/
namespace LintBridge

/-- A pass with other settings of the kind that names code of the workspace. -/
def PassCall.resettled (c : PassCall) (nodePath : Option Path) (rulesDirectory : List String)
    (host : Option Path) : PassCall :=
  { c with options := { c.options with
      nodePath := nodePath
      rulesDirectory := rulesDirectory
      hostInstallRoot := host } }

structure Confined (t : Toolchain) (m : Machine) (manager : PackageManager) (report : PassReport) :
    Prop where
  resolved : ∀ search dir, .resolved search dir ∈ report.events →
    (t.globalRoot m manager).1 = some dir ∧ search = some dir
  machine : report.machine = m
  configured : ∀ question dir, .configured question dir ∈ report.events → dir = m.workingDirectory
  linted : ∀ request dir, .linted request dir ∈ report.events → dir = m.workingDirectory ∧
    request.rulesDirectory = [] ∧ request.configuration.rulesDirectory = none

open PassReport

namespace Runner

variable {r : Runner} {t : Toolchain} {m : Machine} {c : PassCall}

theorem permission?_disallow (disallowed : c.trust m = .disallow) (library : Library) :
    c.permission? m library = some false := by
  simp [PassCall.permission?, permission?, disallowed]

theorem search_disallow (disallowed : c.trust m = .disallow) :
    (c.search m).options.allowWorkspace = false := by
  simp [PassCall.search, PassOptions.locateOptions, disallowed]

theorem pass_disallow (r : Runner) (t : Toolchain) (disallowed : c.trust m = .disallow) :
    (r.pass t m c).machine = m ∧
      ∀ e ∈ (r.pass t m c).events, e ∈ (r.located t m c).events ∨ (∃ path, e = .loaded path) ∨
        IsWork m c false e := by
  rcases pass_cases r t m c with ⟨library, allowed, engine, worked⟩ | stopped
  · obtain rfl : allowed = false := by
      simpa [permission?_disallow disallowed] using worked.reaches.permitted.symm
    exact ⟨worked.machine rfl, worked.events⟩
  · exact ⟨stopped.machine, fun e member => (stopped.events e member).imp_right Or.inl⟩

theorem located_disallow_warnings (r : Runner) (t : Toolchain) (disallowed : c.trust m = .disallow) :
    (r.located t m c).warnings = [] :=
  Locator.locate_global_warnings (s := c.search m) (search_disallow disallowed)

theorem located_loads (r : Runner) (t : Toolchain) (m : Machine) (c : PassCall) :
    (r.located t m c).locator.loads = r.locator.loads :=
  Locator.locate_loads r.locator (c.search m)

section Steps

variable {asked : Machine → Search → Prop} (faithful : Locator.Faithful t asked r.locator)
  (unchanging : ∀ m' s, asked m' s → m' = m) (disallowed : c.trust m = .disallow)
include faithful unchanging disallowed

theorem located_disallow (asks : asked m (c.search m)) :
    (r.located t m c).library =
      Search.foundGlobal t m (t.globalRoot m c.options.packageManager).1 none :=
  Locator.locate_global (s := c.search m) (search_disallow disallowed) faithful asks unchanging

theorem confined_of_disallow (asks : asked m (c.search m)) :
    Confined t m c.options.packageManager (r.pass t m c) := by
  have global {search : Option Path} {dir : Path}
      (resolved : .resolved search dir ∈ (r.located t m c).events) :=
    Locator.locate_global_resolved (s := c.search m) (search_disallow disallowed) faithful asks
      unchanging resolved
  have lookups := located_events r t m c
  obtain ⟨machine, events⟩ := pass_disallow r t disallowed
  refine ⟨fun search dir member => ?_, machine, fun question dir member => ?_,
    fun request dir member => ?_⟩
  · rcases events _ member with located | ⟨path, loaded⟩ | work
    · exact global located
    · cases loaded
    · exact work.elim
  · rcases events _ member with located | ⟨path, loaded⟩ | work
    · exact (lookups _ located).elim
    · cases loaded
    · exact work
  · rcases events _ member with located | ⟨path, loaded⟩ | work
    · exact (lookups _ located).elim
    · cases loaded
    · obtain ⟨place, contents, configuration, path, rfl⟩ := work
      exact ⟨place, rfl, rfl⟩

/-- Two passes without permission that differ in such settings find the same engine, and from there
on they are one pass. -/
theorem resettled_agree (nodePath : Option Path) (rulesDirectory : List String) (host : Option Path)
    (asks : asked m (c.search m))
    (asks' : asked m ((c.resettled nodePath rulesDirectory host).search m)) :
    Agree [] [] (r.pass t m c) (r.pass t m (c.resettled nodePath rulesDirectory host)) := by
  generalize other_eq : c.resettled nodePath rulesDirectory host = other at asks' ⊢
  have disallowed' : other.trust m = .disallow := by
    subst other_eq
    exact disallowed
  have manager : other.options.packageManager = c.options.packageManager := by
    subst other_eq
    rfl
  have library : (r.located t m other).library = (r.located t m c).library := by
    rw [located_disallow faithful unchanging disallowed asks,
      located_disallow faithful unchanging disallowed' asks', manager]
  have silent := silent_of_lookups (located_events r t m c)
  have silent' := silent_of_lookups (located_events r t m other)
  rw [pass_eq, pass_eq]
  simp only [library, located_disallow_warnings r t disallowed, located_disallow_warnings r t disallowed']
  cases found : (r.located t m c).library with
  | none =>
    have install : installWarnings other = installWarnings c := by
      subst other_eq
      rfl
    simp only [install]
    exact agree_unlinted [] [] (installWarnings c) .libraryMissing silent silent'
  | some library =>
    simp only [permission?_disallow disallowed, permission?_disallow disallowed']
    have engine : ((r.located t m c).locator.load t m library.modulePath).engine =
        ((r.located t m other).locator.load t m library.modulePath).engine :=
      Locator.load_engine_of_loads
        ((located_loads r t m c).trans (located_loads r t m other).symm) _
    have agree := runWith_agree ⟨(r.located t m c).locator, r.resolver⟩
      ⟨(r.located t m other).locator, r.resolver⟩ c false [] [] engine fun _ _ _ => rfl
    refine Agree.after ?_ silent silent'
    subst other_eq
    exact agree

end Steps

/-- Without permission, settings that name code of the workspace make no difference, and nothing of
the workspace is used. -/
theorem disallowed_noninterference {t : Toolchain} {m : Machine} {history : List Act}
    (unchanging : ∀ act ∈ history, act.On m) {c : PassCall} (disallowed : c.trust m = .disallow)
    (nodePath : Option Path) (rulesDirectory : List String) (host : Option Path) :
    let report := (after t history).pass t m c
    let report' := (after t history).pass t m (c.resettled nodePath rulesDirectory host)
    report.result = report'.result ∧ report.requests = report'.requests ∧
      Confined t m c.options.packageManager report ∧
      Confined t m c.options.packageManager report' := by
  let asked (m' : Machine) (_ : Search) := m' = m
  have faithful : Locator.Faithful t asked (after t history).locator :=
    (after_faithful t history).mono (asked_unchanging unchanging)
  have same (m' : Machine) (s : Search) (asks : asked m' s) : m' = m := asks
  have agree := resettled_agree faithful same disallowed nodePath rulesDirectory host rfl rfl
  exact ⟨agree.result rfl, agree.requests, confined_of_disallow faithful same disallowed rfl,
    confined_of_disallow (c := c.resettled nodePath rulesDirectory host) faithful same disallowed rfl⟩

theorem disallowed_noninterference_simple :
    let c := PassCall.simple .disallow none none
    let history : List Act := [.pass .simple (.simple .allow (some ⟨"/w"⟩) none), .configChange]
    (∀ act ∈ history, act.On .simple) ∧ c.trust .simple = .disallow ∧
      let report := (after .simple history).pass .simple .simple c
      let report' := (after .simple history).pass .simple .simple (c.resettled (some ⟨"/w"⟩) ["r"] none)
      report.requests.map (·.1.configPath) = [some ⟨"/lib/node_modules/tslint/tslint.json"⟩] ∧
        report.result = report'.result ∧ report.requests = report'.requests ∧
        Confined .simple .simple .npm report ∧ Confined .simple .simple .npm report' := by
  intro c history
  have unchanging : ∀ act ∈ history, act.On .simple := by simp [history, Act.On]
  have disallowed : c.trust .simple = .disallow := by decide
  exact ⟨unchanging, disallowed, by decide,
    disallowed_noninterference unchanging disallowed (some ⟨"/w"⟩) ["r"] none⟩

end Runner
end LintBridge
