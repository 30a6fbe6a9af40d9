import LintBridge.Proofs.Pass.Cache
import LintBridge.Proofs.Service.Diagnostics
/-!
Which configuration files are watched. A request has the file watched that its pass says, and only a
pass that lints says one; but every pass that comes to know its configuration remembers it. So a
configuration is remembered whose file is not watched exactly when a pass that does not lint comes to
know it first (`cacheWatched_iff`).
-/
namespace LintBridge.Plugin

def passCall (p : Plugin) (c : DiagnosticsCall) : PassCall :=
  ⟨⟨c.file⟩, .program (program c.project),
    p.settings.passOptions (some c.project.directory) c.project.installRoot⟩

theorem report_eq (p : Plugin) (c : DiagnosticsCall) :
    p.report c = p.runner.pass c.toolchain c.machine (p.passCall c) :=
  rfl

def runs (p : Plugin) (c : DiagnosticsCall) : Bool :=
  !isInMemory c.file && !p.suppresses c.hostReported && !p.ignores c.file

def ending (p : Plugin) (c : DiagnosticsCall) : PassEnd :=
  PassEnd.ofPass p.runner c.toolchain c.machine (p.passCall c)

def resolvedPath? (p : Plugin) (c : DiagnosticsCall) : Option Path :=
  (p.runner.resolved? c.toolchain c.machine (p.passCall c)).bind (·.path)

/-! ### Watches -/

def watchConfig (p : Plugin) : Option Path → Plugin × List Watch
  | some path => p.ensureWatching ⟨path, .lintConfig⟩
  | none => (p, [])

theorem isWatching_ensureWatching (p : Plugin) (w : Watch) (path : Path) :
    (p.ensureWatching w).1.isWatching path = (p.isWatching path || w.path.same path) := by
  unfold ensureWatching
  split
  · rename_i watching
    -- A file that is watched already is watched under each of its spellings.
    cases same : w.path.same path with
    | false => simp
    | true =>
      simp only [isWatching, List.any_eq_true, Path.same_iff, Bool.or_true] at watching same ⊢
      rwa [same] at watching
  · simp [isWatching]

theorem watched_ensureWatching {p : Plugin} {w : Watch} {path : Path}
    (member : path ∈ (p.ensureWatching w).1.watched) :
    path ∈ p.watched ∨ w ∈ (p.ensureWatching w).2 ∧ w.path = path := by
  unfold ensureWatching at member ⊢
  split at member
  · exact Or.inl member
  · rename_i unwatched
    rw [if_neg unwatched]
    rcases List.mem_append.mp member with before | new
    · exact Or.inl before
    · exact Or.inr ⟨List.mem_singleton_self _, (List.mem_singleton.mp new).symm⟩

theorem record_watches (p : Plugin) (file : String) (result : PassResult) :
    (p.record file result).1.watched = (p.watchConfig result.configPath).1.watched ∧
      (p.record file result).2 = (p.watchConfig result.configPath).2 := by
  unfold record watchConfig
  cases result.configPath <;> exact ⟨rfl, rfl⟩

theorem watchConfig_forget (p : Plugin) (file : String) (runner : Runner) (path : Option Path) :
    (watchConfig { p.forget file with runner := runner } path).1.watched =
        (p.watchConfig path).1.watched ∧
      (watchConfig { p.forget file with runner := runner } path).2 = (p.watchConfig path).2 := by
  cases path with
  | none => exact ⟨rfl, rfl⟩
  | some path =>
    have same : isWatching { p.forget file with runner := runner } path = p.isWatching path := rfl
    simp only [watchConfig, ensureWatching, same]
    cases p.isWatching path <;> exact ⟨rfl, rfl⟩

theorem diagnosticsFor_of_runs {p : Plugin} {c : DiagnosticsCall} (runs : p.runs c = true) :
    let said := if p.ending c = .linted then p.resolvedPath? c else none
    (p.diagnosticsFor c).plugin.runner = (p.report c).runner ∧
      (p.diagnosticsFor c).plugin.watched = (p.watchConfig said).1.watched ∧
      (p.diagnosticsFor c).registered = (p.watchConfig said).2 := by
  intro said
  have said_eq : (p.report c).result.toOption.bind (·.configPath) = said :=
    Runner.pass_configPath p.runner c.toolchain c.machine (p.passCall c)
  obtain ⟨⟨real, heard⟩, kept⟩ : (isInMemory c.file = false ∧ p.suppresses c.hostReported = false) ∧
      p.ignores c.file = false := by simpa [Plugin.runs] using runs
  simp only [diagnosticsFor_eq, lintDiagnostics_eq, lint_eq, real, heard, kept, Bool.false_eq_true,
    if_false]
  cases passed : (p.report c).result with
  | error e =>
    rw [passed] at said_eq
    rw [← said_eq]
    exact ⟨rfl, rfl, rfl⟩
  | ok result =>
    rw [passed] at said_eq
    have path_eq : result.configPath = said := said_eq
    obtain ⟨watched, registered⟩ :=
      record_watches { p.forget c.file with runner := (p.report c).runner } c.file result
    obtain ⟨watched', registered'⟩ :=
      p.watchConfig_forget c.file (p.report c).runner result.configPath
    refine ⟨(record_leaves _ _ _).2.2, ?_, ?_⟩
    · rw [← path_eq]
      exact watched.trans watched'
    · rw [← path_eq]
      exact registered.trans registered'

theorem diagnosticsFor_of_not_runs {p : Plugin} {c : DiagnosticsCall} (rests : p.runs c = false) :
    (p.diagnosticsFor c).plugin.runner = p.runner ∧
      (p.diagnosticsFor c).plugin.watched = p.watched ∧ (p.diagnosticsFor c).registered = [] := by
  rw [diagnosticsFor_eq, lintDiagnostics_eq]
  cases memory : isInMemory c.file with
  | true => exact ⟨rfl, rfl, rfl⟩
  | false =>
    cases suppressed : p.suppresses c.hostReported with
    | true => exact ⟨rfl, rfl, rfl⟩
    | false =>
      have ignored : p.ignores c.file = true := by simpa [runs, memory, suppressed] using rests
      simp only [ignored, if_true]
      exact ⟨rfl, rfl, rfl⟩

/-! ### What is remembered and what is watched -/

def CacheWatched (p : Plugin) : Prop :=
  ∀ file resolved path, p.runner.resolver.cache = some (file, resolved) →
    resolved.path = some path → p.isWatching path = true

/-- The pass of a request comes to know a configuration whose file is not watched, and does not
lint. -/
structure Slips (p : Plugin) (c : DiagnosticsCall) : Prop where
  runs : p.runs c = true
  resolves : (p.ending c).resolves = true
  unlinted : p.ending c ≠ .linted
  unwatched : ∃ path, p.resolvedPath? c = some path ∧ p.isWatching path = false

theorem CacheWatched.mono {p left : Plugin} (watched : p.CacheWatched)
    (cache : left.runner.resolver.cache = p.runner.resolver.cache ∨
      left.runner.resolver.cache = none)
    (more : ∀ path, p.isWatching path = true → left.isWatching path = true) :
    left.CacheWatched := by
  intro file resolved path held path_eq
  rcases cache with same | none
  · exact more path (watched file resolved path (same ▸ held) path_eq)
  · rw [none] at held
    contradiction

theorem cacheWatched_iff_of_cache {p : Plugin} {file : Path} {resolved : ResolvedConfiguration}
    (held : p.runner.resolver.cache = some (file, resolved)) :
    p.CacheWatched ↔ ∀ path, resolved.path = some path → p.isWatching path = true := by
  refine ⟨fun all path => all file resolved path held, fun all file' resolved' path held' => ?_⟩
  obtain ⟨-, rfl⟩ := Prod.mk.inj (Option.some.inj (held.symm.trans held'))
  exact all path

theorem isWatching_of_runs {p : Plugin} {c : DiagnosticsCall} (runs : p.runs c = true)
    (path : Path) :
    (p.act (.diagnose c)).isWatching path = (p.isWatching path ||
      (if p.ending c = .linted then p.resolvedPath? c else none).any (·.same path)) := by
  obtain ⟨-, watched, -⟩ := diagnosticsFor_of_runs runs
  rw [isWatching, act, watched]
  cases if p.ending c = .linted then p.resolvedPath? c else none with
  | none => exact (Bool.or_false _).symm
  | some said => exact p.isWatching_ensureWatching _ path

theorem runs_cacheWatched_iff {p : Plugin} {c : DiagnosticsCall} (runs : p.runs c = true)
    (resolves : (p.ending c).resolves = true) :
    (p.act (.diagnose c)).CacheWatched ↔ ¬ p.Slips c := by
  obtain ⟨file, resolved, -, resolved_eq, held⟩ := Runner.pass_cache_of_resolves resolves
  rw [← report_eq, ← (diagnosticsFor_of_runs runs).1] at held
  have path_eq : p.resolvedPath? c = resolved.path := by rw [resolvedPath?, resolved_eq]; rfl
  have left_iff := cacheWatched_iff_of_cache (p := p.act (.diagnose c)) held
  rw [left_iff, ← path_eq]
  -- A pass that lints has the file watched, and any other has nothing watched.
  by_cases linted : p.ending c = .linted
  · refine iff_of_true (fun path found => ?_) fun slips => slips.unlinted linted
    rw [isWatching_of_runs runs, if_pos linted, found, Option.any_some, Path.same_refl, Bool.or_true]
  · simp only [isWatching_of_runs runs, if_neg linted, Option.any_none, Bool.or_false]
    refine ⟨fun all slips => ?_, fun keeps path found => ?_⟩
    · obtain ⟨path, found, unwatched⟩ := slips.unwatched
      rw [all path found] at unwatched
      contradiction
    · by_contra unwatched
      exact keeps ⟨runs, resolves, linted, path, found, by simpa using unwatched⟩

theorem diagnose_cacheWatched_iff {p : Plugin} (watched : p.CacheWatched) (c : DiagnosticsCall) :
    (p.act (.diagnose c)).CacheWatched ↔ ¬ p.Slips c := by
  cases runs : p.runs c with
  | false =>
    obtain ⟨runner, same, -⟩ := diagnosticsFor_of_not_runs runs
    refine iff_of_true (watched.mono (Or.inl (by rw [act, runner])) fun path => ?_) fun slips => ?_
    · rw [isWatching, isWatching, act, same]
      exact id
    · rw [slips.runs] at runs
      contradiction
  | true =>
    cases resolves : (p.ending c).resolves with
    | true => exact runs_cacheWatched_iff runs resolves
    | false =>
      have cache := Runner.pass_cache_of_not_resolves resolves
      rw [← report_eq, ← (diagnosticsFor_of_runs runs).1] at cache
      refine iff_of_true (watched.mono cache fun path watching => ?_) fun slips => ?_
      · rw [isWatching_of_runs runs, watching, Bool.true_or]
      · rw [slips.resolves] at resolves
        contradiction

/-- No act but a request that slips, or an end of all watches, leaves the file of what is remembered
without its watch. -/
theorem act_cacheWatched {p : Plugin} (watched : p.CacheWatched) {a : Act}
    (request : ∀ c, a = .diagnose c → ¬ p.Slips c) (kept : a ≠ .dispose) :
    (p.act a).CacheWatched := by
  rcases act_cases p a with
    ⟨c, rfl⟩ | disposed | ⟨settings, left⟩ | left | ⟨project, path, -, -, left⟩
  · exact (diagnose_cacheWatched_iff watched c).mpr (request c rfl)
  · contradiction
  · rw [left]
    exact watched
  · rw [left]
    exact watched.mono (Or.inr rfl) fun _ => id
  · rw [left]
    refine watched.mono (Or.inl (congrArg (·.resolver.cache) (ensureWatching_leaves p _).2.2)) ?_
    intro path watching
    rw [isWatching_ensureWatching, watching, Bool.true_or]

/-! ### What the host is asked to watch -/

def registers (p : Plugin) : Act → List Watch
  | .diagnose c => (p.diagnosticsFor c).registered
  | .watchProject project => (p.watchProject project).2
  | _ => []

def registrations (p : Plugin) : List Act → List Watch
  | [] => []
  | a :: rest => p.registers a ++ (p.act a).registrations rest

def IsMeant (history : List Act) (w : Watch) : Prop :=
  w.kind = .lintConfig ∨
    ∃ project, .watchProject project ∈ history ∧ project.configPath = some w.path

theorem IsMeant.mono {history later : List Act} {w : Watch} (meant : IsMeant history w)
    (longer : history ⊆ later) : IsMeant later w :=
  meant.imp_right fun ⟨project, member, path⟩ => ⟨project, longer member, path⟩

theorem act_watched {p : Plugin} {a : Act} {path : Path} (member : path ∈ (p.act a).watched) :
    path ∈ p.watched ∨ ∃ w ∈ p.registers a, w.path = path ∧ IsMeant [a] w := by
  rcases act_cases p a with
    ⟨c, rfl⟩ | rfl | ⟨settings, left⟩ | left | ⟨project, config, rfl, found, left⟩
  · cases runs : p.runs c with
    | false =>
      rw [act, (diagnosticsFor_of_not_runs runs).2.1] at member
      exact Or.inl member
    | true =>
      obtain ⟨-, watched, registered⟩ := diagnosticsFor_of_runs runs
      rw [act, watched] at member
      simp only [registers, registered]
      cases said : if p.ending c = .linted then p.resolvedPath? c else none with
      | none =>
        rw [said] at member
        exact Or.inl member
      | some config =>
        rw [said] at member
        rcases watched_ensureWatching member with before | ⟨new, path_eq⟩
        · exact Or.inl before
        · exact Or.inr ⟨_, new, path_eq, Or.inl rfl⟩
  · contradiction
  · rw [left] at member
    exact Or.inl member
  · rw [left] at member
    exact Or.inl member
  · rw [left] at member
    simp only [registers, Plugin.watchProject, found]
    rcases watched_ensureWatching member with before | ⟨new, path_eq⟩
    · exact Or.inl before
    · exact Or.inr ⟨_, new, path_eq, Or.inr ⟨project, List.mem_singleton_self _, found⟩⟩

theorem after_watched {p : Plugin} {history : List Act} {path : Path}
    (member : path ∈ (p.after history).watched) :
    path ∈ p.watched ∨ ∃ w ∈ p.registrations history, w.path = path ∧ IsMeant history w := by
  induction history generalizing p with
  | nil => exact Or.inl member
  | cons a rest ih =>
    rcases ih member with before | ⟨w, later, path_eq, meant⟩
    · rcases act_watched before with earlier | ⟨w, now, path_eq, meant⟩
      · exact Or.inl earlier
      · exact Or.inr ⟨w, List.mem_append_left _ now, path_eq, meant.mono (by simp)⟩
    · exact Or.inr ⟨w, List.mem_append_right _ later, path_eq, meant.mono (by simp)⟩

/-! ### Histories -/

theorem after_cacheWatched {settings : Settings} {history : List Act} (kept : .dispose ∉ history)
    (keeps : ∀ before c later, history = before ++ .diagnose c :: later →
      ¬ ((new settings).after before).Slips c) : ((new settings).after history).CacheWatched := by
  induction history using List.reverseRecOn with
  | nil =>
    intro file resolved path held
    contradiction
  | append_singleton history a ih =>
    simp only [List.mem_append, List.mem_singleton, not_or] at kept
    have watched := ih kept.1 fun before c later splits =>
      keeps before c (later ++ [a]) (by rw [splits, List.append_assoc, List.cons_append])
    rw [after_append]
    refine act_cacheWatched watched (fun c request => ?_) (Ne.symm kept.2)
    exact keeps history c [] (by rw [request])

/-- While no watches are given up, the file of what is remembered is watched throughout if and only if
no request slips. The host was asked for each watch, and told that the file has changed the plugin
forgets what is remembered, unless the watch is for a project configuration. -/
theorem cacheWatched_iff {settings : Settings} {history : List Act} (kept : .dispose ∉ history) :
    ((∀ before, before <+: history → ((new settings).after before).CacheWatched) ↔
        ∀ before c later, history = before ++ .diagnose c :: later →
          ¬ ((new settings).after before).Slips c) ∧
      ∀ path, ((new settings).after history).isWatching path = true →
        ∃ w ∈ (new settings).registrations history, w.path.same path = true ∧
          ((∃ project, .watchProject project ∈ history ∧ project.configPath = some w.path) ∨
            ∀ project m, (((new settings).after history).act
              (.watchEvent project m w.kind w.path .changed)).runner.resolver.cache = none) := by
  refine ⟨⟨fun all before c later splits => ?_, fun keeps before whole => ?_⟩,
    fun path watching => ?_⟩
  · have now := all before ⟨_, splits.symm⟩
    have next := all (before ++ [.diagnose c]) ⟨later, by rw [splits, List.append_assoc]; rfl⟩
    rw [after_append] at next
    exact (diagnose_cacheWatched_iff now c).mp next
  · obtain ⟨rest, rfl⟩ := whole
    refine after_cacheWatched (fun gone => kept (List.mem_append_left _ gone)) ?_
    intro before c later splits
    exact keeps before c (later ++ rest) (by rw [splits, List.append_assoc, List.cons_append])
  · obtain ⟨watched, member, same⟩ := List.any_eq_true.mp watching
    rcases after_watched member with before | ⟨w, registered, rfl, lint | project⟩
    · contradiction
    · refine ⟨w, registered, same, Or.inr fun project m => ?_⟩
      rw [lint]
      rfl
    · exact ⟨w, registered, same, Or.inl project⟩

def scriptCall : DiagnosticsCall := { simpleCall [] with file := "/w/a.js" }

def trusting : Settings := { Settings.standard with allowWorkspaceLibraryExecution := .allow }

theorem cacheWatched_iff_linting :
    let history : List Act := [.diagnose (simpleCall [])]
    .dispose ∉ history ∧
      ∀ before, before <+: history → ((new trusting).after before).CacheWatched := by
  intro history
  have kept : .dispose ∉ history := by simp [history]
  refine ⟨kept, (cacheWatched_iff kept).1.mpr ?_⟩
  intro before c later splits slips
  obtain ⟨rfl, request, -⟩ : before = [] ∧ c = simpleCall [] ∧ later = [] := by
    cases before with
    | nil =>
      simp only [history, List.nil_append, List.cons.injEq, Act.diagnose.injEq] at splits
      exact ⟨rfl, splits.1.symm, splits.2.symm⟩
    | cons first rest => simp [history] at splits
  rw [request] at slips
  have linted : (new trusting).ending (simpleCall []) = .linted := by decide +kernel
  exact slips.unlinted linted

/-- The configuration of a script is remembered, and the host is not asked to watch its file. -/
theorem cache_unwatched :
    let p := (new trusting).after [.diagnose scriptCall]
    (p.runner.resolver.cache.bind (·.2.path)) = some ⟨"/w/node_modules/tslint/default.json"⟩ ∧
      p.isWatching ⟨"/w/node_modules/tslint/default.json"⟩ = false ∧
      (new trusting).registrations [.diagnose scriptCall] = [] := by
  decide +kernel

end LintBridge.Plugin
