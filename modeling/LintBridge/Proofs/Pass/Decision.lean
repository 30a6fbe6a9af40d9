import LintBridge.Proofs.Pass.History
/-!
How a pass is decided. What a pass comes to know (its library, its engine, the answer about its
configuration, the request and the reply) is named here without regard to how far the pass gets. Then
each way to end has a condition of its own (`PassEnd.applies`), and a pass ends in the first way of the
order whose condition holds (`pass_decided`).
-/
namespace LintBridge
open PassReport

def PassReport.outcome? (report : PassReport) : Option PassOutcome :=
  report.result.toOption.map (·.outcome)

namespace Runner

variable (r : Runner) (t : Toolchain) (m : Machine) (c : PassCall)

def library? : Option Library := (r.located t m c).library

def engine? : Option Engine := (r.library? t m c).bind fun library => (r.loaded t m c library).engine

def allowed : Bool := ((r.library? t m c).bind (c.permission? m)).getD false

def place : Machine := m.inside c.options.workspaceFolder (r.allowed t m c)

def answer? : Option (Except LintError ResolvedConfiguration) :=
  (r.engine? t m c).map fun engine => (r.resolution (r.place t m c) engine c).answer

def resolved? : Option ResolvedConfiguration := (r.answer? t m c).bind Except.toOption

def configuration? : Option Configuration := (r.resolved? t m c).bind (·.configuration)

def request? : Option LintRequest :=
  (r.resolved? t m c).bind fun resolved =>
    resolved.configuration.bind fun configuration =>
      (c.source.contents? c.file).map fun contents =>
        c.options.request c.file contents configuration resolved.path
          (c.options.directory? c.source) (r.allowed t m c)

def reply? : Option LintReply :=
  (r.engine? t m c).bind fun engine => (r.request? t m c).map (engine.lint (r.place t m c))

end Runner

inductive PassEnd where
  | notFound
  | notTrusted
  | notLoaded
  | leftOut
  | notReadable
  | notResolved
  | notConfigured
  | javaScript
  | byDefault
  | optedOut
  | textMissing
  | crashed
  | linted
deriving DecidableEq

namespace PassEnd

def order : List PassEnd :=
  [notFound, notTrusted, notLoaded, leftOut, notReadable, notResolved, notConfigured, javaScript,
    byDefault, optedOut, textMissing, crashed, linted]

section

variable (r : Runner) (t : Toolchain) (m : Machine) (c : PassCall)

/-- When a pass ends in a way, unless it has ended before. -/
def applies : PassEnd → Bool
  | notFound => (r.library? t m c).isNone
  | notTrusted => c.trust m = .unknown && (r.library? t m c).any fun library =>
      library.source = .workspace &&
        !isImplicitlyTrusted library.modulePath c.options.hostInstallRoot
  | notLoaded => (r.engine? t m c).isNone
  | leftOut => (c.options.ignoreDefinitionFiles && c.file.isDefinitionFile) ||
      isExcluded c.options.exclude c.file (c.options.directory? c.source)
  | notReadable => (r.answer? t m c).any fun
      | .error (.configRead _) => true
      | _ => false
  | notResolved => (r.answer? t m c).any (!·.toBool)
  | notConfigured => (r.configuration? t m c).isNone
  | javaScript => c.file.isJsFile && !c.options.jsEnable
  | byDefault => c.options.validateWithDefaultConfig = some false &&
      (r.resolved? t m c).any (·.isDefault)
  | optedOut => (r.resolved? t m c).any fun resolved => resolved.configuration.any fun configuration =>
      isExcluded configuration.excludedPatterns c.file (resolved.path.bind Path.parent?)
  | textMissing => (c.source.contents? c.file).isNone
  | crashed => (r.reply? t m c).any (!·.result.toBool)
  | linted => true

/-- How a pass ends: in the first way of the order that applies. -/
def ofPass : PassEnd := (order.find? (·.applies r t m c)).getD linted

theorem find?_eq_some_iff_takeWhile {α : Type} [DecidableEq α] {p : α → Bool} {xs : List α} {x : α}
    (member : x ∈ xs) :
    xs.find? p = some x ↔ p x = true ∧ ∀ y ∈ xs.takeWhile (· ≠ x), p y = false := by
  induction xs with
  | nil => contradiction
  | cons y ys ih =>
    by_cases here : y = x
    · subst here
      cases first : p y with
      | true => simp [first]
      | false =>
        simp only [List.find?_cons, first, Bool.false_eq_true, false_and, iff_false]
        intro found
        simp [List.find?_some found] at first
    · have later := ih (List.mem_of_ne_of_mem (Ne.symm here) member)
      cases first : p y with
      | true => simp [first, here]
      | false => simp [first, here, later]

theorem ofPass_eq_iff {ending : PassEnd} : ofPass r t m c = ending ↔
    ending.applies r t m c = true ∧
      ∀ earlier ∈ order.takeWhile (· ≠ ending), earlier.applies r t m c = false := by
  have member : ending ∈ order := by cases ending <;> decide
  have found : order.find? (·.applies r t m c) = some (ofPass r t m c) := by
    unfold ofPass
    cases first : order.find? (·.applies r t m c) with
    | some ending => rfl
    | none =>
      have last := List.find?_eq_none.mp first linted (by decide)
      simp [applies] at last
  rw [← find?_eq_some_iff_takeWhile member, found, Option.some_inj]

def Gives : PassEnd → Except LintError PassResult → Prop
  | notFound, result | notLoaded, result =>
    result = .ok (.unlinted .libraryMissing (Runner.installWarnings c (r.located t m c).warnings))
  | notTrusted, result => ∃ library, r.library? t m c = some library ∧
      result = .ok (.unlinted .workspaceNotTrusted
        ((r.located t m c).warnings ++ [untrustedMessage library.modulePath]))
  | leftOut, result => result = .ok (.unlinted .excluded (r.located t m c).warnings)
  | notReadable, result => ∃ reason, r.answer? t m c = some (.error (.configRead reason)) ∧
      result = .ok (.unlinted .configError
        ((r.located t m c).warnings ++ [(LintError.configRead reason).message]))
  | notResolved, result => ∃ e, r.answer? t m c = some (.error e) ∧ result = .error e
  | notConfigured, result => result = .ok (.unlinted .configMissing (r.located t m c).warnings)
  | javaScript, result => result = .ok (.unlinted .jsDisabled (r.located t m c).warnings)
  | byDefault, result => result = .ok (.unlinted .defaultConfigDisabled (r.located t m c).warnings)
  | optedOut, result => result = .ok (.unlinted .linterOptionsExcluded (r.located t m c).warnings)
  | textMissing, result =>
    result = .error (.engineCrash (c.file.text ++ " is not part of the program"))
  | crashed, result => ∃ reply e, r.reply? t m c = some reply ∧ reply.result = .error e ∧
      result = .error e
  | linted, result => ∃ resolved reply output, r.resolved? t m c = some resolved ∧
      r.reply? t m c = some reply ∧ reply.result = .ok output ∧
      result = .ok ⟨.linted, output, (r.located t m c).warnings ++ reply.warnings,
        c.options.workspaceFolder, resolved.path⟩

end

def asksToLint : PassEnd → Bool
  | crashed | linted => true
  | _ => false

def outcome? : PassEnd → Option PassOutcome
  | notFound | notLoaded => some .libraryMissing
  | notTrusted => some .workspaceNotTrusted
  | leftOut => some .excluded
  | notReadable => some .configError
  | notConfigured => some .configMissing
  | javaScript => some .jsDisabled
  | byDefault => some .defaultConfigDisabled
  | optedOut => some .linterOptionsExcluded
  | notResolved | textMissing | crashed => none
  | linted => some .linted

def asksForConfiguration : PassEnd → Bool
  | notFound | notTrusted | notLoaded | leftOut => false
  | _ => true

end PassEnd

namespace Runner
open PassEnd

variable {r : Runner} {t : Toolchain} {m : Machine} {c : PassCall}

theorem permission?_eq_none_iff {library : Library} : c.permission? m library = none ↔
    c.trust m = .unknown ∧ library.source = .workspace ∧
      isImplicitlyTrusted library.modulePath c.options.hostInstallRoot = false := by
  unfold PassCall.permission? permission?
  cases c.trust m with
  | allow => simp
  | disallow => simp
  | unknown =>
    by_cases workspace : library.source = .workspace
    · cases isImplicitlyTrusted library.modulePath c.options.hostInstallRoot <;> simp [workspace]
    · simp [workspace]

theorem notTrusted_applies_iff {library : Library} (found : r.library? t m c = some library) :
    notTrusted.applies r t m c = true ↔ c.permission? m library = none := by
  rw [permission?_eq_none_iff]
  simp [applies, found]

theorem notTrusted_of_permitted {library : Library} {allowed : Bool}
    (found : r.library? t m c = some library) (permitted : c.permission? m library = some allowed) :
    notTrusted.applies r t m c = false := by
  rw [Bool.eq_false_iff, ne_eq, notTrusted_applies_iff found, permitted]
  simp

theorem Reaches.knows {library : Library} {allowed : Bool} {engine : Engine}
    (reaches : r.Reaches t m c library allowed engine) :
    r.engine? t m c = some engine ∧ r.allowed t m c = allowed ∧
      r.answer? t m c = some (r.resolution (r.place t m c) engine c).answer := by
  have found : r.library? t m c = some library := reaches.located
  have engine_eq : r.engine? t m c = some engine := by
    simp [engine?, found, reaches.loaded]
  refine ⟨engine_eq, ?_, ?_⟩
  · simp [Runner.allowed, found, reaches.permitted]
  · simp [answer?, engine_eq]

/-- A pass that gets as far as asking for a configuration ends in none of the first four ways. -/
theorem Reaches.ofPass {library : Library} {allowed : Bool} {engine : Engine}
    (reaches : r.Reaches t m c library allowed engine) :
    PassEnd.ofPass r t m c = ((order.drop 4).find? (·.applies r t m c)).getD linted := by
  have found : r.library? t m c = some library := reaches.located
  have not_found : notFound.applies r t m c = false := by simp [applies, found]
  have not_trusted := notTrusted_of_permitted found reaches.permitted
  have not_loaded : notLoaded.applies r t m c = false := by simp [applies, reaches.knows.1]
  have not_left : leftOut.applies r t m c = false := reaches.kept
  simp [PassEnd.ofPass, order, not_found, not_trusted, not_loaded, not_left]

/-- A report is that of a pass that ends in the first way that applies. The engine lints once, or not
at all. -/
structure Decided (r : Runner) (t : Toolchain) (m : Machine) (c : PassCall) (report : PassReport) :
    Prop where
  gives : (PassEnd.ofPass r t m c).Gives r t m c report.result
  lints : (PassEnd.ofPass r t m c).asksToLint = true → ∃ request, r.request? t m c = some request ∧
    report.requests = [(request, (r.place t m c).workingDirectory)]
  silent : (PassEnd.ofPass r t m c).asksToLint = false → report.requests = []

theorem decided_of_silent {report : PassReport} (ending : PassEnd)
    (ends : PassEnd.ofPass r t m c = ending) (gives : ending.Gives r t m c report.result)
    (unasked : ending.asksToLint = false) (silent : report.requests = []) :
    Decided r t m c report := by
  subst ends
  exact ⟨gives, fun asks => by simp [unasked] at asks, fun _ => silent⟩

theorem decided_of_linted {report : PassReport} {request : LintRequest} (ending : PassEnd)
    (ends : PassEnd.ofPass r t m c = ending) (gives : ending.Gives r t m c report.result)
    (asked : ending.asksToLint = true) (known : r.request? t m c = some request)
    (once : report.requests = [(request, (r.place t m c).workingDirectory)]) :
    Decided r t m c report := by
  subst ends
  exact ⟨gives, fun _ => ⟨request, known, once⟩, fun unasked => by simp [asked] at unasked⟩

theorem Decided.after {report : PassReport} (decided : Decided r t m c report) {events : List Event}
    (silent : Silent events) : Decided r t m c (report.after events) where
  gives := decided.gives
  lints asked := by
    rw [requests_after silent]
    exact decided.lints asked
  silent unasked := by
    rw [requests_after silent]
    exact decided.silent unasked

theorem Decided.elsewhere {report : PassReport} (decided : Decided r t m c report) (after : Machine) :
    Decided r t m c { report with machine := after } :=
  ⟨decided.gives, decided.lints, decided.silent⟩

theorem lint_decided {library : Library} {allowed : Bool} {engine : Engine}
    (reaches : r.Reaches t m c library allowed engine) (r' : Runner)
    {resolved : ResolvedConfiguration} {request : LintRequest}
    (ends : PassEnd.ofPass r t m c = ((order.drop 11).find? (·.applies r t m c)).getD linted)
    (resolved_eq : r.resolved? t m c = some resolved) (request_eq : r.request? t m c = some request)
    (path_eq : request.configPath = resolved.path) :
    Decided r t m c (r'.lint (r.place t m c) engine request c.options.workspaceFolder
      (r.located t m c).warnings) := by
  have reply_eq : r.reply? t m c = some (engine.lint (r.place t m c) request) := by
    simp [reply?, reaches.knows.1, request_eq]
  have once : (r'.lint (r.place t m c) engine request c.options.workspaceFolder
      (r.located t m c).warnings).requests = [(request, (r.place t m c).workingDirectory)] := by
    simp [lint, requests, Event.request?]
  cases result : (engine.lint (r.place t m c) request).result with
  | error e =>
    refine decided_of_linted crashed ?_ ⟨_, e, reply_eq, result, ?_⟩ rfl request_eq once
    · simp [ends, order, applies, reply_eq, result, Except.toBool]
    · simp [lint, result, Except.map]
  | ok output =>
    refine decided_of_linted linted ?_ ⟨resolved, _, output, resolved_eq, reply_eq, result, ?_⟩ rfl
      request_eq once
    · simp [ends, order, applies, reply_eq, result, Except.toBool]
    · simp [lint, result, Except.map, path_eq]

theorem skips?_cases {resolved : ResolvedConfiguration} {configuration : Configuration}
    (resolved_eq : r.resolved? t m c = some resolved)
    (configuration_eq : resolved.configuration = some configuration) :
    (∃ ending outcome,
      c.options.skips? c.file configuration resolved.isDefault resolved.path = some outcome ∧
        (order.drop 7).find? (·.applies r t m c) = some ending ∧ ending.asksToLint = false ∧
        ending.Gives r t m c (.ok (.unlinted outcome (r.located t m c).warnings))) ∨
      c.options.skips? c.file configuration resolved.isDefault resolved.path = none ∧
        (order.drop 7).find? (·.applies r t m c) =
          (order.drop 10).find? (·.applies r t m c) := by
  have skips : c.options.skips? c.file configuration resolved.isDefault resolved.path =
      if javaScript.applies r t m c then some .jsDisabled
      else if byDefault.applies r t m c then some .defaultConfigDisabled
      else if optedOut.applies r t m c then some .linterOptionsExcluded
      else none := by
    simp [PassOptions.skips?, applies, resolved_eq, configuration_eq]
  rw [skips]
  cases js : javaScript.applies r t m c with
  | true => exact Or.inl ⟨javaScript, _, rfl, by simp [order, js], rfl, rfl⟩
  | false =>
    cases default : byDefault.applies r t m c with
    | true => exact Or.inl ⟨byDefault, _, rfl, by simp [order, js, default], rfl, rfl⟩
    | false =>
      cases out : optedOut.applies r t m c with
      | true => exact Or.inl ⟨optedOut, _, rfl, by simp [order, js, default, out], rfl, rfl⟩
      | false => exact Or.inr ⟨rfl, by simp [order, js, default, out]⟩

theorem configure_decided {library : Library} {allowed : Bool} {engine : Engine}
    (reaches : r.Reaches t m c library allowed engine) (locator : Locator) :
    Decided r t m c (configure ⟨locator, r.resolver⟩ (r.place t m c) engine c.file c.source c.options
      allowed (r.located t m c).warnings) := by
  -- The first four ways are out, and each exit below rules out one or more of those that follow.
  obtain ⟨-, allowed_eq, answer_eq⟩ := reaches.knows
  have silent := silent_resolution (r.resolution (r.place t m c) engine c)
    (r.place t m c).workingDirectory
  have ends := reaches.ofPass
  unfold configure
  simp only [resolution] at answer_eq silent ⊢
  cases answer : ((r.resolver.setStripUnstable c.options.stripUnstable).resolve engine.discovery
      (r.place t m c) c.file c.options.configFile).answer with
  | error e =>
    rw [answer] at answer_eq
    cases e with
    | configRead reason =>
      refine decided_of_silent notReadable ?_ ⟨reason, answer_eq, rfl⟩ rfl silent
      simp [ends, order, applies, answer_eq]
    | _ =>
      refine decided_of_silent notResolved ?_ ⟨_, answer_eq, rfl⟩ rfl silent
      simp [ends, order, applies, answer_eq, Except.toBool]
  | ok resolved =>
    rw [answer] at answer_eq
    have resolved_eq : r.resolved? t m c = some resolved := by
      simp [resolved?, answer_eq, Except.toOption]
    have readable : notReadable.applies r t m c = false := by simp [applies, answer_eq]
    have answered : notResolved.applies r t m c = false := by
      simp [applies, answer_eq, Except.toBool]
    cases configuration_eq : resolved.configuration with
    | none =>
      have unconfigured : notConfigured.applies r t m c = true := by
        simp [applies, configuration?, resolved_eq, configuration_eq]
      simp only [configuration_eq]
      refine decided_of_silent notConfigured ?_ rfl rfl silent
      simp [ends, order, readable, answered, unconfigured]
    | some configuration =>
      have configured : notConfigured.applies r t m c = false := by
        simp [applies, configuration?, resolved_eq, configuration_eq]
      have later : PassEnd.ofPass r t m c =
          ((order.drop 7).find? (·.applies r t m c)).getD linted := by
        simp [ends, order, readable, answered, configured]
      rcases skips?_cases resolved_eq configuration_eq with
        ⟨ending, outcome, skips, first, unasked, gives⟩ | ⟨keeps, rest⟩
      · simp only [configuration_eq, skips]
        exact decided_of_silent ending (by rw [later, first]; rfl) gives unasked silent
      · simp only [configuration_eq, keeps]
        rw [rest] at later
        cases text : c.source.contents? c.file with
        | none =>
          refine decided_of_silent textMissing ?_ rfl rfl silent
          simp [later, order, applies, text]
        | some contents =>
          have request_eq : r.request? t m c = some (c.options.request c.file contents
              configuration resolved.path (c.options.directory? c.source) allowed) := by
            simp [request?, resolved_eq, configuration_eq, text, allowed_eq]
          have present : textMissing.applies r t m c = false := by simp [applies, text]
          refine (lint_decided reaches _ ?_ resolved_eq request_eq rfl).after silent
          simp [later, order, present]

theorem Reaches.decided {library : Library} {allowed : Bool} {engine : Engine}
    (reaches : r.Reaches t m c library allowed engine) : Decided r t m c (r.pass t m c) := by
  obtain ⟨after, -, pass⟩ := reaches.report
  have decided := configure_decided reaches (r.loaded t m c library).locator
  have loads := silent_of_loads
    ((r.located t m c).locator.load_events (t := t) (m := m) library.modulePath)
  rw [place, reaches.knows.2.1] at decided
  rw [pass]
  exact ((decided.elsewhere after).after loads).after (silent_of_lookups (located_events r t m c))

theorem Reaches.asksForConfiguration {library : Library} {allowed : Bool} {engine : Engine}
    (reaches : r.Reaches t m c library allowed engine) :
    (PassEnd.ofPass r t m c).asksForConfiguration = true := by
  have later : ∀ ending ∈ order.drop 4, ending.asksForConfiguration = true := by decide
  rw [reaches.ofPass]
  cases first : (order.drop 4).find? (·.applies r t m c) with
  | none => rfl
  | some ending => exact later ending (List.mem_of_find?_eq_some first)

theorem course_decided {report : PassReport} (course : Course r t m c report) :
    Decided r t m c report := by
  have silent := silent_of_lookups (located_events r t m c)
  have silent_loads (library : Library) : Silent ((r.located t m c).events ++
      (r.loaded t m c library).events) := by
    have loads := silent_of_loads
      ((r.located t m c).locator.load_events (t := t) (m := m) library.modulePath)
    rw [Silent, List.filterMap_append, silent, Runner.loaded, loads, List.append_nil]
  have has_library {library : Library} (found : (r.located t m c).library = some library) :
      notFound.applies r t m c = false := by
    simp [applies, library?, found]
  cases course with
  | notFound found =>
    refine decided_of_silent notFound ?_ rfl rfl silent
    simp [PassEnd.ofPass, order, applies, library?, found]
  | notTrusted found refused =>
    have untrusted := (notTrusted_applies_iff found).mpr refused
    refine decided_of_silent notTrusted ?_ ⟨_, found, rfl⟩ rfl silent
    simp [PassEnd.ofPass, order, has_library found, untrusted]
  | notLoaded found permitted unloaded =>
    have trusted := notTrusted_of_permitted found permitted
    have missing : notLoaded.applies r t m c = true := by
      simp [applies, engine?, library?, found, unloaded]
    refine decided_of_silent notLoaded ?_ rfl rfl (silent_loads _)
    simp [PassEnd.ofPass, order, has_library found, trusted, missing]
  | leftOut found permitted loaded out =>
    have trusted := notTrusted_of_permitted found permitted
    have present : notLoaded.applies r t m c = false := by
      simp [applies, engine?, library?, found, loaded]
    have left : leftOut.applies r t m c = true := out
    refine decided_of_silent leftOut ?_ rfl rfl (silent_loads _)
    simp [PassEnd.ofPass, order, has_library found, trusted, present, left]
  | reached reaches => exact reaches.decided

theorem outcome?_of_gives {ending : PassEnd} {result : Except LintError PassResult}
    (gives : ending.Gives r t m c result) :
    result.toOption.map (·.outcome) = ending.outcome? := by
  cases ending with
  | linted =>
    obtain ⟨resolved, reply, output, -, -, -, rfl⟩ := gives
    rfl
  | notTrusted =>
    obtain ⟨library, -, rfl⟩ := gives
    rfl
  | notReadable =>
    obtain ⟨reason, -, rfl⟩ := gives
    rfl
  | notResolved =>
    obtain ⟨e, -, rfl⟩ := gives
    rfl
  | crashed =>
    obtain ⟨reply, e, -, -, rfl⟩ := gives
    rfl
  | _ =>
    obtain rfl : result = _ := gives
    rfl

theorem pass_outcome? (r : Runner) (t : Toolchain) (m : Machine) (c : PassCall) :
    (r.pass t m c).outcome? = (PassEnd.ofPass r t m c).outcome? :=
  outcome?_of_gives (course_decided (pass_course r t m c)).gives

/-- A pass ends in the first way of the order that applies, and gives what belongs to that way. The
engine lints once if it is the last way or if the engine fails, and else not at all; in the first four
ways no configuration is asked for. -/
theorem pass_decided (r : Runner) (t : Toolchain) (m : Machine) (c : PassCall) :
    Decided r t m c (r.pass t m c) ∧
      ((PassEnd.ofPass r t m c).asksForConfiguration = false →
        ∀ question dir, Event.configured question dir ∉ (r.pass t m c).events) := by
  refine ⟨course_decided (pass_course r t m c), fun unasked question dir member => ?_⟩
  rcases pass_cases r t m c with ⟨library, allowed, engine, worked⟩ | stopped
  · rw [worked.reaches.asksForConfiguration] at unasked
    contradiction
  · rcases stopped.events _ member with looked | ⟨path, loaded⟩
    · exact located_events r t m c _ looked
    · contradiction

theorem pass_decided_simple :
    let undecided := PassCall.simple .unknown none none
    let trusting := PassCall.simple .allow none none
    PassEnd.ofPass .new .simple .simple undecided = notTrusted ∧
      (∀ question dir, Event.configured question dir ∉ (new.pass .simple .simple undecided).events) ∧
      PassEnd.ofPass .new .simple .simple trusting = linted ∧
      Decided .new .simple .simple trusting (new.pass .simple .simple trusting) := by
  intro undecided trusting
  have stops : PassEnd.ofPass .new .simple .simple undecided = notTrusted := by decide
  have lints : PassEnd.ofPass .new .simple .simple trusting = linted := by decide
  refine ⟨stops, (pass_decided .new .simple .simple undecided).2 ?_, lints,
    (pass_decided .new .simple .simple trusting).1⟩
  rw [stops]
  rfl

end Runner
end LintBridge
