import LintBridge.Engine.Node
import LintBridge.Proofs.Pass.WorkingDirectory
/-!
Two spellings of one workspace folder: a relative path, and its join with the path of the working
directory. The folder is used three times. To change the working directory to it the two spellings
serve alike. Patterns are matched with what a file is called as seen from the folder, and from a
relative folder an absolute file has no such name. The engine is run in the folder as it is called
from the directory that the pass has changed to, where the relative path may lead elsewhere or nowhere.
So passes for both end alike if the file is left out for both or none and the engine answers alike
(`Runner.ofPass_inFolder`), and then they find the same (`Runner.findings_of_gives`).
-/
namespace LintBridge
open PassReport

/-! ### Patterns -/

section

variable {file dir : Path} {patterns : List String}

/-- As seen from a relative directory an absolute file is only matched as it is written. -/
theorem isExcluded_relative (absolute : file.isAbsolute = true) (relative : dir.isAbsolute = false)
    (patterns : List String) : isExcluded patterns file (some dir) = isExcluded patterns file none := by
  have itself : file.relativeTo? dir = some file := by
    simp [Path.relativeTo?, absolute, relative]
  simp [isExcluded, itself, Path.same_refl]

theorem isExcluded_of_written (written : isExcluded patterns file none = true) (dir : Option Path) :
    isExcluded patterns file dir = true := by
  simp only [isExcluded, Option.bind_none, Bool.false_or] at written
  simp [isExcluded, written]

end

/-! ### Spellings -/

namespace Machine

structure Spells (m : Machine) (here folder : Path) : Prop where
  absolute : here.isAbsolute = true
  standing : ∃ start, m.workingDirectory = some start ∧ m.locate here = .ok start
  relative : folder.isAbsolute = false
  directory : m.isDirectory folder = true

/-- Whether a path leads to the same place once the working directory has been changed to it. -/
def LeadsBack (m : Machine) (folder : Path) : Prop :=
  (m.inside (some folder) true).locate folder = m.locate folder

theorem inside_eq_of_changeDirectory {m : Machine} {p q : Path}
    (same : m.changeDirectory p = m.changeDirectory q) (allowed : Bool) :
    m.inside (some p) allowed = m.inside (some q) allowed := by
  cases allowed with
  | false => rfl
  | true => simp [inside, hold, same]

namespace Spells

variable {m : Machine} {here folder : Path} (spells : m.Spells here folder)
include spells

theorem located : ∃ place, m.locate folder = .ok place ∧
    ∀ workingDirectory, m.files.locate workingDirectory (here.join folder) = .ok place := by
  obtain ⟨absolute, ⟨start, working, standing⟩, relative, directory⟩ := spells
  obtain ⟨place, found⟩ : ∃ place, m.locate folder = .ok place := by
    unfold isDirectory entry? at directory
    cases found : m.locate folder with
    | error e => simp [found] at directory
    | ok place => exact ⟨place, rfl⟩
  have named : folder.text.isEmpty = false := by
    rw [Bool.eq_false_iff]
    intro empty
    simp [locate, FileSystem.locate, empty] at found
  refine ⟨place, found, fun workingDirectory => ?_⟩
  have standing : m.files.locate workingDirectory here = .ok start := by
    rw [FileSystem.locate_of_isAbsolute absolute, ← standing]
    exact (FileSystem.locate_of_isAbsolute absolute _ _).symm
  rw [FileSystem.locate_join absolute relative named standing, ← found, locate, working]

theorem inside_join (allowed : Bool) :
    m.inside (some folder) allowed = m.inside (some (here.join folder)) allowed := by
  obtain ⟨place, found, joined⟩ := spells.located
  apply inside_eq_of_changeDirectory
  rw [changeDirectory_of_locate found, changeDirectory_of_locate (joined _)]

theorem changeDirectory_join {allowed : Bool} (back : allowed = true → m.LeadsBack folder) :
    (m.inside (some folder) allowed).changeDirectory folder =
      (m.inside (some folder) allowed).changeDirectory (here.join folder) := by
  obtain ⟨place, found, joined⟩ := spells.located
  have again : (m.inside (some folder) allowed).locate folder = .ok place := by
    cases allowed with
    | false => exact found
    | true => rw [back rfl, found]
  have joined' : (m.inside (some folder) allowed).locate (here.join folder) = .ok place := by
    obtain ⟨dir, inside⟩ := inside_eq m (some folder) allowed
    rw [inside]
    exact joined dir
  rw [changeDirectory_of_locate again, changeDirectory_of_locate joined']

end Spells
end Machine

/-! ### Engines that run under Node -/

namespace Node

variable {n : Node} {modulePath : Path} {m : Machine}

/-- An engine is run in the place that the directory of the request leads to, and else knows nothing
of the directory. -/
theorem lint_eq_of_changeDirectory {dir dir' : Path}
    (same : m.changeDirectory dir = m.changeDirectory dir') (request : LintRequest) :
    (n.engine modulePath).lint m { request with workingDirectory := some dir } =
      (n.engine modulePath).lint m { request with workingDirectory := some dir' } := by
  simp only [engine, lint, Node.request, Machine.run, Machine.start, Machine.directoryOf, same]
  rfl

theorem lint_of_changeDirectory_error {dir : Path} {e : SystemError}
    (lost : m.changeDirectory dir = .error e) (request : LintRequest) :
    (n.engine modulePath).lint m { request with workingDirectory := some dir } =
      ⟨[], .error (.io e.message), []⟩ := by
  simp [engine, lint, Node.request, Machine.run, Machine.start, Machine.directoryOf, lost, Except.map,
    bind, Except.bind]

end Node

/-! ### Passes -/

namespace PassReport

def findings (report : PassReport) : Except LintError PassResult :=
  report.result.map fun result => { result with workingDirectory := none }

theorem outcome?_eq (report : PassReport) :
    report.outcome? = report.findings.toOption.map (·.outcome) := by
  unfold outcome? findings
  cases report.result <;> rfl

end PassReport

namespace Runner
open PassEnd

section

variable {r : Runner} {t : Toolchain} {m : Machine} {c : PassCall}

theorem outcome?_excluded_iff :
    (r.pass t m c).outcome? = some .excluded ↔ PassEnd.ofPass r t m c = leftOut := by
  rw [pass_outcome?]
  cases PassEnd.ofPass r t m c <;> decide

theorem engine?_eq_some {engine : Engine} (found : r.engine? t m c = some engine) :
    ∃ path, engine = t.engine path := by
  obtain ⟨library, -, loaded⟩ := Option.bind_eq_some_iff.mp found
  unfold Runner.loaded Locator.load at loaded
  split at loaded
  · rename_i path ok _
    cases ok with
    | false => contradiction
    | true => exact ⟨path, (Option.some.inj loaded).symm⟩
  · simp only at loaded
    split at loaded
    · exact ⟨library.modulePath, (Option.some.inj loaded).symm⟩
    · contradiction

theorem requests_ne_nil_iff :
    (r.pass t m c).requests ≠ [] ↔ (PassEnd.ofPass r t m c).asksToLint = true := by
  have decided := course_decided (pass_course r t m c)
  constructor
  · intro asked
    by_contra unasked
    exact asked (decided.silent (by simpa using unasked))
  · intro asks
    obtain ⟨request, -, once⟩ := decided.lints asks
    simp [once]

end

variable {n : Node} {m : Machine} {here folder : Path} (spells : m.Spells here folder) {r : Runner}
  {c : PassCall}
include spells

section

variable {t : Toolchain}

theorem place_inFolder : r.place t m (c.inFolder folder) = r.place t m (c.inFolder (here.join folder)) :=
  spells.inside_join _

theorem answer?_inFolder :
    r.answer? t m (c.inFolder folder) = r.answer? t m (c.inFolder (here.join folder)) := by
  simp only [answer?, place_inFolder spells]
  rfl

theorem resolved?_inFolder :
    r.resolved? t m (c.inFolder folder) = r.resolved? t m (c.inFolder (here.join folder)) :=
  congrArg (·.bind Except.toOption) (answer?_inFolder spells)

theorem request?_inFolder : ∃ request : Option LintRequest,
    r.request? t m (c.inFolder folder) = request.map ({ · with workingDirectory := some folder }) ∧
      r.request? t m (c.inFolder (here.join folder)) =
        request.map ({ · with workingDirectory := some (here.join folder) }) := by
  refine ⟨(r.resolved? t m (c.inFolder folder)).bind fun resolved =>
    resolved.configuration.bind fun configuration => (c.source.contents? c.file).map fun contents =>
      c.options.request c.file contents configuration resolved.path none (r.allowed t m c), ?_, ?_⟩
  · simp only [Option.map_bind, Function.comp_def, Option.map_map]
    rfl
  · simp only [resolved?_inFolder spells, Option.map_bind, Function.comp_def, Option.map_map]
    rfl

theorem applies_inFolder {ending : PassEnd} (other : ending ≠ leftOut) (unasked : ending ≠ crashed) :
    ending.applies r t m (c.inFolder folder) =
      ending.applies r t m (c.inFolder (here.join folder)) := by
  cases ending with
  | leftOut => contradiction
  | crashed => contradiction
  | notReadable | notResolved => simp only [applies, answer?_inFolder spells]
  | notConfigured => simp only [applies, configuration?, resolved?_inFolder spells]
  | byDefault | optedOut =>
    simp only [applies, resolved?_inFolder spells]
    rfl
  | _ => rfl

theorem leftOut_inFolder (file : c.file.isAbsolute = true) :
    leftOut.applies r t m (c.inFolder folder) = c.options.leavesOut c.file none := by
  have leavesOut : leftOut.applies r t m (c.inFolder folder) =
      c.options.leavesOut c.file (some folder) := rfl
  rw [leavesOut, PassOptions.leavesOut, isExcluded_relative file spells.relative]
  rfl

omit spells in
theorem leftOut_of_written (written : c.options.leavesOut c.file none = true) (dir : Path) :
    leftOut.applies r t m (c.inFolder dir) = true := by
  have leavesOut : leftOut.applies r t m (c.inFolder dir) = c.options.leavesOut c.file (some dir) := rfl
  rw [leavesOut, PassOptions.leavesOut, Bool.or_eq_true]
  rw [PassOptions.leavesOut, Bool.or_eq_true] at written
  exact written.imp_right fun excluded => isExcluded_of_written excluded _

theorem applies_join (file : c.file.isAbsolute = true) {ending : PassEnd} (other : ending ≠ crashed)
    (unapplied : ending.applies r t m (c.inFolder (here.join folder)) = false) :
    ending.applies r t m (c.inFolder folder) = false := by
  by_cases out : ending = leftOut
  · subst out
    rw [leftOut_inFolder spells file, Bool.eq_false_iff]
    intro written
    rw [leftOut_of_written written] at unapplied
    contradiction
  · rw [applies_inFolder spells out other]
    exact unapplied

/-- The two passes end alike, as long as the file is left out for both or none and the engine answers
alike if it is asked. -/
theorem ofPass_inFolder (file : c.file.isAbsolute = true)
    (kept : PassEnd.ofPass r t m (c.inFolder (here.join folder)) = leftOut →
      c.options.leavesOut c.file none = true)
    (answered : (PassEnd.ofPass r t m (c.inFolder (here.join folder))).asksToLint = true →
      r.reply? t m (c.inFolder folder) = r.reply? t m (c.inFolder (here.join folder))) :
    PassEnd.ofPass r t m (c.inFolder folder) =
      PassEnd.ofPass r t m (c.inFolder (here.join folder)) := by
  obtain ⟨now, before⟩ := (ofPass_eq_iff r t m (c.inFolder (here.join folder))).mp rfl
  generalize PassEnd.ofPass r t m (c.inFolder (here.join folder)) = ending at *
  rw [ofPass_eq_iff]
  constructor
  · by_cases out : ending = leftOut
    · rw [out, leftOut_inFolder spells file]
      exact kept out
    · by_cases crash : ending = crashed
      · subst crash
        simpa only [applies, answered rfl] using now
      · rw [applies_inFolder spells out crash]
        exact now
  · intro earlier member
    have unapplied := before earlier member
    by_cases crash : earlier = crashed
    · subst crash
      have asks : ending.asksToLint = true := by
        cases ending <;> first | rfl | simp [order] at member
      simpa only [applies, answered asks] using unapplied
    · exact applies_join spells file crash unapplied

theorem findings_of_gives {ending : PassEnd} {result result' : Except LintError PassResult}
    (gives : ending.Gives r t m (c.inFolder folder) result)
    (gives' : ending.Gives r t m (c.inFolder (here.join folder)) result')
    (answered : ending.asksToLint = true →
      r.reply? t m (c.inFolder folder) = r.reply? t m (c.inFolder (here.join folder))) :
    result.map ({ · with workingDirectory := none }) =
      result'.map ({ · with workingDirectory := none }) := by
  have same_answer := answer?_inFolder (r := r) (t := t) (c := c) spells
  cases ending with
  | notTrusted =>
    obtain ⟨library, found, rfl⟩ := gives
    obtain ⟨library', found', rfl⟩ := gives'
    obtain rfl := Option.some.inj (found.symm.trans found')
    rfl
  | notReadable =>
    obtain ⟨reason, answer, rfl⟩ := gives
    obtain ⟨reason', answer', rfl⟩ := gives'
    rw [← same_answer, answer] at answer'
    obtain rfl : reason = reason' := by simpa using answer'
    rfl
  | notResolved =>
    obtain ⟨e, answer, rfl⟩ := gives
    obtain ⟨e', answer', rfl⟩ := gives'
    rw [← same_answer, answer] at answer'
    obtain rfl : e = e' := by simpa using answer'
    rfl
  | crashed =>
    obtain ⟨reply, e, replied, failed, rfl⟩ := gives
    obtain ⟨reply', e', replied', failed', rfl⟩ := gives'
    obtain rfl := Option.some.inj (replied.symm.trans ((answered rfl).trans replied'))
    obtain rfl := Except.error.inj (failed.symm.trans failed')
    rfl
  | linted =>
    obtain ⟨resolved, reply, output, known, replied, reports, rfl⟩ := gives
    obtain ⟨resolved', reply', output', known', replied', reports', rfl⟩ := gives'
    obtain rfl := Option.some.inj (replied.symm.trans ((answered rfl).trans replied'))
    obtain rfl := Except.ok.inj (reports.symm.trans reports')
    rw [← resolved?_inFolder spells, known] at known'
    obtain rfl := Option.some.inj known'
    rfl
  | _ =>
    obtain rfl : result = _ := gives
    obtain rfl : result' = _ := gives'
    rfl

end

theorem reply?_inFolder (back : r.allowed n.toolchain m c = true → m.LeadsBack folder) :
    r.reply? n.toolchain m (c.inFolder folder) =
      r.reply? n.toolchain m (c.inFolder (here.join folder)) := by
  obtain ⟨request, named, joined⟩ := request?_inFolder (r := r) (t := n.toolchain) (c := c) spells
  have engine_eq : r.engine? n.toolchain m (c.inFolder (here.join folder)) =
      r.engine? n.toolchain m (c.inFolder folder) := rfl
  unfold reply?
  rw [named, joined, ← place_inFolder spells, engine_eq]
  cases found : r.engine? n.toolchain m (c.inFolder folder) with
  | none => rfl
  | some engine =>
    cases request with
    | none => rfl
    | some request =>
      obtain ⟨path, rfl⟩ := engine?_eq_some found
      have same : (r.place n.toolchain m (c.inFolder folder)).changeDirectory folder = _ :=
        spells.changeDirectory_join back
      exact congrArg some (Node.lint_eq_of_changeDirectory same request)

theorem reply?_of_lost (trusted : r.allowed n.toolchain m c = true) {e : SystemError}
    (lost : (m.inside (some folder) true).changeDirectory folder = .error e)
    (found : (r.engine? n.toolchain m c).isSome = true)
    (known : (r.request? n.toolchain m (c.inFolder (here.join folder))).isSome = true) :
    r.reply? n.toolchain m (c.inFolder folder) = some ⟨[], .error (.io e.message), []⟩ := by
  obtain ⟨request, named, joined⟩ := request?_inFolder (r := r) (t := n.toolchain) (c := c) spells
  have engine_eq : r.engine? n.toolchain m (c.inFolder folder) = r.engine? n.toolchain m c := rfl
  have place_eq : r.place n.toolchain m (c.inFolder folder) = m.inside (some folder) true :=
    congrArg (m.inside (some folder)) trusted
  obtain ⟨engine, found⟩ := Option.isSome_iff_exists.mp found
  obtain ⟨path, rfl⟩ := engine?_eq_some found
  cases request with
  | none => simp [joined] at known
  | some request =>
    unfold reply?
    rw [named, engine_eq, found, place_eq]
    exact congrArg some (Node.lint_of_changeDirectory_error lost request)

theorem lost_inFolder (file : c.file.isAbsolute = true)
    (asks : (PassEnd.ofPass r n.toolchain m (c.inFolder (here.join folder))).asksToLint = true)
    (trusted : r.allowed n.toolchain m c = true) {e : SystemError}
    (lost : (m.inside (some folder) true).changeDirectory folder = .error e) :
    (r.pass n.toolchain m (c.inFolder folder)).result = .error (.io e.message) := by
  have decided (c : PassCall) := course_decided (pass_course r n.toolchain m c)
  obtain ⟨given, known, -⟩ := (decided (c.inFolder (here.join folder))).lints asks
  obtain ⟨-, before⟩ := (ofPass_eq_iff r n.toolchain m (c.inFolder (here.join folder))).mp rfl
  -- What comes before an engine that fails has not ended the other pass, so it does not end this one.
  have earlier_than : ∀ earlier ∈ order.takeWhile (· ≠ crashed),
      earlier.applies r n.toolchain m (c.inFolder (here.join folder)) = false := by
    intro earlier member
    apply before
    generalize PassEnd.ofPass r n.toolchain m (c.inFolder (here.join folder)) = ending at asks ⊢
    have further : order.takeWhile (· ≠ crashed) ⊆ order.takeWhile (· ≠ linted) := by decide
    cases ending with
    | crashed => exact member
    | linted => exact further member
    | _ => contradiction
  have found : (r.engine? n.toolchain m c).isNone = false := earlier_than notLoaded (by decide)
  have replied := reply?_of_lost spells trusted lost (by simpa using found) (by simp [known])
  have ends : PassEnd.ofPass r n.toolchain m (c.inFolder folder) = crashed := by
    rw [ofPass_eq_iff]
    refine ⟨by simp [applies, replied, Except.toBool], fun earlier member => ?_⟩
    have other : earlier ≠ crashed := by
      rintro rfl
      simp [order] at member
    exact applies_join spells file other (earlier_than earlier member)
  have gives := (decided (c.inFolder folder)).gives
  rw [ends] at gives
  obtain ⟨reply, failure, replied', failed, result⟩ := gives
  obtain rfl := Option.some.inj (replied.symm.trans replied')
  obtain rfl := Except.error.inj failed
  exact result

/-- Passes over an absolute file in one folder by two names: a relative path, and its join with the
path of the working directory. Unless code of the workspace may run, or if the relative path leads from
the folder to the folder, they find the same exactly if the file is not left out by the second name
alone; by the relative name it is left out only as it is written. Where code of the workspace may run
and the relative path leads nowhere from the folder, a pass that should lint fails. -/
theorem findings_inFolder (n : Node) (r : Runner) (file : c.file.isAbsolute = true) :
    let named := r.pass n.toolchain m (c.inFolder folder)
    let joined := r.pass n.toolchain m (c.inFolder (here.join folder))
    let trusted := r.allowed n.toolchain m c = true
    ((trusted → joined.requests ≠ [] → m.LeadsBack folder) →
        (named.findings = joined.findings ↔
          (joined.outcome? = some .excluded → named.outcome? = some .excluded))) ∧
      (joined.outcome? = some .excluded →
        (named.outcome? = some .excluded ↔ c.options.leavesOut c.file none = true)) ∧
      (trusted → joined.requests ≠ [] → ∀ e,
        (m.inside (some folder) true).changeDirectory folder = .error e →
          named.result = .error (.io e.message)) := by
  intro named joined trusted
  have written (ends : PassEnd.ofPass r n.toolchain m (c.inFolder folder) = leftOut) :
      c.options.leavesOut c.file none = true := by
    rw [← leftOut_inFolder spells file]
    exact ((ofPass_eq_iff r n.toolchain m (c.inFolder folder)).mp ends).1
  refine ⟨fun back => ⟨fun same excluded => ?_, fun kept => ?_⟩, fun excluded => ⟨fun out => ?_,
    fun out => ?_⟩, fun trusted asked e lost => ?_⟩
  · rw [outcome?_eq, same, ← outcome?_eq]
    exact excluded
  · simp only [named, joined, outcome?_excluded_iff] at kept
    have answered (asks : (PassEnd.ofPass r n.toolchain m
        (c.inFolder (here.join folder))).asksToLint = true) :=
      reply?_inFolder (c := c) spells fun trusted => back trusted (requests_ne_nil_iff.mpr asks)
    have same := ofPass_inFolder spells file (fun out => written (kept out)) answered
    have gives := (course_decided (pass_course r n.toolchain m (c.inFolder folder))).gives
    rw [same] at gives
    exact findings_of_gives spells gives
      (course_decided (pass_course r n.toolchain m (c.inFolder (here.join folder)))).gives answered
  · exact written (outcome?_excluded_iff.mp out)
  · have ends := outcome?_excluded_iff.mp excluded
    have same := ofPass_inFolder spells file (fun _ => out) fun asks => by
      rw [ends] at asks
      contradiction
    exact outcome?_excluded_iff.mpr (same.trans ends)
  · exact lost_inFolder spells file (requests_ne_nil_iff.mp asked) trusted lost

end Runner

/-- A machine in a workspace with a directory that holds a file. Node finds an engine outside the
workspace and answers all else with an empty configuration, which is a report without failures too. -/
def Machine.nested : Machine where
  files := ⟨[(["w"], .directory), (["w", "src"], .directory), (["w", "src", "a.ts"], .file (.text "")),
    (["lib"], .directory), (["lib", "tslint.js"], .file (.text "")), (["bin"], .directory),
    (["bin", "node"], .program)], []⟩
  workingDirectory := some ["w"]
  environment := []
  respond call :=
    let answer := if call.arguments.length = 2 then "/lib/tslint.js" else "\x7b\"configuration\":\x7b\x7d\x7d"
    .ends (answer.toList.map Char.toNat) [] (.exited 0)

def Node.plain : Node := ⟨some ⟨"/bin/node"⟩, usualSearchLimit, none⟩

def PassCall.nested (trust : Trust) (exclude : List String) : PassCall :=
  ⟨⟨"/w/src/a.ts"⟩, .text "", { (default : PassOptions) with
    workspaceTrust := trust
    exclude := exclude }⟩

namespace Runner

theorem spells_nested : Machine.nested.Spells ⟨"/w"⟩ ⟨"src"⟩ where
  absolute := by decide
  standing := ⟨["w"], rfl, rfl⟩
  relative := by decide
  directory := by decide

/-- Without the right to run code of the workspace both spellings find the same; with it the engine is
to be run in a directory below the folder that is not there. -/
theorem findings_inFolder_nested :
    let pass (c : PassCall) (folder : Path) :=
      new.pass Node.plain.toolchain .nested (c.inFolder folder)
    let plain := PassCall.nested .unknown []
    let trusting := PassCall.nested .allow []
    Machine.nested.Spells ⟨"/w"⟩ ⟨"src"⟩ ∧ plain.file.isAbsolute = true ∧
      trusting.file.isAbsolute = true ∧
      (pass plain ⟨"src"⟩).findings = (pass plain ⟨"/w/src"⟩).findings ∧
      (pass plain ⟨"/w/src"⟩).outcome? = some .linted ∧
      (pass trusting ⟨"src"⟩).result = .error (.io "No such file or directory (os error 2)") := by
  intro pass plain trusting
  have plain_file : plain.file.isAbsolute = true := by decide
  have trusting_file : trusting.file.isAbsolute = true := by decide
  have lints : (pass plain ⟨"/w/src"⟩).outcome? = some .linted := by decide +kernel
  have untrusted : new.allowed Node.plain.toolchain .nested plain = false := by decide +kernel
  have trusted : new.allowed Node.plain.toolchain .nested trusting = true := by decide +kernel
  have asked : (pass trusting ⟨"/w/src"⟩).requests ≠ [] := by
    rw [requests_ne_nil_iff]
    decide +kernel
  have alike := (findings_inFolder spells_nested Node.plain new plain_file).1
    (by simp [untrusted])
  have lost := (findings_inFolder spells_nested Node.plain new trusting_file).2.2 trusted asked
    .notFound rfl
  refine ⟨spells_nested, plain_file, trusting_file, alike.mpr fun excluded => ?_, lints, lost⟩
  have joined : (pass plain ⟨"/w/src"⟩).outcome? = some .excluded := excluded
  simp [lints] at joined

/-- A pattern for a file of the folder, and a folder whose code may run: for the relative spelling the
file is linted all the same, and the engine is not found where it is to be run. -/
theorem findings_differ_nested :
    let pass (c : PassCall) (folder : Path) :=
      new.pass Node.plain.toolchain .nested (c.inFolder folder)
    let excluding := PassCall.nested .unknown ["a.ts"]
    let trusting := PassCall.nested .allow []
    Machine.nested.Spells ⟨"/w"⟩ ⟨"src"⟩ ∧ excluding.file.isAbsolute = true ∧
      excluding.options.configFile = none ∧
      ((pass excluding ⟨"src"⟩).outcome? = some .linted ∧
        (pass excluding ⟨"/w/src"⟩).outcome? = some .excluded) ∧
      (pass trusting ⟨"src"⟩).outcome? = none ∧
        (pass trusting ⟨"/w/src"⟩).outcome? = some .linted := by
  refine ⟨spells_nested, ?_⟩
  decide +kernel

end Runner
end LintBridge
