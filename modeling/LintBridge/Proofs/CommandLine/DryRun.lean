import LintBridge.CommandLine.Commands
import LintBridge.Proofs.Pass.Contents
/-!
Fixing files and only telling what would be fixed. Both runs are made of the same steps: a step reads
the one file that its argument denotes, and all else that it does ignores the contents of files
(`step_alike`). So writing the file of one argument changes nothing for the arguments after it that
denote other files, and the two runs stay alike to their end (`fixFiles_predicted`). A machine that may
not return to its working directory moves on the way, in both runs alike; what an argument denotes is
therefore said for its turn.
-/
namespace LintBridge

def Machine.denoted? (m : Machine) (p : Path) : Option Location :=
  (m.absolute p).toOption.bind fun path => (m.locate path).toOption

namespace CommandLine

/-! ### Steps -/

theorem absolutePath_eq_ok_iff {m : Machine} {p path : Path} :
    absolutePath m p = .ok path ↔ m.absolute p = .ok path := by
  unfold absolutePath
  cases m.absolute p <;> simp

theorem readFile_ok {m : Machine} {p path : Path} {content : String}
    (read : readFile m p = .ok (path, content)) :
    ∃ place, m.denoted? p = some place ∧ path.isAbsolute = true ∧ m.locate path = .ok place ∧
      m.files.entry? place = some (.file (.text content)) := by
  unfold readFile at read
  cases absolute : absolutePath m p with
  | error e => simp [absolute, bind, Except.bind] at read
  | ok path' =>
    simp only [absolute, bind, Except.bind] at read
    cases text : m.readText path' with
    | error e => simp [text, throw, throwThe, MonadExceptOf.throw] at read
    | ok content' =>
      obtain ⟨rfl, rfl⟩ : path' = path ∧ content' = content := by
        simpa [text, pure, Except.pure] using read
      have absolute := absolutePath_eq_ok_iff.mp absolute
      obtain ⟨place, located, entry⟩ := Machine.readText_eq_ok_iff.mp text
      refine ⟨place, ?_, Machine.isAbsolute_of_absolute absolute, located, entry⟩
      simp [Machine.denoted?, absolute, located, Except.toOption]

section Step

variable {m m' : Machine} (alike : m.Alike m') {p : Path}
  (intact : ∀ place, m.denoted? p = some place → m'.files.entry? place = m.files.entry? place)
include alike intact

theorem readFile_alike : readFile m' p = readFile m p := by
  unfold readFile absolutePath
  rw [alike.absolute]
  cases absolute : m.absolute p with
  | error e => rfl
  | ok path =>
    have text : m'.readText path = m.readText path := by
      unfold Machine.readText
      rw [alike.locate]
      cases located : m.locate path with
      | error e => rfl
      | ok place =>
        have here := intact place (by simp [Machine.denoted?, absolute, located, Except.toOption])
        simp only [bind, Except.bind, here]
    simp only [bind, Except.bind, text]

/-- Where the file of an argument holds the same text, a step reads and lints alike, and leaves the
machines as they were but for the working directory, which is the same again. -/
theorem step_alike {s : Setting} (ignores : s.toolchain.IgnoresContents) (r : Runner) : ∃ dir,
    (step s r m p).machine = { m with workingDirectory := dir } ∧
      step s r m' p = { step s r m p with machine := { m' with workingDirectory := dir } } := by
  unfold step
  rw [readFile_alike alike intact]
  cases readFile m p with
  | error e => exact ⟨m.workingDirectory, rfl, by rw [← alike.workingDirectory]⟩
  | ok read =>
    obtain ⟨path, content⟩ := read
    obtain ⟨dir, machine, same⟩ := Runner.pass_alike ignores alike r ⟨path, .text content, s.options⟩
    simp only [Runner.pass] at machine same
    exact ⟨dir, machine, by simp only [same]⟩

end Step

theorem step_machine (s : Setting) {m : Machine} (sound : m.Sound) (back : m.CanReturn) (r : Runner)
    (p : Path) : (step s r m p).machine = m := by
  unfold step
  cases readFile m p with
  | error e => rfl
  | ok read => exact Runner.pass_machine sound back r s.toolchain ⟨read.1, .text read.2, s.options⟩

theorem step_ok {s : Setting} {r : Runner} {m : Machine} {p : Path} {file : LintedFile}
    (linted : (step s r m p).file = .ok file) : readFile m p = .ok (file.path, file.content) := by
  unfold step at linted
  cases found : readFile m p with
  | error e => simp [found] at linted
  | ok read =>
    obtain ⟨path, content⟩ := read
    simp only [found] at linted
    split at linted
    · rw [← Except.ok.inj linted]
    · contradiction

/-! ### What becomes of a file -/

namespace LintedFile

def reported? (file : LintedFile) : Option (Path × Nat) :=
  file.fixed?.map fun done => (file.path, done.count)

def leave (dryRun : Bool) (m : Machine) (file : LintedFile) : Machine :=
  match file.fixed? with
  | none => m
  | some done => (write dryRun m file.path done.text).toOption.getD m

theorem fixed?_eq_some {file : LintedFile} {done : Applied} (fixed : file.fixed? = some done) :
    applyReplacements file.content (toByteOffsets file.content (reconcile file.failures)) = done :=
  (Option.ite_some_none_eq_some.mp fixed).2

theorem leave_dry (m : Machine) (file : LintedFile) : file.leave true m = m := by
  unfold leave
  split <;> rfl

end LintedFile

/-- The arguments of a run that writes nothing, each with the machine as it is at its turn. -/
def turns (s : Setting) : Runner → Machine → List Path → List (Machine × Path)
  | _, _, [] => []
  | r, m, p :: rest =>
    let step := step s r m p
    (m, p) :: turns s step.runner step.machine rest

def denotedBy (turns : List (Machine × Path)) : List Location :=
  turns.filterMap fun turn => turn.1.denoted? turn.2

theorem denotedBy_cons {m : Machine} {p : Path} {place : Location}
    (denoted : m.denoted? p = some place) (turns : List (Machine × Path)) :
    denotedBy ((m, p) :: turns) = place :: denotedBy turns :=
  List.filterMap_cons_some denoted

theorem denotedBy_turns (s : Setting) {m : Machine} (sound : m.Sound) (back : m.CanReturn) (r : Runner)
    (files : List Path) : denotedBy (turns s r m files) = files.filterMap m.denoted? := by
  induction files generalizing r with
  | nil => rfl
  | cons p rest ih =>
    have onwards := ih (step s r m p).runner
    simp only [denotedBy, turns, step_machine s sound back] at onwards ⊢
    cases denoted : m.denoted? p with
    | none => simp [denoted, onwards]
    | some place => simp [denoted, onwards]

/-- The files that a run reads and lints, in order, up to the first for which this fails. -/
def lintedBy (s : Setting) (dryRun : Bool) : Runner → Machine → List Path → List LintedFile
  | _, _, [] => []
  | r, m, path :: rest =>
    let step := step s r m path
    match step.file with
    | .error _ => []
    | .ok file => file :: lintedBy s dryRun step.runner (file.leave dryRun step.machine) rest

section Unfolding

variable {s : Setting} {dryRun : Bool} {r : Runner} {m : Machine} {p : Path} {rest : List Path}
  {summary : FixSummary}

theorem fixFiles_of_error {e : CommandError} (failed : (step s r m p).file = .error e) :
    fixFiles s dryRun r m (p :: rest) summary =
      (.error e, (step s r m p).machine, (step s r m p).events) := by
  simp only [fixFiles, failed]

theorem fixFiles_of_ok {file : LintedFile} (linted : (step s r m p).file = .ok file)
    (succeeds : ∀ done, file.fixed? = some done →
      ∃ after, write dryRun (step s r m p).machine file.path done.text = .ok after) :
    fixFiles s dryRun r m (p :: rest) summary =
      let onwards := fixFiles s dryRun (step s r m p).runner (file.leave dryRun (step s r m p).machine)
        rest { summary with fixed := summary.fixed ++ file.reported?.toList }
      (onwards.1, onwards.2.1, (step s r m p).events ++ onwards.2.2) := by
  simp only [fixFiles, linted, LintedFile.leave, LintedFile.reported?]
  cases fixed : file.fixed? with
  | none => simp
  | some done =>
    obtain ⟨after, written⟩ := succeeds done fixed
    simp [written, Except.toOption]

theorem lintedBy_of_error {e : CommandError} (failed : (step s r m p).file = .error e) :
    lintedBy s dryRun r m (p :: rest) = [] := by
  simp only [lintedBy, failed]

theorem lintedBy_of_ok {file : LintedFile} (linted : (step s r m p).file = .ok file) :
    lintedBy s dryRun r m (p :: rest) = file ::
      lintedBy s dryRun (step s r m p).runner (file.leave dryRun (step s r m p).machine) rest := by
  simp only [lintedBy, linted]

end Unfolding

structure LintedFile.StandsAt (m : Machine) (file : LintedFile) (place : Location) : Prop where
  absolute : file.path.isAbsolute = true
  located : m.locate file.path = .ok place
  entry : m.files.entry? place = some (.file (.text file.content))

theorem LintedFile.standsAt_standing {m : Machine} {file : LintedFile} {place : Location}
    {dir : Option Location} :
    file.StandsAt { m with workingDirectory := dir } place ↔ file.StandsAt m place := by
  constructor
  · exact fun ⟨absolute, located, entry⟩ =>
      ⟨absolute, by rwa [Machine.locate_standing absolute] at located, entry⟩
  · exact fun ⟨absolute, located, entry⟩ =>
      ⟨absolute, by rwa [Machine.locate_standing absolute], entry⟩

theorem LintedFile.StandsAt.unique {m : Machine} {file : LintedFile} {place place' : Location}
    (stands : file.StandsAt m place) (stands' : file.StandsAt m place') : place = place' :=
  Except.ok.inj (stands.located.symm.trans stands'.located)

theorem LintedFile.StandsAt.leave {m : Machine} {file : LintedFile} {place : Location}
    (stands : file.StandsAt m place) :
    m.Alike (file.leave false m) ∧
      (∀ done, file.fixed? = some done → write false m file.path done.text = .ok (file.leave false m)) ∧
      ∀ other, FileSystem.entry? (file.leave false m).files other =
        if other = place ∧ file.fixed?.isSome
        then some (.file (.text ((file.fixed?.map Applied.text).getD file.content)))
        else m.files.entry? other := by
  unfold LintedFile.leave
  cases fixed : file.fixed? with
  | none => exact ⟨.refl m, by simp, by simp⟩
  | some done =>
    have written : write false m file.path done.text = .ok (m.withText place done.text) :=
      Machine.writeText_of_readText stands.located stands.entry done.text
    simp only [written, Except.toOption, Option.getD_some]
    refine ⟨Machine.alike_withText stands.entry done.text, ?_, ?_⟩
    · intro _ same
      rw [← Option.some.inj same]
      exact written
    · simpa using Machine.entry?_withText stands.entry done.text

/-! ### Runs -/

/-- A dry run has predicted a real one, from a machine on which some files may already have been
fixed: it ends alike and reports the same, and the real run has written what was reported. -/
structure Predicted (m m' : Machine) (turns : List (Machine × Path)) (summary : FixSummary)
    (dry real : Except CommandError FixSummary × Machine × List Event) (linted : List LintedFile) :
    Prop where
  result : real.1 = dry.1
  events : real.2.2 = dry.2.2
  machine : ∃ dir, dry.2.1 = { m with workingDirectory := dir }
  left : dry.2.1.Alike real.2.1
  reported : ∀ final, real.1 = .ok final →
    final = { summary with fixed := summary.fixed ++ linted.filterMap LintedFile.reported? } ∧
      List.Forall₂ (fun turn file => readFile turn.1 turn.2 = .ok (file.path, file.content)) turns linted
  read : ∀ file ∈ linted, ∃ place ∈ denotedBy turns, file.StandsAt m place
  written : ∀ file ∈ linted, ∀ done, file.fixed? = some done → ∀ place, file.StandsAt m place →
    FileSystem.entry? real.2.1.files place = some (.file (.text done.text))
  elsewhere : ∀ place, (∀ file ∈ linted, file.fixed?.isSome → ¬file.StandsAt m place) →
    FileSystem.entry? real.2.1.files place = m'.files.entry? place

theorem Predicted.cons {m m' : Machine} {dir : Option Location} {p : Path}
    {turns : List (Machine × Path)} {summary : FixSummary}
    {dry real : Except CommandError FixSummary × Machine × List Event} {linted : List LintedFile}
    {file : LintedFile} {place : Location}
    (onwards : Predicted { m with workingDirectory := dir }
      (file.leave false { m' with workingDirectory := dir }) turns
      { summary with fixed := summary.fixed ++ file.reported?.toList } dry real linted)
    (read : readFile m p = .ok (file.path, file.content)) (denoted : m.denoted? p = some place)
    (apart : place ∉ denotedBy turns) (stands : file.StandsAt m place)
    (stands' : file.StandsAt m' place) (events : List Event) :
    Predicted m m' ((m, p) :: turns) summary (dry.1, dry.2.1, events ++ dry.2.2)
      (real.1, real.2.1, events ++ real.2.2) (file :: linted) := by
  obtain ⟨result, same_events, machine, left, reported, later, written, elsewhere⟩ := onwards
  simp only [LintedFile.standsAt_standing] at later written elsewhere
  have stands_left : file.StandsAt { m' with workingDirectory := dir } place :=
    LintedFile.standsAt_standing.mpr stands'
  have left_entry := stands_left.leave.2.2
  -- No file that is linted later is at this place.
  have untouched : ∀ other ∈ linted, ¬other.StandsAt m place := by
    intro other member again
    obtain ⟨place', among, stands_other⟩ := later other member
    obtain rfl := again.unique stands_other
    exact apart among
  refine ⟨result, congrArg (events ++ ·) same_events, machine, left, ?_, ?_, ?_, ?_⟩
  · intro final ended
    obtain ⟨final_eq, all⟩ := reported final ended
    refine ⟨?_, .cons read all⟩
    rw [final_eq]
    cases reports : file.reported? with
    | none => simp [List.filterMap_cons_none reports]
    | some entry => simp [List.filterMap_cons_some reports]
  · rw [denotedBy_cons denoted]
    rintro other (_ | ⟨_, member⟩)
    · exact ⟨place, List.mem_cons_self, stands⟩
    · obtain ⟨place', among, stands_other⟩ := later other member
      exact ⟨place', List.mem_cons_of_mem _ among, stands_other⟩
  · rintro other (_ | ⟨_, member⟩) done fixed at_place stands_other
    · obtain rfl := stands.unique stands_other
      rw [elsewhere place fun other member _ => untouched other member, left_entry]
      simp [fixed]
    · exact written other member done fixed at_place stands_other
  · intro other outside
    rw [elsewhere other fun later member => outside later (List.mem_cons_of_mem _ member),
      left_entry, if_neg]
    rintro ⟨rfl, fixed⟩
    exact outside file List.mem_cons_self fixed stands

/-- The induction is over the arguments. It is carried by what the real run has done so far: the machine
differs in contents of files alone, and the files of the arguments to come are as they were. -/
theorem fixFiles_predicted {s : Setting} (ignores : s.toolchain.IgnoresContents) {files : List Path}
    {m m' : Machine} (alike : m.Alike m') (r : Runner)
    (apart : (denotedBy (turns s r m files)).Nodup)
    (intact : ∀ place ∈ denotedBy (turns s r m files), m'.files.entry? place = m.files.entry? place)
    (summary : FixSummary) :
    Predicted m m' (turns s r m files) summary (fixFiles s true r m files summary)
      (fixFiles s false r m' files summary) (lintedBy s false r m' files) := by
  induction files generalizing m m' r summary with
  | nil =>
    refine ⟨rfl, rfl, ⟨_, rfl⟩, alike, ?_, by simp [lintedBy], by simp [lintedBy], fun _ _ => rfl⟩
    intro final ended
    obtain rfl : summary = final := by simpa [fixFiles] using ended
    exact ⟨by simp [lintedBy], .nil⟩
  | cons p rest ih =>
    have here : ∀ place, m.denoted? p = some place →
        m'.files.entry? place = m.files.entry? place := fun place denoted =>
      intact place (List.mem_filterMap.mpr ⟨(m, p), List.mem_cons_self, denoted⟩)
    obtain ⟨dir, stays, same⟩ := step_alike alike here ignores r
    have alike_after := alike.standing dir
    cases linted : (step s r m p).file with
    | error e =>
      have failed : (step s r m' p).file = .error e := by rw [same]; exact linted
      rw [fixFiles_of_error linted, fixFiles_of_error failed, lintedBy_of_error failed, same, stays]
      exact ⟨rfl, rfl, ⟨dir, rfl⟩, alike_after, by simp, by simp, by simp, fun _ _ => rfl⟩
    | ok file =>
      have linted' : (step s r m' p).file = .ok file := by rw [same]; exact linted
      have read := step_ok linted
      obtain ⟨place, denoted, absolute, located, entry⟩ := readFile_ok read
      have stands : file.StandsAt m place := ⟨absolute, located, entry⟩
      have stands' : file.StandsAt m' place :=
        ⟨absolute, by rw [alike.locate]; exact located, by rw [here place denoted]; exact entry⟩
      have stands_left : file.StandsAt { m' with workingDirectory := dir } place :=
        LintedFile.standsAt_standing.mpr stands'
      obtain ⟨left_alike, writes, left_entry⟩ := stands_left.leave
      have turns_eq : turns s r m (p :: rest) =
          (m, p) :: turns s (step s r m p).runner { m with workingDirectory := dir } rest := by
        rw [turns, stays]
      rw [turns_eq, denotedBy_cons denoted] at apart intact
      obtain ⟨other_place, apart⟩ := List.nodup_cons.mp apart
      have intact_rest : ∀ other ∈ denotedBy (turns s (step s r m p).runner
          { m with workingDirectory := dir } rest),
          FileSystem.entry? (file.leave false { m' with workingDirectory := dir }).files other =
            m.files.entry? other := by
        intro other member
        have elsewhere : other ≠ place := fun eq => other_place (eq ▸ member)
        rw [left_entry, if_neg fun both => elsewhere both.1]
        exact intact other (List.mem_cons_of_mem _ member)
      have onwards := ih (alike_after.trans left_alike) (step s r m p).runner apart intact_rest
        { summary with fixed := summary.fixed ++ file.reported?.toList }
      have dry : fixFiles s true r m (p :: rest) summary = _ :=
        fixFiles_of_ok linted fun done _ => ⟨_, rfl⟩
      have real : fixFiles s false r m' (p :: rest) summary = _ :=
        fixFiles_of_ok linted' fun done fixed => ⟨_, by rw [same]; exact writes done fixed⟩
      have files : lintedBy s false r m' (p :: rest) = _ := lintedBy_of_ok linted'
      simp only [same, stays, LintedFile.leave_dry] at dry real files
      rw [turns_eq, dry, real, files]
      exact onwards.cons read denoted other_place stands stands' _

theorem fixFiles_dry_machine (s : Setting) {m : Machine} (sound : m.Sound) (back : m.CanReturn)
    (files : List Path) (r : Runner) (summary : FixSummary) :
    (fixFiles s true r m files summary).2.1 = m := by
  induction files generalizing r summary with
  | nil => rfl
  | cons p rest ih =>
    have stays := step_machine s sound back r p
    cases linted : (step s r m p).file with
    | error e => rw [fixFiles_of_error linted]; exact stays
    | ok file =>
      rw [fixFiles_of_ok linted fun done _ => ⟨_, rfl⟩]
      simp only [stays, LintedFile.leave_dry, ih]

/-! ### Command lines -/

/-- A run has linted the files of all arguments and reports on those that had something to fix. In each
of these it has put the text with the fixes of its own lint pass, and no other file has changed. -/
structure HasFixed (m after : Machine) (turns : List (Machine × Path)) (linted : List LintedFile)
    (summary : FixSummary) : Prop where
  all : List.Forall₂ (fun turn file => readFile turn.1 turn.2 = .ok (file.path, file.content)) turns
    linted
  fixed : summary.fixed = linted.filterMap LintedFile.reported?
  failed : summary.failed = []
  written : ∀ file ∈ linted, ∀ entry, file.reported? = some entry →
    let done := applyReplacements file.content (toByteOffsets file.content (reconcile file.failures))
    entry = (file.path, done.count) ∧ after.readText file.path = .ok done.text
  elsewhere : ∀ place, (∀ entry ∈ summary.fixed, m.locate entry.1 ≠ .ok place) →
    after.files.entry? place = m.files.entry? place

theorem Predicted.hasFixed {m : Machine} {turns : List (Machine × Path)}
    {dry real : Except CommandError FixSummary × Machine × List Event} {linted : List LintedFile}
    (predicted : Predicted m m turns .empty dry real linted) {summary : FixSummary}
    (ended : real.1 = .ok summary) : HasFixed m real.2.1 turns linted summary := by
  obtain ⟨rfl, all⟩ := predicted.reported summary ended
  refine ⟨all, rfl, rfl, fun file member entry reported => ?_, fun place outside => ?_⟩
  · obtain ⟨done, fixed, rfl⟩ := Option.map_eq_some_iff.mp reported
    obtain ⟨place, -, stands⟩ := predicted.read file member
    obtain ⟨dir, machine⟩ := predicted.machine
    obtain rfl := LintedFile.fixed?_eq_some fixed
    refine ⟨rfl, Machine.readText_eq_ok_iff.mpr ⟨place, ?_, ?_⟩⟩
    · rw [predicted.left.locate, machine, Machine.locate_standing stands.absolute]
      exact stands.located
    · exact predicted.written file member _ fixed place stands
  · refine predicted.elsewhere place fun file member fixed stands => ?_
    obtain ⟨done, fixed⟩ := Option.isSome_iff_exists.mp fixed
    refine outside (file.path, done.count) (List.mem_filterMap.mpr ⟨file, member, ?_⟩) stands.located
    simp [LintedFile.reported?, fixed]

theorem run_fix {m : Machine} {a : Arguments} {settings : Settings}
    (loaded : loadSettings m a.settings = .ok settings) {files : List Path} {dryRun : Bool}
    {outcome : Except CommandError FixSummary} {after : Machine} {events : List Event}
    (ended : fixFiles (.of a settings m) dryRun .new m files .empty = (outcome, after, events))
    (unfailed : ∀ summary, outcome = .ok summary → summary.failed = []) :
    run m { a with command := .fix files dryRun } =
      ⟨outcome.map fun summary => (summary.report dryRun, false), after, events⟩ := by
  have fixing : fixFiles (.of { a with command := .fix files dryRun } settings m) dryRun .new m files
      .empty = (outcome, after, events) := ended
  simp only [run, loaded, fix, fixing]
  cases outcome with
  | error e => rfl
  | ok summary => simp only [Except.map, unfailed summary rfl, List.isEmpty_nil, Bool.not_true]

theorem exitCode_unfailed (outcome : Except CommandError FixSummary) (dryRun : Bool) (after : Machine)
    (events : List Event) :
    CommandReport.exitCode ⟨outcome.map fun summary => (summary.report dryRun, false), after, events⟩ =
      if outcome.isOk then 0 else 2 := by
  cases outcome <;> rfl

/-- A machine with two files, for which Node answers every request with an empty configuration and a
failure in the first of them. -/
def twoFiles : Machine where
  files := ⟨[(["a.ts"], .file (.text "var x")), (["b.d.ts"], .file (.text "")),
    (["tslint"], .file (.text "")), (["node"], .program)], []⟩
  workingDirectory := some []
  environment := []
  respond call :=
    let answer := if call.arguments.length = 2 then "/tslint"
      else "\x7b\"configuration\":\x7b\x7d,\"failures\":[[\"/a.ts\",0,3,\"m\",null,null,[[0,3,\"let\"]]]]\x7d"
    .ends (answer.toList.map Char.toNat) [] (.exited 0)

def fixTwoFiles (dryRun : Bool) : Arguments :=
  ⟨none, none, some ⟨"/node"⟩, false, .fix [⟨"a.ts"⟩, ⟨"b.d.ts"⟩] dryRun⟩

end CommandLine
end LintBridge
