import LintBridge.Proofs.Machine.Standing
import LintBridge.Proofs.Pass.Decision
/-!
The working directory of a pass. A pass `Enters` the workspace folder if it gets as far as asking an
engine, code of the workspace may run, the folder can be entered and the machine knows where to go back
to. Then the engine is asked there, and else where the machine stands. Once the pass has ended the
machine is where it was, unless it has entered the folder and must not return to the directory before;
then it stays in the folder (`Runner.pass_goes_back`).
-/
namespace LintBridge

def Event.workingDirectory? : Event → Option (Option Location)
  | .configured _ dir => some dir
  | .linted _ dir => some dir
  | _ => none

theorem Event.IsLookup.workingDirectory? {e : Event} (lookup : e.IsLookup) :
    e.workingDirectory? = none := by
  cases e <;> first | rfl | contradiction

def PassReport.AskedIn (report : PassReport) (dir : Option Location) : Prop :=
  ∀ e ∈ report.events, ∀ asked, e.workingDirectory? = some asked → asked = dir

namespace Machine

/-- Whether what is done on a machine neither moves it nor takes a directory out. -/
structure Steady (m after : Machine) : Prop where
  workingDirectory : after.workingDirectory = m.workingDirectory
  directories : ∀ place, m.files.entry? place = some .directory →
    after.files.entry? place = some .directory

section Enters

variable {m : Machine} {folder : Option Path} {allowed : Bool} {start place : Location}

theorem holds_iff {held : HeldDirectory} :
    (if allowed then folder else none).map m.hold = some (.ok held) ↔
      ∃ start place, m.Enters folder allowed start place ∧
        held = ⟨{ m with workingDirectory := some place }, start.path⟩ := by
  cases allowed with
  | false =>
    simp only [Bool.false_eq_true, if_false, Option.map_none, reduceCtorEq, false_iff]
    rintro ⟨start, place, ⟨allowed, -⟩, -⟩
    contradiction
  | true =>
    cases folder with
    | none =>
      simp only [if_true, Option.map_none, reduceCtorEq, false_iff]
      rintro ⟨start, place, ⟨-, -, dir, folder, -⟩, -⟩
      contradiction
    | some dir => simp [hold_eq_ok_iff]

theorem inside_of_enters (enters : m.Enters folder allowed start place) :
    m.inside folder allowed = { m with workingDirectory := some place } := by
  have holds := holds_iff.mpr ⟨start, place, enters, rfl⟩
  simp [inside, holds]

theorem inside_of_stays (stays : ∀ start place, ¬m.Enters folder allowed start place) :
    m.inside folder allowed = m := by
  unfold inside
  split
  · rename_i held holds
    obtain ⟨start, place, enters, -⟩ := holds_iff.mp holds
    exact absurd enters (stays start place)
  · rfl

theorem inside_eq (m : Machine) (folder : Option Path) (allowed : Bool) :
    ∃ dir, m.inside folder allowed = { m with workingDirectory := dir } := by
  by_cases enters : ∃ start place, m.Enters folder allowed start place
  · obtain ⟨start, place, enters⟩ := enters
    exact ⟨_, inside_of_enters enters⟩
  · exact ⟨_, inside_of_stays fun start place entered => enters ⟨start, place, entered⟩⟩

end Enters
end Machine

namespace Runner

section InWorkspace

variable {m : Machine} {folder : Option Path} {allowed : Bool} {start place : Location}

theorem inWorkspace_of_enters (enters : m.Enters folder allowed start place)
    (act : Machine → PassReport) :
    inWorkspace m folder allowed act =
      let report := act { m with workingDirectory := some place }
      { report with machine := report.machine.goBack start.path } := by
  have holds := Machine.holds_iff.mpr ⟨start, place, enters, rfl⟩
  simp [inWorkspace, holds]

theorem inWorkspace_of_stays (stays : ∀ start place, ¬m.Enters folder allowed start place)
    (act : Machine → PassReport) : inWorkspace m folder allowed act = act m := by
  unfold inWorkspace
  split
  · rename_i held holds
    obtain ⟨start, place, enters, -⟩ := Machine.holds_iff.mp holds
    exact absurd enters (stays start place)
  · rfl

/-- What is done in the folder may change files and permissions. If it does not move the machine and
takes no directory out, the machine then goes back if it may, and else stays. -/
theorem inWorkspace_goes_back (sound : m.Sound) (enters : m.Enters folder allowed start place)
    {act : Machine → PassReport} (steady : ∀ place, Machine.Steady place (act place).machine) :
    (inWorkspace m folder allowed act).machine.workingDirectory =
      if (act (m.inside folder allowed)).machine.files.Searchable start then m.workingDirectory
      else some place := by
  have back := sound.goBack enters.known (steady { m with workingDirectory := some place }).directories
  rw [inWorkspace_of_enters enters, Machine.inside_of_enters enters, enters.known]
  simp only [back]
  split
  · rfl
  · exact (steady _).workingDirectory

end InWorkspace

variable {r : Runner} {t : Toolchain} {m : Machine} {c : PassCall}

/-- A pass is in a place while the engine is asked: it gets as far as that, code of the workspace may
run, and the machine enters the workspace folder. -/
structure Enters (r : Runner) (t : Toolchain) (m : Machine) (c : PassCall) (start place : Location) :
    Prop where
  reaches : ∃ library engine, r.Reaches t m c library true engine
  enters : m.Enters c.options.workspaceFolder true start place

theorem Reaches.machine {library : Library} {allowed : Bool} {engine : Engine}
    (reaches : r.Reaches t m c library allowed engine) :
    ∃ r' : Runner, (r.pass t m c).machine =
      (inWorkspace m c.options.workspaceFolder allowed fun place =>
        r'.configure place engine c.file c.source c.options allowed
          (r.located t m c).warnings).machine := by
  have loaded : ((r.located t m c).locator.load t m library.modulePath).engine = some engine :=
    reaches.loaded
  have pass := r.pass_eq t m c
  simp only [reaches.located, reaches.permitted, runWith_eq, loaded, reaches.kept,
    Bool.false_eq_true, if_false] at pass
  rw [pass]
  exact ⟨_, rfl⟩

theorem Stopped.askedIn (stopped : Stopped r t m c) (dir : Option Location) :
    (r.pass t m c).AskedIn dir := by
  intro e member asked asks
  rcases stopped.events e member with looked | ⟨path, rfl⟩
  · rw [(located_events r t m c e looked).workingDirectory?] at asks
    contradiction
  · contradiction

theorem Worked.askedIn {library : Library} {allowed : Bool} {engine : Engine}
    (worked : Worked r t m c library allowed engine) :
    (r.pass t m c).AskedIn (m.inside c.options.workspaceFolder allowed).workingDirectory := by
  intro e member asked asks
  rcases worked.events e member with looked | ⟨path, rfl⟩ | work
  · rw [(located_events r t m c e looked).workingDirectory?] at asks
    contradiction
  · contradiction
  · cases e with
    | configured question dir =>
      obtain rfl : dir = asked := Option.some.inj asks
      exact work
    | linted request dir =>
      obtain rfl : dir = asked := Option.some.inj asks
      exact work.1
    | _ => contradiction

theorem pass_stands (r : Runner) (t : Toolchain) (m : Machine) (c : PassCall) :
    (∀ start place, Enters r t m c start place →
        (r.pass t m c).machine = Machine.goBack { m with workingDirectory := some place } start.path ∧
        (r.pass t m c).AskedIn (some place)) ∧
      ((∀ start place, ¬Enters r t m c start place) →
        (r.pass t m c).machine = m ∧ (r.pass t m c).AskedIn m.workingDirectory) := by
  constructor
  · rintro start place ⟨⟨library, engine, reaches⟩, enters⟩
    obtain ⟨r', machine⟩ := reaches.machine
    have asked := reaches.worked.askedIn
    rw [Machine.inside_of_enters enters] at asked
    rw [machine, inWorkspace_of_enters enters]
    exact ⟨congrArg (Machine.goBack · start.path) (configure_leaves r' _ engine c true _).2, asked⟩
  · intro stays
    rcases pass_cases r t m c with ⟨library, allowed, engine, worked⟩ | stopped
    · have outside : ∀ start place, ¬m.Enters c.options.workspaceFolder allowed start place := by
        intro start place enters
        obtain rfl := enters.allowed
        exact stays start place ⟨⟨library, engine, worked.reaches⟩, enters⟩
      obtain ⟨r', machine⟩ := worked.reaches.machine
      have asked := worked.askedIn
      rw [Machine.inside_of_stays outside] at asked
      rw [machine, inWorkspace_of_stays outside]
      exact ⟨(configure_leaves r' m engine c allowed _).2, asked⟩
    · exact ⟨stopped.machine, stopped.askedIn _⟩

/-- A pass that does not enter the workspace folder stays where the machine is. One that enters it asks
the engine there; then the machine is back where it was if the process may search that directory and
all above it, and else it is left in the folder. This holds however the pass ends, and whatever the
engine does as long as it takes no directory out. -/
theorem pass_goes_back (sound : m.Sound) (r : Runner) (t : Toolchain) (c : PassCall) :
    ((∀ start place, ¬Enters r t m c start place) →
        (r.pass t m c).machine.workingDirectory = m.workingDirectory ∧
          (r.pass t m c).AskedIn m.workingDirectory) ∧
      (∀ start place, Enters r t m c start place →
        (r.pass t m c).machine.workingDirectory =
            (if m.files.Searchable start then m.workingDirectory else some place) ∧
          (r.pass t m c).AskedIn (some place)) ∧
      ∀ act : Machine → PassReport, (∀ place, Machine.Steady place (act place).machine) →
        let folder := c.options.workspaceFolder
        let allowed := r.allowed t m c
        let left := (inWorkspace m folder allowed act).machine.workingDirectory
        ((∀ start place, ¬m.Enters folder allowed start place) → left = m.workingDirectory) ∧
          ∀ start place, m.Enters folder allowed start place →
            left = if (act (m.inside folder allowed)).machine.files.Searchable start
              then m.workingDirectory else some place := by
  obtain ⟨entering, staying⟩ := pass_stands r t m c
  refine ⟨fun stays => ?_, fun start place enters => ?_, fun act steady => ⟨fun stays => ?_,
    fun start place enters => inWorkspace_goes_back sound enters steady⟩⟩
  · obtain ⟨machine, asked⟩ := staying stays
    exact ⟨congrArg Machine.workingDirectory machine, asked⟩
  · obtain ⟨machine, asked⟩ := entering start place enters
    have known := enters.enters.known
    have back : Machine.goBack { m with workingDirectory := some place } start.path = _ :=
      sound.goBack known fun _ there => there
    rw [machine, back, known]
    refine ⟨?_, asked⟩
    split <;> rfl
  · rw [inWorkspace_of_stays stays]
    exact (steady m).workingDirectory

end Runner

def Machine.simpleIn (workingDirectory : Option Location) (locked : List Location) : Machine :=
  { Machine.simple with
    files := { Machine.simple.files with locked := locked }
    workingDirectory := workingDirectory }

namespace Runner

theorem simpleIn_sound {workingDirectory : Option Location} (locked : List Location)
    (standing : ∀ place, workingDirectory = some place →
      Machine.simple.files.entry? place = some .directory) :
    (Machine.simpleIn workingDirectory locked).Sound := by
  have tree : Machine.simple.files.IsTree := FileSystem.isTree_of_entries (by decide)
  exact ⟨⟨tree.named, tree.closed⟩, standing⟩

theorem pass_goes_back_bare :
    let m := Machine.simpleIn (some ["bare"]) []
    let c := (PassCall.simple .allow none none).inFolder ⟨"/w"⟩
    m.Sound ∧ Enters new .simple m c ["bare"] ["w"] ∧ m.files.Searchable ["bare"] ∧
      (new.pass .simple m c).machine.workingDirectory = some ["bare"] ∧
      (new.pass .simple m c).AskedIn (some ["w"]) ∧
      (new.pass .simple m c).events.filterMap Event.workingDirectory? =
        [some ["w"], some ["w"], some ["w"]] := by
  intro m c
  have sound : m.Sound := simpleIn_sound [] fun place standing => Option.some.inj standing ▸ rfl
  let library : Library := ⟨⟨"/w/node_modules/tslint"⟩, .workspace⟩
  have loads : (new.loaded .simple m c library).engine.isSome = true := by decide
  obtain ⟨engine, loaded⟩ := Option.isSome_iff_exists.mp loads
  have reaches : new.Reaches .simple m c library true engine := ⟨by decide, by decide, loaded, by decide⟩
  have enters : Enters new .simple m c ["bare"] ["w"] := ⟨⟨_, _, reaches⟩, rfl, rfl, ⟨"/w"⟩, rfl, rfl⟩
  have searchable : m.files.Searchable ["bare"] := by decide
  have back := (pass_goes_back sound new .simple c).2.1 ["bare"] ["w"] enters
  rw [if_pos searchable] at back
  exact ⟨sound, enters, searchable, back.1, back.2, by decide⟩

/-- A machine whose working directory has been taken out does not enter the workspace folder, though
it could and code of the workspace may run. A machine in a directory that is locked enters it and does
not come back. -/
theorem stays_out_or_strays :
    let adrift := Machine.simpleIn none []
    let shut := Machine.simpleIn (some ["bare"]) [["bare"]]
    let c := (PassCall.simple .allow none none).inFolder ⟨"/w"⟩
    (adrift.Sound ∧ new.allowed .simple adrift c = true ∧
      adrift.changeDirectory ⟨"/w"⟩ = .ok { adrift with workingDirectory := some ["w"] } ∧
      (new.pass .simple adrift c).events.filterMap Event.workingDirectory? = [none, none, none]) ∧
    shut.Sound ∧ shut.workingDirectory = some ["bare"] ∧
      (new.pass .simple shut c).machine.workingDirectory = some ["w"] := by
  intro adrift shut c
  have stands : shut.Sound := simpleIn_sound _ fun place standing => Option.some.inj standing ▸ rfl
  exact ⟨⟨simpleIn_sound [] (by simp), by decide, rfl, by decide⟩, stands, rfl, by decide⟩

end Runner
end LintBridge
