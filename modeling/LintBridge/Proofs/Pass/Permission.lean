import LintBridge.Proofs.Engine.Recency
import LintBridge.Proofs.Pass.Decision
/-!
Passes without a decision on the workspace's engine. Such a pass is refused an engine by the label of
its library alone. The label goes back to the question that has named the library's module: the last
one that was asked for the file, in this pass or in an earlier one (`located_named`). It says that the
module belongs to the workspace only if that question had no path to search. So an engine of the
workspace that nobody trusts is refused exactly after such a question (`unknown_refuses_iff`).
-/
namespace LintBridge

def PassReport.AsksEngine (report : PassReport) : Prop := ∃ e ∈ report.events, ¬ e.IsLookup

instance (report : PassReport) : Decidable report.AsksEngine :=
  inferInstanceAs (Decidable (∃ e ∈ report.events, ¬ e.IsLookup))

structure ModuleQuestion where
  machine : Machine
  search : Option Path
  dir : Path

def Event.question? (m : Machine) : Event → Option ModuleQuestion
  | .resolved search dir => some ⟨m, search, dir⟩
  | _ => none

def questions (m : Machine) (events : List Event) : List ModuleQuestion :=
  events.filterMap (Event.question? m)

theorem questions_append (m : Machine) (events more : List Event) :
    questions m (events ++ more) = questions m events ++ questions m more :=
  List.filterMap_append

theorem questions_eq_nil {m : Machine} {events : List Event}
    (silent : ∀ e ∈ events, e.question? m = none) : questions m events = [] :=
  List.filterMap_eq_nil_iff.mpr silent

theorem isWorkspaceModule_of_same {dir dir' : Path} (same : dir.same dir' = true) (module : Path) :
    isWorkspaceModule module dir = isWorkspaceModule module dir' := by
  unfold isWorkspaceModule Path.startsWith
  rw [Path.same_iff.mp same]

theorem Locator.startOf_same {file file' : Path} (same : file.same file' = true) :
    (startOf file).same (startOf file') = true := by
  unfold startOf
  rcases Path.same_parent? same with ⟨none, none'⟩ | ⟨above, above', found, found', same⟩
  · rw [none, none']
    exact Path.same_refl _
  · rw [found, found']
    exact same

/-- A question for the engine of a file names a library: the library's module answers it, and is
labelled as one of the workspace only if it is one and no path was searched. A question is asked in the
directory of the file or in the path that is searched. -/
structure ModuleQuestion.Names (t : Toolchain) (q : ModuleQuestion) (file : Path) (library : Library) :
    Prop where
  dir : q.dir.same (Locator.startOf file) = true ∨ q.search = some q.dir
  answer : (t.resolveModule q.machine q.search q.dir).1 = some library.modulePath
  source : library.source = .workspace ↔
    q.search = none ∧ isWorkspaceModule library.modulePath (Locator.startOf file) = true

theorem ModuleQuestion.Names.of_same {t : Toolchain} {q : ModuleQuestion} {file file' : Path}
    {library : Library} (names : q.Names t file library)
    (same : file.same file' = true) : q.Names t file' library := by
  have start := Locator.startOf_same same
  refine ⟨names.dir.imp_left fun dir => ?_, names.answer, ?_⟩
  · exact Path.same_iff.mpr ((Path.same_iff.mp dir).trans (Path.same_iff.mp start))
  · rw [names.source, isWorkspaceModule_of_same start]

namespace Locator

/-! ### Searches -/

variable {t : Toolchain} {m : Machine} {file : Path}

theorem questions_ask (search : Option Path) (dir : Path) :
    questions m (ask t m search dir).2 = [⟨m, search, dir⟩] := by
  simp [ask, questions, Event.question?]

def Named (t : Toolchain) (m : Machine) (file : Path) (found : Located) : Prop :=
  ∀ library, found.library = some library →
    ∃ q, (questions m found.events).getLast? = some q ∧ q.Names t file library

theorem Named.after {found : Located} (named : Named t m file found) (warnings : List String)
    (events : List Event) : Named t m file (found.after warnings events) := by
  intro library located
  obtain ⟨q, last, names⟩ := named library located
  refine ⟨q, ?_, names⟩
  rw [Located.after, questions_append, List.getLast?_append, last, Option.some_or]

variable (l : Locator) (manager : PackageManager)

theorem amongGlobal_named {dir : Option Path} (seen : ∀ place ∈ dir, place = startOf file) :
    Named t m file (l.amongGlobal t m manager dir) := by
  intro library located
  unfold amongGlobal at located ⊢
  generalize l.root t m manager = known at located ⊢
  rcases known with ⟨_ | root, kept, events⟩
  · contradiction
  · obtain ⟨path, answer, rfl⟩ := Option.map_eq_some_iff.mp located
    refine ⟨⟨m, some root, dir.getD root⟩, ?_, ?_, answer, by simp⟩
    · rw [questions_append, questions_ask, List.getLast?_concat]
    · cases dir with
      | none => exact Or.inr rfl
      | some place => exact Or.inl (by simp [seen place rfl, Path.same_refl])

theorem fromDirectory_named :
    Named t m file (l.fromDirectory t m manager (startOf file)) := by
  have question := questions_ask (t := t) (m := m) none (startOf file)
  unfold fromDirectory
  cases answer : ask t m none (startOf file) with
  | mk found events =>
    rw [answer] at question
    cases found with
    | none => exact (l.amongGlobal_named manager (by simp)).after [] events
    | some path =>
      intro library located
      obtain rfl := Option.some.inj located
      refine ⟨⟨m, none, startOf file⟩, by rw [question]; rfl, Or.inl (Path.same_refl _),
        congrArg Prod.fst answer, ?_⟩
      simp

theorem search_named (file : Path) (o : LocateOptions) : Named t m file (l.search t m file o) := by
  unfold search
  split
  · split
    · exact l.fromDirectory_named _
    · rename_i path _
      split
      · have question := questions_ask (t := t) (m := m) (some path) path
        cases answer : ask t m (some path) path with
        | mk found events =>
          rw [answer] at question
          cases found with
          | none => exact (l.amongGlobal_named _ (by simp)).after [] events
          | some module =>
            intro library located
            obtain rfl := Option.some.inj located
            exact ⟨⟨m, some path, path⟩, by rw [question]; rfl, Or.inr rfl,
              congrArg Prod.fst answer, by simp⟩
      · exact (l.fromDirectory_named _).after _ _
  · exact l.amongGlobal_named _ (by simp)

end Locator

namespace Runner

/-! ### Histories -/

variable {r : Runner} {t : Toolchain} {m : Machine} {c : PassCall} {history : List Act}

theorem questions_pass (r : Runner) (t : Toolchain) (m : Machine) (c : PassCall) :
    questions m (r.pass t m c).events = questions m (r.located t m c).events := by
  have loads (library : Library) : questions m (r.loaded t m c library).events = [] :=
    questions_eq_nil fun e member => by rw [Locator.load_events _ _ e member]; rfl
  have works (r' : Runner) (place : Machine) (engine : Engine) (allowed : Bool) (w : List String) :
      questions m (r'.configure place engine c.file c.source c.options allowed w).events = [] := by
    refine questions_eq_nil fun e member => ?_
    have work := configure_events r' place engine c allowed w e member
    cases e <;> first | rfl | contradiction
  have course := pass_course r t m c
  generalize pass : r.pass t m c = report at course
  cases course with
  | notFound found => rfl
  | notTrusted found refused => rfl
  | notLoaded found permitted unloaded => rw [questions_append, loads, List.append_nil]
  | leftOut found permitted loaded out => rw [questions_append, loads, List.append_nil]
  | reached reaches =>
    obtain ⟨after, -, report⟩ := reaches.report
    rw [report]
    simp only [PassReport.after, questions_append, loads, works, List.append_nil]

def questionsFor (r : Runner) (t : Toolchain) (file : Path) : Act → List ModuleQuestion
  | .pass m c => if c.file.same file then questions m (r.pass t m c).events else []
  | .configChange => []

def asked (t : Toolchain) (file : Path) : Runner → List Act → List ModuleQuestion
  | _, [] => []
  | r, first :: rest => r.questionsFor t file first ++ asked t file (act t r first) rest

theorem asked_append (t : Toolchain) (file : Path) (history : List Act) (last : Act) :
    asked t file .new (history ++ [last]) =
      asked t file .new history ++ (after t history).questionsFor t file last := by
  have onwards (r : Runner) : asked t file r (history ++ [last]) =
      asked t file r history ++ (history.foldl (act t) r).questionsFor t file last := by
    induction history generalizing r with
    | nil => simp [asked]
    | cons first rest ih => simp [asked, ih]
  exact onwards .new

theorem asked_of_same {file file' : Path} (same : file.same file' = true) (r : Runner)
    (history : List Act) : asked t file r history = asked t file' r history := by
  have step (r : Runner) (first : Act) :
      r.questionsFor t file first = r.questionsFor t file' first := by
    cases first with
    | configChange => rfl
    | pass m c => simp only [questionsFor, Path.same_iff, Path.same_iff.mp same]
  induction history generalizing r with
  | nil => rfl
  | cons first rest ih => rw [asked, asked, step, ih]

def Traced (t : Toolchain) (history : List Act) (l : Locator) : Prop :=
  ∀ e ∈ l.recent.entries, ∀ library, e.2.2 = some library →
    ∃ q, (asked t e.1 .new history).getLast? = some q ∧ q.Names t e.1 library

/-- What a pass finds was named by the last question for its file, whether that was asked in this pass
or in an earlier one. -/
theorem located_named_of_traced (traced : Traced t history (after t history).locator)
    {library : Library} (located : ((after t history).located t m c).library = some library) :
    ∃ q, (asked t c.file .new (history ++ [.pass m c])).getLast? = some q ∧
      q.Names t c.file library := by
  have own : (after t history).questionsFor t c.file (.pass m c) =
      questions m ((after t history).located t m c).events := by
    rw [questionsFor, if_pos c.file.same_refl, questions_pass]
  rw [asked_append, own]
  unfold Runner.located Locator.locate at located ⊢
  cases known : (after t history).locator.remembered? c.file (c.search m).options with
  | some remembered =>
    simp only [known] at located ⊢
    obtain ⟨e, member, same, -, kept⟩ := Locator.mem_of_remembered? known
    obtain ⟨q, last, names⟩ := traced e member library (kept.trans located)
    refine ⟨q, ?_, names.of_same same⟩
    rw [asked_of_same same] at last
    simpa [questions] using last
  | none =>
    simp only [known] at located ⊢
    obtain ⟨q, last, names⟩ := Locator.search_named _ _ _ library located
    exact ⟨q, by rw [List.getLast?_append, last, Option.some_or], names⟩

theorem pass_recent (r : Runner) (t : Toolchain) (m : Machine) (c : PassCall) :
    (r.pass t m c).runner.locator.recent =
      r.locator.recent.put c.file ((c.search m).options, (r.located t m c).library) := by
  have found : (r.located t m c).locator.recent = _ := r.locator.locate_recent (c.search m)
  rcases pass_locator r t m c with left | ⟨library, -, left⟩
  · rw [left, found]
    rfl
  · rw [left, Runner.loaded, Locator.load_recent, found]
    rfl

/-- The induction is over the history. A pass puts what it has found in front, and asks no question for
any other file that is remembered. -/
theorem after_traced (t : Toolchain) (history : List Act) :
    Traced t history (after t history).locator := by
  induction history using List.reverseRecOn with
  | nil => simp [Traced, after, new, Locator.new, Recent.empty]
  | append_singleton history last ih =>
    rw [after_append]
    cases last with
    | configChange =>
      intro e member library found
      rw [asked_append, questionsFor, List.append_nil]
      exact ih e member library found
    | pass m c =>
      intro e member library found
      rw [act, pass_recent] at member
      rcases Recent.mem_put member with rfl | ⟨member, other⟩
      · exact located_named_of_traced ih found
      · rw [Path.same_comm] at other
        rw [asked_append, questionsFor, other, if_neg Bool.false_ne_true, List.append_nil]
        exact ih e member library found

theorem located_named {library : Library}
    (located : ((after t history).located t m c).library = some library) :
    ∃ q, (asked t c.file .new (history ++ [.pass m c])).getLast? = some q ∧
      q.Names t c.file library :=
  located_named_of_traced (after_traced t history) located

/-! ### Refusals -/

theorem reaches_of_asksEngine (asks : (r.pass t m c).AsksEngine) :
    ∃ library allowed engine, r.Reaches t m c library allowed engine := by
  obtain ⟨e, member, work⟩ := asks
  rcases pass_cases r t m c with ⟨library, allowed, engine, worked⟩ | stopped
  · exact ⟨library, allowed, engine, worked.reaches⟩
  · rcases stopped.events e member with located | ⟨path, rfl⟩
    · exact absurd (located_events r t m c e located) work
    · exact absurd trivial work

theorem refused_iff {library : Library} (found : r.library? t m c = some library) :
    (r.pass t m c).outcome? = some .workspaceNotTrusted ↔ c.permission? m library = none := by
  have ends : PassEnd.ofPass r t m c = .notTrusted ↔ PassEnd.notTrusted.applies r t m c = true := by
    rw [PassEnd.ofPass_eq_iff]
    simp [PassEnd.order, PassEnd.applies, found]
  rw [← notTrusted_applies_iff found, ← ends, pass_outcome?]
  cases PassEnd.ofPass r t m c <;> decide

/-- A pass without a decision that has found an engine of the workspace that nobody trusts is refused
it exactly if the question that has named it, the last one for its file, had no path to search. -/
theorem unknown_refuses_iff (unknown : c.trust m = .unknown) :
    let pass := (after t history).pass t m c
    let found := (after t history).library? t m c
    (pass.AsksEngine → found.isSome) ∧
      ∀ library, found = some library →
        ∃ q, (asked t c.file .new (history ++ [.pass m c])).getLast? = some q ∧
          q.Names t c.file library ∧
          (isWorkspaceModule library.modulePath (Locator.startOf c.file) = true →
            isImplicitlyTrusted library.modulePath c.options.hostInstallRoot = false →
            (pass.outcome? = some .workspaceNotTrusted ↔ q.search = none) ∧
              (pass.AsksEngine → q.search ≠ none)) := by
  intro pass found
  refine ⟨fun asks => ?_, fun library located => ?_⟩
  · obtain ⟨library, allowed, engine, reaches⟩ := reaches_of_asksEngine asks
    exact Option.isSome_of_eq_some reaches.located
  · obtain ⟨q, last, names⟩ := located_named located
    refine ⟨q, last, names, fun inside untrusted => ?_⟩
    have refused : c.permission? m library = none ↔ q.search = none := by
      simp [permission?_eq_none_iff, unknown, untrusted, names.source, inside]
    refine ⟨(refused_iff located).trans refused, fun asks plain => ?_⟩
    obtain ⟨library', allowed, engine, reaches⟩ := reaches_of_asksEngine asks
    obtain rfl : library = library' := Option.some.inj (located.symm.trans reaches.located)
    have permitted := reaches.permitted
    rw [refused.mpr plain] at permitted
    contradiction

/-- The path of the settings holds no engine, the global directory as seen from the file leads to the
engine of the workspace, and a second pass remembers it: it is not refused either. -/
theorem unknown_refuses_iff_global :
    let c := PassCall.simple .unknown (some ⟨"/bare"⟩) none
    let history : List Act := [.pass .simple c]
    let library : Library := ⟨⟨"/w/node_modules/tslint"⟩, .global⟩
    c.trust .simple = .unknown ∧
      (after .simple history).library? .simple .simple c = some library ∧
      isWorkspaceModule library.modulePath (Locator.startOf c.file) = true ∧
      isImplicitlyTrusted library.modulePath c.options.hostInstallRoot = false ∧
      ((after .simple history).pass .simple .simple c).AsksEngine ∧
      ∃ q, (asked .simple c.file .new (history ++ [.pass .simple c])).getLast? = some q ∧
        q.Names .simple c.file library ∧ q.search ≠ none ∧
        ((after .simple history).pass .simple .simple c).outcome? ≠ some .workspaceNotTrusted := by
  intro c history library
  have unknown : c.trust .simple = .unknown := by decide
  have found : (after .simple history).library? .simple .simple c = some library := by decide
  have inside : isWorkspaceModule library.modulePath (Locator.startOf c.file) = true := by decide
  have untrusted : isImplicitlyTrusted library.modulePath c.options.hostInstallRoot = false := by
    decide
  have asks : ((after .simple history).pass .simple .simple c).AsksEngine := by decide
  obtain ⟨q, last, names, refuses⟩ := (unknown_refuses_iff unknown).2 library found
  obtain ⟨refused_iff, searched⟩ := refuses inside untrusted
  have path := searched asks
  exact ⟨unknown, found, inside, untrusted, asks, q, last, names, path,
    fun refused => path (refused_iff.mp refused)⟩

/-- An engine of the workspace that nobody trusts is asked if a path to search leads to it: the path
of the settings, or the global directory once that path holds no engine. -/
theorem unknown_asks_untrusted :
    let module : Path := ⟨"/w/node_modules/tslint"⟩
    isWorkspaceModule module (Locator.startOf ⟨"/w/a.ts"⟩) = true ∧
      isImplicitlyTrusted module none = false ∧
      ∀ nodePath ∈ ["/w", "/bare"],
        let c := PassCall.simple .unknown (some ⟨nodePath⟩) none
        c.trust .simple = .unknown ∧
          (Runner.new.located .simple .simple c).library.map Library.modulePath = some module ∧
          (Runner.new.pass .simple .simple c).AsksEngine := by
  decide

end Runner
end LintBridge
