import LintBridge.Proofs.Config.Resolver
import LintBridge.Proofs.Pass.History
/-!
What memory makes of a pass. On a machine that does not change, a pass finds and loads the engine that it
would find with nothing remembered (`after_findsAfresh`), and the resolver holds the answer to the
inquiry of one pass of the history (`after_recalls`), which is told by file alone.
-/
namespace LintBridge

/-- What decides the configuration of a file: the module of the engine, the machine it is asked on and
the given configuration file. -/
structure Inquiry where
  engine : Path
  machine : Machine
  given : Option Path

namespace PassCall

def inquiry? (t : Toolchain) (m : Machine) (c : PassCall) : Option Inquiry :=
  ((c.search m).foundAfresh t m).bind fun library =>
    (c.permission? m library).bind fun allowed =>
      if (t.load m library.modulePath).isOk && !c.leftOut then
        some ⟨library.modulePath, m.inside c.options.workspaceFolder allowed, c.options.configFile⟩
      else none

def module? (t : Toolchain) (m : Machine) (c : PassCall) : Option Path :=
  ((c.search m).foundAfresh t m).map Library.modulePath

def answer (t : Toolchain) (c : PassCall) (q : Inquiry) : Except LintError ResolvedConfiguration :=
  ConfigResolver.answer c.options.stripUnstable (t.engine q.engine).discovery q.machine c.file q.given

/-- What is remembered after a pass that asks for a configuration: what was remembered for its file,
else its own inquiry if that is answered. -/
def keep (t : Toolchain) (c : PassCall) (q : Inquiry) (known : Option (PassCall × Inquiry)) :
    Option (PassCall × Inquiry) :=
  let held := known.filter fun k => k.1.options.stripUnstable = c.options.stripUnstable
  if held.any fun k => k.1.file.same c.file then held
  else if (c.answer t q).isOk then some (c, q) else held

end PassCall

def Act.keep (t : Toolchain) (m : Machine) (known : Option (PassCall × Inquiry)) :
    Act → Option (PassCall × Inquiry)
  | pass _ c => match c.inquiry? t m with
    | some q => c.keep t q known
    | none => known
  | configChange => none

def remembered? (t : Toolchain) (m : Machine) (history : List Act) : Option (PassCall × Inquiry) :=
  history.foldl (Act.keep t m) none

theorem remembered?_append (t : Toolchain) (m : Machine) (history : List Act) (last : Act) :
    remembered? t m (history ++ [last]) = last.keep t m (remembered? t m history) := by
  simp [remembered?]

/-- Whether a resolver holds the answer to the inquiry of a pass, and nothing else. -/
def Recalls (t : Toolchain) (known : Option (PassCall × Inquiry)) (r : ConfigResolver) : Prop :=
  match known with
  | none => r.cache = none
  | some (c, q) => r.stripUnstable = c.options.stripUnstable ∧
      ∃ resolved, c.answer t q = .ok resolved ∧ r.cache = some (c.file, resolved)

def PassCall.resolution (t : Toolchain) (c : PassCall) (q : Inquiry) (r : ConfigResolver) :
    Resolution :=
  (r.setStripUnstable c.options.stripUnstable).resolve (t.engine q.engine).discovery q.machine c.file
    q.given

section Recalls

variable {t : Toolchain} {known : Option (PassCall × Inquiry)} {r : ConfigResolver}

theorem Recalls.setStripUnstable (recalls : Recalls t known r) (strip : Bool) :
    Recalls t (known.filter fun k => k.1.options.stripUnstable = strip)
      (r.setStripUnstable strip) := by
  unfold ConfigResolver.setStripUnstable
  cases known with
  | none =>
    split
    · exact recalls
    · rfl
  | some k =>
    obtain ⟨kept, resolved, answer, cache⟩ := recalls
    by_cases same : k.1.options.stripUnstable = strip
    · rw [Option.filter_some_pos (by simpa using same), if_pos (kept.trans same)]
      exact ⟨kept, resolved, answer, cache⟩
    · rw [Option.filter_some_neg (by simpa using same), if_neg (kept ▸ same)]
      rfl

theorem Recalls.resolve (recalls : Recalls t known r) (c : PassCall) (q : Inquiry)
    (strip : r.stripUnstable = c.options.stripUnstable) (missing : r.cached? c.file = none) :
    let resolution := r.resolve (t.engine q.engine).discovery q.machine c.file q.given
    Recalls t (if (c.answer t q).isOk then some (c, q) else known) resolution.resolver ∧
      resolution.answer = c.answer t q := by
  obtain ⟨answer, left⟩ :=
    ConfigResolver.resolve_of_not_cached (t.engine q.engine).discovery q.machine q.given missing
  have inquiry : ConfigResolver.answer c.options.stripUnstable (t.engine q.engine).discovery q.machine
      c.file q.given = c.answer t q := rfl
  rw [strip, inquiry] at answer left
  refine ⟨?_, answer⟩
  rw [left]
  cases result : c.answer t q with
  | error e => exact recalls
  | ok resolved => exact ⟨rfl, resolved, result, rfl⟩

/-- A step of the resolver: it holds what `keep` says, and gives the answer to the inquiry of the pass
unless it holds one to another inquiry for the file. -/
theorem Recalls.resolution (recalls : Recalls t known r) (c : PassCall) (q : Inquiry) :
    Recalls t (c.keep t q known) (c.resolution t q r).resolver ∧
      ((∀ other q', known = some (other, q') → other.file.same c.file = true →
          other.options.stripUnstable = c.options.stripUnstable →
          other.answer t q' = c.answer t q) →
        (c.resolution t q r).answer = c.answer t q) := by
  have held := recalls.setStripUnstable c.options.stripUnstable
  have strip := r.setStripUnstable_stripUnstable c.options.stripUnstable
  have source (k : PassCall × Inquiry)
      (kept : (known.filter fun k => k.1.options.stripUnstable = c.options.stripUnstable) = some k) :
      known = some k ∧ k.1.options.stripUnstable = c.options.stripUnstable := by
    simpa using Option.filter_eq_some_iff.mp kept
  unfold PassCall.keep PassCall.resolution
  generalize r.setStripUnstable c.options.stripUnstable = after at held strip ⊢
  generalize (known.filter fun k => k.1.options.stripUnstable = c.options.stripUnstable) = kept
    at held source ⊢
  cases kept with
  | none =>
    obtain ⟨recalled, answer⟩ := held.resolve c q strip (ConfigResolver.cached?_of_cache_eq_none held)
    exact ⟨recalled, fun _ => answer⟩
  | some k =>
    obtain ⟨-, resolved, known_answer, cache⟩ := id held
    have cached := ConfigResolver.cached?_of_cache_eq_some cache c.file
    by_cases same : k.1.file.same c.file = true
    · rw [if_pos same] at cached
      rw [ConfigResolver.resolve_of_cached _ _ _ cached]
      simp only [Option.any_some, same, if_true]
      obtain ⟨known, alike⟩ := source k rfl
      exact ⟨held, fun agree => known_answer.symm.trans (agree k.1 k.2 known same alike)⟩
    · rw [if_neg same] at cached
      obtain ⟨recalled, answer⟩ := held.resolve c q strip cached
      simp only [Option.any_some, same]
      exact ⟨recalled, fun _ => answer⟩

end Recalls

/-- Whether paths of two passes that are the same are spelled in the same way. -/
structure SpelledAlike (t : Toolchain) (m : Machine) (c c' : PassCall) : Prop where
  file : c.file.same c'.file = true → c.file = c'.file
  nodePath : samePath? c.options.nodePath c'.options.nodePath = true →
    c.options.nodePath = c'.options.nodePath
  module : samePath? (c.module? t m) (c'.module? t m) = true → c.module? t m = c'.module? t m

def AllAlike (t : Toolchain) (m : Machine) (history : List Act) : Prop :=
  ∀ place c place' c', .pass place c ∈ history → .pass place' c' ∈ history → SpelledAlike t m c c'

theorem AllAlike.beginning {t : Toolchain} {m : Machine} {history : List Act} {last : Act}
    (alike : AllAlike t m (history ++ [last])) : AllAlike t m history :=
  fun place c place' c' member member' => alike place c place' c'
    (List.mem_append_left _ member) (List.mem_append_left _ member')

namespace Runner

structure FindsAfresh (r : Runner) (t : Toolchain) (m : Machine) (c : PassCall) : Prop where
  located : (r.located t m c).library = (c.search m).foundAfresh t m
  loaded : ∀ library, (c.search m).foundAfresh t m = some library →
    (r.loaded t m c library).engine =
      if (t.load m library.modulePath).isOk then some (t.engine library.modulePath) else none

variable {r : Runner} {t : Toolchain} {m : Machine} {c : PassCall} {history : List Act}

theorem after_findsAfresh (unchanging : ∀ act ∈ history, act.On m)
    (alike : AllAlike t m (history ++ [.pass m c])) : FindsAfresh (after t history) t m c := by
  have same_machine : ∀ m' s, Asked (history ++ [.pass m c]) m' s → m' = m := by
    refine asked_unchanging fun act member => ?_
    rcases List.mem_append.mp member with member | member
    · exact unchanging act member
    · rw [List.mem_singleton.mp member]
      rfl
  have last : Act.pass m c ∈ history ++ [.pass m c] := by simp
  have faithful := (after_faithful t history).mono fun _ _ asks => asks.append (.pass m c)
  obtain ⟨⟨origin, gives, same⟩, kept⟩ :=
    Locator.locate_faithful faithful (asked_last history m c)
  change Search.Gives t _ origin ((after t history).located t m c).library at gives
  obtain ⟨⟨other, member, rfl⟩, library⟩ := gives.afresh same_machine
  obtain ⟨file, nodePath, manager, allow⟩ := Search.same_iff.mp same
  have spelled := alike _ _ _ _ member last
  have search : other.search m = c.search m := by
    have file := spelled.file file
    have nodePath := spelled.nodePath nodePath
    simp only [PassCall.search, PassOptions.locateOptions] at manager allow ⊢
    simp [file, nodePath, manager, allow]
  rw [search] at library gives
  refine ⟨library, fun found known => ?_⟩
  rw [library, known] at gives
  obtain ⟨⟨m', s', source, found', asks, gives', same, engine⟩, -⟩ :=
    Locator.load_faithful kept (asked_last history m c) gives
  obtain ⟨⟨loader, member', rfl⟩, known'⟩ := gives'.afresh same_machine
  have spelled := (alike _ _ _ _ member' last).module
  simp only [PassCall.module?, ← known', known, Option.map_some, samePath?] at spelled
  have path := Option.some.inj (spelled same)
  rw [same_machine _ _ asks, path] at engine
  exact engine

theorem new_findsAfresh (t : Toolchain) (m : Machine) (c : PassCall) : FindsAfresh .new t m c := by
  have unchanging : ∀ act ∈ ([] : List Act), act.On m := fun _ => nofun
  have alike : AllAlike t m ([] ++ [.pass m c]) := by
    intro place a place' b first second
    obtain ⟨rfl, rfl⟩ : place = m ∧ a = c := by simpa using first
    obtain ⟨rfl, rfl⟩ : place' = place ∧ b = a := by simpa using second
    exact ⟨fun _ => rfl, fun _ => rfl, fun _ => rfl⟩
  exact after_findsAfresh unchanging alike

theorem FindsAfresh.inquiry?_eq_some (afresh : FindsAfresh r t m c) {q : Inquiry}
    (inquiry : c.inquiry? t m = some q) :
    ∃ library allowed, r.Reaches t m c library allowed (t.engine q.engine) ∧
      q = ⟨library.modulePath, m.inside c.options.workspaceFolder allowed, c.options.configFile⟩ := by
  unfold PassCall.inquiry? at inquiry
  obtain ⟨library, found, inquiry⟩ := Option.bind_eq_some_iff.mp inquiry
  obtain ⟨allowed, permitted, inquiry⟩ := Option.bind_eq_some_iff.mp inquiry
  split at inquiry
  · rename_i passed
    obtain ⟨loads, kept⟩ := Bool.and_eq_true _ _ ▸ passed
    obtain rfl := Option.some.inj inquiry
    refine ⟨library, allowed, ⟨afresh.located.trans found, permitted, ?_, by simpa using kept⟩, rfl⟩
    rw [afresh.loaded library found, if_pos loads]
  · contradiction

theorem FindsAfresh.inquiry?_of_reaches (afresh : FindsAfresh r t m c) {library : Library}
    {allowed : Bool} {engine : Engine} (reaches : r.Reaches t m c library allowed engine) :
    c.inquiry? t m = some
        ⟨library.modulePath, m.inside c.options.workspaceFolder allowed, c.options.configFile⟩ ∧
      engine = t.engine library.modulePath := by
  have found := afresh.located.symm.trans reaches.located
  have loaded := (afresh.loaded library found).symm.trans reaches.loaded
  by_cases loads : (t.load m library.modulePath).isOk = true
  · rw [if_pos loads, Option.some.injEq] at loaded
    refine ⟨?_, loaded.symm⟩
    simp [PassCall.inquiry?, found, reaches.permitted, loads, reaches.kept]
  · rw [if_neg loads] at loaded
    contradiction

theorem FindsAfresh.pass_recalls (afresh : FindsAfresh r t m c) {known : Option (PassCall × Inquiry)}
    (recalls : Recalls t known r.resolver) :
    Recalls t ((Act.pass m c).keep t m known) (r.pass t m c).runner.resolver := by
  cases inquiry : c.inquiry? t m with
  | some q =>
    simp only [Act.keep, inquiry]
    obtain ⟨library, allowed, reaches, rfl⟩ := afresh.inquiry?_eq_some inquiry
    rw [reaches.worked.runner]
    exact (recalls.resolution c _).1
  | none =>
    simp only [Act.keep, inquiry]
    rcases pass_cases r t m c with ⟨library, allowed, engine, worked⟩ | stopped
    · rw [(afresh.inquiry?_of_reaches worked.reaches).1] at inquiry
      contradiction
    · rw [stopped.resolver]
      exact recalls

theorem after_recalls (unchanging : ∀ act ∈ history, act.On m) (alike : AllAlike t m history) :
    Recalls t (remembered? t m history) (after t history).resolver := by
  induction history using List.reverseRecOn with
  | nil => rfl
  | append_singleton history last ih =>
    have before (act : Act) (member : act ∈ history) : act.On m :=
      unchanging act (List.mem_append_left _ member)
    have recalls := ih before alike.beginning
    rw [remembered?_append, after_append]
    cases last with
    | configChange => rfl
    | pass place c =>
      have on : Act.On m (.pass place c) := unchanging _ (by simp)
      obtain rfl : place = m := on
      exact (after_findsAfresh before alike).pass_recalls recalls

theorem mem_of_remembered? (unchanging : ∀ act ∈ history, act.On m) {q : Inquiry}
    (known : remembered? t m history = some (c, q)) : .pass m c ∈ history := by
  induction history using List.reverseRecOn with
  | nil => contradiction
  | append_singleton history last ih =>
    have before (earlier : remembered? t m history = some (c, q)) :
        .pass m c ∈ history ++ [last] :=
      List.mem_append_left _
        (ih (fun act member => unchanging act (List.mem_append_left _ member)) earlier)
    rw [remembered?_append] at known
    cases last with
    | configChange => contradiction
    | pass place other =>
      have on : Act.On m (.pass place other) := unchanging _ (by simp)
      obtain rfl : place = m := on
      simp only [Act.keep] at known
      split at known
      · simp only [PassCall.keep] at known
        split at known
        · exact before (Option.filter_eq_some_iff.mp known).1
        · split at known
          · obtain ⟨rfl, -⟩ := Prod.mk.inj (Option.some.inj known)
            simp
          · exact before (Option.filter_eq_some_iff.mp known).1
      · exact before known

/-- On a machine that does not change, memory makes no difference to a pass, as long as the inquiry
that is remembered for its file is its own. -/
theorem pass_eq_afresh (unchanging : ∀ act ∈ history, act.On m)
    (alike : AllAlike t m (history ++ [.pass m c]))
    (asked : ∀ other q, remembered? t m history = some (other, q) → other.file = c.file →
      other.options.stripUnstable = c.options.stripUnstable →
      ∀ q', c.inquiry? t m = some q' → q = q') :
    ((after t history).pass t m c).outline = (Runner.new.pass t m c).outline ∧
      ((after t history).pass t m c).requests = (Runner.new.pass t m c).requests := by
  have afresh := after_findsAfresh unchanging alike
  have new := new_findsAfresh t m c
  have recalls := after_recalls unchanging alike.beginning
  have empty : Recalls t none Runner.new.resolver := rfl
  have own (q : Inquiry) : (c.resolution t q Runner.new.resolver).answer = c.answer t q :=
    (empty.resolution c q).2 fun _ _ known => nomatch known
  have used (q : Inquiry) (inquiry : c.inquiry? t m = some q) :
      (c.resolution t q (after t history).resolver).answer = c.answer t q := by
    refine (recalls.resolution c q).2 fun other q' known same strip => ?_
    have member := List.mem_append_left [Act.pass m c] (mem_of_remembered? unchanging known)
    have file := (alike m other m c member (by simp)).file same
    rw [asked other q' known file strip q inquiry]
    unfold PassCall.answer
    rw [file, strip]
  have library := afresh.located.trans new.located.symm
  have agree := pass_agree library
    (fun library found => by
      have found := afresh.located.symm.trans found
      rw [afresh.loaded library found, new.loaded library found])
    (fun library allowed engine reaches => by
      obtain ⟨inquiry, rfl⟩ := afresh.inquiry?_of_reaches reaches
      exact (used _ inquiry).trans (own _).symm)
  exact ⟨agree.outline, agree.requests⟩

theorem pass_eq_afresh_simple :
    let c := PassCall.simple .allow none none
    let history : List Act := [.pass .simple (.simple .disallow none none), .configChange,
      .pass .simple c]
    (∀ act ∈ history, act.On .simple) ∧ AllAlike .simple .simple (history ++ [.pass .simple c]) ∧
      (∀ other q, remembered? .simple .simple history = some (other, q) → other.file = c.file →
        other.options.stripUnstable = c.options.stripUnstable →
        ∀ q', c.inquiry? .simple .simple = some q' → q = q') ∧
      ((after .simple history).pass .simple .simple c).outline =
        (Runner.new.pass .simple .simple c).outline ∧
      ((after .simple history).pass .simple .simple c).requests =
        (Runner.new.pass .simple .simple c).requests := by
  intro c history
  have unchanging : ∀ act ∈ history, act.On .simple := by simp [history, Act.On]
  have alike : AllAlike .simple .simple (history ++ [.pass .simple c]) := by
    intro place a place' b first second
    have calls {place : Machine} {a : PassCall}
        (member : Act.pass place a ∈ history ++ [.pass .simple c]) :
        a = .simple .disallow none none ∨ a = c := by
      simp only [history, List.cons_append, List.nil_append, List.mem_cons, Act.pass.injEq,
        reduceCtorEq, List.not_mem_nil, or_false, false_or] at member
      tauto
    rcases calls first with rfl | rfl <;> rcases calls second with rfl | rfl
    · exact ⟨by decide, by decide, by decide⟩
    · exact ⟨by decide, by decide, by decide⟩
    · exact ⟨by decide, by decide, by decide⟩
    · exact ⟨by decide, by decide, by decide⟩
  have asked : ∀ other q, remembered? .simple .simple history = some (other, q) →
      other.file = c.file → other.options.stripUnstable = c.options.stripUnstable →
      ∀ q', c.inquiry? .simple .simple = some q' → q = q' := by
    intro other q known _ _ q' inquiry
    have held : remembered? .simple .simple history = (Act.pass .simple c).keep .simple .simple none :=
      rfl
    simp only [known, Act.keep, inquiry, PassCall.keep, Option.filter_none, Option.any_none,
      Bool.false_eq_true, if_false] at held
    split at held
    · exact (Prod.mk.inj (Option.some.inj held)).2
    · contradiction
  exact ⟨unchanging, alike, asked, pass_eq_afresh unchanging alike asked⟩

/-- What is remembered is told apart by the components of paths, a configuration by those of the file
alone. So it is given to a pass with another configuration file, with another engine, and with another
spelling of the path of the settings, of the file or of the engine's module. -/
theorem pass_ne_afresh :
    let configPaths (history : List PassCall) (c : PassCall) :=
      ((after .simple (history.map (.pass .simple))).pass .simple .simple c).requests.map
        fun request => request.1.configPath.map Path.text
    let plain := PassCall.simple .allow none none
    let given := PassCall.simple .allow none (some ⟨"/x.json"⟩)
    let named := PassCall.simple .unknown (some ⟨"/w/a.ts"⟩) none
    let misnamed := PassCall.simple .unknown (some ⟨"/w/a.ts/"⟩) none
    let respelled := { plain with file := ⟨"/w/a.ts/"⟩ }
    let moved := { PassCall.simple .allow (some ⟨"/w/."⟩) none with file := ⟨"/w/b.ts"⟩ }
    (configPaths [] given = [some "/x.json"] ∧
        configPaths [plain] given = [some "/w/node_modules/tslint/tslint.json"]) ∧
      (configPaths [] plain = [some "/w/node_modules/tslint/tslint.json"] ∧
        configPaths [.simple .disallow none none] plain =
          [some "/lib/node_modules/tslint/tslint.json"]) ∧
      (configPaths [] misnamed = [] ∧
        configPaths [named] misnamed = [some "/w/node_modules/tslint/tslint.json"]) ∧
      (configPaths [] respelled = [some "/w/node_modules/tslint/default.json"] ∧
        configPaths [plain] respelled = [some "/w/node_modules/tslint/tslint.json"]) ∧
      configPaths [] moved = [some "/w/./node_modules/tslint/default.json"] ∧
        configPaths [plain] moved = [some "/w/node_modules/tslint/default.json"] := by
  decide

end Runner
end LintBridge
