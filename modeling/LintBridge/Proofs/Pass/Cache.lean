import LintBridge.Proofs.Config.Resolver
import LintBridge.Proofs.Pass.Decision
/-!
What a pass leaves of configurations. Every pass that has come to know its configuration remembers it
(`pass_cache_of_resolves`), however it then ends, but only a pass that lints says where the
configuration was read (`pass_configPath`).
-/
namespace LintBridge

def PassEnd.resolves : PassEnd → Bool
  | notFound | notTrusted | notLoaded | leftOut | notReadable | notResolved => false
  | _ => true

theorem PassEnd.asksForConfiguration_of_resolves {ending : PassEnd}
    (resolves : ending.resolves = true) : ending.asksForConfiguration = true := by
  cases ending <;> first | rfl | contradiction

namespace Runner
open PassEnd

variable {r : Runner} {t : Toolchain} {m : Machine} {c : PassCall}

theorem reaches_of_asksForConfiguration
    (asks : (PassEnd.ofPass r t m c).asksForConfiguration = true) :
    ∃ library allowed engine, r.Reaches t m c library allowed engine := by
  have not_applies : ∀ ending ∈ order.take 4, ending.applies r t m c = false := by
    intro ending early
    by_contra applies
    have first : ∃ first, (order.take 4).find? (·.applies r t m c) = some first :=
      Option.isSome_iff_exists.mp (List.find?_isSome.mpr ⟨ending, early, by simpa using applies⟩)
    obtain ⟨first, found⟩ := first
    have ends : PassEnd.ofPass r t m c = first := by
      rw [PassEnd.ofPass, ← List.take_append_drop 4 order, List.find?_append, found]
      rfl
    have silent : ∀ ending ∈ order.take 4, ending.asksForConfiguration = false := by decide
    rw [ends, silent first (List.mem_of_find?_eq_some found)] at asks
    contradiction
  have has_library : (r.library? t m c).isNone = false := not_applies notFound (by decide)
  have has_engine : (r.engine? t m c).isNone = false := not_applies notLoaded (by decide)
  have kept : c.leftOut = false := not_applies leftOut (by decide)
  rw [Option.isNone_eq_false_iff, Option.isSome_iff_exists] at has_library has_engine
  obtain ⟨library, located⟩ := has_library
  obtain ⟨engine, loaded⟩ := has_engine
  have permitted : c.permission? m library ≠ none := by
    rw [ne_eq, ← notTrusted_applies_iff located, not_applies notTrusted (by decide)]
    exact Bool.false_ne_true
  obtain ⟨allowed, permitted⟩ := Option.ne_none_iff_exists'.mp permitted
  refine ⟨library, allowed, engine, located, permitted, ?_, kept⟩
  simpa [engine?, located] using loaded

theorem Reaches.resolves_eq {library : Library} {allowed : Bool} {engine : Engine}
    (reaches : r.Reaches t m c library allowed engine) :
    (PassEnd.ofPass r t m c).resolves =
      (r.resolution (m.inside c.options.workspaceFolder allowed) engine c).answer.toBool := by
  obtain ⟨-, allowed_eq, answer_eq⟩ := reaches.knows
  rw [place, allowed_eq] at answer_eq
  rw [reaches.ofPass]
  cases answer : (r.resolution (m.inside c.options.workspaceFolder allowed) engine c).answer with
  | error e =>
    rw [answer] at answer_eq
    have failed : notResolved.applies r t m c = true := by simp [applies, answer_eq, Except.toBool]
    cases readable : notReadable.applies r t m c with
    | true =>
      simp only [order, List.drop, List.find?, readable]
      rfl
    | false =>
      simp only [order, List.drop, List.find?, readable, failed]
      rfl
  | ok resolved =>
    rw [answer] at answer_eq
    have readable : notReadable.applies r t m c = false := by simp [applies, answer_eq]
    have answered : notResolved.applies r t m c = false := by
      simp [applies, answer_eq, Except.toBool]
    have later : ∀ ending ∈ order.drop 6, ending.resolves = true := by decide
    have first : (order.drop 4).find? (·.applies r t m c) =
        (order.drop 6).find? (·.applies r t m c) := by simp [order, readable, answered]
    rw [first]
    cases found : (order.drop 6).find? (·.applies r t m c) with
    | none => rfl
    | some ending => exact later ending (List.mem_of_find?_eq_some found)

theorem pass_cache_of_resolves (resolves : (PassEnd.ofPass r t m c).resolves = true) :
    ∃ file resolved, file.same c.file = true ∧ r.resolved? t m c = some resolved ∧
      (r.pass t m c).runner.resolver.cache = some (file, resolved) := by
  obtain ⟨library, allowed, engine, reaches⟩ :=
    reaches_of_asksForConfiguration (PassEnd.asksForConfiguration_of_resolves resolves)
  obtain ⟨-, allowed_eq, answer_eq⟩ := reaches.knows
  rw [place, allowed_eq] at answer_eq
  rw [reaches.resolves_eq] at resolves
  cases answer : (r.resolution (m.inside c.options.workspaceFolder allowed) engine c).answer with
  | error e =>
    rw [answer] at resolves
    contradiction
  | ok resolved =>
    obtain ⟨file, same, cache⟩ := ConfigResolver.resolve_cache _ _ _ answer
    rw [reaches.worked.runner]
    refine ⟨file, resolved, same, ?_, cache⟩
    simp [resolved?, answer_eq, answer, Except.toOption]

theorem pass_cache_of_not_resolves (unresolved : (PassEnd.ofPass r t m c).resolves = false) :
    (r.pass t m c).runner.resolver.cache = r.resolver.cache ∨
      (r.pass t m c).runner.resolver.cache = none := by
  rcases pass_cases r t m c with ⟨library, allowed, engine, worked⟩ | stopped
  · rw [worked.reaches.resolves_eq] at unresolved
    cases answer : (r.resolution (m.inside c.options.workspaceFolder allowed) engine c).answer with
    | ok resolved =>
      rw [answer] at unresolved
      contradiction
    | error e =>
      rw [worked.runner, resolution, ConfigResolver.resolve_cache_of_error _ _ _ answer]
      exact ConfigResolver.setStripUnstable_cache _ _
  · exact Or.inl (congrArg (·.cache) stopped.resolver)

/-- Only what a pass that lints gives says where its configuration was read. -/
theorem configPath_of_gives {ending : PassEnd} {result : Except LintError PassResult}
    (gives : ending.Gives r t m c result) :
    result.toOption.bind (·.configPath) =
      if ending = linted then (r.resolved? t m c).bind (·.path) else none := by
  cases ending with
  | linted =>
    obtain ⟨resolved, reply, output, resolved_eq, -, -, rfl⟩ := gives
    simp [resolved_eq, Except.toOption]
  | notTrusted =>
    obtain ⟨library, -, rfl⟩ := gives
    rfl
  | notReadable =>
    obtain ⟨reason, -, rfl⟩ := gives
    rfl
  | notResolved =>
    obtain ⟨e, -, rfl⟩ := gives
    rfl
  | crashed =>
    obtain ⟨reply, e, -, -, rfl⟩ := gives
    rfl
  | _ =>
    obtain rfl : result = _ := gives
    rfl

theorem pass_configPath (r : Runner) (t : Toolchain) (m : Machine) (c : PassCall) :
    (r.pass t m c).result.toOption.bind (·.configPath) =
      if PassEnd.ofPass r t m c = linted then (r.resolved? t m c).bind (·.path) else none :=
  configPath_of_gives (course_decided (pass_course r t m c)).gives

end Runner
end LintBridge
