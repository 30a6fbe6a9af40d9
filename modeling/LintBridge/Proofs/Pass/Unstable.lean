import LintBridge.Proofs.Config.Answers
import LintBridge.Proofs.Pass.Decision
/-!
Rules that harm a host that runs for long do not reach the engine. A runner tells its resolver
whether to take them out before it asks for a configuration, so whatever passes have run before, its
resolver is one after a history of orders (`after_resolver`), and what a pass hands over is an
answer of that resolver (`answer_of_request?`).
-/
namespace LintBridge

def PassCall.question (m : Machine) (engine : Engine) (c : PassCall) : Question :=
  ⟨engine.discovery, m, c.file, c.options.configFile⟩

namespace Runner
open ConfigResolver PassReport

variable {r : Runner} {t : Toolchain} {m : Machine} {c : PassCall}

theorem after_resolver (t : Toolchain) (history : List Act) :
    ∃ orders, (after t history).resolver = ConfigResolver.after orders := by
  induction history using List.reverseRecOn with
  | nil => exact ⟨[], rfl⟩
  | append_singleton history act ih =>
    obtain ⟨orders, before⟩ := ih
    rw [after_append]
    cases act with
    | configChange =>
      refine ⟨orders ++ [.flush], ?_⟩
      rw [ConfigResolver.after_append, ← before]
      rfl
    | pass m c =>
      rcases pass_cases (after t history) t m c with ⟨library, allowed, engine, worked⟩ | stopped
      · let q := c.question (m.inside c.options.workspaceFolder allowed) engine
        refine ⟨orders ++ [.strip c.options.stripUnstable] ++ [.resolve q], ?_⟩
        rw [ConfigResolver.after_append, ConfigResolver.after_append, ← before]
        exact congrArg (·.resolver) worked.runner
      · exact ⟨orders, stopped.resolver.trans before⟩

theorem mem_requests {asked : LintRequest × Option Location}
    (member : asked ∈ (r.pass t m c).requests) : r.request? t m c = some asked.1 := by
  have decided := course_decided (pass_course r t m c)
  cases asks : (PassEnd.ofPass r t m c).asksToLint with
  | true =>
    obtain ⟨request, known, once⟩ := decided.lints asks
    rw [once] at member
    obtain rfl := List.mem_singleton.mp member
    exact known
  | false =>
    rw [decided.silent asks] at member
    contradiction

theorem answer_of_request? {request : LintRequest} (asked : r.request? t m c = some request) :
    ∃ engine resolved configuration,
      (r.resolver.act (.strip c.options.stripUnstable)).reply (c.question (r.place t m c) engine) =
        .ok resolved ∧
      resolved.configuration = some configuration ∧
      (request.configuration = configuration ∨
        request.configuration = configuration.withoutRulesDirectory) := by
  obtain ⟨resolved, known, asked⟩ := Option.bind_eq_some_iff.mp asked
  obtain ⟨configuration, configured, asked⟩ := Option.bind_eq_some_iff.mp asked
  obtain ⟨contents, -, rfl⟩ := Option.map_eq_some_iff.mp asked
  obtain ⟨answer, answered, is_ok⟩ := Option.bind_eq_some_iff.mp known
  obtain ⟨engine, -, rfl⟩ := Option.map_eq_some_iff.mp answered
  have ok : (r.resolution (r.place t m c) engine c).answer = .ok resolved := by
    cases answer : (r.resolution (r.place t m c) engine c).answer with
    | error e => simp [answer, Except.toOption] at is_ok
    | ok given => simpa [answer, Except.toOption] using is_ok
  refine ⟨engine, resolved, configuration, ok, configured, ?_⟩
  cases allowed : r.allowed t m c with
  | true => exact Or.inl rfl
  | false => exact Or.inr rfl

theorem pass_lacks (t : Toolchain) (history : List Act) (m : Machine) {c : PassCall}
    (strip : c.options.stripUnstable = true) :
    ∀ asked ∈ ((after t history).pass t m c).requests,
      asked.1.configuration.Lacks unstableRules := by
  intro asked member
  obtain ⟨engine, resolved, configuration, answer, configured, handed⟩ :=
    answer_of_request? (mem_requests member)
  obtain ⟨orders, before⟩ := after_resolver t history
  rw [before, strip, ← ConfigResolver.after_append] at answer
  have stripped : (ConfigResolver.after (orders ++ [.strip true])).stripUnstable = true := by
    rw [ConfigResolver.after_append]
    exact setStripUnstable_stripUnstable _ _
  have lacks := answer_lacks answer stripped configured
  rcases handed with whole | without
  · rwa [whole]
  · rw [without]
    exact lacks

/-- An answer is what its question finds or what the last answer was, without unstable rules exactly
while they are taken out; a question without answer changes nothing; and so no pass that takes
unstable rules out hands one to an engine. -/
theorem unstable_rules_held_back :
    (∀ orders q resolved, (ConfigResolver.after orders).reply q = .ok resolved →
      Answered orders q resolved) ∧
    (∀ orders q e, (ConfigResolver.after orders).reply q = .error e →
      (ConfigResolver.after orders).act (.resolve q) = ConfigResolver.after orders) ∧
    ∀ t history m c, c.options.stripUnstable = true →
      ∀ asked ∈ ((after t history).pass t m c).requests,
        asked.1.configuration.Lacks unstableRules :=
  ⟨fun _ _ _ => answered_of_reply, fun _ _ _ => resolve_cache_of_error _ _ _,
    fun t history m _ => pass_lacks t history m⟩

end Runner

def Toolchain.unsteady : Toolchain where
  resolveModule _ _ _ := (some ⟨"/lib/tslint"⟩, [])
  globalRoot _ _ := (none, [])
  load _ _ := .ok ()
  engine _ :=
    let rules : Dictionary Json :=
      ⟨[("no-unused-variable", .bool true), ("semicolon", .bool true)], by decide⟩
    { discovery :=
        { findPath := fun _ given _ => given
          find := fun _ given _ =>
            (.ok ⟨some { Configuration.blank with rules := rules }, given⟩, []) }
      lint := fun _ _ => ⟨[], .ok .empty, []⟩ }

namespace Runner

theorem unstable_rules_held_back_toggled :
    let strict := PassCall.simple .allow none none
    let loose : PassCall :=
      { strict with options := { strict.options with stripUnstable := false } }
    let first := new.pass .unsteady .simple loose
    let second := (after .unsteady [.pass .simple loose]).pass .unsteady .simple strict
    first.requests.map (·.1.configuration.rules.keys) = [["no-unused-variable", "semicolon"]] ∧
      second.requests.map (·.1.configuration.rules.keys) = [["semicolon"]] ∧
      ∀ asked ∈ second.requests, asked.1.configuration.Lacks unstableRules := by
  intro strict loose first second
  exact ⟨by decide, by decide,
    unstable_rules_held_back.2.2 .unsteady [.pass .simple loose] .simple strict rfl⟩

end Runner
end LintBridge
