import LintBridge.Proofs.Config.Resolver
import LintBridge.Proofs.Dictionary
import Mathlib.Data.List.Induction
/-!
What a resolver answers after any history of questions, flushes and changes of what is taken out.
What it remembers is the last answer of the history, as long as nothing has made it void
(`after_holds`), and that was prepared as the flag still says, so it is as good as an answer to the
question at hand (`answered_of_reply`).
-/
namespace LintBridge

def Dictionary.Without {α : Type} (names : List String) (d left : Dictionary α) : Prop :=
  ∀ name, left.get? name = if name ∈ names then none else d.get? name

def JsRules.Without (names : List String) : JsRules → JsRules → Prop
  | rules own, rules left => own.Without names left
  | whole, left => left = whole

structure Configuration.Without (names : List String) (c left : Configuration) : Prop where
  rules : c.rules.Without names left.rules
  jsRules : c.jsRules.Without names left.jsRules
  others : { left with rules := c.rules, jsRules := c.jsRules } = c

def Configuration.Lacks (names : List String) (c : Configuration) : Prop :=
  ∀ name ∈ names, c.rules.get? name = none ∧
    ∀ own, c.jsRules = .rules own → own.get? name = none

theorem Dictionary.Without.of_erase {α : Type} {first : String} {rest : List String}
    {d left : Dictionary α} (without : (d.erase first).Without rest left) :
    d.Without (first :: rest) left := by
  intro name
  rw [without name, get?_erase]
  by_cases last : name ∈ rest <;> by_cases here : name = first <;> simp [last, here]

theorem JsRules.Without.of_erase {first : String} {rest : List String} {js left : JsRules}
    (without : (js.erase first).Without rest left) : js.Without (first :: rest) left := by
  cases js with
  | inherited flag => exact without
  | rules own =>
    cases left with
    | inherited flag => contradiction
    | rules kept => exact Dictionary.Without.of_erase without

namespace Configuration

theorem removeRules_without (names : List String) (c : Configuration) :
    c.Without names (c.removeRules names) := by
  induction names generalizing c with
  | nil =>
    refine ⟨fun name => by simp [removeRules], ?_, rfl⟩
    cases js : c.jsRules with
    | inherited flag => exact js
    | rules own =>
      change JsRules.Without [] (.rules own) c.jsRules
      rw [js]
      exact fun name => by simp
  | cons first rest ih =>
    have without := ih (c.removeRule first)
    refine ⟨without.rules.of_erase, without.jsRules.of_erase, ?_⟩
    exact congrArg (fun d => { d with rules := c.rules, jsRules := c.jsRules }) without.others

theorem Without.lacks {names : List String} {c left : Configuration}
    (without : c.Without names left) : left.Lacks names := by
  intro name listed
  refine ⟨by rw [without.rules name, if_pos listed], fun own js => ?_⟩
  have kept := without.jsRules
  rw [js] at kept
  cases whole : c.jsRules with
  | inherited flag =>
    rw [whole] at kept
    contradiction
  | rules all =>
    rw [whole] at kept
    exact (kept name).trans (if_pos listed)

end Configuration

structure Question where
  discovery : Discovery
  machine : Machine
  file : Path
  given : Option Path

inductive Order where
  | resolve (q : Question)
  | strip (on : Bool)
  | flush

structure Question.Found (q : Question) (strip : Bool) (resolved : ResolvedConfiguration) :
    Prop where
  isDefault : resolved.isDefault = (q.discovery.findPath q.machine q.given q.file).isNone
  found : ∃ found, (q.discovery.find q.machine q.given q.file).1 = .ok found ∧
    resolved.path = found.path ∧
    Option.Rel (if strip then Configuration.Without unstableRules else (· = ·)) found.configuration
      resolved.configuration

theorem Question.Found.lacks {q : Question} {resolved : ResolvedConfiguration}
    (found : q.Found true resolved) {c : Configuration}
    (configured : resolved.configuration = some c) : c.Lacks unstableRules := by
  obtain ⟨discovered, -, -, prepared⟩ := found.found
  rw [if_pos rfl, configured] at prepared
  generalize discovered.configuration = whole at prepared
  cases prepared with
  | some without => exact without.lacks

namespace ConfigResolver

def reply (r : ConfigResolver) (q : Question) : Except LintError ResolvedConfiguration :=
  (r.resolve q.discovery q.machine q.file q.given).answer

def act (r : ConfigResolver) : Order → ConfigResolver
  | .resolve q => (r.resolve q.discovery q.machine q.file q.given).resolver
  | .strip on => r.setStripUnstable on
  | .flush => r.flush

def after (history : List Order) : ConfigResolver := history.foldl act .new

theorem after_append (history : List Order) (last : Order) :
    after (history ++ [last]) = act (after history) last := by
  simp [after]

def Idle (r : ConfigResolver) : Order → Prop
  | .resolve q => ∃ e, r.reply q = .error e
  | .strip on => r.stripUnstable = on
  | .flush => False

/-- The last answer of a history, with its question. Nothing has made it void. -/
inductive LastAnswer : List Order → Question → ResolvedConfiguration → Prop
  | given {history : List Order} {q : Question} {resolved : ResolvedConfiguration}
      (answer : (after history).reply q = .ok resolved) :
      LastAnswer (history ++ [.resolve q]) q resolved
  | kept {history : List Order} {q : Question} {resolved : ResolvedConfiguration} {order : Order}
      (last : LastAnswer history q resolved) (idle : (after history).Idle order) :
      LastAnswer (history ++ [order]) q resolved

theorem not_lastAnswer_nil {q : Question} {resolved : ResolvedConfiguration} :
    ¬ LastAnswer [] q resolved := by
  intro last
  generalize none_yet : ([] : List Order) = history at last
  cases last <;> simp at none_yet

theorem lastAnswer_append_iff {history : List Order} {order : Order} {q : Question}
    {resolved : ResolvedConfiguration} : LastAnswer (history ++ [order]) q resolved ↔
      (order = .resolve q ∧ (after history).reply q = .ok resolved) ∨
        (LastAnswer history q resolved ∧ (after history).Idle order) := by
  constructor
  · intro last
    generalize split : history ++ [order] = whole at last
    cases last with
    | given answer =>
      obtain ⟨rfl, rfl⟩ := List.append_singleton_inj.mp split
      exact Or.inl ⟨rfl, answer⟩
    | kept last idle =>
      obtain ⟨rfl, rfl⟩ := List.append_singleton_inj.mp split
      exact Or.inr ⟨last, idle⟩
  · rintro (⟨rfl, answer⟩ | ⟨last, idle⟩)
    · exact .given answer
    · exact .kept last idle

inductive Replies (r : ConfigResolver) (q : Question) :
    Except LintError ResolvedConfiguration → ConfigResolver → Prop
  | held {kept : Path} {resolved : ResolvedConfiguration} (cache : r.cache = some (kept, resolved))
      (same : kept.same q.file = true) : Replies r q (.ok resolved) r
  | found {resolved : ResolvedConfiguration}
      (other : ∀ kept held, r.cache = some (kept, held) → kept.same q.file = false)
      (found : q.Found r.stripUnstable resolved) :
      Replies r q (.ok resolved) { r with cache := some (q.file, resolved) }
  | failed {e : LintError} (fails : (q.discovery.find q.machine q.given q.file).1 = .error e) :
      Replies r q (.error e) r

theorem replies (r : ConfigResolver) (q : Question) :
    Replies r q (r.reply q) (r.act (.resolve q)) := by
  change Replies r q (r.resolve q.discovery q.machine q.file q.given).answer
    (r.resolve q.discovery q.machine q.file q.given).resolver
  cases cached : r.cached? q.file with
  | some resolved =>
    rw [resolve_of_cached _ _ _ cached]
    cases cache : r.cache with
    | none => simp [cached?_of_cache_eq_none cache] at cached
    | some entry =>
      rw [cached?_of_cache_eq_some cache, Option.ite_none_right_eq_some] at cached
      obtain ⟨same, eq⟩ := cached
      obtain rfl := Option.some.inj eq
      exact .held cache same
  | none =>
    have other : ∀ kept held, r.cache = some (kept, held) → kept.same q.file = false := by
      intro kept held cache
      simpa [cached?_of_cache_eq_some cache] using cached
    simp only [resolve, cached]
    cases finds : (q.discovery.find q.machine q.given q.file).1 with
    | error e => exact .failed finds
    | ok found =>
      refine .found other ⟨rfl, found, finds, rfl, ?_⟩
      cases found.configuration with
      | none => exact .none
      | some c =>
        refine .some ?_
        unfold prepare
        cases r.stripUnstable with
        | false => exact rfl
        | true => exact Configuration.removeRules_without _ c

/-- What a resolver holds after a history: the last answer, for its file. That was found by a
question of the history for the file, and prepared as the resolver still prepares answers. -/
structure Holds (history : List Order) (r : ConfigResolver) : Prop where
  last : ∀ q resolved, LastAnswer history q resolved →
    ∃ kept, kept.same q.file = true ∧ r.cache = some (kept, resolved)
  held : ∀ kept resolved, r.cache = some (kept, resolved) →
    (∃ q, LastAnswer history q resolved ∧ q.file.same kept = true) ∧
      ∃ origin, .resolve origin ∈ history ∧ origin.file.same kept = true ∧
        origin.Found r.stripUnstable resolved

variable {history : List Order} {order : Order} {r : ConfigResolver}

theorem holds_of_idle (holds : Holds history (after history)) (idle : (after history).Idle order)
    (unchanged : act (after history) order = after history) :
    Holds (history ++ [order]) (after (history ++ [order])) := by
  rw [after_append, unchanged]
  refine ⟨fun q resolved last => ?_, fun kept resolved cache => ?_⟩
  · rcases lastAnswer_append_iff.mp last with ⟨rfl, answer⟩ | ⟨last, -⟩
    · obtain ⟨e, fails⟩ := idle
      rw [answer] at fails
      contradiction
    · exact holds.last q resolved last
  · obtain ⟨⟨q, last, same⟩, origin, listed, found⟩ := holds.held kept resolved cache
    exact ⟨⟨q, last.kept idle, same⟩, origin, List.mem_append_left _ listed, found⟩

theorem holds_of_void (busy : ¬ (after history).Idle order) (no_question : ∀ q, order ≠ .resolve q)
    (empty : (act (after history) order).cache = none) :
    Holds (history ++ [order]) (after (history ++ [order])) := by
  rw [after_append]
  refine ⟨fun q resolved last => ?_, fun kept resolved cache => ?_⟩
  · rcases lastAnswer_append_iff.mp last with ⟨question, -⟩ | ⟨-, idle⟩
    · exact absurd question (no_question q)
    · exact absurd idle busy
  · rw [empty] at cache
    contradiction

theorem holds_of_answer {q : Question} {resolved : ResolvedConfiguration} {kept : Path}
    (answer : (after history).reply q = .ok resolved)
    (cache : (act (after history) (.resolve q)).cache = some (kept, resolved))
    (same : kept.same q.file = true)
    (origin : ∃ origin, .resolve origin ∈ history ++ [.resolve q] ∧ origin.file.same kept = true ∧
      origin.Found (act (after history) (.resolve q)).stripUnstable resolved) :
    Holds (history ++ [.resolve q]) (after (history ++ [.resolve q])) := by
  rw [after_append]
  refine ⟨fun q' resolved' last => ?_, fun kept' resolved' cache' => ?_⟩
  · rcases lastAnswer_append_iff.mp last with ⟨question, answer'⟩ | ⟨-, e, fails⟩
    · obtain rfl := Order.resolve.inj question
      obtain rfl := Except.ok.inj (answer.symm.trans answer')
      exact ⟨kept, same, cache⟩
    · rw [answer] at fails
      contradiction
  · obtain ⟨rfl, rfl⟩ := Prod.mk.inj (Option.some.inj (cache.symm.trans cache'))
    exact ⟨⟨q, .given answer, Path.same_symm same⟩, origin⟩

theorem after_holds (history : List Order) : Holds history (after history) := by
  induction history using List.reverseRecOn with
  | nil => exact ⟨fun q resolved last => absurd last not_lastAnswer_nil, by simp [after, new]⟩
  | append_singleton history order ih =>
    cases order with
    | resolve q =>
      have replies := replies (after history) q
      generalize answer : (after history).reply q = answer' at replies
      generalize left : (after history).act (.resolve q) = r at replies
      cases replies with
      | held cache same =>
        -- This question is now the last one, but it is an earlier one that has found the answer.
        obtain ⟨-, origin, listed, origin_same, found⟩ := ih.held _ _ cache
        exact holds_of_answer answer (by rw [left, cache]) same
          ⟨origin, List.mem_append_left _ listed, origin_same, by rwa [left]⟩
      | found other found =>
        exact holds_of_answer answer (by rw [left]) (Path.same_refl _)
          ⟨q, by simp, Path.same_refl _, by rwa [left]⟩
      | failed fails => exact holds_of_idle ih ⟨_, answer⟩ left
    | strip on =>
      by_cases same : (after history).stripUnstable = on
      · exact holds_of_idle ih same (if_pos same)
      · refine holds_of_void same (by simp) ?_
        simp [act, setStripUnstable, same]
    | flush => exact holds_of_void id (by simp) rfl

/-- What an answer can be after a history. It is what the question finds, and the last answer was
for another file; or it is the last answer, for the same file, which an earlier question for it has
found. Either way unstable rules are taken out of it as the resolver is told now. -/
inductive Answered (history : List Order) (q : Question) (resolved : ResolvedConfiguration) : Prop
  | found (found : q.Found (after history).stripUnstable resolved)
      (other : ∀ last held, LastAnswer history last held → last.file.same q.file = false)
  | held {last origin : Question} (is_last : LastAnswer history last resolved)
      (same : last.file.same q.file = true) (listed : .resolve origin ∈ history)
      (origin_same : origin.file.same q.file = true)
      (found : origin.Found (after history).stripUnstable resolved)

theorem answered_of_reply {q : Question} {resolved : ResolvedConfiguration}
    (answer : (after history).reply q = .ok resolved) : Answered history q resolved := by
  have holds := after_holds history
  have replies := replies (after history) q
  generalize (after history).act (.resolve q) = r at replies
  rw [answer] at replies
  cases replies with
  | held cache same =>
    obtain ⟨⟨last, is_last, last_same⟩, origin, listed, origin_same, found⟩ := holds.held _ _ cache
    exact .held is_last (Path.same_trans last_same same) listed
      (Path.same_trans origin_same same) found
  | found other found =>
    refine .found found fun last held is_last => ?_
    obtain ⟨kept, kept_same, cache⟩ := holds.last last held is_last
    rw [Bool.eq_false_iff]
    intro last_same
    have differs := other kept held cache
    rw [Path.same_trans kept_same last_same] at differs
    contradiction

theorem answer_lacks {q : Question} {resolved : ResolvedConfiguration}
    (answer : (after history).reply q = .ok resolved) (strip : (after history).stripUnstable = true)
    {c : Configuration} (configured : resolved.configuration = some c) : c.Lacks unstableRules := by
  cases answered_of_reply answer with
  | found found other => exact (strip ▸ found).lacks configured
  | held is_last same listed origin_same found => exact (strip ▸ found).lacks configured

end ConfigResolver
end LintBridge
