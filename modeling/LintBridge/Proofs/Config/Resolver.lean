import LintBridge.Config.Resolver
import LintBridge.Proofs.Path.Parent
/-!
What a resolver remembers. It asks a discovery only for another file than the last one it has an answer
for, and what it then answers depends on nothing that is remembered.
-/
namespace LintBridge.ConfigResolver

def answer (strip : Bool) (d : Discovery) (m : Machine) (file : Path) (given : Option Path) :
    Except LintError ResolvedConfiguration :=
  (resolve ⟨none, strip⟩ d m file given).answer

variable {r : ConfigResolver} {file : Path} (d : Discovery) (m : Machine) (given : Option Path)

theorem setStripUnstable_stripUnstable (r : ConfigResolver) (strip : Bool) :
    (r.setStripUnstable strip).stripUnstable = strip := by
  unfold setStripUnstable
  split
  · assumption
  · rfl

theorem cached?_of_cache_eq_none (empty : r.cache = none) : r.cached? file = none := by
  simp [cached?, empty]

theorem cached?_of_cache_eq_some {other : Path} {resolved : ResolvedConfiguration}
    (held : r.cache = some (other, resolved)) (file : Path) :
    r.cached? file = if other.same file then some resolved else none := by
  simp [cached?, held]

theorem resolve_of_cached {resolved : ResolvedConfiguration} (cached : r.cached? file = some resolved) :
    r.resolve d m file given = ⟨.ok resolved, r, [], []⟩ := by
  simp only [resolve, cached]

theorem resolve_of_not_cached (missing : r.cached? file = none) :
    (r.resolve d m file given).answer = answer r.stripUnstable d m file given ∧
      (r.resolve d m file given).resolver =
        match answer r.stripUnstable d m file given with
        | .ok resolved => { r with cache := some (file, resolved) }
        | .error _ => r := by
  have afresh : cached? ⟨none, r.stripUnstable⟩ file = none := rfl
  have prepare : prepare ⟨none, r.stripUnstable⟩ = r.prepare := rfl
  simp only [answer, resolve, missing, afresh, prepare]
  cases (d.find m given file).1 with
  | error e => exact ⟨rfl, rfl⟩
  | ok found => exact ⟨rfl, rfl⟩

theorem setStripUnstable_cache (r : ConfigResolver) (strip : Bool) :
    (r.setStripUnstable strip).cache = r.cache ∨ (r.setStripUnstable strip).cache = none := by
  unfold setStripUnstable
  split
  · exact Or.inl rfl
  · exact Or.inr rfl

theorem resolve_cache {resolved : ResolvedConfiguration}
    (answer : (r.resolve d m file given).answer = .ok resolved) :
    ∃ kept, kept.same file = true ∧
      (r.resolve d m file given).resolver.cache = some (kept, resolved) := by
  cases cached : r.cached? file with
  | none =>
    obtain ⟨answer_eq, resolver_eq⟩ := resolve_of_not_cached d m given cached
    rw [resolver_eq, ← answer_eq, answer]
    exact ⟨file, file.same_refl, rfl⟩
  | some held =>
    rw [resolve_of_cached d m given cached] at answer ⊢
    obtain rfl : held = resolved := Except.ok.inj answer
    cases cache : r.cache with
    | none => simp [cached?_of_cache_eq_none cache] at cached
    | some entry =>
      simp only [cached?_of_cache_eq_some cache, Option.ite_none_right_eq_some] at cached
      obtain ⟨same, resolved_eq⟩ := cached
      exact ⟨entry.1, same, by rw [← Option.some.inj resolved_eq]⟩

theorem resolve_cache_of_error {e : LintError}
    (answer : (r.resolve d m file given).answer = .error e) :
    (r.resolve d m file given).resolver = r := by
  cases cached : r.cached? file with
  | none =>
    obtain ⟨answer_eq, resolver_eq⟩ := resolve_of_not_cached d m given cached
    rw [resolver_eq, ← answer_eq, answer]
  | some held => rw [resolve_of_cached d m given cached]

end LintBridge.ConfigResolver
