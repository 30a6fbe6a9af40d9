import LintBridge.Proofs.Config.Tidy
import LintBridge.Proofs.Edit.Encoding
/-!
Configurations as JSON values and back. In the JSON form of a tidy configuration, what is found under a
name is the field of that name, or else what is kept for the engine (`Tidy.lookup_wireMembers`). So it
is read as it was, or not at all if one of its values looks like an embedded text
(`Tidy.ofJson?_toJson`).
-/
namespace LintBridge

/-! ### Fields -/

section Members

variable {members : List (String × Json)} (ascending : members.Pairwise fun a b => a.1 < b.1)
include ascending

theorem field?_of_ascending (name : String) : field? [name] members = some (members.lookup name) := by
  rw [field?_eq_some_iff]
  cases found : members.lookup name with
  | none =>
    refine .leftOut fun m listed => ?_
    have different : name ≠ m.1 := by simpa using List.lookup_eq_none_iff.mp found m listed
    simpa using different.symm
  | some value =>
    obtain ⟨before, after, rfl, others⟩ := List.lookup_eq_some_iff.mp found
    refine .given (List.mem_singleton_self name) fun m listed => ?_
    rw [List.mem_singleton]
    rcases List.mem_append.mp listed with m_before | m_after
    · have different : name ≠ m.1 := by simpa using others m m_before
      exact different.symm
    · have later := (List.pairwise_cons.mp (List.pairwise_append.mp ascending).2.1).1 m m_after
      exact (String.ne_of_lt later).symm

theorem filter_eq_entries (d : Dictionary Json) (keep : String → Bool)
    (same : ∀ key, (if keep key then members.lookup key else none) = d.get? key) :
    members.filter (keep ·.1) = d.entries := by
  refine eq_of_lookup (ascending.filter _) d.ascending fun key => ?_
  rw [lookup_filter]
  exact same key

end Members

theorem Dictionary.get?_eq_none {α : Type} {d : Dictionary α} {name : String}
    (others : ∀ e ∈ d.entries, e.1 ≠ name) : d.get? name = none := by
  cases found : d.get? name with
  | none => rfl
  | some value => exact absurd rfl (others (name, value) ((d.mem_entries_iff (name, value)).mpr found))

namespace OneOrMany

theorem canonical_toJson (texts : OneOrMany) : texts.toJson.canonical = texts.toJson := by
  cases texts with
  | one text => rfl
  | many texts => exact Json.canonical_ofStrings texts

theorem ofField?_toJson (field : Option OneOrMany) :
    ofField? (field.map toJson) = some field := by
  cases field with
  | none => rfl
  | some texts =>
    cases texts with
    | one text => rfl
    | many texts =>
      have read := Json.strings?_ofStrings texts
      simp only [Option.map_some, toJson, ofField?, Json.ofStrings, ofJson?] at read ⊢
      rw [read]
      rfl

end OneOrMany

theorem JsRules.ofField?_toJson {js : JsRules} (settled : ∀ e ∈ js.own.entries, e.2.Settled) :
    ofField? (some js.toJson.canonical) =
      if js.own.entries.all (·.2.plain) then some js else none := by
  cases js with
  | inherited flag => rfl
  | rules own =>
    have same := Json.canonicalMembers_entries own fun e member => (settled e member).canonical_eq
    have read : Json.dictionary? own.entries = _ := Json.dictionary?_entries settled
    rw [toJson, Json.ofDictionary, Json.canonical, same, ofField?, read, JsRules.own]
    split <;> rfl

theorem LinterOptions.ofMembers?_toJson {o : LinterOptions}
    (settled : ∀ e ∈ o.other.entries, e.2.Settled ∧ e.1 ≠ excludeName) :
    ofMembers? (Json.canonicalMembers ((excludeName, .ofStrings o.exclude) :: o.other.entries)) =
      if o.other.entries.all (·.2.plain) then some o else none := by
  have same := Json.canonicalMembers_entries o.other fun e member =>
    (settled e member).1.canonical_eq
  have free := Dictionary.get?_eq_none fun e member => (settled e member).2
  have found (key : String) :
      (Json.canonicalMembers ((excludeName, .ofStrings o.exclude) :: o.other.entries)).lookup key =
        (o.other.get? key).or (if key = excludeName then some (.ofStrings o.exclude) else none) := by
    rw [Json.lookup_canonicalMembers_cons, same, Json.canonical_ofStrings]
    rfl
  have ascending := Json.canonicalMembers_ascending
    ((excludeName, .ofStrings o.exclude) :: o.other.entries)
  have exclude_read := field?_of_ascending ascending excludeName
  rw [found, free, Option.none_or, if_pos rfl] at exclude_read
  have other_kept := filter_eq_entries ascending o.other (· != excludeName) fun key => by
    rw [found]
    by_cases here : key = excludeName <;> simp [here, free]
  have texts_read := Json.strings?_ofStrings o.exclude
  have other_read := Json.dictionary?_entries fun e member => (settled e member).1
  simp only [ofMembers?, exclude_read, other_kept, texts_read, other_read, Option.bind_eq_bind,
    Option.bind_some]
  split <;> rfl

namespace Configuration

def wireMembers (c : Configuration) : List (String × Json) :=
  optionalMember "extends" (c.bases.map OneOrMany.toJson)
    ++ [("rules", .ofDictionary c.rules), ("jsRules", c.jsRules.toJson)]
    ++ optionalMember "linterOptions" (c.linterOptions.map LinterOptions.toJson)
    ++ optionalMember "rulesDirectory" (c.rulesDirectory.map OneOrMany.toJson)
    ++ c.extra.entries

theorem lookup_canonicalMembers_optionalMember (name key : String) (value : Option Json) :
    (Json.canonicalMembers (optionalMember name value)).lookup key =
      if key = name then value.map Json.canonical else none := by
  cases value with
  | none => simp [optionalMember, Json.canonicalMembers]
  | some content =>
    rw [optionalMember, Json.lookup_canonicalMembers_cons, Json.canonicalMembers]
    rfl

def held (c : Configuration) : List (String × Json) :=
  c.rules.entries ++ c.jsRules.own.entries ++ c.otherOptions.entries ++ c.extra.entries

section Written

variable {c : Configuration} (tidy : c.Tidy)
include tidy

theorem Tidy.get?_extra {name : String} (interpreted : name ∈ fieldNames) :
    c.extra.get? name = none :=
  Dictionary.get?_eq_none fun e member same => (tidy.extra e member).2 (same ▸ interpreted)

theorem Tidy.lookup_wireMembers (key : String) :
    (Json.canonicalMembers c.wireMembers).lookup key = (c.extra.get? key).or (
      if key = "rulesDirectory" then c.rulesDirectory.map OneOrMany.toJson
      else if key = "linterOptions" then c.linterOptions.map (Json.canonical ∘ LinterOptions.toJson)
      else if key = "jsRules" then some c.jsRules.toJson.canonical
      else if key = "rules" then some (.ofDictionary c.rules)
      else if key = "extends" then c.bases.map OneOrMany.toJson
      else none) := by
  have extra_same := Json.canonicalMembers_entries c.extra fun e member =>
    (tidy.extra e member).1.canonical_eq
  have rules_same := Json.canonicalMembers_entries c.rules fun e member =>
    (tidy.rules e member).canonical_eq
  have texts_same : Json.canonical ∘ OneOrMany.toJson = OneOrMany.toJson :=
    funext OneOrMany.canonical_toJson
  rw [wireMembers]
  simp only [Json.lookup_canonicalMembers_append, lookup_canonicalMembers_optionalMember,
    Json.lookup_canonicalMembers_cons, extra_same, Option.map_map, texts_same, Json.ofDictionary,
    Json.canonical, rules_same]
  have nothing : (Json.canonicalMembers []).lookup key = none := rfl
  rw [nothing, Option.none_or]
  refine congrArg (Option.or _) ?_
  -- The names differ, so at most one of the alternatives is there.
  grind

theorem Tidy.ofField?_linterOptions :
    LinterOptions.ofField? (c.linterOptions.map (Json.canonical ∘ LinterOptions.toJson)) =
      if c.otherOptions.entries.all (·.2.plain) then some c.linterOptions else none := by
  have settled := tidy.other
  unfold otherOptions at *
  cases options : c.linterOptions with
  | none => rfl
  | some o =>
    rw [options] at settled
    have read := LinterOptions.ofMembers?_toJson settled
    rw [Option.map_some, Function.comp_apply, LinterOptions.toJson, Json.canonical,
      LinterOptions.ofField?, read]
    split <;> rfl

/-- A tidy configuration is read from its JSON form as it was, unless a value in it looks like an
embedded text; then it is not read at all. -/
theorem Tidy.ofJson?_toJson :
    ofJson? c.toJson.canonical = if c.held.all (·.2.plain) then some c else none := by
  have ascending := Json.canonicalMembers_ascending c.wireMembers
  have field (name : String) (interpreted : name ∈ fieldNames) :
      field? [name] (Json.canonicalMembers c.wireMembers) = some (
        if name = "rulesDirectory" then c.rulesDirectory.map OneOrMany.toJson
        else if name = "linterOptions" then c.linterOptions.map (Json.canonical ∘ LinterOptions.toJson)
        else if name = "jsRules" then some c.jsRules.toJson.canonical
        else if name = "rules" then some (.ofDictionary c.rules)
        else if name = "extends" then c.bases.map OneOrMany.toJson
        else none) := by
    rw [field?_of_ascending ascending, tidy.lookup_wireMembers, tidy.get?_extra interpreted,
      Option.none_or]
  have extra_kept := filter_eq_entries ascending c.extra (!fieldNames.contains ·) fun key => by
    by_cases interpreted : key ∈ fieldNames
    · simp [interpreted, tidy.get?_extra interpreted]
    · rw [tidy.lookup_wireMembers]
      simp only [fieldNames, List.mem_cons, List.not_mem_nil, or_false, not_or] at interpreted
      simp [fieldNames, interpreted]
  have rules_read : rulesOfField? (some (.ofDictionary c.rules)) = _ :=
    Json.dictionary?_entries tidy.rules
  have js_read := JsRules.ofField?_toJson tidy.jsRules
  have options_read := tidy.ofField?_linterOptions
  have extra_read := Json.dictionary?_entries fun e member => (tidy.extra e member).1
  have members_read : ofJson? c.toJson.canonical = ofMembers? (Json.canonicalMembers c.wireMembers) :=
    rfl
  rw [members_read, ofMembers?]
  simp only [field "extends" (by decide), field "rules" (by decide), field "jsRules" (by decide),
    field "linterOptions" (by decide), field "rulesDirectory" (by decide), String.reduceEq,
    reduceIte, extra_kept, OneOrMany.ofField?_toJson, rules_read, js_read, options_read, extra_read,
    Option.bind_eq_bind, Option.bind_some, held, List.all_append]
  -- The parts are read one after the other; the first that is not read ends it.
  cases c.rules.entries.all (·.2.plain)
  · rfl
  cases c.jsRules.own.entries.all (·.2.plain)
  · rfl
  cases c.otherOptions.entries.all (·.2.plain)
  · rfl
  cases c.extra.entries.all (·.2.plain) <;> rfl

end Written

/-- A configuration that is come by has kept what it does not interpret apart from what it does, and
its JSON form is read as that configuration. The exception are configurations with a value of which an
object begins, in ascending order of its members, with the name of embedded texts: their JSON form is
not read at all. -/
theorem wire_survives {c : Configuration} (reachable : c.Reachable) :
    (∀ name ∈ fieldNames, c.extra.get? name = none) ∧
    c.otherOptions.get? LinterOptions.excludeName = none ∧
    ofJson? c.toJson.canonical = if c.held.all (·.2.plain) then some c else none :=
  have tidy := reachable.tidy
  ⟨fun _ => tidy.get?_extra, Dictionary.get?_eq_none fun e member => (tidy.other e member).2,
    tidy.ofJson?_toJson⟩

theorem ok_of_any {ε α : Type} {result : Except ε α} {p : α → Bool}
    (any : result.toOption.any p = true) : ∃ a, result = .ok a ∧ p a = true := by
  cases result with
  | error _ => cases any
  | ok a => exact ⟨a, rfl, any⟩

theorem wire_survives_layered : ∃ c : Configuration,
    ofText .yaml "rules:\n  a: [true, 1]\nlinterOptions:\n  format: x\nextra: ~\n" = .ok c ∧
    (c.extending recommended).extra.get? "rules" = none ∧
    ofJson? (c.extending recommended).toJson.canonical = some (c.extending recommended) := by
  have plain : (ofText .yaml
      "rules:\n  a: [true, 1]\nlinterOptions:\n  format: x\nextra: ~\n").toOption.any
      fun c => (c.extending recommended).held.all (·.2.plain) := by
    decide +kernel
  obtain ⟨c, reads, c_plain⟩ := ok_of_any plain
  obtain ⟨free, -, read_back⟩ := wire_survives (.extending (.read reads) .recommended)
  exact ⟨c, reads, free "rules" (by decide), by rw [read_back, c_plain, if_pos rfl]⟩

/-- A value whose object begins with another name in its text, but with the name of embedded texts in
ascending order: it is read, but what is written of it is not. -/
theorem wire_not_survives : ∃ c : Configuration, c.Reachable ∧
    ofText .yaml "foo:\n  b: 1\n  $serde_json::private::RawValue: \"[1]\"\n" = .ok c ∧
    ofJson? c.toJson.canonical ≠ some c := by
  have lost : (ofText .yaml
      "foo:\n  b: 1\n  $serde_json::private::RawValue: \"[1]\"\n").toOption.any
      fun c => (ofJson? c.toJson.canonical).isNone := by
    decide +kernel
  obtain ⟨c, reads, not_read⟩ := ok_of_any lost
  exact ⟨c, .read reads, reads, by simp [Option.isNone_iff_eq_none.mp not_read]⟩

end Configuration
end LintBridge
