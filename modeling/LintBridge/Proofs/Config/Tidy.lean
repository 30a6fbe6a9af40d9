import LintBridge.Config.Layering
import LintBridge.Config.Text
import LintBridge.Proofs.Json.Embedded
/-!
What configurations hold. Whatever is read from a text, changed and layered is tidy
(`Configuration.Reachable.tidy`): what is not interpreted has none of the interpreted names, and all
values are canonical forms of values that have been read.
-/
namespace LintBridge

/-! ### Values that configurations hold -/

namespace Json

/-- A value as configurations hold them: the canonical form of one that has been read. -/
def Settled (value : Json) : Prop := ∃ read : Json, read.plain = true ∧ read.canonical = value

theorem Settled.canonical_eq {value : Json} (settled : value.Settled) : value.canonical = value := by
  obtain ⟨read, -, rfl⟩ := settled
  exact canonical_canonical read

theorem Settled.mixed {value : Json} (settled : value.Settled) : value.mixed = true := by
  obtain ⟨read, plain_read, rfl⟩ := settled
  exact mixed_canonical read plain_read

theorem settled_of_dictionary? {members : List (String × Json)} {d : Dictionary Json}
    (reads : dictionary? members = some d) :
    ∀ e ∈ d.entries, e.2.Settled ∧ e.1 ∈ members.map (·.1) := by
  intro e member
  -- A dictionary of entries holds some of them, and expanding members keeps their names.
  obtain ⟨expanded, expands, rfl⟩ := Option.map_eq_some_iff.mp reads
  obtain ⟨m, listed, rfl⟩ := List.mem_map.mp (Dictionary.mem_of_mem_ofList member)
  have plain_members := plain_of_expandMembersBy (fun _ _ => plain_of_readEmbedded) members expanded
    expands
  refine ⟨⟨m.2, everyObjectOfMembers_iff.mp plain_members m listed, rfl⟩, ?_⟩
  rw [← names_expandMembersBy expands]
  exact List.mem_map.mpr ⟨m, listed, rfl⟩

theorem dictionary?_entries {d : Dictionary Json} (settled : ∀ e ∈ d.entries, e.2.Settled) :
    dictionary? d.entries = if d.entries.all (·.2.plain) then some d else none := by
  have all_plain : everyObjectOfMembers unembedded d.entries = d.entries.all (·.2.plain) := by
    rw [Bool.eq_iff_iff, everyObjectOfMembers_iff, List.all_eq_true]
    rfl
  have all_mixed := everyObjectOfMembers_iff.mpr fun e member => (settled e member).mixed
  have same_entries : d.entries.map (fun m => (m.1, m.2.canonical)) = d.entries := by
    refine (List.map_congr_left fun e member => ?_).trans (List.map_id _)
    rw [(settled e member).canonical_eq]
    rfl
  rw [dictionary?, expandMembers, expandMembersBy_mixed _ d.entries all_mixed, all_plain]
  cases d.entries.all (·.2.plain) with
  | false => rfl
  | true =>
    have same_dictionary := (congrArg Dictionary.ofList same_entries).trans d.ofList_entries
    exact congrArg some same_dictionary

end Json

/-! ### Tidy configurations -/

def JsRules.own : JsRules → Dictionary Json
  | inherited _ => .empty
  | rules own => own

namespace Configuration

def otherOptions (c : Configuration) : Dictionary Json :=
  match c.linterOptions with
  | some options => options.other
  | none => .empty

/-- All values are canonical forms of values that have been read, and those that are not interpreted
have none of the interpreted names. -/
structure Tidy (c : Configuration) : Prop where
  rules : ∀ e ∈ c.rules.entries, e.2.Settled
  jsRules : ∀ e ∈ c.jsRules.own.entries, e.2.Settled
  other : ∀ e ∈ c.otherOptions.entries, e.2.Settled ∧ e.1 ≠ LinterOptions.excludeName
  extra : ∀ e ∈ c.extra.entries, e.2.Settled ∧ e.1 ∉ fieldNames

section Operations

variable {c own base : Configuration}

theorem Tidy.blank : blank.Tidy where
  rules := List.forall_mem_nil _
  jsRules := List.forall_mem_nil _
  other := List.forall_mem_nil _
  extra := List.forall_mem_nil _

theorem Tidy.recommended : recommended.Tidy := ⟨Tidy.blank.rules, Tidy.blank.jsRules, Tidy.blank.other,
  Tidy.blank.extra⟩

theorem Tidy.removeRule (tidy : c.Tidy) (rule : String) : (c.removeRule rule).Tidy where
  rules e member := tidy.rules e (List.mem_filter.mp member).1
  jsRules := by
    have js_tidy := tidy.jsRules
    unfold Configuration.removeRule
    cases js : c.jsRules with
    | inherited flag => exact List.forall_mem_nil _
    | rules own =>
      rw [js] at js_tidy
      exact fun e member => js_tidy e (List.mem_filter.mp member).1
  other := tidy.other
  extra := tidy.extra

theorem Tidy.resolvePaths (tidy : c.Tidy) (dir : Path) : (c.resolvePaths dir).Tidy where
  rules := tidy.rules
  jsRules := tidy.jsRules
  other := by
    have same : (c.resolvePaths dir).otherOptions = c.otherOptions := by
      unfold Configuration.resolvePaths otherOptions
      cases c.linterOptions <;> rfl
    rw [same]
    exact tidy.other
  extra := tidy.extra

theorem forall_entries_layer {p : String × Json → Prop} {lower upper : Dictionary Json}
    (below : ∀ e ∈ lower.entries, p e) (above : ∀ e ∈ upper.entries, p e) :
    ∀ e ∈ (lower.layer upper).entries, p e := fun e member =>
  (Dictionary.mem_of_mem_layer member).elim (above e) (below e)

theorem Tidy.extending (own_tidy : own.Tidy) (base_tidy : base.Tidy) : (own.extending base).Tidy where
  rules := forall_entries_layer base_tidy.rules own_tidy.rules
  jsRules := by
    have upper := own_tidy.jsRules
    have lower := base_tidy.jsRules
    unfold Configuration.extending JsRules.layeredOver
    cases own_js : own.jsRules with
    | inherited flag => exact List.forall_mem_nil _
    | rules own =>
      rw [own_js] at upper
      dsimp only
      split
      · exact lower
      · cases base_js : base.jsRules with
        | inherited flag => exact upper
        | rules base =>
          rw [base_js] at lower
          exact forall_entries_layer lower upper
  other := by
    have upper := own_tidy.other
    have lower := base_tidy.other
    unfold Configuration.extending
    unfold otherOptions at *
    cases own_options : own.linterOptions with
    | none => exact lower
    | some own =>
      rw [own_options] at upper
      cases base_options : base.linterOptions with
      | none => exact upper
      | some base =>
        rw [base_options] at lower
        exact forall_entries_layer lower upper
  extra := forall_entries_layer base_tidy.extra own_tidy.extra

end Operations

/-! ### What has been read -/

theorem settled_of_rulesOfField? {field : Option Json} {d : Dictionary Json}
    (reads : rulesOfField? field = some d) : ∀ e ∈ d.entries, e.2.Settled := by
  unfold rulesOfField? at reads
  split at reads
  · obtain rfl := Option.some.inj reads
    exact List.forall_mem_nil _
  · exact fun e member => (Json.settled_of_dictionary? reads e member).1
  · cases reads

theorem settled_of_jsRulesOfField? {field : Option Json} {js : JsRules}
    (reads : JsRules.ofField? field = some js) : ∀ e ∈ js.own.entries, e.2.Settled := by
  unfold JsRules.ofField? at reads
  split at reads
  · obtain rfl := Option.some.inj reads
    exact List.forall_mem_nil _
  · obtain rfl := Option.some.inj reads
    exact List.forall_mem_nil _
  · obtain ⟨own, own_reads, rfl⟩ := Option.map_eq_some_iff.mp reads
    exact fun e member => (Json.settled_of_dictionary? own_reads e member).1
  · cases reads

theorem keep_of_mem_filter {α : Type} {entries : List (String × α)} {name : String}
    (keep : String → Bool) (named : name ∈ (entries.filter (keep ·.1)).map (·.1)) : keep name = true := by
  obtain ⟨e, listed, rfl⟩ := List.mem_map.mp named
  exact (List.mem_filter.mp listed).2

theorem settled_of_filter {members : List (String × Json)} {d : Dictionary Json}
    (keep : String → Bool) (reads : Json.dictionary? (members.filter (keep ·.1)) = some d) :
    ∀ e ∈ d.entries, e.2.Settled ∧ keep e.1 = true := fun e member =>
  (Json.settled_of_dictionary? reads e member).imp_right (keep_of_mem_filter keep)

theorem settled_of_linterOptions {members : List (String × Json)} {options : LinterOptions}
    (reads : LinterOptions.ofMembers? members = some options) :
    ∀ e ∈ options.other.entries, e.2.Settled ∧ e.1 ≠ LinterOptions.excludeName := by
  have other_read : Json.dictionary? (members.filter (·.1 != LinterOptions.excludeName)) =
      some options.other := by
    obtain ⟨field, -, reads⟩ := Option.bind_eq_some_iff.mp reads
    split at reads
    all_goals
      simp only [Option.bind_eq_bind, Option.bind_eq_some_iff, Option.pure_def, Option.some.injEq]
        at reads
      obtain ⟨_, -, other, other_read, rfl⟩ := reads
      exact other_read
  intro e member
  obtain ⟨settled, kept⟩ := settled_of_filter (· != LinterOptions.excludeName) other_read e member
  exact ⟨settled, by simpa using kept⟩

theorem settled_of_linterOptionsField {field : Option Json} {options : Option LinterOptions}
    (reads : LinterOptions.ofField? field = some options) :
    ∀ o, options = some o →
      ∀ e ∈ o.other.entries, e.2.Settled ∧ e.1 ≠ LinterOptions.excludeName := by
  rintro o rfl
  unfold LinterOptions.ofField? at reads
  split at reads
  · cases reads
  · cases reads
  · obtain ⟨o', options_read, same⟩ := Option.map_eq_some_iff.mp reads
    obtain rfl := Option.some.inj same
    exact settled_of_linterOptions options_read
  · cases reads

theorem Tidy.of_parts {bases rulesDirectory : Option OneOrMany} {rules extra : Dictionary Json}
    {js : JsRules} {options : Option LinterOptions} (rules_settled : ∀ e ∈ rules.entries, e.2.Settled)
    (js_settled : ∀ e ∈ js.own.entries, e.2.Settled)
    (options_settled : ∀ o, options = some o →
      ∀ e ∈ o.other.entries, e.2.Settled ∧ e.1 ≠ LinterOptions.excludeName)
    (extra_settled : ∀ e ∈ extra.entries, e.2.Settled ∧ (!fieldNames.contains e.1) = true) :
    Tidy ⟨bases, rules, js, options, rulesDirectory, extra⟩ where
  rules := rules_settled
  jsRules := js_settled
  other := by
    unfold otherOptions
    cases options with
    | none => exact List.forall_mem_nil _
    | some o => exact options_settled o rfl
  extra e member := by
    obtain ⟨settled, other_name⟩ := extra_settled e member
    exact ⟨settled, by simpa using other_name⟩

theorem Tidy.of_ofMembers? {c : Configuration} {members : List (String × Json)}
    (reads : ofMembers? members = some c) : c.Tidy := by
  simp only [ofMembers?, Option.bind_eq_bind, Option.bind_eq_some_iff, Option.pure_def,
    Option.some.injEq] at reads
  obtain ⟨_, -, bases, -, _, -, rules, rules_read, _, -, js, js_read, _, -, options, options_read,
    _, -, directories, -, extra, extra_read, rfl⟩ := reads
  exact .of_parts (settled_of_rulesOfField? rules_read) (settled_of_jsRulesOfField? js_read)
    (settled_of_linterOptionsField options_read)
    (settled_of_filter (!fieldNames.contains ·) extra_read)

theorem Tidy.of_ofJson? {c : Configuration} {value : Json} (reads : ofJson? value = some c) :
    c.Tidy := by
  obtain ⟨members, -, members_read⟩ := Option.bind_eq_some_iff.mp reads
  exact .of_ofMembers? members_read

section Trees

open Yaml

theorem settled_of_keptEntries? {reading : Tree.KeyReading} {entries : List (String × Tree)}
    {d : Dictionary Json} (reads : keptEntries? reading entries = some d) :
    ∀ e ∈ d.entries, e.2.Settled ∧ e.1 ∈ entries.map (·.1) := by
  have names_kept (members : List (String × Json))
      (members_read : (entries.mapM fun e => do return (e.1, ← e.2.value? reading)) = some members) :
      members.map (·.1) = entries.map (·.1) := by
    clear reads
    induction entries generalizing members with
    | nil =>
      obtain rfl := Option.some.inj members_read
      rfl
    | cons first rest ih =>
      simp only [List.mapM_cons, Option.bind_eq_bind, Option.bind_eq_some_iff, Option.pure_def,
        Option.some.injEq] at members_read
      obtain ⟨_, ⟨content, -, rfl⟩, others, others_read, rfl⟩ := members_read
      simp [ih others others_read]
  obtain ⟨members, members_read, dictionary_read⟩ := Option.bind_eq_some_iff.mp reads
  rw [← names_kept members members_read]
  exact Json.settled_of_dictionary? dictionary_read

theorem settled_of_rulesOfTree? {tree : Option Tree} {d : Dictionary Json}
    (reads : rulesOfTree? tree = some d) : ∀ e ∈ d.entries, e.2.Settled := by
  unfold rulesOfTree? at reads
  split at reads
  · obtain rfl := Option.some.inj reads
    exact List.forall_mem_nil _
  · obtain ⟨entries, -, kept⟩ := Option.bind_eq_some_iff.mp reads
    exact fun e member => (settled_of_keptEntries? kept e member).1

theorem settled_of_jsRulesOfTree? {tree : Option Tree} {js : JsRules}
    (reads : jsRulesOfTree? tree = some js) : ∀ e ∈ js.own.entries, e.2.Settled := by
  unfold jsRulesOfTree? at reads
  split at reads
  · exact settled_of_jsRulesOfField? reads
  · obtain ⟨value, -, field_read⟩ := Option.bind_eq_some_iff.mp reads
    exact settled_of_jsRulesOfField? field_read

theorem settled_of_linterOptionsTree {tree : Option Tree} {options : Option LinterOptions}
    (reads : LinterOptions.ofTree? tree = some options) :
    ∀ o, options = some o →
      ∀ e ∈ o.other.entries, e.2.Settled ∧ e.1 ≠ LinterOptions.excludeName := by
  rintro o rfl
  unfold LinterOptions.ofTree? at reads
  split at reads
  · cases reads
  · rename_i tree
    have other_read : ∃ entries : List (String × Tree), keptEntries? .byValue
        (entries.filter (·.1 != LinterOptions.excludeName)) = some o.other := by
      obtain ⟨absent, -, reads⟩ := Option.bind_eq_some_iff.mp reads
      split at reads
      · cases reads
      · obtain ⟨entries, -, reads⟩ := Option.bind_eq_some_iff.mp reads
        obtain ⟨patterns, -, reads⟩ := Option.bind_eq_some_iff.mp reads
        refine ⟨entries, ?_⟩
        cases patterns
        all_goals
          obtain ⟨exclude, -, reads⟩ := Option.bind_eq_some_iff.mp reads
          obtain ⟨other, kept, same⟩ := Option.bind_eq_some_iff.mp reads
          obtain rfl := Option.some.inj (Option.some.inj same)
          exact kept
    obtain ⟨entries, kept⟩ := other_read
    intro e member
    obtain ⟨settled, named⟩ := settled_of_keptEntries? kept e member
    exact ⟨settled, by simpa using keep_of_mem_filter (· != LinterOptions.excludeName) named⟩

theorem Tidy.of_ofTree? {c : Configuration} {tree : Tree} (reads : ofTree? tree = some c) :
    c.Tidy := by
  simp only [ofTree?, Option.bind_eq_bind, Option.bind_eq_some_iff, Option.pure_def,
    Option.some.injEq] at reads
  obtain ⟨entries, -, _, -, bases, -, _, -, rules, rules_read, _, -, js, js_read, _, -, options,
    options_read, _, -, directories, -, extra, extra_read, rfl⟩ := reads
  exact .of_parts (settled_of_rulesOfTree? rules_read) (settled_of_jsRulesOfTree? js_read)
    (settled_of_linterOptionsTree options_read) fun e member =>
      (settled_of_keptEntries? extra_read e member).imp_right
        (keep_of_mem_filter (!fieldNames.contains ·))

end Trees

theorem Tidy.of_ofText {c : Configuration} {format : ConfigFormat} {text : String}
    (reads : ofText format text = .ok c) : c.Tidy := by
  cases format with
  | json =>
    rw [ofText, ofJsonText] at reads
    split at reads
    · cases reads
    · split at reads
      · obtain rfl := Except.ok.inj reads
        exact .of_ofJson? ‹_›
      · cases reads
  | yaml =>
    rw [ofText, ofYamlText] at reads
    split at reads
    · rename_i c' read
      obtain rfl := Except.ok.inj reads
      obtain ⟨document, -, document_read⟩ := Option.bind_eq_some_iff.mp read
      cases document with
      | none =>
        obtain rfl := Option.some.inj document_read
        exact .blank
      | some tree => exact .of_ofTree? document_read
    · cases reads

/-- The configurations that are come by: read from a text, built in, changed, or layered. -/
inductive Reachable : Configuration → Prop where
  | read {format : ConfigFormat} {text : String} {c : Configuration}
      (reads : ofText format text = .ok c) : Reachable c
  | recommended : Reachable recommended
  | removeRule {c : Configuration} (before : Reachable c) (rule : String) :
      Reachable (c.removeRule rule)
  | resolvePaths {c : Configuration} (before : Reachable c) (dir : Path) :
      Reachable (c.resolvePaths dir)
  | extending {own base : Configuration} (upper : Reachable own) (lower : Reachable base) :
      Reachable (own.extending base)

theorem Reachable.tidy {c : Configuration} (reachable : c.Reachable) : c.Tidy := by
  induction reachable with
  | read reads => exact .of_ofText reads
  | recommended => exact .recommended
  | removeRule _ rule before => exact before.removeRule rule
  | resolvePaths _ dir before => exact before.resolvePaths dir
  | extending _ _ upper lower => exact upper.extending lower

end Configuration
end LintBridge
