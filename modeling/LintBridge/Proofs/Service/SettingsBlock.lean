import LintBridge.Engine.Basic
import LintBridge.Proofs.Json.Canonical
import LintBridge.Proofs.Json.Schema
import LintBridge.Service.SettingsReading
/-!
Blocks of settings against the schema document that is published for them. The document
(`Settings.document`) admits a block exactly when the check before reading finds no violation, and
what passes the check is always read (`OptionForm.Reads`). So a block either violates the document, or
gives settings in which each option has its given or its standard value (`Settings.ofBlock_spec`).
-/
namespace LintBridge

/-! ### The document -/

def Schema.textOrTexts : Schema :=
  .oneOf [.type [.string], .allOf [.type [.array], .items (.type [.string])]]

namespace Settings

def documentProperties : List (String × Schema) :=
  [("name", .type [.string]),
    ("configFile", .type [.string]),
    ("ignoreDefinitionFiles", .type [.boolean]),
    ("alwaysShowRuleFailuresAsWarnings", .type [.boolean]),
    ("suppressWhileTypeErrorsPresent", .type [.boolean]),
    ("jsEnable", .type [.boolean]),
    ("exclude", .textOrTexts),
    ("packageManager", .allOf [.type [.string], .enum ["npm", "pnpm", "yarn"]]),
    ("allowWorkspaceLibraryExecution", .type [.boolean, .null]),
    ("disableNoUnusedVariableRule", .type [.boolean]),
    ("validateWithDefaultConfig", .type [.boolean]),
    ("nodePath", .type [.string]),
    ("rulesDirectory", .textOrTexts),
    ("traceLevel", .allOf [.type [.string], .enum ["normal", "verbose"]])]

def document : Schema := .allOf [.type [.object], .properties documentProperties]

end Settings

/-! ### The check and the document -/

theorem Json.isSome_strings?_arr (items : List Json) :
    (strings? (.arr items)).isSome = items.all (Schema.type [.string]).admits := by
  rw [strings?]
  induction items with
  | nil => rfl
  | cons item rest ih =>
    rw [List.mapM_cons, List.all_cons, ← ih]
    cases item <;> simp [str?, Schema.admits, kind]
    cases rest.mapM str? <;> rfl

theorem Schema.admits_textOrTexts (value : Json) :
    textOrTexts.admits value = (value.str?.isSome || value.strings?.isSome) := by
  rw [textOrTexts, admits_oneOf_pair, admits_allOf_pair]
  cases value with
  | arr items =>
    rw [Json.isSome_strings?_arr]
    exact Bool.false_xor _
  | _ => rfl

namespace OptionForm

def schema : OptionForm → Schema
  | flag => .type [.boolean]
  | optionalFlag => .type [.boolean, .null]
  | text => .type [.string]
  | word words => .allOf [.type [.string], .enum words]
  | texts => .textOrTexts

theorem complaint?_eq_none_iff (form : OptionForm) (value : Json) :
    form.complaint? value = none ↔ form.schema.admits value = true := by
  cases form with
  | flag => cases value <;> simp [complaint?, schema, Schema.admits, Json.kind]
  | optionalFlag => cases value <;> simp [complaint?, schema, Schema.admits, Json.kind]
  | text => cases value <;> simp [complaint?, schema, Schema.admits, Json.kind]
  | word words =>
    cases value <;>
      simp [complaint?, schema, Schema.admits_allOf_pair, Schema.admits, Json.kind, Json.str?]
  | texts =>
    rw [schema, Schema.admits_textOrTexts]
    cases value <;> simp [complaint?, Json.str?, Option.ne_none_iff_isSome]

end OptionForm

namespace Settings

open SettingsSchema

theorem mem_documentProperties_iff (p : String × Schema) :
    p ∈ documentProperties ↔ p ∈ options.map fun option => (option.1, option.2.schema) := by
  have checked : ∀ p ∈ documentProperties,
      p ∈ options.map fun option => (option.1, option.2.schema) := by
    simp [documentProperties, options, OptionForm.schema, PackageManager.all, PackageManager.name,
      traceLevels]
  have listed : ∀ p ∈ options.map fun option => (option.1, option.2.schema),
      p ∈ documentProperties := by
    simp [documentProperties, options, OptionForm.schema, PackageManager.all, PackageManager.name,
      traceLevels]
  exact ⟨checked p, listed p⟩

theorem violation?_obj_eq_none_iff {members : List (String × Json)} :
    violation? (.obj members) = none ↔ ∀ option ∈ options, ∀ value,
      members.lookup option.1 = some value → option.2.complaint? value = none := by
  rw [violation?, List.findSome?_eq_none_iff]
  refine forall₂_congr fun option _ => ?_
  cases given : members.lookup option.1 with
  | none => simp [violationAt?, given]
  | some value => cases complaint : option.2.complaint? value <;> simp [violationAt?, given, complaint]

theorem violation?_eq_none_iff (block : Json) :
    violation? block = none ↔ document.admits block = true := by
  rw [document, Schema.admits_allOf_pair]
  cases block with
  | obj members =>
    have of_properties : ((Schema.type [.object]).admits (.obj members) &&
        (Schema.properties documentProperties).admits (.obj members)) =
        Schema.eachAdmits documentProperties (.obj members) := by
      rw [Schema.admits, Schema.admits]
      exact Bool.true_and _
    rw [of_properties, violation?_obj_eq_none_iff, Schema.eachAdmits_iff]
    constructor
    · intro valid p listed content given
      obtain ⟨option, option_listed, rfl⟩ :=
        List.mem_map.mp ((mem_documentProperties_iff p).mp listed)
      exact (option.2.complaint?_eq_none_iff content).mp (valid option option_listed content given)
    · intro admitted option listed content given
      exact (option.2.complaint?_eq_none_iff content).mpr
        (admitted _ ((mem_documentProperties_iff _).mpr (List.mem_map_of_mem listed)) content given)
  | _ => simp [violation?, Schema.admits, Json.kind]

end Settings

/-! ### What a block gives -/

/-- What a block gives an option: what a value is taken for that the block holds the JSON form of, or
the standard value if it holds none. -/
inductive Given {α β : Type} (block : Json) (name : String) (encode : α → Json) (take : α → β)
    (standard : β) : β → Prop where
  | held {value : α} (held : block.member? name = some (encode value)) :
      Given block name encode take standard (take value)
  | leftOut (absent : block.member? name = none) : Given block name encode take standard standard

theorem Given.map {α β γ : Type} {block : Json} {name : String} {encode : α → Json} {take : α → β}
    {standard x : β} (given : Given block name encode take standard x) (f : β → γ) :
    Given block name encode (f ∘ take) (f standard) (f x) := by
  cases given with
  | held held => exact .held held
  | leftOut absent => exact .leftOut absent

def GivenFlag (block : Json) (name : String) : Bool → Bool → Prop :=
  Given block name Json.bool id

def GivenTexts (block : Json) (name : String) : List String → Prop :=
  Given block name OneOrMany.toJson OneOrMany.toList []

def Path.locatedIn (root path : Path) : Path := if path.isAbsolute then path else root.join path

def GivenTrust (block : Json) (name : String) : Trust → Prop :=
  Given block name (Json.ofOption .bool) Trust.ofFlag .unknown

structure Settings.GivenBy (s : Settings) (block : Json) (root : Path) : Prop where
  configFile :
    Given block "configFile" Path.toJson (some ∘ Path.locatedIn root) none s.configFile
  ignoreDefinitionFiles : GivenFlag block "ignoreDefinitionFiles" true s.ignoreDefinitionFiles
  alwaysShowRuleFailuresAsWarnings :
    GivenFlag block "alwaysShowRuleFailuresAsWarnings" false s.alwaysShowRuleFailuresAsWarnings
  suppressWhileTypeErrorsPresent :
    GivenFlag block "suppressWhileTypeErrorsPresent" false s.suppressWhileTypeErrorsPresent
  jsEnable : GivenFlag block "jsEnable" false s.jsEnable
  exclude : Given block "exclude" OneOrMany.toJson id (.many []) s.exclude
  packageManager : Given block "packageManager" (Json.str ∘ PackageManager.name) id .npm
    s.packageManager
  allowWorkspaceLibraryExecution :
    GivenTrust block "allowWorkspaceLibraryExecution" s.allowWorkspaceLibraryExecution
  disableNoUnusedVariableRule :
    GivenFlag block "disableNoUnusedVariableRule" true s.disableNoUnusedVariableRule
  validateWithDefaultConfig :
    Given block "validateWithDefaultConfig" Json.bool some none s.validateWithDefaultConfig
  nodePath : Given block "nodePath" Path.toJson some none s.nodePath
  rulesDirectory : Given block "rulesDirectory" OneOrMany.toJson some none s.rulesDirectory
  traceLevel : Given block "traceLevel" (Json.str ∘ TraceLevel.name) id .normal s.traceLevel

structure PassOptions.GivenBy (o : PassOptions) (block : Json) (root : Path)
    (folder host : Option Path) : Prop where
  jsEnable : GivenFlag block "jsEnable" false o.jsEnable
  rulesDirectory : GivenTexts block "rulesDirectory" o.rulesDirectory
  configFile :
    Given block "configFile" Path.toJson (some ∘ Path.locatedIn root) none o.configFile
  ignoreDefinitionFiles : GivenFlag block "ignoreDefinitionFiles" true o.ignoreDefinitionFiles
  exclude : GivenTexts block "exclude" o.exclude
  validateWithDefaultConfig :
    Given block "validateWithDefaultConfig" Json.bool some none o.validateWithDefaultConfig
  nodePath : Given block "nodePath" Path.toJson some none o.nodePath
  packageManager : Given block "packageManager" (Json.str ∘ PackageManager.name) id .npm
    o.packageManager
  traceLevel : Given block "traceLevel" (Json.str ∘ TraceLevel.name) id .normal o.traceLevel
  workspaceFolder : o.workspaceFolder = folder
  workspaceTrust : GivenTrust block "allowWorkspaceLibraryExecution" o.workspaceTrust
  hostInstallRoot : o.hostInstallRoot = host
  stripUnstable : GivenFlag block "disableNoUnusedVariableRule" true o.stripUnstable

/-! ### Reading what has passed the check -/

namespace OptionForm

/-- Whatever has a form is read, as what the value is taken for that it is the JSON form of. -/
def Reads {α β : Type} (form : OptionForm) (read : Json → Option β) (encode : α → Json)
    (take : α → β) : Prop :=
  ∀ json, form.complaint? json = none → ∃ value, encode value = json ∧ read json = some (take value)

theorem Reads.some {α β : Type} {form : OptionForm} {read : Json → Option β} {encode : α → Json}
    {take : α → β} (reads : form.Reads read encode take) :
    form.Reads (fun json => (read json).map Option.some) encode (Option.some ∘ take) := by
  intro json valid
  obtain ⟨value, encoded, read_eq⟩ := reads json valid
  exact ⟨value, encoded, by simp only [read_eq, Option.map_some, Function.comp_apply]⟩

theorem reads_flag : flag.Reads Settings.flag? Json.bool id := by
  intro json valid
  cases json with
  | bool b => exact ⟨b, rfl, rfl⟩
  | _ => simp [complaint?] at valid

theorem reads_flag_some : flag.Reads Settings.optionalFlag? Json.bool Option.some := by
  intro json valid
  cases json with
  | bool b => exact ⟨b, rfl, rfl⟩
  | _ => simp [complaint?] at valid

theorem reads_trust :
    optionalFlag.Reads (fun json => (Settings.optionalFlag? json).map Trust.ofFlag)
      (Json.ofOption .bool) Trust.ofFlag := by
  intro json valid
  cases json with
  | null => exact ⟨none, rfl, rfl⟩
  | bool b => exact ⟨b, rfl, rfl⟩
  | _ => simp [complaint?] at valid

theorem reads_path : text.Reads Settings.path? Path.toJson id := by
  intro json valid
  cases json with
  | str content => exact ⟨⟨content⟩, rfl, rfl⟩
  | _ => simp [complaint?] at valid

theorem reads_word {α : Type} {words : List String} {ofName? : String → Option α} {name : α → String}
    (named : ∀ w ∈ words, ∃ x, name x = w ∧ ofName? w = some x) :
    (word words).Reads (fun json => json.str?.bind ofName?) (Json.str ∘ name) id := by
  intro json valid
  cases json with
  | str content =>
    have listed : content ∈ words := by simpa [complaint?] using valid
    obtain ⟨x, rfl, read⟩ := named content listed
    exact ⟨x, rfl, read⟩
  | _ => simp [complaint?] at valid

theorem reads_texts : texts.Reads OneOrMany.ofJson? OneOrMany.toJson id := by
  intro json valid
  cases json with
  | str content => exact ⟨.one content, rfl, rfl⟩
  | arr items =>
    have all_texts : (Json.arr items).strings?.isSome := by
      simpa [complaint?, Option.ne_none_iff_isSome] using valid
    obtain ⟨contents, read⟩ := Option.isSome_iff_exists.mp all_texts
    refine ⟨.many contents, (Json.strings?_eq_some_iff.mp read).symm, ?_⟩
    rw [OneOrMany.ofJson?, read]
    rfl
  | _ => simp [complaint?, Json.strings?] at valid

theorem reads_texts_some :
    texts.Reads (fun json => OneOrMany.ofField? (some json)) OneOrMany.toJson Option.some := by
  intro json valid
  obtain ⟨value, encoded, read⟩ := reads_texts json valid
  refine ⟨value, encoded, ?_⟩
  cases json with
  | null => cases read
  | _ => simp [OneOrMany.ofField?, read]

end OptionForm

theorem PackageManager.named : ∀ w ∈ all.map name, ∃ p : PackageManager,
    p.name = w ∧ ofName? w = some p := by
  rintro w listed
  obtain ⟨p, -, rfl⟩ := List.mem_map.mp listed
  exact ⟨p, rfl, p.ofName?_name⟩

theorem TraceLevel.named : ∀ w ∈ SettingsSchema.traceLevels, ∃ level : TraceLevel,
    level.name = w ∧ ofName? w = some level := by
  simp only [SettingsSchema.traceLevels, List.forall_mem_cons, List.not_mem_nil, false_imp_iff,
    implies_true, and_true]
  exact ⟨⟨normal, rfl, rfl⟩, ⟨verbose, rfl, rfl⟩⟩

theorem Path.join_eq_locatedIn (root : Path) : root.join = root.locatedIn := by
  funext path
  unfold locatedIn join
  split <;> rfl

namespace Settings

open SettingsSchema OptionForm

theorem option?_given {α β : Type} {members : List (String × Json)} {form : OptionForm}
    {read : Json → Option β} {encode : α → Json} {take : α → β}
    (valid : violation? (.obj members) = none) (reads : form.Reads read encode take) (name : String)
    (standard : β) (listed : (name, form) ∈ options) :
    ∃ x, option? members name standard read = some x ∧
      Given (.obj members) name encode take standard x := by
  cases given : members.lookup name with
  | none => exact ⟨standard, by rw [option?, given], .leftOut given⟩
  | some json =>
    obtain ⟨value, rfl, read_eq⟩ :=
      reads json (violation?_obj_eq_none_iff.mp valid _ listed json given)
    exact ⟨take value, by simp only [option?, given, read_eq], .held given⟩

theorem ofMembers?_given {members : List (String × Json)}
    (valid : violation? (.obj members) = none) (root : Path) :
    ∃ s, ofMembers? members = some s ∧ (s.locatedIn root).GivenBy (.obj members) root := by
  -- Each option stands in the list that has been checked, with the form that its reader asks for.
  have flag_given := option?_given valid reads_flag
  have path_given := option?_given valid reads_path.some
  obtain ⟨configFile, configFile_eq, configFile_given⟩ :=
    path_given "configFile" none (by simp [options])
  obtain ⟨ignore, ignore_eq, ignore_given⟩ :=
    flag_given "ignoreDefinitionFiles" true (by simp [options])
  obtain ⟨warnings, warnings_eq, warnings_given⟩ :=
    flag_given "alwaysShowRuleFailuresAsWarnings" false (by simp [options])
  obtain ⟨suppress, suppress_eq, suppress_given⟩ :=
    flag_given "suppressWhileTypeErrorsPresent" false (by simp [options])
  obtain ⟨jsEnable, jsEnable_eq, jsEnable_given⟩ := flag_given "jsEnable" false (by simp [options])
  obtain ⟨exclude, exclude_eq, exclude_given⟩ :=
    option?_given valid reads_texts "exclude" (.many []) (by simp [options])
  obtain ⟨manager, manager_eq, manager_given⟩ :=
    option?_given valid (reads_word PackageManager.named) "packageManager" .npm (by simp [options])
  obtain ⟨trust, trust_eq, trust_given⟩ :=
    option?_given valid reads_trust "allowWorkspaceLibraryExecution" .unknown (by simp [options])
  obtain ⟨unstable, unstable_eq, unstable_given⟩ :=
    flag_given "disableNoUnusedVariableRule" true (by simp [options])
  obtain ⟨validate, validate_eq, validate_given⟩ :=
    option?_given valid reads_flag_some "validateWithDefaultConfig" none (by simp [options])
  obtain ⟨nodePath, nodePath_eq, nodePath_given⟩ := path_given "nodePath" none (by simp [options])
  obtain ⟨rules, rules_eq, rules_given⟩ :=
    option?_given valid reads_texts_some "rulesDirectory" none (by simp [options])
  obtain ⟨level, level_eq, level_given⟩ :=
    option?_given valid (reads_word TraceLevel.named) "traceLevel" .normal (by simp [options])
  refine ⟨⟨configFile, ignore, warnings, suppress, jsEnable, exclude, manager, trust, unstable,
    validate, nodePath, rules, level⟩, ?_, ⟨?_, ignore_given, warnings_given, suppress_given,
    jsEnable_given, exclude_given, manager_given, trust_given, unstable_given, validate_given,
    nodePath_given, rules_given, level_given⟩⟩
  · simp only [ofMembers?, standard, configFile_eq, ignore_eq, warnings_eq, suppress_eq, jsEnable_eq,
      exclude_eq, manager_eq, trust_eq, unstable_eq, validate_eq, nodePath_eq, rules_eq, level_eq]
    rfl
  · rw [← Path.join_eq_locatedIn]
    exact configFile_given.map (Option.map root.join)

theorem GivenBy.passOptions {s : Settings} {block : Json} {root : Path} (given : s.GivenBy block root)
    (folder host : Option Path) : (s.passOptions folder host).GivenBy block root folder host where
  jsEnable := given.jsEnable
  rulesDirectory := given.rulesDirectory.map Configuration.entries
  configFile := given.configFile
  ignoreDefinitionFiles := given.ignoreDefinitionFiles
  exclude := given.exclude.map OneOrMany.toList
  validateWithDefaultConfig := given.validateWithDefaultConfig
  nodePath := given.nodePath
  packageManager := given.packageManager
  traceLevel := given.traceLevel
  workspaceFolder := rfl
  workspaceTrust := given.allowWorkspaceLibraryExecution
  hostInstallRoot := rfl
  stripUnstable := given.disableNoUnusedVariableRule

theorem ofBlock_eq_error {block : Json} {v : Violation} (violation : violation? block = some v)
    (root : Path) : ofBlock block root = .error (.violation v) := by
  rw [ofBlock, violation]

theorem ofBlock_eq_ok {block : Json} (valid : violation? block = none) (root : Path) :
    ∃ s, ofBlock block root = .ok s ∧ s.GivenBy block root := by
  cases block with
  | obj members =>
    obtain ⟨s, read, given⟩ := ofMembers?_given valid root
    refine ⟨s.locatedIn root, ?_, given⟩
    have read_block : ofJson? (.obj members) = some s := read
    rw [ofBlock, valid]
    simp only [read_block]
  | _ => cases valid

theorem ofBlock_congr {a b : List (String × Json)}
    (same : ∀ p ∈ documentProperties, a.lookup p.1 = b.lookup p.1) (root : Path) :
    ofBlock (.obj a) root = ofBlock (.obj b) root := by
  simp only [documentProperties, List.forall_mem_cons] at same
  have same_violation : violation? (.obj a) = violation? (.obj b) := by
    simp only [violation?, options, List.findSome?_cons, List.findSome?_nil, violationAt?, same]
  have same_read : ofMembers? a = ofMembers? b := by
    simp only [ofMembers?, option?, same]
  simp only [ofBlock, ofJson?, Json.members?, Option.bind_some, same_violation, same_read]

/-- A block is in error exactly when the schema document does not admit it, and the error is then a
violation: what has passed the check is always read. All else gives settings in which each option is
as the block says, or the standard one where it says nothing, and a relative configuration file is one
in the directory of the project; and options of a pass that say the same, with texts as lists. Members
that the document does not name make no difference. -/
theorem ofBlock_spec (block : Json) (root : Path) :
    ((∃ e, ofBlock block root = .error e) ↔ document.admits block = false) ∧
    (∀ e, ofBlock block root = .error e → ∃ v, e = .violation v) ∧
    (∀ s, ofBlock block root = .ok s → s.GivenBy block root ∧
      ∀ folder host, (s.passOptions folder host).GivenBy block root folder host) ∧
    ∀ a b : List (String × Json), (∀ p ∈ documentProperties, a.lookup p.1 = b.lookup p.1) →
      ofBlock (.obj a) root = ofBlock (.obj b) root := by
  cases checked : violation? block with
  | none =>
    have admitted := (violation?_eq_none_iff block).mp checked
    obtain ⟨s, read, given⟩ := ofBlock_eq_ok checked root
    refine ⟨by simp [read, admitted], by simp [read], ?_, fun a b same => ofBlock_congr same root⟩
    intro t read_t
    obtain rfl := Except.ok.inj (read.symm.trans read_t)
    exact ⟨given, given.passOptions⟩
  | some v =>
    have rejected := ofBlock_eq_error checked root
    have not_admitted : document.admits block = false := by
      rw [← Bool.not_eq_true, ← violation?_eq_none_iff, checked]
      simp
    exact ⟨by simp [rejected, not_admitted], by simp [rejected], by simp [rejected],
      fun a b same => ofBlock_congr same root⟩

/-- A flag may not be `null`, trust may, and members of other names may be anything. -/
example : document.admits (.obj [("jsEnable", .null)]) = false ∧
    document.admits (.obj [("allowWorkspaceLibraryExecution", .null), ("other", .null)]) = true := by
  decide

end Settings
end LintBridge
