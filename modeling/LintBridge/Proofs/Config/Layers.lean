import LintBridge.Proofs.Config.Cycle
import LintBridge.Proofs.Dictionary
/-!
What a loaded configuration says. The files that a file builds on are listed in the order of a walk
that visits a file after its bases (`PostOrder`), and a configuration says the layers of a listing if
each of its parts comes from them (`Layered`): rules and keys from the last layer that has them,
exclusion patterns from the last that has any, directories and packages from all. Layering one
configuration over another joins their listings (`Layered.append`), whatever the tree they come from.
-/
namespace LintBridge.Configuration

variable {m : Machine} {file : Path} {files rest : List Path} {c own base : Configuration}

/-! ### The parts of a configuration -/

def excludes? (c : Configuration) : Option (List String) :=
  if c.excludedPatterns.isEmpty then none else some c.excludedPatterns

def otherOption? (c : Configuration) (key : String) : Option Json :=
  c.linterOptions.bind fun options => options.other.get? key

def jsRule? (c : Configuration) (rule : String) : Option Json :=
  match c.jsRules with
  | .rules own => own.get? rule
  | .inherited _ => none

theorem entries_fieldOf (texts : List String) : entries (fieldOf texts) = texts := by
  unfold fieldOf
  split
  · rename_i nothing
    exact (List.isEmpty_iff.mp nothing).symm
  · rfl

theorem excludes?_extending (own base : Configuration) :
    (own.extending base).excludes? = own.excludes?.or base.excludes? := by
  have patterns : (own.extending base).excludedPatterns =
      if own.excludedPatterns.isEmpty then base.excludedPatterns else own.excludedPatterns := by
    unfold excludedPatterns extending LinterOptions.layeredOver
    cases own.linterOptions with
    | none => simp
    | some _ => cases base.linterOptions <;> simp
  unfold excludes?
  rw [patterns]
  by_cases nothing : own.excludedPatterns.isEmpty = true <;> simp [nothing]

theorem otherOption?_extending (own base : Configuration) (key : String) :
    (own.extending base).otherOption? key = (own.otherOption? key).or (base.otherOption? key) := by
  unfold otherOption? extending LinterOptions.layeredOver
  cases own.linterOptions with
  | none => simp
  | some _ =>
    cases base.linterOptions with
    | none => simp
    | some _ => simp [Dictionary.get?_layer]

theorem jsRule?_extending (own_rules : own.inheritsJsRules = false)
    (base_rules : base.inheritsJsRules = false) :
    (own.extending base).inheritsJsRules = false ∧
      ∀ rule, (own.extending base).jsRule? rule = (own.jsRule? rule).or (base.jsRule? rule) := by
  unfold inheritsJsRules at *
  unfold jsRule? extending JsRules.layeredOver
  cases own_js : own.jsRules with
  | inherited flag => simp [own_js] at own_rules
  | rules upper =>
    cases base_js : base.jsRules with
    | inherited flag => simp [base_js] at base_rules
    | rules lower =>
      by_cases nothing : upper.isEmpty = true
      · simp [nothing, Dictionary.get?_of_isEmpty nothing]
      · simp [nothing, Dictionary.get?_layer]

/-! ### Layers -/

structure Layer where
  file : Path
  said : Configuration

/-- The listing of files with what they build on: the listings of the bases of a file in their order,
then the file itself. -/
inductive PostOrder (m : Machine) : List Path → List Layer → Prop
  | nil : PostOrder m [] []
  | cons {file : Path} {rest : List Path} {said : Configuration} {bases others : List Layer}
      (read : ofFile m file = .ok said)
      (below : PostOrder m (extendedFiles m (directoryOf file) said) bases)
      (beside : PostOrder m rest others) : PostOrder m (file :: rest) (bases ++ ⟨file, said⟩ :: others)

theorem PostOrder.append {listing listing' : List Layer} (first : PostOrder m files listing)
    (second : PostOrder m rest listing') : PostOrder m (files ++ rest) (listing ++ listing') := by
  induction first with
  | nil => exact second
  | cons read below _ _ beside =>
    rw [List.append_assoc]
    exact .cons read below beside

theorem PostOrder.unique {listing listing' : List Layer} (one : PostOrder m files listing)
    (other : PostOrder m files listing') : listing = listing' := by
  induction one generalizing listing' with
  | nil =>
    cases other
    rfl
  | cons read _ _ below beside =>
    cases other with
    | cons read' below' beside' =>
      obtain rfl := Except.ok.inj (read.symm.trans read')
      rw [below below', beside beside']

/-- What the last layer says that says anything. -/
def lastSaid {α : Type} (listing : List Layer) (said? : Layer → Option α) : Option α :=
  listing.reverse.findSome? said?

theorem lastSaid_append {α : Type} (lower upper : List Layer) (said? : Layer → Option α) :
    lastSaid (lower ++ upper) said? = (lastSaid upper said?).or (lastSaid lower said?) := by
  simp [lastSaid, List.findSome?_append]

theorem lastSaid_singleton {α : Type} (layer : Layer) (said? : Layer → Option α) :
    lastSaid [layer] said? = said? layer := by
  simp [lastSaid]

/-- A configuration says what the layers of a listing say. -/
structure Layered (listing : List Layer) (c : Configuration) : Prop where
  rules : ∀ rule, c.rules.get? rule = lastSaid listing (·.said.rules.get? rule)
  extra : ∀ key, c.extra.get? key = lastSaid listing (·.said.extra.get? key)
  otherOptions : ∀ key, c.otherOption? key = lastSaid listing (·.said.otherOption? key)
  excludes : c.excludes? = lastSaid listing fun layer =>
    layer.said.excludes?.map (·.map (directoryOf layer.file).resolve)
  rulesDirectory : entries c.rulesDirectory = listing.flatMap fun layer =>
    (entries layer.said.rulesDirectory).map (directoryOf layer.file).resolve
  bases : entries c.bases = listing.flatMap fun layer => packages layer.said
  jsRules : (∀ layer ∈ listing, layer.said.inheritsJsRules = false) →
    c.inheritsJsRules = false ∧ ∀ rule, c.jsRule? rule = lastSaid listing (·.said.jsRule? rule)

namespace Layered

variable {lower upper : List Layer}

theorem blank : Layered [] blank where
  rules _ := rfl
  extra _ := rfl
  otherOptions _ := rfl
  excludes := rfl
  rulesDirectory := rfl
  bases := rfl
  jsRules _ := ⟨rfl, fun _ => rfl⟩

theorem ownPart (file : Path) (said : Configuration) :
    Layered [⟨file, said⟩] (ownPart file said) where
  rules rule := by rw [lastSaid_singleton]; rfl
  extra key := by rw [lastSaid_singleton]; rfl
  otherOptions key := by
    rw [lastSaid_singleton]
    unfold otherOption? Configuration.ownPart resolvePaths
    cases said.linterOptions <;> rfl
  excludes := by
    rw [lastSaid_singleton]
    unfold excludes? Configuration.ownPart resolvePaths excludedPatterns
    cases said.linterOptions with
    | none => rfl
    | some options => by_cases nothing : options.exclude = [] <;> simp [nothing]
  rulesDirectory := by
    rw [List.flatMap_singleton]
    unfold Configuration.ownPart resolvePaths
    cases said.rulesDirectory <;> rfl
  bases := by
    rw [List.flatMap_singleton]
    exact entries_fieldOf _
  jsRules inherits := by
    simp only [lastSaid_singleton]
    exact ⟨inherits _ List.mem_cons_self, fun _ => rfl⟩

theorem append (below : Layered lower base) (above : Layered upper own) :
    Layered (lower ++ upper) (own.extending base) where
  rules rule := by
    rw [lastSaid_append, ← above.rules, ← below.rules]
    exact Dictionary.get?_layer _ _ _
  extra key := by
    rw [lastSaid_append, ← above.extra, ← below.extra]
    exact Dictionary.get?_layer _ _ _
  otherOptions key := by
    rw [lastSaid_append, ← above.otherOptions, ← below.otherOptions, otherOption?_extending]
  excludes := by
    rw [lastSaid_append, ← above.excludes, ← below.excludes, excludes?_extending]
  rulesDirectory := by
    rw [List.flatMap_append, ← above.rulesDirectory, ← below.rulesDirectory]
    exact entries_fieldOf _
  bases := by
    rw [List.flatMap_append, ← above.bases, ← below.bases]
    exact entries_fieldOf _
  jsRules inherits := by
    obtain ⟨above_rules, above_rule⟩ :=
      above.jsRules fun layer member => inherits layer (List.mem_append_right _ member)
    obtain ⟨below_rules, below_rule⟩ :=
      below.jsRules fun layer member => inherits layer (List.mem_append_left _ member)
    obtain ⟨rules, rule_of⟩ := jsRule?_extending above_rules below_rules
    refine ⟨rules, fun rule => ?_⟩
    rw [rule_of, lastSaid_append, above_rule, below_rule]

theorem packages_only {listing : List Layer} (layered : Layered listing c) :
    ∀ name ∈ entries c.bases, isPathName name = false := by
  intro name member
  rw [layered.bases] at member
  obtain ⟨layer, -, listed⟩ := List.mem_flatMap.mp member
  simpa using (List.mem_filter.mp listed).2

end Layered

/-! ### What is loaded -/

theorem loadEach_layered {load : Path → Option (Except LintError Configuration)}
    {merged : Configuration} {before : List Layer} (so_far : Layered before merged)
    (each : ∀ file ∈ files, ∀ c, load file = some (.ok c) →
      ∃ listing, PostOrder m [file] listing ∧ Layered listing c)
    (loaded : loadEach load merged files = some (.ok c)) :
    ∃ listing, PostOrder m files listing ∧ Layered (before ++ listing) c := by
  induction files generalizing merged before with
  | nil =>
    obtain rfl := Except.ok.inj (Option.some.inj loaded)
    exact ⟨[], .nil, by rwa [List.append_nil]⟩
  | cons first rest ih =>
    obtain ⟨base, first_loaded, rest_loaded⟩ := loadEach_cons_ok loaded
    obtain ⟨listing, order, layered⟩ := each first List.mem_cons_self base first_loaded
    have each_rest : ∀ file ∈ rest, ∀ c, load file = some (.ok c) →
        ∃ listing, PostOrder m [file] listing ∧ Layered listing c :=
      fun file member => each file (List.mem_cons_of_mem _ member)
    obtain ⟨listing', order', layered'⟩ := ih (so_far.append layered) each_rest rest_loaded
    rw [List.append_assoc] at layered'
    exact ⟨listing ++ listing', order.append order', layered'⟩

theorem loadWithin_layered {fuel : Nat} {chain : List Path}
    (loaded : loadWithin m fuel chain file = some (.ok c)) :
    ∃ listing, PostOrder m [file] listing ∧ Layered listing c := by
  induction fuel generalizing chain file c with
  | zero => contradiction
  | succ fuel ih =>
    -- The bases come first in the listing, then the file's own part is laid over them.
    obtain ⟨fewer, said, merged, fuel_eq, -, read, bases, rfl⟩ := loadWithin_ok loaded
    obtain rfl := Nat.succ.inj fuel_eq
    obtain ⟨listing, order, layered⟩ := loadEach_layered .blank (fun _ _ _ => ih) bases
    exact ⟨listing ++ [⟨file, said⟩], .cons read order .nil, layered.append (.ownPart file said)⟩

/-- When all files that a file builds on can be read and none of them builds on itself, the file is
loaded, and the configuration says what the layers of its listing say. -/
theorem load_layered (readable : AllReadable m file) (acyclic : ¬Cyclic m file) :
    ∃ listing c, (∀ other, PostOrder m [file] other ↔ other = listing) ∧ load m file = .ok c ∧
      Layered listing c ∧ c.rulesDirectory = fieldOf (entries c.rulesDirectory) ∧
      c.bases = fieldOf (entries c.bases) ∧ ∀ name ∈ entries c.bases, isPathName name = false := by
  obtain ⟨c, loaded⟩ := load_ok_of_not_cyclic readable acyclic
  have within := loadWithin_eq_load m file (Nat.le_refl _)
  rw [loaded] at within
  obtain ⟨listing, order, layered⟩ := loadWithin_layered within
  obtain ⟨_, own, merged, -, -, -, -, rfl⟩ := loadWithin_ok within
  refine ⟨listing, _, fun other => ?_, loaded, layered, ?_, ?_, layered.packages_only⟩
  · constructor
    · exact fun order' => order'.unique order
    · rintro rfl
      exact order
  · exact congrArg fieldOf (entries_fieldOf _).symm
  · exact congrArg fieldOf (entries_fieldOf _).symm

theorem load_layered_diamond :
    AllReadable diamond ⟨"/w/a.yaml"⟩ ∧ ¬Cyclic diamond ⟨"/w/a.yaml"⟩ ∧
      ∃ listing c, (∀ other, PostOrder diamond [⟨"/w/a.yaml"⟩] other ↔ other = listing) ∧
        load diamond ⟨"/w/a.yaml"⟩ = .ok c ∧ Layered listing c ∧
        c.rulesDirectory = fieldOf (entries c.rulesDirectory) ∧
        c.bases = fieldOf (entries c.bases) ∧ ∀ name ∈ entries c.bases, isPathName name = false := by
  have diamond_loads : (load diamond ⟨"/w/a.yaml"⟩).toBool = true := by decide +kernel
  obtain ⟨c, loaded⟩ := exists_ok_iff.mpr diamond_loads
  have acyclic := not_cyclic_of_load loaded
  exact ⟨diamond_allReadable, acyclic, load_layered diamond_allReadable acyclic⟩

end LintBridge.Configuration
