import LintBridge.Proofs.Config.Layers
/-!
The algebra of layering. Each part of a configuration is combined by an operation of its own, and all
of them are associative but one: a flag for the JavaScript rules shields the rules above it from those
below it only as long as nothing else has been laid over the flag
(`JsRules.layeredOver_assoc_iff`). A configuration that says nothing is neutral up to the form of the
lists (`extending_assoc_iff`).
-/
namespace LintBridge

namespace JsRules

/-- Whether a flag lies between rules and rules below it of which some are not in the upper ones. -/
def Shields (upper middle lower : JsRules) : Prop :=
  (∃ flag, middle = inherited flag) ∧ ∃ own base, upper = rules own ∧ own.isEmpty = false ∧
    lower = rules base ∧ ∃ key ∈ base.keys, key ∉ own.keys

@[simp] theorem layeredOver_inherited (flag : Bool) (base : JsRules) :
    (inherited flag).layeredOver base = inherited flag := rfl

@[simp] theorem layeredOver_empty (base : JsRules) : (rules .empty).layeredOver base = base := rfl

theorem layeredOver_rules_inherited {own : Dictionary Json} (some_own : own.isEmpty = false)
    (flag : Bool) : (rules own).layeredOver (inherited flag) = rules own := by
  simp [layeredOver, some_own]

theorem layeredOver_rules (own base : Dictionary Json) :
    (rules own).layeredOver (rules base) = rules (base.layer own) := by
  cases nothing : own.isEmpty with
  | true =>
    obtain rfl := Dictionary.isEmpty_iff.mp nothing
    rfl
  | false => simp [layeredOver, nothing]

/-- The two groupings of three layers agree unless a flag shields the upper rules. -/
theorem layeredOver_assoc_iff (upper middle lower : JsRules) :
    upper.layeredOver (middle.layeredOver lower) = (upper.layeredOver middle).layeredOver lower ↔
      ¬Shields upper middle lower := by
  cases upper with
  | inherited flag => simp [Shields]
  | rules own =>
    cases nothing : own.isEmpty with
    | true =>
      obtain rfl := Dictionary.isEmpty_iff.mp nothing
      simp [Shields, nothing]
    | false =>
      cases middle with
      | inherited flag =>
        rw [layeredOver_inherited, layeredOver_rules_inherited nothing]
        cases lower with
        | inherited flag' => simp [Shields, layeredOver_rules_inherited nothing]
        | rules base =>
          have hidden := base.layer_eq_right_iff own
          rw [layeredOver_rules, rules.injEq, eq_comm, hidden]
          simp [Shields, nothing]
      | rules between =>
        have unshielded : ¬Shields (rules own) (rules between) lower := by simp [Shields]
        cases lower with
        | rules base => simp [unshielded, layeredOver_rules, Dictionary.layer_assoc]
        | inherited flag =>
          cases none_between : between.isEmpty with
          | true =>
            obtain rfl := Dictionary.isEmpty_iff.mp none_between
            simp [unshielded, layeredOver_rules]
          | false =>
            have some_layered : (between.layer own).isEmpty = false := by
              simp [Dictionary.isEmpty_layer, nothing]
            simp [unshielded, layeredOver_rules, layeredOver_rules_inherited none_between,
              layeredOver_rules_inherited some_layered]

end JsRules

namespace LinterOptions

theorem layeredOver_assoc (upper middle lower : LinterOptions) :
    upper.layeredOver (middle.layeredOver lower) = (upper.layeredOver middle).layeredOver lower := by
  unfold layeredOver
  rw [Dictionary.layer_assoc]
  cases nothing : upper.exclude.isEmpty with
  | true => simp
  | false => simp [nothing]

end LinterOptions

namespace Configuration

def listed (c : Configuration) : Configuration :=
  { c with
    bases := fieldOf (entries c.bases)
    rulesDirectory := fieldOf (entries c.rulesDirectory) }

theorem fieldOf_entries_assoc (a b c : Option OneOrMany) :
    fieldOf (entries (fieldOf (entries a ++ entries b)) ++ entries c) =
      fieldOf (entries a ++ entries (fieldOf (entries b ++ entries c))) := by
  rw [entries_fieldOf, entries_fieldOf, List.append_assoc]

theorem linterOptions_assoc (a b c : Configuration) :
    (c.extending (b.extending a)).linterOptions = ((c.extending b).extending a).linterOptions := by
  unfold extending
  cases c.linterOptions with
  | none => rfl
  | some upper =>
    cases b.linterOptions with
    | none => cases a.linterOptions <;> rfl
    | some middle =>
      cases a.linterOptions with
      | none => rfl
      | some lower => exact congrArg some (upper.layeredOver_assoc middle lower)

theorem extending_blank (c : Configuration) : c.extending blank = c.listed := by
  have js : c.jsRules.layeredOver blank.jsRules = c.jsRules := by
    cases c.jsRules with
    | inherited flag => rfl
    | rules own => simp [blank, JsRules.layeredOver_rules]
  unfold extending listed
  rw [js]
  cases options : c.linterOptions with
  | none => simp [blank, entries]
  | some own => simp [blank, entries]

theorem blank_extending (c : Configuration) : blank.extending c = c.listed := by
  simp [extending, listed, blank, entries]

/-- The two groupings of three layers agree in all parts but the rules for JavaScript, and in these
unless a flag in the middle shields the upper ones. A configuration that says nothing changes no more
than the form of the lists, above or below. -/
theorem extending_assoc_iff (a b c : Configuration) :
    let nested := c.extending (b.extending a)
    let flat := (c.extending b).extending a
    (nested.rules = flat.rules ∧ nested.linterOptions = flat.linterOptions ∧
        nested.bases = flat.bases ∧ nested.rulesDirectory = flat.rulesDirectory ∧
        nested.extra = flat.extra) ∧
      (nested.jsRules = flat.jsRules ↔ ¬JsRules.Shields c.jsRules b.jsRules a.jsRules) ∧
      c.extending blank = c.listed ∧ blank.extending c = c.listed := by
  intro nested flat
  have rules : nested.rules = flat.rules := Dictionary.layer_assoc _ _ _
  have extra : nested.extra = flat.extra := Dictionary.layer_assoc _ _ _
  have bases : nested.bases = flat.bases := fieldOf_entries_assoc _ _ _
  have directories : nested.rulesDirectory = flat.rulesDirectory := fieldOf_entries_assoc _ _ _
  have js := JsRules.layeredOver_assoc_iff c.jsRules b.jsRules a.jsRules
  exact ⟨⟨rules, linterOptions_assoc a b c, bases, directories, extra⟩, js, extending_blank c,
    blank_extending c⟩

end Configuration
end LintBridge
