import LintBridge.Config.Basic
/-!
Changing configurations: taking rules out, making paths absolute, and layering one configuration over
another.
-/
namespace LintBridge

namespace JsRules

def erase : JsRules → String → JsRules
  | inherited flag, _ => inherited flag
  | rules own, rule => rules (own.erase rule)

/-- The rules of `base` with `own` over them. Rules over rules are combined, no rules of one's own
leave the base, and else one's own count. -/
def layeredOver (own base : JsRules) : JsRules :=
  match own, base with
  | rules own, base =>
    if own.isEmpty then base
    else match base with
      | rules base => rules (base.layer own)
      | inherited _ => rules own
  | own, _ => own

end JsRules

/-- The options of `base` with `own` over them; exclusion patterns are not combined. -/
def LinterOptions.layeredOver (own base : LinterOptions) : LinterOptions where
  exclude := if own.exclude.isEmpty then base.exclude else own.exclude
  other := base.other.layer own.other

namespace Configuration

def removeRule (c : Configuration) (rule : String) : Configuration :=
  { c with rules := c.rules.erase rule, jsRules := c.jsRules.erase rule }

def removeRules (c : Configuration) (rules : List String) : Configuration :=
  rules.foldl removeRule c

def resolvePaths (c : Configuration) (dir : Path) : Configuration :=
  { c with
    linterOptions := c.linterOptions.map fun options =>
      { options with exclude := options.exclude.map dir.resolve }
    rulesDirectory := c.rulesDirectory.map fun directories =>
      .many (directories.toList.map dir.resolve) }

/-- Layers a configuration over its base. Rules and other keys replace those of the same name; rule
directories and bases accumulate. -/
def extending (own base : Configuration) : Configuration where
  bases := fieldOf (entries base.bases ++ entries own.bases)
  rules := base.rules.layer own.rules
  jsRules := own.jsRules.layeredOver base.jsRules
  linterOptions := match own.linterOptions, base.linterOptions with
    | some own, some base => some (own.layeredOver base)
    | some own, none => some own
    | none, base => base
  rulesDirectory := fieldOf (entries base.rulesDirectory ++ entries own.rulesDirectory)
  extra := base.extra.layer own.extra

def withoutRulesDirectory (c : Configuration) : Configuration := { c with rulesDirectory := none }

end Configuration
end LintBridge
