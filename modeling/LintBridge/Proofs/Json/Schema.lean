import LintBridge.Json.Basic
/-!
The part of JSON Schema that settings are described in: a schema is a keyword with its argument, and
several keywords hold together (`allOf`). As in any JSON Schema, `items` and `properties` say nothing
of values of other types than arrays and objects.
-/
namespace LintBridge

namespace Json

inductive Kind where
  | null
  | boolean
  | number
  | string
  | array
  | object
deriving DecidableEq

def kind : Json → Kind
  | null => .null
  | bool _ => .boolean
  | int _ => .number
  | float _ => .number
  | str _ => .string
  | arr _ => .array
  | obj _ => .object

end Json

inductive Schema where
  | type (kinds : List Json.Kind)
  | enum (words : List String)
  | items (each : Schema)
  | properties (members : List (String × Schema))
  | oneOf (schemas : List Schema)
  | allOf (schemas : List Schema)

namespace Schema

mutual

def admits : Schema → Json → Bool
  | type kinds, value => kinds.contains value.kind
  | enum words, value => value.str?.any words.contains
  | items each, value => (value.items?.getD []).all each.admits
  | properties members, value => eachAdmits members value
  | oneOf schemas, value => countAdmitting schemas value = 1
  | allOf schemas, value => allAdmit schemas value

def eachAdmits : List (String × Schema) → Json → Bool
  | [], _ => true
  | (name, schema) :: rest, value =>
    (match value.member? name with
      | none => true
      | some content => schema.admits content) && eachAdmits rest value

def countAdmitting : List Schema → Json → Nat
  | [], _ => 0
  | schema :: rest, value => (schema.admits value).toNat + countAdmitting rest value

def allAdmit : List Schema → Json → Bool
  | [], _ => true
  | schema :: rest, value => schema.admits value && allAdmit rest value

end

theorem admits_allOf_pair (a b : Schema) (value : Json) :
    (allOf [a, b]).admits value = (a.admits value && b.admits value) := by
  rw [admits, allAdmit, allAdmit, allAdmit, Bool.and_true]

theorem admits_oneOf_pair (a b : Schema) (value : Json) :
    (oneOf [a, b]).admits value = (a.admits value ^^ b.admits value) := by
  rw [admits, countAdmitting, countAdmitting, countAdmitting]
  cases a.admits value <;> cases b.admits value <;> rfl

theorem eachAdmits_iff {members : List (String × Schema)} {value : Json} :
    eachAdmits members value = true ↔
      ∀ p ∈ members, ∀ content, value.member? p.1 = some content → p.2.admits content = true := by
  induction members with
  | nil => simp [eachAdmits]
  | cons first rest ih =>
    rw [eachAdmits, Bool.and_eq_true, ih, List.forall_mem_cons]
    refine and_congr_left fun _ => ?_
    cases value.member? first.1 <;> simp

end Schema
end LintBridge
