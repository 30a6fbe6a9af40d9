import LintBridge.Dictionary
/-!
JSON values. Numbers are integers or binary floating point. An object keeps its members as written;
`canonical` puts them into ascending order and lets the last of several members with one name stay.
-/
namespace LintBridge

/-- A JSON value. A floating-point number is held as its bit pattern. -/
inductive Json where
  | null
  | bool (value : Bool)
  | int (value : Int)
  | float (bits : UInt64)
  | str (value : String)
  | arr (items : List Json)
  | obj (members : List (String × Json))

namespace Json

instance : Inhabited Json := ⟨null⟩

def insertEarlier (name : String) (value : Json) (members : List (String × Json)) :
    List (String × Json) :=
  if (members.lookup name).isSome then members else Dictionary.insertEntry name value members

mutual

/-- The value with the members of every object in ascending order, the last of equal names. -/
def canonical : Json → Json
  | arr items => arr (canonicalItems items)
  | obj members => obj (canonicalMembers members)
  | other => other

def canonicalItems : List Json → List Json
  | [] => []
  | item :: rest => canonical item :: canonicalItems rest

def canonicalMembers : List (String × Json) → List (String × Json)
  | [] => []
  | (name, value) :: rest => insertEarlier name (canonical value) (canonicalMembers rest)

end

def ofDictionary (d : Dictionary Json) : Json := obj d.entries

def ofStrings (items : List String) : Json := arr (items.map str)

def str? : Json → Option String
  | str value => some value
  | _ => none

def strings? : Json → Option (List String)
  | arr items => items.mapM str?
  | _ => none

def members? : Json → Option (List (String × Json))
  | obj members => some members
  | _ => none

def items? : Json → Option (List Json)
  | arr items => some items
  | _ => none

def member? (value : Json) (name : String) : Option Json :=
  value.members?.bind (·.lookup name)

def ofOption {α : Type} (encode : α → Json) : Option α → Json
  | none => null
  | some value => encode value

end Json
end LintBridge
