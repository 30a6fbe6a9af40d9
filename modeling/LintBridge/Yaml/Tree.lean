import LintBridge.Yaml.Node
/-!
YAML documents with their aliases followed. A document may nest 128 collections and follow a hundred
aliases for each of its events.
-/
namespace LintBridge.Yaml

inductive Tree where
  | scalar (tag : Option (List Char)) (text : List Char) (plain : Bool)
  | sequence (tag : Option (List Char)) (items : List Tree)
  | mapping (tag : Option (List Char)) (entries : List (Tree × Tree))

namespace Tree

structure Aliases where
  targets : List (Nat × Node)
  limit : Nat

abbrev Count := StateT Nat Option

def follow (aliases : Aliases) : Node → Count Node
  | .reference number => do
    let count := (← get) + 1
    if aliases.limit < count then failure
    set count
    match aliases.targets.lookup number with
    | some node => return node
    | none => failure
  | node => return node

def ofNode (aliases : Aliases) : Nat → Node → Count Tree
  | 0, node => do
    match ← follow aliases node with
    | .scalar properties text plain => return scalar properties.tag text plain
    | _ => failure
  | depth + 1, node => do
    match ← follow aliases node with
    | .scalar properties text plain => return scalar properties.tag text plain
    | .sequence properties items =>
      return sequence properties.tag (← items.mapM (ofNode aliases depth))
    | .mapping properties entries =>
      return mapping properties.tag (← entries.mapM fun (key, content) => do
        return (← ofNode aliases depth key, ← ofNode aliases depth content))
    | .reference _ => failure

/-- The tree of a document. Of nodes with one number the last counts. -/
def ofDocument? (root : Node) : Option Tree := do
  let aliases : Aliases := ⟨root.anchored.reverse, 100 * root.events⟩
  let (tree, _) ← (ofNode aliases 128 root).run 0
  return tree

/-- The tree of the only document of a text; `none` inside if there is no document. -/
def read? (text : String) : Option (Option Tree) := do
  match ← Node.ofTokens? (← tokens? text) with
  | none => return none
  | some root => return some (← ofDocument? root)

end Tree
end LintBridge.Yaml
