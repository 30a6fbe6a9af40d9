import LintBridge.Yaml.Token
/-!
The nodes of a YAML document, built from tokens. An anchored node has a number; an alias names the
number that its anchor had when the alias was met.
-/
namespace LintBridge.Yaml

structure Properties where
  anchor : Option Nat
  tag : Option (List Char)

namespace Properties

def none : Properties := ⟨Option.none, Option.none⟩

end Properties

inductive Node where
  | scalar (properties : Properties) (text : List Char) (plain : Bool)
  | sequence (properties : Properties) (items : List Node)
  | mapping (properties : Properties) (entries : List (Node × Node))
  | reference (anchor : Nat)

namespace Node

def missing : Node := scalar .none [] true

/-- What remains to be read: the tokens, and the numbers of the names met so far. A name that is used
again gets a new number, counted by the names. -/
structure Reader where
  tokens : List Token
  names : List (List Char × Nat)

abbrev Read := StateT Reader Option

def peek : Read (Option Token) := do return (← get).tokens.head?

def skip : Read Unit := modify fun r => { r with tokens := r.tokens.tail }

def register (name : List Char) : Read Nat := do
  let r ← get
  let number := r.names.length
  let others := r.names.filter (·.1 != name)
  set { r with names := (name, number) :: others }
  return number

def lookup (name : List Char) : Read Nat := do
  match (← get).names.lookup name with
  | some number => return number
  | Option.none => failure

def resolveTag (handles : List (List Char × List Char)) (handle suffix : List Char) :
    Option (List Char) :=
  if handle.isEmpty then some suffix
  else (handles.lookup handle).map (· ++ suffix)

def readTag (handles : List (List Char × List Char)) : Read (Option (List Char)) := do
  match ← peek with
  | some (.tag handle suffix) =>
    skip
    match resolveTag handles handle suffix with
    | some tag => return some tag
    | Option.none => failure
  | _ => return Option.none

def readAnchor : Read (Option (List Char)) := do
  match ← peek with
  | some (.anchor name) =>
    skip
    return some name
  | _ => return Option.none

def readProperties (handles : List (List Char × List Char)) : Read Properties := do
  let before ← readAnchor
  let tag ← readTag handles
  let name ← match before, tag with
    | Option.none, some _ => readAnchor
    | name, _ => pure name
  match name with
  | some name => return ⟨some (← register name), tag⟩
  | Option.none => return ⟨Option.none, tag⟩

def nextIsOneOf (tokens : List Token) : Read Bool := do
  match ← peek with
  | some t => return tokens.contains t
  | Option.none => return false

def emptyWith (properties : Properties) : Read Node := do
  if properties.anchor.isNone && properties.tag.isNone then failure
  return scalar properties [] true

def readComma (first : Bool) : Read Unit := do
  if !first then
    match ← peek with
    | some .flowEntry => skip
    | _ => failure

mutual

/-- Reads a node. Block collections are read where `block` says so; without their opening token
entries are read where `indentless` says so. -/
def read (handles : List (List Char × List Char)) : Nat → Bool → Bool → Read Node
  | 0, _, _ => failure
  | fuel + 1, block, indentless => do
    match ← peek with
    | some (.reference name) =>
      skip
      return .reference (← lookup name)
    | _ =>
      let properties ← readProperties handles
      match ← peek with
      | some (.scalar text plain) =>
        skip
        return scalar properties text plain
      | some .flowSequence =>
        skip
        return sequence properties (← readFlowItems handles fuel true)
      | some .flowMapping =>
        skip
        return mapping properties (← readFlowEntries handles fuel true)
      | some .blockSequence =>
        if block then
          skip
          return sequence properties (← readBlockItems handles fuel)
        else emptyWith properties
      | some .blockMapping =>
        if block then
          skip
          return mapping properties (← readBlockEntries handles fuel)
        else emptyWith properties
      | some .blockEntry =>
        if indentless then return sequence properties (← readIndentlessItems handles fuel)
        else emptyWith properties
      | _ => emptyWith properties

def readUnless (handles : List (List Char × List Char)) : Nat → List Token → Bool → Bool → Read Node
  | 0, _, _, _ => failure
  | fuel + 1, ends, block, indentless => do
    if ← nextIsOneOf ends then return missing
    read handles fuel block indentless

def readBlockItems (handles : List (List Char × List Char)) : Nat → Read (List Node)
  | 0 => failure
  | fuel + 1 => do
    match ← peek with
    | some .blockEntry =>
      skip
      let item ← readUnless handles fuel [.blockEntry, .blockEnd] true false
      return item :: (← readBlockItems handles fuel)
    | some .blockEnd =>
      skip
      return []
    | _ => failure

/-- Reads the entries of a sequence that stands at the indentation of the mapping around it. -/
def readIndentlessItems (handles : List (List Char × List Char)) : Nat → Read (List Node)
  | 0 => failure
  | fuel + 1 => do
    match ← peek with
    | some .blockEntry =>
      skip
      let item ← readUnless handles fuel [.blockEntry, .key, .value, .blockEnd] true false
      return item :: (← readIndentlessItems handles fuel)
    | _ => return []

def readBlockEntries (handles : List (List Char × List Char)) : Nat → Read (List (Node × Node))
  | 0 => failure
  | fuel + 1 => do
    match ← peek with
    | some .key =>
      skip
      let key ← readUnless handles fuel [.key, .value, .blockEnd] true true
      let content ← readValue handles fuel [.key, .value, .blockEnd] true
      return (key, content) :: (← readBlockEntries handles fuel)
    | some .blockEnd =>
      skip
      return []
    | _ => failure

def readValue (handles : List (List Char × List Char)) : Nat → List Token → Bool → Read Node
  | 0, _, _ => failure
  | fuel + 1, ends, block => do
    match ← peek with
    | some .value =>
      skip
      readUnless handles fuel ends block block
    | _ => return missing

/-- Reads the items of a flow sequence and its end. A key in it makes an item that is a mapping of one
entry. -/
def readFlowItems (handles : List (List Char × List Char)) : Nat → Bool → Read (List Node)
  | 0, _ => failure
  | fuel + 1, first => do
    match ← peek with
    | some .flowSequenceEnd =>
      skip
      return []
    | _ =>
      readComma first
      match ← peek with
      | some .flowSequenceEnd =>
        skip
        return []
      | some .key =>
        skip
        let entry ← readPair handles fuel
        return mapping .none [entry] :: (← readFlowItems handles fuel false)
      | _ =>
        let item ← read handles fuel false false
        return item :: (← readFlowItems handles fuel false)

/-- Reads the entry of a mapping that is an item of a flow sequence. Where its key is left out, the
token after the key mark goes with it. -/
def readPair (handles : List (List Char × List Char)) : Nat → Read (Node × Node)
  | 0 => failure
  | fuel + 1 => do
    let ends := [.flowEntry, .flowSequenceEnd]
    if ← nextIsOneOf (.value :: ends) then
      skip
      return (missing, ← readValue handles fuel ends false)
    let key ← read handles fuel false false
    return (key, ← readValue handles fuel ends false)

def readFlowEntries (handles : List (List Char × List Char)) : Nat → Bool → Read (List (Node × Node))
  | 0, _ => failure
  | fuel + 1, first => do
    match ← peek with
    | some .flowMappingEnd =>
      skip
      return []
    | _ =>
      readComma first
      match ← peek with
      | some .flowMappingEnd =>
        skip
        return []
      | some .key =>
        skip
        let ends := [.flowEntry, .flowMappingEnd]
        let key ← readUnless handles fuel (.value :: ends) false false
        let content ← readValue handles fuel ends false
        return (key, content) :: (← readFlowEntries handles fuel false)
      | _ =>
        let key ← read handles fuel false false
        return (key, missing) :: (← readFlowEntries handles fuel false)

end

def knownHandles : List (List Char × List Char) :=
  [(['!'], ['!']), (['!', '!'], "tag:yaml.org,2002:".toList)]

/-- Reads directives: at most one version, which must be known, and each handle at most once. -/
def readDirectives (versioned : Bool) (handles : List (List Char × List Char)) :
    List Token → Option (List (List Char × List Char) × List Token)
  | .versionDirective major minor :: rest =>
    if versioned || major != 1 || (minor != 1 && minor != 2) then none
    else readDirectives true handles rest
  | .tagDirective handle start :: rest =>
    if (handles.lookup handle).isSome then none
    else readDirectives versioned ((handle, start) :: handles) rest
  | rest => some (handles, rest)

def endsDocument : List Token → Bool
  | [] => true
  | .versionDirective .. :: _ => true
  | .tagDirective .. :: _ => true
  | .documentStart :: _ => true
  | .documentEnd :: _ => true
  | _ => false

def onlyEnds (tokens : List Token) : Bool := tokens.all (· = .documentEnd)

def readContent (handles : List (List Char × List Char)) (tokens : List Token) : Option Node := do
  let (node, rest) ← (read handles (4 * tokens.length + 4) true false).run ⟨tokens, []⟩
  if onlyEnds rest.tokens then return node else none

/-- The root of the only document of some tokens; `none` inside if there is no document. -/
def ofTokens? (tokens : List Token) : Option (Option Node) :=
  match tokens with
  | [] => some none
  | _ => do
    let (own, rest) ← readDirectives false [] tokens
    let handles := own ++ knownHandles
    match rest with
    | .documentStart :: rest =>
      if endsDocument rest then (if onlyEnds rest then some (some missing) else none)
      else return some (← readContent handles rest)
    | _ => if rest.length < tokens.length then none else return some (← readContent handles rest)

mutual

/-- The number of parsing events of a node: one for a scalar or alias, and two more than its parts for
a collection. -/
def events : Node → Nat
  | scalar .. => 1
  | reference _ => 1
  | sequence _ items => 2 + eventsOfItems items
  | mapping _ entries => 2 + eventsOfEntries entries

def eventsOfItems : List Node → Nat
  | [] => 0
  | item :: rest => events item + eventsOfItems rest

def eventsOfEntries : List (Node × Node) → Nat
  | [] => 0
  | (key, content) :: rest => events key + events content + eventsOfEntries rest

end

def own (properties : Properties) (node : Node) : List (Nat × Node) :=
  match properties.anchor with
  | some number => [(number, node)]
  | Option.none => []

mutual

def anchored : Node → List (Nat × Node)
  | scalar properties text plain => own properties (scalar properties text plain)
  | reference _ => []
  | sequence properties items => own properties (sequence properties items) ++ anchoredItems items
  | mapping properties entries =>
    own properties (mapping properties entries) ++ anchoredEntries entries

def anchoredItems : List Node → List (Nat × Node)
  | [] => []
  | item :: rest => anchored item ++ anchoredItems rest

def anchoredEntries : List (Node × Node) → List (Nat × Node)
  | [] => []
  | (key, content) :: rest => anchored key ++ anchored content ++ anchoredEntries rest

end

end Node
end LintBridge.Yaml
