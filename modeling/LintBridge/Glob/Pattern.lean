/-!
Glob patterns and how their text is read. `*` and `?` stay inside a directory, `**` between slashes
stands for directories, `[...]` for one byte and `{...}` for one of several patterns.
-/
namespace LintBridge.Glob

inductive Token where
  | literal (c : Char)
  /-- One byte other than a slash. -/
  | one
  /-- Any bytes but slashes. -/
  | run
  /-- Whole directories at the start of a path, or none. -/
  | leading
  /-- A slash, or directories between two slashes. -/
  | between
  /-- A slash and all that follows. -/
  | trailing
  /-- One byte of the ranges, or none of theirs. -/
  | oneOf (negated : Bool) (ranges : List (Char × Char))
  | choice (alternatives : List (List Token))

/-- A branch that is being read: its parts in reverse, and the finished branches before it. -/
structure Branch where
  tokens : List Token
  finished : List (List Token)

/-- What has been read of a pattern: the last character, the branch in hand, and the branches in
which the open groups stand. -/
structure Reader where
  previous : Option Char
  current : Branch
  outer : List Branch

namespace Reader

def start : Reader := ⟨none, ⟨[], []⟩, []⟩

def push (r : Reader) (token : Token) : Reader :=
  { r with current := { r.current with tokens := token :: r.current.tokens } }

def dropPart (r : Reader) : Reader :=
  { r with current := { r.current with tokens := r.current.tokens.tail } }

def after (r : Reader) (c : Char) : Reader := { r with previous := some c }

def opened (r : Reader) : Reader := { r with current := ⟨[], []⟩, outer := r.current :: r.outer }

def nextAlternative (r : Reader) : Reader :=
  { r with current := ⟨[], r.current.tokens.reverse :: r.current.finished⟩ }

def closed? (r : Reader) : Option Reader :=
  match r.outer with
  | [] => none
  | branch :: outer =>
    let alternatives := (r.current.tokens.reverse :: r.current.finished).reverse
    some ({ r with current := branch, outer }.push (.choice alternatives))

end Reader

/-- The end of the last range moved to a character, unless the range would go down. -/
def extendLast? (c : Char) : List (Char × Char) → Option (List (Char × Char))
  | [] => none
  | (first, _) :: ranges => if c < first then none else some ((first, c) :: ranges)

/-- Reads a class up to its closing bracket: the ranges so far in reverse, whether no character has
been read yet, and whether a hyphen waits for the end of its range. -/
def readClass (ranges : List (Char × Char)) (isFirst waiting : Bool) :
    List Char → Option (List (Char × Char) × List Char)
  | [] => none
  | ']' :: rest =>
    if isFirst then readClass ((']', ']') :: ranges) false waiting rest
    else some ((if waiting then ('-', '-') :: ranges else ranges).reverse, rest)
  | '-' :: rest =>
    if isFirst then readClass (('-', '-') :: ranges) false waiting rest
    else if waiting then do readClass (← extendLast? '-' ranges) false false rest
    else readClass ranges false true rest
  | c :: rest =>
    if waiting then do readClass (← extendLast? c ranges) false false rest
    else readClass ((c, c) :: ranges) false false rest

def readClassToken : List Char → Option (Token × List Char)
  | [] => none
  | c :: rest =>
    if c = '!' || c = '^' then
      (readClass [] true false rest).map fun (ranges, rest) => (.oneOf true ranges, rest)
    else (readClass [] true false (c :: rest)).map fun (ranges, rest) => (.oneOf false ranges, rest)

/-- Two runs, which is what two stars mean where they are no directories. -/
def Reader.twoRuns (r : Reader) : Reader := ((r.push .run).push .run).after '*'

/-- Takes in two stars, of which `previous` is the character before and `text` the rest after. With a
slash or the end on both sides they stand for directories and take the slash in. -/
def Reader.twoStars (r : Reader) (text : List Char) : Reader × List Char :=
  if r.current.tokens.isEmpty then
    match text with
    | [] => ((r.push .leading).after '*', [])
    | '/' :: rest => ((r.push .leading).after '/', rest)
    | _ => (r.twoRuns, text)
  else if r.previous != some '/'
      && (r.outer.isEmpty || (r.previous != some ',' && r.previous != some '{')) then
    (r.twoRuns, text)
  else
    let replaceLast (token : Token) : Reader :=
      match r.current.tokens.head? with
      | some .leading => r.dropPart.push .leading
      | some .trailing => r.dropPart.push .trailing
      | _ => r.dropPart.push token
    match text with
    | [] => ((replaceLast .trailing).after '*', [])
    | '/' :: rest => ((replaceLast .between).after '/', rest)
    | c :: _ =>
      if (c = ',' || c = '}') && !r.outer.isEmpty then ((replaceLast .trailing).after '*', text)
      else (r.twoRuns, text)

def read : Nat → Reader → List Char → Option (List Token)
  | 0, _, _ => none
  | _ + 1, r, [] => if r.outer.isEmpty then some r.current.tokens.reverse else none
  | fuel + 1, r, c :: rest =>
    if c = '?' then read fuel ((r.push .one).after c) rest
    else if c = '*' then
      match rest with
      | '*' :: rest =>
        let (r, rest) := r.twoStars rest
        read fuel r rest
      | _ => read fuel ((r.push .run).after c) rest
    else if c = '[' then do
      let (token, rest) ← readClassToken rest
      read fuel ((r.push token).after ']') rest
    else if c = '{' then read fuel (r.opened.after c) rest
    else if c = '}' then do read fuel ((← r.closed?).after c) rest
    else if c = ',' && !r.outer.isEmpty then read fuel (r.nextAlternative.after c) rest
    else if c = '\\' then
      match rest with
      | [] => none
      | escaped :: rest => read fuel ((r.push (.literal escaped)).after escaped) rest
    else read fuel ((r.push (.literal c)).after c) rest

/-- The parts of a pattern; there are none if its brackets or braces do not match, a range goes down,
or a backslash stands at its end. -/
def parse? (pattern : String) : Option (List Token) :=
  let text := pattern.toList
  read (text.length + 1) .start text

end LintBridge.Glob
