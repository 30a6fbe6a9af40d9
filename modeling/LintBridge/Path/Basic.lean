import LintBridge.Text.Pieces
/-!
Unix paths as text. A path keeps the text it was written with; what it names is its list of
components, and paths with equal components are the same path. Parents are taken on the text: they
are its beginnings that end with a component. Relative paths and canonical forms are lexical too: no
file system is asked what a `..` leaves.
-/
namespace LintBridge

structure Path where
  text : String
deriving DecidableEq, Inhabited

namespace Path

inductive Component where
  | root
  | current
  | parent
  | name (text : String)
deriving DecidableEq

def Component.text : Component → String
  | root => "/"
  | current => "."
  | parent => ".."
  | name text => text

inductive Start where
  | root
  | current
  | plain
deriving DecidableEq

def Start.chars : Start → List Char
  | root => ['/']
  | current => ['.']
  | plain => []

def parts (p : Path) : Start × List (List Char) :=
  match p.text.toList with
  | '/' :: rest => (.root, Text.pieces '/' rest)
  | '.' :: '/' :: rest => (.current, [] :: Text.pieces '/' rest)
  | ['.'] => (.current, [])
  | text => (.plain, Text.pieces '/' text)

def isIdle (piece : List Char) : Bool := piece.isEmpty || piece = ['.']

def step (piece : List Char) : Component :=
  if piece = ['.', '.'] then .parent else .name (String.ofList piece)

/-- The components: a root or an explicit `.` at the start, then the steps. -/
def components (p : Path) : List Component :=
  let (start, pieces) := p.parts
  let steps := (pieces.filter (!isIdle ·)).map step
  match start with
  | .root => .root :: steps
  | .current => .current :: steps
  | .plain => steps

def same (p q : Path) : Bool := p.components = q.components

def isAbsolute (p : Path) : Bool := p.text.toList.head? = some '/'

def ofParts (start : Start) (pieces : List (List Char)) : Path :=
  ⟨String.ofList (start.chars ++ Text.join '/' pieces)⟩

/-- What is left of reversed pieces once each last step is taken off, nearest first. -/
def shortened : List (List Char) → List (List (List Char))
  | [] => []
  | piece :: rest =>
    if isIdle piece then shortened rest else rest.dropWhile isIdle :: shortened rest

/-- The directories above a path, nearest first: each is the text before a last step, without idle
pieces at its end. The one above `.` is the empty path, and there is none above the root or the empty
path. -/
def parents (p : Path) : List Path :=
  let (start, pieces) := p.parts
  let above := (shortened pieces.reverse).map fun left => ofParts start left.reverse
  if start = .current then above ++ [⟨""⟩] else above

def parent? (p : Path) : Option Path := p.parents.head?

def ancestors (p : Path) : List Path := p :: p.parents

def join (dir : Path) (p : Path) : Path :=
  if p.isAbsolute then p
  else if dir.text.isEmpty || dir.text.toList.getLast? = some '/' then ⟨dir.text ++ p.text⟩
  else ⟨dir.text ++ "/" ++ p.text⟩

def child (dir : Path) (name : String) : Path := dir.join ⟨name⟩

def fileName? (p : Path) : Option String :=
  match p.components.getLast? with
  | some (.name text) => some text
  | _ => none

/-- A file name before and after its last dot. There is no such dot if none stands after the first
character. -/
def splitName (name : String) : String × Option String :=
  match (Text.pieces '.' name.toList).reverse with
  | [] => (name, none)
  | [_] => (name, none)
  | [last, []] => (String.ofList ('.' :: last), none)
  | last :: stem => (String.ofList (Text.join '.' stem.reverse), some (String.ofList last))

def extension? (p : Path) : Option String := p.fileName?.bind fun name => (splitName name).2

def withExtension (p : Path) (extension : String) : Path :=
  match p.fileName? with
  | none => p
  | some name =>
    let (start, pieces) := p.parts
    match pieces.reverse.dropWhile isIdle with
    | [] => p
    | _ :: above =>
      ofParts start (((splitName name).1 ++ "." ++ extension).toList :: above).reverse

def startsWith (p base : Path) : Bool := base.components.isPrefixOf p.components

/-- A relative path joined to a directory step by step: dots are dropped, and `..` takes the last
step off, as long as there is one. An absolute path stays as written. -/
def resolve (dir : Path) (p : String) : String :=
  let path : Path := ⟨p⟩
  if path.isAbsolute then p
  else (path.components.foldl (fun dir c => match c with
    | .current => dir
    | .parent => (dir.parent?).getD dir
    | other => dir.child other.text) dir).text

def isDefinitionFile (p : Path) : Bool := ['.', 'd', '.', 't', 's'].isSuffixOf p.text.toList

def jsExtensions : List (List Char) :=
  [['j', 's'], ['j', 's', 'x'], ['m', 'j', 's'], ['c', 'j', 's']]

def isJsFile (p : Path) : Bool :=
  match p.extension? with
  | some extension => jsExtensions.contains (extension.toList.map Char.toLower)
  | none => false

def up (base : List Component) : List Component := base.map fun _ => .parent

/-- The steps from `base` once the two lists of components have parted. A dot in the base costs no
step; a `..` in it has no known name to go back to, unless the file ends there. -/
def afterParting : List Component → List Component → Option (List Component)
  | file, [] => some file
  | [], base => some (up base)
  | a :: file, b :: base =>
    match b with
    | .current => (afterParting file base).map (a :: ·)
    | .parent => none
    | _ => some (up (b :: base) ++ a :: file)

def stepsFrom : List Component → List Component → Option (List Component)
  | a :: file, b :: base => if a = b then stepsFrom file base else afterParting (a :: file) (b :: base)
  | file, base => afterParting file base

/-- The path from a directory to a file. An absolute file has none from a relative directory but
itself, and a relative file has none from an absolute directory. -/
def relativeTo? (file base : Path) : Option Path :=
  if file.isAbsolute = base.isAbsolute then
    (stepsFrom file.components base.components).map fun steps =>
      steps.foldl (fun path c => path.child c.text) ⟨""⟩
  else if file.isAbsolute then some file
  else none

def unified (text : List Char) : List Char := text.map fun c => if c = '\\' then '/' else c

/-- The segments of a path with the next one taken in; the last segment comes first. -/
def absorbSegment (absolute : Bool) (segments : List (List Char)) (segment : List Char) :
    List (List Char) :=
  if segment = [] ∨ segment = ['.'] then segments
  else if segment = ['.', '.'] then
    match segments with
    | last :: before =>
      if last = ['.', '.'] then (if absolute then segments else segment :: segments) else before
    | [] => if absolute then [] else [segment]
  else segment :: segments

def canonicalChars (text : List Char) : List Char :=
  let unified := unified text
  let absolute := unified.head? = some '/'
  let segments := (Text.pieces '/' unified).foldl (absorbSegment absolute) []
  let joined := Text.join '/' segments.reverse
  if absolute then '/' :: joined else joined

def canonical (text : String) : String := String.ofList (canonicalChars text.toList)

end Path
end LintBridge
