/-!
Cutting a text at a separator. A text with `n` separators has `n + 1` pieces, empty ones included,
and joining the pieces with the separator gives the text back. Pieces are cut out of lists and used as
texts without the blanks around them.
-/
namespace LintBridge.Text

def pieces (separator : Char) : List Char → List (List Char)
  | [] => [[]]
  | c :: rest =>
    if c = separator then [] :: pieces separator rest
    else match pieces separator rest with
      | [] => [[c]]
      | first :: more => (c :: first) :: more

def join (separator : Char) : List (List Char) → List Char
  | [] => []
  | [last] => last
  | first :: second :: more => first ++ separator :: join separator (second :: more)

theorem pieces_ne_nil (separator : Char) (text : List Char) : pieces separator text ≠ [] := by
  cases text with
  | nil => simp [pieces]
  | cons c rest =>
    unfold pieces
    split
    · simp
    · split <;> simp

theorem join_pieces (separator : Char) (text : List Char) :
    join separator (pieces separator text) = text := by
  induction text with
  | nil => simp [pieces, join]
  | cons c rest ih =>
    unfold pieces
    split
    · rename_i h
      subst h
      cases hp : pieces c rest with
      | nil => exact absurd hp (pieces_ne_nil _ _)
      | cons first more => rw [hp] at ih; simp [join, ih]
    · cases hp : pieces separator rest with
      | nil => exact absurd hp (pieces_ne_nil _ _)
      | cons first more =>
        rw [hp] at ih
        cases more with
        | nil => simpa [join] using ih
        | cons second more => simpa [join] using ih

def splitOn (separator : Char) (text : String) : List String :=
  (pieces separator text.toList).map String.ofList

def dropLast? (c : Char) (text : List Char) : List Char :=
  if text.getLast? = some c then text.dropLast else text

/-- The lines of a text: each ends with a line feed, or with a carriage return and a line feed. What
follows the last line feed is a line unless it is empty. -/
def lines (text : List Char) : List (List Char) :=
  let all := pieces '\n' text
  all.dropLast.map (dropLast? '\r') ++ all.getLast?.toList.filter (!·.isEmpty)

def isBlank (c : Char) : Bool :=
  (0x09 ≤ c.val && c.val ≤ 0x0D) || c.val == 0x20 || c.val == 0x85 || c.val == 0xA0
    || c.val == 0x1680 || (0x2000 ≤ c.val && c.val ≤ 0x200A) || c.val == 0x2028
    || c.val == 0x2029 || c.val == 0x202F || c.val == 0x205F || c.val == 0x3000

def trim (text : List Char) : List Char :=
  ((text.dropWhile isBlank).reverse.dropWhile isBlank).reverse

def trimmed (text : String) : String := String.ofList (trim text.toList)

end LintBridge.Text
