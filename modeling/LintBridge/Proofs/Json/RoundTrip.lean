import LintBridge.Json.Printer
import LintBridge.Proofs.Json.Number
import LintBridge.Proofs.Json.Skipping
/-!
Reading what was printed. The strict reader gets back each value from its text without blanks, as
long as the value has no floating-point number, no integer of more than 64 bits and not more levels
than the reader allows. Of an object it gets back the members that its shape asks for
(`readStrict?_compact_obj`).
-/
namespace LintBridge.Json

mutual

/-- A value that its text gives back: without a floating-point number, without an integer of more
than 64 bits, and with fewer than `depth` levels. -/
def Plain (depth : Nat) : Json → Prop
  | int n => Fits n
  | float _ => False
  | arr items => 1 < depth ∧ PlainItems (depth - 1) items
  | obj members => 1 < depth ∧ PlainMembers (depth - 1) members
  | _ => True

def PlainItems (depth : Nat) : List Json → Prop
  | [] => True
  | item :: rest => Plain depth item ∧ PlainItems depth rest

def PlainMembers (depth : Nat) : List (String × Json) → Prop
  | [] => True
  | (_, content) :: rest => Plain depth content ∧ PlainMembers depth rest

end

def Shape.Flat (shape : Shape) : Prop :=
  shape.isSkipped = false ∧ ∀ name, shape.member name = .whole ∨ shape.member name = .skipped

theorem Shape.flat_whole : Shape.Flat .whole := ⟨rfl, fun _ => .inl rfl⟩

theorem Shape.member_record (names : List String) (positions : List Shape) (name : String) :
    (Shape.record (names.map fun name => (name, .whole)) positions).member name =
      if name ∈ names then .whole else .skipped := by
  induction names with
  | nil => rfl
  | cons first names ih =>
    simp only [Shape.member] at ih ⊢
    by_cases same : name = first
    · simp [same]
    · have other : (name == first) = false := by simp [same]
      simp [List.lookup_cons, other, same, ih]

theorem Shape.flat_record (names : List String) (positions : List Shape) :
    (Shape.record (names.map fun name => (name, .whole)) positions).Flat := by
  refine ⟨rfl, fun name => ?_⟩
  rw [Shape.member_record]
  split
  · exact .inl rfl
  · exact .inr rfl

theorem plainItems_iff {depth : Nat} {vs : List Json} :
    PlainItems depth vs ↔ ∀ v ∈ vs, Plain depth v := by
  induction vs with
  | nil => simp [PlainItems]
  | cons v vs ih => simp [PlainItems, ih]

namespace Strict

/-! ### Strings -/

theorem string_quote (read rest : List Char) :
    string read ('"' :: rest) = some (String.ofList read.reverse, rest) := by
  rw [string]

theorem string_plain {c : Char} (no_quote : c ≠ '"') (no_escape : c ≠ '\\')
    (visible : ¬ c.val < 0x20) (read rest : List Char) :
    string read (c :: rest) = string (c :: read) rest := by
  rw [string, if_neg visible]
  · exact no_quote
  · exact fun _ _ _ _ _ _ _ _ _ escape => absurd escape no_escape
  · exact fun _ _ _ _ _ escape => absurd escape no_escape
  · exact fun _ _ escape => absurd escape no_escape

theorem string_escape {e c : Char} (names : escape? e = some c) (read rest : List Char) :
    string read ('\\' :: e :: rest) = string (c :: read) rest := by
  have no_unit : e ≠ 'u' := by
    rintro rfl
    simp [escape?] at names
  rw [string, names]
  · rfl
  · exact fun _ _ _ _ _ _ _ _ _ unit => absurd unit no_unit
  · exact fun _ _ _ _ _ unit => absurd unit no_unit

theorem string_unit {a b c d : Char} {unit : Nat} (denotes : unit? a b c d = some unit)
    (single : isHigh unit = false ∧ isLow unit = false) (read rest : List Char) :
    string read ('\\' :: 'u' :: a :: b :: c :: d :: rest) =
      string (Char.ofNat unit :: read) rest := by
  obtain ⟨no_high, no_low⟩ := single
  -- The reader has a case of its own for two escapes in a row, as they may be a pair.
  by_cases pair : ∃ e f g h after, rest = '\\' :: 'u' :: e :: f :: g :: h :: after
  · obtain ⟨e, f, g, h, after, rfl⟩ := pair
    rw [string, denotes]
    simp only [Option.bind_eq_bind, Option.bind_some, no_high, no_low, Bool.false_eq_true, if_false]
  · rw [string, denotes]
    · simp only [Option.bind_eq_bind, Option.bind_some, no_high, no_low, Bool.or_self,
        Bool.false_eq_true, if_false]
    · exact fun e f g h after rest_eq => pair ⟨e, f, g, h, after, rest_eq⟩

theorem unit?_hexDigit (n : Fin 32) :
    unit? '0' '0' (hexDigit (n / 16)) (hexDigit (n % 16)) = some n.val := by
  revert n
  decide

theorem string_escapeChar (c : Char) (read rest : List Char) :
    string read (escapeChar c ++ rest) = string (c :: read) rest := by
  unfold escapeChar
  by_cases quote : c = '"'
  · rw [if_pos quote, quote]
    exact string_escape rfl read rest
  rw [if_neg quote]
  by_cases backslash : c = '\\'
  · rw [if_pos backslash, backslash]
    exact string_escape rfl read rest
  rw [if_neg backslash]
  by_cases newline : c = '\n'
  · rw [if_pos newline, newline]
    exact string_escape rfl read rest
  rw [if_neg newline]
  by_cases carriage : c = '\r'
  · rw [if_pos carriage, carriage]
    exact string_escape rfl read rest
  rw [if_neg carriage]
  by_cases tab : c = '\t'
  · rw [if_pos tab, tab]
    exact string_escape rfl read rest
  rw [if_neg tab]
  by_cases backspace : c.val = 0x08
  · obtain rfl : c = '\x08' := Char.ext backspace
    exact string_escape rfl read rest
  rw [if_neg backspace]
  by_cases feed : c.val = 0x0C
  · obtain rfl : c = '\x0c' := Char.ext feed
    exact string_escape rfl read rest
  rw [if_neg feed]
  by_cases control : c.val < 0x20
  · rw [if_pos control]
    have small : c.toNat < 32 := control
    have single : isHigh c.toNat = false ∧ isLow c.toNat = false := by
      simp [isHigh, isLow]
      omega
    have reads := string_unit (unit?_hexDigit ⟨c.toNat, small⟩) single read rest
    rwa [Char.ofNat_toNat] at reads
  · rw [if_neg control]
    exact string_plain quote backslash control read rest

/-- A string is read back from its text in quotes, once the first quote has been read. -/
theorem string_escaped (text read rest : List Char) :
    string read (text.flatMap escapeChar ++ '"' :: rest) =
      some (String.ofList (read.reverse ++ text), rest) := by
  induction text generalizing read with
  | nil => rw [List.flatMap_nil, List.nil_append, string_quote, List.append_nil]
  | cons c text ih =>
    rw [List.flatMap_cons, List.append_assoc, string_escapeChar, ih, List.reverse_cons,
      List.append_assoc]
    rfl

/-! ### Values -/

theorem value_string (fuel depth : Nat) (text rest : List Char) :
    value (fuel + 1) depth .whole ('"' :: (text.flatMap escapeChar ++ '"' :: rest)) =
      some (str (String.ofList text), rest) := by
  rw [value, skipBlanks_cons rfl]
  simp [Shape.isSkipped, string_escaped]

theorem compact_starts {depth : Nat} (v : Json) (plain : Plain depth v) :
    ∃ c tail, v.compact.toList = c :: tail ∧ isBlank c = false ∧ c ≠ ']' := by
  cases v with
  | null => exact ⟨'n', "ull".toList, rfl, rfl, by decide⟩
  | bool value =>
    cases value with
    | true => exact ⟨'t', "rue".toList, rfl, rfl, by decide⟩
    | false => exact ⟨'f', "alse".toList, rfl, rfl, by decide⟩
  | int n =>
    obtain ⟨c, tail, text_eq, starts⟩ := toString_starts n
    exact ⟨c, tail, text_eq, start_visible starts, start_ne starts ']' (by decide)⟩
  | float bits => exact plain.elim
  | str text => exact ⟨'"', _, by simp [compact, quoted]; rfl, rfl, by decide⟩
  | arr items => exact ⟨'[', _, by simp [compact]; rfl, rfl, by decide⟩
  | obj members => exact ⟨'\x7b', _, by simp [compact]; rfl, rfl, by decide⟩

theorem compactMembers_cons (name : String) (content : Json) (more : List (String × Json)) :
    (compactMembers ((name, content) :: more)).toList =
      '"' :: (name.toList.flatMap escapeChar ++ '"' :: ':' :: (content.compact.toList ++
        if more.isEmpty then [] else ',' :: (compactMembers more).toList)) := by
  cases more <;> simp [compactMembers, quoted]

theorem compactItems_cons (item : Json) (more : List Json) :
    (compactItems (item :: more)).toList =
      item.compact.toList ++ if more.isEmpty then [] else ',' :: (compactItems more).toList := by
  cases more <;> simp [compactItems]

theorem flatMap_kept_whole (ms : List (String × Json)) : ms.flatMap (kept .whole) = ms := by
  induction ms with
  | nil => rfl
  | cons m ms ih => rw [List.flatMap_cons, ih]; rfl

theorem content_compact {shape : Shape} (flat : shape.Flat) {fuel depth : Nat}
    {text rest : List Char} {content : Json}
    (read : value fuel depth .whole text = some (content, rest)) (name : String) :
    ∃ read, value fuel depth (shape.member name) text = some (read, rest) ∧
      kept shape (name, read) = kept shape (name, content) := by
  rcases flat.2 name with whole | skipped
  · exact ⟨content, whole ▸ read, rfl⟩
  · obtain ⟨skim, skim_eq⟩ := (skips fuel).1 read depth
    exact ⟨skim, skipped ▸ skim_eq, by simp [kept, skipped, Shape.isSkipped]⟩

theorem value_array {depth fuel : Nat} {rest : List Char} {vs : List Json}
    (plain : Plain depth (arr vs))
    (reads : vs ≠ [] →
      items fuel (depth - 1) [] .whole ((compactItems vs).toList ++ ']' :: rest) =
        some (vs, rest)) :
    value (fuel + 1) depth .whole ((arr vs).compact.toList ++ rest) = some (arr vs, rest) := by
  have shallow : ¬ depth ≤ 1 := Nat.not_le.mpr plain.1
  have text_eq : (arr vs).compact.toList ++ rest =
      '[' :: ((compactItems vs).toList ++ ']' :: rest) := by
    simp [compact]
  rw [text_eq, value, skipBlanks_cons rfl]
  simp only [Char.reduceEq, if_false, if_true, shallow, decide_false, Bool.false_and,
    Bool.false_eq_true, Shape.items]
  cases vs with
  | nil => rfl
  | cons item more =>
    have read := reads (List.cons_ne_nil item more)
    obtain ⟨c, tail, starts, visible, no_end⟩ := compact_starts item plain.2.1
    rw [compactItems_cons, starts, List.cons_append, List.cons_append] at read ⊢
    rw [skipBlanks_cons visible]
    split
    · rename_i closed
      exact absurd (List.cons.inj closed).1 no_end
    · rw [read]
      rfl

theorem value_object {depth fuel : Nat} {rest : List Char} {shape : Shape}
    (needed : shape.isSkipped = false) {ms : List (String × Json)} (levels : 1 < depth)
    (reads : ms ≠ [] →
      members fuel (depth - 1) shape ((compactMembers ms).toList ++ '\x7d' :: rest) =
        some (ms.flatMap (kept shape), rest)) :
    value (fuel + 1) depth shape ((obj ms).compact.toList ++ rest) =
      some (obj (ms.flatMap (kept shape)), rest) := by
  have shallow : ¬ depth ≤ 1 := Nat.not_le.mpr levels
  have text_eq : (obj ms).compact.toList ++ rest =
      '\x7b' :: ((compactMembers ms).toList ++ '\x7d' :: rest) := by
    simp [compact]
  rw [text_eq, value, skipBlanks_cons rfl]
  simp only [Char.reduceEq, if_false, if_true, shallow, decide_false, Bool.false_and,
    Bool.false_eq_true, needed]
  cases ms with
  | nil => rfl
  | cons m more =>
    have read := reads (List.cons_ne_nil m more)
    rw [compactMembers_cons, List.cons_append] at read ⊢
    rw [skipBlanks_cons rfl]
    split
    · rename_i closed
      exact absurd (List.cons.inj closed).1 (by decide)
    · rw [read]
      rfl

-- The recursion is the reader's own, on its fuel: a step for each value and one for its place among
-- others. No value has an empty text, so twice the length of the text is enough.
mutual

theorem value_compact {depth fuel : Nat} {rest : List Char} (v : Json) (plain : Plain depth v)
    (enough : 2 * v.compact.toList.length ≤ fuel) (ends : Ends rest) :
    value fuel depth .whole (v.compact.toList ++ rest) = some (v, rest) := by
  obtain ⟨fuel, rfl⟩ : ∃ less, fuel = less + 1 := by
    obtain ⟨c, tail, text_eq, -, -⟩ := compact_starts v plain
    rw [text_eq, List.length_cons] at enough
    exact ⟨fuel - 1, by omega⟩
  cases v with
  | null => rfl
  | bool value => cases value <;> rfl
  | int n =>
    obtain ⟨c, tail, text_eq, starts⟩ := toString_starts n
    have read := number_toString plain ends
    rw [text_eq, List.cons_append] at read
    rw [compact, text_eq, List.cons_append, value_number starts, read]
  | float bits => exact plain.elim
  | str text =>
    have text_eq : (str text).compact.toList ++ rest =
        '"' :: (text.toList.flatMap escapeChar ++ '"' :: rest) := by
      simp [compact, quoted]
    rw [text_eq, value_string, String.ofList_toList]
  | arr vs =>
    simp only [compact, String.toList_append, List.length_append] at enough
    exact value_array plain fun nonempty =>
      items_compact nonempty plain.2 (by simp at enough; omega)
  | obj ms =>
    simp only [compact, String.toList_append, List.length_append] at enough
    rw [value_object rfl plain.1 fun nonempty =>
      members_compact Shape.flat_whole nonempty plain.2 (by simp at enough; omega),
      flatMap_kept_whole]
termination_by fuel

theorem items_compact {depth fuel : Nat} {rest : List Char} {vs : List Json} (nonempty : vs ≠ [])
    (plain : PlainItems depth vs) (enough : 2 * (compactItems vs).toList.length + 1 ≤ fuel) :
    items fuel depth [] .whole ((compactItems vs).toList ++ ']' :: rest) = some (vs, rest) := by
  obtain ⟨fuel, rfl⟩ : ∃ less, fuel = less + 1 := ⟨fuel - 1, by omega⟩
  obtain ⟨item, more, rfl⟩ := List.exists_cons_of_ne_nil nonempty
  rw [compactItems_cons, List.length_append] at enough
  rw [items_eq_some_iff, compactItems_cons, List.append_assoc]
  cases more with
  | nil =>
    exact ⟨item, ']' :: rest, value_compact item plain.1 (by omega) (ends_cons (by simp) rest),
      .inl ⟨rfl, rfl⟩⟩
  | cons next more =>
    rw [List.isEmpty_cons, if_neg Bool.false_ne_true, List.length_cons] at enough
    exact ⟨item, _, value_compact item plain.1 (by omega) (ends_cons (by simp) _),
      .inr ⟨_, next :: more, rfl, items_compact (List.cons_ne_nil _ _) plain.2 (by omega), rfl⟩⟩
termination_by fuel

theorem members_compact {depth fuel : Nat} {rest : List Char} {shape : Shape} (flat : shape.Flat)
    {ms : List (String × Json)} (nonempty : ms ≠ []) (plain : PlainMembers depth ms)
    (enough : 2 * (compactMembers ms).toList.length + 1 ≤ fuel) :
    members fuel depth shape ((compactMembers ms).toList ++ '\x7d' :: rest) =
      some (ms.flatMap (kept shape), rest) := by
  obtain ⟨fuel, rfl⟩ : ∃ less, fuel = less + 1 := ⟨fuel - 1, by omega⟩
  obtain ⟨⟨name, content⟩, more, rfl⟩ := List.exists_cons_of_ne_nil nonempty
  have named (after : List Char) :
      Named shape (name.toList.flatMap escapeChar ++ '"' :: after) name after := by
    simp [Named, flat.1, string_escaped]
  rw [compactMembers_cons] at enough ⊢
  simp only [List.length_cons, List.length_append] at enough
  simp only [List.cons_append, List.append_assoc]
  rw [members_eq_some_iff]
  have content_read {after : List Char} (ends : Ends after) := content_compact flat
    (value_compact content plain.1 (by omega : _ ≤ fuel) ends) name
  cases more with
  | nil =>
    obtain ⟨read, read_eq, kept_eq⟩ := content_read (ends_cons (c := '\x7d') (by simp) rest)
    exact ⟨_, name, _, _, read, _, skipBlanks_cons rfl _, named _, skipBlanks_cons rfl _, read_eq,
      .inl ⟨rfl, by simp [kept_eq]⟩⟩
  | cons next more =>
    rw [List.isEmpty_cons, if_neg Bool.false_ne_true, List.length_cons] at enough
    obtain ⟨read, read_eq, kept_eq⟩ := content_read (ends_cons (c := ',') (by simp)
      ((compactMembers (next :: more)).toList ++ '\x7d' :: rest))
    exact ⟨_, name, _, _, read, _, skipBlanks_cons rfl _, named _, skipBlanks_cons rfl _, read_eq,
      .inr ⟨_, _, skipBlanks_cons rfl _,
        members_compact flat (List.cons_ne_nil _ _) plain.2 (by omega), by simp [kept_eq]⟩⟩
termination_by fuel

end

end Strict

theorem readStrict?_compact_obj {shape : Shape} (flat : shape.Flat) {ms : List (String × Json)}
    (plain : Plain 128 (obj ms)) :
    readStrict? shape (obj ms).compact = some (obj (ms.flatMap (Strict.kept shape))) := by
  have read : Strict.value (2 * (obj ms).compact.toList.length + 2) 128 shape
      ((obj ms).compact.toList ++ []) = some (obj (ms.flatMap (Strict.kept shape)), []) :=
    Strict.value_object flat.1 plain.1 fun nonempty =>
      Strict.members_compact flat nonempty plain.2 (by simp [compact]; omega)
  rw [List.append_nil] at read
  exact Option.bind_eq_some_iff.mpr ⟨_, read, rfl⟩

end LintBridge.Json
