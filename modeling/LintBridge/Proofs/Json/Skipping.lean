import LintBridge.Json.Strict
/-!
Skipping what does not matter. The strict reader passes over every text that it could read, and ends
at the same place (`skips`).
-/
namespace LintBridge.Json.Strict

theorem skipString_of_string {read text rest : List Char} {s : String}
    (reads : string read text = some (s, rest)) : skipString text = some rest := by
  fun_induction string read text with
  | case1 => cases reads
  | case2 =>
    obtain ⟨-, rfl⟩ := Prod.mk.inj (Option.some.inj reads)
    rw [skipString]
  | case3 read a b c d e f g h after of_pair of_single =>
    obtain ⟨first, first_eq, reads⟩ := Option.bind_eq_some_iff.mp reads
    rw [skipString, Option.bind_eq_bind, first_eq, Option.bind_some]
    split at reads
    · obtain ⟨second, second_eq, reads⟩ := Option.bind_eq_some_iff.mp reads
      split at reads
      · rw [skipString, Option.bind_eq_bind, second_eq, Option.bind_some]
        exact of_pair first second reads
      · cases reads
    · split at reads
      · cases reads
      · exact of_single first reads
  | case4 read a b c d after no_pair of_single =>
    obtain ⟨first, first_eq, reads⟩ := Option.bind_eq_some_iff.mp reads
    rw [skipString, Option.bind_eq_bind, first_eq, Option.bind_some]
    split at reads
    · cases reads
    · exact of_single first reads
  | case5 read c after no_pair no_unit of_escape =>
    obtain ⟨escaped, escaped_eq, reads⟩ := Option.bind_eq_some_iff.mp reads
    rw [skipString, Option.bind_eq_bind, escaped_eq, Option.bind_some]
    · exact of_escape escaped reads
    · exact no_unit
  | case6 => cases reads
  | case7 read c after no_quote no_pair no_unit no_escape visible of_plain =>
    rw [skipString, if_neg visible]
    · exact of_plain reads
    · exact no_quote
    · exact no_unit
    · exact no_escape

theorem number_skipped {shape : Shape} {text rest : List Char} {v : Json}
    (reads : number shape text = some (v, rest)) : number .skipped text = some (null, rest) := by
  unfold number at reads ⊢
  obtain ⟨⟨l, after⟩, l_eq, reads⟩ := Option.bind_eq_some_iff.mp reads
  have same : after = rest := by
    dsimp only at reads
    split at reads
    · exact congrArg Prod.snd (Option.some.inj reads)
    · obtain ⟨value, -, reads⟩ := Option.bind_eq_some_iff.mp reads
      exact congrArg Prod.snd (Option.some.inj reads)
  rw [← same]
  exact Option.bind_eq_some_iff.mpr ⟨(l, after), l_eq, rfl⟩

theorem items_eq_some_iff {fuel depth : Nat} {firsts : List Shape} {others : Shape}
    {text rest : List Char} {vs : List Json} :
    items (fuel + 1) depth firsts others text = some (vs, rest) ↔
      ∃ item after, value fuel depth (firsts.headD others) text = some (item, after) ∧
        (skipBlanks after = ']' :: rest ∧ vs = [item] ∨
          ∃ next more, skipBlanks after = ',' :: next ∧
            items fuel depth firsts.tail others next = some (more, rest) ∧ vs = item :: more) := by
  rw [items]
  constructor
  · intro reads
    obtain ⟨⟨item, after⟩, item_eq, reads⟩ := Option.bind_eq_some_iff.mp reads
    refine ⟨item, after, item_eq, ?_⟩
    dsimp only at reads
    split at reads
    · obtain ⟨rfl, rfl⟩ := Prod.mk.inj (Option.some.inj reads)
      exact .inl ⟨‹_›, rfl⟩
    · obtain ⟨⟨more, after⟩, more_eq, reads⟩ := Option.bind_eq_some_iff.mp reads
      obtain ⟨rfl, rfl⟩ := Prod.mk.inj (Option.some.inj reads)
      exact .inr ⟨_, more, ‹_›, more_eq, rfl⟩
    · cases reads
  · rintro ⟨item, after, item_eq, ⟨closing, rfl⟩ | ⟨next, more, comma, more_eq, rfl⟩⟩
    · simp only [Option.bind_eq_bind, item_eq, Option.bind_some, closing]
    · simp only [Option.bind_eq_bind, item_eq, Option.bind_some, comma, more_eq]
      rfl

def kept (shape : Shape) (m : String × Json) : List (String × Json) :=
  if (shape.member m.1).isSkipped then [] else [m]

def Named (shape : Shape) (quoted : List Char) (name : String) (after : List Char) : Prop :=
  if shape.isSkipped then skipString quoted = some after ∧ name = ""
  else string [] quoted = some (name, after)

theorem bind_named_eq_some_iff {α : Type} {shape : Shape} {quoted : List Char}
    {next : String × List Char → Option α} {read : α} :
    (if shape.isSkipped then ((skipString quoted).map fun rest => ("", rest)).bind next
      else (string [] quoted).bind next) = some read ↔
      ∃ name after, Named shape quoted name after ∧ next (name, after) = some read := by
  constructor
  · intro reads
    split at reads
    · rename_i skipped
      obtain ⟨named, named_eq, reads⟩ := Option.bind_eq_some_iff.mp reads
      obtain ⟨after, after_eq, rfl⟩ := Option.map_eq_some_iff.mp named_eq
      exact ⟨"", after, by simp [Named, skipped, after_eq], reads⟩
    · rename_i needed
      obtain ⟨⟨name, after⟩, named_eq, reads⟩ := Option.bind_eq_some_iff.mp reads
      exact ⟨name, after, by simp [Named, needed, named_eq], reads⟩
  · rintro ⟨name, after, named, reads⟩
    unfold Named at named
    split at named
    · obtain ⟨skipped_eq, rfl⟩ := named
      rw [if_pos ‹_›, skipped_eq]
      exact reads
    · rw [if_neg ‹_›, named]
      exact reads

theorem members_eq_some_iff {fuel depth : Nat} {shape : Shape} {text rest : List Char}
    {ms : List (String × Json)} :
    members (fuel + 1) depth shape text = some (ms, rest) ↔
      ∃ quoted name colon start content after,
        skipBlanks text = '"' :: quoted ∧ Named shape quoted name colon ∧
        skipBlanks colon = ':' :: start ∧
        value fuel depth (shape.member name) start = some (content, after) ∧
        (skipBlanks after = '\x7d' :: rest ∧ ms = kept shape (name, content) ∨
          ∃ next more, skipBlanks after = ',' :: next ∧
            members fuel depth shape next = some (more, rest) ∧
            ms = kept shape (name, content) ++ more) := by
  rw [members]
  constructor
  · intro reads
    split at reads
    · rename_i quoted quote_eq
      obtain ⟨name, colon, named, reads⟩ := bind_named_eq_some_iff.mp reads
      dsimp only at reads
      split at reads
      · rename_i start colon_eq
        obtain ⟨⟨content, after⟩, content_eq, reads⟩ := Option.bind_eq_some_iff.mp reads
        refine ⟨quoted, name, colon, start, content, after, quote_eq, named, colon_eq, content_eq,
          ?_⟩
        dsimp only at reads
        split at reads
        · obtain ⟨rfl, rfl⟩ := Prod.mk.inj (Option.some.inj reads)
          exact .inl ⟨‹_›, rfl⟩
        · obtain ⟨⟨more, after⟩, more_eq, reads⟩ := Option.bind_eq_some_iff.mp reads
          obtain ⟨rfl, rfl⟩ := Prod.mk.inj (Option.some.inj reads)
          exact .inr ⟨_, more, ‹_›, more_eq, rfl⟩
        · cases reads
      · cases reads
    · cases reads
  · rintro ⟨quoted, name, colon, start, content, after, quote_eq, named, colon_eq, content_eq,
      goes_on⟩
    simp only [quote_eq]
    refine bind_named_eq_some_iff.mpr ⟨name, colon, named, ?_⟩
    rcases goes_on with ⟨closing, rfl⟩ | ⟨next, more, comma, more_eq, rfl⟩
    · simp only [colon_eq, content_eq, closing, Option.bind_eq_bind, Option.bind_some]
      rfl
    · simp only [colon_eq, content_eq, comma, more_eq, Option.bind_eq_bind, Option.bind_some]
      rfl

section Step
variable {fuel : Nat}
  (value_skips : ∀ {depth shape text v rest}, value fuel depth shape text = some (v, rest) →
    ∀ depth, ∃ read, value fuel depth .skipped text = some (read, rest))
  (items_skips : ∀ {depth firsts others text vs rest},
    items fuel depth firsts others text = some (vs, rest) →
    ∀ depth, ∃ read, items fuel depth [] .skipped text = some (read, rest))
  (members_skips : ∀ {depth shape text ms rest},
    members fuel depth shape text = some (ms, rest) →
    ∀ depth, ∃ read, members fuel depth .skipped text = some (read, rest))

include items_skips members_skips in
theorem value_skipped {depth : Nat} {shape : Shape} {text rest : List Char} {v : Json}
    (reads : value (fuel + 1) depth shape text = some (v, rest)) (depth' : Nat) :
    ∃ read, value (fuel + 1) depth' .skipped text = some (read, rest) := by
  rw [value] at reads ⊢
  cases start : skipBlanks text with
  | nil =>
    rw [start] at reads
    cases reads
  | cons c after =>
    simp only [start] at reads ⊢
    have skipped : Shape.skipped.isSkipped = true := rfl
    have not_deep : (decide (depth' ≤ 1) && !Shape.skipped.isSkipped) = false := Bool.and_false _
    have no_item : Shape.skipped.items = ([], .skipped) := rfl
    rw [not_deep, no_item]
    by_cases quote : c = '"'
    · rw [if_pos quote] at reads ⊢
      rw [if_pos skipped]
      split at reads
      · exact ⟨v, reads⟩
      · obtain ⟨⟨s, after⟩, read_eq, pair_eq⟩ := Option.map_eq_some_iff.mp reads
        obtain ⟨-, rfl⟩ := Prod.mk.inj pair_eq
        exact ⟨null, by rw [skipString_of_string read_eq]; rfl⟩
    rw [if_neg quote] at reads ⊢
    by_cases is_null : c = 'n'
    · rw [if_pos is_null] at reads ⊢
      exact ⟨v, reads⟩
    rw [if_neg is_null] at reads ⊢
    by_cases is_true : c = 't'
    · rw [if_pos is_true] at reads ⊢
      exact ⟨v, reads⟩
    rw [if_neg is_true] at reads ⊢
    by_cases is_false : c = 'f'
    · rw [if_pos is_false] at reads ⊢
      exact ⟨v, reads⟩
    rw [if_neg is_false] at reads ⊢
    by_cases bracket : c = '['
    · rw [if_pos bracket] at reads ⊢
      rw [if_neg Bool.false_ne_true]
      split at reads
      · cases reads
      split at reads
      · exact ⟨_, reads⟩
      · obtain ⟨⟨vs, after⟩, read_eq, pair_eq⟩ := Option.map_eq_some_iff.mp reads
        obtain ⟨-, rfl⟩ := Prod.mk.inj pair_eq
        obtain ⟨read, read_eq⟩ := items_skips read_eq (depth' - 1)
        exact ⟨arr read, Option.map_eq_some_iff.mpr ⟨_, read_eq, rfl⟩⟩
    rw [if_neg bracket] at reads ⊢
    by_cases brace : c = '\x7b'
    · rw [if_pos brace] at reads ⊢
      rw [if_neg Bool.false_ne_true]
      split at reads
      · cases reads
      split at reads
      · exact ⟨_, reads⟩
      · obtain ⟨⟨ms, after⟩, read_eq, pair_eq⟩ := Option.map_eq_some_iff.mp reads
        obtain ⟨-, rfl⟩ := Prod.mk.inj pair_eq
        obtain ⟨read, read_eq⟩ := members_skips read_eq (depth' - 1)
        exact ⟨obj read, Option.map_eq_some_iff.mpr ⟨_, read_eq, rfl⟩⟩
    rw [if_neg brace] at reads ⊢
    exact ⟨null, number_skipped reads⟩

include value_skips items_skips in
theorem items_skipped {depth : Nat} {firsts : List Shape} {others : Shape} {text rest : List Char}
    {vs : List Json} (reads : items (fuel + 1) depth firsts others text = some (vs, rest))
    (depth' : Nat) : ∃ read, items (fuel + 1) depth' [] .skipped text = some (read, rest) := by
  obtain ⟨item, after, item_eq, goes_on⟩ := items_eq_some_iff.mp reads
  obtain ⟨read, read_eq⟩ := value_skips item_eq depth'
  rcases goes_on with ⟨closing, -⟩ | ⟨next, more, comma, more_eq, -⟩
  · exact ⟨_, items_eq_some_iff.mpr ⟨read, after, read_eq, .inl ⟨closing, rfl⟩⟩⟩
  · obtain ⟨others_read, others_eq⟩ := items_skips more_eq depth'
    exact ⟨_, items_eq_some_iff.mpr ⟨read, after, read_eq,
      .inr ⟨next, others_read, comma, others_eq, rfl⟩⟩⟩

theorem Named.skipped {shape : Shape} {quoted after : List Char} {name : String}
    (named : Named shape quoted name after) : Named .skipped quoted "" after := by
  unfold Named at named
  split at named
  · exact ⟨named.1, rfl⟩
  · exact ⟨skipString_of_string named, rfl⟩

include value_skips members_skips in
theorem members_skipped {depth : Nat} {shape : Shape} {text rest : List Char}
    {ms : List (String × Json)} (reads : members (fuel + 1) depth shape text = some (ms, rest))
    (depth' : Nat) : ∃ read, members (fuel + 1) depth' .skipped text = some (read, rest) := by
  obtain ⟨quoted, name, colon, start, content, after, quote_eq, named, colon_eq, content_eq,
    goes_on⟩ := members_eq_some_iff.mp reads
  obtain ⟨read, read_eq⟩ := value_skips content_eq depth'
  rcases goes_on with ⟨closing, -⟩ | ⟨next, more, comma, more_eq, -⟩
  · exact ⟨_, members_eq_some_iff.mpr ⟨quoted, "", colon, start, read, after, quote_eq,
      named.skipped, colon_eq, read_eq, .inl ⟨closing, rfl⟩⟩⟩
  · obtain ⟨others_read, others_eq⟩ := members_skips more_eq depth'
    exact ⟨_, members_eq_some_iff.mpr ⟨quoted, "", colon, start, read, after, quote_eq,
      named.skipped, colon_eq, read_eq, .inr ⟨next, others_read, comma, others_eq, rfl⟩⟩⟩

end Step

/-- What can be read where it matters can be skipped where it does not, up to the same place. -/
theorem skips (fuel : Nat) :
    (∀ {depth shape text v rest}, value fuel depth shape text = some (v, rest) →
      ∀ depth, ∃ read, value fuel depth .skipped text = some (read, rest)) ∧
    (∀ {depth firsts others text vs rest}, items fuel depth firsts others text = some (vs, rest) →
      ∀ depth, ∃ read, items fuel depth [] .skipped text = some (read, rest)) ∧
    (∀ {depth shape text ms rest}, members fuel depth shape text = some (ms, rest) →
      ∀ depth, ∃ read, members fuel depth .skipped text = some (read, rest)) := by
  induction fuel with
  | zero =>
    refine ⟨?_, ?_, ?_⟩
    · intro depth shape text v rest reads
      cases reads
    · intro depth firsts others text vs rest reads
      cases reads
    · intro depth shape text ms rest reads
      cases reads
  | succ fuel ih =>
    obtain ⟨value_skips, items_skips, members_skips⟩ := ih
    exact ⟨value_skipped items_skips members_skips, items_skipped value_skips items_skips,
      members_skipped value_skips members_skips⟩

end LintBridge.Json.Strict
