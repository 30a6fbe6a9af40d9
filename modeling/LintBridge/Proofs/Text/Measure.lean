import LintBridge.Text.Encoding
/-!
Offsets and the places that they name. `splitAt?` finds the place whose text before it has the
measure asked for (`splitAt?_eq_some_iff`), and a text has at most one such place. The units that a
text is measured in can be written down, for UTF-16 (`codeUnits`) and for UTF-8 (`bytes`).
-/
namespace LintBridge.Text

theorem byteWidth_pos (c : Char) : 0 < byteWidth c := c.utf8Size_pos

theorem unitWidth_pos (c : Char) : 0 < unitWidth c := by
  unfold unitWidth
  split <;> decide

theorem unitWidth_le_byteWidth (c : Char) : unitWidth c ≤ byteWidth c := by
  unfold unitWidth
  split
  · exact byteWidth_pos c
  · rename_i wide
    have beyond : ¬ c.val ≤ 0x7F := fun low => wide (UInt32.lt_of_le_of_lt low (by decide))
    have bytes : byteWidth c = if c.val ≤ 0x7F then 1 else if c.val ≤ 0x7FF then 2 else
        if c.val ≤ 0xFFFF then 3 else 4 := rfl
    rw [bytes, if_neg beyond]
    split
    · decide
    · split <;> decide

section Measure

variable (width : Char → Nat)

@[simp] theorem measure_append (before after : List Char) :
    measure width (before ++ after) = measure width before + measure width after := by
  induction before with
  | nil => simp [measure]
  | cons c before ih =>
    simp only [List.cons_append, measure, ih]
    omega

variable {width} (positive : ∀ c, 0 < width c)

include positive

theorem measure_eq_zero {text : List Char} (empty : measure width text = 0) : text = [] := by
  cases text with
  | nil => rfl
  | cons c text =>
    have := positive c
    simp only [measure] at empty
    omega

theorem splitAt?_append (before after : List Char) :
    splitAt? width (measure width before) (before ++ after) = some (before, after) := by
  induction before with
  | nil => simp [measure, splitAt?]
  | cons c before ih =>
    obtain ⟨offset, successor⟩ : ∃ offset, measure width (c :: before) = offset + 1 :=
      ⟨measure width (c :: before) - 1, by have := positive c; simp only [measure]; omega⟩
    have fits : width c ≤ offset + 1 := by
      rw [← successor]
      simp [measure]
    have left : offset + 1 - width c = measure width before := by
      rw [← successor]
      simp [measure]
    rw [successor, List.cons_append, splitAt?, if_pos fits, left, ih]
    rfl

theorem splitAt?_eq_some_iff {offset : Nat} {text before after : List Char} :
    splitAt? width offset text = some (before, after) ↔
      text = before ++ after ∧ measure width before = offset := by
  constructor
  · intro split
    induction offset, text using splitAt?.induct width generalizing before after with
    | case1 text =>
      simp only [splitAt?, Option.some.injEq, Prod.mk.injEq] at split
      obtain ⟨rfl, rfl⟩ := split
      exact ⟨rfl, rfl⟩
    | case2 offset => simp [splitAt?] at split
    | case3 offset c rest fits ih =>
      rw [splitAt?, if_pos fits, Option.map_eq_some_iff] at split
      obtain ⟨⟨start, rest'⟩, found, equal⟩ := split
      obtain ⟨rfl, rfl⟩ := Prod.mk.inj equal
      obtain ⟨rfl, length⟩ := ih found
      refine ⟨rfl, ?_⟩
      simp only [measure, length]
      omega
    | case4 offset c rest wide =>
      rw [splitAt?, if_neg wide] at split
      contradiction
  · rintro ⟨rfl, rfl⟩
    exact splitAt?_append positive before after

/-- Of two places in a text the one with the smaller measure before it comes first. -/
theorem exists_between_of_measure_le {before after before' after' : List Char}
    (same : before ++ after = before' ++ after')
    (le : measure width before ≤ measure width before') :
    ∃ between, before' = before ++ between ∧ after = between ++ after' := by
  rcases List.append_eq_append_iff.mp same with ⟨between, rfl, rfl⟩ | ⟨between, rfl, rfl⟩
  · exact ⟨between, rfl, rfl⟩
  · rw [measure_append] at le
    obtain rfl := measure_eq_zero positive (by omega : measure width between = 0)
    exact ⟨[], by simp, by simp⟩

theorem eq_of_measure_eq {before after before' after' : List Char}
    (same : before ++ after = before' ++ after')
    (length : measure width before = measure width before') : before = before' ∧ after = after' := by
  have split := splitAt?_append positive before after
  rw [same, length, splitAt?_append positive] at split
  exact Prod.mk.inj (Option.some.inj split.symm)

theorem splice?_append (before removed after insert : List Char) :
    splice? width (measure width before) (measure width (before ++ removed)) insert
      (before ++ (removed ++ after)) = some (before ++ (insert ++ after)) := by
  have length : measure width (before ++ removed) - measure width before =
      measure width removed := by simp
  simp only [splice?, splitAt?_append positive, Option.bind_eq_bind, Option.bind_some, length]
  simp

end Measure

theorem measure_unitWidth_le (text : List Char) :
    measure unitWidth text ≤ measure byteWidth text := by
  induction text with
  | nil => exact Nat.le_refl _
  | cons c rest ih => exact Nat.add_le_add (unitWidth_le_byteWidth c) ih

/-- An offset in words moves on by a character without wrapping around, where all units of the text
have their offsets. -/
theorem toNat_next {start : UInt32} {c : Char} {rest : List Char}
    (fits : start.toNat + measure unitWidth (c :: rest) < UInt32.size) :
    (start + UInt32.ofNat (unitWidth c)).toNat = start.toNat + unitWidth c := by
  simp only [measure] at fits
  rw [UInt32.toNat_add, UInt32.toNat_ofNat_of_lt' (by omega), Nat.mod_eq_of_lt]
  exact Nat.lt_of_le_of_lt (by omega) fits

/-- Whether an offset falls between two characters of a text, or at one of its ends. -/
def IsBoundary (width : Char → Nat) (text : List Char) (offset : Nat) : Prop :=
  ∃ before, before <+: text ∧ measure width before = offset

theorem isBoundary_iff_splitAt? {width : Char → Nat} (positive : ∀ c, 0 < width c)
    {text : List Char} {offset : Nat} :
    IsBoundary width text offset ↔ (splitAt? width offset text).isSome := by
  constructor
  · rintro ⟨before, ⟨after, rfl⟩, rfl⟩
    simp [splitAt?_append positive]
  · intro found
    obtain ⟨⟨before, after⟩, split⟩ := Option.isSome_iff_exists.mp found
    obtain ⟨rfl, length⟩ := (splitAt?_eq_some_iff positive).mp split
    exact ⟨before, List.prefix_append .., length⟩

instance (text : List Char) (offset : Nat) : Decidable (IsBoundary unitWidth text offset) :=
  decidable_of_iff _ (isBoundary_iff_splitAt? unitWidth_pos).symm

instance (text : List Char) (offset : Nat) : Decidable (IsBoundary byteWidth text offset) :=
  decidable_of_iff _ (isBoundary_iff_splitAt? byteWidth_pos).symm

/-- Where two boundaries cut what has not been passed. -/
theorem IsBoundary.cut {width : Char → Nat} (positive : ∀ c, 0 < width c) {content : List Char}
    {start stop : Nat} (first : IsBoundary width content start) (last : IsBoundary width content stop)
    (le : start ≤ stop) {done rest : List Char} (split : content = done ++ rest)
    (reached : measure width done ≤ start) :
    ∃ before removed after, rest = before ++ (removed ++ after) ∧
      measure width (done ++ before) = start ∧ measure width (done ++ before ++ removed) = stop := by
  obtain ⟨head, ⟨tail, head_split⟩, head_length⟩ := first
  obtain ⟨all, ⟨after, all_split⟩, all_length⟩ := last
  obtain ⟨before, rfl, rfl⟩ := exists_between_of_measure_le positive
    (split.symm.trans head_split.symm) (head_length ▸ reached)
  obtain ⟨removed, rfl, rfl⟩ := exists_between_of_measure_le positive
    (head_split.trans all_split.symm) (by rw [head_length, all_length]; exact le)
  exact ⟨before, removed, after, rfl, head_length, all_length⟩

def charUnits (c : Char) : List UInt16 :=
  if c.val < 0x10000 then [c.val.toUInt16]
  else [((c.val - 0x10000) >>> 10).toUInt16 + 0xD800,
    ((c.val - 0x10000) &&& 0x3FF).toUInt16 + 0xDC00]

def codeUnits (text : List Char) : List UInt16 := text.flatMap charUnits

theorem length_charUnits (c : Char) : (charUnits c).length = unitWidth c := by
  unfold charUnits unitWidth
  split <;> rfl

@[simp] theorem codeUnits_append (before after : List Char) :
    codeUnits (before ++ after) = codeUnits before ++ codeUnits after := List.flatMap_append

theorem length_flatMap_eq_measure {β : Type} {width : Char → Nat} {encode : Char → List β}
    (lengths : ∀ c, (encode c).length = width c) (text : List Char) :
    (text.flatMap encode).length = measure width text := by
  induction text with
  | nil => rfl
  | cons c text ih => rw [List.flatMap_cons, List.length_append, lengths, ih, measure]

theorem length_codeUnits (text : List Char) : (codeUnits text).length = measure unitWidth text :=
  length_flatMap_eq_measure length_charUnits text

def bytes (text : List Char) : List UInt8 := text.flatMap String.utf8EncodeChar

@[simp] theorem bytes_append (before after : List Char) :
    bytes (before ++ after) = bytes before ++ bytes after := List.flatMap_append

theorem length_bytes (text : List Char) : (bytes text).length = measure byteWidth text :=
  length_flatMap_eq_measure String.length_utf8EncodeChar text

end LintBridge.Text
