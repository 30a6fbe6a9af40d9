import LintBridge.Edit.Replacement
import LintBridge.Proofs.BinarySearch
import LintBridge.Proofs.Text.Measure
import Mathlib.Data.List.Forall2
/-!
UTF-16 offsets as byte offsets. An offset names a place between two characters or none, and byte
offsets name the same places (`toBytes?_append`). In a text whose bytes can be counted in words no
offset wraps around, and an end that would go beyond the words names no place
(`toByteOffsets_exact`).
-/
namespace LintBridge
open Text

def Replacement.LiesIn (content : List Char) (r : Replacement) : Prop :=
  IsBoundary unitWidth content r.start.toNat ∧ IsBoundary unitWidth content r.stop.toNat

instance (content : List Char) (r : Replacement) : Decidable (r.LiesIn content) :=
  inferInstanceAs (Decidable (_ ∧ _))

theorem byteOffset?_append (before after : List Char) (offset : UInt32)
    (length : measure unitWidth before = offset.toNat) :
    byteOffset? (before ++ after) offset = some (measure byteWidth before) := by
  rw [byteOffset?, ← length, splitAt?_append unitWidth_pos]
  rfl

theorem byteOffset?_isSome_iff {content : List Char} {offset : UInt32} :
    (byteOffset? content offset).isSome ↔ IsBoundary unitWidth content offset.toNat := by
  rw [isBoundary_iff_splitAt? unitWidth_pos, byteOffset?, Option.isSome_map]

theorem toBytes?_isSome_iff {content : List Char} {r : Replacement} :
    (r.toBytes? content).isSome ↔ r.LiesIn content := by
  unfold Replacement.LiesIn
  rw [← byteOffset?_isSome_iff, ← byteOffset?_isSome_iff, Replacement.toBytes?]
  cases byteOffset? content r.start <;> cases byteOffset? content r.stop <;> simp

theorem Replacement.LiesIn.split {content : List Char} {r : Replacement} (lies : r.LiesIn content)
    (done rest : List Char) (split : content = done ++ rest)
    (reached : measure unitWidth done ≤ r.start.toNat) :
    ∃ before removed after, rest = before ++ (removed ++ after) ∧
      measure unitWidth (done ++ before) = r.start.toNat ∧
      measure unitWidth (done ++ before ++ removed) = r.stop.toNat :=
  lies.1.cut unitWidth_pos lies.2 r.start_le_stop split reached

theorem toBytes?_append (before removed after : List Char) {r : Replacement}
    (short : measure byteWidth (before ++ (removed ++ after)) < UInt32.size - 1)
    (start : measure unitWidth before = r.start.toNat)
    (stop : measure unitWidth (before ++ removed) = r.stop.toNat) :
    ∃ bytes, r.toBytes? (before ++ (removed ++ after)) = some bytes ∧ bytes.text = r.text ∧
      bytes.start.toNat = measure byteWidth before ∧
      bytes.stop.toNat = measure byteWidth (before ++ removed) := by
  have found : byteOffset? (before ++ (removed ++ after)) r.stop =
      some (measure byteWidth (before ++ removed)) := by
    rw [← List.append_assoc]
    exact byteOffset?_append _ _ _ stop
  let first := UInt32.ofNat (measure byteWidth before)
  let last := UInt32.ofNat (measure byteWidth (before ++ removed))
  refine ⟨⟨first, last - first, r.text⟩, ?_, rfl, ?_, ?_⟩
  · rw [Replacement.toBytes?, byteOffset?_append _ _ _ start, found]
    rfl
  · simp only [measure_append, UInt32.size] at short
    simp only [first, UInt32.toNat_ofNat']
    omega
  · simp only [measure_append, UInt32.size] at short
    have le : first ≤ last := by
      simp only [first, last, UInt32.le_iff_toNat_le, UInt32.toNat_ofNat', measure_append]
      omega
    rw [Replacement.toNat_stop]
    simp only [UInt32.toNat_sub_of_le _ _ le]
    simp only [first, last, UInt32.toNat_ofNat', measure_append, UInt32.size]
    omega

/-! ### The table of boundaries -/

namespace Text

/-- The boundaries of a text from left to right, each with its UTF-16 offset and its byte offset; the
UTF-16 offsets are summed up in words. What stands before the text has its own units and bytes. -/
def boundaries (units : UInt32) (bytes : Nat) : List Char → List (UInt32 × Nat)
  | [] => [(units, bytes)]
  | c :: rest =>
    (units, bytes) :: boundaries (units + UInt32.ofNat (unitWidth c)) (bytes + byteWidth c) rest

section Boundaries

variable {units : UInt32} {text : List Char}

/-- Where the units can be counted in words, the sums do not wrap around: the table lists what can stand
before a place, with its units and its bytes. -/
theorem mem_boundaries_iff (fits : units.toNat + measure unitWidth text < UInt32.size)
    {bytes : Nat} {place : UInt32 × Nat} :
    place ∈ boundaries units bytes text ↔ ∃ before, before <+: text ∧
      place.1.toNat = units.toNat + measure unitWidth before ∧
      place.2 = bytes + measure byteWidth before := by
  induction text generalizing units bytes with
  | nil =>
    simp only [boundaries, List.mem_singleton, List.prefix_nil, exists_eq_left, measure,
      Nat.add_zero, Prod.ext_iff, UInt32.toNat_inj]
  | cons c rest ih =>
    have next := toNat_next fits
    have fits' : (units + UInt32.ofNat (unitWidth c)).toNat + measure unitWidth rest <
        UInt32.size := by
      rw [next]
      simpa only [measure, Nat.add_assoc] using fits
    rw [boundaries, List.mem_cons, ih fits', next]
    constructor
    · rintro (rfl | ⟨before, beginning, units_eq, bytes_eq⟩)
      · exact ⟨[], List.nil_prefix, rfl, rfl⟩
      · refine ⟨c :: before, by simpa using beginning, ?_, ?_⟩
        · rw [units_eq, measure, Nat.add_assoc]
        · rw [bytes_eq, measure, Nat.add_assoc]
    · rintro ⟨before, beginning, units_eq, bytes_eq⟩
      rcases List.prefix_cons_iff.mp beginning with rfl | ⟨before, rfl, onwards⟩
      · exact Or.inl (Prod.ext (UInt32.toNat_inj.mp units_eq) bytes_eq)
      · refine Or.inr ⟨before, onwards, ?_, ?_⟩
        · rw [units_eq, measure, Nat.add_assoc]
        · rw [bytes_eq, measure, Nat.add_assoc]

theorem boundaries_ascending (fits : units.toNat + measure unitWidth text < UInt32.size)
    (bytes : Nat) : (boundaries units bytes text).Pairwise fun a b => a.1 < b.1 := by
  induction text generalizing units bytes with
  | nil => exact List.pairwise_singleton _ _
  | cons c rest ih =>
    have next := toNat_next fits
    have fits' : (units + UInt32.ofNat (unitWidth c)).toNat + measure unitWidth rest <
        UInt32.size := by
      rw [next]
      simpa only [measure, Nat.add_assoc] using fits
    refine List.pairwise_cons.mpr ⟨fun place listed => ?_, ih fits' _⟩
    obtain ⟨before, -, units_eq, -⟩ := (mem_boundaries_iff fits').mp listed
    have wide := unitWidth_pos c
    change units < place.1
    rw [UInt32.lt_iff_toNat_lt, units_eq, next]
    omega

end Boundaries

end Text

theorem byteOffset?_eq_some_iff {content : List Char} (fits : measure unitWidth content < UInt32.size)
    {offset : UInt32} {bytes : Nat} :
    byteOffset? content offset = some bytes ↔ (offset, bytes) ∈ boundaries 0 0 content := by
  have from_zero : (0 : UInt32).toNat + measure unitWidth content < UInt32.size := by simpa using fits
  rw [mem_boundaries_iff from_zero, byteOffset?, Option.map_eq_some_iff]
  simp only [UInt32.toNat_zero, Nat.zero_add]
  constructor
  · rintro ⟨⟨before, after⟩, split, rfl⟩
    obtain ⟨rfl, length⟩ := (splitAt?_eq_some_iff unitWidth_pos).mp split
    exact ⟨before, List.prefix_append .., length.symm, rfl⟩
  · rintro ⟨before, ⟨after, rfl⟩, length, rfl⟩
    exact ⟨(before, after), (splitAt?_eq_some_iff unitWidth_pos).mpr ⟨rfl, length.symm⟩, rfl⟩

/-- The table is searched by halving, for the offsets in it. -/
theorem byteOffset?_eq_binarySearch {content : List Char}
    (fits : measure unitWidth content < UInt32.size) (offset : UInt32) :
    byteOffset? content offset =
      match binarySearch ((boundaries 0 0 content).map (·.1)) offset with
      | .ok i => (boundaries 0 0 content)[i]?.map (·.2)
      | .error _ => none := by
  have from_zero : (0 : UInt32).toNat + measure unitWidth content < UInt32.size := by simpa using fits
  have ascending : ((boundaries 0 0 content).map (·.1)).Pairwise (· < ·) :=
    List.pairwise_map.mpr (boundaries_ascending from_zero 0)
  cases searched : binarySearch ((boundaries 0 0 content).map (·.1)) offset with
  | ok i =>
    have found := (binarySearch_eq_ok_iff ascending offset).mp searched
    rw [List.getElem?_map, Option.map_eq_some_iff] at found
    obtain ⟨⟨_, bytes⟩, listed, rfl⟩ := found
    simp only [listed, Option.map_some]
    exact (byteOffset?_eq_some_iff fits).mpr (List.mem_of_getElem? listed)
  | error next =>
    rw [binarySearch_eq_ite ascending] at searched
    refine Option.eq_none_iff_forall_ne_some.mpr fun bytes found => ?_
    have listed := (byteOffset?_eq_some_iff fits).mp found
    rw [if_pos (List.mem_map.mpr ⟨_, listed, rfl⟩)] at searched
    contradiction

/-! ### Whole lists -/

/-- How a replacement with UTF-16 offsets comes out with byte offsets. Both cut the text at the same
places, neither of the two ends has gone beyond the words, and the range in bytes is one that a
replacement can be made in. -/
structure Replacement.ComesOutAs (content : List Char) (r bytes : Replacement) : Prop where
  text : bytes.text = r.text
  places : ∃ before removed after, content = before ++ (removed ++ after) ∧
    measure unitWidth before = r.start.toNat ∧ measure unitWidth (before ++ removed) = r.stop.toNat ∧
    measure byteWidth before = bytes.start.toNat ∧
    measure byteWidth (before ++ removed) = bytes.stop.toNat
  stop_eq : r.stop.toNat = r.start.toNat + r.length.toNat
  bytes_stop_eq : bytes.stop.toNat = bytes.start.toNat + bytes.length.toNat
  inside : bytes.stop.toNat ≤ measure byteWidth content
  start_boundary : IsBoundary byteWidth content bytes.start.toNat
  stop_boundary : IsBoundary byteWidth content bytes.stop.toNat
  made : (bytes.applyTo? byteWidth content).isSome

theorem Replacement.stop_eq_of_lt {r : Replacement} (short : r.stop.toNat < UInt32.size - 1) :
    r.stop.toNat = r.start.toNat + r.length.toNat := by
  rw [r.toNat_stop] at short ⊢
  omega

theorem Replacement.LiesIn.comesOut {content : List Char}
    (short : measure byteWidth content < UInt32.size - 1) {r : Replacement} (lies : r.LiesIn content) :
    ∃ bytes, r.toBytes? content = some bytes ∧ r.ComesOutAs content bytes := by
  obtain ⟨before, removed, after, rfl, start, stop⟩ := lies.split [] content rfl (Nat.zero_le _)
  obtain ⟨bytes, found, text, byte_start, byte_stop⟩ := toBytes?_append before removed after short start stop
  have within : measure byteWidth (before ++ removed) ≤
      measure byteWidth (before ++ (removed ++ after)) := by
    rw [← List.append_assoc, measure_append byteWidth (before ++ removed)]
    exact Nat.le_add_right _ _
  have units := measure_unitWidth_le (before ++ removed)
  simp only [List.nil_append] at start stop
  refine ⟨bytes, found, text, ⟨before, removed, after, rfl, start, stop, byte_start.symm, byte_stop.symm⟩,
    Replacement.stop_eq_of_lt (by omega), Replacement.stop_eq_of_lt (by omega), by omega,
    ⟨before, List.prefix_append .., byte_start.symm⟩,
    ⟨before ++ removed, ⟨after, List.append_assoc ..⟩, byte_stop.symm⟩, ?_⟩
  rw [Replacement.applyTo?, byte_start, byte_stop, splice?_append byteWidth_pos]
  rfl

theorem forall₂_filter_filterMap {α β : Type} {keep : α → Bool} {convert : α → Option β} {related : α → β → Prop}
    (kept : ∀ a, keep a = true → ∃ b, convert a = some b ∧ related a b)
    (dropped : ∀ a, keep a = false → convert a = none) (list : List α) :
    List.Forall₂ related (list.filter keep) (list.filterMap convert) := by
  induction list with
  | nil => exact .nil
  | cons a rest ih =>
    cases keeps : keep a with
    | true =>
      obtain ⟨b, converted, holds⟩ := kept a keeps
      rw [List.filter_cons_of_pos keeps, List.filterMap_cons_some converted]
      exact .cons holds ih
    | false =>
      rw [List.filter_cons_of_neg (by simp [keeps]), List.filterMap_cons_none (dropped a keeps)]
      exact ih

/-- In a text whose bytes can be counted in words the replacements that lie in it come out with byte
offsets, in their order, and no others. The table of boundaries says which they are: its offsets have
not wrapped around, fit the words, and ascend. -/
theorem toByteOffsets_exact (content : String) (short : measure byteWidth content.toList < UInt32.size - 1)
    (replacements : List Replacement) :
    List.Forall₂ (Replacement.ComesOutAs content.toList)
        (replacements.filter (·.LiesIn content.toList)) (toByteOffsets content replacements) ∧
      (∀ offset bytes, byteOffset? content.toList offset = some bytes ↔
        (offset, bytes) ∈ boundaries 0 0 content.toList) ∧
      (boundaries 0 0 content.toList).Pairwise (fun a b => a.1 < b.1) ∧
      ∀ place ∈ boundaries 0 0 content.toList, (UInt32.ofNat place.2).toNat = place.2 ∧
        ∃ before, before <+: content.toList ∧ place.1.toNat = measure unitWidth before ∧
          place.2 = measure byteWidth before := by
  have units := measure_unitWidth_le content.toList
  have fits : measure unitWidth content.toList < UInt32.size := Nat.lt_of_le_of_lt units (by omega)
  have from_zero : (0 : UInt32).toNat + measure unitWidth content.toList < UInt32.size := by
    simpa using fits
  refine ⟨?_, fun offset bytes => byteOffset?_eq_some_iff fits, boundaries_ascending from_zero 0,
    fun place listed => ?_⟩
  · refine forall₂_filter_filterMap (fun r lies => ?_) (fun r outside => ?_) replacements
    · exact Replacement.LiesIn.comesOut short (by simpa using lies)
    · rw [← Option.not_isSome_iff_eq_none, toBytes?_isSome_iff]
      simpa using outside
  · obtain ⟨before, ⟨after, split⟩, units_eq, bytes_eq⟩ := (mem_boundaries_iff from_zero).mp listed
    rw [UInt32.toNat_zero, Nat.zero_add] at units_eq
    rw [Nat.zero_add] at bytes_eq
    refine ⟨UInt32.toNat_ofNat_of_lt' ?_, before, ⟨after, split⟩, units_eq, bytes_eq⟩
    have within : measure byteWidth before ≤ measure byteWidth content.toList := by
      rw [← split, measure_append]
      exact Nat.le_add_right _ _
    omega

/-- Beside those that lie in the text, one that would split a character and one whose end has gone
beyond the words. -/
def wideReplacements : List Replacement :=
  [⟨0, 1, "x"⟩, ⟨1, 1, "!"⟩, ⟨5, 0, "é"⟩, ⟨3, 4294967295, ""⟩, ⟨3, 1, ""⟩]

theorem toByteOffsets_exact_wide :
    measure byteWidth "a😀bc".toList < UInt32.size - 1 ∧
      toByteOffsets "a😀bc" wideReplacements = [⟨0, 1, "x"⟩, ⟨7, 0, "é"⟩, ⟨5, 1, ""⟩] ∧
      List.Forall₂ (Replacement.ComesOutAs "a😀bc".toList) [⟨0, 1, "x"⟩, ⟨5, 0, "é"⟩, ⟨3, 1, ""⟩]
        [⟨0, 1, "x"⟩, ⟨7, 0, "é"⟩, ⟨5, 1, ""⟩] := by
  have short : measure byteWidth "a😀bc".toList < UInt32.size - 1 := by decide
  have lying : wideReplacements.filter (·.LiesIn "a😀bc".toList) =
      [⟨0, 1, "x"⟩, ⟨5, 0, "é"⟩, ⟨3, 1, ""⟩] := by decide
  have converted : toByteOffsets "a😀bc" wideReplacements =
      [⟨0, 1, "x"⟩, ⟨7, 0, "é"⟩, ⟨5, 1, ""⟩] := by decide
  obtain ⟨all, -⟩ := toByteOffsets_exact "a😀bc" short wideReplacements
  rw [lying, converted] at all
  exact ⟨short, converted, all⟩

end LintBridge
