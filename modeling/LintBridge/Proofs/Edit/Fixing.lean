import LintBridge.Proofs.Edit.Applying
import LintBridge.Proofs.Edit.Offsets
/-!
Fixing a text. The replacements chosen among the fixes of its failures have UTF-16 offsets; they are
given byte offsets and made one after the other, from the last to the first. In UTF-16 units the
outcome is that of making all at once those whose ends are boundaries of the text.
-/
namespace LintBridge
open Text

def Replacement.patch (r : Replacement) : Patch UInt16 :=
  ⟨r.start.toNat, r.stop.toNat, codeUnits r.text.toList⟩

theorem codeUnits_positions {done before : List Char} {position : Nat}
    (length : measure unitWidth (done ++ before) = position) :
    measure unitWidth done + (codeUnits before).length = position := by
  rw [length_codeUnits, ← measure_append, length]

theorem patch_before {r : Replacement} {replacements : List Replacement}
    (before_all : ∀ q ∈ replacements, r.Before q) (content : List Char) :
    ∀ p ∈ (replacements.filter (·.LiesIn content)).map Replacement.patch,
      r.patch.stop ≤ p.start ∧ r.patch.start < p.start := by
  intro p member
  obtain ⟨q, q_member, rfl⟩ := List.mem_map.mp member
  have ⟨start_lt, stop_le⟩ := before_all q (List.mem_of_mem_filter q_member)
  exact ⟨UInt32.le_iff_toNat_le.mp stop_le, UInt32.lt_iff_toNat_lt.mp start_lt⟩

/-- The replacements still to come lie in what has not been passed, and the text before it stays. The
induction is on the replacements from the left, as they are made from the right. -/
theorem foldr_step_toByteOffsets {content : List Char}
    (short : measure byteWidth content < UInt32.size - 1) {replacements : List Replacement}
    (sorted : replacements.Pairwise Replacement.Before) (done rest : List Char)
    (split : content = done ++ rest)
    (reached : ∀ r ∈ replacements, measure unitWidth done ≤ r.start.toNat) :
    ∃ fixed, (replacements.filterMap (Replacement.toBytes? content)).foldr
        (fun r (applied : Applied) => applied.step r) ⟨0, content⟩ =
      ⟨(replacements.filter (·.LiesIn content)).length, done ++ fixed⟩ ∧
      codeUnits fixed = Patch.splice
        ((replacements.filter (·.LiesIn content)).map Replacement.patch)
        (measure unitWidth done) (codeUnits rest) := by
  induction replacements generalizing done rest with
  | nil => exact ⟨rest, by simp [split], by simp [Patch.splice_nil]⟩
  | cons r replacements ih =>
    obtain ⟨before_all, sorted⟩ := List.pairwise_cons.mp sorted
    by_cases lies : r.LiesIn content
    · obtain ⟨before, removed, after, rfl, start, stop⟩ :=
        lies.split done rest split (reached r List.mem_cons_self)
      have parts : content = (done ++ before) ++ (removed ++ after) := by simp [split]
      obtain ⟨bytes, converted, text, byte_start, byte_stop⟩ :=
        toBytes?_append (done ++ before) removed after (parts ▸ short) start stop
      rw [← parts] at converted
      obtain ⟨fixed, made, units⟩ := ih sorted (done ++ before ++ removed) after (by simp [split])
        fun q member => by
          rw [stop]
          exact UInt32.le_iff_toNat_le.mp (before_all q member).2
      refine ⟨before ++ (r.text.toList ++ fixed), ?_, ?_⟩
      · rw [List.filterMap_cons_some converted, List.foldr_cons, made,
          List.filter_cons_of_pos (by simpa using lies), List.append_assoc _ removed,
          step_append byte_start byte_stop, text]
        simp
      · rw [stop] at units
        rw [List.filter_cons_of_pos (by simpa using lies), List.map_cons]
        simp only [codeUnits_append, units]
        exact (Patch.splice_cons (patch_before before_all content) (codeUnits before) (codeUnits removed) (codeUnits after)
          (codeUnits_positions start) (by
            have := codeUnits_positions stop
            rwa [start] at this)).symm
    · obtain ⟨fixed, made, units⟩ := ih sorted done rest split
        fun q member => reached q (List.mem_cons_of_mem _ member)
      have dropped : r.toBytes? content = none := by
        rw [← Option.not_isSome_iff_eq_none, toBytes?_isSome_iff]
        exact lies
      rw [List.filterMap_cons_none dropped, List.filter_cons_of_neg (by simpa using lies)]
      exact ⟨fixed, made, units⟩

theorem toBytes?_start_lt {content : List Char} (short : measure byteWidth content < UInt32.size - 1)
    {a b a' b' : Replacement} (before : a.Before b) (converted : a.toBytes? content = some a')
    (converted' : b.toBytes? content = some b') : a'.start < b'.start := by
  have a_lies : a.LiesIn content := toBytes?_isSome_iff.mp (by simp [converted])
  have b_lies : b.LiesIn content := toBytes?_isSome_iff.mp (by simp [converted'])
  obtain ⟨a_before, a_removed, rest, rfl, a_start, a_stop⟩ :=
    a_lies.split [] content rfl (Nat.zero_le _)
  obtain ⟨between, b_removed, after, parts, b_start, b_stop⟩ :=
    b_lies.split a_before (a_removed ++ rest) rfl (a_start ▸ Nat.le_of_lt (UInt32.lt_iff_toNat_lt.mp before.1))
  obtain ⟨bytes, found, -, a_bytes, -⟩ := toBytes?_append _ _ _ short a_start a_stop
  obtain ⟨bytes', found', -, b_bytes, -⟩ := toBytes?_append (a_before ++ between) b_removed after
    (by simpa [parts] using short) b_start b_stop
  obtain rfl : a' = bytes := Option.some.inj (converted.symm.trans found)
  obtain rfl : b' = bytes' := by
    have same : a_before ++ (a_removed ++ rest) = a_before ++ between ++ (b_removed ++ after) := by
      rw [parts, List.append_assoc]
    exact Option.some.inj (converted'.symm.trans (same ▸ found'))
  -- Characters stand between the two starts, and they have bytes.
  have apart : measure byteWidth between ≠ 0 := by
    intro empty
    obtain rfl := measure_eq_zero byteWidth_pos empty
    have := UInt32.lt_iff_toNat_lt.mp before.1
    rw [List.append_nil, ← List.nil_append a_before, a_start] at b_start
    omega
  rw [UInt32.lt_iff_toNat_lt, a_bytes, b_bytes, measure_append]
  omega

theorem toByteOffsets_pairwise {content : String}
    (short : measure byteWidth content.toList < UInt32.size - 1) {replacements : List Replacement}
    (sorted : replacements.Pairwise Replacement.Before) :
    (toByteOffsets content replacements).Pairwise fun a b => a.start < b.start := by
  refine List.pairwise_filterMap.mpr (sorted.imp fun before a' converted b' converted' => ?_)
  exact toBytes?_start_lt short before converted converted'

/-- Fixing makes all replacements at once whose ends are boundaries of the text, in UTF-16 units. -/
theorem fixing_eq_splice (content : String) (failures : List Failure)
    (short : measure byteWidth content.toList < 2 ^ 32 - 1)
    (ordered : ∀ f ∈ failures, LeftToRight f.replacements) :
    let done := applyReplacements content (toByteOffsets content (reconcile failures))
    let made := (reconcile failures).filter (·.LiesIn content.toList)
    codeUnits done.text.toList =
        Patch.splice (made.map Replacement.patch) 0 (codeUnits content.toList) ∧
      done.count = made.length := by
  intro done made
  have sorted := reconcile_pairwise ordered
  obtain ⟨fixed, result, units⟩ := foldr_step_toByteOffsets short sorted []
    content.toList rfl fun _ _ => Nat.zero_le _
  have applied : done = ⟨made.length, fixed⟩ := by
    simp only [done, applyReplacements, fromTheEnd_of_pairwise (toByteOffsets_pairwise short sorted),
      List.foldl_reverse]
    exact result
  rw [applied]
  exact ⟨by simpa [Applied.text, made, Text.measure] using units, rfl⟩

def mixedFixes : List Failure :=
  [⟨"a.ts", 0, 2, "m", none, none, some [⟨0, 1, "xy"⟩, ⟨1, 1, "!"⟩]⟩,
    ⟨"a.ts", 3, 5, "m", none, none, some [⟨3, 0, "é"⟩, ⟨4, 1, ""⟩]⟩]

theorem fixing_eq_splice_mixed :
    measure byteWidth "a😀bc".toList < 2 ^ 32 - 1 ∧
      (∀ f ∈ mixedFixes, LeftToRight f.replacements) ∧
      let done := applyReplacements "a😀bc" (toByteOffsets "a😀bc" (reconcile mixedFixes))
      codeUnits done.text.toList =
          Patch.splice [⟨0, 1, codeUnits "xy".toList⟩, ⟨3, 3, codeUnits "é".toList⟩, ⟨4, 5, []⟩] 0
            (codeUnits "a😀bc".toList) ∧
        done.count = 3 := by
  have short : measure byteWidth "a😀bc".toList < 2 ^ 32 - 1 := by decide
  have ordered : ∀ f ∈ mixedFixes, LeftToRight f.replacements := by decide
  have chosen : reconcile mixedFixes =
      [⟨0, 1, "xy"⟩, ⟨1, 1, "!"⟩, ⟨3, 0, "é"⟩, ⟨4, 1, ""⟩] := by
    rw [reconcile, byFirstStart, List.mergeSort_of_pairwise (by decide)]
    decide
  obtain ⟨units, count⟩ := fixing_eq_splice "a😀bc" mixedFixes short ordered
  refine ⟨short, ordered, ?_, ?_⟩
  · rw [units, chosen]
    decide
  · rw [count, chosen]
    decide

end LintBridge
