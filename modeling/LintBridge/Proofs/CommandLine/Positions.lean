import LintBridge.CommandLine.Commands
import LintBridge.Proofs.Text.Lines
import Mathlib.Data.List.Forall2
/-!
Positions in reports. The line of a finding is always the last one that starts at or before its
failure, also where the failure starts beyond the text. The column is counted from the start of this
line in 32 bits: the first column of the line is one, so the column of the greatest offset wraps around
to zero where no line but the first lies in front of it (`report_locates`).
-/
namespace LintBridge.CommandLine

open Text

namespace Finding

/-- Whether the line of a finding is the last one that starts at or before an offset. -/
structure StandsOn (found : Finding) (t : SourceText) (offset : UInt32) : Prop where
  inside : 1 ≤ found.line ∧ found.line ≤ t.lines.length
  begun : (t.lineStart (found.line - 1)).toNat ≤ offset.toNat
  last : ∀ line, found.line ≤ line → line < t.lines.length → offset < t.lineStart line

/-- Whether the column of a finding, counted from one, is that of an offset in its line, and fits 32
bits. -/
structure CountsTo (found : Finding) (t : SourceText) (offset : UInt32) : Prop where
  fits : offset.toNat - (t.lineStart (found.line - 1)).toNat + 1 < UInt32.size
  positive : 1 ≤ found.column.toNat
  counted : (t.lineStart (found.line - 1)).toNat + (found.column.toNat - 1) = offset.toNat

section

variable {t : SourceText} (fits : t.Fits) (file : String) (alwaysWarn : Bool) (f : Failure)
include fits

theorem ofFailure_standsOn : (ofFailure t file alwaysWarn f).StandsOn t f.start where
  inside := ⟨Nat.le_add_left 1 _, SourceText.lineOf_lt f.start⟩
  begun := UInt32.le_iff_toNat_le.mp (SourceText.lineStart_lineOf_le fits f.start)
  last line later there := by
    have next : t.lineOf f.start < line := later
    rw [← UInt32.not_le, SourceText.lineStart_le_iff fits there]
    omega

theorem lineStart_eq_zero_iff (greatest : f.start.toNat = UInt32.size - 1) :
    (t.lineStart (t.lineOf f.start)).toNat = 0 ↔ '\n' ∉ t.chars := by
  have count : t.lines.length = t.chars.count '\n' + 1 := length_pieces '\n' t.chars
  have inside := SourceText.lineOf_lt (t := t) f.start
  have last : t.lines.length - 1 ≤ t.lineOf f.start := by
    rw [← SourceText.lineStart_le_iff fits (by omega), UInt32.le_iff_toNat_le]
    have := (t.lineStart (t.lines.length - 1)).toNat_lt_size
    omega
  have feeds : (ended (t.lines.take (t.lineOf f.start))).count '\n' = t.lineOf f.start :=
    (count_ended (SourceText.clean_of_mem_take _)).trans
      (List.length_take_of_le (Nat.le_of_lt inside))
  have number : t.chars.count '\n' = t.lineOf f.start := by omega
  rw [SourceText.toNat_lineStart fits inside, ← List.count_eq_zero, number]
  constructor
  · intro empty
    rw [← feeds, measure_eq_zero unitWidth_pos empty]
    rfl
  · intro first
    rw [first]
    rfl

theorem toNat_column :
    (ofFailure t file alwaysWarn f).column.toNat =
      (f.start.toNat - (t.lineStart (t.lineOf f.start)).toNat + 1) % UInt32.size := by
  have begun := SourceText.lineStart_lineOf_le fits f.start
  have column : (ofFailure t file alwaysWarn f).column =
      f.start - t.lineStart (t.lineOf f.start) + 1 := rfl
  rw [column, UInt32.toNat_add, UInt32.toNat_sub_of_le _ _ begun]
  rfl

theorem ofFailure_countsTo_iff :
    (ofFailure t file alwaysWarn f).CountsTo t f.start ↔
      ¬ ('\n' ∉ t.chars ∧ f.start.toNat = UInt32.size - 1) := by
  have begun := UInt32.le_iff_toNat_le.mp (SourceText.lineStart_lineOf_le fits f.start)
  have column := toNat_column fits file alwaysWarn f
  have line : (ofFailure t file alwaysWarn f).line - 1 = t.lineOf f.start := rfl
  have start := f.start.toNat_lt_size
  have reaches : f.start.toNat - (t.lineStart (t.lineOf f.start)).toNat + 1 < UInt32.size ↔
      ¬ ('\n' ∉ t.chars ∧ f.start.toNat = UInt32.size - 1) := by
    by_cases greatest : f.start.toNat = UInt32.size - 1
    · rw [← lineStart_eq_zero_iff fits f greatest]
      omega
    · simp only [greatest, and_false, not_false_eq_true, iff_true]
      omega
  constructor
  · intro counts
    exact reaches.mp (line ▸ counts.fits)
  · intro short
    have fits32 := reaches.mpr short
    rw [Nat.mod_eq_of_lt fits32] at column
    refine ⟨line.symm ▸ fits32, ?_, ?_⟩
    · rw [column]
      exact Nat.le_add_left 1 _
    · rw [line, column]
      omega

end

end Finding

theorem toNat_lengthOf (f : Failure) :
    (Diagnostic.lengthOf f).toNat = f.stop.toNat - f.start.toNat := by
  unfold Diagnostic.lengthOf
  split
  · rename_i ordered
    exact UInt32.toNat_sub_of_le _ _ ordered
  · rename_i reversed
    rw [UInt32.le_iff_toNat_le] at reversed
    rw [UInt32.toNat_zero]
    omega

/-- The findings of a report are those of the failures of its file, one after the other. Each of them
stands on the line of its failure; its column is that of the failure and has not wrapped around unless
the failure starts at the greatest offset of all and no line feed stands in the text. -/
theorem report_locates {file : LintedFile} (fits : (SourceText.ofString file.content).Fits)
    (alwaysWarn : Bool) :
    List.Forall₂
      (fun f found =>
        found.diagnostic.start = f.start ∧
          found.diagnostic.length.toNat = f.stop.toNat - f.start.toNat ∧
          found.StandsOn (SourceText.ofString file.content) f.start ∧
          (found.CountsTo (SourceText.ofString file.content) f.start ↔
            ¬ ('\n' ∉ file.content.toList ∧ f.start.toNat = UInt32.size - 1)))
      file.failures (file.report alwaysWarn).findings := by
  rw [LintedFile.report, List.forall₂_map_right_iff, List.forall₂_same]
  intro f _
  exact ⟨rfl, toNat_lengthOf f, Finding.ofFailure_standsOn fits file.path.text alwaysWarn f,
    Finding.ofFailure_countsTo_iff fits file.path.text alwaysWarn f⟩

def reported (content text : String) : LintedFile :=
  ⟨⟨"/w/a.ts"⟩, content,
    ⟨.linted, (LintOutput.ofText? text).getD .empty, [], none, none⟩⟩

def farthestReport : String :=
  "\x7b\"failures\":[\x7b\"fileName\":\"/w/a.ts\",\"start\":4294967295,\"end\":0,"
    ++ "\"message\":\"m\"\x7d]\x7d"

/-- In a text of one line the column of the greatest offset comes out as zero. -/
theorem column_wraps :
    let file := reported "let x" farthestReport
    (SourceText.ofString file.content).Fits ∧ file.failures.map (·.start) = [4294967295] ∧
      ∃ found, (file.report false).findings = [found] ∧ found.line = 1 ∧ found.column = 0 ∧
        ¬ found.CountsTo (SourceText.ofString file.content) 4294967295 := by
  intro file
  have positions : (file.report false).findings.map (fun found => (found.line, found.column)) =
      [(1, 0)] := by decide +kernel
  obtain ⟨found, only, position⟩ := List.map_eq_singleton_iff.mp positions
  obtain ⟨line, column⟩ := Prod.mk.inj position
  refine ⟨by decide, by decide +kernel, found, only, line, column, fun counts => ?_⟩
  have positive := counts.positive
  rw [column] at positive
  contradiction

/-- With a second line in front of it the same failure, which starts beyond the text and ends before it
starts, is found in its place. -/
theorem report_locates_beyond :
    let file := reported "let x;\n😀" farthestReport
    (SourceText.ofString file.content).Fits ∧
      ∃ found, (file.report false).findings = [found] ∧ found.diagnostic.length.toNat = 0 ∧
        found.StandsOn (SourceText.ofString file.content) 4294967295 ∧
        found.CountsTo (SourceText.ofString file.content) 4294967295 := by
  intro file
  have fits : (SourceText.ofString file.content).Fits := by decide
  have starts : file.failures.map (fun f => (f.start, f.stop)) = [(4294967295, 0)] := by
    decide +kernel
  obtain ⟨f, only, range⟩ := List.map_eq_singleton_iff.mp starts
  obtain ⟨start, stop⟩ := Prod.mk.inj range
  have located := report_locates fits false
  rw [only] at located
  obtain ⟨found, others, ⟨-, length, stands, counts⟩, none, findings⟩ :=
    List.forall₂_cons_left_iff.mp located
  obtain rfl := List.forall₂_nil_left_iff.mp none
  rw [start] at length stands counts
  rw [stop] at length
  exact ⟨fits, found, findings, length, stands, counts.mpr (by decide)⟩

end LintBridge.CommandLine
