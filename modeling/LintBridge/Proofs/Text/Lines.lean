import LintBridge.Proofs.BinarySearch
import LintBridge.Proofs.Text.Measure
import LintBridge.Proofs.Text.Pieces
import LintBridge.Text.Encoding
import Mathlib.Data.List.Basic
/-!
Lines and offsets. In a text of less than `2 ^ 32` units the starts of lines ascend, so the line of an
offset is the last one that starts at or before it (`lineStart_le_iff`). It is numbered by the line
feeds that end at or before the offset (`lineOf_eq_feedsUpTo`), and what stands before its start are
the lines before it (`measure_ended_lineOf`). So the starts tell of a text what its pieces between line
feeds tell (`starts_agree_with_lines`).
-/
namespace LintBridge

namespace Text

def feedsUpTo (text : List Char) (offset : Nat) : Nat :=
  (List.range text.length).countP fun i =>
    text[i]? = some '\n' && measure unitWidth (text.take (i + 1)) ≤ offset

def ended (lines : List (List Char)) : List Char := lines.flatMap (· ++ ['\n'])

theorem count_eq_countP_range (c : Char) (text : List Char) :
    (List.range text.length).countP (fun i => text[i]? = some c) = text.count c := by
  induction text with
  | nil => rfl
  | cons first rest ih =>
    rw [List.length_cons, List.range_succ_eq_map, List.countP_cons, List.countP_map, List.count_cons]
    simp only [Function.comp_def, List.getElem?_cons_succ, ih, List.getElem?_cons_zero]
    simp

theorem feedsUpTo_append {before : List Char} {offset : Nat}
    (passed : measure unitWidth before ≤ offset) (after : List Char) :
    feedsUpTo (before ++ after) offset =
      before.count '\n' + feedsUpTo after (offset - measure unitWidth before) := by
  rw [feedsUpTo, List.length_append, List.range_add, List.countP_append, List.countP_map,
    ← count_eq_countP_range]
  congr 1
  · refine List.countP_congr fun i listed => ?_
    have inside : i < before.length := List.mem_range.mp listed
    have within : measure unitWidth (before.take (i + 1)) ≤ offset := by
      refine Nat.le_trans ?_ passed
      conv_rhs => rw [← List.take_append_drop (i + 1) before, measure_append]
      exact Nat.le_add_right _ _
    rw [List.getElem?_append_left inside, List.take_append_of_le_length inside]
    simp [within]
  · refine List.countP_congr fun i _ => ?_
    have place : measure unitWidth ((before ++ after).take (before.length + i + 1)) =
        measure unitWidth before + measure unitWidth (after.take (i + 1)) := by
      rw [Nat.add_assoc, List.take_length_add_append, measure_append]
    simp only [Function.comp_apply, place, Nat.le_sub_iff_add_le' passed,
      List.getElem?_append_right (Nat.le_add_right _ _), Nat.add_sub_cancel_left]

theorem feedsUpTo_cons_of_lt {c : Char} {offset : Nat} (before : offset < unitWidth c)
    (rest : List Char) : feedsUpTo (c :: rest) offset = 0 := by
  refine List.countP_eq_zero.mpr fun i _ => ?_
  have beyond : ¬ measure unitWidth (c :: rest.take i) ≤ offset := by
    simp only [measure]
    omega
  simp only [List.take_succ_cons, beyond, decide_false, Bool.and_false, Bool.false_eq_true,
    not_false_eq_true]

theorem length_pieces (separator : Char) (text : List Char) :
    (pieces separator text).length = text.count separator + 1 := by
  induction text with
  | nil => rfl
  | cons c rest ih =>
    rw [pieces, List.count_cons]
    split
    · rename_i same
      simp [ih, same]
    · rename_i other
      cases cut : pieces separator rest with
      | nil => exact absurd cut (pieces_ne_nil _ _)
      | cons first more => simp_all

theorem count_ended {lines : List (List Char)} (clean : ∀ line ∈ lines, '\n' ∉ line) :
    (ended lines).count '\n' = lines.length := by
  induction lines with
  | nil => rfl
  | cons line more ih =>
    have first := List.count_eq_zero.mpr (clean line List.mem_cons_self)
    have rest := ih fun line member => clean line (List.mem_cons_of_mem _ member)
    simp only [ended, List.flatMap_cons, List.count_append, List.length_cons] at rest ⊢
    rw [first, rest]
    simp [Nat.add_comm]

theorem pieces_ended_append {lines : List (List Char)} (clean : ∀ line ∈ lines, '\n' ∉ line)
    (rest : List Char) : pieces '\n' (ended lines ++ rest) = lines ++ pieces '\n' rest := by
  induction lines with
  | nil => rfl
  | cons line more ih =>
    have later := ih fun line member => clean line (List.mem_cons_of_mem _ member)
    have shape : ended (line :: more) ++ rest = line ++ '\n' :: (ended more ++ rest) := by
      simp [ended]
    rw [shape, pieces_append (clean line List.mem_cons_self), later, List.cons_append]

theorem exists_cut (text : List Char) {line : Nat} (there : line < (pieces '\n' text).length) :
    ∃ rest, text = ended ((pieces '\n' text).take line) ++ rest ∧
      pieces '\n' rest = (pieces '\n' text).drop line := by
  have clean (piece : List Char) (member : piece ∈ pieces '\n' text) : '\n' ∉ piece :=
    not_mem_of_mem_pieces member
  have left : (pieces '\n' text).drop line ≠ [] := by
    simpa [List.drop_eq_nil_iff] using there
  have joined (before after : List (List Char)) (more : after ≠ []) :
      join '\n' (before ++ after) = ended before ++ join '\n' after := by
    induction before with
    | nil => rfl
    | cons first before ih =>
      have front : join '\n' (first :: (before ++ after)) =
          first ++ '\n' :: join '\n' (before ++ after) :=
        join_append '\n' (List.cons_ne_nil first []) (by simp [more])
      rw [List.cons_append, front, ih]
      simp [ended]
  refine ⟨join '\n' ((pieces '\n' text).drop line), ?_, ?_⟩
  · rw [← joined _ _ left, List.take_append_drop, join_pieces]
  · exact pieces_join left fun piece member => clean piece (List.mem_of_mem_drop member)

end Text

open Text

namespace SourceText

def Fits (t : SourceText) : Prop := measure unitWidth t.chars < UInt32.size

instance (t : SourceText) : Decidable t.Fits := inferInstanceAs (Decidable (_ < _))

def lines (t : SourceText) : List (List Char) := pieces '\n' t.chars

section StartsAfter

variable {start : UInt32} {text : List Char}

theorem startsAfter_ascending (fits : start.toNat + Text.measure unitWidth text < UInt32.size) :
    (start :: startsAfter start text).Pairwise (· < ·) := by
  induction text generalizing start with
  | nil => simp [startsAfter]
  | cons c rest ih =>
    have wide := unitWidth_pos c
    have next := toNat_next fits
    have step : start < start + UInt32.ofNat (unitWidth c) := by
      rw [UInt32.lt_iff_toNat_lt, next]
      omega
    have fits' : (start + UInt32.ofNat (unitWidth c)).toNat + Text.measure unitWidth rest <
        UInt32.size := by
      rw [next]
      simpa only [Text.measure, Nat.add_assoc] using fits
    have later := ih fits'
    obtain ⟨above, ascending⟩ := List.pairwise_cons.mp later
    have beyond (offset : UInt32)
        (member : offset ∈ startsAfter (start + UInt32.ofNat (unitWidth c)) rest) :
        start < offset := UInt32.lt_trans step (above offset member)
    rw [startsAfter]
    split
    · refine List.pairwise_cons.mpr ⟨fun offset member => ?_, later⟩
      rcases List.mem_cons.mp member with rfl | member
      · exact step
      · exact beyond offset member
    · exact List.pairwise_cons.mpr ⟨beyond, ascending⟩

theorem countP_startsAfter (fits : start.toNat + Text.measure unitWidth text < UInt32.size)
    {offset : UInt32} (reached : start ≤ offset) :
    (startsAfter start text).countP (· ≤ offset) =
      feedsUpTo text (offset.toNat - start.toNat) := by
  induction text generalizing start with
  | nil => rfl
  | cons c rest ih =>
    have next := toNat_next fits
    have fits' : (start + UInt32.ofNat (unitWidth c)).toNat + Text.measure unitWidth rest <
        UInt32.size := by
      rw [next]
      simpa only [Text.measure, Nat.add_assoc] using fits
    rw [UInt32.le_iff_toNat_le] at reached
    by_cases passed : start + UInt32.ofNat (unitWidth c) ≤ offset
    · have within : Text.measure unitWidth [c] ≤ offset.toNat - start.toNat := by
        rw [UInt32.le_iff_toNat_le, next] at passed
        simp only [Text.measure]
        omega
      have counted := feedsUpTo_append within rest
      rw [List.singleton_append, List.count_singleton, Text.measure, Text.measure, Nat.add_zero,
        Nat.sub_sub, ← next, ← ih fits' passed] at counted
      rw [counted, startsAfter]
      by_cases feed : c = '\n'
      · rw [if_pos feed, List.countP_cons, if_pos (by simpa using passed), if_pos (by simpa using feed),
          Nat.add_comm]
      · simp [feed]
    · -- No line starts between the offset and the end of the first character.
      have later := startsAfter_ascending fits'
      have short : offset.toNat - start.toNat < unitWidth c := by
        rw [UInt32.le_iff_toNat_le, next] at passed
        omega
      rw [feedsUpTo_cons_of_lt short]
      have beyond (value : UInt32) (member : value ∈ startsAfter start (c :: rest)) :
          ¬ value ≤ offset := by
        intro le
        have listed : value ∈ (start + UInt32.ofNat (unitWidth c)) ::
            startsAfter (start + UInt32.ofNat (unitWidth c)) rest := by
          rw [startsAfter] at member
          split at member
          · exact member
          · exact List.mem_cons_of_mem _ member
        rcases List.mem_cons.mp listed with rfl | listed
        · exact passed le
        · exact passed (UInt32.le_trans (UInt32.le_of_lt (List.rel_of_pairwise_cons later listed)) le)
      exact List.countP_eq_zero.mpr fun value member => by simpa using beyond value member

end StartsAfter

theorem startsAfter_append_feed {line : List Char} (clean : '\n' ∉ line) (start : UInt32)
    (rest : List Char) :
    startsAfter start (line ++ '\n' :: rest) =
      (start + UInt32.ofNat (Text.measure unitWidth (line ++ ['\n']))) ::
        startsAfter (start + UInt32.ofNat (Text.measure unitWidth (line ++ ['\n']))) rest := by
  induction line generalizing start with
  | nil => simp [startsAfter, Text.measure]
  | cons c line ih =>
    simp only [List.mem_cons, not_or] at clean
    rw [List.cons_append, startsAfter, if_neg (Ne.symm clean.1), ih clean.2]
    simp only [List.cons_append, Text.measure, UInt32.ofNat_add, UInt32.add_assoc]

theorem getElem?_startsAfter {lines : List (List Char)} (clean : ∀ line ∈ lines, '\n' ∉ line)
    (start : UInt32) (rest : List Char) :
    (start :: startsAfter start (ended lines ++ rest))[lines.length]? =
      some (start + UInt32.ofNat (Text.measure unitWidth (ended lines))) := by
  induction lines generalizing start with
  | nil => simp [ended, Text.measure]
  | cons line more ih =>
    have shape : ended (line :: more) = line ++ ['\n'] ++ ended more := by
      simp [ended]
    have later := ih (fun line member => clean line (List.mem_cons_of_mem _ member))
      (start + UInt32.ofNat (Text.measure unitWidth (line ++ ['\n'])))
    have split : ended (line :: more) ++ rest = line ++ '\n' :: (ended more ++ rest) := by
      simp [shape]
    rw [split, startsAfter_append_feed (clean line List.mem_cons_self), List.length_cons,
      List.getElem?_cons_succ, later, shape, measure_append unitWidth (line ++ ['\n']),
      UInt32.ofNat_add, UInt32.add_assoc]

theorem length_lineStarts (t : SourceText) : t.lineStarts.length = t.lines.length := by
  have counted (start : UInt32) (text : List Char) :
      (startsAfter start text).length = text.count '\n' := by
    induction text generalizing start with
    | nil => rfl
    | cons c rest ih =>
      rw [startsAfter]
      split <;> simp_all
  rw [lineStarts, List.length_cons, counted, lines, length_pieces]

theorem clean_of_mem_take {t : SourceText} (line : Nat) :
    ∀ piece ∈ t.lines.take line, '\n' ∉ piece :=
  fun _ member => not_mem_of_mem_pieces (List.mem_of_mem_take member)

section Fits

variable {t : SourceText} (fits : t.Fits)
include fits

theorem lineStarts_ascending : t.lineStarts.Pairwise (· < ·) :=
  startsAfter_ascending (by simpa [Fits] using fits)

/-- The line of an offset is found by halving the starts of lines: the one that starts there, or else
the one before the place where the offset could be put in. -/
theorem lineOf_eq_binarySearch (offset : UInt32) : t.lineOf offset =
    match binarySearch t.lineStarts offset with
    | .ok line => line
    | .error next => next - 1 := by
  have ascending := lineStarts_ascending fits
  rw [binarySearch_eq_ite ascending, lineOf, countP_le_eq, count_eq_ite ascending]
  by_cases member : offset ∈ t.lineStarts
  · simp [member]
  · simp [member]

theorem toNat_lineStart {line : Nat} (there : line < t.lines.length) :
    (t.lineStart line).toNat = Text.measure unitWidth (ended (t.lines.take line)) := by
  obtain ⟨rest, text, -⟩ := exists_cut t.chars there
  have found := getElem?_startsAfter (clean_of_mem_take (t := t) line) 0 rest
  have taken : (t.lines.take line).length = line := List.length_take_of_le (Nat.le_of_lt there)
  have front : Text.measure unitWidth (ended (t.lines.take line)) < UInt32.size := by
    refine Nat.lt_of_le_of_lt ?_ fits
    conv_rhs => rw [text, measure_append]
    exact Nat.le_add_right _ _
  rw [taken] at found
  have start : t.lineStarts[line]? =
      some (UInt32.ofNat (Text.measure unitWidth (ended (t.lines.take line)))) := by
    rw [lineStarts, text]
    simpa [lines] using found
  rw [lineStart, List.getD_eq_getElem?_getD, start, Option.getD_some,
    UInt32.toNat_ofNat_of_lt' front]

/-- The lines that start at or before an offset are the one that it lies in and those before. -/
theorem lineStart_le_iff {line : Nat} (there : line < t.lines.length) (offset : UInt32) :
    t.lineStart line ≤ offset ↔ line ≤ t.lineOf offset := by
  rw [← length_lineStarts] at there
  have first : 0 < t.lineStarts.countP (· ≤ offset) :=
    (lt_countP_le_iff (lineStarts_ascending fits) offset (by simp [lineStarts])).mpr
      (by simp [lineStarts])
  have found := lt_countP_le_iff (lineStarts_ascending fits) offset there
  rw [lineStart, List.getD_eq_getElem?_getD, List.getElem?_eq_getElem there, Option.getD_some,
    ← found, lineOf]
  omega

omit fits in
theorem lineOf_lt (offset : UInt32) : t.lineOf offset < t.lines.length := by
  have counted := List.countP_le_length (l := t.lineStarts) (p := (· ≤ offset))
  have nonempty : 0 < t.lines.length := by simp [lines, length_pieces]
  rw [length_lineStarts] at counted
  rw [lineOf]
  omega

theorem lineStart_lineOf_le (offset : UInt32) : t.lineStart (t.lineOf offset) ≤ offset :=
  (lineStart_le_iff fits (lineOf_lt offset) offset).mpr (Nat.le_refl _)

theorem lineOf_eq_feedsUpTo (offset : UInt32) :
    t.lineOf offset = feedsUpTo t.chars offset.toNat := by
  have from_zero : (0 : UInt32).toNat + Text.measure unitWidth t.chars < UInt32.size := by
    simpa [Fits] using fits
  have reached : 0 ≤ offset := by simp
  have counted := countP_startsAfter from_zero reached
  rw [lineOf, lineStarts, List.countP_cons, counted]
  simp

theorem measure_ended_lineOf (offset : UInt32) :
    Text.measure unitWidth (ended (t.lines.take (t.lineOf offset))) ≤ offset.toNat := by
  rw [← toNat_lineStart fits (lineOf_lt offset), ← UInt32.le_iff_toNat_le]
  exact lineStart_lineOf_le fits offset

theorem exists_cut_lineOf (offset : UInt32) :
    ∃ rest, t.chars = ended (t.lines.take (t.lineOf offset)) ++ rest ∧
      pieces '\n' rest = t.lines.drop (t.lineOf offset) ∧
      feedsUpTo rest
        (offset.toNat - Text.measure unitWidth (ended (t.lines.take (t.lineOf offset)))) = 0 := by
  obtain ⟨rest, text, left⟩ := exists_cut t.chars (lineOf_lt offset)
  have text : t.chars = ended (t.lines.take (t.lineOf offset)) ++ rest := text
  have counted := feedsUpTo_append (measure_ended_lineOf fits offset) rest
  rw [← text, ← lineOf_eq_feedsUpTo fits, count_ended (clean_of_mem_take _),
    List.length_take_of_le (Nat.le_of_lt (lineOf_lt offset))] at counted
  exact ⟨rest, text, left, by omega⟩

omit fits in
theorem lineOf_mono {offset later : UInt32} (le : offset ≤ later) :
    t.lineOf offset ≤ t.lineOf later :=
  Nat.sub_le_sub_right (List.countP_mono_left fun start _ reached => by
    simp only [decide_eq_true_eq] at reached ⊢
    exact UInt32.le_trans reached le) 1

theorem lt_lineStart_lineOf_succ {offset : UInt32} (more : t.lineOf offset + 1 < t.lines.length) :
    offset < t.lineStart (t.lineOf offset + 1) := by
  rw [← UInt32.not_le, lineStart_le_iff fits more]
  omega

theorem lineOf_of_measure_le {offset : UInt32}
    (beyond : Text.measure unitWidth t.chars ≤ offset.toNat) :
    t.lineOf offset + 1 = t.lines.length := by
  have inside := lineOf_lt (t := t) offset
  have there : t.lines.length - 1 < t.lines.length := by omega
  obtain ⟨rest, text, -⟩ := exists_cut t.chars there
  have front : (t.lineStart (t.lines.length - 1)).toNat ≤ Text.measure unitWidth t.chars := by
    rw [toNat_lineStart fits there]
    conv_rhs => rw [text, measure_append]
    exact Nat.le_add_right _ _
  have started : t.lineStart (t.lines.length - 1) ≤ offset :=
    UInt32.le_iff_toNat_le.mpr (Nat.le_trans front beyond)
  have last := (lineStart_le_iff fits there offset).mp started
  omega

theorem toNat_lineStart_succ {i : Nat} {line : List Char} (found : t.lines[i]? = some line)
    (more : i + 1 < t.lines.length) :
    (t.lineStart (i + 1)).toNat =
      (t.lineStart i).toNat + Text.measure unitWidth line + 1 := by
  have there : i < t.lines.length := Nat.lt_of_succ_lt more
  have split : ended (t.lines.take (i + 1)) = ended (t.lines.take i) ++ (line ++ ['\n']) := by
    simp [ended, List.take_add_one, found]
  have feed : Text.measure unitWidth ['\n'] = 1 := rfl
  rw [toNat_lineStart fits more, toNat_lineStart fits there, split, measure_append, measure_append,
    feed, Nat.add_assoc]

omit fits in
theorem lineText_cases {i : Nat} {line : List Char} (found : t.lines[i]? = some line) :
    line = t.lineText i ++ ['\r'] ∨ line = t.lineText i ∧ ¬ ['\r'] <:+ line := by
  have text : t.lineText i = dropLast? '\r' line := by
    rw [lineText, ← lines, found]
  rw [text, dropLast?]
  split
  · rename_i last
    obtain ⟨front, rfl⟩ := List.getLast?_eq_some_iff.mp last
    exact Or.inl (by rw [List.dropLast_concat])
  · rename_i other
    refine Or.inr ⟨rfl, ?_⟩
    rintro ⟨front, rfl⟩
    simp at other

end Fits

/-- The starts of lines and the pieces between line feeds tell the same of a text. The line of an offset
is numbered by the line feeds that end at or before it, starts at or before it, and is the last such
line; the starts are as many as the pieces, and each lies behind the piece before it and its line
feed. -/
theorem starts_agree_with_lines {t : SourceText} (fits : t.Fits) :
    (∀ offset : UInt32,
      t.lineOf offset = feedsUpTo t.chars offset.toNat ∧ t.lineOf offset < t.lines.length ∧
        t.lineStart (t.lineOf offset) ≤ offset ∧
        (t.lineOf offset + 1 < t.lines.length → offset < t.lineStart (t.lineOf offset + 1)) ∧
        (Text.measure unitWidth t.chars ≤ offset.toNat → t.lineOf offset + 1 = t.lines.length) ∧
        ∀ later, offset ≤ later → t.lineOf offset ≤ t.lineOf later) ∧
      t.lineStarts.length = t.lines.length ∧
      ∀ i line, t.lines[i]? = some line →
        (i + 1 < t.lines.length → (t.lineStart (i + 1)).toNat =
          (t.lineStart i).toNat + Text.measure unitWidth line + 1) ∧
        (line = t.lineText i ++ ['\r'] ∨ line = t.lineText i ∧ ¬ ['\r'] <:+ line) := by
  refine ⟨fun offset => ⟨?_, ?_, ?_, ?_, ?_, ?_⟩, ?_, fun i line found => ⟨?_, ?_⟩⟩
  · exact lineOf_eq_feedsUpTo fits offset
  · exact lineOf_lt offset
  · exact lineStart_lineOf_le fits offset
  · exact lt_lineStart_lineOf_succ fits
  · exact lineOf_of_measure_le fits
  · exact fun later => lineOf_mono
  · exact length_lineStarts t
  · exact toNat_lineStart_succ fits found
  · exact lineText_cases found

theorem starts_agree_with_lines_mixed :
    let t := SourceText.ofString "a😀\r\n\nx\r"
    t.Fits ∧ t.lineOf 4 = 0 ∧ t.lineOf 5 = 1 ∧ t.lineOf 4294967295 = 2 ∧
      (t.lineStart 1).toNat = 0 + 4 + 1 ∧ (t.lineStart 2).toNat = 5 + 0 + 1 ∧
      t.lineText 0 = "a😀".toList ∧ t.lineText 2 = "x".toList := by
  intro t
  have fits : t.Fits := by decide
  obtain ⟨offsets, -, pieces⟩ := starts_agree_with_lines fits
  obtain ⟨second, first_text⟩ := pieces 0 "a😀\r".toList (by decide)
  obtain ⟨third, -⟩ := pieces 1 [] (by decide)
  obtain ⟨-, last_text⟩ := pieces 2 "x\r".toList (by decide)
  have last := (offsets 4294967295).2.2.2.2.1 (by decide)
  refine ⟨fits, (offsets 4).1.trans (by decide), (offsets 5).1.trans (by decide), ?_,
    second (by decide), third (by decide), ?_, ?_⟩
  · exact Nat.succ.inj (last.trans (by decide))
  · rcases first_text with eq | ⟨-, other⟩
    · exact (List.append_cancel_right (eq.symm.trans (by decide))).symm
    · exact absurd (by decide) other
  · rcases last_text with eq | ⟨-, other⟩
    · exact (List.append_cancel_right (eq.symm.trans (by decide))).symm
    · exact absurd (by decide) other

end SourceText
end LintBridge
