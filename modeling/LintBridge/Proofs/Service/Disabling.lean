import LintBridge.Proofs.Text.Lines
import LintBridge.Service.FixAction
import Mathlib.Data.List.TakeWhile
/-!
What disabling a rule does to the text. The change inserts at the start of the failure's line, so the
lines before it stay, one line is new, and the failure's line with all after it stays behind it
(`disableRule_inserts_line`).
-/
namespace LintBridge

open Text FixAction

def Replacement.madeIn? (r : Replacement) (text : List Char) : Option (List Char) :=
  splice? unitWidth r.start.toNat (r.start.toNat + r.length.toNat) r.text.toList text

namespace SourceText

def indents (c : Char) : Bool := c = ' ' || c = '\t'

theorem takeWhile_dropLast? {c : Char} {keep : Char → Bool} (out : keep c = false) (text : List Char) :
    (dropLast? c text).takeWhile keep = text.takeWhile keep := by
  unfold dropLast?
  split
  · rename_i last
    obtain ⟨front, rfl⟩ := List.getLast?_eq_some_iff.mp last
    rw [List.dropLast_concat, List.takeWhile_append]
    split
    · rename_i all
      have whole : front.takeWhile keep = front := (List.takeWhile_prefix keep).eq_of_length all
      simp [whole, out]
    · rfl
  · rfl

theorem indentation_eq {t : SourceText} {number : Nat} {line : List Char}
    (found : t.lines[number]? = some line) : t.indentation number = line.takeWhile indents := by
  rw [indentation, lineText, ← lines, found]
  exact takeWhile_dropLast? (by decide) line

end SourceText

section Insert

variable {earlier : List (List Char)} {line : List Char} {offset : Nat}

theorem measure_ended_concat (earlier : List (List Char)) (line : List Char) :
    Text.measure unitWidth (ended (earlier ++ [line])) =
      Text.measure unitWidth (ended earlier) + Text.measure unitWidth (line ++ ['\n']) := by
  simp [ended]

theorem drop_codeUnits_insert (passed : Text.measure unitWidth (ended earlier) ≤ offset)
    (line rest : List Char) :
    (codeUnits (ended (earlier ++ [line]) ++ rest)).drop
        (offset + Text.measure unitWidth (line ++ ['\n'])) =
      (codeUnits (ended earlier ++ rest)).drop offset := by
  have behind : ∀ front place, Text.measure unitWidth front ≤ place →
      (codeUnits (front ++ rest)).drop place =
        (codeUnits rest).drop (place - Text.measure unitWidth front) := by
    intro front place le
    rw [codeUnits_append, List.drop_append, length_codeUnits,
      List.drop_eq_nil_of_le (by rwa [length_codeUnits]), List.nil_append]
  rw [behind (ended earlier) offset passed, behind, measure_ended_concat]
  · congr 1
    omega
  · rw [measure_ended_concat]
    omega

theorem feedsUpTo_insert (clean : ∀ piece ∈ earlier ++ [line], '\n' ∉ piece)
    (passed : Text.measure unitWidth (ended earlier) ≤ offset) (rest : List Char) :
    feedsUpTo (ended (earlier ++ [line]) ++ rest)
        (offset + Text.measure unitWidth (line ++ ['\n'])) =
      earlier.length + 1 + feedsUpTo rest (offset - Text.measure unitWidth (ended earlier)) := by
  have units := measure_ended_concat earlier line
  rw [feedsUpTo_append (by omega), count_ended clean, List.length_append, List.length_singleton, units]
  congr 2
  omega

end Insert

def disablingLine (rule : String) (line : List Char) : List Char :=
  line.takeWhile SourceText.indents ++ ("// tslint:disable-next-line: " ++ rule).toList

theorem not_mem_disablingLine {rule : String} (clean : '\n' ∉ rule.toList) (line : List Char) :
    '\n' ∉ disablingLine rule line := by
  have comment : '\n' ∉ "// tslint:disable-next-line: ".toList := by decide
  have indent : '\n' ∉ line.takeWhile SourceText.indents := fun member =>
    absurd (List.mem_takeWhile_imp member) (by decide)
  simp only [disablingLine, String.toList_append, List.mem_append, not_or]
  exact ⟨indent, comment, clean⟩

theorem changes_disableRule {t : SourceText} {p : Problem} {line : List Char}
    (found : t.lines[t.lineOf p.failure.start]? = some line) (file : String) :
    (disableRule p file t).changes = [⟨file, [⟨t.lineStart (t.lineOf p.failure.start), 0,
      String.ofList (disablingLine p.rule line ++ ['\n'])⟩]⟩] := by
  have text : String.ofList (t.indentation (t.lineOf p.failure.start)) ++ disableComment p.rule ++
      "\n" = String.ofList (disablingLine p.rule line ++ ['\n']) := by
    refine String.toList_inj.mp ?_
    rw [String.toList_append, String.toList_append, String.toList_ofList, String.toList_ofList,
      String.toList_ofList, SourceText.indentation_eq found]
    rfl
  simp only [disableRule, text]

/-- The change that disables a rule puts one line before that of the failure: the failure's indentation
and the comment. All lines of the text stay as they are, and the failure, which moves with the text,
lies on the line after the new one. -/
theorem disableRule_inserts_line {t : SourceText} (fits : t.Fits) {p : Problem}
    (clean : '\n' ∉ p.rule.toList) (file : String) :
    let start := p.failure.start.toNat
    let number := feedsUpTo t.chars start
    ∃ change line result,
      (disableRule p file t).changes = [⟨file, [change]⟩] ∧ t.lines[number]? = some line ∧
      change.madeIn? t.chars = some result ∧
      pieces '\n' result = t.lines.take number ++
        (line.takeWhile SourceText.indents ++
          ("// tslint:disable-next-line: " ++ p.rule).toList) :: t.lines.drop number ∧
      let moved := start + Text.measure unitWidth change.text.toList
      (codeUnits result).drop moved = (codeUnits t.chars).drop start ∧
        feedsUpTo result moved = number + 1 := by
  intro start number
  have number_eq : t.lineOf p.failure.start = number :=
    SourceText.lineOf_eq_feedsUpTo fits p.failure.start
  have inside := SourceText.lineOf_lt (t := t) p.failure.start
  have passed := SourceText.measure_ended_lineOf fits p.failure.start
  have first := SourceText.toNat_lineStart fits inside
  have earlier := SourceText.clean_of_mem_take (t := t) (t.lineOf p.failure.start)
  have length := List.length_take_of_le (Nat.le_of_lt inside)
  obtain ⟨rest, text, left, none⟩ := SourceText.exists_cut_lineOf fits p.failure.start
  rw [number_eq] at inside passed first earlier length text left none
  have there : t.lines[number]? = some t.lines[number] := List.getElem?_eq_getElem inside
  let new := disablingLine p.rule t.lines[number]
  have lines_clean : ∀ piece ∈ t.lines.take number ++ [new], '\n' ∉ piece := by
    intro piece member
    rcases List.mem_append.mp member with before | last
    · exact earlier piece before
    · rw [List.mem_singleton.mp last]
      exact not_mem_disablingLine clean _
  let change : Replacement := ⟨t.lineStart number, 0, String.ofList (new ++ ['\n'])⟩
  have inserted : change.text.toList = new ++ ['\n'] := String.toList_ofList
  refine ⟨change, t.lines[number], ended (t.lines.take number ++ [new]) ++ rest, ?_, there,
    ?_, ?_, ?_, ?_⟩
  · have changes := changes_disableRule (p := p) (by rwa [number_eq]) file
    rwa [number_eq] at changes
  · have made := splice?_append unitWidth_pos (ended (t.lines.take number)) [] rest (new ++ ['\n'])
    have joined : ended (t.lines.take number) ++ ((new ++ ['\n']) ++ rest) =
        ended (t.lines.take number ++ [new]) ++ rest := by simp [ended]
    rw [List.append_nil, List.nil_append, ← first, joined, ← text] at made
    rw [Replacement.madeIn?, inserted]
    exact made
  · rw [pieces_ended_append lines_clean, left, List.append_assoc, List.singleton_append]
    rfl
  · rw [inserted, drop_codeUnits_insert passed, ← text]
  · rw [inserted, feedsUpTo_insert lines_clean passed, none, length]

def indented : SourceText := .ofString "a😀\r\n \tlet x\n"

def onIndented : Problem := .ofFailure ⟨"/w/a.ts", 7, 12, "m", some "semicolon", none, none⟩

theorem disableRule_inserts_line_indented :
    indented.Fits ∧ '\n' ∉ onIndented.rule.toList ∧
      ∃ change result, (disableRule onIndented "/w/a.ts" indented).changes = [⟨"/w/a.ts", [change]⟩] ∧
        change.madeIn? indented.chars = some result ∧
        pieces '\n' result = ["a😀\r", " \t// tslint:disable-next-line: semicolon", " \tlet x", ""].map
          String.toList ∧
        feedsUpTo result (7 + Text.measure unitWidth change.text.toList) = 2 := by
  have fits : indented.Fits := by decide
  have clean : '\n' ∉ onIndented.rule.toList := by decide
  have number : feedsUpTo indented.chars onIndented.failure.start.toNat = 1 := by decide
  obtain ⟨change, line, result, changes, found, made, lines, -, moved⟩ :=
    disableRule_inserts_line fits clean "/w/a.ts"
  rw [number] at found lines moved
  have second : indented.lines[1]? = some " \tlet x".toList := by decide
  obtain rfl := Option.some.inj (second.symm.trans found)
  refine ⟨fits, clean, change, result, changes, made, ?_, moved⟩
  rw [lines]
  decide

end LintBridge
