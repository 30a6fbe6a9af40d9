import LintBridge.Proofs.Edit.Applying
import Mathlib.Algebra.Ring.Int.Defs
/-!
Making any batch of replacements. They may overlap, stand in any order, end beyond the text or split
its characters. Each meets the text that those before it have left (`attempts`): if its range fits that
text it is spliced in, and otherwise the text stays as it is (`Attempt.spliced`,
`Attempt.left_of_not_fits`). What a whole batch does follows by adding up its attempts
(`applyReplacements_accounted`).
-/
namespace LintBridge
open Text

namespace Replacement

/-- What it is to splice a replacement into a text: its range runs forward, ends within the text and
splits no character, and the bytes of the range give way to those of the new text. -/
structure SplicedInto (met : List Char) (r : Replacement) (left : List Char) : Prop where
  forward : r.start.toNat ≤ r.stop.toNat
  inside : r.stop.toNat ≤ (bytes met).length
  start_boundary : IsBoundary byteWidth met r.start.toNat
  stop_boundary : IsBoundary byteWidth met r.stop.toNat
  bytes_eq : bytes left =
    (bytes met).take r.start.toNat ++ (bytes r.text.toList ++ (bytes met).drop r.stop.toNat)

def growth (r : Replacement) : Int :=
  (bytes r.text.toList).length - ((r.stop.toNat : Int) - r.start.toNat)

theorem splicedInto_append {before removed : List Char} {r : Replacement}
    (start : r.start.toNat = measure byteWidth before)
    (stop : r.stop.toNat = measure byteWidth (before ++ removed)) (after : List Char) :
    r.SplicedInto (before ++ (removed ++ after)) (before ++ (r.text.toList ++ after)) where
  forward := r.start_le_stop
  inside := by
    rw [stop, length_bytes, ← List.append_assoc, measure_append byteWidth (before ++ removed)]
    exact Nat.le_add_right _ _
  start_boundary := ⟨before, List.prefix_append .., start.symm⟩
  stop_boundary := ⟨before ++ removed, ⟨after, List.append_assoc ..⟩, stop.symm⟩
  bytes_eq := by
    have front : (bytes (before ++ (removed ++ after))).take r.start.toNat = bytes before := by
      rw [bytes_append, List.take_left' (by rw [length_bytes, start])]
    have back : (bytes (before ++ (removed ++ after))).drop r.stop.toNat = bytes after := by
      rw [← List.append_assoc, bytes_append, List.drop_left' (by rw [length_bytes, stop])]
    rw [front, back, bytes_append, bytes_append]

namespace SplicedInto

variable {met left : List Char} {r : Replacement} (spliced : r.SplicedInto met left)
include spliced

theorem length_eq : ((bytes left).length : Int) = (bytes met).length + r.growth := by
  have forward := spliced.forward
  have inside := spliced.inside
  rw [spliced.bytes_eq, growth]
  simp only [List.length_append, List.length_take, List.length_drop]
  omega

theorem take_eq {place : Nat} (reached : place ≤ r.start.toNat) :
    (bytes left).take place = (bytes met).take place := by
  have front : place ≤ ((bytes met).take r.start.toNat).length := by
    have forward := spliced.forward
    have inside := spliced.inside
    rw [List.length_take]
    omega
  rw [spliced.bytes_eq, List.take_append_of_le_length front, List.take_take, Nat.min_eq_left reached]

end SplicedInto
end Replacement

/-! ### One attempt -/

/-- A step that tests the range of the replacement before it replaces it. A range that passes the test
and yet cannot be replaced would leave the step without an outcome. -/
def Applied.testedStep? (done : Applied) (r : Replacement) : Option Applied :=
  if r.FitsIn done.content then
    (r.applyTo? byteWidth done.content).map fun content => ⟨done.count + 1, content⟩
  else some done

structure Attempt where
  met : Applied
  replacement : Replacement

namespace Attempt

def left (a : Attempt) : Applied := a.met.step a.replacement

def Fits (a : Attempt) : Prop := a.replacement.FitsIn a.met.content

instance (a : Attempt) : Decidable a.Fits := inferInstanceAs (Decidable (_ ∧ _))

variable {a : Attempt}

theorem left_of_fits (fits : a.Fits) :
    ∃ before removed after, a.met.content = before ++ (removed ++ after) ∧
      a.replacement.start.toNat = measure byteWidth before ∧
      a.replacement.stop.toNat = measure byteWidth (before ++ removed) ∧
      a.left = ⟨a.met.count + 1, before ++ (a.replacement.text.toList ++ after)⟩ := by
  obtain ⟨⟨count, content⟩, r⟩ := a
  obtain ⟨before, removed, after, rfl, start, stop⟩ :=
    fits.1.cut byteWidth_pos fits.2 r.start_le_stop (List.nil_append _).symm (Nat.zero_le _)
  exact ⟨before, removed, after, rfl, start.symm, stop.symm, step_append start.symm stop.symm⟩

theorem spliced (fits : a.Fits) :
    a.left.count = a.met.count + 1 ∧ a.replacement.SplicedInto a.met.content a.left.content := by
  obtain ⟨before, removed, after, parts, start, stop, left⟩ := left_of_fits fits
  rw [left, parts]
  exact ⟨rfl, Replacement.splicedInto_append start stop after⟩

theorem left_of_not_fits (outside : ¬ a.Fits) : a.left = a.met := by
  rcases step_cases a.met a.replacement with same | ⟨before, removed, after, parts, start, stop, -⟩
  · exact same
  · -- Where a step makes the replacement, the two cuts are boundaries of the text.
    have spliced := Replacement.splicedInto_append start stop after
    rw [← parts] at spliced
    exact absurd ⟨spliced.start_boundary, spliced.stop_boundary⟩ outside

theorem testedStep?_eq (a : Attempt) : a.met.testedStep? a.replacement = some a.left := by
  by_cases fits : a.replacement.FitsIn a.met.content
  · obtain ⟨before, removed, after, parts, start, stop, left⟩ := left_of_fits fits
    have replaced : a.replacement.applyTo? byteWidth a.met.content =
        some (before ++ (a.replacement.text.toList ++ after)) := by
      rw [Replacement.applyTo?, parts, start, stop, splice?_append byteWidth_pos]
    rw [Applied.testedStep?, if_pos fits, replaced, left]
    rfl
  · rw [Applied.testedStep?, if_neg fits, left_of_not_fits fits]

end Attempt

/-! ### All attempts -/

def attempts (done : Applied) : List Replacement → List Attempt
  | [] => []
  | r :: rest => ⟨done, r⟩ :: attempts (done.step r) rest

theorem map_replacement_attempts (done : Applied) (replacements : List Replacement) :
    (attempts done replacements).map Attempt.replacement = replacements := by
  induction replacements generalizing done with
  | nil => rfl
  | cons r rest ih => rw [attempts, List.map_cons, ih]

section Run

variable (done : Applied)

theorem first_attempt (r : Replacement) (rest : List Replacement) :
    ((attempts done (r :: rest)).filter (·.Fits) =
        ⟨done, r⟩ :: (attempts (done.step r) rest).filter (·.Fits) ∧
      (done.step r).count = done.count + 1 ∧ r.SplicedInto done.content (done.step r).content) ∨
    ((attempts done (r :: rest)).filter (·.Fits) = (attempts done rest).filter (·.Fits) ∧
      done.step r = done) := by
  let a : Attempt := ⟨done, r⟩
  rw [attempts]
  by_cases fits : a.Fits
  · exact .inl ⟨List.filter_cons_of_pos (by simpa using fits), Attempt.spliced fits⟩
  · have same : done.step r = done := Attempt.left_of_not_fits fits
    rw [same]
    exact .inr ⟨List.filter_cons_of_neg (by simpa using fits), rfl⟩

variable (replacements : List Replacement)

theorem foldlM_testedStep? :
    replacements.foldlM Applied.testedStep? done = some (replacements.foldl Applied.step done) := by
  have steps : Applied.testedStep? = fun done r => pure (done.step r) :=
    funext fun done => funext fun r => Attempt.testedStep?_eq ⟨done, r⟩
  rw [steps, List.foldlM_pure]
  rfl

theorem count_foldl_step : (replacements.foldl Applied.step done).count =
    done.count + ((attempts done replacements).filter (·.Fits)).length := by
  induction replacements generalizing done with
  | nil => rfl
  | cons r rest ih =>
    rw [List.foldl_cons]
    rcases first_attempt done r rest with ⟨made, counted, -⟩ | ⟨skipped, same⟩
    · rw [made, List.length_cons, ih, counted]
      omega
    · rw [skipped, same, ih]

theorem length_foldl_step : ((bytes (replacements.foldl Applied.step done).content).length : Int) =
    (bytes done.content).length +
      (((attempts done replacements).filter (·.Fits)).map (·.replacement.growth)).sum := by
  induction replacements generalizing done with
  | nil => simp [attempts]
  | cons r rest ih =>
    rw [List.foldl_cons]
    rcases first_attempt done r rest with ⟨made, -, spliced⟩ | ⟨skipped, same⟩
    · rw [made, List.map_cons, List.sum_cons, ih, spliced.length_eq, Int.add_assoc]
    · rw [skipped, same, ih]

theorem take_foldl_step {place : Nat} (behind : ∀ r ∈ replacements, place ≤ r.start.toNat) :
    (bytes (replacements.foldl Applied.step done).content).take place =
      (bytes done.content).take place := by
  induction replacements generalizing done with
  | nil => rfl
  | cons r rest ih =>
    obtain ⟨here, behind⟩ := List.forall_mem_cons.mp behind
    rw [List.foldl_cons, ih _ behind]
    rcases first_attempt done r rest with ⟨-, -, spliced⟩ | ⟨-, same⟩
    · exact spliced.take_eq here
    · rw [same]

end Run

/-- Whatever the replacements, each that passes the test of its range can be made, and it is spliced
into the text that those before it have left; the others leave it as it is. The count and those that are
skipped make up the batch, the length in bytes changes by what is spliced in, and the bytes before all
starts stay. -/
theorem applyReplacements_accounted (content : String) (batch : List Replacement) :
    let done := applyReplacements content batch
    let run := attempts ⟨0, content.toList⟩ (fromTheEnd batch)
    let made := run.filter (·.Fits)
    let skipped := run.filter (¬ ·.Fits)
    (run.map Attempt.replacement).Perm batch ∧
      (fromTheEnd batch).foldlM Applied.testedStep? ⟨0, content.toList⟩ = some done ∧
      (∀ a ∈ made, a.left.count = a.met.count + 1 ∧
        a.replacement.SplicedInto a.met.content a.left.content) ∧
      (∀ a ∈ skipped, a.left = a.met) ∧
      done.count = made.length ∧ done.count + skipped.length = batch.length ∧
      ((bytes done.text.toList).length : Int) =
        (bytes content.toList).length + (made.map (·.replacement.growth)).sum ∧
      ∀ place, (∀ r ∈ batch, place ≤ r.start.toNat) →
        (bytes done.text.toList).take place = (bytes content.toList).take place := by
  intro done run made skipped
  have replacements : run.map Attempt.replacement = fromTheEnd batch := map_replacement_attempts _ _
  have shuffled : (fromTheEnd batch).Perm batch := List.mergeSort_perm batch _
  have text : done.text.toList = done.content := String.toList_ofList
  have count : done.count = made.length := by
    have counted := count_foldl_step ⟨0, content.toList⟩ (fromTheEnd batch)
    rwa [Nat.zero_add] at counted
  have all : made.length + skipped.length = batch.length := by
    rw [← shuffled.length_eq, ← replacements, List.length_map,
      run.length_eq_length_filter_add (·.Fits)]
    simp [made, skipped]
  refine ⟨replacements ▸ shuffled, foldlM_testedStep? _ _, fun a member => ?_, fun a member => ?_,
    count, count ▸ all, ?_, fun place behind => ?_⟩
  · exact Attempt.spliced (by simpa using List.of_mem_filter member)
  · exact Attempt.left_of_not_fits (by simpa using List.of_mem_filter member)
  · rw [text]
    exact length_foldl_step ⟨0, content.toList⟩ (fromTheEnd batch)
  · rw [text]
    exact take_foldl_step ⟨0, content.toList⟩ (fromTheEnd batch) fun r member =>
      behind r (shuffled.mem_iff.mp member)

/-- A start inside a character, an end that goes beyond the words, and two replacements that overlap.
The second of these splits a character of the text that is given, but not of the one that it meets. -/
def crossing : List Replacement :=
  [⟨3, 1, "!"⟩, ⟨1, 4, "xy"⟩, ⟨1, 1, ""⟩] ++ [⟨6, 4294967295, ""⟩, ⟨5, 1, "z"⟩]

theorem applyReplacements_accounted_crossing :
    (∀ r ∈ crossing, 1 ≤ r.start.toNat) ∧
      let done := applyReplacements "a😀bc" crossing
      done.text = "ayzc" ∧ done.count = 3 ∧
        ((bytes done.text.toList).length : Int) = (bytes "a😀bc".toList).length + (0 - 2 - 1) ∧
        (bytes done.text.toList).take 1 = (bytes "a😀bc".toList).take 1 := by
  have behind : ∀ r ∈ crossing, 1 ≤ r.start.toNat := by decide
  have order : fromTheEnd crossing =
      [⟨6, 4294967295, ""⟩, ⟨5, 1, "z"⟩] ++ [⟨3, 1, "!"⟩, ⟨1, 4, "xy"⟩, ⟨1, 1, ""⟩] := by
    rw [crossing, fromTheEnd_append (by decide)]
    exact congrArg₂ (· ++ ·) (List.mergeSort_of_pairwise (by decide))
      (List.mergeSort_of_pairwise (by decide))
  obtain ⟨-, -, -, -, -, -, length, kept⟩ := applyReplacements_accounted "a😀bc" crossing
  rw [order] at length
  refine ⟨behind, ?_, ?_, length, kept 1 behind⟩
  · rw [applyReplacements, order]
    decide
  · rw [applyReplacements, order]
    decide

end LintBridge
