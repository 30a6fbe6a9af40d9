import LintBridge.Edit.Replacement
import LintBridge.Proofs.Edit.Reconcile
import LintBridge.Proofs.Edit.Splice
import LintBridge.Proofs.Text.Measure
import Mathlib.Algebra.Group.Nat.Defs
/-!
Making a batch of replacements with byte offsets, listed from left to right. They are made one after the
other from the last start to the first. Where no two start at one place, this is to make all at once
(`made_of_distinct`). Those that start at one place are made in the order of the list, each in what the
one before it has left there, and there are texts for which this is something else
(`madeAtOnce_iff`).
-/
namespace LintBridge
open Text

theorem fromTheEnd_append {front back : List Replacement}
    (before : ∀ a ∈ front, ∀ b ∈ back, a.start < b.start) :
    fromTheEnd (front ++ back) = fromTheEnd back ++ fromTheEnd front := by
  refine mergeSort_append (fun a b c ab bc => le_key_trans Replacement.start c b a bc ab)
    (fun a b => le_key_total Replacement.start b a) fun a a_member b b_member => ?_
  simpa using before a a_member b b_member

theorem fromTheEnd_of_same_start {group : List Replacement} {start : UInt32}
    (same : ∀ r ∈ group, r.start = start) : fromTheEnd group = group := by
  refine List.mergeSort_of_pairwise (List.pairwise_of_forall_mem_list fun a a_member b b_member => ?_)
  simp [same a a_member, same b b_member]

theorem fromTheEnd_cons {r : Replacement} {replacements : List Replacement}
    (first : ∀ q ∈ replacements, r.start < q.start) :
    fromTheEnd (r :: replacements) = fromTheEnd replacements ++ [r] := by
  have split : fromTheEnd ([r] ++ replacements) = fromTheEnd replacements ++ fromTheEnd [r] := by
    refine fromTheEnd_append fun a a_member b b_member => ?_
    rw [List.mem_singleton.mp a_member]
    exact first b b_member
  have single : fromTheEnd [r] = [r] := List.mergeSort_singleton r
  rwa [single] at split

theorem fromTheEnd_of_pairwise {replacements : List Replacement}
    (sorted : replacements.Pairwise fun a b => a.start < b.start) :
    fromTheEnd replacements = replacements.reverse := by
  induction replacements with
  | nil => exact List.mergeSort_nil
  | cons r replacements ih =>
    obtain ⟨first, sorted⟩ := List.pairwise_cons.mp sorted
    rw [fromTheEnd_cons first, ih sorted, List.reverse_cons]

/-! ### Steps -/

theorem step_append {before removed after : List Char} {count : Nat} {r : Replacement}
    (start : r.start.toNat = measure byteWidth before)
    (stop : r.stop.toNat = measure byteWidth (before ++ removed)) :
    Applied.step ⟨count, before ++ (removed ++ after)⟩ r =
      ⟨count + 1, before ++ (r.text.toList ++ after)⟩ := by
  simp only [Applied.step, Replacement.applyTo?, start, stop, splice?_append byteWidth_pos]

theorem step_cases (done : Applied) (r : Replacement) :
    done.step r = done ∨ ∃ before removed after, done.content = before ++ (removed ++ after) ∧
      r.start.toNat = measure byteWidth before ∧
      r.stop.toNat = measure byteWidth (before ++ removed) ∧
      done.step r = ⟨done.count + 1, before ++ (r.text.toList ++ after)⟩ := by
  obtain ⟨count, content⟩ := done
  cases first : splitAt? byteWidth r.start.toNat content with
  | none => exact .inl (by simp [Applied.step, Replacement.applyTo?, splice?, first])
  | some parts =>
    obtain ⟨before, rest⟩ := parts
    cases second : splitAt? byteWidth (r.stop.toNat - r.start.toNat) rest with
    | none => exact .inl (by simp [Applied.step, Replacement.applyTo?, splice?, first, second])
    | some parts =>
      obtain ⟨removed, after⟩ := parts
      obtain ⟨rfl, start⟩ := (splitAt?_eq_some_iff byteWidth_pos).mp first
      obtain ⟨rfl, length⟩ := (splitAt?_eq_some_iff byteWidth_pos).mp second
      have stop : r.stop.toNat = measure byteWidth (before ++ removed) := by
        have := r.start_le_stop
        rw [measure_append]
        omega
      exact .inr ⟨before, removed, after, rfl, start.symm, stop, step_append start.symm stop⟩

/-- Steps behind a place leave what stands before it. -/
theorem foldl_step_behind {replacements : List Replacement} {done : List Char}
    (behind : ∀ r ∈ replacements, measure byteWidth done ≤ r.start.toNat) (count : Nat)
    (rest : List Char) :
    ∃ made left, replacements.foldl Applied.step ⟨count, done ++ rest⟩ = ⟨made, done ++ left⟩ ∧
      made ≤ count + replacements.length := by
  induction replacements generalizing count rest with
  | nil => exact ⟨count, rest, rfl, Nat.le_refl _⟩
  | cons r replacements ih =>
    have ih := ih fun q member => behind q (List.mem_cons_of_mem _ member)
    rw [List.foldl_cons]
    rcases step_cases ⟨count, done ++ rest⟩ r with same | ⟨before, removed, after, parts, start, -, step⟩
    · obtain ⟨made, left, result, le⟩ := ih count rest
      exact ⟨made, left, by rw [same, result], by rw [List.length_cons]; omega⟩
    · obtain ⟨between, rfl, -⟩ := exists_between_of_measure_le byteWidth_pos parts
        (start ▸ behind r List.mem_cons_self)
      obtain ⟨made, left, result, le⟩ := ih (count + 1) (between ++ (r.text.toList ++ after))
      refine ⟨made, left, ?_, by rw [List.length_cons]; omega⟩
      rw [step, List.append_assoc, result]

theorem step_insert {done rest : List Char} {count : Nat} {r : Replacement}
    (start : r.start.toNat = measure byteWidth done) (empty : r.stop = r.start) :
    Applied.step ⟨count, done ++ rest⟩ r = ⟨count + 1, done ++ (r.text.toList ++ rest)⟩ := by
  have step : Applied.step ⟨count, done ++ ([] ++ rest)⟩ r =
      ⟨count + 1, done ++ (r.text.toList ++ rest)⟩ :=
    step_append start (by rw [empty, start, List.append_nil])
  exact step

theorem foldl_step_nothing {replacements : List Replacement} {done : List Char}
    (here : ∀ r ∈ replacements, r.start.toNat = measure byteWidth done)
    (empty : ∀ r ∈ replacements, r.stop = r.start) (nothing : ∀ r ∈ replacements, r.text = "")
    (count : Nat) (rest : List Char) :
    replacements.foldl Applied.step ⟨count, done ++ rest⟩ =
      ⟨count + replacements.length, done ++ rest⟩ := by
  induction replacements generalizing count with
  | nil => rfl
  | cons r replacements ih =>
    rw [List.forall_mem_cons] at here empty nothing
    have step : Applied.step ⟨count, done ++ rest⟩ r = ⟨count + 1, done ++ rest⟩ := by
      rw [step_insert here.1 empty.1, nothing.1]
      rfl
    rw [List.foldl_cons, step, ih here.2 empty.2 nothing.2, List.length_cons, Nat.add_right_comm,
      Nat.add_assoc]

/-! ### Batches -/

namespace Replacement

def bytePatch (r : Replacement) : Patch UInt8 :=
  ⟨r.start.toNat, r.stop.toNat, bytes r.text.toList⟩

def FitsIn (content : List Char) (r : Replacement) : Prop :=
  IsBoundary byteWidth content r.start.toNat ∧ IsBoundary byteWidth content r.stop.toNat

instance (content : List Char) (r : Replacement) : Decidable (r.FitsIn content) :=
  inferInstanceAs (Decidable (_ ∧ _))

def EndsBy (a b : Replacement) : Prop := a.stop ≤ b.start

instance (a b : Replacement) : Decidable (a.EndsBy b) := inferInstanceAs (Decidable (_ ≤ _))

theorem EndsBy.start_le {a b : Replacement} (ends : a.EndsBy b) : a.start ≤ b.start :=
  UInt32.le_trans (UInt32.le_iff_toNat_le.mpr a.start_le_stop) ends

instance : Trans EndsBy EndsBy EndsBy where
  trans first second := UInt32.le_trans first second.start_le

theorem EndsBy.before {a b : Replacement} (ends : a.EndsBy b) (apart : a.start ≠ b.start) :
    a.Before b :=
  ⟨UInt32.lt_of_le_of_ne ends.start_le apart, ends⟩

theorem EndsBy.empty {a b : Replacement} (ends : a.EndsBy b) (same : b.start = a.start) :
    a.stop = a.start :=
  UInt32.le_antisymm (UInt32.le_trans ends (UInt32.le_of_eq same))
    (UInt32.le_iff_toNat_le.mpr a.start_le_stop)

def SameRange (a b : Replacement) : Prop := a.start = b.start ∧ a.length = b.length

theorem SameRange.stop {a b : Replacement} (same : a.SameRange b) : a.stop = b.stop := by
  rw [Replacement.stop, Replacement.stop, same.1, same.2]

theorem Before.of_sameRange {a b a' b' : Replacement} (before : a.Before b) (first : a.SameRange a')
    (second : b.SameRange b') : a'.Before b' := by
  rwa [Before, ← first.1, ← first.stop, ← second.1]

def withText (r : Replacement) (text : String) : Replacement := { r with text }

end Replacement

theorem forall_mem_of_sameRange {P : Replacement → Prop}
    (keeps : ∀ {a b : Replacement}, a.SameRange b → P a → P b) {batch other : List Replacement}
    (same : List.Forall₂ Replacement.SameRange batch other) (all : ∀ r ∈ batch, P r) :
    ∀ r ∈ other, P r := by
  induction same with
  | nil => exact all
  | cons here _ ih =>
    obtain ⟨first, rest⟩ := List.forall_mem_cons.mp all
    exact List.forall_mem_cons.mpr ⟨keeps here first, ih rest⟩

theorem pairwise_before_of_sameRange {batch other : List Replacement}
    (same : List.Forall₂ Replacement.SameRange batch other)
    (sorted : batch.Pairwise Replacement.Before) : other.Pairwise Replacement.Before := by
  induction same with
  | nil => exact .nil
  | cons here rest ih =>
    obtain ⟨first, sorted⟩ := List.pairwise_cons.mp sorted
    refine List.pairwise_cons.mpr ⟨?_, ih sorted⟩
    exact forall_mem_of_sameRange (fun alike before => before.of_sameRange ⟨rfl, rfl⟩ alike) rest
      fun r member => (first r member).of_sameRange here ⟨rfl, rfl⟩

def MadeAtOnce (content : String) (batch : List Replacement) : Prop :=
  let done := applyReplacements content batch
  bytes done.text.toList =
      Patch.splice (batch.map Replacement.bytePatch) 0 (bytes content.toList) ∧
    done.count = batch.length

/-- Whether replacements behind a place are all made at once. -/
def MadeBehind (done rest : List Char) (batch : List Replacement) : Prop :=
  ∃ left, (fromTheEnd batch).foldl Applied.step ⟨0, done ++ rest⟩ = ⟨batch.length, done ++ left⟩ ∧
    bytes left = Patch.splice (batch.map Replacement.bytePatch) (measure byteWidth done) (bytes rest)

theorem madeAtOnce_iff_madeBehind (content : String) (batch : List Replacement) :
    MadeAtOnce content batch ↔ MadeBehind [] content.toList batch := by
  constructor
  · rintro ⟨same, count⟩
    refine ⟨(applyReplacements content batch).content, ?_, ?_⟩
    · rw [← count]
      rfl
    · simpa [Applied.text, Text.measure] using same
  · rintro ⟨left, result, same⟩
    have applied : applyReplacements content batch = ⟨batch.length, left⟩ := result
    rw [MadeAtOnce, applied]
    exact ⟨by simpa [Applied.text, Text.measure] using same, rfl⟩

theorem foldl_fromTheEnd_behind {batch : List Replacement} (done : List Char)
    (behind : ∀ r ∈ batch, measure byteWidth done ≤ r.start.toNat) (rest : List Char) :
    ∃ made left, (fromTheEnd batch).foldl Applied.step ⟨0, done ++ rest⟩ = ⟨made, done ++ left⟩ ∧
      made ≤ batch.length := by
  obtain ⟨made, left, result, le⟩ :=
    foldl_step_behind (fun r member => behind r (List.mem_mergeSort.mp member)) 0 rest
  rw [List.length_mergeSort, Nat.zero_add] at le
  exact ⟨made, left, result, le⟩

theorem madeBehind_cons_iff {r : Replacement} {batch : List Replacement}
    (first : ∀ q ∈ batch, r.Before q) {done before removed : List Char}
    (start : measure byteWidth (done ++ before) = r.start.toNat)
    (stop : measure byteWidth (done ++ before ++ removed) = r.stop.toNat) (after : List Char) :
    MadeBehind done (before ++ (removed ++ after)) (r :: batch) ↔
      MadeBehind (done ++ before ++ removed) after batch := by
  have behind : ∀ q ∈ batch, measure byteWidth (done ++ before ++ removed) ≤ q.start.toNat := by
    intro q member
    rw [stop]
    exact UInt32.le_iff_toNat_le.mp (first q member).2
  obtain ⟨made, left, result, -⟩ := foldl_fromTheEnd_behind (done ++ before ++ removed) behind after
  have whole : (fromTheEnd (r :: batch)).foldl Applied.step
      ⟨0, done ++ (before ++ (removed ++ after))⟩ =
        ⟨made + 1, done ++ (before ++ (r.text.toList ++ left))⟩ := by
    have parts : done ++ (before ++ (removed ++ after)) = done ++ before ++ removed ++ after := by simp
    rw [fromTheEnd_cons fun q member => (first q member).1, List.foldl_append, parts, result,
      List.append_assoc _ removed, List.foldl_cons, List.foldl_nil, step_append start.symm stop.symm,
      List.append_assoc]
  have patches : Patch.splice ((r :: batch).map Replacement.bytePatch) (measure byteWidth done)
      (bytes (before ++ (removed ++ after))) = bytes before ++ (bytes r.text.toList ++
        Patch.splice (batch.map Replacement.bytePatch) r.stop.toNat (bytes after)) := by
    rw [bytes_append, bytes_append, List.map_cons]
    refine Patch.splice_cons (fun p member => ?_) _ _ _ ?_ ?_
    · obtain ⟨q, q_member, rfl⟩ := List.mem_map.mp member
      have before_q := first q q_member
      exact ⟨UInt32.le_iff_toNat_le.mp before_q.2, UInt32.lt_iff_toNat_lt.mp before_q.1⟩
    · rw [length_bytes, ← measure_append, start]
      rfl
    · rw [length_bytes]
      change r.start.toNat + measure byteWidth removed = r.stop.toNat
      rw [← start, ← measure_append, stop]
  constructor
  · rintro ⟨left', result', same⟩
    obtain ⟨count, content⟩ := Applied.mk.inj (whole.symm.trans result')
    obtain rfl := List.append_cancel_left content
    refine ⟨left, ?_, ?_⟩
    · rw [result, Nat.succ.inj count]
    · rw [patches, bytes_append, bytes_append] at same
      rw [stop]
      exact List.append_cancel_left (List.append_cancel_left same)
  · rintro ⟨left', result', same⟩
    obtain ⟨rfl, content⟩ := Applied.mk.inj (result.symm.trans result')
    obtain rfl := List.append_cancel_left content
    refine ⟨before ++ (r.text.toList ++ left), whole, ?_⟩
    rw [patches, bytes_append, bytes_append, same, stop]

/-! ### Ties -/

/-- A replacement with all others that start where it starts, and those that start behind them. -/
structure Tied (first : Replacement) (between : List Replacement) (last : Replacement)
    (behind : List Replacement) : Prop where
  same : ∀ r ∈ between ++ [last], r.start = first.start
  empty : ∀ r ∈ first :: between, r.stop = r.start
  later : ∀ r ∈ behind, first.start < r.start

theorem tie_append (first last : Replacement) (between behind : List Replacement) :
    first :: (between ++ last :: behind) = first :: (between ++ [last]) ++ behind := by simp

theorem Tied.start_le {first last : Replacement} {between behind : List Replacement}
    (tied : Tied first between last behind) :
    ∀ r ∈ first :: (between ++ last :: behind), first.start ≤ r.start := by
  intro r member
  rw [tie_append, List.mem_append, List.mem_cons] at member
  rcases member with (rfl | member) | member
  · exact UInt32.le_refl _
  · exact UInt32.le_of_eq (tied.same r member).symm
  · exact UInt32.le_of_lt (tied.later r member)

theorem exists_tied {first : Replacement} {batch : List Replacement}
    (listed : (first :: batch).Pairwise Replacement.EndsBy)
    (repeated : first.start ∈ batch.map (·.start)) :
    ∃ between last behind, batch = between ++ last :: behind ∧ Tied first between last behind := by
  induction batch with
  | nil => simp at repeated
  | cons r batch ih =>
    obtain ⟨ahead, listed⟩ := List.pairwise_cons.mp listed
    obtain ⟨first_r, first_rest⟩ := List.forall_mem_cons.mp ahead
    obtain ⟨r_rest, listed⟩ := List.pairwise_cons.mp listed
    by_cases more : first.start ∈ batch.map (·.start)
    · obtain ⟨between, last, behind, rfl, tied⟩ := ih (List.pairwise_cons.mpr ⟨first_rest, listed⟩) more
      have last_same : last.start = first.start := tied.same last (by simp)
      have r_last : r.EndsBy last := r_rest last (by simp)
      have r_same : r.start = first.start :=
        UInt32.le_antisymm (last_same ▸ r_last.start_le) first_r.start_le
      obtain ⟨first_empty, between_empty⟩ := List.forall_mem_cons.mp tied.empty
      have r_empty : r.stop = r.start := r_last.empty (last_same.trans r_same.symm)
      refine ⟨r :: between, last, behind, rfl, ?_, ?_, tied.later⟩
      · exact List.forall_mem_cons.mpr ⟨r_same, tied.same⟩
      · exact List.forall_mem_cons.mpr
          ⟨first_empty, List.forall_mem_cons.mpr ⟨r_empty, between_empty⟩⟩
    · have r_same : r.start = first.start := by
        rw [List.map_cons, List.mem_cons] at repeated
        exact (repeated.resolve_right more).symm
      refine ⟨[], r, batch, rfl, by simpa using r_same, by simpa using first_r.empty r_same, ?_⟩
      intro q member
      refine UInt32.lt_of_le_of_ne (first_rest q member).start_le fun same => more ?_
      exact List.mem_map.mpr ⟨q, member, same.symm⟩

theorem Tied.withTexts {first last : Replacement} {between behind : List Replacement}
    (tied : Tied first between last behind) (x y z : String) :
    Tied (first.withText x) (between.map (·.withText y)) (last.withText z) behind where
  same := by
    have ⟨between_same, last_same⟩ := List.forall_mem_append.mp tied.same
    refine List.forall_mem_append.mpr ⟨List.forall_mem_map.mpr between_same, fun r member => ?_⟩
    rw [List.mem_singleton.mp member]
    exact last_same last List.mem_cons_self
  empty := by
    have ⟨first_empty, between_empty⟩ := List.forall_mem_cons.mp tied.empty
    exact List.forall_mem_cons.mpr ⟨first_empty, List.forall_mem_map.mpr between_empty⟩
  later := tied.later

section Tie

variable {first last : Replacement} {between behind : List Replacement} {done : List Char}

theorem foldl_step_tied (tied : Tied first between last behind)
    (start : measure byteWidth done = first.start.toNat) (nothing : ∀ r ∈ between, r.text = "")
    (made : Nat) (rest : List Char) {outcome : Applied}
    (result : (first :: (between ++ [last])).foldl Applied.step ⟨made, done ++ rest⟩ = outcome) :
    outcome.count ≤ made + between.length + 1 ∨
      ∃ after, outcome.content = done ++ (last.text.toList ++ after) := by
  have here : ∀ r ∈ between ++ [last], r.start.toNat = measure byteWidth done := by
    intro r member
    rw [tied.same r member, start]
  obtain ⟨first_empty, between_empty⟩ := List.forall_mem_cons.mp tied.empty
  rw [List.foldl_cons, step_insert start.symm first_empty, List.foldl_append,
    foldl_step_nothing (fun r member => here r (List.mem_append_left _ member)) between_empty nothing,
    List.foldl_cons, List.foldl_nil] at result
  rcases step_cases ⟨made + 1 + between.length, done ++ (first.text.toList ++ rest)⟩ last with
    skipped | ⟨front, removed, after, parts, place, -, step⟩
  · left
    rw [← result, skipped, Nat.add_right_comm]
  · right
    have length : measure byteWidth done = measure byteWidth front := by
      rw [← place, here last (by simp)]
    rw [← result, step, (eq_of_measure_eq byteWidth_pos parts length).1]
    exact ⟨after, rfl⟩

theorem fromTheEnd_of_tied (tied : Tied first between last behind) :
    fromTheEnd (first :: (between ++ last :: behind)) =
      fromTheEnd behind ++ first :: (between ++ [last]) := by
  have group : ∀ r ∈ first :: (between ++ [last]), r.start = first.start :=
    List.forall_mem_cons.mpr ⟨rfl, tied.same⟩
  have ahead : ∀ a ∈ first :: (between ++ [last]), ∀ b ∈ behind, a.start < b.start := by
    intro a a_member b b_member
    rw [group a a_member]
    exact tied.later b b_member
  rw [tie_append, fromTheEnd_append ahead, fromTheEnd_of_same_start group]

/-- The first replacement of a tie inserts `x` and the last one `y`, and `y` ends up in front. -/
theorem not_madeBehind_of_tied (tied : Tied first between last behind) {before : List Char}
    (start : measure byteWidth (done ++ before) = first.start.toNat) (x : first.text = "x")
    (nothing : ∀ r ∈ between, r.text = "") (y : last.text = "y") (rest : List Char) :
    ¬ MadeBehind done (before ++ rest) (first :: (between ++ last :: behind)) := by
  rintro ⟨left, result, same⟩
  have passed : ∀ r ∈ behind, measure byteWidth (done ++ before) ≤ r.start.toNat := by
    intro r member
    rw [start]
    exact Nat.le_of_lt (UInt32.lt_iff_toNat_lt.mp (tied.later r member))
  obtain ⟨made, kept, ran, le⟩ := foldl_fromTheEnd_behind (done ++ before) passed rest
  rw [fromTheEnd_of_tied tied, List.foldl_append, ← List.append_assoc, ran] at result
  rcases foldl_step_tied tied start nothing made kept result with skipped | ⟨after, front⟩
  · simp only [List.length_cons, List.length_append] at skipped
    omega
  · rw [List.append_assoc, List.append_cancel_left_eq] at front
    have position : measure byteWidth done + (bytes before).length = first.start.toNat := by
      rw [length_bytes, ← measure_append, start]
    have ahead : ∀ p ∈ (first :: (between ++ last :: behind)).map Replacement.bytePatch,
        measure byteWidth done + (bytes before).length ≤ p.start := by
      intro p member
      obtain ⟨r, r_member, rfl⟩ := List.mem_map.mp member
      rw [position]
      exact UInt32.le_iff_toNat_le.mp (tied.start_le r r_member)
    obtain ⟨more, front_x⟩ := Patch.insert_isPrefix_splice first.bytePatch
      ((between ++ last :: behind).map Replacement.bytePatch) (bytes rest)
    rw [front, bytes_append, bytes_append, bytes_append, Patch.splice_append _ _ ahead, position] at same
    have heads := (List.append_cancel_left same).trans front_x.symm
    rw [y, Replacement.bytePatch, x] at heads
    exact absurd (List.cons.inj heads).1 (by decide)

end Tie

section Listed

variable {content : List Char} {batch : List Replacement} (fits : ∀ r ∈ batch, r.FitsIn content)
include fits

theorem made_of_distinct (sorted : batch.Pairwise Replacement.Before) {done rest : List Char}
    (split : content = done ++ rest)
    (reached : ∀ r ∈ batch, measure byteWidth done ≤ r.start.toNat) : MadeBehind done rest batch := by
  induction batch generalizing done rest with
  | nil => exact ⟨rest, by simp [fromTheEnd], by simp [Patch.splice_nil]⟩
  | cons r batch ih =>
    obtain ⟨first, sorted⟩ := List.pairwise_cons.mp sorted
    obtain ⟨here, fits⟩ := List.forall_mem_cons.mp fits
    obtain ⟨before, removed, after, rfl, start, stop⟩ :=
      here.1.cut byteWidth_pos here.2 r.start_le_stop split (reached r List.mem_cons_self)
    refine (madeBehind_cons_iff first start stop after).mpr ?_
    refine ih fits sorted (by simp [split]) fun q member => ?_
    rw [stop]
    exact UInt32.le_iff_toNat_le.mp (first q member).2

/-- Of replacements two of which start at one place, some with the same ranges are not all made. The
induction goes to the first tie. -/
theorem exists_not_madeBehind (listed : batch.Pairwise Replacement.EndsBy)
    (repeated : ¬ (batch.map (·.start)).Nodup) {done rest : List Char} (split : content = done ++ rest)
    (reached : ∀ r ∈ batch, measure byteWidth done ≤ r.start.toNat) :
    ∃ other, List.Forall₂ Replacement.SameRange batch other ∧ ¬ MadeBehind done rest other := by
  induction batch generalizing done rest with
  | nil => simp at repeated
  | cons r batch ih =>
    obtain ⟨here, fits⟩ := List.forall_mem_cons.mp fits
    obtain ⟨before, removed, after, rfl, start, stop⟩ :=
      here.1.cut byteWidth_pos here.2 r.start_le_stop split (reached r List.mem_cons_self)
    by_cases tie : r.start ∈ batch.map (·.start)
    · obtain ⟨between, last, behind, rfl, tied⟩ := exists_tied listed tie
      let texts := between.map (·.withText "") ++ last.withText "y" :: behind
      have same : List.Forall₂ Replacement.SameRange (between ++ last :: behind) texts :=
        List.rel_append (List.forall₂_map_right_iff.mpr (List.forall₂_same.mpr fun _ _ => ⟨rfl, rfl⟩))
          (.cons ⟨rfl, rfl⟩ (List.forall₂_same.mpr fun _ _ => ⟨rfl, rfl⟩))
      refine ⟨r.withText "x" :: texts, .cons ⟨rfl, rfl⟩ same, ?_⟩
      exact not_madeBehind_of_tied (tied.withTexts "x" "" "y") start rfl
        (List.forall_mem_map.mpr fun _ _ => rfl) rfl (removed ++ after)
    · obtain ⟨ahead, listed⟩ := List.pairwise_cons.mp listed
      rw [List.map_cons, List.nodup_cons, not_and] at repeated
      have parts : content = done ++ before ++ removed ++ after := by simp [split]
      obtain ⟨other, same, unmade⟩ := ih fits listed (repeated tie) parts fun q member => by
        rw [stop]
        exact UInt32.le_iff_toNat_le.mp (ahead q member)
      have first : ∀ q ∈ other, r.Before q := by
        refine forall_mem_of_sameRange (fun alike before => before.of_sameRange ⟨rfl, rfl⟩ alike) same ?_
        intro q member
        exact (ahead q member).before fun tied => tie (List.mem_map.mpr ⟨q, member, tied.symm⟩)
      exact ⟨r :: other, .cons ⟨rfl, rfl⟩ same,
        fun made => unmade ((madeBehind_cons_iff first start stop after).mp made)⟩

end Listed

/-- Let replacements be listed from left to right, each between boundaries of the text. Whatever their
texts, those with these ranges are all made at once exactly if no two start at one place. -/
theorem madeAtOnce_iff {content : String} {batch : List Replacement}
    (fits : ∀ r ∈ batch, r.FitsIn content.toList) (listed : batch.IsChain Replacement.EndsBy) :
    (∀ other, List.Forall₂ Replacement.SameRange batch other → MadeAtOnce content other) ↔
      (batch.map (·.start)).Nodup := by
  have sorted := List.isChain_iff_pairwise.mp listed
  constructor
  · intro all
    by_contra repeated
    obtain ⟨other, same, unmade⟩ :=
      exists_not_madeBehind fits sorted repeated (List.nil_append _).symm fun _ _ => Nat.zero_le _
    exact unmade ((madeAtOnce_iff_madeBehind content other).mp (all other same))
  · intro distinct other same
    have before : batch.Pairwise Replacement.Before :=
      sorted.imp₂ (fun _ _ ends apart => ends.before apart) (List.pairwise_map.mp distinct)
    have other_fits : ∀ r ∈ other, r.FitsIn content.toList := by
      refine forall_mem_of_sameRange (fun {a b} alike fits => ?_) same fits
      rwa [Replacement.FitsIn, ← alike.1, ← alike.stop]
    exact (madeAtOnce_iff_madeBehind content other).mpr
      (made_of_distinct other_fits (pairwise_before_of_sameRange same before)
        (List.nil_append _).symm fun _ _ => Nat.zero_le _)

/-- A word is inserted where the next replacement starts, and that one takes it for what it replaces. -/
def sharedStart : List Replacement := [⟨2, 0, "x"⟩, ⟨2, 1, "y"⟩]

theorem sharedStart_not_made :
    (∀ r ∈ sharedStart, r.FitsIn "abcdef".toList) ∧ sharedStart.IsChain Replacement.EndsBy ∧
      ¬ MadeAtOnce "abcdef" sharedStart := by
  refine ⟨by decide, by decide, ?_⟩
  have order : fromTheEnd sharedStart = sharedStart := List.mergeSort_of_pairwise (by decide)
  rw [MadeAtOnce, applyReplacements, order]
  decide

/-- A character of four bytes is replaced beside an insertion and a deletion that touch it. -/
def touching : List Replacement := [⟨0, 1, "xy"⟩, ⟨1, 4, "é"⟩, ⟨5, 0, "!"⟩, ⟨6, 1, ""⟩]

theorem madeAtOnce_iff_touching :
    (∀ r ∈ touching, r.FitsIn "a😀bc".toList) ∧ touching.IsChain Replacement.EndsBy ∧
      (touching.map (·.start)).Nodup ∧ MadeAtOnce "a😀bc" touching := by
  have fits : ∀ r ∈ touching, r.FitsIn "a😀bc".toList := by decide
  have listed : touching.IsChain Replacement.EndsBy := by decide
  have distinct : (touching.map (·.start)).Nodup := by decide
  have made := (madeAtOnce_iff fits listed).mpr distinct
  exact ⟨fits, listed, distinct, made touching (List.forall₂_same.mpr fun _ _ => ⟨rfl, rfl⟩)⟩

end LintBridge
