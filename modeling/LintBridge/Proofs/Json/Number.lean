import LintBridge.Json.Strict
import Mathlib.Data.List.Basic
/-!
Reading integers from their decimal texts. Digits are read up to the end of the number, they denote
the integer again, and what fits 64 bits stays an integer (`number_toString`).
-/
namespace LintBridge.Json

/-- A text that goes on where a value has ended: with a comma, with a bracket, or not at all. -/
def Ends (rest : List Char) : Prop := ∀ c ∈ rest.head?, c = ',' ∨ c = ']' ∨ c = '\x7d'

theorem ends_cons {c : Char} (closes : c = ',' ∨ c = ']' ∨ c = '\x7d') (rest : List Char) :
    Ends (c :: rest) := by
  intro other other_mem
  obtain rfl : c = other := Option.some.inj other_mem
  exact closes

def digitValues (ds : List Char) : List Nat := ds.map fun c => c.toNat - 48

theorem digits_append {ds rest : List Char} (are : ∀ c ∈ ds, c.isDigit) (ends : Ends rest) :
    digits (ds ++ rest) = (digitValues ds, rest) := by
  induction ds with
  | nil =>
    cases rest with
    | nil => rfl
    | cons c rest =>
      have none : digit? c = none := by
        rcases ends c rfl with rfl | rfl | rfl <;> rfl
      simp [digits, none, digitValues]
  | cons d ds ih =>
    have found : digit? d = some (d.toNat - 48) := by simp [digit?, are d (by simp)]
    simp [digits, found, ih fun c c_mem => are c (by simp [c_mem]), digitValues]

theorem toDigits_head_ne_zero {n : Nat} (positive : 0 < n) :
    (Nat.toDigits 10 n).head? ≠ some '0' := by
  induction n using Nat.strongRecOn with
  | _ n ih =>
    by_cases small : n < 10
    · rw [Nat.toDigits_of_lt_base small]
      have all : ∀ d : Fin 10, 0 < d.val → [d.val.digitChar].head? ≠ some '0' := by decide
      exact all ⟨n, small⟩ positive
    · rw [Nat.toDigits_of_base_le (by decide) (by omega),
        List.head?_append_of_ne_nil _ Nat.toDigits_ne_nil]
      exact ih (n / 10) (by omega) (by omega)

theorem wholePart_toDigits (n : Nat) {rest : List Char} (ends : Ends rest) :
    wholePart (Nat.toDigits 10 n ++ rest) = some (digitValues (Nat.toDigits 10 n), rest) := by
  have are : ∀ c ∈ Nat.toDigits 10 n, c.isDigit := fun c c_mem =>
    Nat.isDigit_of_mem_toDigits (by decide) (by decide) c_mem
  have found := digits_append are ends
  rcases Nat.eq_zero_or_pos n with rfl | positive
  · rfl
  · have no_zero := toDigits_head_ne_zero positive
    cases written : Nat.toDigits 10 n with
    | nil => exact absurd written Nat.toDigits_ne_nil
    | cons d ds =>
      rw [written] at found no_zero
      have other : d ≠ '0' := fun zero => no_zero (by rw [zero]; rfl)
      rw [wholePart.eq_def]
      split
      · simp_all
      · rw [found]
        rfl

theorem literal_toDigits (n : Nat) {rest : List Char} (ends : Ends rest) :
    literal (Nat.toDigits 10 n ++ rest) =
      some (⟨digitValues (Nat.toDigits 10 n), [], none⟩, rest) := by
  have no_fraction : fractionPart rest = some ([], rest) := by
    cases rest with
    | nil => rfl
    | cons c rest => rcases ends c rfl with rfl | rfl | rfl <;> rfl
  have no_exponent : exponentPart rest = some (none, rest) := by
    cases rest with
    | nil => rfl
    | cons c rest => rcases ends c rfl with rfl | rfl | rfl <;> rfl
  simp [literal, wholePart_toDigits n ends, no_fraction, no_exponent]

theorem le_foldl_digits (ds : List Nat) (n : Nat) :
    n ≤ ds.foldl (fun n d => 10 * n + d) n := by
  induction ds generalizing n with
  | nil => exact Nat.le_refl n
  | cons d ds ih => exact Nat.le_trans (by omega) (ih (10 * n + d))

theorem absorb_of_lt {ds : List Nat} {n : Nat}
    (small : ds.foldl (fun n d => 10 * n + d) n < Nat.pow 2 64) :
    absorb n ds = (ds.foldl (fun n d => 10 * n + d) n, []) := by
  induction ds generalizing n with
  | nil => rfl
  | cons d ds ih =>
    have fits : 10 * n + d < Nat.pow 2 64 := Nat.lt_of_le_of_lt (le_foldl_digits ds _) small
    rw [absorb, if_pos fits, ih small]
    rfl

theorem absorb_toDigits {n : Nat} (small : n < Nat.pow 2 64) :
    absorb 0 (digitValues (Nat.toDigits 10 n)) = (n, []) := by
  have denoted : (digitValues (Nat.toDigits 10 n)).foldl (fun n d => 10 * n + d) 0 = n := by
    rw [digitValues, List.foldl_map]
    exact Nat.ofDigitChars_ten_toDigits
  rw [absorb_of_lt (by rw [denoted]; exact small), denoted]

/-- An integer that fits 64 bits, with a sign if it is negative. -/
def Fits (n : Int) : Prop := -(Nat.pow 2 63 : Int) ≤ n ∧ n < Nat.pow 2 64

theorem value?_toDigits {n : Nat} (small : n < Nat.pow 2 64) :
    Literal.value? false ⟨digitValues (Nat.toDigits 10 n), [], none⟩ = some (int n) := by
  simp [Literal.value?, absorb_toDigits small]

theorem value?_toDigits_neg {n : Nat} (positive : 0 < n) (small : n ≤ Nat.pow 2 63) :
    Literal.value? true ⟨digitValues (Nat.toDigits 10 n), [], none⟩ = some (int (-n)) := by
  have absorbed := absorb_toDigits (Nat.lt_of_le_of_lt small (by decide))
  simp [Literal.value?, absorbed, positive]
  exact small

namespace Strict

theorem toList_toString_ofNat (n : Nat) :
    (toString (Int.ofNat n)).toList = Nat.toDigits 10 n := by
  change (Int.ofNat n).repr.toList = _
  rw [Int.repr, Nat.repr_eq_ofList_toDigits, String.toList_ofList]

theorem toList_toString_negSucc (n : Nat) :
    (toString (Int.negSucc n)).toList = '-' :: Nat.toDigits 10 (n + 1) := by
  change (Int.negSucc n).repr.toList = _
  rw [Int.repr, Nat.repr_eq_ofList_toDigits, String.toList_append, String.toList_ofList]
  simp

theorem toString_starts (n : Int) :
    ∃ c tail, (toString n).toList = c :: tail ∧ (c.isDigit ∨ c = '-') := by
  cases n with
  | ofNat n =>
    rw [toList_toString_ofNat]
    cases written : Nat.toDigits 10 n with
    | nil => exact absurd written Nat.toDigits_ne_nil
    | cons c tail =>
      have is_digit : c.isDigit :=
        Nat.isDigit_of_mem_toDigits (by decide) (by decide) (written ▸ List.mem_cons_self)
      exact ⟨c, tail, rfl, .inl is_digit⟩
  | negSucc n => exact ⟨'-', _, toList_toString_negSucc n, .inr rfl⟩

theorem number_toString {n : Int} (fits : Fits n) {rest : List Char} (ends : Ends rest) :
    number .whole ((toString n).toList ++ rest) = some (int n, rest) := by
  cases n with
  | ofNat n =>
    have unsigned : ∀ tail, Nat.toDigits 10 n ++ rest = '-' :: tail → False := by
      intro tail signed
      cases written : Nat.toDigits 10 n with
      | nil => exact absurd written Nat.toDigits_ne_nil
      | cons d ds =>
        have is_digit : d.isDigit :=
          Nat.isDigit_of_mem_toDigits (by decide) (by decide) (written ▸ List.mem_cons_self)
        rw [written] at signed
        obtain rfl : d = '-' := (List.cons.inj signed).1
        exact absurd is_digit (by decide)
    have denoted := value?_toDigits (Int.ofNat_lt.mp fits.2)
    rw [toList_toString_ofNat, number]
    · simp [literal_toDigits n ends, Shape.isSkipped, denoted]
    · exact unsigned
  | negSucc n =>
    have small : n + 1 ≤ Nat.pow 2 63 := by
      have above := fits.1
      rw [Int.negSucc_eq] at above
      omega
    have denoted := value?_toDigits_neg n.succ_pos small
    rw [toList_toString_negSucc, List.cons_append, number]
    simp [literal_toDigits (n + 1) ends, Shape.isSkipped, denoted, Int.negSucc_eq]

theorem skipBlanks_cons {c : Char} (visible : isBlank c = false) (text : List Char) :
    skipBlanks (c :: text) = c :: text := by
  rw [skipBlanks, List.dropWhile_cons_of_neg (by simp [visible])]

theorem start_ne {c : Char} (starts : c.isDigit ∨ c = '-') (x : Char)
    (foreign : x.isDigit = false ∧ x ≠ '-') : c ≠ x := by
  rintro rfl
  rcases starts with is_digit | is_sign
  · exact absurd is_digit (by simp [foreign.1])
  · exact foreign.2 is_sign

theorem start_visible {c : Char} (starts : c.isDigit ∨ c = '-') : isBlank c = false := by
  simp [isBlank, start_ne starts ' ' (by decide), start_ne starts '\n' (by decide),
    start_ne starts '\t' (by decide), start_ne starts '\r' (by decide)]

theorem value_number {c : Char} (starts : c.isDigit ∨ c = '-') (fuel depth : Nat)
    (text : List Char) :
    value (fuel + 1) depth .whole (c :: text) = number .whole (c :: text) := by
  simp [value, skipBlanks_cons (start_visible starts), start_ne starts '"' (by decide),
    start_ne starts 'n' (by decide), start_ne starts 't' (by decide),
    start_ne starts 'f' (by decide), start_ne starts '[' (by decide),
    start_ne starts '\x7b' (by decide)]

end Strict
end LintBridge.Json
