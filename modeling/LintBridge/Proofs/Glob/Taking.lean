import LintBridge.Glob.Match
import Mathlib.Data.List.Basic
/-!
What glob patterns match, said without the rests that they may leave: every part takes some bytes of
its own (`Token.Takes`), and a pattern takes what its parts take one after the other (`TakesAll`). The
rests of a text are exactly those from which a pattern has taken the bytes before
(`mem_sequenceRests_iff`), so a pattern matches the texts that it takes as a whole (`isMatch_iff`).
-/
namespace LintBridge.Glob

mutual

def Token.Takes : Token → List Byte → Prop
  | .literal c, taken => taken = String.utf8EncodeChar c
  | .one, taken => ∃ b, b ≠ slash ∧ taken = [b]
  | .run, taken => slash ∉ taken
  | .leading, taken => taken = [] ∨ ∃ dirs, taken = dirs ++ [slash]
  | .between, taken => taken = [slash] ∨ ∃ dirs, taken = slash :: (dirs ++ [slash])
  | .trailing, taken => ∃ below, taken = slash :: below
  | .oneOf negated ranges, taken => ∃ b, isMember ranges b ≠ negated ∧ taken = [b]
  | .choice alternatives, taken =>
    allVoid alternatives = true ∧ taken = [] ∨
      allVoid alternatives = false ∧ SomeTakes alternatives taken

def TakesAll : List Token → List Byte → Prop
  | [], taken => taken = []
  | token :: tokens, taken =>
    ∃ first others, taken = first ++ others ∧ token.Takes first ∧ TakesAll tokens others

/-- Whether one of several alternatives takes some bytes. One that stands for nothing takes none. -/
def SomeTakes : List (List Token) → List Byte → Prop
  | [], _ => False
  | tokens :: more, taken =>
    isVoidSequence tokens = false ∧ TakesAll tokens taken ∨ SomeTakes more taken

end

theorem takesAll_append {tokens more : List Token} {taken : List Byte} :
    TakesAll (tokens ++ more) taken ↔
      ∃ first others, taken = first ++ others ∧ TakesAll tokens first ∧ TakesAll more others := by
  induction tokens generalizing taken with
  | nil => simp [TakesAll]
  | cons token tokens ih =>
    simp only [List.cons_append, TakesAll, ih]
    constructor
    · rintro ⟨first, _, rfl, takes, second, others, rfl, tail, rest⟩
      exact ⟨first ++ second, others, by simp, ⟨first, second, rfl, takes, tail⟩, rest⟩
    · rintro ⟨_, others, rfl, ⟨first, second, rfl, takes, tail⟩, rest⟩
      exact ⟨first, second ++ others, by simp, takes, second, others, rfl, tail, rest⟩

theorem takesAll_literals {text : List Char} {taken : List Byte} :
    TakesAll (text.map .literal) taken ↔ taken = bytes text := by
  induction text generalizing taken with
  | nil => rfl
  | cons c text ih => simp [TakesAll, ih, Token.Takes, bytes]

theorem bytes_append (before after : List Char) : bytes (before ++ after) = bytes before ++ bytes after :=
  List.flatMap_append

theorem bytes_inj {text text' : List Char} : bytes text = bytes text' ↔ text = text' := by
  constructor
  · intro same
    have texts : String.ofList text = String.ofList text' :=
      String.toByteArray_inj.mp (congrArg List.toByteArray same)
    exact String.ofList_inj.mp texts
  · exact congrArg bytes

/-! ### Rests -/

theorem rest?_eq_some_iff {expected text rest : List Byte} :
    rest? expected text = some rest ↔ text = expected ++ rest := by
  induction expected generalizing text with
  | nil => simp [rest?]
  | cons b expected ih =>
    cases text with
    | nil => simp [rest?]
    | cons c text =>
      unfold rest?
      split
      · rename_i same
        simp [ih, same]
      · rename_i other
        simp [Ne.symm other]

theorem mem_restsOfRun_iff {text rest : List Byte} :
    rest ∈ restsOfRun text ↔ ∃ taken, text = taken ++ rest ∧ slash ∉ taken := by
  induction text with
  | nil => simp [restsOfRun]
  | cons b text ih =>
    unfold restsOfRun
    split
    · rename_i here
      constructor
      · intro member
        exact ⟨[], by simpa using (List.mem_singleton.mp member).symm, List.not_mem_nil⟩
      · rintro ⟨taken, cut, clean⟩
        cases taken with
        | nil => simpa using cut.symm
        | cons c taken =>
          obtain ⟨rfl, -⟩ := List.cons.inj cut
          exact absurd (by simp [here]) clean
    · rename_i other
      rw [List.mem_cons, ih]
      constructor
      · rintro (rfl | ⟨taken, cut, clean⟩)
        · exact ⟨[], by simp⟩
        · exact ⟨b :: taken, by simp [cut], by simp [clean, Ne.symm other]⟩
      · rintro ⟨taken, cut, clean⟩
        cases taken with
        | nil => exact Or.inl (by simpa using cut.symm)
        | cons c taken =>
          obtain ⟨-, cut'⟩ := List.cons.inj cut
          exact Or.inr ⟨taken, cut', fun member => clean (List.mem_cons_of_mem _ member)⟩

theorem mem_restsAfterSlash_iff {text rest : List Byte} :
    rest ∈ restsAfterSlash text ↔ ∃ dirs, text = dirs ++ slash :: rest := by
  induction text with
  | nil => simp [restsAfterSlash]
  | cons b text ih =>
    have later : (∃ dirs, b :: text = dirs ++ slash :: rest) ↔
        b = slash ∧ text = rest ∨ ∃ dirs, text = dirs ++ slash :: rest := by
      constructor
      · rintro ⟨dirs, cut⟩
        cases dirs with
        | nil => exact Or.inl (List.cons.inj cut)
        | cons c dirs => exact Or.inr ⟨dirs, (List.cons.inj cut).2⟩
      · rintro (⟨rfl, rfl⟩ | ⟨dirs, rfl⟩)
        · exact ⟨[], rfl⟩
        · exact ⟨b :: dirs, rfl⟩
    unfold restsAfterSlash
    rw [later]
    split
    · rename_i here
      simp [ih, here, eq_comm]
    · rename_i other
      simp [ih, other]

theorem mem_allRests_iff {text rest : List Byte} : rest ∈ allRests text ↔ ∃ taken, text = taken ++ rest := by
  induction text with
  | nil => simp [allRests]
  | cons b text ih =>
    rw [allRests, List.mem_cons, ih]
    constructor
    · rintro (rfl | ⟨taken, rfl⟩)
      · exact ⟨[], rfl⟩
      · exact ⟨b :: taken, rfl⟩
    · rintro ⟨taken, cut⟩
      cases taken with
      | nil => exact Or.inl cut.symm
      | cons c taken => exact Or.inr ⟨taken, (List.cons.inj cut).2⟩

mutual

theorem mem_tokenRests_iff (token : Token) {text rest : List Byte} :
    rest ∈ tokenRests token text ↔ ∃ taken, text = taken ++ rest ∧ token.Takes taken := by
  cases token with
  | literal c => simp [tokenRests, rest?_eq_some_iff, Token.Takes]
  | one =>
    cases text with
    | nil => simp [tokenRests, Token.Takes]
    | cons b text =>
      by_cases here : b = slash
      · simp [tokenRests, Token.Takes, here]
      · simp [tokenRests, Token.Takes, here, eq_comm]
  | run => simp [tokenRests, mem_restsOfRun_iff, Token.Takes]
  | leading =>
    rw [tokenRests, List.mem_cons, mem_restsAfterSlash_iff]
    constructor
    · rintro (rfl | ⟨dirs, rfl⟩)
      · exact ⟨[], rfl, Or.inl rfl⟩
      · exact ⟨dirs ++ [slash], by simp, Or.inr ⟨dirs, rfl⟩⟩
    · rintro ⟨_, rfl, rfl | ⟨dirs, rfl⟩⟩
      · exact Or.inl rfl
      · exact Or.inr ⟨dirs, by simp⟩
  | between =>
    cases text with
    | nil => simp [tokenRests, Token.Takes]
    | cons b text =>
      simp only [tokenRests, List.mem_ite_nil_right, List.mem_cons, mem_restsAfterSlash_iff]
      constructor
      · rintro ⟨rfl, rfl | ⟨dirs, rfl⟩⟩
        · exact ⟨[slash], rfl, Or.inl rfl⟩
        · exact ⟨slash :: (dirs ++ [slash]), by simp, Or.inr ⟨dirs, rfl⟩⟩
      · rintro ⟨_, cut, rfl | ⟨dirs, rfl⟩⟩
        · obtain ⟨rfl, rfl⟩ := List.cons.inj cut
          exact ⟨rfl, Or.inl rfl⟩
        · obtain ⟨rfl, rfl⟩ := List.cons.inj cut
          exact ⟨rfl, Or.inr ⟨dirs, by simp⟩⟩
  | trailing =>
    cases text with
    | nil => simp [tokenRests, Token.Takes]
    | cons b text =>
      simp only [tokenRests, List.mem_ite_nil_right, mem_allRests_iff]
      constructor
      · rintro ⟨rfl, below, rfl⟩
        exact ⟨slash :: below, rfl, below, rfl⟩
      · rintro ⟨_, cut, below, rfl⟩
        obtain ⟨rfl, rfl⟩ := List.cons.inj cut
        exact ⟨rfl, below, rfl⟩
  | oneOf negated ranges =>
    cases text with
    | nil => simp [tokenRests, Token.Takes]
    | cons b text =>
      simp only [tokenRests, bne_iff_ne, List.mem_ite_nil_right, List.mem_singleton]
      constructor
      · rintro ⟨member, rfl⟩
        exact ⟨[b], rfl, b, member, rfl⟩
      · rintro ⟨_, cut, c, member, rfl⟩
        obtain ⟨rfl, rfl⟩ := List.cons.inj cut
        exact ⟨member, rfl⟩
  | choice alternatives =>
    rw [tokenRests]
    split
    · rename_i void
      simp [Token.Takes, void, eq_comm]
    · rename_i some_part
      rw [List.mem_eraseDups, mem_choiceRests_iff alternatives]
      simp [Token.Takes, some_part]

theorem mem_sequenceRests_iff (tokens : List Token) {texts : List (List Byte)} {rest : List Byte} :
    rest ∈ sequenceRests tokens texts ↔
      ∃ text ∈ texts, ∃ taken, text = taken ++ rest ∧ TakesAll tokens taken := by
  cases tokens with
  | nil => simp [sequenceRests, TakesAll]
  | cons token tokens =>
    rw [sequenceRests, mem_sequenceRests_iff tokens]
    simp only [List.mem_eraseDups, List.mem_flatMap, mem_tokenRests_iff token, TakesAll]
    constructor
    · rintro ⟨_, ⟨text, listed, first, cut, takes⟩, others, rfl, tail⟩
      exact ⟨text, listed, first ++ others, by simp [cut], first, others, rfl, takes, tail⟩
    · rintro ⟨text, listed, _, cut, first, others, rfl, takes, tail⟩
      exact ⟨others ++ rest, ⟨text, listed, first, by simp [cut], takes⟩, others, rfl, tail⟩

theorem mem_choiceRests_iff (alternatives : List (List Token)) {text rest : List Byte} :
    rest ∈ choiceRests alternatives text ↔
      ∃ taken, text = taken ++ rest ∧ SomeTakes alternatives taken := by
  cases alternatives with
  | nil => simp [choiceRests, SomeTakes]
  | cons tokens more =>
    rw [choiceRests, List.mem_append, mem_choiceRests_iff more]
    split
    · rename_i void
      simp [SomeTakes, void]
    · rename_i some_part
      rw [mem_sequenceRests_iff tokens]
      simp only [SomeTakes, some_part, List.mem_singleton, exists_eq_left, true_and, and_or_left,
        exists_or]

end

theorem isMatch_iff (pattern : List Token) (text : String) :
    Glob.isMatch pattern text = true ↔ pattern = [.leading] ∨ TakesAll pattern (bytes text.toList) := by
  unfold isMatch
  split
  · simp
  · rename_i other
    have whole : (sequenceRests pattern [bytes text.toList]).any List.isEmpty = true ↔
        [] ∈ sequenceRests pattern [bytes text.toList] := by
      simp [List.any_eq_true, List.isEmpty_iff]
    rw [whole, mem_sequenceRests_iff, or_iff_right other]
    simp

end LintBridge.Glob
