import LintBridge.Proofs.Glob.Taking
/-!
How the text of a glob pattern is read, character by character (`Reader.next?`). What stands behind a
slash does not change how the text before it is read, as long as it has no special characters, so a
directory and a plain name in it take what the directory takes, and then the name
(`textTakes_append`). A pattern whose text begins with a slash takes only texts that do
(`TextTakes.head?`).
-/
namespace LintBridge.Glob

def specialChars : List Char := ['?', '*', '[', ']', '{', '}', '\\']

def Plain (text : List Char) : Prop := ∀ c ∈ text, c ∉ specialChars

namespace Reader

def next? (r : Reader) (c : Char) (rest : List Char) : Option (Reader × List Char) :=
  if c = '?' then some ((r.push .one).after c, rest)
  else if c = '*' then
    match rest with
    | '*' :: rest => some (r.twoStars rest)
    | _ => some ((r.push .run).after c, rest)
  else if c = '[' then
    (readClassToken rest).map fun (token, rest) => ((r.push token).after ']', rest)
  else if c = '{' then some (r.opened.after c, rest)
  else if c = '}' then r.closed?.map fun closed => (closed.after c, rest)
  else if c = ',' && !r.outer.isEmpty then some (r.nextAlternative.after c, rest)
  else if c = '\\' then
    match rest with
    | [] => none
    | escaped :: rest => some ((r.push (.literal escaped)).after escaped, rest)
  else some ((r.push (.literal c)).after c, rest)

end Reader

theorem read_cons (fuel : Nat) (r : Reader) (c : Char) (rest : List Char) :
    read (fuel + 1) r (c :: rest) = (r.next? c rest).bind fun (r, rest) => read fuel r rest := by
  rw [read.eq_def]
  unfold Reader.next?
  dsimp only
  split_ifs
  · rfl
  · cases rest with
    | nil => rfl
    | cons d rest =>
      by_cases stars : d = '*'
      · rw [stars]
        rfl
      · simp [stars]
  · cases readClassToken rest <;> rfl
  · rfl
  · cases r.closed? <;> rfl
  · rfl
  · split <;> rfl
  · rfl

/-! ### What is left to be read -/

theorem readClass_suffix {ranges found : List (Char × Char)} {isFirst waiting : Bool}
    {text rest : List Char} (closed : readClass ranges isFirst waiting text = some (found, rest)) :
    rest <:+ text := by
  have later {c : Char} {text : List Char} (end_of : rest <:+ text) : rest <:+ c :: text :=
    end_of.trans (List.suffix_cons c text)
  fun_induction readClass ranges isFirst waiting text with
  | case1 => contradiction
  | case3 =>
    obtain ⟨-, rfl⟩ := Prod.mk.inj (Option.some.inj closed)
    exact List.suffix_cons _ _
  | case5 | case7 =>
    rename_i ih
    obtain ⟨_, -, read⟩ := Option.bind_eq_some_iff.mp closed
    exact later (ih _ read)
  | _ =>
    rename_i ih
    exact later (ih closed)

theorem readClass_of_not_mem {text : List Char} (clean : ']' ∉ text) (ranges : List (Char × Char))
    (isFirst waiting : Bool) : readClass ranges isFirst waiting text = none := by
  fun_induction readClass ranges isFirst waiting text with
  | case1 => rfl
  | case2 => simp at clean
  | case3 => simp at clean
  | _ => simp_all

theorem readClass_append {ranges : List (Char × Char)} {isFirst waiting : Bool}
    {text more : List Char} (clean : ']' ∉ more) :
    readClass ranges isFirst waiting (text ++ more) =
      (readClass ranges isFirst waiting text).map fun (found, rest) => (found, rest ++ more) := by
  fun_induction readClass ranges isFirst waiting text with
  | case1 => exact readClass_of_not_mem clean _ _ _
  | case5 ranges => cases last : extendLast? '-' ranges <;> simp_all [readClass]
  | case7 ranges _ c => cases last : extendLast? c ranges <;> simp_all [readClass]
  | _ => simp_all [readClass]

theorem readClassToken_suffix {token : Token} {text rest : List Char}
    (closed : readClassToken text = some (token, rest)) : rest <:+ text := by
  cases text with
  | nil => contradiction
  | cons c text =>
    rw [readClassToken] at closed
    split at closed
    all_goals
      obtain ⟨found, read, eq⟩ := Option.map_eq_some_iff.mp closed
      obtain ⟨-, rfl⟩ := Prod.mk.inj eq
    · exact (readClass_suffix read).trans (List.suffix_cons _ _)
    · exact readClass_suffix read

theorem readClassToken_append {text more : List Char} (some_text : text ≠ []) (clean : ']' ∉ more) :
    readClassToken (text ++ more) =
      (readClassToken text).map fun (token, rest) => (token, rest ++ more) := by
  cases text with
  | nil => contradiction
  | cons c text =>
    rw [List.cons_append, readClassToken, readClassToken]
    split
    · rw [readClass_append clean, Option.map_map, Option.map_map]
      rfl
    · rw [← List.cons_append, readClass_append clean, Option.map_map, Option.map_map]
      rfl

theorem twoStars_suffix (r : Reader) (text : List Char) : (r.twoStars text).2 <:+ text := by
  unfold Reader.twoStars
  split_ifs
  · split
    · exact List.suffix_refl _
    · exact List.suffix_cons _ _
    · exact List.suffix_refl _
  · exact List.suffix_refl _
  · dsimp only
    split
    · exact List.suffix_refl _
    · exact List.suffix_cons _ _
    · split_ifs <;> exact List.suffix_refl _

theorem twoStars_append (r : Reader) {text : List Char} (some_text : text ≠ []) (more : List Char) :
    r.twoStars (text ++ more) = ((r.twoStars text).1, (r.twoStars text).2 ++ more) := by
  cases text with
  | nil => contradiction
  | cons c text =>
    unfold Reader.twoStars
    by_cases slash : c = '/'
    · subst slash
      simp only [List.cons_append]
      split_ifs <;> rfl
    · simp only [List.cons_append]
      split_ifs <;> simp [slash]

namespace Reader

variable {r after : Reader} {c : Char} {rest left more : List Char}

theorem next?_suffix (read : r.next? c rest = some (after, left)) : left <:+ rest := by
  have all_left {next : Reader} (eq : some (next, rest) = some (after, left)) : left <:+ rest :=
    (Prod.mk.inj (Option.some.inj eq)).2 ▸ List.suffix_refl rest
  unfold next? at read
  split_ifs at read
  · exact all_left read
  · split at read
    · rename_i rest
      obtain rfl : (r.twoStars rest).2 = left := congrArg Prod.snd (Option.some.inj read)
      exact (twoStars_suffix r rest).trans (List.suffix_cons _ _)
    · exact all_left read
  · obtain ⟨⟨token, unread⟩, closed, eq⟩ := Option.map_eq_some_iff.mp read
    obtain ⟨-, rfl⟩ := Prod.mk.inj eq
    exact readClassToken_suffix closed
  · exact all_left read
  · obtain ⟨_, -, eq⟩ := Option.map_eq_some_iff.mp read
    exact all_left (congrArg some eq)
  · exact all_left read
  · split at read
    · contradiction
    · obtain ⟨-, rfl⟩ := Prod.mk.inj (Option.some.inj read)
      exact List.suffix_cons _ _
  · exact all_left read

/-- What stands behind a slash does not change how the text up to it is read. -/
theorem next?_append (ends : (c :: rest).getLast? = some '/') (clean : ']' ∉ more) :
    r.next? c (rest ++ more) = (r.next? c rest).map fun (after, left) => (after, left ++ more) := by
  have some_rest (other : c ≠ '/') : rest ≠ [] := by
    rintro rfl
    exact other (Option.some.inj ends)
  unfold next?
  split_ifs
  · rfl
  · rename_i star
    cases rest with
    | nil => exact absurd rfl (some_rest (by simp [star]))
    | cons d rest =>
      by_cases stars : d = '*'
      · subst stars
        have some_text : rest ≠ [] := by
          rintro rfl
          simp at ends
        exact congrArg some (twoStars_append r some_text more)
      · simp [stars]
  · rename_i bracket
    rw [readClassToken_append (some_rest (by simp [bracket])) clean, Option.map_map, Option.map_map]
    rfl
  · rfl
  · rw [Option.map_map]
    rfl
  · rfl
  · rename_i backslash
    cases rest with
    | nil => exact absurd rfl (some_rest (by simp [backslash]))
    | cons d rest => rfl
  · rfl

theorem next?_plain (plain : c ∉ specialChars) :
    r.next? c rest = some
      (if c = ',' && !r.outer.isEmpty then r.nextAlternative.after c
        else (r.push (.literal c)).after c, rest) := by
  simp only [specialChars, List.mem_cons, List.not_mem_nil, or_false, not_or] at plain
  unfold next?
  simp only [plain, if_false]
  split <;> rfl

end Reader

/-! ### Plain texts -/

/-- A plain text is read as its characters. Inside a group it cannot be the end of a pattern. -/
theorem read_plain {text : List Char} (plain : Plain text) (fuel : Nat) (r : Reader) :
    read (text.length + (fuel + 1)) r text =
      if r.outer = [] then some (r.current.tokens.reverse ++ text.map .literal) else none := by
  induction text generalizing r with
  | nil => simp [read]
  | cons c text ih =>
    have plain_text : Plain text := fun d member => plain d (List.mem_cons_of_mem _ member)
    rw [List.length_cons, Nat.add_right_comm, read_cons,
      Reader.next?_plain (plain c List.mem_cons_self), Option.bind_some]
    dsimp only
    rw [ih plain_text]
    by_cases outside : r.outer = []
    · simp [outside, Reader.push, Reader.after]
    · split <;> simp [outside, Reader.push, Reader.after, Reader.nextAlternative]

theorem read_append {text more : List Char} (ends : text = [] ∨ text.getLast? = some '/')
    (plain : Plain more) {fuel : Nat} (enough : text.length < fuel) (r : Reader) :
    read (more.length + fuel) r (text ++ more) = (read fuel r text).map (· ++ more.map .literal) := by
  have clean : ']' ∉ more := fun member => plain _ member (by decide)
  -- Every step leaves an end of the text, so a slash stays the last character until nothing is left.
  induction fuel generalizing text r with
  | zero => contradiction
  | succ fuel ih =>
    cases text with
    | nil =>
      rw [List.nil_append, read_plain plain, read]
      simp only [List.isEmpty_iff]
      split <;> rfl
    | cons c rest =>
      have slash := ends.resolve_left (List.cons_ne_nil c rest)
      rw [List.cons_append, ← Nat.add_assoc, read_cons, read_cons, Reader.next?_append slash clean]
      cases next : r.next? c rest with
      | none => rfl
      | some reached =>
        have unread := Reader.next?_suffix next
        have ends_left : reached.2 = [] ∨ reached.2.getLast? = some '/' := by
          obtain ⟨before, cut⟩ := unread.trans (List.suffix_cons c rest)
          rw [← cut] at slash
          refine or_iff_not_imp_left.mpr fun some_left => ?_
          rwa [List.getLast?_append_of_ne_nil _ some_left] at slash
        have fewer := unread.length_le
        rw [List.length_cons] at enough
        exact ih ends_left (by omega) reached.1

theorem parse?_append {text more : String} (ends : text.toList.getLast? = some '/')
    (plain : Plain more.toList) :
    parse? (text ++ more) = (parse? text).map (· ++ more.toList.map .literal) := by
  have appended := read_append (Or.inr ends) plain (Nat.lt_succ_self text.toList.length) .start
  rw [parse?, parse?, ← appended, String.toList_append]
  congr 1
  rw [List.length_append]
  omega

theorem parse?_plain {text : String} (plain : Plain text.toList) :
    parse? text = some (text.toList.map .literal) := read_plain plain 0 .start

def TextTakes (pattern : String) (taken : List Byte) : Prop :=
  ∃ tokens, parse? pattern = some tokens ∧ TakesAll tokens taken

theorem textTakes_plain {text : String} (plain : Plain text.toList) {taken : List Byte} :
    TextTakes text taken ↔ taken = bytes text.toList := by
  simp [TextTakes, parse?_plain plain, takesAll_literals]

/-- A directory and a plain name in it take what the directory takes, and then the name. -/
theorem textTakes_append {text more : String} (ends : text.toList.getLast? = some '/')
    (plain : Plain more.toList) {taken : List Byte} :
    TextTakes (text ++ more) taken ↔
      ∃ before, TextTakes text before ∧ taken = before ++ bytes more.toList := by
  unfold TextTakes
  simp only [parse?_append ends plain, Option.map_eq_some_iff]
  constructor
  · rintro ⟨_, ⟨tokens, parsed, rfl⟩, takes⟩
    obtain ⟨before, rest, rfl, first, last⟩ := takesAll_append.mp takes
    exact ⟨before, ⟨tokens, parsed, first⟩, by rw [takesAll_literals.mp last]⟩
  · rintro ⟨before, ⟨tokens, parsed, first⟩, rfl⟩
    exact ⟨_, ⟨tokens, parsed, rfl⟩,
      takesAll_append.mpr ⟨before, _, rfl, first, takesAll_literals.mpr rfl⟩⟩

/-! ### Texts from the root -/

/-- Whether a part takes a slash before anything else. -/
def Token.Rooted : Token → Prop
  | .literal c => c = '/'
  | .between => True
  | .trailing => True
  | _ => False

theorem Token.Rooted.takes {token : Token} (rooted : token.Rooted) {taken : List Byte}
    (takes : token.Takes taken) : ∃ below, taken = slash :: below := by
  cases token with
  | literal c =>
    obtain rfl : c = '/' := rooted
    exact ⟨[], takes⟩
  | between =>
    rcases takes with rfl | ⟨dirs, rfl⟩
    · exact ⟨[], rfl⟩
    · exact ⟨_, rfl⟩
  | trailing => exact takes
  | _ => exact rooted.elim

namespace Reader

def outermost (r : Reader) : Branch := r.outer.getLastD r.current

/-- Whether the pattern that is being read starts with a part that takes a slash first. -/
def Rooted (r : Reader) : Prop := ∃ first, r.outermost.tokens.getLast? = some first ∧ first.Rooted

variable {r : Reader}

theorem Rooted.of_outermost {r' : Reader} (rooted : r.Rooted)
    (same : r'.outermost.tokens.getLast? = r.outermost.tokens.getLast?) : r'.Rooted := by
  obtain ⟨first, found, first_rooted⟩ := rooted
  exact ⟨first, same.trans found, first_rooted⟩

theorem Rooted.push (rooted : r.Rooted) (token : Token) : (r.push token).Rooted := by
  apply rooted.of_outermost
  obtain ⟨first, found, -⟩ := rooted
  unfold outermost Reader.push at *
  cases outer : r.outer with
  | nil =>
    simp only [outer, List.getLastD_nil] at found ⊢
    rw [List.getLast?_cons, found]
    rfl
  | cons branch outer => rfl

theorem Rooted.after (rooted : r.Rooted) (c : Char) : (r.after c).Rooted := rooted

theorem Rooted.opened (rooted : r.Rooted) : r.opened.Rooted := by
  apply rooted.of_outermost
  rw [outermost, Reader.opened, List.getLastD_cons, outermost]

theorem Rooted.nextAlternative (rooted : r.Rooted) (inside : r.outer ≠ []) :
    r.nextAlternative.Rooted := by
  apply rooted.of_outermost
  unfold outermost Reader.nextAlternative
  cases outer : r.outer with
  | nil => contradiction
  | cons branch outer => rfl

theorem Rooted.closed? (rooted : r.Rooted) {closed : Reader} (eq : r.closed? = some closed) :
    closed.Rooted := by
  unfold Reader.closed? at eq
  split at eq
  · contradiction
  · rename_i branch outer cut
    obtain rfl := Option.some.inj eq
    apply Rooted.push
    apply rooted.of_outermost
    rw [outermost, outermost, cut, List.getLastD_cons]

theorem Rooted.replace (rooted : r.Rooted) {token : Token} (fits : token.Rooted) :
    (r.dropPart.push token).Rooted := by
  obtain ⟨first, found, first_rooted⟩ := rooted
  unfold Rooted outermost Reader.dropPart Reader.push at *
  cases outer : r.outer with
  | nil =>
    simp only [outer, List.getLastD_nil] at found ⊢
    cases tokens : r.current.tokens with
    | nil => simp [tokens] at found
    | cons last earlier =>
      rw [List.tail_cons, List.getLast?_cons]
      cases below : earlier.getLast? with
      | none => exact ⟨token, rfl, fits⟩
      | some first' =>
        rw [tokens, List.getLast?_cons, below] at found
        exact ⟨first, found, first_rooted⟩
  | cons branch outer' =>
    rw [outer] at found
    exact ⟨first, found, first_rooted⟩

theorem push_dropPart {token : Token} (last : r.current.tokens.head? = some token) :
    r.dropPart.push token = r := by
  obtain ⟨previous, ⟨tokens, finished⟩, outer⟩ := r
  cases tokens with
  | nil => contradiction
  | cons first earlier =>
    obtain rfl : first = token := Option.some.inj last
    rfl

/-- What two stars make of a reader: two runs, directories at the start, or directories in the place of
the last part, which stays if it stands for some already. -/
inductive Starred (r : Reader) : Reader → Prop
  | runs : Starred r r.twoRuns
  | leading (c : Char) : Starred r ((r.push .leading).after c)
  | replaced (token : Token) (fits : token.Rooted) (c : Char) :
    Starred r ((r.dropPart.push token).after c)
  | kept (token : Token) (last : r.current.tokens.head? = some token) (c : Char) :
    Starred r ((r.dropPart.push token).after c)

theorem twoStars_starred (r : Reader) (text : List Char) : Starred r (r.twoStars text).1 := by
  unfold Reader.twoStars
  split_ifs
  · split
    · exact .leading _
    · exact .leading _
    · exact .runs
  · exact .runs
  · dsimp only
    split
    · split
      · exact .kept _ ‹_› _
      · exact .replaced .trailing trivial _
      · exact .replaced .trailing trivial _
    · split
      · exact .kept _ ‹_› _
      · exact .replaced .trailing trivial _
      · exact .replaced .between trivial _
    · split_ifs
      · split
        · exact .kept _ ‹_› _
        · exact .replaced .trailing trivial _
        · exact .replaced .trailing trivial _
      · exact .runs

theorem Rooted.starred (rooted : r.Rooted) {after : Reader} (starred : Starred r after) :
    after.Rooted := by
  cases starred with
  | runs => exact ((rooted.push .run).push .run).after '*'
  | leading c => exact (rooted.push .leading).after c
  | replaced token fits c => exact (rooted.replace fits).after c
  | kept token last c =>
    rw [push_dropPart last]
    exact rooted.after c

theorem Rooted.next? {c : Char} {rest left : List Char} {after : Reader} (rooted : r.Rooted)
    (read : r.next? c rest = some (after, left)) : after.Rooted := by
  have next {next : Reader} {unread : List Char} (eq : some (next, unread) = some (after, left))
      (next_rooted : next.Rooted) : after.Rooted :=
    (Prod.mk.inj (Option.some.inj eq)).1 ▸ next_rooted
  unfold Reader.next? at read
  split_ifs at read
  · exact next read ((rooted.push .one).after _)
  · split at read
    · exact next read (rooted.starred (twoStars_starred r _))
    · exact next read ((rooted.push .run).after _)
  · obtain ⟨⟨token, _⟩, -, eq⟩ := Option.map_eq_some_iff.mp read
    exact next (congrArg some eq) ((rooted.push token).after _)
  · exact next read (rooted.opened.after _)
  · obtain ⟨closed, closes, eq⟩ := Option.map_eq_some_iff.mp read
    exact next (congrArg some eq) ((rooted.closed? closes).after _)
  · rename_i comma
    have inside : r.outer ≠ [] := by
      rintro outside
      simp [outside] at comma
    exact next read ((rooted.nextAlternative inside).after _)
  · split at read
    · contradiction
    · exact next read ((rooted.push _).after _)
  · exact next read ((rooted.push _).after _)

end Reader

theorem read_rooted {fuel : Nat} {r : Reader} {text : List Char} {tokens : List Token}
    (rooted : r.Rooted) (read_eq : read fuel r text = some tokens) :
    ∃ first others, tokens = first :: others ∧ first.Rooted := by
  induction fuel generalizing r text with
  | zero => contradiction
  | succ fuel ih =>
    cases text with
    | nil =>
      rw [read] at read_eq
      split at read_eq
      · rename_i outside
        obtain rfl := Option.some.inj read_eq
        obtain ⟨first, found, first_rooted⟩ := rooted
        have whole : r.outermost = r.current := by
          rw [Reader.outermost, List.isEmpty_iff.mp outside, List.getLastD_nil]
        obtain ⟨earlier, tokens⟩ := List.getLast?_eq_some_iff.mp (whole ▸ found)
        exact ⟨first, earlier.reverse, by simp [tokens], first_rooted⟩
      · contradiction
    | cons c rest =>
      rw [read_cons] at read_eq
      obtain ⟨reached, next, onwards⟩ := Option.bind_eq_some_iff.mp read_eq
      exact ih (rooted.next? next) onwards

theorem parse?_rooted {pattern : String} (start : pattern.toList.head? = some '/')
    {tokens : List Token} (parsed : parse? pattern = some tokens) :
    ∃ first others, tokens = first :: others ∧ first.Rooted := by
  obtain ⟨rest, text⟩ := List.head?_eq_some_iff.mp start
  have begun : ((Reader.start.push (.literal '/')).after '/').Rooted := ⟨.literal '/', rfl, rfl⟩
  rw [parse?, text, List.length_cons, read_cons] at parsed
  exact read_rooted begun parsed

theorem head?_of_bytes {text : List Char} {below : List Byte} (same : bytes text = slash :: below) :
    text.head? = some '/' := by
  cases text with
  | nil => simp [bytes] at same
  | cons c text =>
    obtain ⟨first, more, encoded⟩ :=
      List.exists_cons_of_ne_nil (@String.utf8EncodeChar_ne_nil c)
    rw [bytes, List.flatMap_cons, encoded, List.cons_append] at same
    obtain ⟨rfl, -⟩ := List.cons.inj same
    have slash_value : UInt8.toNat slash = 47 := rfl
    have value : c.val.toNat = 47 := by
      unfold String.utf8EncodeChar at encoded
      dsimp only at encoded
      split_ifs at encoded
      all_goals
        have byte := congrArg UInt8.toNat (List.cons.inj encoded).1
        rw [UInt8.toNat_ofNat', slash_value] at byte
        omega
    have same_char : c = '/' := Char.ext (UInt32.toNat_inj.mp value)
    rw [same_char, List.head?_cons]

theorem TextTakes.head? {pattern : String} (start : pattern.toList.head? = some '/') {text : List Char}
    (takes : TextTakes pattern (bytes text)) : text.head? = some '/' := by
  obtain ⟨tokens, parsed, takes_all⟩ := takes
  obtain ⟨first, others, rfl, rooted⟩ := parse?_rooted start parsed
  obtain ⟨taken, rest, cut, takes_first, -⟩ := takes_all
  obtain ⟨below, rfl⟩ := rooted.takes takes_first
  exact head?_of_bytes cut

theorem isMatch_iff_textTakes {pattern : String} (start : pattern.toList.head? = some '/')
    {tokens : List Token} (parsed : parse? pattern = some tokens) (text : String) :
    Glob.isMatch tokens text = true ↔ TextTakes pattern (bytes text.toList) := by
  obtain ⟨first, others, rfl, rooted⟩ := parse?_rooted start parsed
  have no_stars : first :: others ≠ [.leading] := by
    intro stars
    obtain ⟨rfl, -⟩ := List.cons.inj stars
    exact rooted
  rw [isMatch_iff, or_iff_right no_stars]
  simp [TextTakes, parsed]

end LintBridge.Glob
