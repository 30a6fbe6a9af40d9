import LintBridge.Json.Strict
import LintBridge.Proofs.Json.Canonical
/-!
Values without embedded texts. No value that has been read has an object that begins with the name of
embedded texts (`plain_of_expandMembersBy`). Its canonical form may have one, since the members are put
into another order; then that object has other members too, and reading it again is an error
(`expandMembersBy_mixed`).
-/
namespace LintBridge.Json

/-! ### Objects within a value -/

mutual

def everyObject (check : List (String × Json) → Bool) : Json → Bool
  | arr items => everyObjectOfItems check items
  | obj members => check members && everyObjectOfMembers check members
  | _ => true

def everyObjectOfItems (check : List (String × Json) → Bool) : List Json → Bool
  | [] => true
  | item :: rest => everyObject check item && everyObjectOfItems check rest

def everyObjectOfMembers (check : List (String × Json) → Bool) : List (String × Json) → Bool
  | [] => true
  | (_, value) :: rest => everyObject check value && everyObjectOfMembers check rest

end

theorem everyObjectOfMembers_iff {check : List (String × Json) → Bool}
    {members : List (String × Json)} : everyObjectOfMembers check members = true ↔
      ∀ e ∈ members, everyObject check e.2 = true := by
  induction members with
  | nil => simp [everyObjectOfMembers]
  | cons first rest ih => rw [everyObjectOfMembers, Bool.and_eq_true, ih, List.forall_mem_cons]

def unembedded (members : List (String × Json)) : Bool := !isEmbedded members

def accompanied (members : List (String × Json)) : Bool :=
  !isEmbedded members || 2 ≤ members.length

def plain : Json → Bool := everyObject unembedded

def mixed : Json → Bool := everyObject accompanied

/-! ### Reading embedded texts -/

variable {read : String → Option Json}

theorem names_expandMembersBy {members expanded : List (String × Json)}
    (expands : expandMembersBy read members = some expanded) :
    expanded.map (·.1) = members.map (·.1) := by
  induction members generalizing expanded with
  | nil =>
    obtain rfl := Option.some.inj expands
    rfl
  | cons first rest ih =>
    rw [expandMembersBy] at expands
    simp only [Option.bind_eq_bind, Option.bind_eq_some_iff, Option.pure_def, Option.some.injEq]
      at expands
    obtain ⟨value, -, others, rest_expands, rfl⟩ := expands
    simp [ih rest_expands]

theorem isEmbedded_eq (members : List (String × Json)) :
    isEmbedded members = ((members.map (·.1)).head? == some embeddedName) := by
  cases members with
  | nil => rfl
  | cons first rest => simp [isEmbedded, Bool.beq_eq_decide_eq]

theorem isEmbedded_expandMembersBy {members expanded : List (String × Json)}
    (expands : expandMembersBy read members = some expanded) :
    isEmbedded expanded = isEmbedded members := by
  rw [isEmbedded_eq, isEmbedded_eq, names_expandMembersBy expands]

mutual

theorem plain_of_expandBy (plain_read : ∀ text value, read text = some value → value.plain = true) :
    (value : Json) → ∀ expanded, expandBy read value = some expanded → expanded.plain = true
  | null | bool _ | int _ | float _ | str _ => by simp [expandBy, plain, everyObject]
  | arr items => by
    intro expanded expands
    rw [expandBy] at expands
    obtain ⟨others, items_expand, rfl⟩ := Option.map_eq_some_iff.mp expands
    exact plain_of_expandItemsBy plain_read items others items_expand
  | obj members => by
    intro expanded expands
    rw [expandBy] at expands
    split at expands
    · obtain ⟨text, -, text_read⟩ := Option.bind_eq_some_iff.mp expands
      exact plain_read text expanded text_read
    · rename_i not_embedded
      obtain ⟨others, members_expand, rfl⟩ := Option.map_eq_some_iff.mp expands
      rw [plain, everyObject, unembedded, isEmbedded_expandMembersBy members_expand,
        Bool.eq_false_iff.mpr not_embedded]
      exact plain_of_expandMembersBy plain_read members others members_expand

theorem plain_of_expandItemsBy
    (plain_read : ∀ text value, read text = some value → value.plain = true) :
    (items : List Json) → ∀ expanded, expandItemsBy read items = some expanded →
      everyObjectOfItems unembedded expanded = true
  | [] => by simp [expandItemsBy, everyObjectOfItems]
  | item :: rest => by
    intro expanded expands
    rw [expandItemsBy] at expands
    simp only [Option.bind_eq_bind, Option.bind_eq_some_iff, Option.pure_def, Option.some.injEq]
      at expands
    obtain ⟨value, value_expands, others, rest_expands, rfl⟩ := expands
    rw [everyObjectOfItems, Bool.and_eq_true]
    exact ⟨plain_of_expandBy plain_read item value value_expands,
      plain_of_expandItemsBy plain_read rest others rest_expands⟩

theorem plain_of_expandMembersBy
    (plain_read : ∀ text value, read text = some value → value.plain = true) :
    (members : List (String × Json)) → ∀ expanded, expandMembersBy read members = some expanded →
      everyObjectOfMembers unembedded expanded = true
  | [] => by simp [expandMembersBy, everyObjectOfMembers]
  | (name, value) :: rest => by
    intro expanded expands
    rw [expandMembersBy] at expands
    simp only [Option.bind_eq_bind, Option.bind_eq_some_iff, Option.pure_def, Option.some.injEq]
      at expands
    obtain ⟨content, value_expands, others, rest_expands, rfl⟩ := expands
    rw [everyObjectOfMembers, Bool.and_eq_true]
    exact ⟨plain_of_expandBy plain_read value content value_expands,
      plain_of_expandMembersBy plain_read rest others rest_expands⟩

end

theorem plain_of_readEmbedded {fuel : Nat} {text : String} {value : Json}
    (reads : readEmbedded fuel text = some value) : value.plain = true := by
  -- Texts within a text are read with less fuel.
  induction fuel generalizing text value with
  | zero => cases reads
  | succ fuel ih =>
    obtain ⟨content, -, expands⟩ := Option.bind_eq_some_iff.mp reads
    exact plain_of_expandBy (fun text value => ih) content value expands

/-! ### Canonical forms of what has been read -/

theorem accompanied_canonicalMembers {members : List (String × Json)}
    (begins : unembedded members = true) : accompanied (canonicalMembers members) = true := by
  cases members with
  | nil => rfl
  | cons first rest =>
    have other_name : first.1 ≠ embeddedName := by simpa [unembedded, isEmbedded] using begins
    have found := isSome_lookup_canonicalMembers (List.mem_cons_self (a := first) (l := rest))
    match sorted : canonicalMembers (first :: rest) with
    | [] => rfl
    | [e] =>
      have named : first.1 = e.1 := by
        rw [sorted, lookup_cons_eq] at found
        by_cases here : first.1 = e.1
        · exact here
        · simp [here] at found
      simp [accompanied, isEmbedded, ← named, other_name]
    | _ :: _ :: _ => simp [accompanied]

mutual

/-- In the canonical form of a plain value, an object that begins with the name of embedded texts has
another member, the one that it began with before. -/
theorem mixed_canonical : (value : Json) → value.plain = true → value.canonical.mixed = true
  | null | bool _ | int _ | float _ | str _ => by simp [canonical, mixed, everyObject]
  | arr items => mixed_canonicalItems items
  | obj members => by
    intro plain_members
    rw [plain, everyObject, Bool.and_eq_true] at plain_members
    rw [canonical, mixed, everyObject, Bool.and_eq_true]
    exact ⟨accompanied_canonicalMembers plain_members.1,
      mixed_canonicalMembers members plain_members.2⟩

theorem mixed_canonicalItems : (items : List Json) →
    everyObjectOfItems unembedded items = true →
    everyObjectOfItems accompanied
      (canonicalItems items) = true
  | [] => fun _ => rfl
  | item :: rest => by
    intro plain_items
    rw [everyObjectOfItems, Bool.and_eq_true] at plain_items
    rw [canonicalItems, everyObjectOfItems, Bool.and_eq_true]
    exact ⟨mixed_canonical item plain_items.1, mixed_canonicalItems rest plain_items.2⟩

theorem mixed_canonicalMembers : (members : List (String × Json)) →
    everyObjectOfMembers unembedded members = true →
    everyObjectOfMembers accompanied
      (canonicalMembers members) = true
  | [] => fun _ => rfl
  | (name, value) :: rest => by
    intro plain_members
    rw [everyObjectOfMembers, Bool.and_eq_true] at plain_members
    rw [canonicalMembers, insertEarlier]
    have later := mixed_canonicalMembers rest plain_members.2
    split
    · exact later
    · rw [everyObjectOfMembers_iff] at later ⊢
      intro e member
      rcases Dictionary.mem_insertEntry member with rfl | in_rest
      · exact mixed_canonical value plain_members.1
      · exact later e in_rest

end

theorem embeddedText?_eq_none {members : List (String × Json)} (more : 2 ≤ members.length) :
    embeddedText? members = none := by
  match members, more with
  | (_, value) :: _ :: _, _ => cases value <;> rfl

mutual

/-- A value of which each object that begins with the name of embedded texts has more members is left
as it is if there is no such object, and is else an error. -/
theorem expandBy_mixed (read : String → Option Json) :
    (value : Json) → value.mixed = true → expandBy read value = if value.plain then some value else none
  | null | bool _ | int _ | float _ | str _ => by simp [expandBy, plain, everyObject]
  | arr items => by
    intro mixed_items
    rw [expandBy, expandItemsBy_mixed read items mixed_items, plain, everyObject]
    split <;> rfl
  | obj members => by
    intro mixed_members
    rw [mixed, everyObject, Bool.and_eq_true] at mixed_members
    rw [expandBy, plain, everyObject]
    cases begins : isEmbedded members with
    | true =>
      have more : 2 ≤ members.length := by simpa [accompanied, begins] using mixed_members.1
      have no_text := embeddedText?_eq_none more
      simp [unembedded, begins, no_text]
    | false =>
      rw [expandMembersBy_mixed read members mixed_members.2, unembedded, begins]
      simp only [Bool.false_eq_true, if_false, Bool.not_false, Bool.true_and]
      split <;> rfl

theorem expandItemsBy_mixed (read : String → Option Json) : (items : List Json) →
    everyObjectOfItems accompanied items = true →
    expandItemsBy read items =
      if everyObjectOfItems unembedded items then some items else none
  | [] => fun _ => rfl
  | item :: rest => by
    intro mixed_items
    rw [everyObjectOfItems, Bool.and_eq_true] at mixed_items
    rw [expandItemsBy, expandBy_mixed read item mixed_items.1,
      expandItemsBy_mixed read rest mixed_items.2, everyObjectOfItems, plain]
    cases everyObject unembedded item <;>
      cases everyObjectOfItems unembedded rest <;> rfl

theorem expandMembersBy_mixed (read : String → Option Json) : (members : List (String × Json)) →
    everyObjectOfMembers accompanied members = true →
    expandMembersBy read members =
      if everyObjectOfMembers unembedded members then some members else none
  | [] => fun _ => rfl
  | (name, value) :: rest => by
    intro mixed_members
    rw [everyObjectOfMembers, Bool.and_eq_true] at mixed_members
    rw [expandMembersBy, expandBy_mixed read value mixed_members.1,
      expandMembersBy_mixed read rest mixed_members.2, everyObjectOfMembers, plain]
    cases everyObject unembedded value <;>
      cases everyObjectOfMembers unembedded rest <;> rfl

end

end LintBridge.Json
