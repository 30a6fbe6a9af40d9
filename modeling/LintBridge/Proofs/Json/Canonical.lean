import LintBridge.Proofs.Dictionary
import LintBridge.Json.Basic
/-!
Canonical forms of JSON values. The members of an object in canonical form are known by what is found
under a name: the last member of that name, in its canonical form (`lookup_canonicalMembers_append`).
Since ascending members with the same look-ups are equal, whatever is in canonical form stays as it is
(`canonical_canonical`), and so do the entries of a dictionary (`canonicalMembers_entries`).
-/
namespace LintBridge

/-! ### Ascending entries -/

section Ascending

variable {α : Type} {entries others : List (String × α)}

theorem eq_of_lookup (ascending : entries.Pairwise fun a b => a.1 < b.1)
    (ascending' : others.Pairwise fun a b => a.1 < b.1)
    (same : ∀ key, entries.lookup key = others.lookup key) : entries = others := by
  have dictionaries : (⟨entries, ascending⟩ : Dictionary α) = ⟨others, ascending'⟩ :=
    Dictionary.ext_get? same
  exact congrArg Dictionary.entries dictionaries

theorem Dictionary.ofList_entries (d : Dictionary α) : Dictionary.ofList d.entries = d := by
  apply Dictionary.ext_get?
  intro key
  rw [Dictionary.ofList, Dictionary.get?_insertAll _ d.ascending, Dictionary.get?_empty,
    Option.or_none]
  rfl

theorem Dictionary.mem_of_mem_insertAll {d : Dictionary α} {e : String × α}
    (member : e ∈ (d.insertAll entries).entries) : e ∈ entries ∨ e ∈ d.entries := by
  induction entries generalizing d with
  | nil => exact .inr member
  | cons first rest ih =>
    rcases ih (d := d.insert first.1 first.2) member with in_rest | inserted
    · exact .inl (List.mem_cons_of_mem _ in_rest)
    · rcases Dictionary.mem_insertEntry inserted with rfl | in_d
      · exact .inl List.mem_cons_self
      · exact .inr in_d

theorem Dictionary.mem_of_mem_ofList {e : String × α}
    (member : e ∈ (Dictionary.ofList entries).entries) : e ∈ entries :=
  (mem_of_mem_insertAll member).resolve_right List.not_mem_nil

theorem Dictionary.mem_of_mem_layer {base own : Dictionary α} {e : String × α}
    (member : e ∈ (base.layer own).entries) : e ∈ own.entries ∨ e ∈ base.entries :=
  mem_of_mem_insertAll member

end Ascending

namespace Json

/-! ### Members in canonical form -/

theorem insertEarlier_ascending {name : String} {value : Json} {members : List (String × Json)}
    (ascending : members.Pairwise fun a b => a.1 < b.1) :
    (insertEarlier name value members).Pairwise fun a b => a.1 < b.1 := by
  unfold insertEarlier
  split
  · exact ascending
  · exact Dictionary.insertEntry_ascending ascending

theorem lookup_insertEarlier (name key : String) (value : Json) (members : List (String × Json)) :
    (insertEarlier name value members).lookup key =
      (members.lookup key).or (if key = name then some value else none) := by
  unfold insertEarlier
  split
  · rename_i present
    by_cases here : key = name
    · subst here
      rw [Option.or_of_isSome present]
    · rw [if_neg here, Option.or_none]
  · rename_i absent
    rw [Dictionary.lookup_insertEntry]
    by_cases here : key = name
    · subst here
      have nothing : members.lookup key = none := Option.not_isSome_iff_eq_none.mp absent
      rw [nothing]
      rfl
    · rw [if_neg here, if_neg here, Option.or_none]

theorem canonicalMembers_ascending (members : List (String × Json)) :
    (canonicalMembers members).Pairwise fun a b => a.1 < b.1 := by
  induction members with
  | nil => exact .nil
  | cons first rest ih => exact insertEarlier_ascending ih

/-- What is found in canonical members: the last of some members, in its canonical form. -/
theorem lookup_canonicalMembers_append (members more : List (String × Json)) (key : String) :
    (canonicalMembers (members ++ more)).lookup key =
      ((canonicalMembers more).lookup key).or ((canonicalMembers members).lookup key) := by
  induction members with
  | nil => simp [canonicalMembers]
  | cons first rest ih =>
    rw [List.cons_append, canonicalMembers, canonicalMembers, lookup_insertEarlier,
      lookup_insertEarlier, ih, Option.or_assoc]

theorem lookup_canonicalMembers_cons (name key : String) (value : Json)
    (members : List (String × Json)) : (canonicalMembers ((name, value) :: members)).lookup key =
      ((canonicalMembers members).lookup key).or (if key = name then some value.canonical else none) :=
  lookup_insertEarlier name key value.canonical (canonicalMembers members)

theorem lookup_canonicalMembers_of_ascending {members : List (String × Json)}
    (ascending : members.Pairwise fun a b => a.1 < b.1) (key : String) :
    (canonicalMembers members).lookup key = (members.lookup key).map canonical := by
  induction members with
  | nil => rfl
  | cons first rest ih =>
    obtain ⟨above, ascending⟩ := List.pairwise_cons.mp ascending
    rw [lookup_canonicalMembers_cons, ih ascending, lookup_cons_eq]
    by_cases here : key = first.1
    · subst here
      rw [Dictionary.lookup_eq_none_of_lt above, if_pos rfl, if_pos rfl]
      rfl
    · rw [if_neg here, if_neg here, Option.or_none]

theorem isSome_lookup_canonicalMembers {members : List (String × Json)} {e : String × Json}
    (member : e ∈ members) : ((canonicalMembers members).lookup e.1).isSome := by
  obtain ⟨before, after, rfl⟩ := List.append_of_mem member
  rw [lookup_canonicalMembers_append, lookup_canonicalMembers_cons]
  simp

theorem canonicalMembers_eq_self {members : List (String × Json)}
    (ascending : members.Pairwise fun a b => a.1 < b.1)
    (each : ∀ e ∈ members, e.2.canonical = e.2) : canonicalMembers members = members := by
  refine eq_of_lookup (canonicalMembers_ascending members) ascending fun key => ?_
  rw [lookup_canonicalMembers_of_ascending ascending]
  cases found : members.lookup key with
  | none => rfl
  | some value =>
    rw [Option.map_some, each (key, value)
      ((Dictionary.mem_entries_iff ⟨members, ascending⟩ (key, value)).mpr found)]

theorem canonicalMembers_entries (d : Dictionary Json) (each : ∀ e ∈ d.entries, e.2.canonical = e.2) :
    canonicalMembers d.entries = d.entries :=
  canonicalMembers_eq_self d.ascending each

mutual

theorem canonical_canonical : (value : Json) → value.canonical.canonical = value.canonical
  | null => rfl
  | bool _ => rfl
  | int _ => rfl
  | float _ => rfl
  | str _ => rfl
  | arr items => congrArg arr (canonicalItems_canonicalItems items)
  | obj members => congrArg obj (canonicalMembers_eq_self (canonicalMembers_ascending members)
      (canonical_of_mem_canonicalMembers members))

theorem canonicalItems_canonicalItems :
    (items : List Json) → canonicalItems (canonicalItems items) = canonicalItems items
  | [] => rfl
  | item :: rest => by
    rw [canonicalItems, canonicalItems, canonical_canonical item, canonicalItems_canonicalItems rest]

theorem canonical_of_mem_canonicalMembers : (members : List (String × Json)) →
    ∀ e ∈ canonicalMembers members, e.2.canonical = e.2
  | [] => fun _ member => nomatch member
  | (name, value) :: rest => fun e member => by
    rw [canonicalMembers, insertEarlier] at member
    split at member
    · exact canonical_of_mem_canonicalMembers rest e member
    · rcases Dictionary.mem_insertEntry member with rfl | in_rest
      · exact canonical_canonical value
      · exact canonical_of_mem_canonicalMembers rest e in_rest

end

/-! ### Lists of strings -/

theorem strings?_eq_some_iff {value : Json} {texts : List String} :
    value.strings? = some texts ↔ value = .ofStrings texts := by
  cases value with
  | arr items =>
    rw [strings?, ofStrings, arr.injEq]
    induction items generalizing texts with
    | nil => cases texts <;> simp
    | cons item rest ih =>
      cases texts with
      | nil => cases item <;> simp [str?, Option.bind_eq_some_iff]
      | cons text others =>
        cases item with
        | str content =>
          simp [str?, ← ih, Option.bind_eq_some_iff]
          exact and_comm
        | _ => simp [str?]
  | _ => simp [strings?, ofStrings]

theorem strings?_ofStrings (texts : List String) : (ofStrings texts).strings? = some texts :=
  strings?_eq_some_iff.mpr rfl

theorem canonical_ofStrings (texts : List String) : (ofStrings texts).canonical = ofStrings texts := by
  rw [ofStrings, canonical]
  induction texts with
  | nil => rfl
  | cons text rest ih => exact congrArg (fun items => arr (str text :: items)) (arr.inj ih)

end Json
end LintBridge
