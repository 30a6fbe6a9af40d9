import LintBridge.Dictionary
/-!
Look-ups in dictionaries. Each operation is known by what is found for a key after it: an inserted
value for its own key, nothing for an erased one, and in a layered dictionary the value of the upper
layer where it has one. Since dictionaries with the same look-ups are equal (`ext_get?`), the laws of
layering are those of the alternative `Option.or`.
-/
namespace LintBridge

section Lookup

variable {κ α : Type} [BEq κ] [LawfulBEq κ] [DecidableEq κ]

theorem lookup_cons_eq (first : κ × α) (rest : List (κ × α)) (key : κ) :
    (first :: rest).lookup key = if key = first.1 then some first.2 else rest.lookup key := by
  rw [List.lookup_cons]
  by_cases here : key = first.1
  · simp [here]
  · simp [beq_eq_false_iff_ne.mpr here, here]

theorem lookup_filter (keep : κ → Bool) (key : κ) (entries : List (κ × α)) :
    (entries.filter (keep ·.1)).lookup key = if keep key then entries.lookup key else none := by
  induction entries with
  | nil => simp
  | cons first rest ih =>
    rw [lookup_cons_eq, List.filter_cons]
    by_cases here : key = first.1
    · subst here
      cases kept : keep first.1 <;> simp [ih, kept, lookup_cons_eq]
    · cases keep first.1 <;> simp [ih, here, lookup_cons_eq]

theorem lookup_filter_ne (key other : κ) (entries : List (κ × α)) :
    (entries.filter (·.1 != key)).lookup other =
      if other = key then none else entries.lookup other := by
  refine (lookup_filter (· != key) other entries).trans ?_
  by_cases erased : other = key <;> simp [erased]

end Lookup

namespace Dictionary

variable {α : Type}

theorem lookup_insertEntry (key other : String) (value : α) (entries : List (String × α)) :
    (insertEntry key value entries).lookup other =
      if other = key then some value else entries.lookup other := by
  induction entries with
  | nil => simp [insertEntry, lookup_cons_eq]
  | cons first rest ih =>
    obtain ⟨k, v⟩ := first
    unfold insertEntry
    split
    · rw [lookup_cons_eq]
    · split
      · rename_i equal
        subst equal
        by_cases same : other = key <;> simp [lookup_cons_eq, same]
      · rename_i different
        rw [lookup_cons_eq, lookup_cons_eq, ih]
        by_cases here : other = k
        · subst here
          simp [Ne.symm different]
        · simp [here]

@[simp] theorem get?_empty (key : String) : (empty : Dictionary α).get? key = none := rfl

theorem get?_insert (d : Dictionary α) (key other : String) (value : α) :
    (d.insert key value).get? other = if other = key then some value else d.get? other :=
  lookup_insertEntry key other value d.entries

theorem get?_erase (d : Dictionary α) (key other : String) :
    (d.erase key).get? other = if other = key then none else d.get? other :=
  lookup_filter_ne key other d.entries

theorem lookup_eq_none_of_lt {key : String} {entries : List (String × α)}
    (above : ∀ e ∈ entries, key < e.1) : entries.lookup key = none := by
  rw [List.lookup_eq_none_iff]
  intro e member
  simpa using fun same => String.lt_irrefl _ (same ▸ above e member)

theorem get?_insertAll (d : Dictionary α) {entries : List (String × α)}
    (ascending : entries.Pairwise fun a b => a.1 < b.1) (key : String) :
    (d.insertAll entries).get? key = (entries.lookup key).or (d.get? key) := by
  induction entries generalizing d with
  | nil => rfl
  | cons first rest ih =>
    obtain ⟨above, ascending⟩ := List.pairwise_cons.mp ascending
    have later := ih (d.insert first.1 first.2) ascending
    rw [get?_insert] at later
    rw [lookup_cons_eq]
    refine later.trans ?_
    by_cases here : key = first.1
    · subst here
      simp [lookup_eq_none_of_lt above]
    · simp [here]

theorem get?_layer (base own : Dictionary α) (key : String) :
    (base.layer own).get? key = (own.get? key).or (base.get? key) :=
  get?_insertAll base own.ascending key

theorem get?_of_isEmpty {d : Dictionary α} (nothing : d.isEmpty = true) (key : String) :
    d.get? key = none := by
  have no_entries : d.entries = [] := List.isEmpty_iff.mp nothing
  simp [get?, no_entries]

theorem mem_entries_iff (d : Dictionary α) (e : String × α) : e ∈ d.entries ↔ d.get? e.1 = some e.2 := by
  obtain ⟨entries, ascending⟩ := d
  unfold get?
  induction entries with
  | nil => simp
  | cons first rest ih =>
    obtain ⟨above, ascending⟩ := List.pairwise_cons.mp ascending
    rw [List.mem_cons, ih ascending, lookup_cons_eq]
    by_cases here : e.1 = first.1
    · rw [if_pos here, here, lookup_eq_none_of_lt above]
      simp [Prod.ext_iff, here, eq_comm]
    · simp [here, Prod.ext_iff]

theorem ext_get? {d e : Dictionary α} (same : ∀ key, d.get? key = e.get? key) : d = e := by
  have nodup (d : Dictionary α) : d.entries.Nodup := by
    refine List.Pairwise.imp ?_ d.ascending
    rintro x y less rfl
    exact String.lt_irrefl _ less
  have perm : d.entries.Perm e.entries := by
    apply (List.perm_ext_iff_of_nodup (nodup d) (nodup e)).mpr
    intro entry
    rw [mem_entries_iff, mem_entries_iff, same]
  have entries : d.entries = e.entries := by
    refine perm.eq_of_pairwise ?_ d.ascending e.ascending
    intro x y _ _ less greater
    exact absurd (String.lt_trans less greater) (String.lt_irrefl _)
  cases d
  cases e
  congr

theorem layer_assoc (a b c : Dictionary α) : (a.layer b).layer c = a.layer (b.layer c) := by
  apply ext_get?
  intro key
  simp only [get?_layer, Option.or_assoc]

@[simp] theorem layer_empty (d : Dictionary α) : d.layer empty = d := rfl

@[simp] theorem empty_layer (d : Dictionary α) : (empty : Dictionary α).layer d = d := by
  apply ext_get?
  intro key
  simp [get?_layer]

theorem mem_keys_iff (d : Dictionary α) (key : String) : key ∈ d.keys ↔ (d.get? key).isSome := by
  rw [Option.isSome_iff_exists]
  simp [keys, mem_entries_iff]

theorem layer_eq_right_iff (base own : Dictionary α) :
    base.layer own = own ↔ ∀ key ∈ base.keys, key ∈ own.keys := by
  constructor
  · intro hidden key listed
    rw [mem_keys_iff] at listed ⊢
    rw [← hidden, get?_layer, Option.isSome_or, listed, Bool.or_true]
  · intro covered
    apply ext_get?
    intro key
    rw [get?_layer]
    cases own_value : own.get? key with
    | some value => rfl
    | none =>
      rw [Option.none_or, ← Option.not_isSome_iff_eq_none]
      intro listed
      have present := covered key ((base.mem_keys_iff key).mpr listed)
      simp [mem_keys_iff, own_value] at present

theorem isEmpty_iff {d : Dictionary α} : d.isEmpty = true ↔ d = empty := by
  constructor
  · intro nothing
    apply ext_get?
    intro key
    rw [get?_of_isEmpty nothing, get?_empty]
  · rintro rfl
    rfl

theorem isEmpty_layer (base own : Dictionary α) :
    (base.layer own).isEmpty = (base.isEmpty && own.isEmpty) := by
  rw [Bool.eq_iff_iff, Bool.and_eq_true, isEmpty_iff, isEmpty_iff, isEmpty_iff]
  constructor
  · intro nothing
    have none (key : String) := congrArg (·.get? key) nothing
    simp only [get?_layer, get?_empty, Option.or_eq_none_iff] at none
    exact ⟨ext_get? fun key => (none key).2, ext_get? fun key => (none key).1⟩
  · rintro ⟨rfl, rfl⟩
    rfl

end Dictionary
end LintBridge
