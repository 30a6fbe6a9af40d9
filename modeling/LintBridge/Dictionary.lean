/-!
String-keyed dictionaries in ascending order of their keys. Each dictionary has one form, so two
dictionaries with the same look-ups are equal.
-/
namespace LintBridge

structure Dictionary (α : Type) where
  entries : List (String × α)
  ascending : entries.Pairwise (fun a b => a.1 < b.1)

namespace Dictionary

variable {α : Type}

def insertEntry (key : String) (value : α) : List (String × α) → List (String × α)
  | [] => [(key, value)]
  | (k, v) :: rest =>
    if key < k then (key, value) :: (k, v) :: rest
    else if key = k then (key, value) :: rest
    else (k, v) :: insertEntry key value rest

theorem mem_insertEntry {key : String} {value : α} {entries : List (String × α)}
    {e : String × α} (h : e ∈ insertEntry key value entries) :
    e = (key, value) ∨ e ∈ entries := by
  induction entries with
  | nil => simp_all [insertEntry]
  | cons first rest ih =>
    unfold insertEntry at h
    split at h
    · simpa using h
    · split at h
      · rcases List.mem_cons.mp h with h | h
        · exact .inl h
        · exact .inr (List.mem_cons_of_mem _ h)
      · rcases List.mem_cons.mp h with h | h
        · exact .inr (h ▸ List.mem_cons_self)
        · rcases ih h with h | h
          · exact .inl h
          · exact .inr (List.mem_cons_of_mem _ h)

theorem insertEntry_ascending {key : String} {value : α} {entries : List (String × α)}
    (h : entries.Pairwise (fun a b => a.1 < b.1)) :
    (insertEntry key value entries).Pairwise (fun a b => a.1 < b.1) := by
  induction entries with
  | nil => simp [insertEntry]
  | cons first rest ih =>
    obtain ⟨k, v⟩ := first
    rw [List.pairwise_cons] at h
    unfold insertEntry
    split
    · rename_i less
      refine List.pairwise_cons.mpr ⟨fun e he => ?_, List.pairwise_cons.mpr h⟩
      rcases List.mem_cons.mp he with rfl | he
      · exact less
      · exact String.lt_trans less (h.1 e he)
    · split
      · rename_i same
        exact List.pairwise_cons.mpr ⟨fun e he => same ▸ h.1 e he, h.2⟩
      · rename_i notLess different
        refine List.pairwise_cons.mpr ⟨fun e he => ?_, ih h.2⟩
        rcases mem_insertEntry he with rfl | he
        · exact Std.lt_of_le_of_ne (String.not_lt.mp notLess) (fun e => different e.symm)
        · exact h.1 e he

def empty : Dictionary α := ⟨[], .nil⟩

instance : Inhabited (Dictionary α) := ⟨empty⟩

def insert (d : Dictionary α) (key : String) (value : α) : Dictionary α :=
  ⟨insertEntry key value d.entries, insertEntry_ascending d.ascending⟩

/-- Inserts entries from left to right: of two with one key the later stays. -/
def insertAll (d : Dictionary α) (entries : List (String × α)) : Dictionary α :=
  entries.foldl (fun d e => d.insert e.1 e.2) d

def ofList (entries : List (String × α)) : Dictionary α := empty.insertAll entries

def get? (d : Dictionary α) (key : String) : Option α := d.entries.lookup key

def erase (d : Dictionary α) (key : String) : Dictionary α :=
  ⟨d.entries.filter (·.1 != key), d.ascending.filter _⟩

def layer (base own : Dictionary α) : Dictionary α := base.insertAll own.entries

def keys (d : Dictionary α) : List String := d.entries.map (·.1)

def isEmpty (d : Dictionary α) : Bool := d.entries.isEmpty

end Dictionary
end LintBridge
