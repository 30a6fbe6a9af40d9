import LintBridge.Recent
import LintBridge.Proofs.Path.Parent
import Mathlib.Data.Finset.Card
import Mathlib.Data.List.Induction
/-!
What a bounded memory holds. Its entries are the first ones of a ranking that has no bound
(`entries_ofPuts`), so a path has a value exactly as long as fewer other paths than the capacity
were given one after it (`get?_ofPuts`).
-/
namespace LintBridge

theorem Path.same_eq_false_iff {p q : Path} : p.same q = false ↔ p.components ≠ q.components := by
  rw [← Bool.not_eq_true, same_iff]

namespace Recent

variable {capacity : Nat} {α : Type}

def ofPuts (capacity : Nat) (puts : List (Path × α)) : Recent capacity α :=
  puts.foldl (fun r e => r.put e.1 e.2) .empty

/-- The last value of each path, the one given last in front. -/
def ranking (puts : List (Path × α)) : List (Path × α) :=
  puts.foldl (fun ranked e => e :: ranked.filter fun other => !other.1.same e.1) []

def keys (entries : List (Path × α)) : Finset (List Path.Component) :=
  (entries.map (·.1.components)).toFinset

theorem not_mem_keys {entries : List (Path × α)} {path : Path} :
    path.components ∉ keys entries ↔ ∀ e ∈ entries, e.1.same path = false := by
  simp [keys, Path.same_eq_false_iff]

theorem ofPuts_append (puts : List (Path × α)) (e : Path × α) :
    ofPuts capacity (puts ++ [e]) = (ofPuts capacity puts).put e.1 e.2 := by
  simp [ofPuts]

theorem ranking_append (puts : List (Path × α)) (e : Path × α) :
    ranking (puts ++ [e]) = e :: (ranking puts).filter fun other => !other.1.same e.1 := by
  simp [ranking]

theorem ranking_distinct (puts : List (Path × α)) :
    (ranking puts).Pairwise fun a b => a.1.same b.1 = false := by
  induction puts using List.reverseRecOn with
  | nil => exact .nil
  | append_singleton puts e ih =>
    rw [ranking_append]
    refine .cons (fun other listed => ?_) (ih.filter _)
    rw [Path.same_comm]
    simpa using (List.mem_filter.mp listed).2

theorem keys_append (entries : List (Path × α)) (e : Path × α) :
    keys (entries ++ [e]) = insert e.1.components (keys entries) := by
  ext key
  simp [keys, eq_comm]

theorem keys_cons_filter (e : Path × α) (entries : List (Path × α)) :
    keys (e :: entries.filter fun other => !other.1.same e.1) =
      insert e.1.components (keys entries) := by
  ext key
  simp only [keys, List.mem_toFinset, List.mem_map, List.map_cons, List.mem_cons, List.mem_filter,
    Finset.mem_insert, Bool.not_eq_true', Path.same_eq_false_iff]
  refine or_congr_right' fun other => ?_
  constructor
  · rintro ⟨held, ⟨member, -⟩, rfl⟩
    exact ⟨held, member, rfl⟩
  · rintro ⟨held, member, rfl⟩
    exact ⟨held, ⟨member, other⟩, rfl⟩

theorem keys_ranking (puts : List (Path × α)) : keys (ranking puts) = keys puts := by
  induction puts using List.reverseRecOn with
  | nil => rfl
  | append_singleton puts e ih => rw [ranking_append, keys_cons_filter, ih, keys_append]

theorem card_keys {entries : List (Path × α)}
    (distinct : entries.Pairwise fun a b => a.1.same b.1 = false) :
    (keys entries).card = entries.length := by
  have nodup : (entries.map (·.1.components)).Nodup :=
    List.pairwise_map.mpr (distinct.imp Path.same_eq_false_iff.mp)
  rw [keys, List.toFinset_card_of_nodup nodup, List.length_map]

/-- Leaving out one element at most moves those behind it up by one place. -/
theorem take_filter_take {keep : α → Bool} {l : List α}
    (one : l.Pairwise fun a b => keep a = true ∨ keep b = true) (n : Nat) :
    ((l.take (n + 1)).filter keep).take n = (l.filter keep).take n := by
  induction l generalizing n with
  | nil => rfl
  | cons a l ih =>
    obtain ⟨first, others⟩ := List.pairwise_cons.mp one
    rw [List.take_succ_cons, List.filter_cons, List.filter_cons]
    cases kept : keep a with
    | true =>
      cases n with
      | zero => rfl
      | succ n => simp [ih others n]
    | false =>
      have all : ∀ b ∈ l, keep b = true := fun b member =>
        (first b member).resolve_left (by simp [kept])
      have all_taken : ∀ b ∈ l.take n, keep b = true := fun b member =>
        all b (List.mem_of_mem_take member)
      simp [List.filter_eq_self.mpr all, List.filter_eq_self.mpr all_taken]

theorem entries_ofPuts (puts : List (Path × α)) :
    (ofPuts capacity puts).entries = (ranking puts).take capacity := by
  induction puts using List.reverseRecOn with
  | nil => exact List.take_nil.symm
  | append_singleton puts e ih =>
    rw [ofPuts_append, ranking_append]
    change (e :: (ofPuts capacity puts).entries.filter fun other =>
      !other.1.same e.1).take capacity = _
    rw [ih]
    cases capacity with
    | zero => rfl
    | succ n =>
      have one : (ranking puts).Pairwise fun a b =>
          (!a.1.same e.1) = true ∨ (!b.1.same e.1) = true := by
        refine (ranking_distinct puts).imp fun {a b} apart => ?_
        simp only [Path.same_eq_false_iff, Bool.not_eq_true'] at apart ⊢
        by_contra! both
        exact apart (both.1.trans both.2.symm)
      rw [List.take_succ_cons, List.take_succ_cons, take_filter_take one]

/-- Before the last value of a path stand exactly the paths that were given one after it. -/
theorem ranking_split (before : List (Path × α)) {rest : List (Path × α)} {e : Path × α}
    (last : ∀ later ∈ rest, later.1.same e.1 = false) :
    ∃ front back, ranking (before ++ e :: rest) = front ++ e :: back ∧ keys front = keys rest := by
  induction rest using List.reverseRecOn with
  | nil => exact ⟨[], _, ranking_append before e, rfl⟩
  | append_singleton rest next ih =>
    obtain ⟨front, back, split, same_keys⟩ := ih fun later member => last later (by simp [member])
    have other : e.1.same next.1 = false := by
      rw [Path.same_comm]
      exact last next (by simp)
    have shape : before ++ e :: (rest ++ [next]) = (before ++ e :: rest) ++ [next] := by simp
    refine ⟨next :: front.filter fun held => !held.1.same next.1,
      back.filter fun held => !held.1.same next.1, ?_, ?_⟩
    · rw [shape, ranking_append, split]
      simp [other]
    · rw [keys_cons_filter, same_keys, keys_append]

/-- A path has the value that it was given last as long as fewer other paths than the capacity were
given one since. -/
theorem get?_ofPuts {before rest : List (Path × α)} {e : Path × α}
    (last : ∀ later ∈ rest, later.1.same e.1 = false) {path : Path} (same : e.1.same path = true) :
    (ofPuts capacity (before ++ e :: rest)).get? path =
      if (keys rest).card < capacity then some e.2 else none := by
  obtain ⟨front, back, split, same_keys⟩ := ranking_split before last
  have distinct := split ▸ ranking_distinct (before ++ e :: rest)
  obtain ⟨apart, -, others⟩ := List.pairwise_append.mp distinct
  have later : ∀ held ∈ front, held.1.same path = false := by
    intro held member
    have other := others held member e List.mem_cons_self
    rw [Path.same_eq_false_iff] at other ⊢
    rwa [← Path.same_iff.mp same]
  have passed (n : Nat) : (front.take n).find? (·.1.same path) = none :=
    List.find?_eq_none.mpr fun held member => by simp [later held (List.mem_of_mem_take member)]
  rw [← same_keys, card_keys apart, get?, entries_ofPuts, split, List.take_append,
    List.find?_append, passed, Option.none_or]
  split
  · rename_i room
    obtain ⟨n, left⟩ := Nat.exists_eq_add_of_lt room
    have more : capacity - front.length = n + 1 := by omega
    simp [more, same]
  · rename_i full
    have nothing : capacity - front.length = 0 := by omega
    simp [nothing]

theorem get?_ofPuts_of_not_mem {puts : List (Path × α)} {path : Path}
    (never : path.components ∉ keys puts) : (ofPuts capacity puts).get? path = none := by
  rw [← keys_ranking, not_mem_keys] at never
  rw [get?, entries_ofPuts, Option.map_eq_none_iff, List.find?_eq_none]
  intro held member
  simp [never held (List.mem_of_mem_take member)]

theorem size_ofPuts (puts : List (Path × α)) :
    (ofPuts capacity puts).size = min capacity (keys puts).card := by
  rw [size, entries_ofPuts, List.length_take, ← keys_ranking, card_keys (ranking_distinct puts)]

end Recent
end LintBridge
