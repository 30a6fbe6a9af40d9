import LintBridge.Path.Basic
/-!
A bounded memory of values by path. What was used last is kept, what was not used for longest gives
way.
-/
namespace LintBridge

theorem Path.same_comm (p q : Path) : p.same q = q.same p := by
  simp only [same, eq_comm]

/-- Values by path, the one used last in front: at most `capacity`, and no two for the same path. -/
structure Recent (capacity : Nat) (α : Type) where
  entries : List (Path × α)
  bounded : entries.length ≤ capacity
  distinct : entries.Pairwise fun a b => a.1.same b.1 = false

namespace Recent

variable {capacity : Nat} {α : Type}

def empty : Recent capacity α := ⟨[], Nat.zero_le _, .nil⟩

def get? (r : Recent capacity α) (path : Path) : Option α :=
  (r.entries.find? (·.1.same path)).map (·.2)

def put (r : Recent capacity α) (path : Path) (value : α) : Recent capacity α where
  entries := ((path, value) :: r.entries.filter fun e => !e.1.same path).take capacity
  bounded := by simp only [List.length_take]; omega
  distinct := by
    refine (List.Pairwise.cons (fun e member => ?_) (r.distinct.filter _)).sublist
      (List.take_sublist _ _)
    rw [Path.same_comm]
    simpa using (List.mem_filter.mp member).2

theorem mem_put {r : Recent capacity α} {path : Path} {value : α} {e : Path × α}
    (member : e ∈ (r.put path value).entries) :
    e = (path, value) ∨ e ∈ r.entries ∧ e.1.same path = false := by
  rcases List.mem_cons.mp (List.mem_of_mem_take member) with same | kept
  · exact Or.inl same
  · simpa using Or.inr (List.mem_filter.mp kept)

def size (r : Recent capacity α) : Nat := r.entries.length

end Recent
end LintBridge
