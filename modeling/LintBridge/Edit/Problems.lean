import LintBridge.Edit.Decoding
/-!
The problems of a file by their exact range. A store holds at most one problem for a range; what is
looked up must have the start and end that the problem was recorded with.
-/
namespace LintBridge

structure Problem where
  failure : Failure
  fixable : Bool
deriving DecidableEq, Inhabited

namespace Problem

def ofFailure (f : Failure) : Problem := ⟨f, f.isFixable⟩

def rule (p : Problem) : String := p.failure.rule

def toJson (p : Problem) : Json :=
  .obj [("failure", p.failure.toJson), ("fixable", .bool p.fixable), ("rule", .str p.rule)]

end Problem

abbrev Range := UInt32 × UInt32

structure ProblemStore where
  entries : List (Range × Problem)
  distinct : (entries.map (·.1)).Nodup

namespace ProblemStore

def empty : ProblemStore := ⟨[], .nil⟩

instance : Inhabited ProblemStore := ⟨empty⟩

def set (store : ProblemStore) (range : Range) (problem : Problem) : ProblemStore where
  entries := (store.entries.filter (·.1 != range)) ++ [(range, problem)]
  distinct := by
    rw [List.map_append, List.nodup_append]
    refine ⟨(List.Sublist.map _ List.filter_sublist).nodup store.distinct, by simp, ?_⟩
    intro a ha b hb e
    obtain ⟨entry, member, rfl⟩ := List.mem_map.mp ha
    simp only [List.map_cons, List.map_nil, List.mem_singleton] at hb
    simp [List.mem_filter, e, hb] at member

def get? (store : ProblemStore) (range : Range) : Option Problem := store.entries.lookup range

def values (store : ProblemStore) : List Problem := store.entries.map (·.2)

def fixable (store : ProblemStore) : List Problem := store.values.filter (·.fixable)

def fixableFor (store : ProblemStore) (rule : String) : List Problem :=
  store.values.filter fun p => p.fixable && p.rule = rule

def size (store : ProblemStore) : Nat := store.entries.length

/-- The store of failures, each at its own range; of two with one range the later stays. -/
def ofFailures (failures : List Failure) : ProblemStore :=
  failures.foldl (fun store f => store.set (f.start, f.stop) (Problem.ofFailure f)) empty

end ProblemStore
end LintBridge
