import LintBridge.Proofs.Config.Chain
import Mathlib.Logic.Relation
/-!
What stops loading. The files of a chain build on each other (`Led`), so loading meets a file of the
chain again only if that file builds on itself; and a file that was loaded was loaded with all that it
builds on, none of which can be on its own chain (`not_cyclic_of_loaded`). When all files can be read,
the cycles are therefore all that `load` fails for.
-/
namespace LintBridge.Configuration
open Relation

variable {m : Machine} {file base : Path} {chain : List Path} {fuel : Nat}

def AllReadable (m : Machine) (file : Path) : Prop :=
  ∀ base, ReflTransGen (Extends m) file base → ∃ own, ofFile m base = .ok own

def Cyclic (m : Machine) (file : Path) : Prop :=
  ∃ first again, ReflTransGen (Extends m) file first ∧ TransGen (Extends m) first again ∧
    again.same first = true

theorem allReadable_of_closed (files : List Path) (start : file ∈ files)
    (closed : ∀ p ∈ files, (match ofFile m p with
      | .ok own => (extendedFiles m (directoryOf p) own).all (· ∈ files)
      | .error _ => false) = true) : AllReadable m file := by
  have among {base : Path} (reaches : ReflTransGen (Extends m) file base) : base ∈ files := by
    induction reaches with
    | refl => exact start
    | tail _ step ih =>
      obtain ⟨own, read, member⟩ := step
      have closed_here := closed _ ih
      rw [read] at closed_here
      simpa using List.all_eq_true.mp closed_here _ member
  intro base reaches
  have closed_here := closed base (among reaches)
  cases read : ofFile m base with
  | ok own => exact ⟨own, rfl⟩
  | error e => simp [read] at closed_here

/-! ### Files that were loaded -/

theorem loaded_next {c : Configuration} (loaded : loadWithin m fuel chain file = some (.ok c))
    (step : Extends m file base) :
    ∃ fewer c', loadWithin m fewer (file :: chain) base = some (.ok c') := by
  obtain ⟨fewer, own, merged, -, -, read, bases, -⟩ := loadWithin_ok loaded
  obtain ⟨own', read', member⟩ := step
  obtain rfl := Except.ok.inj (read.symm.trans read')
  obtain ⟨c', base_loaded⟩ := loadEach_ok_of_mem bases base member
  exact ⟨fewer, c', base_loaded⟩

theorem loaded_reached {c : Configuration} (loaded : loadWithin m fuel chain file = some (.ok c))
    (reaches : ReflTransGen (Extends m) file base) :
    ∃ fewer more c', loadWithin m fewer (more ++ chain) base = some (.ok c') := by
  induction reaches with
  | refl => exact ⟨fuel, [], c, loaded⟩
  | tail _ step ih =>
    obtain ⟨fewer, more, c', loaded'⟩ := ih
    obtain ⟨fewer', c'', next_loaded⟩ := loaded_next loaded' step
    exact ⟨fewer', _ :: more, c'', next_loaded⟩

theorem not_cyclic_of_loaded {c : Configuration}
    (loaded : loadWithin m fuel chain file = some (.ok c)) : ¬Cyclic m file := by
  rintro ⟨first, again, reaches, around, same⟩
  obtain ⟨_, _, _, first_loaded⟩ := loaded_reached loaded reaches
  obtain ⟨next, step, onward⟩ := TransGen.head'_iff.mp around
  obtain ⟨_, _, next_loaded⟩ := loaded_next first_loaded step
  obtain ⟨_, _, _, again_loaded⟩ := loaded_reached next_loaded onward
  -- `first` is on the chain that `again` was loaded with.
  obtain ⟨_, _, _, -, fresh, -⟩ := loadWithin_ok again_loaded
  have differs := fresh first (List.mem_append_right _ List.mem_cons_self)
  simp [same] at differs

/-! ### Files that were not loaded -/

/-- Why a file is not loaded: a file that it builds on cannot be read, or builds on a file of the
chain or on itself. -/
theorem loadWithin_error_cause {e : LintError} (led : ∀ p ∈ chain, TransGen (Extends m) p file)
    (failed : loadWithin m fuel chain file = some (.error e)) :
    (∃ base, ReflTransGen (Extends m) file base ∧ ofFile m base = .error e) ∨
      ∃ first again, (first ∈ chain ∨ ReflTransGen (Extends m) file first) ∧
        TransGen (Extends m) first again ∧ again.same first = true ∧
        ReflTransGen (Extends m) file again ∧ e = circular again := by
  induction fuel generalizing chain file with
  | zero => contradiction
  | succ fuel ih =>
    rcases loadWithin_error failed with ⟨rfl, first, member, same⟩ | unread | next
    · exact Or.inr ⟨first, file, Or.inl member, led first member, same, .refl, rfl⟩
    · exact Or.inl ⟨file, .refl, unread⟩
    · obtain ⟨fewer, base, fuel_eq, step, base_failed⟩ := next
      obtain rfl := Nat.succ.inj fuel_eq
      -- All of the chain leads to `base`, so a file of it that is met again builds on itself.
      have led_next : ∀ p ∈ file :: chain, TransGen (Extends m) p base := by
        intro p member
        rcases List.mem_cons.mp member with rfl | member
        · exact .single step
        · exact (led p member).tail step
      rcases ih led_next base_failed with ⟨unread, onward, failed⟩ | cycle
      · exact Or.inl ⟨unread, .head step onward, failed⟩
      · obtain ⟨first, again, known, around, same, onward, eq⟩ := cycle
        refine Or.inr ⟨first, again, ?_, around, same, .head step onward, eq⟩
        rcases known with member | from_base
        · rcases List.mem_cons.mp member with rfl | member
          · exact Or.inr .refl
          · exact Or.inl member
        · exact Or.inr (.head step from_base)

theorem load_error_cause {e : LintError} (failed : load m file = .error e) :
    (∃ base, ReflTransGen (Extends m) file base ∧ ofFile m base = .error e) ∨
      (Cyclic m file ∧ ∃ again, ReflTransGen (Extends m) file again ∧ e = circular again) := by
  have within := loadWithin_eq_load m file (Nat.le_refl _)
  rw [failed] at within
  rcases loadWithin_error_cause (by simp) within with unread | cycle
  · exact Or.inl unread
  · obtain ⟨first, again, known, around, same, onward, eq⟩ := cycle
    rcases known with member | reaches
    · contradiction
    · exact Or.inr ⟨⟨first, again, reaches, around, same⟩, again, onward, eq⟩

theorem not_cyclic_of_load {c : Configuration} (loaded : load m file = .ok c) : ¬Cyclic m file := by
  have within := loadWithin_eq_load m file (Nat.le_refl _)
  rw [loaded] at within
  exact not_cyclic_of_loaded within

theorem load_ok_of_not_cyclic (readable : AllReadable m file) (acyclic : ¬Cyclic m file) :
    ∃ c, load m file = .ok c := by
  cases result : load m file with
  | ok c => exact ⟨c, rfl⟩
  | error e =>
    rcases load_error_cause result with ⟨base, reaches, unread⟩ | ⟨cyclic, -⟩
    · obtain ⟨own, read⟩ := readable base reaches
      rw [unread] at read
      contradiction
    · contradiction

theorem load_circular_of_cyclic (readable : AllReadable m file) (cyclic : Cyclic m file) :
    ∃ again, ReflTransGen (Extends m) file again ∧ load m file = .error (circular again) := by
  cases result : load m file with
  | ok c => exact absurd cyclic (not_cyclic_of_load result)
  | error e =>
    rcases load_error_cause result with ⟨base, reaches, unread⟩ | ⟨-, again, reaches, rfl⟩
    · obtain ⟨own, read⟩ := readable base reaches
      rw [unread] at read
      contradiction
    · exact ⟨again, reaches, rfl⟩

/-- Following the files that a file builds on always ends. If all of them can be read, it fails with
the error for circular files exactly when a file builds on itself, and else it succeeds. -/
theorem load_ends_with_the_cycles (m : Machine) (file : Path) :
    (∃ bound, ∀ fuel, bound ≤ fuel → loadWithin m fuel [] file = some (load m file)) ∧
      (AllReadable m file →
        (Cyclic m file ↔
          ∃ again, ReflTransGen (Extends m) file again ∧ load m file = .error (circular again)) ∧
        (¬Cyclic m file ↔ ∃ c, load m file = .ok c)) := by
  refine ⟨⟨chainBound m file, fun fuel => loadWithin_eq_load m file⟩, fun readable => ⟨?_, ?_⟩⟩
  · constructor
    · exact load_circular_of_cyclic readable
    · rintro ⟨again, -, failed⟩
      by_contra acyclic
      obtain ⟨c, loaded⟩ := load_ok_of_not_cyclic readable acyclic
      rw [failed] at loaded
      contradiction
  · constructor
    · exact load_ok_of_not_cyclic readable
    · rintro ⟨c, loaded⟩
      exact not_cyclic_of_load loaded

theorem exists_ok_iff {ε α : Type} {result : Except ε α} :
    (∃ c, result = .ok c) ↔ result.toBool = true := by
  cases result <;> simp [Except.toBool]

def withTexts (texts : List (String × String)) : Machine where
  files := ⟨(["w"], .directory) :: texts.map fun t => (["w", t.1], .file (.text t.2)), []⟩
  workingDirectory := none
  environment := []
  respond _ := .hangs

def twins : Machine :=
  withTexts [("a.yaml", "extends: /w/../w/b.yaml"), ("b.yaml", "extends: ./a.yaml")]

def diamond : Machine :=
  withTexts [("a.yaml", "extends:\n- ./b.yaml\n- ./c.yaml\n- tslint:latest\nrules:\n  x: 1"),
    ("b.yaml", "extends: ./c.yaml\nrulesDirectory: d\nrules:\n  y: 2"),
    ("c.yaml", "rules:\n  x: 3\n  y: 3")]

theorem twins_allReadable : AllReadable twins ⟨"/w/a.yaml"⟩ :=
  allReadable_of_closed [⟨"/w/a.yaml"⟩, ⟨"/w/../w/b.yaml"⟩, ⟨"/w/../w/a.yaml"⟩]
    (by decide) (by decide +kernel)

theorem diamond_allReadable : AllReadable diamond ⟨"/w/a.yaml"⟩ :=
  allReadable_of_closed [⟨"/w/a.yaml"⟩, ⟨"/w/b.yaml"⟩, ⟨"/w/c.yaml"⟩] (by decide) (by decide +kernel)

theorem load_ends_with_the_cycles_twins :
    (AllReadable twins ⟨"/w/a.yaml"⟩ ∧ Cyclic twins ⟨"/w/a.yaml"⟩) ∧
      AllReadable diamond ⟨"/w/a.yaml"⟩ ∧ ¬Cyclic diamond ⟨"/w/a.yaml"⟩ := by
  have twins_fail : (load twins ⟨"/w/a.yaml"⟩).toBool = false := by decide +kernel
  have diamond_loads : (load diamond ⟨"/w/a.yaml"⟩).toBool = true := by decide +kernel
  have twins_iff :=
    ((load_ends_with_the_cycles twins ⟨"/w/a.yaml"⟩).2 twins_allReadable).2.trans exists_ok_iff
  have diamond_iff :=
    ((load_ends_with_the_cycles diamond ⟨"/w/a.yaml"⟩).2 diamond_allReadable).2.trans exists_ok_iff
  refine ⟨⟨twins_allReadable, ?_⟩, diamond_allReadable, diamond_iff.mpr diamond_loads⟩
  by_contra acyclic
  have loads := twins_iff.mp acyclic
  exact Bool.false_ne_true (twins_fail.symm.trans loads)

end LintBridge.Configuration
