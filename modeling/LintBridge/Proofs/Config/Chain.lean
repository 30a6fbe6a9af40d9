import LintBridge.Config.Loading
import LintBridge.Proofs.Machine.Walk
import Mathlib.Data.List.ProdSigma
import Mathlib.Data.List.Infix
import Mathlib.Data.List.Perm.Subperm
/-!
Loading always ends. The files of a chain are readable and differ from each other, and each is named
by a beginning of one of finitely many origins and an end of the place of an entry (`OnChain`). So a
chain is shorter than the bound (`OnChain.length_lt`), and loading within the bound, or within any
larger one, has the answer that `load` gives (`loadWithin_eq_load`).
-/
namespace LintBridge.Configuration

variable {m : Machine}

def Extends (m : Machine) (file base : Path) : Prop :=
  ∃ own, ofFile m file = .ok own ∧ base ∈ extendedFiles m (directoryOf file) own

section Each

variable {load load' : Path → Option (Except LintError Configuration)}

theorem loadEach_cons_ok {merged c : Configuration} {file : Path} {rest : List Path}
    (loaded : loadEach load merged (file :: rest) = some (.ok c)) :
    ∃ base, load file = some (.ok base) ∧ loadEach load (base.extending merged) rest = some (.ok c) := by
  unfold loadEach at loaded
  split at loaded
  · cases loaded
  · cases loaded
  · rename_i base first
    exact ⟨base, first, loaded⟩

theorem loadEach_ok_of_mem {merged c : Configuration} {files : List Path}
    (loaded : loadEach load merged files = some (.ok c)) :
    ∀ file ∈ files, ∃ base, load file = some (.ok base) := by
  induction files generalizing merged with
  | nil => simp
  | cons first rest ih =>
    obtain ⟨base, first_loaded, rest_loaded⟩ := loadEach_cons_ok loaded
    intro file member
    rcases List.mem_cons.mp member with rfl | member
    · exact ⟨base, first_loaded⟩
    · exact ih rest_loaded file member

theorem loadEach_error {merged : Configuration} {files : List Path} {e : LintError}
    (failed : loadEach load merged files = some (.error e)) :
    ∃ file ∈ files, load file = some (.error e) := by
  induction files generalizing merged with
  | nil => simp [loadEach] at failed
  | cons first rest ih =>
    unfold loadEach at failed
    split at failed
    · contradiction
    · rename_i first_failed
      obtain ⟨rfl⟩ := failed
      exact ⟨first, List.mem_cons_self, first_failed⟩
    · obtain ⟨file, member, file_failed⟩ := ih failed
      exact ⟨file, List.mem_cons_of_mem _ member, file_failed⟩

theorem loadEach_isSome {merged : Configuration} {files : List Path}
    (each : ∀ file ∈ files, (load file).isSome = true) :
    (loadEach load merged files).isSome = true := by
  induction files generalizing merged with
  | nil => rfl
  | cons first rest ih =>
    have first_ends := each first List.mem_cons_self
    unfold loadEach
    split
    · rename_i stuck
      simp [stuck] at first_ends
    · rfl
    · exact ih fun file member => each file (List.mem_cons_of_mem _ member)

theorem loadEach_mono {merged : Configuration} {files : List Path}
    {result : Except LintError Configuration}
    (more : ∀ file result, load file = some result → load' file = some result)
    (loaded : loadEach load merged files = some result) :
    loadEach load' merged files = some result := by
  induction files generalizing merged with
  | nil => exact loaded
  | cons first rest ih =>
    unfold loadEach at loaded ⊢
    split at loaded
    · contradiction
    · rename_i first_failed
      rw [more _ _ first_failed]
      exact loaded
    · rename_i base first_loaded
      rw [more _ _ first_loaded]
      exact ih loaded

end Each

theorem loadWithin_ok {fuel : Nat} {chain : List Path} {file : Path} {c : Configuration}
    (loaded : loadWithin m fuel chain file = some (.ok c)) :
    ∃ fewer own merged, fuel = fewer + 1 ∧ (∀ p ∈ chain, file.same p = false) ∧
      ofFile m file = .ok own ∧
      loadEach (loadWithin m fewer (file :: chain)) blank
        (extendedFiles m (directoryOf file) own) = some (.ok merged) ∧
      c = (ownPart file own).extending merged := by
  cases fuel with
  | zero => contradiction
  | succ fewer =>
    unfold loadWithin at loaded
    split at loaded
    · cases loaded
    · rename_i fresh
      split at loaded
      · cases loaded
      · rename_i own read
        split at loaded
        · cases loaded
        · cases loaded
        · rename_i merged bases
          obtain ⟨rfl⟩ := loaded
          exact ⟨fewer, own, merged, rfl, by simpa using fresh, read, bases, rfl⟩

theorem loadWithin_error {fuel : Nat} {chain : List Path} {file : Path} {e : LintError}
    (failed : loadWithin m fuel chain file = some (.error e)) :
    (e = circular file ∧ ∃ p ∈ chain, file.same p = true) ∨ ofFile m file = .error e ∨
      ∃ fewer base, fuel = fewer + 1 ∧ Extends m file base ∧
        loadWithin m fewer (file :: chain) base = some (.error e) := by
  cases fuel with
  | zero => contradiction
  | succ fewer =>
    unfold loadWithin at failed
    split at failed
    · rename_i met
      obtain ⟨rfl⟩ := failed
      exact Or.inl ⟨rfl, by simpa using met⟩
    · split at failed
      · rename_i unread
        obtain ⟨rfl⟩ := failed
        exact Or.inr (Or.inl unread)
      · rename_i own read
        split at failed
        · contradiction
        · rename_i bases
          obtain ⟨rfl⟩ := failed
          obtain ⟨base, member, base_failed⟩ := loadEach_error bases
          exact Or.inr (Or.inr ⟨fewer, base, rfl, ⟨own, read, member⟩, base_failed⟩)
        · cases failed

theorem loadWithin_succ {fuel : Nat} {chain : List Path} {file : Path}
    {result : Except LintError Configuration} (loaded : loadWithin m fuel chain file = some result) :
    loadWithin m (fuel + 1) chain file = some result := by
  induction fuel generalizing chain file result with
  | zero => contradiction
  | succ fuel ih =>
    rw [loadWithin] at loaded ⊢
    split
    · rename_i met
      rwa [if_pos met] at loaded
    · rename_i fresh
      rw [if_neg fresh] at loaded
      split
      · rename_i unread
        simpa only [unread] using loaded
      · rename_i own read
        simp only [read] at loaded
        cases bases : loadEach (loadWithin m fuel (file :: chain)) blank
            (extendedFiles m (directoryOf file) own) with
        | none => simp [bases] at loaded
        | some answer =>
          rw [loadEach_mono (fun _ _ => ih) bases]
          simpa only [bases] using loaded

theorem loadWithin_mono {fuel more : Nat} (le : fuel ≤ more) {chain : List Path} {file : Path}
    {result : Except LintError Configuration} (loaded : loadWithin m fuel chain file = some result) :
    loadWithin m more chain file = some result := by
  induction le with
  | refl => exact loaded
  | step _ ih => exact loadWithin_succ ih

/-! ### The bound -/

theorem ofFile_ok {file : Path} {own : Configuration} (read : ofFile m file = .ok own) :
    ∃ content format, m.readText file = .ok content ∧ ofText format content = .ok own := by
  unfold ofFile at read
  split at read
  · cases read
  · rename_i content text
    refine ⟨content, ?_⟩
    split at read
    · exact ⟨.json, text, read⟩
    · split at read
      · exact ⟨.yaml, text, read⟩
      · split at read
        · exact ⟨.json, text, read⟩
        · cases read

theorem mem_readableFiles {file : Path} {own : Configuration} (read : ofFile m file = .ok own) :
    own ∈ readableFiles m := by
  obtain ⟨content, format, text, said⟩ := ofFile_ok read
  obtain ⟨place, -, entry⟩ := Machine.readText_ok text
  refine List.mem_flatMap.mpr ⟨_, entry, List.mem_filterMap.mpr ⟨format, ?_, ?_⟩⟩
  · cases format <;> simp
  · rw [said]
    rfl

/-- The components that a readable file of a chain can have: a beginning of those of an origin, and
an end of the place of an entry. -/
def namings (m : Machine) (start : Path) : List (List Path.Component) :=
  ((chainOrigins m start).flatMap (·.components.inits) ×ˢ m.files.entries.flatMap (·.1.tails)).map
    fun n => n.1 ++ n.2.map .name

theorem length_namings_lt (m : Machine) (start : Path) :
    (namings m start).length < chainBound m start := by
  -- One more end than the namings need, so that the bound is above their number.
  have one_more (counts : List Nat) : counts.foldr (· + ·) 1 = counts.sum + 1 := by
    induction counts with
    | nil => rfl
    | cons count rest ih => rw [List.foldr_cons, ih, List.sum_cons, Nat.add_assoc]
  have beginnings : ((chainOrigins m start).flatMap (·.components.inits)).length =
      ((chainOrigins m start).map fun p => p.components.length + 1).sum := by
    simp [List.length_flatMap]
  have ends : (m.files.entries.flatMap (·.1.tails)).length =
      (m.files.entries.map fun e => e.1.length + 1).sum := by
    simp [List.length_flatMap]
  unfold namings chainBound
  simp only [one_more]
  rw [List.length_map, List.length_product, beginnings, ends, Nat.mul_succ]
  exact Nat.lt_succ_of_le (Nat.le_succ_of_le (Nat.le_add_right _ _))

theorem mem_namings {start origin file : Path} {own : Configuration}
    (known : origin ∈ chainOrigins m start) (named : Path.NamedFrom origin file.components)
    (read : ofFile m file = .ok own) : file.components ∈ namings m start := by
  obtain ⟨content, -, text, -⟩ := ofFile_ok read
  obtain ⟨place, located, entry⟩ := Machine.readText_ok text
  obtain ⟨from_place, leads⟩ := FileSystem.locate_ok located
  obtain ⟨before, names, beginning, components⟩ := named
  rw [components, List.foldl_append, Path.move_names] at leads
  have ends : names <:+ place := ⟨_, leads.symm⟩
  refine List.mem_map.mpr ⟨(before, names), List.mem_product.mpr ⟨?_, ?_⟩, components.symm⟩
  · exact List.mem_flatMap.mpr ⟨origin, known, (List.mem_inits _ _).mpr beginning⟩
  · exact List.mem_flatMap.mpr ⟨_, entry, (List.mem_tails _ _).mpr ends⟩

/-! ### The chain -/

theorem directoryOf_named {origin file : Path} (named : Path.NamedFrom origin file.components) :
    Path.NamedFrom origin (directoryOf file).components := by
  unfold directoryOf
  cases above : file.parent? with
  | none => exact Path.NamedFrom.nil origin
  | some dir => exact named.parent? above

theorem isName_json : Path.IsName "json" := ⟨by decide, by decide, by decide⟩

theorem extendedFiles_named {origin dir base : Path} {own : Configuration}
    (named : Path.NamedFrom origin dir.components) (member : base ∈ extendedFiles m dir own) :
    Path.NamedFrom origin base.components ∨
      ∃ name ∈ entries own.bases, (Path.mk name).isAbsolute = true ∧
        Path.NamedFrom ⟨name⟩ base.components := by
  obtain ⟨name, listed, found⟩ := List.mem_filterMap.mp member
  have resolved {origin : Path}
      (named : Path.NamedFrom origin (Path.mk (dir.resolve name)).components) :
      Path.NamedFrom origin (baseFile m dir name).components := by
    unfold baseFile
    simp only
    split
    · exact named.withExtension isName_json
    · exact named
  unfold baseFile? at found
  split at found
  · obtain rfl := Option.some.inj found
    cases absolute : (Path.mk name).isAbsolute with
    | false => exact Or.inl (resolved (named.resolve absolute))
    | true =>
      refine Or.inr ⟨name, listed, absolute, resolved ?_⟩
      rw [Path.resolve, if_pos absolute]
      exact Path.NamedFrom.refl _
  · contradiction

structure OnChain (m : Machine) (start : Path) (chain : List Path) (file : Path) : Prop where
  named : ∃ origin ∈ chainOrigins m start, Path.NamedFrom origin file.components
  known : ∀ p ∈ chain, p.components ∈ namings m start
  distinct : (chain.map Path.components).Nodup

namespace OnChain

variable {start file base : Path} {chain : List Path}

theorem first (m : Machine) (file : Path) : OnChain m file [] file where
  named := ⟨file, List.mem_cons_self, Path.NamedFrom.refl file⟩
  known := by simp
  distinct := List.nodup_nil

theorem next (on : OnChain m start chain file) (fresh : ∀ p ∈ chain, file.same p = false)
    (extends_base : Extends m file base) : OnChain m start (file :: chain) base := by
  obtain ⟨own, read, member⟩ := extends_base
  obtain ⟨origin, known, named⟩ := on.named
  refine ⟨?_, fun p listed => ?_, ?_⟩
  · rcases extendedFiles_named (directoryOf_named named) member with
      named | ⟨name, listed, absolute, named⟩
    · exact ⟨origin, known, named⟩
    · refine ⟨⟨name⟩, List.mem_cons_of_mem _ (List.mem_flatMap.mpr ?_), named⟩
      exact ⟨own, mem_readableFiles read, List.mem_filter.mpr ⟨List.mem_map_of_mem listed, absolute⟩⟩
  · rcases List.mem_cons.mp listed with rfl | listed
    · exact mem_namings known named read
    · exact on.known p listed
  · rw [List.map_cons, List.nodup_cons]
    refine ⟨fun met => ?_, on.distinct⟩
    obtain ⟨p, listed, same⟩ := List.mem_map.mp met
    have := fresh p listed
    simp [Path.same, same] at this

theorem length_lt (on : OnChain m start chain file) : chain.length < chainBound m start := by
  have within : chain.map Path.components ⊆ namings m start := by
    intro components member
    obtain ⟨p, listed, rfl⟩ := List.mem_map.mp member
    exact on.known p listed
  have le := (on.distinct.subperm within).length_le
  rw [List.length_map] at le
  exact lt_of_le_of_lt le (length_namings_lt m start)

/-- Loading ends once the chain and what is left of the bound reach the bound together. -/
theorem loadWithin_isSome (on : OnChain m start chain file) {fuel : Nat}
    (enough : chainBound m start ≤ fuel + chain.length) :
    (loadWithin m fuel chain file).isSome = true := by
  -- `OnChain` keeps the chain below the bound, so the fuel cannot run out while the chain grows by it.
  induction fuel generalizing chain file with
  | zero =>
    have := on.length_lt
    omega
  | succ fuel ih =>
    unfold loadWithin
    split
    · rfl
    · rename_i fresh
      split
      · rfl
      · rename_i own read
        have each : ∀ base ∈ extendedFiles m (directoryOf file) own,
            (loadWithin m fuel (file :: chain) base).isSome = true := by
          intro base member
          refine ih (on.next (by simpa using fresh) ⟨own, read, member⟩) ?_
          rw [List.length_cons]
          omega
        have ends : (loadEach (loadWithin m fuel (file :: chain)) blank
            (extendedFiles m (directoryOf file) own)).isSome = true := loadEach_isSome each
        split
        · rename_i stuck
          simp [stuck] at ends
        · rfl
        · rfl

end OnChain

theorem loadWithin_eq_load (m : Machine) (file : Path) {fuel : Nat}
    (enough : chainBound m file ≤ fuel) : loadWithin m fuel [] file = some (load m file) := by
  have ends : (loadWithin m (chainBound m file) [] file).isSome = true :=
    (OnChain.first m file).loadWithin_isSome (by simp)
  obtain ⟨result, bounded⟩ := Option.isSome_iff_exists.mp ends
  have answer : load m file = result := by
    unfold load
    split
    · rename_i early
      have late := loadWithin_mono (Nat.le_max_left usualChain (chainBound m file)) early
      have late' := loadWithin_mono (Nat.le_max_right usualChain (chainBound m file)) bounded
      exact Option.some.inj (late.symm.trans late')
    · simp [bounded]
  rw [answer]
  exact loadWithin_mono enough bounded

end LintBridge.Configuration
