import LintBridge.Trust
import LintBridge.Proofs.Path.Ancestors
import LintBridge.Proofs.Path.Resolve
/-!
Which modules belong to the workspace. Only the modules directory nearest to a module is looked at,
so a module counts as the workspace's when all modules directories above it are, and one that other
modules brought along in a modules directory of their own does not count.
-/
namespace LintBridge
open LintBridge.Path

def Path.HoldsModules (dir : Path) : Prop := dir.fileName? = some "node_modules"

/-- Whether a directory is where modules are installed for a place or for a directory above it. -/
def Path.IsModulesOf (dir place : Path) : Prop :=
  ∃ above ∈ place.ancestors, dir.same (above.child "node_modules") = true

def InstalledFor (module place : Path) : Prop := ∃ dir ∈ module.parents, dir.IsModulesOf place

instance (dir : Path) : Decidable dir.HoldsModules := inferInstanceAs (Decidable (_ = _))

instance (dir place : Path) : Decidable (dir.IsModulesOf place) :=
  inferInstanceAs (Decidable (∃ above ∈ place.ancestors, _))

instance (module place : Path) : Decidable (InstalledFor module place) :=
  inferInstanceAs (Decidable (∃ dir ∈ module.parents, _))

theorem Path.holdsModules_iff {dir : Path} :
    dir.HoldsModules ↔ ∃ owner, dir.components = owner ++ [.name "node_modules"] := by
  rw [HoldsModules, fileName?, ← List.getLast?_eq_some_iff]
  cases dir.components.getLast? with
  | none => simp
  | some last => cases last <;> simp

theorem Path.isModulesOf_iff {dir place : Path} : dir.IsModulesOf place ↔
    ∃ above ∈ place.ancestors, dir.components = above.components ++ [.name "node_modules"] := by
  have is_name : IsName "node_modules" := by decide
  simp only [IsModulesOf, same_iff, components_child is_name]

theorem Path.IsModulesOf.holdsModules {dir place : Path} (modules : dir.IsModulesOf place) :
    dir.HoldsModules := by
  obtain ⟨above, -, components⟩ := isModulesOf_iff.mp modules
  exact holdsModules_iff.mpr ⟨_, components⟩

theorem Path.isModulesOf_iff_begins {dir place : Path} {owner : List Component}
    (components : dir.components = owner ++ [.name "node_modules"]) (owned : owner ≠ []) :
    dir.IsModulesOf place ↔ owner <+: place.components := by
  rw [← exists_mem_ancestors_iff owned, isModulesOf_iff]
  simp only [components, List.append_left_inj, eq_comm]

/-- A directory above an absolute path that is not the path's first step has something above it. -/
theorem Path.owner_ne_nil {p dir : Path} (absolute : p.isAbsolute = true)
    (above : dir ∈ p.ancestors) {owner : List Component} {name : String}
    (components : dir.components = owner ++ [.name name]) : owner ≠ [] := by
  obtain ⟨pieces, from_root⟩ := components_of_isAbsolute absolute
  have begins := (exists_mem_ancestors_iff (by simp)).mp ⟨dir, above, components⟩
  rintro rfl
  rw [from_root, List.nil_append, List.cons_prefix_cons] at begins
  exact Component.noConfusion begins.1

theorem modulesRoot?_spec {module nearest : Path} (found : modulesRoot? module = some nearest) :
    nearest ∈ module.ancestors ∧ nearest.HoldsModules ∧ ∀ dir ∈ module.ancestors,
      dir.HoldsModules → dir.components <+: nearest.components := by
  obtain ⟨holds, before, after, split, none_before⟩ := List.find?_eq_some_iff_append.mp found
  have order := pairwise_ancestors module
  rw [split] at order
  have later := (List.pairwise_cons.mp (List.pairwise_append.mp order).2.1).1
  refine ⟨List.mem_of_find?_eq_some found, of_decide_eq_true holds, fun dir above dir_holds => ?_⟩
  rw [split] at above
  rcases List.mem_append.mp above with nearer | here_or_farther
  · have other : dir.fileName? ≠ some "node_modules" := by simpa using none_before dir nearer
    exact absurd dir_holds other
  · rcases List.mem_cons.mp here_or_farther with rfl | farther
    · exact List.prefix_rfl
    · exact later dir farther

theorem modulesRoot?_eq_none_iff {module : Path} :
    modulesRoot? module = none ↔ ∀ dir ∈ module.ancestors, ¬ dir.HoldsModules := by
  simp only [modulesRoot?, List.find?_eq_none, HoldsModules, decide_eq_true_eq]

/-- A module is the workspace's if there are modules directories at or above it and all of them are
the workspace's. -/
theorem isWorkspaceModule_iff_forall {module place : Path} (absolute : module.isAbsolute = true) :
    isWorkspaceModule module place = true ↔ (∃ dir ∈ module.ancestors, dir.HoldsModules) ∧
      ∀ dir ∈ module.ancestors, dir.HoldsModules → dir.IsModulesOf place := by
  cases found : modulesRoot? module with
  | none =>
    have nowhere := modulesRoot?_eq_none_iff.mp found
    simp only [isWorkspaceModule, found, Option.bind_none, Bool.false_eq_true, false_iff]
    rintro ⟨⟨dir, above, holds⟩, -⟩
    exact nowhere dir above holds
  | some nearest =>
    obtain ⟨above, holds, farther⟩ := modulesRoot?_spec found
    obtain ⟨owner, components⟩ := holdsModules_iff.mp holds
    have owned := owner_ne_nil absolute above components
    have looked_at : isWorkspaceModule module place = true ↔ nearest.IsModulesOf place := by
      obtain ⟨dir, parent⟩ : ∃ dir, nearest.parent? = some dir := by
        rw [← Option.ne_none_iff_exists', ne_eq, parent?_eq_none_iff, components]
        simp [List.append_eq_singleton_iff]
      have dir_components := components_of_parent? parent
      rw [components, List.dropLast_concat] at dir_components
      rw [isModulesOf_iff_begins components owned]
      simp only [isWorkspaceModule, found, Option.bind_some, parent, startsWith, dir_components,
        List.isPrefixOf_iff_prefix]
    rw [looked_at]
    constructor
    · -- What stands above another modules directory begins what stands above the nearest one.
      intro nearest_is
      refine ⟨⟨nearest, above, holds⟩, fun dir dir_above dir_holds => ?_⟩
      obtain ⟨outer, outer_components⟩ := holdsModules_iff.mp dir_holds
      have outer_owned := owner_ne_nil absolute dir_above outer_components
      rw [isModulesOf_iff_begins components owned] at nearest_is
      rw [isModulesOf_iff_begins outer_components outer_owned]
      have begins := farther dir dir_above dir_holds
      rw [outer_components, components, List.prefix_concat_iff] at begins
      rcases begins with same | inside
      · rwa [List.append_cancel_right same]
      · exact ((List.prefix_append _ _).trans inside).trans nearest_is
    · rintro ⟨-, all⟩
      exact all nearest above holds

/-- Being the workspace's is being installed for the workspace, unless the module was brought along
in a modules directory that is not the workspace's, or is an outermost modules directory itself. -/
theorem isWorkspaceModule_iff_installedFor_iff {module place : Path}
    (absolute : module.isAbsolute = true) :
    (isWorkspaceModule module place = true ↔ InstalledFor module place) ↔
      (InstalledFor module place →
        ∀ dir ∈ module.ancestors, dir.HoldsModules → dir.IsModulesOf place) ∧
      (module.IsModulesOf place → ∃ dir ∈ module.parents, dir.HoldsModules) := by
  rw [isWorkspaceModule_iff_forall absolute]
  constructor
  · intro agree
    refine ⟨fun installed => (agree.mpr installed).2, fun itself => ?_⟩
    by_contra no_dir
    have alone : ∀ dir ∈ module.ancestors, dir.HoldsModules → dir.IsModulesOf place := by
      intro dir above holds
      rcases List.mem_cons.mp above with rfl | above
      · exact itself
      · exact absurd ⟨dir, above, holds⟩ no_dir
    obtain ⟨dir, above, modules⟩ :=
      agree.mp ⟨⟨module, List.mem_cons_self, itself.holdsModules⟩, alone⟩
    exact no_dir ⟨dir, above, modules.holdsModules⟩
  · rintro ⟨all_of, outermost⟩
    constructor
    · rintro ⟨⟨dir, above, holds⟩, all⟩
      rcases List.mem_cons.mp above with rfl | above
      · obtain ⟨outer, outer_above, outer_holds⟩ := outermost (all _ List.mem_cons_self holds)
        exact ⟨outer, outer_above, all outer (List.mem_cons_of_mem _ outer_above) outer_holds⟩
      · exact ⟨dir, above, all dir (List.mem_cons_of_mem _ above) holds⟩
    · rintro ⟨dir, above, modules⟩
      exact ⟨⟨dir, List.mem_cons_of_mem _ above, modules.holdsModules⟩,
        all_of ⟨dir, above, modules⟩⟩

theorem isWorkspaceModule_iff_installedFor_iff_nested :
    (Path.mk "/w/node_modules/.pnpm/node_modules/tslint").isAbsolute = true ∧
      ¬ (isWorkspaceModule ⟨"/w/node_modules/.pnpm/node_modules/tslint"⟩ ⟨"/w/src"⟩ = true ↔
        InstalledFor ⟨"/w/node_modules/.pnpm/node_modules/tslint"⟩ ⟨"/w/src"⟩) :=
  ⟨by decide, fun agree => by
    have all := ((isWorkspaceModule_iff_installedFor_iff (by decide)).mp agree).1 (by decide)
    exact absurd all (by decide)⟩

theorem not_isWorkspaceModule_nested :
    InstalledFor ⟨"/w/node_modules/.pnpm/node_modules/tslint"⟩ ⟨"/w/src"⟩ ∧
      isWorkspaceModule ⟨"/w/node_modules/.pnpm/node_modules/tslint"⟩ ⟨"/w/src"⟩ = false ∧
      ¬ InstalledFor ⟨"/w/node_modules"⟩ ⟨"/w/src"⟩ ∧
      isWorkspaceModule ⟨"/w/node_modules"⟩ ⟨"/w/src"⟩ = true := by
  decide

end LintBridge
