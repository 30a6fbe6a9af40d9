import LintBridge.Path.Basic
import LintBridge.Proofs.Path.Resolve
import Mathlib.Logic.Function.Iterate
/-!
Where steps lead by their text alone. Steps come to a `Trail`: some levels up, then down by names
(`foldl_follow`), and the canonical text of a path spells the trail of its components
(`canonical_eq`). Resolving a relative path step by step takes components off where the trail goes
up, which is not the same where the last component is no name: the two agree exactly if all that is
taken off are names, or if the way up leads to the root (`canonical_resolve_iff`).
-/
namespace LintBridge.Path
open Text

/-! ### Trails -/

/-- Where steps lead from a place that is not known: so many levels up, then down by names. -/
structure Trail where
  up : Nat
  down : List String
deriving DecidableEq

def follow {α : Type} (rise : α → α) (enter : α → String → α) (place : α) : Component → α
  | .name text => enter place text
  | .parent => rise place
  | _ => place

namespace Trail

def rise (t : Trail) : Trail :=
  if t.down = [] then { t with up := t.up + 1 } else { t with down := t.down.dropLast }

def enter (t : Trail) (name : String) : Trail := { t with down := t.down ++ [name] }

@[simp] theorem rise_enter (t : Trail) (name : String) : (t.enter name).rise = t := by
  simp [rise, enter]

theorem foldl_enter (t : Trail) (names : List String) :
    names.foldl enter t = { t with down := t.down ++ names } := by
  induction names generalizing t with
  | nil => simp
  | cons name rest ih => simp [ih, enter]

theorem height_iterate_rise (n : Nat) (t : Trail) :
    ((rise^[n] t).down.length : Int) - (rise^[n] t).up = t.down.length - t.up - n := by
  induction n with
  | zero => simp
  | succ n ih =>
    rw [Function.iterate_succ_apply']
    generalize rise^[n] t = reached at ih
    unfold rise
    split
    · rename_i bottom
      simp only [bottom, List.length_nil] at ih ⊢
      omega
    · rename_i below
      have := List.length_pos_iff.mpr below
      simp only [List.length_dropLast]
      omega

theorem length_down_iterate_rise (n : Nat) (t : Trail) :
    (rise^[n] t).down.length = t.down.length - n := by
  induction n with
  | zero => simp
  | succ n ih =>
    rw [Function.iterate_succ_apply']
    generalize rise^[n] t = reached at ih
    unfold rise
    split
    · rename_i bottom
      simp only [bottom, List.length_nil] at ih ⊢
      omega
    · simp only [List.length_dropLast]
      omega

end Trail

def trail (steps : List Component) : Trail := steps.foldl (follow Trail.rise Trail.enter) ⟨0, []⟩

theorem trail_append (steps more : List Component) :
    trail (steps ++ more) = more.foldl (follow Trail.rise Trail.enter) (trail steps) :=
  List.foldl_append

theorem mem_of_mem_down {steps : List Component} {name : String} (listed : name ∈ (trail steps).down) :
    .name name ∈ steps := by
  induction steps using List.reverseRecOn with
  | nil => contradiction
  | append_singleton steps last ih =>
    rw [trail_append] at listed
    rw [List.mem_append, List.mem_singleton]
    cases last with
    | name text =>
      rcases List.mem_append.mp listed with earlier | here
      · exact Or.inl (ih earlier)
      · exact Or.inr (by rw [List.mem_singleton.mp here])
    | parent =>
      apply Or.inl
      apply ih
      simp only [List.foldl_cons, List.foldl_nil, follow, Trail.rise] at listed
      split at listed
      · exact listed
      · exact List.dropLast_subset _ listed
    | _ => exact Or.inl (ih listed)

section Follow

variable {α : Type} {rise : α → α} {enter : α → String → α}
  (undo : ∀ place name, rise (enter place name) = place)
include undo

theorem iterate_rise_foldl_enter (place : α) (names : List String) :
    rise^[names.length] (names.foldl enter place) = place := by
  induction names using List.reverseRecOn with
  | nil => rfl
  | append_singleton names last ih =>
    rw [List.length_append, List.length_singleton, Function.iterate_succ_apply, List.foldl_append]
    exact (congrArg _ (undo _ _)).trans ih

/-- Wherever going up takes back going down, steps lead where their trail leads. -/
theorem foldl_follow (steps : List Component) (place : α) :
    steps.foldl (follow rise enter) place =
      (trail steps).down.foldl enter (rise^[(trail steps).up] place) := by
  induction steps using List.reverseRecOn with
  | nil => rfl
  | append_singleton steps last ih =>
    rw [List.foldl_append, ih, trail_append]
    generalize trail steps = t
    cases last with
    | name text => simp [follow, Trail.enter]
    | parent =>
      simp only [List.foldl_cons, List.foldl_nil, follow, Trail.rise]
      split
      · rename_i bottom
        rw [bottom]
        exact (Function.iterate_succ_apply' _ _ _).symm
      · rename_i below
        obtain ⟨names, last, down⟩ := (List.eq_nil_or_concat t.down).resolve_left below
        simp only [down, List.concat_eq_append, List.dropLast_concat, List.foldl_append,
          List.foldl_cons, List.foldl_nil, undo]
    | _ => rfl

end Follow

/-- A trail up and down by names goes as far back as the steps before the last names. -/
theorem trail_append_names (steps : List Component) (names : List String) :
    trail (steps ++ names.map Component.name) = names.foldl Trail.enter (trail steps) := by
  rw [trail_append, List.foldl_map]
  rfl

/-! ### Canonical texts -/

namespace Trail

def segments (absolute : Bool) (t : Trail) : List (List Char) :=
  (if absolute then [] else List.replicate t.up ['.', '.']) ++ t.down.map String.toList

def chars (absolute : Bool) (t : Trail) : List Char :=
  let joined := Text.join '/' (t.segments absolute)
  if absolute then '/' :: joined else joined

def Named (t : Trail) : Prop := ∀ name ∈ t.down, IsName name

theorem Named.segment {t : Trail} (named : t.Named) {absolute : Bool} {segment : List Char}
    (member : segment ∈ t.segments absolute) : '/' ∉ segment ∧ segment ≠ [] := by
  rcases List.mem_append.mp member with above | below
  · obtain rfl : segment = ['.', '.'] := by
      split at above
      · contradiction
      · exact List.eq_of_mem_replicate above
    simp
  · obtain ⟨name, listed, rfl⟩ := List.mem_map.mp below
    have is_name := named name listed
    refine ⟨is_name.noSlash, fun nothing => ?_⟩
    have busy := is_name.busy
    simp [nothing, isIdle] at busy

theorem segments_of_chars {t t' : Trail} (named : t.Named) (named' : t'.Named) {absolute : Bool}
    (same : t.chars absolute = t'.chars absolute) : t.segments absolute = t'.segments absolute := by
  have joined : Text.join '/' (t.segments absolute) = Text.join '/' (t'.segments absolute) := by
    unfold chars at same
    cases absolute with
    | true => exact (List.cons.inj same).2
    | false => exact same
  -- Joined segments are cut back into the segments, and no segments are joined to the empty text.
  have cut {segments : List (List Char)} (clean : ∀ s ∈ segments, '/' ∉ s ∧ s ≠ []) :
      segments = (Text.pieces '/' (Text.join '/' segments)).filter (!·.isEmpty) := by
    by_cases nothing : segments = []
    · subst nothing
      rfl
    · rw [pieces_join nothing fun s member => (clean s member).1]
      refine (List.filter_eq_self.mpr fun s member => ?_).symm
      simpa using (clean s member).2
  rw [cut fun _ member => named.segment member, joined]
  exact (cut fun _ member => named'.segment member).symm

theorem eq_of_segments {t t' : Trail} (named : t.Named) (named' : t'.Named)
    (same : t.segments false = t'.segments false) : t = t' := by
  have count {t : Trail} (named : t.Named) : (t.segments false).count ['.', '.'] = t.up := by
    have below : (t.down.map String.toList).count ['.', '.'] = 0 := by
      rw [List.count_eq_zero]
      intro member
      obtain ⟨name, listed, eq⟩ := List.mem_map.mp member
      exact (named name listed).noParent eq
    simp [segments, List.count_append, below]
  have up : t.up = t'.up := by rw [← count named, ← count named', same]
  have segments_down : t.down.map String.toList = t'.down.map String.toList := by
    simpa [segments, up] using same
  have down : t.down = t'.down :=
    (List.map_inj_right fun _ _ => String.toList_inj.mp).mp segments_down
  cases t
  cases t'
  exact (Trail.mk.injEq ..).mpr ⟨up, down⟩

end Trail

theorem trail_named {p : Path} : (trail p.components).Named := fun _ listed =>
  isName_of_mem_components (mem_of_mem_down listed)

theorem absorbSegment_eq {absolute : Bool} {t : Trail} (named : t.Named) {piece : List Char}
    (busy : isIdle piece = false) :
    absorbSegment absolute (t.segments absolute).reverse piece =
      ((follow Trail.rise Trail.enter t (step piece)).segments absolute).reverse := by
  have other : ¬(piece = [] ∨ piece = ['.']) := by
    rw [← isIdle_iff, busy]
    simp
  unfold absorbSegment step
  rw [if_neg other]
  by_cases parent : piece = ['.', '.']
  · rw [if_pos parent, if_pos parent]
    simp only [follow, Trail.rise]
    rcases List.eq_nil_or_concat t.down with bottom | ⟨names, last, down⟩
    · cases absolute with
      | true => simp [Trail.segments, bottom]
      | false =>
        cases up : t.up with
        | zero => simp [Trail.segments, bottom, up, parent]
        | succ n => simp [Trail.segments, bottom, up, parent, List.replicate_succ']
    · have is_name := named last (by simp [down])
      simp [Trail.segments, down, is_name.noParent]
  · rw [if_neg parent, if_neg parent]
    simp [Trail.segments, follow, Trail.enter]

theorem foldl_absorbSegment {absolute : Bool} {pieces : List (List Char)}
    (clean : ∀ piece ∈ pieces, '/' ∉ piece) :
    pieces.foldl (absorbSegment absolute) [] = ((trail (steps pieces)).segments absolute).reverse := by
  induction pieces using List.reverseRecOn with
  | nil => simp [steps, trail, Trail.segments]
  | append_singleton pieces last ih =>
    have before := ih fun piece member => clean piece (List.mem_append_left _ member)
    rw [List.foldl_append, before, steps_append, trail_append, List.foldl_cons, List.foldl_nil]
    by_cases busy : isIdle last = false
    · have named : (trail (steps pieces)).Named := fun _ listed =>
        isName_of_mem_steps (fun piece member => clean piece (List.mem_append_left _ member))
          (mem_of_mem_down listed)
      rw [absorbSegment_eq named busy, steps_cons_of_busy busy]
      rfl
    · have idle : isIdle last = true := by simpa using busy
      unfold absorbSegment
      rw [steps_cons_of_idle idle, if_pos (isIdle_iff.mp idle)]
      rfl

theorem foldl_components {α : Type} (rise : α → α) (enter : α → String → α) (place : α) (p : Path) :
    p.components.foldl (follow rise enter) place =
      (steps (Text.pieces '/' p.text.toList)).foldl (follow rise enter) place := by
  have start : (leading (Text.pieces '/' p.text.toList)).foldl (follow rise enter) place = place := by
    unfold leading
    split <;> rfl
  rw [components_of_pieces, List.foldl_append, start]

def Slashed (p : Path) : Prop := ∀ name, .name name ∈ p.components → '\\' ∉ name.toList

theorem slashed_iff {p : Path} : p.Slashed ↔ '\\' ∉ p.text.toList := by
  constructor
  · intro slashed member
    have other : '\\' ≠ '/' := by decide
    rw [← join_pieces '/' p.text.toList, mem_join_iff other] at member
    obtain ⟨piece, cut, inside⟩ := member
    have busy : isIdle piece = false := by
      rw [Bool.eq_false_iff, ne_eq, isIdle_iff]
      rintro (rfl | rfl) <;> simp at inside
    have no_parent : piece ≠ ['.', '.'] := by
      rintro rfl
      simp at inside
    refine slashed (String.ofList piece) ?_ (by simpa using inside)
    rw [components_of_pieces]
    apply List.mem_append_right
    apply List.mem_map.mpr
    exact ⟨piece, List.mem_filter.mpr ⟨cut, by simp [busy]⟩, by simp [step, no_parent]⟩
  · exact fun clean name listed inside => clean (mem_text_of_mem_name listed inside)

theorem unified_of_not_mem {text : List Char} (clean : '\\' ∉ text) : unified text = text := by
  unfold unified
  rw [List.map_congr_left, List.map_id]
  intro c member
  have other : c ≠ '\\' := by
    rintro rfl
    exact clean member
  simp [other]

theorem canonical_eq {p : Path} (slashed : p.Slashed) :
    canonical p.text = String.ofList ((trail p.components).chars p.isAbsolute) := by
  have unified_eq := unified_of_not_mem (slashed_iff.mp slashed)
  have absorbed : (Text.pieces '/' p.text.toList).foldl (absorbSegment p.isAbsolute) [] =
      ((trail p.components).segments p.isAbsolute).reverse := by
    rw [trail, foldl_components]
    exact foldl_absorbSegment fun _ => not_mem_of_mem_pieces
  have absolute : decide (p.text.toList.head? = some '/') = p.isAbsolute := rfl
  unfold canonical canonicalChars
  rw [unified_eq]
  simp only [absolute, absorbed, List.reverse_reverse]
  cases start : p.isAbsolute with
  | true =>
    have slash : p.text.toList.head? = some '/' := by simpa [isAbsolute] using start
    simp [slash, Trail.chars]
  | false =>
    have no_slash : p.text.toList.head? ≠ some '/' := by simpa [isAbsolute] using start
    simp [no_slash, Trail.chars]

/-! ### Resolving -/

def ascend (components : List Component) : List Component :=
  if components = [] ∨ components = [.root] then components else components.dropLast

def descend (components : List Component) (name : String) : List Component :=
  components ++ [.name name]

theorem ascend_descend (components : List Component) (name : String) :
    ascend (descend components name) = components := by
  have below : ¬(components ++ [.name name] = [] ∨ components ++ [.name name] = [.root]) := by
    rintro (nothing | root)
    · simp at nothing
    · have last := congrArg List.getLast? root
      simp at last
  unfold ascend descend
  rw [if_neg below, List.dropLast_concat]

theorem foldl_descend (components : List Component) (names : List String) :
    names.foldl descend components = components ++ names.map .name := by
  induction names generalizing components with
  | nil => simp
  | cons name rest ih => simp [ih, descend]

theorem components_parent (dir : Path) : (dir.parent?.getD dir).components = ascend dir.components := by
  cases above : dir.parent? with
  | none => simp [ascend, parent?_eq_none_iff.mp above]
  | some up =>
    have below : ¬(dir.components = [] ∨ dir.components = [.root]) := by
      rw [← parent?_eq_none_iff, above]
      simp
    rw [ascend, if_neg below]
    exact components_of_parent? above

theorem components_resolve {dir : Path} {p : String} (relative : (Path.mk p).isAbsolute = false) :
    (Path.mk (dir.resolve p)).components =
      (Path.mk p).components.foldl (follow ascend descend) dir.components := by
  have no_root := root_not_mem_components relative
  have names (text : String) (member : .name text ∈ (Path.mk p).components) : IsName text :=
    isName_of_mem_components member
  unfold Path.resolve
  rw [if_neg (by simp [relative])]
  generalize (Path.mk p).components = steps at no_root names
  induction steps generalizing dir with
  | nil => rfl
  | cons c rest ih =>
    have onwards (dir : Path) := @ih dir (fun member => no_root (List.mem_cons_of_mem _ member))
      fun text member => names text (List.mem_cons_of_mem _ member)
    rw [List.foldl_cons, List.foldl_cons, onwards]
    cases c with
    | root => exact absurd List.mem_cons_self no_root
    | current => rfl
    | parent => rw [components_parent]; rfl
    | name text =>
      have is_name := names text List.mem_cons_self
      have below : (dir.child text).components = descend dir.components text :=
        components_child is_name
      exact congrArg (List.foldl (follow ascend descend) · rest) below

def climbs (p : Path) : Nat := (trail p.components).up

def above (levels : Nat) (dir : Path) : Path := (fun dir : Path => dir.parent?.getD dir)^[levels] dir

theorem components_above (levels : Nat) (dir : Path) :
    (dir.above levels).components = ascend^[levels] dir.components := by
  induction levels with
  | zero => rfl
  | succ n ih =>
    rw [above, Function.iterate_succ_apply', ← above, components_parent, ih,
      Function.iterate_succ_apply']

theorem exists_taken_off (levels : Nat) (components : List Component) :
    ∃ taken, components = ascend^[levels] components ++ taken ∧ taken.length ≤ levels := by
  induction levels with
  | zero => exact ⟨[], by simp⟩
  | succ n ih =>
    obtain ⟨taken, cut, few⟩ := ih
    rw [Function.iterate_succ_apply']
    generalize ascend^[n] components = left at cut
    unfold ascend
    split
    · exact ⟨taken, cut, by omega⟩
    · rename_i below
      rcases List.eq_nil_or_concat left with nothing | ⟨before, last, rfl⟩
      · exact absurd (Or.inl nothing) below
      · exact ⟨last :: taken, by simpa using cut, by simpa using few⟩

theorem length_down_le (steps : List Component) : (trail steps).down.length ≤ steps.length := by
  induction steps using List.reverseRecOn with
  | nil => simp [trail]
  | append_singleton steps last ih =>
    rw [trail_append, List.length_append, List.length_singleton]
    cases last with
    | name text => simpa [follow, Trail.enter] using ih
    | parent =>
      simp only [List.foldl_cons, List.foldl_nil, follow, Trail.rise]
      split
      · exact Nat.le_succ_of_le ih
      · simp only [List.length_dropLast]
        omega
    | _ => exact Nat.le_succ_of_le ih

theorem eq_names_of_length {steps : List Component}
    (all : steps.length ≤ (trail steps).down.length) : steps = (trail steps).down.map .name := by
  induction steps using List.reverseRecOn with
  | nil => rfl
  | append_singleton steps last ih =>
    have before := length_down_le steps
    rw [trail_append, List.length_append, List.length_singleton] at all
    cases last with
    | name text =>
      have names := ih (by simpa [follow, Trail.enter] using all)
      rw [trail_append, List.foldl_cons, List.foldl_nil, follow, Trail.enter, List.map_append, ← names]
      rfl
    | parent =>
      simp only [List.foldl_cons, List.foldl_nil, follow, Trail.rise] at all
      split at all
      · simp only at all
        omega
      · simp only [List.length_dropLast] at all
        omega
    | _ =>
      simp only [List.foldl_cons, List.foldl_nil, follow] at all
      omega

theorem trail_names (names : List String) : trail (names.map .name) = ⟨0, names⟩ := by
  have entered := trail_append_names [] names
  rw [Trail.foldl_enter] at entered
  simpa [trail] using entered

def EndsInNames (levels : Nat) (components : List Component) : Prop :=
  ∃ (before : List Component) (names : List String), components = before ++ names.map .name ∧
    names.length = levels

/-- Going up a trail is going up from the directory above, and no further exactly if only names have
been taken off. -/
theorem iterate_rise_trail (levels : Nat) (components : List Component) :
    ∃ more, Trail.rise^[levels] (trail components) =
        Trail.rise^[more] (trail (ascend^[levels] components)) ∧
      (more = 0 ↔ EndsInNames levels components) := by
  obtain ⟨taken, cut, few⟩ := exists_taken_off levels components
  generalize left_eq : ascend^[levels] components = left at cut
  have fewer := Nat.le_trans (length_down_le taken) few
  have led : trail components =
      (trail taken).down.foldl Trail.enter (Trail.rise^[(trail taken).up] (trail left)) := by
    rw [cut, trail_append]
    exact foldl_follow Trail.rise_enter taken _
  refine ⟨levels - (trail taken).down.length + (trail taken).up, ?_, ?_⟩
  · have back := iterate_rise_foldl_enter Trail.rise_enter
      (Trail.rise^[(trail taken).up] (trail left)) (trail taken).down
    obtain ⟨rest, levels_eq⟩ := Nat.exists_eq_add_of_le' fewer
    rw [led, levels_eq, Function.iterate_add_apply, back, Nat.add_sub_cancel,
      Function.iterate_add_apply]
  · constructor
    · intro nothing
      have names : taken = (trail taken).down.map .name := eq_names_of_length (by omega)
      exact ⟨left, (trail taken).down, by rw [← names, cut], by omega⟩
    · rintro ⟨before, names, cut', levels_eq⟩
      have back := iterate_rise_foldl_enter ascend_descend before names
      rw [foldl_descend, ← cut', levels_eq, left_eq] at back
      have taken_eq : taken = names.map .name := by
        rw [back, cut'] at cut
        exact (List.append_cancel_left cut).symm
      rw [taken_eq, trail_names]
      simp [levels_eq]

theorem root_mem_iterate_ascend (levels : Nat) (dir : Path) :
    .root ∈ ascend^[levels] dir.components ↔ .root ∈ dir.components := by
  obtain ⟨taken, cut, -⟩ := exists_taken_off levels dir.components
  constructor
  · intro member
    rw [cut]
    exact List.mem_append_left _ member
  · intro member
    obtain ⟨pieces, start⟩ := components_of_isAbsolute (isAbsolute_iff.mpr member)
    have kept (n : Nat) : ∃ steps, ascend^[n] dir.components = .root :: steps := by
      induction n with
      | zero => exact ⟨_, start⟩
      | succ n ih =>
        obtain ⟨steps, eq⟩ := ih
        rw [Function.iterate_succ_apply', eq]
        cases steps with
        | nil => exact ⟨[], rfl⟩
        | cons first more => exact ⟨(first :: more).dropLast, by simp [ascend]⟩
    obtain ⟨steps, eq⟩ := kept levels
    simp [eq]

def joined (dir : Path) (p : String) : Path :=
  if dir.text.isEmpty then ⟨p⟩ else ⟨dir.text ++ "/" ++ p⟩

section Joined

variable {dir : Path} {p : String}

theorem trail_joined (dir : Path) (p : String) : trail (dir.joined p).components =
    (trail (Path.mk p).components).down.foldl Trail.enter
      (Trail.rise^[climbs ⟨p⟩] (trail dir.components)) := by
  have led : trail (dir.joined p).components =
      (Path.mk p).components.foldl (follow Trail.rise Trail.enter) (trail dir.components) := by
    unfold joined
    split
    · rename_i nothing
      rw [components_of_empty (String.toList_eq_nil_iff.mpr (String.isEmpty_iff.mp nothing))]
      rfl
    · rw [foldl_components, trail, foldl_components, trail, foldl_components, ← List.foldl_append,
        ← steps_append, ← pieces_append_separator]
      simp
  rw [led]
  exact foldl_follow Trail.rise_enter _ _

theorem isAbsolute_joined (relative : (Path.mk p).isAbsolute = false) :
    (dir.joined p).isAbsolute = dir.isAbsolute := by
  unfold joined
  split
  · rename_i nothing
    rw [relative]
    simp [isAbsolute, String.isEmpty_iff.mp nothing]
  · rename_i something
    cases text : dir.text.toList with
    | nil => simp [String.isEmpty_iff, String.toList_eq_nil_iff.mp text] at something
    | cons c rest => simp [isAbsolute, text]

theorem slashed_joined (dir_plain : '\\' ∉ dir.text.toList) (plain : '\\' ∉ p.toList) :
    (dir.joined p).Slashed := by
  rw [slashed_iff]
  unfold joined
  split
  · exact plain
  · simp [dir_plain, plain]

theorem components_resolve_eq (relative : (Path.mk p).isAbsolute = false) :
    (Path.mk (dir.resolve p)).components =
      ascend^[climbs ⟨p⟩] dir.components ++ (trail (Path.mk p).components).down.map .name := by
  rw [components_resolve relative, foldl_follow ascend_descend, foldl_descend]
  rfl

theorem isAbsolute_resolve (relative : (Path.mk p).isAbsolute = false) :
    (Path.mk (dir.resolve p)).isAbsolute = dir.isAbsolute := by
  rw [Bool.eq_iff_iff, isAbsolute_iff, isAbsolute_iff, components_resolve_eq relative, List.mem_append,
    root_mem_iterate_ascend]
  simp

theorem slashed_above (plain : '\\' ∉ dir.text.toList) (levels : Nat) : (dir.above levels).Slashed := by
  intro name listed
  obtain ⟨taken, cut, -⟩ := exists_taken_off levels dir.components
  rw [components_above] at listed
  exact slashed_iff.mpr plain name (by rw [cut]; exact List.mem_append_left _ listed)

theorem slashed_resolve (relative : (Path.mk p).isAbsolute = false)
    (dir_plain : '\\' ∉ dir.text.toList) (plain : '\\' ∉ p.toList) :
    (Path.mk (dir.resolve p)).Slashed := by
  intro name listed
  rw [components_resolve_eq relative, ← components_above] at listed
  rcases List.mem_append.mp listed with above | below
  · exact slashed_above dir_plain _ name above
  · obtain ⟨_, down, eq⟩ := List.mem_map.mp below
    obtain rfl := Component.name.inj eq
    have slashed : (Path.mk p).Slashed := slashed_iff.mpr plain
    exact slashed _ (mem_of_mem_down down)

theorem Trail.chars_iterate_rise_iff {t : Trail} {levels : Nat} {names : List String}
    (named : (names.foldl enter t).Named) (named' : (names.foldl enter (rise^[levels] t)).Named)
    (absolute : Bool) :
    (names.foldl enter t).chars absolute = (names.foldl enter (rise^[levels] t)).chars absolute ↔
      levels = 0 ∨ absolute = true ∧ t.down = [] := by
  have shorter := length_down_iterate_rise levels t
  constructor
  · intro same
    have segments_eq := segments_of_chars named named' same
    cases absolute with
    | false =>
      have eq := eq_of_segments named named' segments_eq
      rw [foldl_enter, foldl_enter, Trail.mk.injEq] at eq
      have height := height_iterate_rise levels t
      rw [← eq.1, ← List.append_cancel_right eq.2] at height
      exact Or.inl (by omega)
    | true =>
      have count := congrArg List.length segments_eq
      simp only [segments, foldl_enter, if_true, List.nil_append, List.length_map, List.length_append,
        shorter] at count
      rcases Nat.eq_zero_or_pos t.down.length with bottom | below
      · exact Or.inr ⟨rfl, List.eq_nil_of_length_eq_zero bottom⟩
      · exact Or.inl (by omega)
  · rintro (rfl | ⟨rfl, bottom⟩)
    · rfl
    · have bottom' : (rise^[levels] t).down = [] := List.eq_nil_of_length_eq_zero (by simp [shorter, bottom])
      simp [chars, segments, foldl_enter, bottom, bottom']

theorem canonical_eq_root_iff {p : Path} (slashed : p.Slashed) (absolute : p.isAbsolute = true) :
    canonical p.text = "/" ↔ (trail p.components).down = [] := by
  rw [canonical_eq slashed, absolute]
  constructor
  · intro root
    have same : (trail p.components).chars true = (Trail.mk 0 []).chars true := by
      have texts := congrArg String.toList root
      rwa [String.toList_ofList] at texts
    have segments_eq := Trail.segments_of_chars trail_named (by simp [Trail.Named]) same
    simpa [Trail.segments] using segments_eq
  · intro bottom
    simp [Trail.chars, Trail.segments, bottom, Text.join]

/-- Resolving a relative path names the place that the texts joined name, exactly if all the components
that it takes off are names, or the way up leads to the root, where more or less of it is the same. -/
theorem canonical_resolve_iff (relative : (Path.mk p).isAbsolute = false)
    (dir_plain : '\\' ∉ dir.text.toList) (plain : '\\' ∉ p.toList) :
    canonical (dir.resolve p) = canonical (dir.joined p).text ↔
      EndsInNames (climbs ⟨p⟩) dir.components ∨
        dir.isAbsolute = true ∧ canonical (dir.above (climbs ⟨p⟩)).text = "/" := by
  -- Both sides spell a trail, that of what is left of the directory, one of them taken `more` levels up.
  obtain ⟨more, led, exact_iff⟩ := iterate_rise_trail (climbs ⟨p⟩) dir.components
  have resolved_eq : trail (Path.mk (dir.resolve p)).components =
      (trail (Path.mk p).components).down.foldl Trail.enter
        (trail (ascend^[climbs ⟨p⟩] dir.components)) := by
    rw [components_resolve_eq relative, trail_append_names]
  have joined_eq := trail_joined dir p
  rw [led] at joined_eq
  have above_absolute : (dir.above (climbs ⟨p⟩)).isAbsolute = dir.isAbsolute := by
    rw [Bool.eq_iff_iff, isAbsolute_iff, isAbsolute_iff, components_above, root_mem_iterate_ascend]
  have resolved_canonical := canonical_eq (slashed_resolve relative dir_plain plain)
  rw [resolved_canonical, canonical_eq (slashed_joined dir_plain plain), String.ofList_inj,
    isAbsolute_resolve relative, isAbsolute_joined relative, resolved_eq, joined_eq]
  rw [Trail.chars_iterate_rise_iff (resolved_eq ▸ trail_named) (joined_eq ▸ trail_named), exact_iff]
  refine or_congr_right (and_congr_right fun absolute => ?_)
  rw [canonical_eq_root_iff (slashed_above dir_plain _) (above_absolute.trans absolute),
    components_above]

theorem canonical_resolve_iff_sibling :
    canonical ((Path.mk "/w/sub").resolve "../base.json") =
      canonical ((Path.mk "/w/sub").joined "../base.json").text :=
  (canonical_resolve_iff (by decide) (by decide) (by decide)).mpr
    (Or.inl ⟨[.root, .name "w"], ["sub"], by decide, by decide⟩)

theorem canonical_resolve_dot :
    (Path.mk "./tslint.json").parent? = some ⟨"."⟩ ∧
      canonical ((Path.mk ".").resolve "../base.json") = "base.json" ∧
      canonical ((Path.mk ".").joined "../base.json").text = "../base.json" := by
  decide

end Joined

end LintBridge.Path
