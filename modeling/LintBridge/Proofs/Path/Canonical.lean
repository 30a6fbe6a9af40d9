import LintBridge.Edit.Failure
import LintBridge.Proofs.Path.Lexical
import Mathlib.Data.List.Forall2
/-!
Canonical texts as a form. A text is in canonical form if its segments are names after some `..`, with
one kind of slash between them and nothing to leave out (`IsCanonical`). Every text has exactly one
canonical text, which has this form (`canonical_isCanonical`, `canonical_of_isCanonical`), and what is
appended to an absolute text may as well be appended to its canonical text (`canonical_append`). The
failures of a file are chosen by these forms alone (`canonical_form`).
-/
namespace LintBridge.Path
open Text

/-! ### The form -/

def segmentsOf (text : List Char) : List (List Char) :=
  let below := if text.head? = some '/' then text.tail else text
  if below = [] then [] else Text.pieces '/' below

structure IsCanonical (text : String) : Prop where
  slashed : '\\' ∉ text.toList
  busy : ∀ segment ∈ segmentsOf text.toList, segment ≠ [] ∧ segment ≠ ['.']
  climbs_first : ∃ ups names, segmentsOf text.toList = List.replicate ups ['.', '.'] ++ names ∧
    ['.', '.'] ∉ names
  rooted : text.toList.head? = some '/' → ['.', '.'] ∉ segmentsOf text.toList

def Rooted (text : String) : Prop :=
  text.toList.head? = some '/' ∨ text.toList.head? = some '\\'

instance (text : String) : Decidable (Rooted text) := inferInstanceAs (Decidable (_ ∨ _))

theorem join_segmentsOf (text : List Char) :
    text = if text.head? = some '/' then '/' :: Text.join '/' (segmentsOf text)
      else Text.join '/' (segmentsOf text) := by
  have joined (below : List Char) :
      Text.join '/' (if below = [] then [] else Text.pieces '/' below) = below := by
    split
    · rename_i nothing
      rw [nothing]
      rfl
    · exact join_pieces '/' below
  unfold segmentsOf
  simp only
  rw [joined]
  split
  · rename_i start
    obtain ⟨rest, rfl⟩ := List.head?_eq_some_iff.mp start
    rfl
  · rfl

theorem not_mem_of_mem_segmentsOf {text segment : List Char} (listed : segment ∈ segmentsOf text) :
    '/' ∉ segment := by
  unfold segmentsOf at listed
  generalize (if text.head? = some '/' then text.tail else text) = below at listed
  simp only at listed
  split at listed
  · contradiction
  · exact not_mem_of_mem_pieces listed

theorem steps_pieces (text : List Char) : steps (Text.pieces '/' text) = steps (segmentsOf text) := by
  have below (rest : List Char) :
      steps (Text.pieces '/' rest) = steps (if rest = [] then [] else Text.pieces '/' rest) := by
    split
    · rename_i nothing
      rw [nothing]
      rfl
    · rfl
  unfold segmentsOf
  simp only
  split
  · rename_i start
    obtain ⟨rest, rfl⟩ := List.head?_eq_some_iff.mp start
    rw [Text.pieces, if_pos rfl, steps_cons_of_idle rfl]
    exact below rest
  · exact below text

/-! ### Texts of trails -/

namespace Trail

theorem Named.noParent {t : Trail} (named : t.Named) : ['.', '.'] ∉ t.down.map String.toList := by
  intro member
  obtain ⟨name, listed, eq⟩ := List.mem_map.mp member
  exact (named name listed).noParent eq

theorem segments_true (t : Trail) : t.segments true = t.down.map String.toList := rfl

theorem segments_false (t : Trail) :
    t.segments false = List.replicate t.up ['.', '.'] ++ t.down.map String.toList := rfl

theorem Named.segments_busy {t : Trail} (named : t.Named) {absolute : Bool} :
    ∀ segment ∈ t.segments absolute, segment ≠ [] ∧ segment ≠ ['.'] := by
  intro segment listed
  refine ⟨(named.segment listed).2, ?_⟩
  rintro rfl
  rcases List.mem_append.mp listed with above | below
  · cases absolute with
    | true => simp at above
    | false => simpa using List.eq_of_mem_replicate above
  · obtain ⟨name, is_listed, eq⟩ := List.mem_map.mp below
    have busy := (named name is_listed).busy
    simp [eq, isIdle] at busy

theorem Named.segments_climb {t : Trail} (named : t.Named) (absolute : Bool) :
    ∃ ups names, t.segments absolute = List.replicate ups ['.', '.'] ++ names ∧
      ['.', '.'] ∉ names := by
  cases absolute with
  | true => exact ⟨0, _, t.segments_true, named.noParent⟩
  | false => exact ⟨t.up, _, t.segments_false, named.noParent⟩

theorem head?_join_segments {t : Trail} (named : t.Named) (absolute : Bool) :
    (Text.join '/' (t.segments absolute)).head? ≠ some '/' := by
  intro start
  cases listed : t.segments absolute with
  | nil => simp [listed, Text.join] at start
  | cons first more =>
    obtain ⟨clean, busy⟩ := named.segment (listed ▸ List.mem_cons_self : first ∈ t.segments absolute)
    obtain ⟨c, rest, rfl⟩ := List.exists_cons_of_ne_nil busy
    rw [listed] at start
    cases more <;> simp [Text.join] at start <;> simp [start] at clean

theorem segmentsOf_chars {t : Trail} (named : t.Named) (absolute : Bool) :
    segmentsOf (t.chars absolute) = t.segments absolute := by
  have cut : (if Text.join '/' (t.segments absolute) = [] then []
      else Text.pieces '/' (Text.join '/' (t.segments absolute))) = t.segments absolute := by
    by_cases nothing : t.segments absolute = []
    · simp [nothing, Text.join]
    · have some_char : Text.join '/' (t.segments absolute) ≠ [] := by
        intro empty
        have back := pieces_join nothing fun _ member => (named.segment member).1
        rw [empty] at back
        have blank : [] ∈ t.segments absolute := by simp [← back, Text.pieces]
        exact (named.segment blank).2 rfl
      rw [if_neg some_char, pieces_join nothing fun _ member => (named.segment member).1]
  unfold segmentsOf chars
  cases absolute with
  | true => simpa using cut
  | false =>
    simp only [Bool.false_eq_true, if_false, if_neg (head?_join_segments named false)]
    exact cut

theorem head?_chars_iff {t : Trail} (named : t.Named) (absolute : Bool) :
    (t.chars absolute).head? = some '/' ↔ absolute = true := by
  cases absolute with
  | true => simp [chars]
  | false => simpa [chars] using head?_join_segments named false

theorem steps_segments {t : Trail} (named : t.Named) (absolute : Bool) :
    steps (t.segments absolute) =
      (if absolute then [] else List.replicate t.up .parent) ++ t.down.map .name := by
  have down : steps (t.down.map String.toList) = t.down.map .name := by
    have all (names : List String) (are : ∀ name ∈ names, IsName name) :
        steps (names.map String.toList) = names.map .name := by
      induction names with
      | nil => rfl
      | cons name rest ih =>
        have is_name := are name List.mem_cons_self
        rw [List.map_cons, steps_cons_of_busy is_name.busy, step, if_neg is_name.noParent,
          String.ofList_toList, ih fun other member => are other (List.mem_cons_of_mem _ member),
          List.map_cons]
    exact all t.down named
  have up (n : Nat) : steps (List.replicate n ['.', '.']) = List.replicate n .parent := by
    induction n with
    | zero => rfl
    | succ n ih => rw [List.replicate_succ, steps_cons_of_busy rfl, ih, List.replicate_succ]; rfl
  rw [segments, steps_append, down]
  cases absolute with
  | true => rfl
  | false => simp only [Bool.false_eq_true, if_false, up]

theorem trail_chars {t : Trail} (named : t.Named) (absolute : Bool) :
    trail (Path.mk (String.ofList (t.chars absolute))).components =
      ⟨if absolute then 0 else t.up, t.down⟩ := by
  have ups (n : Nat) : trail (List.replicate n .parent) = ⟨n, []⟩ := by
    induction n with
    | zero => rfl
    | succ n ih => rw [List.replicate_succ', trail_append, ih]; rfl
  have led : trail (Path.mk (String.ofList (t.chars absolute))).components =
      trail (steps (t.segments absolute)) := by
    rw [trail, foldl_components, String.toList_ofList, steps_pieces, segmentsOf_chars named]
    rfl
  rw [led, steps_segments named]
  cases absolute with
  | true => exact trail_names t.down
  | false =>
    simp only [Bool.false_eq_true, if_false]
    rw [trail_append_names, ups, foldl_enter]
    rfl

theorem chars_true_of_down {t t' : Trail} (same : t.down = t'.down) : t.chars true = t'.chars true := by
  simp [chars, segments, same]

theorem down_iterate_rise (n : Nat) (t : Trail) :
    (rise^[n] t).down = t.down.take (t.down.length - n) := by
  induction n with
  | zero => simp
  | succ n ih =>
    rw [Function.iterate_succ_apply']
    generalize rise^[n] t = reached at ih
    have taken : reached.down.dropLast = t.down.take (t.down.length - (n + 1)) := by
      rw [ih, List.dropLast_eq_take, List.take_take, List.length_take]
      congr 1
      omega
    unfold rise
    split
    · rename_i bottom
      simp [← taken, bottom]
    · exact taken

end Trail

/-! ### Texts with both slashes -/

def withSlashes (text : String) : Path := ⟨String.ofList (unified text.toList)⟩

theorem not_mem_unified (text : List Char) : '\\' ∉ unified text := by
  unfold unified
  intro member
  obtain ⟨c, -, eq⟩ := List.mem_map.mp member
  split at eq
  · simp at eq
  · exact absurd eq ‹_›

theorem withSlashes_text (text : String) : (withSlashes text).text.toList = unified text.toList :=
  String.toList_ofList

theorem withSlashes_slashed (text : String) : (withSlashes text).Slashed := by
  rw [slashed_iff, withSlashes_text]
  exact not_mem_unified _

theorem withSlashes_of_not_mem {text : String} (clean : '\\' ∉ text.toList) :
    withSlashes text = ⟨text⟩ := by
  rw [withSlashes, unified_of_not_mem clean, String.ofList_toList]

theorem withSlashes_isAbsolute_iff (text : String) :
    (withSlashes text).isAbsolute = true ↔ Rooted text := by
  unfold isAbsolute Rooted
  rw [withSlashes_text, decide_eq_true_iff]
  cases text.toList with
  | nil => simp [unified]
  | cons c rest =>
    by_cases back : c = '\\' <;> simp [unified, back]

theorem canonical_spells (text : String) :
    canonical text = String.ofList
      ((trail (withSlashes text).components).chars (withSlashes text).isAbsolute) := by
  rw [← canonical_eq (withSlashes_slashed text)]
  unfold canonical canonicalChars
  rw [withSlashes_text, unified_of_not_mem (not_mem_unified _)]

theorem slashed_down {p : Path} (slashed : p.Slashed) :
    ∀ name ∈ (trail p.components).down, '\\' ∉ name.toList :=
  fun name listed => slashed name (mem_of_mem_down listed)

theorem toList_canonical (text : String) : (canonical text).toList =
    (trail (withSlashes text).components).chars (withSlashes text).isAbsolute := by
  rw [canonical_spells, String.toList_ofList]

theorem not_mem_canonical (text : String) : '\\' ∉ (canonical text).toList := by
  have clean := slashed_down (withSlashes_slashed text)
  rw [toList_canonical]
  generalize trail (withSlashes text).components = t at clean
  have joined (absolute : Bool) : '\\' ∉ Text.join '/' (t.segments absolute) := by
    intro member
    obtain ⟨segment, listed, inside⟩ := (mem_join_iff (by decide) _).mp member
    rcases List.mem_append.mp listed with above | below
    · split at above
      · contradiction
      · rw [List.eq_of_mem_replicate above] at inside
        simp at inside
    · obtain ⟨name, named, rfl⟩ := List.mem_map.mp below
      exact clean name named inside
  cases (withSlashes text).isAbsolute with
  | true => simpa [Trail.chars] using joined true
  | false => simpa [Trail.chars] using joined false

theorem rooted_canonical_iff (text : String) :
    (canonical text).toList.head? = some '/' ↔ Rooted text := by
  rw [toList_canonical, Trail.head?_chars_iff trail_named, withSlashes_isAbsolute_iff]

theorem canonical_isCanonical (text : String) : IsCanonical (canonical text) := by
  have segments_eq : segmentsOf (canonical text).toList =
      (trail (withSlashes text).components).segments (withSlashes text).isAbsolute := by
    rw [toList_canonical, Trail.segmentsOf_chars trail_named]
  have named : (trail (withSlashes text).components).Named := trail_named
  refine ⟨not_mem_canonical text, ?_, ?_, fun start => ?_⟩ <;> rw [segments_eq]
  · exact named.segments_busy
  · exact named.segments_climb _
  · rw [(withSlashes_isAbsolute_iff text).mpr ((rooted_canonical_iff text).mp start), Trail.segments_true]
    exact named.noParent

theorem IsCanonical.exists_trail {text : String} (form : IsCanonical text) :
    ∃ t : Trail, t.Named ∧ text.toList = t.chars (Path.mk text).isAbsolute ∧
      ((Path.mk text).isAbsolute = true → t.up = 0) := by
  obtain ⟨slashed, busy, ⟨ups, names, segments_eq, no_parent⟩, rooted⟩ := form
  have toList_names : (names.map String.ofList).map String.toList = names := by
    simp [Function.comp_def]
  have no_ups (start : text.toList.head? = some '/') : ups = 0 := by
    by_contra some_up
    refine rooted start ?_
    rw [segments_eq]
    exact List.mem_append_left _ (List.mem_replicate.mpr ⟨some_up, rfl⟩)
  refine ⟨⟨ups, names.map String.ofList⟩, ?_, ?_, fun absolute => ?_⟩
  · rintro name listed
    obtain ⟨segment, member, rfl⟩ := List.mem_map.mp listed
    have here : segment ∈ segmentsOf text.toList := by
      rw [segments_eq]
      exact List.mem_append_right _ member
    refine ⟨?_, ?_, ?_⟩ <;> rw [String.toList_ofList]
    · exact not_mem_of_mem_segmentsOf here
    · rw [Bool.eq_false_iff, ne_eq, isIdle_iff, not_or]
      exact busy segment here
    · rintro rfl
      exact no_parent member
  · have joined := join_segmentsOf text.toList
    rw [segments_eq] at joined
    by_cases start : text.toList.head? = some '/'
    · rw [if_pos start, no_ups start] at joined
      simpa [isAbsolute, start, Trail.chars, Trail.segments, Function.comp_def] using joined
    · rw [if_neg start] at joined
      simpa [isAbsolute, start, Trail.chars, Trail.segments, Function.comp_def] using joined
  · exact no_ups (by simpa [isAbsolute] using absolute)

theorem canonical_of_isCanonical {text : String} (form : IsCanonical text) : canonical text = text := by
  obtain ⟨t, named, spelled, no_ups⟩ := form.exists_trail
  have led : trail (Path.mk text).components = t := by
    have back := Trail.trail_chars named (Path.mk text).isAbsolute
    rw [← spelled, String.ofList_toList] at back
    rw [back]
    cases absolute : (Path.mk text).isAbsolute with
    | true => simp [← no_ups absolute]
    | false => rfl
  rw [canonical_spells, withSlashes_of_not_mem form.slashed, led, ← spelled, String.ofList_toList]

/-! ### Appending -/

theorem isAbsolute_append {p : String} (absolute : (Path.mk p).isAbsolute = true) (q : String) :
    (Path.mk (p ++ q)).isAbsolute = true := by
  obtain ⟨rest, text⟩ := text_of_isAbsolute absolute
  simp [isAbsolute, text]

theorem canonical_append_eq {p : Path} (slashed : p.Slashed) (absolute : p.isAbsolute = true)
    (q : String) :
    canonical (p.text ++ "/" ++ q) = String.ofList
      (((trail (withSlashes q).components).down.foldl Trail.enter
        (Trail.rise^[climbs (withSlashes q)] (trail p.components))).chars true) := by
  have nonempty : p.text.isEmpty = false := by
    rw [Bool.eq_false_iff, ne_eq, String.isEmpty_iff]
    intro empty
    simp [isAbsolute, empty] at absolute
  have whole : withSlashes (p.text ++ "/" ++ q) = p.joined (withSlashes q).text := by
    have same : (p.text ++ "/" ++ String.ofList (unified q.toList)).toList =
        unified (p.text ++ "/" ++ q).toList := by
      have front := unified_of_not_mem (slashed_iff.mp slashed)
      simp only [String.toList_append, String.toList_ofList, unified, List.map_append] at front ⊢
      rw [front]
      rfl
    rw [joined, if_neg (by simp [nonempty]), withSlashes, withSlashes, ← same, String.ofList_toList]
  have rooted : (p.joined (withSlashes q).text).isAbsolute = true := by
    rw [joined, if_neg (by simp [nonempty]), String.append_assoc]
    exact isAbsolute_append absolute _
  rw [canonical_spells, whole, rooted, trail_joined]

/-- What is appended to an absolute text may as well be appended to its canonical text. -/
theorem canonical_append {p : String} (rooted : Rooted p) (q : String) :
    canonical (p ++ "/" ++ q) = canonical (canonical p ++ "/" ++ q) := by
  have absolute := (withSlashes_isAbsolute_iff p).mpr rooted
  have slashed : (Path.mk (canonical p)).Slashed := slashed_iff.mpr (not_mem_canonical p)
  have still_absolute : (Path.mk (canonical p)).isAbsolute = true := by
    simpa [isAbsolute] using (rooted_canonical_iff p).mpr rooted
  have down : (trail (Path.mk (canonical p)).components).down =
      (trail (withSlashes p).components).down := by
    rw [canonical_spells, Trail.trail_chars trail_named]
  have unslashed : canonical (p ++ "/" ++ q) = canonical ((withSlashes p).text ++ "/" ++ q) := by
    have same : unified (p ++ "/" ++ q).toList = unified ((withSlashes p).text ++ "/" ++ q).toList := by
      have again := unified_of_not_mem (not_mem_unified p.toList)
      simp only [String.toList_append, withSlashes_text]
      simp only [unified, List.map_append] at again ⊢
      rw [again]
    unfold canonical canonicalChars
    rw [same]
  rw [unslashed, canonical_append_eq (withSlashes_slashed p) absolute,
    canonical_append_eq slashed still_absolute]
  refine congrArg String.ofList (Trail.chars_true_of_down ?_)
  rw [Trail.foldl_enter, Trail.foldl_enter, Trail.down_iterate_rise, Trail.down_iterate_rise, down]

/-! ### Failures of a file -/

def Respelled (f f' : Failure) : Prop :=
  f' = { f with fileName := f'.fileName } ∧ canonical f'.fileName = canonical f.fileName

instance (f f' : Failure) : Decidable (Respelled f f') := inferInstanceAs (Decidable (_ ∧ _))

theorem count_failuresOf (file : String) (failures : List Failure) (f : Failure) :
    (failuresOf file failures).count f =
      if canonical f.fileName = canonical file then failures.count f else 0 := by
  unfold failuresOf
  split
  · rename_i here
    exact List.count_filter (by simpa using here)
  · rename_i elsewhere
    rw [List.count_eq_zero]
    intro member
    exact elsewhere (by simpa using List.of_mem_filter member)

theorem failuresOf_respelled {file file' : String} (same : canonical file' = canonical file)
    {pairs : List (Failure × Failure)} (respelled : ∀ pair ∈ pairs, Respelled pair.1 pair.2) :
    ∃ kept : List (Failure × Failure), kept.Sublist pairs ∧
      failuresOf file (pairs.map Prod.fst) = kept.map Prod.fst ∧
      failuresOf file' (pairs.map Prod.snd) = kept.map Prod.snd := by
  refine ⟨pairs.filter fun pair => canonical pair.1.fileName = canonical file,
    List.filter_sublist, ?_, ?_⟩
  · rw [failuresOf, List.filter_map]
    rfl
  · rw [failuresOf, List.filter_map]
    refine congrArg (List.map Prod.snd) (List.filter_congr fun pair listed => ?_)
    simp [same, (respelled pair listed).2]

/-- The canonical text is a form: it has the marks of one and keeps the start of the text, texts of
the form stay as they are, and it may be taken of what an absolute text begins with. The failures of a
file are those with names of its form, in their order and as often as they are listed, whatever the
spelling. -/
theorem canonical_form :
    (∀ text, IsCanonical (canonical text) ∧
      ((canonical text).toList.head? = some '/' ↔ Rooted text) ∧
      canonical (canonical text) = canonical text) ∧
    (∀ text, IsCanonical text → canonical text = text) ∧
    (∀ p q, Rooted p → canonical (p ++ "/" ++ q) = canonical (canonical p ++ "/" ++ q)) ∧
    (∀ file failures, (failuresOf file failures).Sublist failures ∧
      ∀ f, (failuresOf file failures).count f =
        if canonical f.fileName = canonical file then failures.count f else 0) ∧
    ∀ file file' (pairs : List (Failure × Failure)), canonical file' = canonical file →
      (∀ pair ∈ pairs, Respelled pair.1 pair.2) →
      ∃ kept : List (Failure × Failure), kept.Sublist pairs ∧
        failuresOf file (pairs.map Prod.fst) = kept.map Prod.fst ∧
        failuresOf file' (pairs.map Prod.snd) = kept.map Prod.snd := by
  refine ⟨fun text => ⟨canonical_isCanonical text, rooted_canonical_iff text, ?_⟩,
    fun _ form => canonical_of_isCanonical form, fun _ q rooted => canonical_append rooted q,
    fun file failures => ⟨List.filter_sublist, count_failuresOf file failures⟩,
    fun _ _ _ same respelled => failuresOf_respelled same respelled⟩
  exact canonical_of_isCanonical (canonical_isCanonical text)

theorem canonical_form_detour :
    let failure (name : String) : Failure := ⟨name, 0, 1, "m", some "semicolon", none, none⟩
    canonical "/w/src/a.ts" = "/w/src/a.ts" ∧
      canonical ("\\w\\lib" ++ "/" ++ "../src\\a.ts") = canonical ("/w/lib" ++ "/" ++ "../src\\a.ts") ∧
      ∃ kept : List (Failure × Failure),
        failuresOf "/w/src/a.ts" [failure "/w/src//a.ts", failure "/w/b.ts"] = kept.map Prod.fst ∧
        failuresOf "/w/./src/a.ts" [failure "\\w\\src\\a.ts", failure "/w/src/../b.ts"] =
          kept.map Prod.snd := by
  intro failure
  obtain ⟨-, unchanged, appended, -, respelled⟩ := canonical_form
  refine ⟨unchanged _ ⟨by decide, by decide, ⟨0, segmentsOf "/w/src/a.ts".toList, by decide, by decide⟩,
    by decide⟩, ?_, ?_⟩
  · have written : canonical "\\w\\lib" = "/w/lib" := by decide
    rw [appended "\\w\\lib" "../src\\a.ts" (by decide), written]
  · obtain ⟨kept, -, first, second⟩ := respelled "/w/src/a.ts" "/w/./src/a.ts"
      [(failure "/w/src//a.ts", failure "\\w\\src\\a.ts"), (failure "/w/b.ts", failure "/w/src/../b.ts")]
      (by decide) (by decide)
    exact ⟨kept, first, second⟩

end LintBridge.Path
