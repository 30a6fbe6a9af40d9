import LintBridge.Edit.Decoding
import LintBridge.Proofs.Json.RoundTrip
/-!
What an engine may write for a failure. There are two names for most fields, two forms of positions
and three forms of fixes, and members that nobody asks for (`Failure.Written`). Whatever is written
is read as that failure (`Failure.Written.reads`), and what this program writes is one of these forms
(`Failure.written_toJson`).
-/
namespace LintBridge

/-! ### Fields -/

/-- What members hold of a field with several names: a value under one of them, or nothing under any
of them. -/
inductive Field (names : List String) : List (String × Json) → Option Json → Prop where
  | given {name : String} {value : Json} {before after : List (String × Json)}
      (named : name ∈ names) (others : ∀ m ∈ before ++ after, m.1 ∉ names) :
      Field names (before ++ (name, value) :: after) (some value)
  | leftOut {members : List (String × Json)} (others : ∀ m ∈ members, m.1 ∉ names) :
      Field names members none

theorem field?_eq_some_iff {names : List String} {members : List (String × Json)}
    {value : Option Json} : field? names members = some value ↔ Field names members value := by
  constructor
  · intro found
    unfold field? at found
    split at found
    · rename_i none_named
      obtain rfl := Option.some.inj found
      refine .leftOut fun m m_mem => ?_
      simpa using List.filter_eq_nil_iff.mp none_named m m_mem
    · rename_i name content one_named
      obtain rfl := Option.some.inj found
      obtain ⟨before, after, rfl, before_others, named, after_others⟩ :=
        List.filter_eq_cons_iff.mp one_named
      refine .given (by simpa using named) fun m m_mem => ?_
      rcases List.mem_append.mp m_mem with m_before | m_after
      · simpa using before_others m m_before
      · simpa using List.filter_eq_nil_iff.mp after_others m m_after
    · cases found
  · intro held
    cases held with
    | @given name value before after named others =>
      have none_before : before.filter (fun m => names.contains m.1) = [] :=
        List.filter_eq_nil_iff.mpr fun m m_mem => by
          simpa using others m (List.mem_append_left after m_mem)
      have none_after : after.filter (fun m => names.contains m.1) = [] :=
        List.filter_eq_nil_iff.mpr fun m m_mem => by
          simpa using others m (List.mem_append_right before m_mem)
      rw [field?, List.filter_append, none_before, List.filter_cons_of_pos (by simpa using named),
        none_after]
      rfl
    | leftOut others =>
      have none_named : members.filter (fun m => names.contains m.1) = [] :=
        List.filter_eq_nil_iff.mpr fun m m_mem => by simpa using others m m_mem
      rw [field?, none_named]

/-! ### Forms -/

inductive TextForm : String → Option Json → Prop where
  | given (text : String) : TextForm text (some (.str text))
  | empty : TextForm "" none

structure Replacement.Written (r : Replacement) (members : List (String × Json)) : Prop where
  start : Field ["start", "innerStart"] members (some (.int r.start.toNat))
  length : Field ["length", "innerLength"] members (some (.int r.length.toNat))
  text : ∃ value, Field ["text", "innerText"] members value ∧ TextForm r.text value

inductive PositionForm (offset : UInt32) : Json → Prop where
  | number : PositionForm offset (.int offset.toNat)
  | record {members : List (String × Json)}
      (position : Field ["position"] members (some (.int offset.toNat))) :
      PositionForm offset (.obj members)

def ListForm (rs : List Replacement) (items : List Json) : Prop :=
  List.Forall₂ (fun r item => ∃ members, item = .obj members ∧ r.Written members) rs items

/-- The forms of a fix: none or `null`, a list, an object that holds the list, or the only
replacement of the list. -/
inductive FixForm : Option (List Replacement) → Option Json → Prop where
  | absent : FixForm none none
  | null : FixForm none (some .null)
  | list {rs : List Replacement} {items : List Json} (each : ListForm rs items) :
      FixForm (some rs) (some (.arr items))
  | wrapped {rs : List Replacement} {items : List Json} {members : List (String × Json)}
      (each : ListForm rs items) (listed : Field ["replacements"] members (some (.arr items))) :
      FixForm (some rs) (some (.obj members))
  | single {r : Replacement} {members : List (String × Json)} (written : r.Written members)
      (bare : Field ["replacements"] members none) :
      FixForm (some [r]) (some (.obj members))

inductive NameForm : Option String → Option Json → Prop where
  | given (name : String) : NameForm (some name) (some (.str name))
  | null : NameForm none (some .null)
  | absent : NameForm none none

structure Failure.Written (f : Failure) (members : List (String × Json)) : Prop where
  fileName : Field ["fileName", "name"] members (some (.str f.fileName))
  start : ∃ value,
    Field ["start", "startPosition"] members (some value) ∧ PositionForm f.start value
  stop : ∃ value,
    Field ["end", "endPosition"] members (some value) ∧ PositionForm f.stop value
  message : Field ["message", "failure"] members (some (.str f.message))
  ruleName : ∃ value, Field ["ruleName"] members value ∧ NameForm f.ruleName value
  severity : ∃ value, Field ["ruleSeverity"] members value ∧ NameForm f.severity value
  fix : ∃ value, Field ["fix"] members value ∧ FixForm f.fix value

/-! ### Reading -/

theorem word32?_toNat (word : UInt32) : (Json.int word.toNat).word32? = some word := by
  have small : (0 : Int) ≤ word.toNat ∧ (word.toNat : Int).toNat < UInt32.size :=
    ⟨Int.natCast_nonneg _, word.toNat_lt⟩
  rw [Json.word32?, if_pos small, Int.toNat_natCast, UInt32.ofNat_toNat]

theorem Replacement.Written.reads {r : Replacement} {members : List (String × Json)}
    (written : r.Written members) : Replacement.ofJson? (.obj members) = some r := by
  obtain ⟨text, text_field, text_form⟩ := written.text
  have start_eq := field?_eq_some_iff.mpr written.start
  have length_eq := field?_eq_some_iff.mpr written.length
  have text_eq := field?_eq_some_iff.mpr text_field
  obtain ⟨start, length, content⟩ := r
  simp only [Replacement.ofJson?, start_eq, length_eq, text_eq]
  cases text_form with
  | given => simp [ofFields?, word32?_toNat, Json.str?]
  | empty => simp [ofFields?, word32?_toNat]

theorem PositionForm.reads {offset : UInt32} {value : Json} (form : PositionForm offset value) :
    position? value = some offset := by
  cases form with
  | number => exact word32?_toNat offset
  | record position =>
    have position_eq := field?_eq_some_iff.mpr position
    simp [position?, position_eq, word32?_toNat]

theorem ListForm.reads {rs : List Replacement} {items : List Json} (form : ListForm rs items) :
    replacements? (.arr items) = some rs := by
  have each : items.mapM Replacement.ofJson? = some rs := by
    induction form with
    | nil => rfl
    | cons written _ ih =>
      obtain ⟨members, rfl, written⟩ := written
      simp [List.mapM_cons, written.reads, ih]
  exact each

/-- Only a list has items, and of the two forms with members only one has the member `replacements`,
so that no form of a fix is taken for another. -/
theorem FixForm.reads {rs : List Replacement} {value : Json}
    (form : FixForm (some rs) (some value)) : fix? value = some rs := by
  have no_items (members : List (String × Json)) : replacements? (.obj members) = none := rfl
  cases form with
  | list each => rw [fix?, each.reads, Option.some_or]
  | @wrapped _ items members each listed =>
    have wrapped_eq : wrappedReplacements? (.obj members) = some rs := by
      have listed_eq := field?_eq_some_iff.mpr listed
      simp [wrappedReplacements?, Json.members?, listed_eq, each.reads]
    rw [fix?, no_items, wrapped_eq, Option.none_or, Option.some_or]
  | @single r members written bare =>
    have not_wrapped : wrappedReplacements? (.obj members) = none := by
      have bare_eq := field?_eq_some_iff.mpr bare
      simp [wrappedReplacements?, Json.members?, bare_eq]
    rw [fix?, no_items, not_wrapped, Option.none_or, Option.none_or, written.reads]
    rfl

theorem NameForm.reads {name : Option String} {value : Option Json} (form : NameForm name value) :
    (value.getD .null).optionalStr? = some name := by
  cases form <;> rfl

theorem Failure.ofFields?_forms {f : Failure} {start stop : Json}
    {ruleName severity fix : Option Json}
    (start_form : PositionForm f.start start) (stop_form : PositionForm f.stop stop)
    (rule_form : NameForm f.ruleName ruleName) (severity_form : NameForm f.severity severity)
    (fix_form : FixForm f.fix fix) :
    ofFields? (.str f.fileName) start stop (.str f.message) ruleName severity fix = some f := by
  obtain ⟨fileName, start_offset, stop_offset, message, rule_name, severity_name, replacements⟩ := f
  have start_eq := start_form.reads
  have stop_eq := stop_form.reads
  have rule_eq := rule_form.reads
  have severity_eq := severity_form.reads
  dsimp only at start_eq stop_eq rule_eq severity_eq
  cases fix_form with
  | absent => simp [ofFields?, Json.str?, start_eq, stop_eq, rule_eq, severity_eq]
  | null => simp [ofFields?, Json.str?, start_eq, stop_eq, rule_eq, severity_eq]
  | list each =>
    have fix_eq := (FixForm.list each).reads
    simp [ofFields?, Json.str?, start_eq, stop_eq, rule_eq, severity_eq, fix_eq]
  | wrapped each listed =>
    have fix_eq := (FixForm.wrapped each listed).reads
    simp [ofFields?, Json.str?, start_eq, stop_eq, rule_eq, severity_eq, fix_eq]
  | single written bare =>
    have fix_eq := (FixForm.single written bare).reads
    simp [ofFields?, Json.str?, start_eq, stop_eq, rule_eq, severity_eq, fix_eq]

theorem Failure.Written.reads {f : Failure} {members : List (String × Json)}
    (written : f.Written members) : Failure.ofJson? (.obj members) = some f := by
  obtain ⟨start, start_field, start_form⟩ := written.start
  obtain ⟨stop, stop_field, stop_form⟩ := written.stop
  obtain ⟨ruleName, rule_field, rule_form⟩ := written.ruleName
  obtain ⟨severity, severity_field, severity_form⟩ := written.severity
  obtain ⟨fix, fix_field, fix_form⟩ := written.fix
  have read := ofFields?_forms start_form stop_form rule_form severity_form fix_form
  simp [ofJson?, field?_eq_some_iff.mpr written.fileName, field?_eq_some_iff.mpr start_field,
    field?_eq_some_iff.mpr stop_field, field?_eq_some_iff.mpr written.message,
    field?_eq_some_iff.mpr rule_field, field?_eq_some_iff.mpr severity_field,
    field?_eq_some_iff.mpr fix_field, read]

/-! ### Texts -/

theorem field?_kept {shape : Json.Shape} {names : List String}
    (known : ∀ name ∈ names, (shape.member name).isSkipped = false)
    (members : List (String × Json)) :
    field? names (members.flatMap (Json.Strict.kept shape)) = field? names members := by
  have same : (members.flatMap (Json.Strict.kept shape)).filter (fun m => names.contains m.1) =
      members.filter fun m => names.contains m.1 := by
    induction members with
    | nil => rfl
    | cons m members ih =>
      rw [List.flatMap_cons, List.filter_append, ih, Json.Strict.kept]
      by_cases named : m.1 ∈ names
      · simp [known m.1 named, named]
      · cases (shape.member m.1).isSkipped <;> simp [named]
  rw [field?, field?, same]

theorem Failure.flat_shape : Failure.shape.Flat := Json.Shape.flat_record _ _

theorem Failure.ofJson?_kept (members : List (String × Json)) :
    ofJson? (.obj (members.flatMap (Json.Strict.kept shape))) = ofJson? (.obj members) := by
  have same (names : List String) (known : names ⊆ ["fileName", "name", "start", "startPosition",
      "end", "endPosition", "message", "failure", "ruleName", "ruleSeverity", "fix"]) :
      field? names (members.flatMap (Json.Strict.kept shape)) = field? names members := by
    refine field?_kept (fun name name_mem => ?_) members
    rw [shape, Json.Shape.member_record, if_pos (known name_mem)]
    rfl
  simp only [ofJson?, same ["fileName", "name"] (by decide),
    same ["start", "startPosition"] (by decide), same ["end", "endPosition"] (by decide),
    same ["message", "failure"] (by decide),
    same ["ruleName"] (by decide), same ["ruleSeverity"] (by decide), same ["fix"] (by decide)]

theorem Failure.ofText?_compact {members : List (String × Json)}
    (plain : Json.Plain 128 (.obj members)) :
    ofText? (Json.obj members).compact = ofJson? (.obj members) := by
  rw [ofText?, Json.readStrict?_compact_obj flat_shape plain]
  exact ofJson?_kept members

theorem Replacement.written_toJson (r : Replacement) :
    ∃ members, r.toJson = .obj members ∧ r.Written members :=
  ⟨_, rfl, field?_eq_some_iff.mp rfl, field?_eq_some_iff.mp rfl, _, field?_eq_some_iff.mp rfl,
    .given r.text⟩

theorem listForm_toJson (rs : List Replacement) : ListForm rs (rs.map Replacement.toJson) := by
  induction rs with
  | nil => exact .nil
  | cons r rs ih => exact .cons r.written_toJson ih

theorem NameForm.ofOption (name : Option String) :
    NameForm name (some (Json.ofOption .str name)) := by
  cases name with
  | none => exact .null
  | some name => exact .given name

theorem Failure.written_toJson (f : Failure) :
    ∃ members, f.toJson = .obj members ∧ f.Written members := by
  refine ⟨_, rfl, ?_⟩
  obtain ⟨fileName, start, stop, message, ruleName, severity, fix⟩ := f
  have fix_form : FixForm fix (fix.map fun rs => .arr (rs.map Replacement.toJson)) := by
    cases fix with
    | none => exact .absent
    | some rs => exact .list (listForm_toJson rs)
  -- Whether there is a member `fix` decides what the list of members is.
  cases fix <;>
    exact ⟨field?_eq_some_iff.mp rfl, ⟨_, field?_eq_some_iff.mp rfl, .number⟩,
      ⟨_, field?_eq_some_iff.mp rfl, .number⟩, field?_eq_some_iff.mp rfl,
      ⟨_, field?_eq_some_iff.mp rfl, .ofOption ruleName⟩,
      ⟨_, field?_eq_some_iff.mp rfl, .ofOption severity⟩,
      ⟨_, field?_eq_some_iff.mp rfl, fix_form⟩⟩

theorem fits_toNat (word : UInt32) : Json.Fits word.toNat :=
  ⟨by omega, Int.ofNat_lt.mpr (Nat.lt_trans word.toNat_lt (by decide))⟩

theorem Replacement.plain_toJson (r : Replacement) {depth : Nat} (levels : 1 < depth) :
    Json.Plain depth r.toJson := by
  simp [toJson, Json.Plain, Json.PlainMembers, levels, fits_toNat]

theorem plain_ofOption (depth : Nat) (name : Option String) :
    Json.Plain depth (Json.ofOption .str name) := by
  cases name <;> simp [Json.ofOption, Json.Plain]

theorem Failure.plain_toJson (f : Failure) {depth : Nat} (levels : 3 < depth) :
    Json.Plain depth f.toJson := by
  have fix_plain (rs : List Replacement) :
      Json.PlainItems (depth - 1 - 1) (rs.map Replacement.toJson) := by
    refine Json.plainItems_iff.mpr fun v v_mem => ?_
    obtain ⟨r, -, rfl⟩ := List.mem_map.mp v_mem
    exact r.plain_toJson (by omega)
  have outer : 1 < depth := by omega
  have inner : 1 < depth - 1 := by omega
  cases fix : f.fix <;>
    simp [toJson, fix, Json.Plain, Json.PlainMembers, outer, inner, fits_toNat, plain_ofOption,
      fix_plain]

/-- A failure is read back from its own value and text, and from everything else that an engine may
write for it. -/
theorem Failure.encodings_read_back (f : Failure) :
    (ofJson? f.toJson = some f ∧ ofText? f.toJson.compact = some f) ∧
      ∀ members, f.Written members → ofJson? (.obj members) = some f ∧
        (Json.Plain 128 (.obj members) → ofText? (Json.obj members).compact = some f) := by
  have written_read (members : List (String × Json)) (written : f.Written members) :
      ofJson? (.obj members) = some f ∧
        (Json.Plain 128 (.obj members) → ofText? (Json.obj members).compact = some f) :=
    ⟨written.reads, fun plain => (ofText?_compact plain).trans written.reads⟩
  refine ⟨?_, written_read⟩
  obtain ⟨members, value_eq, written⟩ := f.written_toJson
  have plain := f.plain_toJson (by decide : 3 < 128)
  rw [value_eq] at plain ⊢
  exact ⟨(written_read members written).1, (written_read members written).2 plain⟩

theorem Failure.encodings_read_back_mixed :
    let f : Failure := ⟨"a.ts", 7, 20, "m", none, none, some [⟨7, 6, ""⟩, ⟨19, 1, "[]"⟩]⟩
    let fix := Json.obj [("replacements", .arr [
      .obj [("innerStart", .int 7), ("innerLength", .int 6)],
      .obj [("note", .null), ("start", .int 19), ("innerLength", .int 1),
        ("innerText", .str "[]")]])]
    let members := [("name", .str "a.ts"), ("failure", .str "m"), ("weight", .arr [.int 3]),
      ("startPosition", .obj [("position", .int 7), ("line", .int 0)]), ("end", .int 20),
      ("fix", fix)]
    f.Written members ∧ ofJson? (.obj members) = some f ∧
      ofText? (Json.obj members).compact = some f := by
  intro f fix members
  have first : Replacement.Written ⟨7, 6, ""⟩ [("innerStart", .int 7), ("innerLength", .int 6)] :=
    ⟨field?_eq_some_iff.mp rfl, field?_eq_some_iff.mp rfl, _, field?_eq_some_iff.mp rfl, .empty⟩
  have second : Replacement.Written ⟨19, 1, "[]"⟩ [("note", .null), ("start", .int 19),
      ("innerLength", .int 1), ("innerText", .str "[]")] :=
    ⟨field?_eq_some_iff.mp rfl, field?_eq_some_iff.mp rfl, _, field?_eq_some_iff.mp rfl, .given _⟩
  have fix_form : FixForm f.fix (some fix) :=
    .wrapped (.cons ⟨_, rfl, first⟩ (.cons ⟨_, rfl, second⟩ .nil)) (field?_eq_some_iff.mp rfl)
  have written : f.Written members :=
    ⟨field?_eq_some_iff.mp rfl,
      ⟨_, field?_eq_some_iff.mp rfl, .record (field?_eq_some_iff.mp rfl)⟩,
      ⟨_, field?_eq_some_iff.mp rfl, .number⟩, field?_eq_some_iff.mp rfl,
      ⟨_, field?_eq_some_iff.mp rfl, .absent⟩, ⟨_, field?_eq_some_iff.mp rfl, .absent⟩,
      ⟨_, field?_eq_some_iff.mp rfl, fix_form⟩⟩
  have plain : Json.Plain 128 (.obj members) := by
    simp [members, fix, Json.Plain, Json.PlainItems, Json.PlainMembers, Json.Fits]
  obtain ⟨value_read, text_read⟩ := (Failure.encodings_read_back f).2 members written
  exact ⟨written, value_read, text_read plain⟩

end LintBridge
