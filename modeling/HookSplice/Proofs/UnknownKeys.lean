import HookSplice.Manifest.Format

/-!
# Keys that are no fields

A manifest consists of records at several levels.  What a key does that is no field depends on the
record that it stands in: it spoils the whole manifest, or it makes no difference.  The records
that let such keys pass are the configuration and the captures of instance fields.
-/

namespace HookSplice

open Event (PayloadField)

namespace Json

/-! ### Records with another key -/

section Insert

variable (strict : Bool) {fields : List String} {key : Option String}

/-- A key that is no field is refused by a strict record, and by any record if it is no text. -/
theorem keysFit_insert (unknown : ∀ name ∈ key, name ∉ fields)
    (before after : List (Option String)) :
    keysFit strict fields (before ++ key :: after) =
      (!(strict || key.isNone) && keysFit strict fields (before ++ after)) := by
  induction before with
  | nil =>
      cases key with
      | none => simp [keysFit]
      | some name => simp [keysFit, unknown name rfl]
  | cons first rest ih =>
      cases first with
      | none => simp [keysFit]
      | some field =>
          simp only [List.cons_append, keysFit, ih]
          by_cases known : field ∈ fields
          · have other : some field ≠ key := fun same => unknown field same.symm known
            simp [known, other, Bool.and_left_comm]
          · simp [known, Bool.and_left_comm]

theorem lookup_insert {field : String} (other : some field ≠ key) (value : Json)
    (before after : List (Option String × Json)) :
    (before ++ (key, value) :: after).lookup (some field) =
      (before ++ after).lookup (some field) := by
  rw [List.lookup_append, List.lookup_append, List.lookup_cons, beq_false_of_ne other]

/-- A record is the same without a key that is no field, unless it refuses the key. -/
theorem record?_insert (unknown : ∀ name ∈ key, name ∉ fields) (value : Json)
    (before after : List (Option String × Json)) :
    record? strict fields (object (before ++ (key, value) :: after)) =
      if strict || key.isNone then none else record? strict fields (object (before ++ after)) := by
  have values : (fields.map fun field => (before ++ (key, value) :: after).lookup (some field)) =
      fields.map fun field => (before ++ after).lookup (some field) :=
    List.map_congr_left fun field known =>
      lookup_insert (fun same => unknown field same.symm known) value before after
  simp only [record?, List.map_append, List.map_cons, keysFit_insert strict unknown, values]
  cases strict || key.isNone <;> rfl

end Insert

/-! ### Records with another member -/

section Replace

variable {strict : Bool} {fields : List String}

/-- Of keys that fit a record, none stands in front of the first one that is a field. -/
theorem notMem_of_keysFit {before after : List (Option String)} {name : String}
    (known : name ∈ fields) (fit : keysFit strict fields (before ++ some name :: after)) :
    some name ∉ before := by
  induction before with
  | nil => exact List.not_mem_nil
  | cons first rest ih =>
      cases first with
      | none => cases fit
      | some field =>
          obtain ⟨once, fit⟩ := Bool.and_eq_true_iff.mp fit
          intro member
          rcases List.mem_cons.mp member with same | member
          · obtain rfl := Option.some.inj same
            simp [known] at once
          · exact ih fit member

theorem lookup_replace {before after : List (Option String × Json)} {name : String}
    (first : some name ∉ before.map Prod.fst) (j : Json) (field : String) :
    (before ++ (some name, j) :: after).lookup (some field) =
      if field = name then some j else (before ++ after).lookup (some field) := by
  by_cases same : field = name
  · subst same
    rw [if_pos rfl, List.lookup_append, List.lookup_cons, beq_self_eq_true,
      List.lookup_eq_none_iff.mpr ?_]
    · rfl
    · intro e member
      exact bne_iff_ne.mpr fun same => first (List.mem_map.mpr ⟨e, member, same.symm⟩)
  · rw [if_neg same, lookup_insert fun equal => same (Option.some.inj equal)]

/-- The members of a record are its values: with another member at a field it has another value
    there. -/
theorem record?_replace (strict : Bool) (distinct : fields.Nodup) {i : Nat} {name : String}
    (here : fields[i]? = some name) (before after : List (Option String × Json)) :
    ∃ values? : Option (List (Option Json)), (∀ values ∈ values?, values.length = fields.length) ∧
      ∀ j, record? strict fields (object (before ++ (some name, j) :: after)) =
        values?.map fun values => values.set i (some j) := by
  have known := List.mem_of_getElem? here
  by_cases fit : keysFit strict fields (before.map Prod.fst ++ some name :: after.map Prod.fst)
  · have first := notMem_of_keysFit known fit
    refine ⟨some (fields.map fun field => (before ++ after).lookup (some field)), ?_, fun j => ?_⟩
    · intro values same
      obtain rfl := Option.some.inj same
      exact List.length_map ..
    · simp only [record?, List.map_append, List.map_cons, fit, if_true, Option.map_some]
      refine congrArg some (List.ext_getElem? fun k => ?_)
      rw [List.getElem?_set, List.getElem?_map, List.getElem?_map]
      by_cases same : i = k
      · subst same
        rw [here, Option.map_some, lookup_replace first, if_pos rfl, if_pos rfl, List.length_map,
          if_pos (List.getElem?_eq_some_iff.mp here).1]
      · rw [if_neg same]
        refine Option.map_congr fun field there => ?_
        have other : field ≠ name := by
          rintro rfl
          exact same ((List.getElem?_inj (List.getElem?_eq_some_iff.mp here).1 distinct).mp
            (here.trans there.symm))
        rw [lookup_replace first, if_neg other]
  · refine ⟨none, nofun, fun j => ?_⟩
    simp only [record?, List.map_append, List.map_cons, fit, Option.map_none]
    rfl

/-- The items of a record in array form are its values, too. -/
theorem record?_array (strict : Bool) (fields : List String) (before after : List Json) :
    ∃ values? : Option (List (Option Json)), (∀ values ∈ values?, values.length = fields.length) ∧
      ∀ j, record? strict fields (array (before ++ j :: after)) =
        values?.map fun values => values.set before.length (some j) := by
  by_cases fit : (before ++ null :: after).length ≤ fields.length
  · refine ⟨some ((before ++ null :: after).map some ++
      List.replicate (fields.length - (before ++ null :: after).length) none), ?_, fun j => ?_⟩
    · intro values same
      obtain rfl := Option.some.inj same
      simp only [List.length_append, List.length_map, List.length_replicate]
      simp only [List.length_append] at fit
      omega
    · have fit' : (before ++ j :: after).length ≤ fields.length := by simpa using fit
      simp only [record?, if_pos fit', Option.map_some]
      simp
  · refine ⟨none, nofun, fun j => ?_⟩
    have long : ¬ (before ++ j :: after).length ≤ fields.length := by simpa using fit
    simp only [record?, if_neg long, Option.map_none]

end Replace

/-! ### Lists with another item -/

/-- A list in which one item decodes to nothing decodes to nothing, and one in which an item
    decodes as before decodes as before. -/
theorem list?_replace {α : Type} {decode : Json → Option α} {refused : Bool} {j j' : Json}
    (inside : decode j' = if refused then none else decode j) (before after : List Json) :
    list? decode (array (before ++ j' :: after)) =
      if refused then none else list? decode (array (before ++ j :: after)) := by
  simp only [list?, List.mapM_append, List.mapM_cons, inside]
  cases refused
  · rfl
  · cases before.mapM decode <;> rfl

end Json

namespace Manifest

/-- The records in a manifest. -/
inductive RecordKind where
  | manifest
  | config
  | hook
  | anchor
  | pattern
  | event
  | readBack
  /-- The field of an argument that is captured. -/
  | argField
  /-- The field of a local that is captured. -/
  | slotField
  deriving DecidableEq

/-- The places in a manifest that have records in them. -/
inductive Part where
  | record (kind : RecordKind)
  | listOf (part : Part)
  | capture
  | deny

namespace RecordKind

/-- The fields of a record. -/
def fieldNames : RecordKind → List String
  | manifest => Manifest.fieldNames
  | config => InstallConfig.fieldNames
  | hook => HookSpec.fieldNames
  | anchor => AnchorSpec.fieldNames
  | pattern => InstructionSpec.fieldNames
  | event => EventSpec.fieldNames
  | readBack => ["field", "into"]
  | argField => ["arg", "field"]
  | slotField => ["local", "field"]

/-- Whether a record refuses keys that are no fields. -/
def isStrict : RecordKind → Bool
  | config | argField | slotField => false
  | _ => true

/-- The fields with records in them, by their positions. -/
def part? : RecordKind → Nat → Option Part
  | manifest, 0 => some (.record config)
  | manifest, 1 => some (.listOf (.record hook))
  | hook, 3 => some (.record anchor)
  | hook, 4 => some (.record event)
  | anchor, 0 => some (.listOf (.record pattern))
  | event, 1 => some (.listOf .capture)
  | event, 2 => some (.listOf (.record readBack))
  | event, 3 => some .deny
  | _, _ => none

/-- What a record decodes to. -/
abbrev Value : RecordKind → Type
  | manifest => Manifest
  | config => InstallConfig
  | hook => HookSpec
  | anchor => AnchorSpec
  | pattern => InstructionSpec
  | event => EventSpec
  | readBack => PayloadField × Slot
  | argField | slotField => UInt16 × String

/-- The record in a JSON value. -/
def decode? : (kind : RecordKind) → Json → Option kind.Value
  | manifest => Manifest.ofJson?
  | config => InstallConfig.ofJson?
  | hook => HookSpec.ofJson?
  | anchor => AnchorSpec.ofJson?
  | pattern => InstructionSpec.ofJson?
  | event => EventSpec.ofJson?
  | readBack => EventSpec.readBackOfJson?
  | argField => CaptureSpec.fieldOfJson? "arg"
  | slotField => CaptureSpec.fieldOfJson? "local"

end RecordKind

namespace Part

/-- The variants with records in them. -/
def case? : Part → String → Option Part
  | capture, "arg_field" => some (.record .argField)
  | capture, "local_field" => some (.record .slotField)
  | deny, "anchor" => some (.record .anchor)
  | _, _ => none

/-- What a part decodes to. -/
abbrev Value : Part → Type
  | record kind => kind.Value
  | listOf part => List part.Value
  | capture => CaptureSpec
  | deny => DenySpec

/-- The part in a JSON value. -/
def decode? : (part : Part) → Json → Option part.Value
  | record kind => kind.decode?
  | listOf part => Json.list? part.decode?
  | capture => CaptureSpec.ofJson?
  | deny => DenySpec.ofJson?

end Part

/-- The second JSON value is the first one with one key more in one record of the given kind, the
    values being taken for a part of a manifest. -/
inductive Adds (kind : RecordKind) (key : Option String) (value : Json) : Part → Json → Json → Prop
  | here (before after : List (Option String × Json)) :
      Adds kind key value (.record kind) (.object (before ++ after))
        (.object (before ++ (key, value) :: after))
  | field {outer : RecordKind} {i : Nat} {name : String} {part : Part} {j j' : Json}
      (before after : List (Option String × Json)) (named : outer.fieldNames[i]? = some name)
      (inner : outer.part? i = some part) (adds : Adds kind key value part j j') :
      Adds kind key value (.record outer) (.object (before ++ (some name, j) :: after))
        (.object (before ++ (some name, j') :: after))
  | position {outer : RecordKind} {part : Part} {j j' : Json} (before after : List Json)
      (inner : outer.part? before.length = some part) (adds : Adds kind key value part j j') :
      Adds kind key value (.record outer) (.array (before ++ j :: after))
        (.array (before ++ j' :: after))
  | item {part : Part} {j j' : Json} (before after : List Json)
      (adds : Adds kind key value part j j') :
      Adds kind key value (.listOf part) (.array (before ++ j :: after))
        (.array (before ++ j' :: after))
  | case {outer part : Part} {name : String} {j j' : Json} (inner : outer.case? name = some part)
      (adds : Adds kind key value part j j') :
      Adds kind key value outer (.object [(some name, j)]) (.object [(some name, j')])

namespace RecordKind

theorem nodup_fieldNames (kind : RecordKind) : kind.fieldNames.Nodup := by
  cases kind <;> decide

/-- A record is made from the values of its fields. -/
theorem decode?_eq_bind (kind : RecordKind) : ∃ make : List (Option Json) → Option kind.Value,
    ∀ j, kind.decode? j = (j.record? kind.isStrict kind.fieldNames).bind make := by
  cases kind <;> exact ⟨_, fun _ => rfl⟩

/-- A record takes over what becomes of a part of it. -/
theorem decode?_set {kind : RecordKind} {i : Nat} {part : Part} (inner : kind.part? i = some part)
    {values : List (Option Json)} (size : values.length = kind.fieldNames.length)
    {outer outer' j j' : Json} {refused : Bool}
    (read : outer.record? kind.isStrict kind.fieldNames = some (values.set i (some j)))
    (read' : outer'.record? kind.isStrict kind.fieldNames = some (values.set i (some j')))
    (inside : part.decode? j' = if refused then none else part.decode? j) :
    kind.decode? outer' = if refused then none else kind.decode? outer := by
  -- One case per field with records in it; the other values are the same on both sides.
  unfold part? at inner
  split at inner
  all_goals cases inner
  all_goals simp only [isStrict, fieldNames] at read read' size
  all_goals simp only [Part.decode?, decode?] at inside ⊢
  case h_1 | h_2 =>
    match values, size with
    | [a, b], _ =>
        simp only [List.set] at read read'
        simp only [Manifest.ofJson?, read, read', Option.bind_eq_bind, Option.bind_some,
          Json.orElse?, Json.required?, inside]
        cases refused <;> simp
  case h_3 | h_4 =>
    match values, size with
    | [a, b, c, d, e], _ =>
        simp only [List.set] at read read'
        simp only [HookSpec.ofJson?, read, read', Option.bind_eq_bind, Option.bind_some,
          Json.required?, inside]
        cases refused <;> simp
  case h_5 =>
    match values, size with
    | [a, b, c], _ =>
        simp only [List.set] at read read'
        simp only [AnchorSpec.ofJson?, read, read', Option.bind_eq_bind, Option.bind_some,
          Json.required?, inside]
        cases refused <;> simp
  case h_6 | h_7 | h_8 =>
    match values, size with
    | [a, b, c, d], _ =>
        simp only [List.set] at read read'
        simp only [EventSpec.ofJson?, read, read', Option.bind_eq_bind, Option.bind_some,
          Json.orElse?, Json.required?, inside]
        cases refused <;> simp

/-- A record in any form takes over what becomes of a part of it. -/
theorem decode?_replace {kind : RecordKind} {i : Nat} {part : Part}
    (inner : kind.part? i = some part) {form : Json → Json}
    {values? : Option (List (Option Json))}
    (size : ∀ values ∈ values?, values.length = kind.fieldNames.length)
    (read : ∀ j, (form j).record? kind.isStrict kind.fieldNames =
      values?.map fun values => values.set i (some j)) {j j' : Json} {refused : Bool}
    (inside : part.decode? j' = if refused then none else part.decode? j) :
    kind.decode? (form j') = if refused then none else kind.decode? (form j) := by
  cases values? with
  | some values => exact decode?_set inner (size values rfl) (read j) (read j') inside
  | none =>
      obtain ⟨make, made⟩ := kind.decode?_eq_bind
      simp [made, read]

end RecordKind

namespace Part

/-- A variant takes over what becomes of a part of it. -/
theorem decode?_case {outer part : Part} {name : String} (inner : outer.case? name = some part)
    {j j' : Json} {refused : Bool}
    (inside : part.decode? j' = if refused then none else part.decode? j) :
    outer.decode? (.object [(some name, j')]) =
      if refused then none else outer.decode? (.object [(some name, j)]) := by
  unfold case? at inner
  split at inner
  all_goals cases inner
  all_goals simp only [decode?, RecordKind.decode?] at inside ⊢
  case h_1 | h_2 =>
    simp only [CaptureSpec.ofJson?, Json.variant?, inside]
    cases refused <;> rfl
  case h_3 =>
    simp only [DenySpec.ofJson?, Json.variant?, inside]
    cases refused <;> rfl

end Part

/-- A record that refuses keys that are no fields spoils what it stands in when it gets one; in any
    other record such a key makes no difference, if it is a text. -/
theorem Adds.decode? {kind : RecordKind} {key : Option String} {value : Json} {part : Part}
    {j j' : Json} (adds : Adds kind key value part j j')
    (unknown : ∀ name ∈ key, name ∉ kind.fieldNames) :
    part.decode? j' = if kind.isStrict || key.isNone then none else part.decode? j := by
  induction adds with
  | here before after =>
      obtain ⟨make, made⟩ := kind.decode?_eq_bind
      simp only [Part.decode?, made, Json.record?_insert kind.isStrict unknown]
      cases kind.isStrict || key.isNone <;> rfl
  | field before after named inner _ ih =>
      obtain ⟨values?, size, read⟩ :=
        Json.record?_replace _ (RecordKind.nodup_fieldNames _) named before after
      exact RecordKind.decode?_replace inner size read ih
  | position before after inner _ ih =>
      obtain ⟨values?, size, read⟩ := Json.record?_array _ _ before after
      exact RecordKind.decode?_replace inner size read ih
  | item before after _ ih => exact Json.list?_replace ih before after
  | case inner _ ih => exact Part.decode?_case inner ih

/-- A text of a manifest in which one record has another key that is no field of it is refused, or
    it is read as before if the record is the configuration or a captured field. -/
theorem parse?_of_adds {kind : RecordKind} {key : Option String} {value : Json}
    {text text' : String} {j j' : Json} (read : Json.parse? text = some j)
    (read' : Json.parse? text' = some j') (adds : Adds kind key value (.record .manifest) j j')
    (unknown : ∀ name ∈ key, name ∉ kind.fieldNames) :
    parse? text' = if kind.isStrict || key.isNone then none else parse? text := by
  rw [parse?, parse?, read, read']
  exact adds.decode? unknown

/-- A manifest without hooks. -/
def bareText : String := "\x7b\"config\":\x7b\x7d,\"hooks\":[]\x7d"

/-- The same manifest with a key that is no field of it. -/
def strayKeyText : String := "\x7b\"config\":\x7b\x7d,\"hooks\":[],\"hook\":[]\x7d"

/-- The same manifest with a key that is no field of its configuration. -/
def straySettingText : String :=
  "\x7b\"config\":\x7b\"require_fingerprint\":true\x7d,\"hooks\":[]\x7d"

/-- The value that the manifest without hooks denotes. -/
def bareJson : Json :=
  .obj [("config", .obj []), ("hooks", .array [])]

theorem parse?_bareText : Json.parse? bareText = some bareJson := by
  cbv

/-- A key that is no field of a manifest spoils it. -/
theorem parse?_strayKeyText : parse? strayKeyText = none := by
  have read' : Json.parse? strayKeyText =
      some (.obj [("config", .obj []), ("hooks", .array []), ("hook", .array [])]) := by
    cbv
  have adds : Adds .manifest (some "hook") (.array []) (.record .manifest) bareJson
      (.obj [("config", .obj []), ("hooks", .array []), ("hook", .array [])]) :=
    .here [(some "config", .obj []), (some "hooks", .array [])] []
  exact parse?_of_adds parse?_bareText read' adds (by rintro _ ⟨⟩; decide)

/-- A key that is no field of the configuration makes no difference, though it is a setting
    misspelled. -/
theorem parse?_straySettingText : "require_fingerprint" ∉ RecordKind.config.fieldNames ∧
    (∃ j, Json.parse? straySettingText = some j ∧
      Adds .config (some "require_fingerprint") (.bool true) (.record .manifest) bareJson j) ∧
    parse? bareText = some ⟨.default, []⟩ ∧ parse? straySettingText = some ⟨.default, []⟩ := by
  have read : Json.parse? straySettingText = some (.obj
      [("config", .obj [("require_fingerprint", .bool true)]), ("hooks", .array [])]) := by
    cbv
  have adds : Adds .config (some "require_fingerprint") (.bool true) (.record .config) (.obj [])
      (.obj [("require_fingerprint", .bool true)]) := .here [] []
  exact ⟨by decide, ⟨_, read, .field (i := 0) [] [(some "hooks", .array [])] rfl rfl adds⟩,
    by decide +kernel, by decide +kernel⟩

end Manifest

end HookSplice
