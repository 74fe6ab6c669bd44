import HookSplice.Manifest.Format
import HookSplice.Proofs.Common
import HookSplice.Proofs.FingerprintText
import HookSplice.Proofs.JsonText

/-!
# Texts of manifests

Every manifest is what its text reads as.  The JSON value of each part of a manifest decodes to that
part, and it is a value that a text denotes exactly.
-/

namespace HookSplice

namespace Json

variable {α β : Type}

/-- What is written for a value decodes to that value.  It is never null, and a text denotes it
    exactly. -/
structure Faithful (encode : α → Json) (decode : Json → Option α) : Prop where
  decodes : ∀ a, decode (encode a) = some a
  ne_null : ∀ a, encode a ≠ null
  exact : ∀ a, Exact (encode a)

/-! ### Leaves -/

theorem faithful_text : Faithful str text? :=
  ⟨fun _ => rfl, nofun, .text⟩

theorem faithful_bool : Faithful bool bool? :=
  ⟨fun _ => rfl, nofun, .bool⟩

theorem faithful_int64 : Faithful (fun n : Int64 => integer n.toInt) int64? := by
  refine ⟨fun n => ?_, nofun, fun n => ?_⟩
  · have range : Int64.minValue.toInt ≤ n.toInt ∧ n.toInt ≤ Int64.maxValue.toInt :=
      ⟨Int64.minValue_le_toInt n, Int64.toInt_le n⟩
    simp only [int64?, between?, if_pos range, Option.map_some, Int64.ofInt_toInt]
  · have greatest : Int64.maxValue.toInt < UInt64.size := by decide
    exact .integer (Int64.minValue_le_toInt n) (Int.lt_of_le_of_lt (Int64.toInt_le n) greatest)

theorem exact_nat {n : Nat} (small : n < UInt64.size) : Exact (nat n) := by
  refine .integer ?_ (Int.ofNat_lt.mpr small)
  have : Int64.minValue.toInt ≤ 0 := by decide
  omega

theorem between?_nat {n size : Nat} (small : n < size) :
    (nat n).between? 0 (size - 1) = some (n : Int) :=
  if_pos ⟨by omega, by omega⟩

theorem faithful_uint64 : Faithful (fun n : UInt64 => nat n.toNat) uint64? := by
  refine ⟨fun n => ?_, nofun, fun n => exact_nat n.toNat_lt⟩
  rw [uint64?, between?_nat n.toNat_lt]
  simp

theorem faithful_uint32 : Faithful (fun n : UInt32 => nat n.toNat) uint32? := by
  refine ⟨fun n => ?_, nofun, fun n => exact_nat (Nat.lt_trans n.toNat_lt (by decide))⟩
  rw [uint32?, between?_nat n.toNat_lt]
  simp

theorem faithful_uint16 : Faithful (fun n : UInt16 => nat n.toNat) uint16? := by
  refine ⟨fun n => ?_, nofun, fun n => exact_nat (Nat.lt_trans n.toNat_lt (by decide))⟩
  rw [uint16?, between?_nat n.toNat_lt]
  simp

/-- Texts that a decoder tells apart. -/
theorem faithful_name {name : α → String} {decode : Json → Option α}
    (decodes : ∀ a, decode (str (name a)) = some a) : Faithful (fun a => str (name a)) decode :=
  ⟨decodes, nofun, fun a => .text (name a)⟩

/-! ### Lists and records -/

theorem Faithful.list {encode : α → Json} {decode : Json → Option α}
    (faithful : Faithful encode decode) :
    Faithful (fun as => array (as.map encode)) (list? decode) := by
  refine ⟨fun as => ?_, nofun, fun as => .array fun item member => ?_⟩
  · show (as.map encode).mapM decode = some as
    induction as with
    | nil => rfl
    | cons a rest ih => simp [faithful.decodes, ih]
  · obtain ⟨a, -, rfl⟩ := List.mem_map.mp member
    exact faithful.exact a

theorem obj_ne_null (members : List (String × Json)) : obj members ≠ null :=
  nofun

theorem exact_obj {members : List (String × Json)} (inside : ∀ e ∈ members, Exact e.2) :
    Exact (obj members) := by
  refine .object (fun e member => ?_) fun e member => ?_
  all_goals obtain ⟨e', member', rfl⟩ := List.mem_map.mp member
  · rfl
  · exact inside e' member'

/-- The members of a record that has some of its fields. -/
def present : List String → List (Option Json) → List (String × Json)
  | field :: fields, some v :: values => (field, v) :: present fields values
  | _ :: fields, none :: values => present fields values
  | _, _ => []

theorem mem_present {fields : List String} {values : List (Option Json)} {e : String × Json}
    (member : e ∈ present fields values) : e.1 ∈ fields ∧ some e.2 ∈ values := by
  induction fields generalizing values with
  | nil => cases values <;> cases member
  | cons field fields ih =>
      match values with
      | [] => cases member
      | none :: values =>
          obtain ⟨named, given⟩ := ih member
          exact ⟨.tail _ named, .tail _ given⟩
      | some v :: values =>
          rcases List.mem_cons.mp member with rfl | member
          · exact ⟨.head _, .head _⟩
          · obtain ⟨named, given⟩ := ih member
            exact ⟨.tail _ named, .tail _ given⟩

theorem keysFit_present (strict : Bool) {all fields : List String} (known : fields ⊆ all)
    (distinct : fields.Nodup) (values : List (Option Json)) :
    keysFit strict all ((present fields values).map fun e => some e.1) = true := by
  induction fields generalizing values with
  | nil => cases values <;> rfl
  | cons field fields ih =>
      obtain ⟨absent, distinct⟩ := List.nodup_cons.mp distinct
      obtain ⟨first, known⟩ := List.cons_subset.mp known
      match values with
      | [] => rfl
      | none :: values => exact ih known distinct values
      | some v :: values =>
          have once : some field ∉ (present fields values).map fun e => some e.1 := by
            intro member
            obtain ⟨e, inside, same⟩ := List.mem_map.mp member
            exact absent (Option.some.inj same ▸ (mem_present inside).1)
          have here : all.contains field = true := List.contains_iff_mem.mpr first
          have once' :
              ((present fields values).map fun e => some e.1).contains (some field) = false :=
            Bool.eq_false_iff.mpr fun more => once (List.contains_iff_mem.mp more)
          simp only [present, List.map_cons, keysFit, here, if_true, once', Bool.not_false,
            Bool.true_and]
          exact ih known distinct values

theorem lookup_present {fields : List String} (distinct : fields.Nodup)
    {values : List (Option Json)} (length : values.length = fields.length) :
    fields.map (fun field => (present fields values).lookup field) = values := by
  induction fields generalizing values with
  | nil => rw [List.length_eq_zero_iff.mp length, List.map_nil]
  | cons field fields ih =>
      obtain ⟨absent, distinct⟩ := List.nodup_cons.mp distinct
      match values, length with
      | none :: values, length =>
          have missing : (present fields values).lookup field = none := by
            rw [List.lookup_eq_none_iff]
            intro e inside
            refine bne_iff_ne.mpr ?_
            rintro rfl
            exact absent (mem_present inside).1
          rw [List.map_cons, present, missing, ih distinct (Nat.succ.inj length)]
      | some v :: values, length =>
          have others :
              fields.map (fun other => ((field, v) :: present fields values).lookup other) =
                fields.map fun other => (present fields values).lookup other := by
            refine List.map_congr_left fun other member => ?_
            have differs : other ≠ field := by
              rintro rfl
              exact absent member
            rw [lookup_cons_eq, if_neg differs]
          rw [List.map_cons, present, others, ih distinct (Nat.succ.inj length), lookup_cons_eq,
            if_pos rfl]

theorem lookup_obj (members : List (String × Json)) (field : String) :
    (members.map fun (key, value) => (some key, value)).lookup (some field) =
      members.lookup field := by
  induction members with
  | nil => rfl
  | cons e rest ih =>
      obtain ⟨key, value⟩ := e
      simp only [List.map_cons, List.lookup_cons, Option.some_beq_some, ih]

/-- A record has the fields that were written. -/
theorem record?_present (strict : Bool) {fields : List String} (distinct : fields.Nodup)
    (values : List (Option Json)) (length : values.length = fields.length) :
    (obj (present fields values)).record? strict fields = some values := by
  have fit := keysFit_present strict (List.Subset.refl fields) distinct values
  have keys : ((present fields values).map fun (key, value) => (some key, value)).map Prod.fst =
      (present fields values).map fun e => some e.1 := by
    rw [List.map_map]
    rfl
  unfold obj record?
  simp only [keys, fit, if_true, lookup_obj, lookup_present distinct length]

theorem exact_present {fields : List String} {values : List (Option Json)}
    (inside : ∀ v, some v ∈ values → Exact v) : Exact (obj (present fields values)) :=
  exact_obj fun e member => inside e.2 (mem_present member).2

theorem orElse?_some {otherwise : α} {encode : α → Json} {decode : Json → Option α}
    (faithful : Faithful encode decode) (a : α) :
    orElse? otherwise decode (some (encode a)) = some a :=
  faithful.decodes a

theorem required?_some {encode : α → Json} {decode : Json → Option α}
    (faithful : Faithful encode decode) (a : α) :
    required? decode (some (encode a)) = some a :=
  faithful.decodes a

/-- A part that may be missing is a member of the record if it is there. -/
theorem member_append_present (field : String) (fields : List String) (encode : α → Json)
    (a : Option α) (values : List (Option Json)) :
    InstructionSpec.member field encode a ++ present fields values =
      present (field :: fields) (a.map encode :: values) := by
  cases a <;> rfl

theorem part?_map {encode : α → Json} {decode : Json → Option α}
    (faithful : Faithful encode decode) (a : Option α) :
    InstructionSpec.part? decode (a.map encode) = some a := by
  cases a with
  | none => rfl
  | some a =>
      have given : optional? decode (encode a) = (decode (encode a)).map some := by
        have something := faithful.ne_null a
        cases same : encode a with
        | null => exact absurd same something
        | _ => rfl
      exact given.trans (congrArg _ (faithful.decodes a))

end Json

open Event (PayloadKind PayloadField)
open Json (Faithful present)

/-! ### Names -/

theorem Opcode.faithful : Faithful (fun op : Opcode => .str op.mnemonic) Opcode.ofJson? :=
  Json.faithful_name fun op => by cases op <;> rfl

theorem Event.PayloadKind.faithful :
    Faithful (fun k : PayloadKind => .str k.display) PayloadKind.ofJson? :=
  Json.faithful_name fun k => by cases k <;> rfl

theorem Event.PayloadField.faithful :
    Faithful (fun f : PayloadField => .str f.jsonName) PayloadField.ofJson? :=
  Json.faithful_name fun f => by cases f <;> rfl

theorem Fingerprint.faithful :
    Faithful (fun f : Fingerprint => .str f.display) HookSpec.fingerprintOfJson? :=
  Json.faithful_name fun f => by
    simp only [HookSpec.fingerprintOfJson?, Json.str, Json.text?, Option.bind_some,
      Fingerprint.parse_display]
    rfl

/-! ### Variants -/

/-- A variant that carries a value decodes as the value does. -/
theorem Json.exact_variant {v : Json} (exact : Exact v) (name : String) :
    Exact (.obj [(name, v)]) :=
  exact_obj fun e member => by
    obtain rfl := List.mem_singleton.mp member
    exact exact

theorem Occurrence.faithful : Faithful Occurrence.toJson Occurrence.ofJson? := by
  refine ⟨fun o => ?_, fun o => ?_, fun o => ?_⟩
  · cases o with
    | only | first | last => rfl
    | nth n => exact congrArg (Option.map Occurrence.nth) (Json.faithful_uint64.decodes n)
  · cases o <;> exact nofun
  · cases o with
    | only | first | last => exact .text _
    | nth n => exact Json.exact_variant (Json.faithful_uint64.exact n) "nth"

theorem ReturnValue.faithful : Faithful ReturnValue.toJson ReturnValue.ofJson? := by
  refine ⟨fun v => ?_, fun v => ?_, fun v => ?_⟩
  · cases v with
    | void | null | text s => rfl
    | int n => exact congrArg (Option.map ReturnValue.int) (Json.faithful_int64.decodes n)
    | arg i => exact congrArg (Option.map ReturnValue.arg) (Json.faithful_uint16.decodes i)
  · cases v <;> exact nofun
  · cases v with
    | void | null => exact .text _
    | int n => exact Json.exact_variant (Json.faithful_int64.exact n) "int"
    | text s => exact Json.exact_variant (.text s) "str"
    | arg i => exact Json.exact_variant (Json.faithful_uint16.exact i) "arg"

theorem Slot.faithful : Faithful Slot.toJson Slot.ofJson? := by
  refine ⟨fun s => ?_, fun s => ?_, fun s => ?_⟩
  · cases s with
    | arg i => exact congrArg (Option.map Slot.arg) (Json.faithful_uint16.decodes i)
    | slot i => exact congrArg (Option.map Slot.slot) (Json.faithful_uint16.decodes i)
  · cases s <;> exact nofun
  · cases s with
    | arg i => exact Json.exact_variant (Json.faithful_uint16.exact i) "arg"
    | slot i => exact Json.exact_variant (Json.faithful_uint16.exact i) "local"

theorem CaptureSpec.fieldOfJson?_fieldJson {key : String} (differs : key ≠ "field") (i : UInt16)
    (field : String) : fieldOfJson? key (fieldJson key i field) = some (i, field) := by
  have distinct : [key, "field"].Nodup := by simp [differs]
  have whole : (fieldJson key i field).record? false [key, "field"] =
      some [some (.nat i.toNat), some (.str field)] :=
    Json.record?_present false distinct [some (.nat i.toNat), some (.str field)] rfl
  have index : Json.uint16? (.nat i.toNat) = some i := Json.faithful_uint16.decodes i
  simp only [fieldOfJson?, whole, Option.bind_eq_bind, Option.bind_some, Json.required?, index]
  rfl

theorem CaptureSpec.exact_fieldJson (key : String) (i : UInt16) (field : String) :
    Json.Exact (fieldJson key i field) :=
  Json.exact_obj fun e member => by
    rcases List.mem_cons.mp member with rfl | member
    · exact Json.faithful_uint16.exact i
    · obtain rfl := List.mem_singleton.mp member
      exact .text field

theorem CaptureSpec.faithful : Faithful CaptureSpec.toJson CaptureSpec.ofJson? := by
  refine ⟨fun c => ?_, fun c => ?_, fun c => ?_⟩
  · cases c with
    | null | text s | staticField field => rfl
    | arg i => exact congrArg (Option.map CaptureSpec.arg) (Json.faithful_uint16.decodes i)
    | slot i => exact congrArg (Option.map CaptureSpec.slot) (Json.faithful_uint16.decodes i)
    | int n => exact congrArg (Option.map CaptureSpec.int) (Json.faithful_int64.decodes n)
    | argField i field =>
        have differs : "arg" ≠ "field" := by decide
        exact congrArg (Option.map fun e => CaptureSpec.argField e.1 e.2)
          (fieldOfJson?_fieldJson differs i field)
    | slotField i field =>
        have differs : "local" ≠ "field" := by decide
        exact congrArg (Option.map fun e => CaptureSpec.slotField e.1 e.2)
          (fieldOfJson?_fieldJson differs i field)
  · intro absent
    cases c <;> cases absent
  · cases c with
    | null => exact .text _
    | arg i => exact Json.exact_variant (Json.faithful_uint16.exact i) "arg"
    | slot i => exact Json.exact_variant (Json.faithful_uint16.exact i) "local"
    | int n => exact Json.exact_variant (Json.faithful_int64.exact n) "int"
    | text s => exact Json.exact_variant (.text s) "str"
    | argField i field => exact Json.exact_variant (exact_fieldJson "arg" i field) "arg_field"
    | slotField i field => exact Json.exact_variant (exact_fieldJson "local" i field) "local_field"
    | staticField field => exact Json.exact_variant (.text field) "static_field"

/-! ### Records -/

/-- The values of the fields of a pattern. -/
def InstructionSpec.values (s : InstructionSpec) : List (Option Json) :=
  [s.opcode.map fun op => .str op.mnemonic, s.int.map fun n => .integer n.toInt, s.text.map .str,
    s.arg.map fun i => .nat i.toNat, s.slot.map fun i => .nat i.toNat, s.field.map .str,
    s.method.map .str, s.type.map .str]

theorem InstructionSpec.toJson_eq (s : InstructionSpec) :
    s.toJson = .obj (present fieldNames s.values) := by
  have none_left : InstructionSpec.member "type" .str s.type =
      InstructionSpec.member "type" .str s.type ++ present [] [] := (List.append_nil _).symm
  simp only [toJson, List.append_assoc]
  rw [none_left]
  simp only [Json.member_append_present]
  rfl

theorem Json.exact_of_map {α : Type} {encode : α → Json} {decode : Json → Option α}
    (faithful : Faithful encode decode) {a : Option α} {v : Json}
    (given : some v = a.map encode) : Exact v := by
  obtain ⟨b, -, rfl⟩ := Option.map_eq_some_iff.mp given.symm
  exact faithful.exact b

theorem InstructionSpec.faithful : Faithful InstructionSpec.toJson InstructionSpec.ofJson? := by
  refine ⟨fun s => ?_, fun s => Json.obj_ne_null _, fun s => ?_⟩
  · have whole : s.toJson.record? true fieldNames = some s.values := by
      rw [toJson_eq]
      exact Json.record?_present true (by decide) s.values rfl
    simp only [ofJson?, whole, values, Option.bind_eq_bind, Option.bind_some,
      Json.part?_map Opcode.faithful, Json.part?_map Json.faithful_int64,
      Json.part?_map Json.faithful_text, Json.part?_map Json.faithful_uint16]
    rfl
  · rw [toJson_eq]
    refine Json.exact_present fun v given => ?_
    simp only [values, List.mem_cons, List.not_mem_nil, or_false] at given
    rcases given with given | given | given | given | given | given | given | given
    · exact Json.exact_of_map Opcode.faithful given
    · exact Json.exact_of_map Json.faithful_int64 given
    · exact Json.exact_of_map Json.faithful_text given
    · exact Json.exact_of_map Json.faithful_uint16 given
    · exact Json.exact_of_map Json.faithful_uint16 given
    · exact Json.exact_of_map Json.faithful_text given
    · exact Json.exact_of_map Json.faithful_text given
    · exact Json.exact_of_map Json.faithful_text given

/-- The values of the fields of an anchor. -/
def AnchorSpec.values (a : AnchorSpec) : List (Option Json) :=
  [some (.array (a.patterns.map InstructionSpec.toJson)), some a.occurrence.toJson,
    some (.integer a.offset.toInt)]

theorem AnchorSpec.faithful : Faithful AnchorSpec.toJson AnchorSpec.ofJson? := by
  have patterns := InstructionSpec.faithful.list
  refine ⟨fun a => ?_, fun a => Json.obj_ne_null _, fun a => ?_⟩
  · have whole : a.toJson.record? true fieldNames = some a.values :=
      Json.record?_present true (by decide) a.values rfl
    simp only [ofJson?, whole, values, Option.bind_eq_bind, Option.bind_some,
      Json.required?_some patterns, Json.orElse?_some Occurrence.faithful,
      Json.orElse?_some Json.faithful_int64]
    rfl
  · refine Json.exact_obj fun e member => ?_
    simp only [List.mem_cons, List.not_mem_nil, or_false] at member
    rcases member with rfl | rfl | rfl
    · exact patterns.exact a.patterns
    · exact Occurrence.faithful.exact a.occurrence
    · exact Json.faithful_int64.exact a.offset

theorem DenySpec.faithful : Faithful DenySpec.toJson DenySpec.ofJson? := by
  refine ⟨fun d => ?_, fun d => ?_, fun d => ?_⟩
  · cases d with
    | returning v => exact congrArg (Option.map DenySpec.returning) (ReturnValue.faithful.decodes v)
    | anchor a => exact congrArg (Option.map DenySpec.anchor) (AnchorSpec.faithful.decodes a)
  · cases d <;> exact Json.obj_ne_null _
  · cases d with
    | returning v => exact Json.exact_variant (ReturnValue.faithful.exact v) "return"
    | anchor a => exact Json.exact_variant (AnchorSpec.faithful.exact a) "anchor"

namespace EventSpec

theorem faithful_readBack : Faithful readBackJson readBackOfJson? := by
  refine ⟨fun (field, slot) => ?_, fun _ => Json.obj_ne_null _, fun (field, slot) => ?_⟩
  · have whole : (readBackJson (field, slot)).record? true ["field", "into"] =
        some [some (.str field.jsonName), some slot.toJson] :=
      Json.record?_present true (by decide) [some (.str field.jsonName), some slot.toJson] rfl
    simp only [readBackOfJson?, whole, Option.bind_eq_bind, Option.bind_some,
      Json.required?_some PayloadField.faithful, Json.required?_some Slot.faithful]
    rfl
  · refine Json.exact_obj fun e member => ?_
    simp only [List.mem_cons, List.not_mem_nil, or_false] at member
    rcases member with rfl | rfl
    · exact PayloadField.faithful.exact field
    · exact Slot.faithful.exact slot

/-- The fields that are read back, unless there are none. -/
def readBackValue (readBack : List (PayloadField × Slot)) : Option Json :=
  if readBack.isEmpty then none else some (.array (readBack.map readBackJson))

theorem orElse?_readBackValue (readBack : List (PayloadField × Slot)) :
    Json.orElse? [] (Json.list? readBackOfJson?) (readBackValue readBack) = some readBack := by
  cases readBack with
  | nil => rfl
  | cons first rest => exact faithful_readBack.list.decodes (first :: rest)

/-- The values of the fields of an event. -/
def values (e : EventSpec) : List (Option Json) :=
  [some (.str e.kind.display), some (.array (e.captures.map CaptureSpec.toJson)),
    readBackValue e.readBack, some e.deny.toJson]

theorem toJson_eq (e : EventSpec) : e.toJson = .obj (present fieldNames e.values) := by
  unfold toJson values readBackValue
  cases e.readBack <;> rfl

theorem faithful : Faithful EventSpec.toJson EventSpec.ofJson? := by
  have captures := CaptureSpec.faithful.list
  refine ⟨fun e => ?_, fun e => Json.obj_ne_null _, fun e => ?_⟩
  · have whole : e.toJson.record? true fieldNames = some e.values := by
      rw [toJson_eq]
      exact Json.record?_present true (by decide) e.values rfl
    simp only [ofJson?, whole, values, Option.bind_eq_bind, Option.bind_some,
      Json.required?_some PayloadKind.faithful, Json.required?_some captures,
      orElse?_readBackValue, Json.orElse?_some DenySpec.faithful]
    rfl
  · rw [toJson_eq]
    refine Json.exact_present fun v given => ?_
    simp only [values, List.mem_cons, List.not_mem_nil, or_false, Option.some.injEq] at given
    rcases given with rfl | rfl | given | rfl
    · exact PayloadKind.faithful.exact e.kind
    · exact captures.exact e.captures
    · unfold readBackValue at given
      split at given
      · cases given
      · cases given
        exact faithful_readBack.list.exact e.readBack
    · exact DenySpec.faithful.exact e.deny

end EventSpec

namespace HookSpec

/-- The values of the fields of a hook. -/
def values (h : HookSpec) : List (Option Json) :=
  [some (.str h.name), some (.str h.target), h.fingerprint.map fun f => .str f.display,
    some h.anchor.toJson, some h.event.toJson]

theorem toJson_eq (h : HookSpec) : h.toJson = .obj (present fieldNames h.values) := by
  unfold toJson values
  cases h.fingerprint <;> rfl

theorem faithful : Faithful HookSpec.toJson HookSpec.ofJson? := by
  refine ⟨fun h => ?_, fun h => Json.obj_ne_null _, fun h => ?_⟩
  · have whole : h.toJson.record? true fieldNames = some h.values := by
      rw [toJson_eq]
      exact Json.record?_present true (by decide) h.values rfl
    simp only [ofJson?, whole, values, Option.bind_eq_bind, Option.bind_some,
      Json.required?_some Json.faithful_text, Json.part?_map Fingerprint.faithful,
      Json.required?_some AnchorSpec.faithful, Json.required?_some EventSpec.faithful]
    rfl
  · rw [toJson_eq]
    refine Json.exact_present fun v given => ?_
    simp only [values, List.mem_cons, List.not_mem_nil, or_false, Option.some.injEq] at given
    rcases given with rfl | rfl | given | rfl | rfl
    · exact .text h.name
    · exact .text h.target
    · exact Json.exact_of_map Fingerprint.faithful given
    · exact AnchorSpec.faithful.exact h.anchor
    · exact EventSpec.faithful.exact h.event

end HookSpec

/-- The values of the fields of a configuration. -/
def InstallConfig.values (c : InstallConfig) : List (Option Json) :=
  [some (.bool c.verifyBodies), some (.bool c.requireFingerprints), some (.nat c.maxStack.toNat)]

theorem InstallConfig.faithful : Faithful InstallConfig.toJson InstallConfig.ofJson? := by
  refine ⟨fun c => ?_, fun c => Json.obj_ne_null _, fun c => ?_⟩
  · have whole : c.toJson.record? false fieldNames = some c.values :=
      Json.record?_present false (by decide) c.values rfl
    simp only [ofJson?, whole, values, Option.bind_eq_bind, Option.bind_some,
      Json.orElse?_some Json.faithful_bool, Json.orElse?_some Json.faithful_uint32]
    rfl
  · refine Json.exact_obj fun e member => ?_
    simp only [List.mem_cons, List.not_mem_nil, or_false] at member
    rcases member with rfl | rfl | rfl
    · exact .bool _
    · exact .bool _
    · exact Json.faithful_uint32.exact c.maxStack

namespace Manifest

/-- The values of the fields of a manifest. -/
def values (m : Manifest) : List (Option Json) :=
  [some m.config.toJson, some (.array (m.hooks.map HookSpec.toJson))]

theorem faithful : Faithful Manifest.toJson Manifest.ofJson? := by
  have hooks := HookSpec.faithful.list
  refine ⟨fun m => ?_, fun m => Json.obj_ne_null _, fun m => ?_⟩
  · have whole : m.toJson.record? true fieldNames = some m.values :=
      Json.record?_present true (by decide) m.values rfl
    simp only [ofJson?, whole, values, Option.bind_eq_bind, Option.bind_some,
      Json.orElse?_some InstallConfig.faithful, Json.required?_some hooks]
    rfl
  · refine Json.exact_obj fun e member => ?_
    simp only [List.mem_cons, List.not_mem_nil, or_false] at member
    rcases member with rfl | rfl
    · exact InstallConfig.faithful.exact m.config
    · exact hooks.exact m.hooks

/-- Every manifest is what its text reads as. -/
theorem parse?_print (m : Manifest) : parse? m.print = some m := by
  rw [parse?, print, Json.parse?_pretty (faithful.exact m), Option.bind_some, faithful.decodes]

end Manifest

end HookSplice
