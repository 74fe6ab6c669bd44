import HookSplice.Proofs.Declarations
import HookSplice.Proofs.Hosts
import Mathlib.Data.List.Nodup

/-!
# Sound symbol tables

A table is sound when its handles name symbols of the table itself, and no two symbols have one
name: types by their names, fields by owner and name, methods by their keys, which spell their
identities.  Declarations with handles of the table keep it sound.
-/

namespace HookSplice

/-- The types that a signature mentions. -/
def MethodDef.types (m : MethodDef) : List TypeId :=
  m.owner :: (m.params ++ m.ret.toList)

namespace SymbolTable

variable {s s' : SymbolTable}

/-- Whether a handle names a field of this table. -/
def hasField (s : SymbolTable) (f : FieldId) : Bool :=
  f.index < s.fields.length

/-- Whether a handle names a method of this table. -/
def hasMethod (s : SymbolTable) (m : MethodId) : Bool :=
  m.index < s.methods.length

/-- The definition of a field, or a stand-in for a handle of another table. -/
def fieldRow (s : SymbolTable) (f : FieldId) : FieldDef :=
  (s.field? f).getD ⟨⟨0⟩, "", ⟨0⟩, false⟩

/-- The entry of a method, or a stand-in for a handle of another table. -/
def methodRow (s : SymbolTable) (m : MethodId) : MethodEntry :=
  (s.methods[m.index]?).getD ⟨⟨⟨0⟩, "", [], none, false⟩, ""⟩

/-- Handles name symbols of the table, and every symbol has a name of its own. -/
structure Sound (s : SymbolTable) : Prop where
  names : s.typeNames.Nodup
  fields : ∀ d ∈ s.fields, s.hasType d.owner ∧ s.hasType d.type
  paths : (s.fields.map fun d => (d.owner, d.name)).Nodup
  signatures : ∀ e ∈ s.methods, ∀ t ∈ e.signature.types, s.hasType t
  spelled : ∀ e ∈ s.methods, e.key = s.identity "," e.signature
  keys : (s.methods.map MethodEntry.key).Nodup

/-! ### Handles and rows -/

theorem hasType_iff {t : TypeId} : s.hasType t ↔ t.index < s.typeNames.length := by
  simp [hasType]

theorem getElem?_typeName {t : TypeId} (known : s.hasType t) :
    s.typeNames[t.index]? = some (s.typeName t) := by
  have here := List.getElem?_eq_getElem (hasType_iff.mp known)
  rw [typeName_eq here, here]

theorem typeName_mem {t : TypeId} (known : s.hasType t) : s.typeName t ∈ s.typeNames :=
  List.mem_of_getElem? (getElem?_typeName known)

theorem getElem?_fieldRow {f : FieldId} (known : s.hasField f) :
    s.fields[f.index]? = some (s.fieldRow f) := by
  have here := List.getElem?_eq_getElem (of_decide_eq_true known)
  rw [fieldRow, field?, here]
  rfl

theorem field?_eq {f : FieldId} (known : s.hasField f) : s.field? f = some (s.fieldRow f) :=
  getElem?_fieldRow known

theorem fieldRow_mem {f : FieldId} (known : s.hasField f) : s.fieldRow f ∈ s.fields :=
  List.mem_of_getElem? (getElem?_fieldRow known)

theorem getElem?_methodRow {m : MethodId} (known : s.hasMethod m) :
    s.methods[m.index]? = some (s.methodRow m) := by
  have here := List.getElem?_eq_getElem (of_decide_eq_true known)
  rw [methodRow, here]
  rfl

theorem method?_eq {m : MethodId} (known : s.hasMethod m) :
    s.method? m = some (s.methodRow m).signature := by
  rw [method?, getElem?_methodRow known]
  rfl

theorem methodRow_mem {m : MethodId} (known : s.hasMethod m) : s.methodRow m ∈ s.methods :=
  List.mem_of_getElem? (getElem?_methodRow known)

theorem mem_typeIds {t : TypeId} : t ∈ s.typeIds ↔ s.hasType t := by
  unfold typeIds
  rw [List.mem_map, hasType_iff]
  exact ⟨fun ⟨i, member, same⟩ => same ▸ List.mem_range.mp member,
    fun below => ⟨t.index, List.mem_range.mpr below, rfl⟩⟩

theorem mem_methodIds {m : MethodId} : m ∈ s.methodIds ↔ s.hasMethod m := by
  unfold methodIds hasMethod
  rw [List.mem_map, decide_eq_true_eq]
  exact ⟨fun ⟨i, member, same⟩ => same ▸ List.mem_range.mp member,
    fun below => ⟨m.index, List.mem_range.mpr below, rfl⟩⟩

theorem nodup_typeIds (s : SymbolTable) : s.typeIds.Nodup :=
  List.nodup_range.map fun _ _ same => congrArg TypeId.index same

theorem nodup_methodIds (s : SymbolTable) : s.methodIds.Nodup :=
  List.nodup_range.map fun _ _ same => congrArg MethodId.index same

/-! ### Names are unique -/

namespace Sound

variable (sound : s.Sound)
include sound

theorem type_ext {t t' : TypeId} (known : s.hasType t) (known' : s.hasType t')
    (same : s.typeName t = s.typeName t') : t = t' := by
  have here := getElem?_typeName known
  rw [same, ← getElem?_typeName known'] at here
  have := (List.getElem?_inj (hasType_iff.mp known) sound.names).mp here
  cases t
  exact congrArg TypeId.mk this

theorem field_ext {f f' : FieldId} (known : s.hasField f) (known' : s.hasField f')
    (owner : (s.fieldRow f).owner = (s.fieldRow f').owner)
    (name : (s.fieldRow f).name = (s.fieldRow f').name) : f = f' := by
  have here : (s.fields.map fun d => (d.owner, d.name))[f.index]? =
      (s.fields.map fun d => (d.owner, d.name))[f'.index]? := by
    rw [List.getElem?_map, List.getElem?_map, getElem?_fieldRow known, getElem?_fieldRow known',
      Option.map_some, Option.map_some, owner, name]
  have below : f.index < (s.fields.map fun d => (d.owner, d.name)).length := by
    rw [List.length_map]
    exact of_decide_eq_true known
  have := (List.getElem?_inj below sound.paths).mp here
  cases f
  exact congrArg FieldId.mk this

theorem method_ext {m m' : MethodId} (known : s.hasMethod m) (known' : s.hasMethod m')
    (key : (s.methodRow m).key = (s.methodRow m').key) : m = m' := by
  have here : (s.methods.map MethodEntry.key)[m.index]? =
      (s.methods.map MethodEntry.key)[m'.index]? := by
    rw [List.getElem?_map, List.getElem?_map, getElem?_methodRow known, getElem?_methodRow known',
      Option.map_some, Option.map_some, key]
  have below : m.index < (s.methods.map MethodEntry.key).length := by
    rw [List.length_map]
    exact of_decide_eq_true known
  have := (List.getElem?_inj below sound.keys).mp here
  cases m
  exact congrArg MethodId.mk this

theorem owner_known {f : FieldId} (known : s.hasField f) : s.hasType (s.fieldRow f).owner :=
  (sound.fields _ (fieldRow_mem known)).1

theorem type_known {f : FieldId} (known : s.hasField f) : s.hasType (s.fieldRow f).type :=
  (sound.fields _ (fieldRow_mem known)).2

theorem signature_known {m : MethodId} (known : s.hasMethod m) :
    ∀ t ∈ (s.methodRow m).signature.types, s.hasType t :=
  sound.signatures _ (methodRow_mem known)

theorem key_eq {m : MethodId} (known : s.hasMethod m) :
    (s.methodRow m).key = s.identity "," (s.methodRow m).signature :=
  sound.spelled _ (methodRow_mem known)

end Sound

/-! ### Growing tables -/

theorem sound_empty : empty.Sound where
  names := List.nodup_nil
  fields := fun _ member => absurd member List.not_mem_nil
  paths := List.nodup_nil
  signatures := fun _ member => absurd member List.not_mem_nil
  spelled := fun _ member => absurd member List.not_mem_nil
  keys := List.nodup_nil

theorem Extends.hasType (grown : s.Extends s') {t : TypeId} (known : s.hasType t) :
    s'.hasType t := by
  have := grown.types (getElem?_typeName known)
  exact hasType_iff.mpr (List.getElem?_eq_some_iff.mp this).1

theorem Extends.hasField (grown : s.Extends s') {f : FieldId} (known : s.hasField f) :
    s'.hasField f :=
  decide_eq_true (List.getElem?_eq_some_iff.mp (grown.fields (getElem?_fieldRow known))).1

theorem Extends.hasMethod (grown : s.Extends s') {m : MethodId} (known : s.hasMethod m) :
    s'.hasMethod m :=
  decide_eq_true (List.getElem?_eq_some_iff.mp (grown.methods (getElem?_methodRow known))).1

theorem Extends.identity (grown : s.Extends s') {m : MethodDef}
    (known : ∀ t ∈ m.types, s.hasType t) (separator : String) :
    s'.identity separator m = s.identity separator m := by
  have owner := grown.typeName (known m.owner (List.mem_cons_self ..))
  have params : m.params.map s'.typeName = m.params.map s.typeName :=
    List.map_congr_left fun t member =>
      grown.typeName (known t (.tail _ (List.mem_append_left _ member)))
  rw [SymbolTable.identity, SymbolTable.identity, owner, params]

/-- The second table is the first one with further types, none of which has the empty name. -/
structure Widens (s s' : SymbolTable) : Prop where
  grown : s.Extends s'
  fields : s'.fields = s.fields
  methods : s'.methods = s.methods
  nodup : s.typeNames.Nodup → s'.typeNames.Nodup
  named : ∀ name ∈ s'.typeNames, name ∈ s.typeNames ∨ name ≠ ""

theorem Widens.refl (s : SymbolTable) : s.Widens s :=
  ⟨.refl s, rfl, rfl, id, fun _ member => Or.inl member⟩

theorem Widens.trans {s'' : SymbolTable} (first : s.Widens s') (second : s'.Widens s'') :
    s.Widens s'' where
  grown := first.grown.trans second.grown
  fields := second.fields.trans first.fields
  methods := second.methods.trans first.methods
  nodup := second.nodup ∘ first.nodup
  named := fun name member => (second.named name member).elim (first.named name) Or.inr

theorem internType_methods (s : SymbolTable) (name : String) :
    (s.internType name).2.methods = s.methods := by
  unfold internType
  split <;> rfl

theorem internTypes_methods (s : SymbolTable) (names : List String) :
    (s.internTypes names).2.methods = s.methods := by
  induction names generalizing s with
  | nil => rfl
  | cons name rest ih => exact (ih _).trans (s.internType_methods name)

theorem internType_fields (s : SymbolTable) (name : String) :
    (s.internType name).2.fields = s.fields := by
  unfold internType
  split <;> rfl

theorem typeId?_eq_none {name : String} : s.typeId? name = none ↔ name ∉ s.typeNames := by
  unfold typeId?
  rw [Option.map_eq_none_iff, List.findIdx?_eq_none_iff]
  constructor
  · intro absent member
    exact absurd (absent name member) (by simp)
  · intro absent other member
    exact beq_false_of_ne fun equal => absent (equal ▸ member)

/-- An interned name is in the table, or becomes its last one. -/
theorem internType_cases (s : SymbolTable) (name : String) :
    name ∈ s.typeNames ∧ (s.internType name).2 = s ∨
      name ∉ s.typeNames ∧
        (s.internType name).2 = { s with typeNames := s.typeNames ++ [name] } := by
  unfold internType
  cases found : s.typeId? name with
  | some t =>
      refine Or.inl ⟨?_, rfl⟩
      by_contra absent
      rw [typeId?_eq_none.mpr absent] at found
      cases found
  | none => exact Or.inr ⟨typeId?_eq_none.mp found, rfl⟩

theorem internType_widens (s : SymbolTable) {name : String} (nonempty : name ≠ "") :
    s.Widens (s.internType name).2 := by
  rcases s.internType_cases name with ⟨-, same⟩ | ⟨absent, longer⟩
  · rw [same]
    exact .refl s
  refine ⟨(s.internType_extends name).1, s.internType_fields name,
    s.internType_methods name, ?_, ?_⟩
  · intro nodup
    rw [longer]
    refine List.Nodup.append nodup (List.nodup_singleton name) ?_
    rwa [List.disjoint_singleton]
  · intro other member
    rw [longer] at member
    rcases List.mem_append.mp member with member | member
    · exact Or.inl member
    · rw [List.mem_singleton.mp member]
      exact Or.inr nonempty

theorem internTypes_widens (s : SymbolTable) {names : List String}
    (nonempty : ∀ name ∈ names, name ≠ "") :
    s.Widens (s.internTypes names).2 := by
  induction names generalizing s with
  | nil => exact .refl s
  | cons name rest ih =>
      exact (s.internType_widens (nonempty name (List.mem_cons_self ..))).trans
        (ih _ fun other member => nonempty other (.tail _ member))

theorem internType_known (s : SymbolTable) (name : String) :
    (s.internType name).2.hasType (s.internType name).1 ∧
      (s.internType name).2.typeName (s.internType name).1 = name := by
  have here := (s.internType_extends name).2
  exact ⟨hasType_iff.mpr (List.getElem?_eq_some_iff.mp here).1, typeName_eq here⟩

theorem internTypes_known (s : SymbolTable) (names : List String) :
    ∀ t ∈ (s.internTypes names).1, (s.internTypes names).2.hasType t := by
  induction names generalizing s with
  | nil => exact fun _ member => absurd member List.not_mem_nil
  | cons name rest ih =>
      intro t member
      rcases List.mem_cons.mp member with rfl | member
      · exact ((s.internType name).2.internTypes_extends rest).1.hasType (s.internType_known name).1
      · exact ih _ t member

/-- Further types with names of their own leave a table sound. -/
theorem Sound.retype (sound : s.Sound) (grown : s.Extends s') (fields : s'.fields = s.fields)
    (methods : s'.methods = s.methods) (names : s'.typeNames.Nodup) : s'.Sound where
  names := names
  fields := fun d member => by
    rw [fields] at member
    exact ⟨grown.hasType (sound.fields d member).1, grown.hasType (sound.fields d member).2⟩
  paths := by
    rw [fields]
    exact sound.paths
  signatures := fun e member t mentioned => by
    rw [methods] at member
    exact grown.hasType (sound.signatures e member t mentioned)
  spelled := fun e member => by
    rw [methods] at member
    rw [grown.identity (sound.signatures e member)]
    exact sound.spelled e member
  keys := by
    rw [methods]
    exact sound.keys

theorem Sound.widen (sound : s.Sound) (wider : s.Widens s') : s'.Sound :=
  sound.retype wider.grown wider.fields wider.methods (wider.nodup sound.names)

theorem fieldOf?_eq_none {owner : TypeId} {name : String} :
    s.fieldOf? owner name = none ↔ (owner, name) ∉ s.fields.map fun d => (d.owner, d.name) := by
  unfold fieldOf?
  rw [Option.map_eq_none_iff, List.findIdx?_eq_none_iff, List.mem_map]
  constructor
  · rintro absent ⟨d, member, equal⟩
    obtain ⟨rfl, rfl⟩ := Prod.mk.inj equal
    simpa using absent d member
  · intro absent d member
    rw [Bool.and_eq_false_imp]
    intro owned
    exact beq_false_of_ne fun named =>
      absent ⟨d, member, by rw [eq_of_beq owned, named]⟩

theorem methodOfKey?_eq_none {key : String} :
    s.methodOfKey? key = none ↔ key ∉ s.methods.map MethodEntry.key := by
  unfold methodOfKey?
  rw [Option.map_eq_none_iff, List.findIdx?_eq_none_iff, List.mem_map]
  constructor
  · rintro absent ⟨e, member, rfl⟩
    simpa using absent e member
  · intro absent e member
    exact beq_false_of_ne fun equal => absent ⟨e, member, equal⟩

/-- A declared field leaves the table as it is, or joins it under a name of its own. -/
theorem declareField_cases {d : FieldDef} {f : FieldId} (success : s.declareField d = .ok (f, s')) :
    s' = s ∨ (d.owner, d.name) ∉ (s.fields.map fun e => (e.owner, e.name)) ∧
      s' = { s with fields := s.fields ++ [d] } := by
  rcases declareField_steps success with ⟨-, -, same⟩ | ⟨absent, -, longer⟩
  · exact Or.inl same
  · exact Or.inr ⟨fieldOf?_eq_none.mp absent, longer⟩

/-- A field that is new joins the table. -/
theorem declareField_new {d : FieldDef} (absent : s.fieldOf? d.owner d.name = none)
    (owner : s.hasType d.owner) : s.declareField d =
      .ok (⟨s.fields.length⟩, { s with fields := s.fields ++ [d] }) := by
  unfold declareField
  rw [absent]
  exact if_pos owner

theorem Sound.declareField (sound : s.Sound) {d : FieldDef} {f : FieldId}
    (owner : s.hasType d.owner) (type : s.hasType d.type)
    (success : s.declareField d = .ok (f, s')) : s'.Sound := by
  rcases declareField_cases success with rfl | ⟨absent, rfl⟩
  · exact sound
  exact { names := sound.names
          fields := by
            intro e member
            rcases List.mem_append.mp member with member | member
            · exact sound.fields e member
            · rw [List.mem_singleton.mp member]
              exact ⟨owner, type⟩
          paths := by
            rw [List.map_append, List.map_singleton]
            refine List.Nodup.append sound.paths (List.nodup_singleton _) ?_
            rwa [List.disjoint_singleton]
          signatures := sound.signatures
          spelled := sound.spelled
          keys := sound.keys }

/-- A declared method leaves the table as it is, or joins it under a key of its own. -/
theorem declareMethod_cases {m : MethodDef} {id : MethodId}
    (success : s.declareMethod m = .ok (id, s')) :
    s' = s ∨ s.identity "," m ∉ s.methods.map MethodEntry.key ∧
      s' = { s with methods := s.methods ++ [⟨m, s.identity "," m⟩] } := by
  rcases declareMethod_steps success with ⟨old, -, -, -, -, same⟩ | ⟨absent, -, longer⟩
  · exact Or.inl same
  · exact Or.inr ⟨methodOfKey?_eq_none.mp absent, longer⟩

/-- A method that is new joins the table. -/
theorem declareMethod_new {m : MethodDef} (absent : s.methodOfKey? (s.identity "," m) = none)
    (owner : s.hasType m.owner) : s.declareMethod m =
      .ok (⟨s.methods.length⟩, { s with methods := s.methods ++ [⟨m, s.identity "," m⟩] }) := by
  unfold declareMethod
  rw [if_pos owner]
  simp only [absent]

theorem Sound.declareMethod (sound : s.Sound) {m : MethodDef} {id : MethodId}
    (known : ∀ t ∈ m.types, s.hasType t) (success : s.declareMethod m = .ok (id, s')) :
    s'.Sound := by
  rcases declareMethod_cases success with rfl | ⟨absent, rfl⟩
  · exact sound
  exact { names := sound.names
          fields := sound.fields
          paths := sound.paths
          signatures := by
            intro e member
            rcases List.mem_append.mp member with member | member
            · exact sound.signatures e member
            · rw [List.mem_singleton.mp member]
              exact known
          spelled := by
            intro e member
            rcases List.mem_append.mp member with member | member
            · exact sound.spelled e member
            · rw [List.mem_singleton.mp member]
              rfl
          keys := by
            rw [List.map_append, List.map_singleton]
            refine List.Nodup.append sound.keys (List.nodup_singleton _) ?_
            rwa [List.disjoint_singleton] }

end SymbolTable

end HookSplice
