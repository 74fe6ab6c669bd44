import HookSplice.Proofs.Declarations
import HookSplice.Proofs.TextCuts

/-!
# Contracts that are found and contracts that are declared

The event contract can be looked up in a table by the names of its members, and declared in it by
their shapes.  Whatever a declaration gives, the lookup finds afterwards, and declaring it again
changes nothing.  The other way round the lookup is too lenient: it never asks for the types of the
fields, for what the methods return, or for what is static, so it also finds contracts that cannot
be declared.
-/

namespace HookSplice

open Event (PayloadField PayloadKind)

/-! ### Lookups in tables that grow -/

/-- A search finds the same row in a list that goes on behind its end. -/
theorem findIdx?_of_extends {α : Type} {xs ys : List α}
    (grown : ∀ {i : Nat} {x : α}, xs[i]? = some x → ys[i]? = some x) {p : α → Bool} {i : Nat}
    (found : xs.findIdx? p = some i) : ys.findIdx? p = some i := by
  obtain ⟨below, here, first⟩ := List.findIdx?_eq_some_iff_getElem.mp found
  have same {j : Nat} (inside : j < xs.length) : ∃ inside' : j < ys.length, ys[j] = xs[j] :=
    List.getElem?_eq_some_iff.mp (grown (List.getElem?_eq_getElem inside))
  obtain ⟨below', equal⟩ := same below
  refine List.findIdx?_eq_some_iff_getElem.mpr ⟨below', equal ▸ here, fun j less => ?_⟩
  obtain ⟨_, equal'⟩ := same (Nat.lt_trans less below)
  exact equal' ▸ first j less

namespace SymbolTable

variable {s s' : SymbolTable}

theorem Extends.typeId? (grown : s.Extends s') {name : String} {t : TypeId}
    (found : s.typeId? name = some t) : s'.typeId? name = some t := by
  obtain ⟨i, first, rfl⟩ := Option.map_eq_some_iff.mp found
  exact congrArg (Option.map TypeId.mk) (findIdx?_of_extends grown.types first)

theorem Extends.fieldOf? (grown : s.Extends s') {owner : TypeId} {name : String} {f : FieldId}
    (found : s.fieldOf? owner name = some f) : s'.fieldOf? owner name = some f := by
  obtain ⟨i, first, rfl⟩ := Option.map_eq_some_iff.mp found
  exact congrArg (Option.map FieldId.mk) (findIdx?_of_extends grown.fields first)

theorem Extends.methodOfKey? (grown : s.Extends s') {key : String} {id : MethodId}
    (found : s.methodOfKey? key = some id) : s'.methodOfKey? key = some id := by
  obtain ⟨i, first, rfl⟩ := Option.map_eq_some_iff.mp found
  exact congrArg (Option.map MethodId.mk) (findIdx?_of_extends grown.methods first)

theorem hasType_of_typeId? {name : String} {t : TypeId} (found : s.typeId? name = some t) :
    s.hasType t :=
  decide_eq_true (List.getElem?_eq_some_iff.mp (getElem?_of_typeId? found)).1

theorem internType_of_typeId? {name : String} {t : TypeId} (found : s.typeId? name = some t) :
    s.internType name = (t, s) := by
  unfold internType
  rw [found]

theorem typeId?_internType (s : SymbolTable) (name : String) :
    (s.internType name).2.typeId? name = some (s.internType name).1 := by
  unfold internType
  cases found : s.typeId? name with
  | some t => exact found
  | none =>
      have absent := Option.map_eq_none_iff.mp found
      simp [typeId?, List.findIdx?_append, absent]

/-- Types that are known already are not added again. -/
theorem internTypes_of_typeId? {names : List String}
    (known : ∀ name ∈ names, ∃ t, s.typeId? name = some t) : (s.internTypes names).2 = s := by
  induction names with
  | nil => rfl
  | cons name rest ih =>
      obtain ⟨t, found⟩ := known name (List.mem_cons_self ..)
      simp only [internTypes, internType_of_typeId? found]
      exact ih fun other member => known other (.tail _ member)

theorem fieldOf?_declareField {d : FieldDef} {f : FieldId}
    (success : s.declareField d = .ok (f, s')) : s'.fieldOf? d.owner d.name = some f := by
  rcases declareField_steps success with ⟨found, -, rfl⟩ | ⟨absent, rfl, rfl⟩
  · exact found
  · have absent := Option.map_eq_none_iff.mp absent
    simp [fieldOf?, List.findIdx?_append, absent]

/-- A field that is found has the owner and the name that it was looked up by. -/
theorem of_fieldOf? {owner : TypeId} {name : String} {f : FieldId}
    (found : s.fieldOf? owner name = some f) {d : FieldDef} (declared : s.field? f = some d) :
    d.owner = owner ∧ d.name = name := by
  obtain ⟨i, first, rfl⟩ := Option.map_eq_some_iff.mp found
  obtain ⟨below, here, -⟩ := List.findIdx?_eq_some_iff_getElem.mp first
  obtain rfl := Option.some.inj ((List.getElem?_eq_getElem below).symm.trans declared)
  obtain ⟨owner, name⟩ := Bool.and_eq_true_iff.mp here
  exact ⟨eq_of_beq owner, eq_of_beq name⟩

/-- A field that is declared already keeps its handle. -/
theorem declareField_of_fieldOf? {d : FieldDef} {f : FieldId}
    (found : s.fieldOf? d.owner d.name = some f) (declared : s.field? f = some d) :
    s.declareField d = .ok (f, s) := by
  unfold declareField
  rw [found]
  exact if_pos declared

theorem methodOfKey?_declareMethod {m : MethodDef} {id : MethodId}
    (success : s.declareMethod m = .ok (id, s')) :
    s'.methodOfKey? (s.identity "," m) = some id := by
  rcases declareMethod_steps success with ⟨old, found, -, -, -, rfl⟩ | ⟨absent, rfl, rfl⟩
  · exact found
  · have absent := Option.map_eq_none_iff.mp absent
    simp [methodOfKey?, List.findIdx?_append, absent]

/-- A method that is declared already keeps its handle. -/
theorem declareMethod_of_methodOfKey? {m old : MethodDef} {id : MethodId}
    (owner : s.hasType m.owner) (found : s.methodOfKey? (s.identity "," m) = some id)
    (declared : s.method? id = some old) (ret : old.ret = m.ret)
    (static : old.isStatic = m.isStatic) : s.declareMethod m = .ok (id, s) := by
  unfold declareMethod
  rw [if_pos owner]
  simp only [found, declared, ret, static, and_self, if_true]

end SymbolTable

/-! ### Steps that find what they declare -/

namespace Declaring

variable {ε α β : Type} {s s' : SymbolTable}

theorem runOn_bind_of_ok {step : Declaring ε α} {next : α → Declaring ε β} {a : α}
    (first : step.runOn s = (.ok a, s')) : (step >>= next).runOn s = (next a).runOn s' := by
  have unfolded : (step >>= next).runOn s =
      (ExceptT.bindCont next (step.runOn s).1 : StateM SymbolTable (Except ε β)).run
        (step.runOn s).2 := rfl
  rw [unfolded, first]
  rfl

theorem runOn_type (name : String) : (type name : Declaring ε TypeId).runOn s =
    (.ok (s.internType name).1, (s.internType name).2) :=
  rfl

theorem runOn_types (names : List String) : (types names : Declaring ε (List TypeId)).runOn s =
    (.ok (s.internTypes names).1, (s.internTypes names).2) :=
  rfl

theorem typeId?_of_runOn_type {name : String} {t : TypeId}
    (success : (type name : Declaring ε TypeId).runOn s = (.ok t, s')) :
    s'.typeId? name = some t := by
  cases success
  exact s.typeId?_internType name

theorem runOn_type_of_typeId? {name : String} {t : TypeId} (found : s.typeId? name = some t) :
    (type name : Declaring ε TypeId).runOn s = (.ok t, s) := by
  rw [runOn_type, SymbolTable.internType_of_typeId? found]

theorem runOn_lift_of_ok {wrap : SymbolError → ε}
    {declare : SymbolTable → Except SymbolError (α × SymbolTable)} {a : α}
    (success : declare s = .ok (a, s')) : (lift wrap declare).runOn s = (.ok a, s') := by
  have whole : (get : Declaring ε SymbolTable).runOn s = (.ok s, s) := rfl
  rw [lift, runOn_bind_of_ok whole, success]
  rfl

/-- Steps of which each leaves the table alone leave it alone together. -/
theorem runOn_mapM_of_forall₂ {step : α → Declaring ε β} {as : List α} {bs : List β}
    (each : List.Forall₂ (fun a b => (step a).runOn s = (.ok b, s)) as bs) :
    (as.mapM step).runOn s = (.ok bs, s) := by
  induction each with
  | nil => rfl
  | cons first _ ih =>
      rw [List.mapM_cons, runOn_bind_of_ok first, runOn_bind_of_ok ih]
      rfl

end Declaring

/-! ### Members that are found in the shapes that are declared -/

/-- A field belongs to instances and has the type of the payload field. -/
def SymbolTable.FieldShaped (s : SymbolTable) (e : PayloadField × FieldId) : Prop :=
  ∃ d, s.field? e.2 = some d ∧ s.typeId? e.1.typeName = some d.type ∧ d.isStatic = false

/-- A method returns nothing, and is static or belongs to instances. -/
def SymbolTable.MethodShaped (s : SymbolTable) (id : MethodId) (isStatic : Bool) : Prop :=
  ∃ m, s.method? id = some m ∧ m.ret = none ∧ m.isStatic = isStatic

/-- The members of a class have the shapes that a declaration asks for: its fields belong to
    instances and have the types of the payload fields, and its constructor belongs to an instance
    and returns nothing. -/
structure EventClass.DeclarableIn (c : EventClass) (s : SymbolTable) : Prop where
  fields : ∀ e ∈ c.fields, s.FieldShaped e
  constructor : s.MethodShaped c.constructor false

/-- The members of a contract have the shapes that a declaration asks for, and the types that it
    mentions are known. -/
structure EventContract.DeclarableIn (contract : EventContract) (s : SymbolTable) : Prop where
  classes : ∀ k, (contract.eventClass k).DeclarableIn s
  string : (s.typeId? "string").isSome
  dispatch : s.MethodShaped contract.dispatch true

namespace EventContract

variable {s s' : SymbolTable}

/-- A lookup finds the field of a class in the shape that is declared. -/
def FieldSettled (owner : TypeId) (s : SymbolTable) (f : PayloadField)
    (e : PayloadField × FieldId) : Prop :=
  e.1 = f ∧ s.fieldOf? owner f.name = some e.2 ∧ ∃ t, s.typeId? f.typeName = some t ∧
    s.field? e.2 = some ⟨owner, f.name, t, false⟩

/-- The key of a constructor. -/
def constructorKey (kind : PayloadKind) : String :=
  identityOf kind.className ".ctor" (kind.constructorFields.map PayloadField.typeName)

/-- The key of the dispatch method. -/
def dispatchKey : String :=
  identityOf busName dispatchName ["string", "object"]

/-- Lookups find a class and all its members in the shapes that are declared. -/
structure ClassSettled (s : SymbolTable) (c : EventClass) : Prop where
  type : s.typeId? c.kind.className = some c.type
  fields : List.Forall₂ (FieldSettled c.type s) c.kind.fields c.fields
  constructor : s.methodOfKey? (constructorKey c.kind) = some c.constructor
  shape : s.MethodShaped c.constructor false

/-- Lookups find a contract and all its members in the shapes that are declared. -/
structure Settled (s : SymbolTable) (contract : EventContract) : Prop where
  kinds : ∀ k, (contract.eventClass k).kind = k
  classes : ∀ k, ClassSettled s (contract.eventClass k)
  string : (s.typeId? "string").isSome
  bus : s.typeId? busName = some contract.bus
  dispatch : s.methodOfKey? dispatchKey = some contract.dispatch
  shape : s.MethodShaped contract.dispatch true

theorem FieldSettled.grow {owner : TypeId} {f : PayloadField} {e : PayloadField × FieldId}
    (settled : FieldSettled owner s f e) (grown : s.Extends s') : FieldSettled owner s' f e := by
  obtain ⟨same, found, t, typed, declared⟩ := settled
  exact ⟨same, grown.fieldOf? found, t, grown.typeId? typed, grown.field? declared⟩

theorem ClassSettled.grow {c : EventClass} (settled : ClassSettled s c) (grown : s.Extends s') :
    ClassSettled s' c where
  type := grown.typeId? settled.type
  fields := settled.fields.imp fun _ _ field => field.grow grown
  constructor := grown.methodOfKey? settled.constructor
  shape := by
    obtain ⟨m, declared, shape⟩ := settled.shape
    exact ⟨m, grown.method? declared, shape⟩

/-! ### What a declaration leaves behind -/

/-- A declared method is found by its key, with what it returns and whether it is static. -/
theorem method?_of_declareMethod {m : MethodDef} {id : MethodId}
    (success : s.declareMethod m = .ok (id, s')) :
    ∃ old, s'.method? id = some old ∧ old.ret = m.ret ∧ old.isStatic = m.isStatic := by
  obtain ⟨-, e, here, -, ret, static⟩ := SymbolTable.declareMethod_eq_ok success
  exact ⟨e.signature, congrArg (Option.map MethodEntry.signature) here, ret, static⟩

theorem declareField_settled {owner : TypeId} {f : PayloadField} {e : PayloadField × FieldId}
    (success : (declareField owner f).runOn s = (.ok e, s')) :
    s.Extends s' ∧ FieldSettled owner s' f e := by
  obtain ⟨same, t, s₁, typed, declared⟩ := declareField_steps success
  obtain ⟨grown, here⟩ := SymbolTable.declareField_eq_ok declared
  exact ⟨(Declaring.runOn_type_eq_ok typed).1.trans grown, same,
    SymbolTable.fieldOf?_declareField declared, t,
    grown.typeId? (Declaring.typeId?_of_runOn_type typed), here⟩

theorem declareClass_settled {kind : PayloadKind} {c : EventClass}
    (success : (declareClass kind).runOn s = (.ok c, s')) : ClassSettled s' c := by
  obtain ⟨rfl, params, s₁, s₂, s₃, typed, mapped, listed, declared⟩ := declareClass_steps success
  obtain ⟨toParams, fields⟩ := Declaring.runOn_mapM_forall₂ (FieldSettled c.type)
    (fun grown settled => settled.grow grown) declareField_settled mapped
  obtain ⟨toMethod, names⟩ := Declaring.runOn_types_eq_ok listed
  have toEnd := (SymbolTable.declareMethod_eq_ok declared).1
  have type := Declaring.typeId?_of_runOn_type typed
  have owner := SymbolTable.typeName_eq
    (toMethod.types (toParams.types (SymbolTable.getElem?_of_typeId? type)))
  have found := SymbolTable.methodOfKey?_declareMethod declared
  refine ⟨toEnd.typeId? (toMethod.typeId? (toParams.typeId? type)),
    fields.imp fun _ _ field => field.grow (toMethod.trans toEnd), ?_,
    method?_of_declareMethod declared⟩
  rw [SymbolTable.identity] at found
  simp only [owner, names] at found
  exact found

/-- Whatever a declaration gives is found afterwards, in the shapes that were declared. -/
theorem declare_settled {contract : EventContract}
    (success : declare.runOn s = (.ok contract, s')) : Settled s' contract := by
  obtain ⟨string, object, s₁, s₂, s₃, s₄, s₅, s₆, s₇, first, second, third, fourth, fifth, sixth,
    seventh, declared⟩ := declare_steps success
  have toObject := (Declaring.runOn_type_eq_ok second).1
  obtain ⟨toAction, kind₁, -⟩ := declareClass_runOn third
  obtain ⟨toTargeted, kind₂, -⟩ := declareClass_runOn fourth
  obtain ⟨toAmount, kind₃, -⟩ := declareClass_runOn fifth
  obtain ⟨toSubstitute, kind₄, -⟩ := declareClass_runOn sixth
  have toBus := (Declaring.runOn_type_eq_ok seventh).1
  have toEnd := (SymbolTable.declareMethod_eq_ok declared).1
  have later := toAction.trans (toTargeted.trans (toAmount.trans (toSubstitute.trans toBus)))
  have string := toObject.typeId? (Declaring.typeId?_of_runOn_type first)
  have object := Declaring.typeId?_of_runOn_type second
  have bus := Declaring.typeId?_of_runOn_type seventh
  have found := SymbolTable.methodOfKey?_declareMethod declared
  refine ⟨fun k => ?_, fun k => ?_, ?_, toEnd.typeId? bus, ?_, method?_of_declareMethod declared⟩
  · cases k
    · exact kind₁
    · exact kind₂
    · exact kind₃
    · exact kind₄
  · cases k
    · exact (declareClass_settled third).grow
        (toTargeted.trans (toAmount.trans (toSubstitute.trans (toBus.trans toEnd))))
    · exact (declareClass_settled fourth).grow
        (toAmount.trans (toSubstitute.trans (toBus.trans toEnd)))
    · exact (declareClass_settled fifth).grow (toSubstitute.trans (toBus.trans toEnd))
    · exact (declareClass_settled sixth).grow (toBus.trans toEnd)
  · rw [(later.trans toEnd).typeId? string]
    rfl
  · have named {name : String} {t : TypeId} (here : s₇.typeId? name = some t) :
        s₇.typeName t = name := SymbolTable.typeName_eq (SymbolTable.getElem?_of_typeId? here)
    rw [SymbolTable.identity] at found
    simp only [List.map_cons, List.map_nil, named bus, named (later.typeId? string),
      named (later.typeId? object)] at found
    exact found

/-! ### What is settled is declared again -/

theorem FieldSettled.declareField {owner : TypeId} {f : PayloadField}
    {e : PayloadField × FieldId} (settled : FieldSettled owner s f e) :
    (declareField owner f).runOn s = (.ok e, s) := by
  obtain ⟨f', id⟩ := e
  obtain ⟨rfl, found, t, typed, declared⟩ := settled
  unfold EventContract.declareField
  rw [Declaring.runOn_bind_of_ok (Declaring.runOn_type_of_typeId? typed),
    Declaring.runOn_bind_of_ok (Declaring.runOn_lift_of_ok
      (SymbolTable.declareField_of_fieldOf? found declared))]
  rfl

/-- The types of the fields of a class are known. -/
theorem ClassSettled.typeId?_of_mem {c : EventClass} (settled : ClassSettled s c)
    {f : PayloadField} (member : f ∈ c.kind.fields) : ∃ t, s.typeId? f.typeName = some t := by
  obtain ⟨e, -, -, -, t, typed, -⟩ := exists_of_mem_left settled.fields member
  exact ⟨t, typed⟩

theorem ClassSettled.declareClass {c : EventClass} (settled : ClassSettled s c) :
    (declareClass c.kind).runOn s = (.ok c, s) := by
  have known : ∀ name ∈ c.kind.constructorFields.map PayloadField.typeName,
      ∃ t, s.typeId? name = some t := by
    intro name member
    obtain ⟨f, inside, rfl⟩ := List.mem_map.mp member
    exact settled.typeId?_of_mem (List.mem_append_left _ inside)
  have owner := SymbolTable.getElem?_of_typeId? settled.type
  have params := SymbolTable.internTypes_of_typeId? known
  have names := (s.internTypes_extends (c.kind.constructorFields.map PayloadField.typeName)).2
  rw [params] at names
  obtain ⟨m, declared, ret, static⟩ := settled.shape
  have found : s.methodOfKey? (s.identity "," ⟨c.type, ".ctor",
      (s.internTypes (c.kind.constructorFields.map PayloadField.typeName)).1, none, false⟩) =
        some c.constructor := by
    rw [SymbolTable.identity]
    simp only [SymbolTable.typeName_eq owner, names]
    exact settled.constructor
  unfold EventContract.declareClass
  rw [Declaring.runOn_bind_of_ok (Declaring.runOn_type_of_typeId? settled.type),
    Declaring.runOn_bind_of_ok (Declaring.runOn_mapM_of_forall₂
      (settled.fields.imp fun _ _ field => field.declareField)),
    Declaring.runOn_bind_of_ok (Declaring.runOn_types _), params,
    Declaring.runOn_bind_of_ok (Declaring.runOn_lift_of_ok
      (SymbolTable.declareMethod_of_methodOfKey? (SymbolTable.hasType_of_typeId? settled.type)
        found declared ret static))]
  rfl

theorem Settled.declareClass {contract : EventContract} (settled : Settled s contract)
    (k : PayloadKind) : (declareClass k).runOn s = (.ok (contract.eventClass k), s) := by
  have declared := (settled.classes k).declareClass
  rwa [settled.kinds k] at declared

/-- A contract that is found in the shapes that are declared is declared already. -/
theorem Settled.declare {contract : EventContract} (settled : Settled s contract) :
    declare.runOn s = (.ok contract, s) := by
  obtain ⟨string, hstring⟩ := Option.isSome_iff_exists.mp settled.string
  obtain ⟨object, hobject⟩ : ∃ t, s.typeId? "object" = some t := by
    refine (settled.classes .action).typeId?_of_mem (f := .subject) ?_
    rw [settled.kinds]
    decide
  have named {name : String} {t : TypeId} (here : s.typeId? name = some t) :
      s.typeName t = name := SymbolTable.typeName_eq (SymbolTable.getElem?_of_typeId? here)
  obtain ⟨m, declared, ret, static⟩ := settled.shape
  have found : s.methodOfKey? (s.identity "," ⟨contract.bus, dispatchName, [string, object],
      none, true⟩) = some contract.dispatch := by
    rw [SymbolTable.identity]
    simp only [List.map_cons, List.map_nil, named settled.bus, named hstring, named hobject]
    exact settled.dispatch
  unfold EventContract.declare
  rw [Declaring.runOn_bind_of_ok (Declaring.runOn_type_of_typeId? hstring),
    Declaring.runOn_bind_of_ok (Declaring.runOn_type_of_typeId? hobject),
    Declaring.runOn_bind_of_ok (settled.declareClass .action),
    Declaring.runOn_bind_of_ok (settled.declareClass .targeted),
    Declaring.runOn_bind_of_ok (settled.declareClass .amount),
    Declaring.runOn_bind_of_ok (settled.declareClass .substitute),
    Declaring.runOn_bind_of_ok (Declaring.runOn_type_of_typeId? settled.bus),
    Declaring.runOn_bind_of_ok (Declaring.runOn_lift_of_ok
      (SymbolTable.declareMethod_of_methodOfKey? (SymbolTable.hasType_of_typeId? settled.bus)
        found declared ret static))]
  rfl

/-! ### Finding and declaring compared -/

theorem solid_className (k : PayloadKind) : Text.Solid k.className.toList := by
  cases k <;> decide

theorem solid_fieldName (f : PayloadField) : Text.Solid f.name.toList := by
  cases f <;> decide

/-- The spelling of a field of an event class is cut between the class and the field. -/
theorem fieldId?_spelled (s : SymbolTable) (k : PayloadKind) (f : PayloadField) :
    s.fieldId? (k.className ++ "::" ++ f.name) =
      (s.typeId? k.className).bind fun owner => s.fieldOf? owner f.name := by
  have spelled : (k.className ++ "::" ++ f.name).toList =
      k.className.toList ++ ':' :: ':' :: f.name.toList := by
    simp
  have solid : Text.Solid (k.className.toList ++ ':' :: ':' :: f.name.toList) := by
    have colons : Text.Solid [':', ':'] := by decide
    exact (solid_className k).append (colons.append (solid_fieldName f))
  have uncut : ':' ∉ f.name.toList := by
    cases f <;> decide
  unfold SymbolTable.fieldId?
  rw [spelled, Text.trim_eq_self solid.trimmed, Text.splitLastColons_append _ uncut]
  simp only [Text.trim_eq_self (solid_className k).trimmed,
    Text.trim_eq_self (solid_fieldName f).trimmed, String.ofList_toList]
  cases s.typeId? k.className <;> rfl

/-- No blank stands in the key of a constructor. -/
theorem methodId?_constructorKey (s : SymbolTable) (k : PayloadKind) :
    s.methodId? (constructorKey k) = s.methodOfKey? (constructorKey k) := by
  have tight : String.ofList ((constructorKey k).toList.filter fun c => !Text.isBlank c) =
      constructorKey k := by
    cases k <;> decide +kernel
  rw [SymbolTable.methodId?, tight]

theorem methodId?_dispatchKey (s : SymbolTable) :
    s.methodId? dispatchKey = s.methodOfKey? dispatchKey := by
  have tight : String.ofList (dispatchKey.toList.filter fun c => !Text.isBlank c) =
      dispatchKey := by
    decide +kernel
  rw [SymbolTable.methodId?, tight]

/-- Lookups for all items of a list succeed when each of them does. -/
theorem mapM_eq_some_iff {α β : Type} {f : α → Option β} {as : List α} {bs : List β} :
    as.mapM f = some bs ↔ List.Forall₂ (fun a b => f a = some b) as bs := by
  induction as generalizing bs with
  | nil =>
      rw [List.mapM_nil, List.forall₂_nil_left_iff]
      exact ⟨fun same => (Option.some.inj same).symm, fun same => congrArg some same.symm⟩
  | cons a rest ih =>
      simp only [List.mapM_cons, Option.bind_eq_bind, Option.bind_eq_some_iff, ih,
        List.forall₂_cons_left_iff]
      constructor
      · rintro ⟨b, first, others, later, made⟩
        exact ⟨b, others, first, later, (Option.some.inj made).symm⟩
      · rintro ⟨b, others, first, later, rfl⟩
        exact ⟨b, first, others, later, rfl⟩

theorem fieldSettled_iff {k : PayloadKind} {owner : TypeId}
    (type : s.typeId? k.className = some owner) {f : PayloadField} {e : PayloadField × FieldId} :
    FieldSettled owner s f e ↔ s.FieldShaped e ∧ resolveField? s k f = some e := by
  obtain ⟨g, id⟩ := e
  have lookup : resolveField? s k f = some (g, id) ↔ g = f ∧ s.fieldOf? owner f.name = some id := by
    rw [resolveField?, fieldId?_spelled, type, Option.bind_some, Option.map_eq_some_iff]
    constructor
    · rintro ⟨id, found, same⟩
      cases same
      exact ⟨rfl, found⟩
    · rintro ⟨rfl, found⟩
      exact ⟨id, found, rfl⟩
  rw [lookup]
  constructor
  · rintro ⟨rfl, found, t, typed, declared⟩
    exact ⟨⟨_, declared, typed, rfl⟩, rfl, found⟩
  · rintro ⟨⟨d, declared, typed, static⟩, rfl, found⟩
    obtain ⟨rfl, name⟩ := SymbolTable.of_fieldOf? found declared
    refine ⟨rfl, found, d.type, typed, ?_⟩
    rw [declared, ← name, ← static]

theorem fieldsSettled_iff {k : PayloadKind} {owner : TypeId}
    (type : s.typeId? k.className = some owner) {fs : List PayloadField}
    {es : List (PayloadField × FieldId)} :
    List.Forall₂ (FieldSettled owner s) fs es ↔
      (∀ e ∈ es, s.FieldShaped e) ∧ fs.mapM (resolveField? s k) = some es := by
  have split := List.forall₂_and_left (p := s.FieldShaped) (l := es) (u := fs)
    (R := fun e f => resolveField? s k f = some e)
  constructor
  · intro settled
    obtain ⟨shapes, found⟩ := split.mp
      (settled.imp fun _ _ field => (fieldSettled_iff type).mp field).flip
    exact ⟨shapes, mapM_eq_some_iff.mpr found.flip⟩
  · rintro ⟨shapes, found⟩
    exact (split.mpr ⟨shapes, (mapM_eq_some_iff.mp found).flip⟩).flip.imp
      fun _ _ field => (fieldSettled_iff type).mpr field

/-- What it takes to find a class. -/
theorem resolveClass?_eq_some_iff {k : PayloadKind} {c : EventClass} :
    resolveClass? s k = some c ↔ c.kind = k ∧ s.typeId? k.className = some c.type ∧
      s.methodOfKey? (constructorKey k) = some c.constructor ∧
      k.fields.mapM (resolveField? s k) = some c.fields := by
  obtain ⟨kind, type, constructor, fields⟩ := c
  have key := methodId?_constructorKey s k
  rw [constructorKey] at key
  simp only [resolveClass?, Option.bind_eq_bind, Option.bind_eq_some_iff, key, Option.pure_def,
    Option.some.injEq, EventClass.mk.injEq, constructorKey]
  constructor
  · rintro ⟨type, typed, constructor, found, fields, listed, rfl, rfl, rfl, rfl⟩
    exact ⟨rfl, typed, found, listed⟩
  · rintro ⟨rfl, typed, found, listed⟩
    exact ⟨type, typed, constructor, found, fields, listed, rfl, rfl, rfl, rfl⟩

/-- What it takes to find a contract. -/
theorem resolve?_eq_some_iff {contract : EventContract} :
    resolve? s = some contract ↔ (∀ k, resolveClass? s k = some (contract.eventClass k)) ∧
      s.typeId? busName = some contract.bus ∧
      s.methodOfKey? dispatchKey = some contract.dispatch := by
  obtain ⟨action, targeted, amount, substitute, bus, dispatch⟩ := contract
  have key := methodId?_dispatchKey s
  rw [dispatchKey] at key
  simp only [resolve?, Option.bind_eq_bind, Option.bind_eq_some_iff, key, Option.pure_def,
    Option.some.injEq, EventContract.mk.injEq, dispatchKey]
  constructor
  · rintro ⟨action, first, targeted, second, amount, third, substitute, fourth, bus, typed,
      dispatch, found, rfl, rfl, rfl, rfl, rfl, rfl⟩
    refine ⟨fun k => ?_, typed, found⟩
    cases k <;> assumption
  · rintro ⟨classes, typed, found⟩
    exact ⟨action, classes .action, targeted, classes .targeted, amount, classes .amount,
      substitute, classes .substitute, bus, typed, dispatch, found, rfl, rfl, rfl, rfl, rfl, rfl⟩

theorem resolveField?_grow (grown : s.Extends s') {k : PayloadKind} {f : PayloadField}
    {e : PayloadField × FieldId} (found : resolveField? s k f = some e) :
    resolveField? s' k f = some e := by
  rw [resolveField?, fieldId?_spelled] at found ⊢
  obtain ⟨id, spelled, made⟩ := Option.map_eq_some_iff.mp found
  obtain ⟨owner, typed, here⟩ := Option.bind_eq_some_iff.mp spelled
  rw [grown.typeId? typed, Option.bind_some, grown.fieldOf? here]
  exact congrArg some made

/-- What has been found is found again after more declarations. -/
theorem resolve?_grow (grown : s.Extends s') {contract : EventContract}
    (found : resolve? s = some contract) : resolve? s' = some contract := by
  obtain ⟨classes, bus, dispatch⟩ := resolve?_eq_some_iff.mp found
  refine resolve?_eq_some_iff.mpr ⟨fun k => ?_, grown.typeId? bus, grown.methodOfKey? dispatch⟩
  obtain ⟨kind, typed, constructor, fields⟩ := resolveClass?_eq_some_iff.mp (classes k)
  refine resolveClass?_eq_some_iff.mpr
    ⟨kind, grown.typeId? typed, grown.methodOfKey? constructor, mapM_eq_some_iff.mpr ?_⟩
  exact (mapM_eq_some_iff.mp fields).imp fun _ _ field => resolveField?_grow grown field

theorem classSettled_iff {k : PayloadKind} {c : EventClass} :
    c.kind = k ∧ ClassSettled s c ↔ resolveClass? s k = some c ∧ c.DeclarableIn s := by
  rw [resolveClass?_eq_some_iff]
  constructor
  · rintro ⟨rfl, settled⟩
    obtain ⟨shapes, listed⟩ := (fieldsSettled_iff settled.type).mp settled.fields
    exact ⟨⟨rfl, settled.type, settled.constructor, listed⟩, shapes, settled.shape⟩
  · rintro ⟨⟨rfl, typed, found, listed⟩, shapes, shape⟩
    exact ⟨rfl, typed, (fieldsSettled_iff typed).mpr ⟨shapes, listed⟩, found, shape⟩

/-- A contract is declared already exactly if it is found and has the shapes that are declared. -/
theorem settled_iff {contract : EventContract} :
    Settled s contract ↔ resolve? s = some contract ∧ contract.DeclarableIn s := by
  rw [resolve?_eq_some_iff]
  constructor
  · intro settled
    have classes := fun k => classSettled_iff.mp ⟨settled.kinds k, settled.classes k⟩
    exact ⟨⟨fun k => (classes k).1, settled.bus, settled.dispatch⟩, fun k => (classes k).2,
      settled.string, settled.shape⟩
  · rintro ⟨⟨found, bus, dispatch⟩, classes, string, shape⟩
    have settled := fun k => classSettled_iff.mpr ⟨found k, classes k⟩
    exact ⟨fun k => (settled k).1, fun k => (settled k).2, string, bus, dispatch, shape⟩

/-- A declaration gives a contract and adds nothing exactly if the lookup finds the contract and its
    members have the declared shapes.  A declaration that succeeds gives what the lookup has found,
    if anything; afterwards the lookup finds what it gave, and declaring again gives it again and
    adds nothing. -/
theorem resolve?_declare (s : SymbolTable) (contract : EventContract) :
    (declare.runOn s = (.ok contract, s) ↔
      resolve? s = some contract ∧ contract.DeclarableIn s) ∧
    ∀ s', declare.runOn s = (.ok contract, s') →
      (∀ found, resolve? s = some found → found = contract) ∧
      resolve? s' = some contract ∧ declare.runOn s' = (.ok contract, s') := by
  refine ⟨⟨fun success => settled_iff.mp (declare_settled success),
    fun found => (settled_iff.mpr found).declare⟩, fun s' success => ?_⟩
  have settled := declare_settled success
  have here := (settled_iff.mp settled).1
  refine ⟨fun found before => ?_, here, settled.declare⟩
  have after := resolve?_grow (declare_runOn success).1 before
  exact Option.some.inj (after.symm.trans here)

/-- The table of a host that declares the contract and nothing else. -/
def contractTable : SymbolTable :=
  (declare.runOn .empty).2

/-- The contract is found in the table that it has been declared in. -/
theorem resolve?_declare_empty : ∃ contract, declare.runOn .empty = (.ok contract, contractTable) ∧
    resolve? contractTable = some contract ∧
    declare.runOn contractTable = (.ok contract, contractTable) := by
  have succeeds : (declare.runOn .empty).1.toOption.isSome := by decide +kernel
  have success := Except.run_eq_ok_value succeeds
  obtain ⟨-, found, again⟩ := (resolve?_declare .empty _).2 _ success
  exact ⟨_, success, found, again⟩

/-- The same table, but the fields of the event classes are static. -/
def staticFieldsTable : SymbolTable where
  typeNames := contractTable.typeNames
  fields := contractTable.fields.map fun d => { d with isStatic := true }
  methods := contractTable.methods

/-- The lookup asks for the names of types, for the owners and names of fields and for the keys of
    methods, and for nothing else. -/
theorem resolve?_congr (types : s'.typeNames = s.typeNames) (methods : s'.methods = s.methods)
    (fields : ∀ owner name, s'.fieldOf? owner name = s.fieldOf? owner name) :
    resolve? s' = resolve? s := by
  have type (name : String) : s'.typeId? name = s.typeId? name := by
    rw [SymbolTable.typeId?, types, ← SymbolTable.typeId?]
  have method (key : String) : s'.methodId? key = s.methodId? key := by
    simp only [SymbolTable.methodId?, SymbolTable.methodOfKey?, methods]
  have field (path : String) : s'.fieldId? path = s.fieldId? path := by
    simp only [SymbolTable.fieldId?, type, fields]
  have class_ (k : PayloadKind) : resolveClass? s' k = resolveClass? s k := by
    have listed : resolveField? s' k = resolveField? s k := by
      funext f
      rw [resolveField?, resolveField?, field]
    simp only [resolveClass?, type, method, listed]
  simp only [resolve?, class_, type, method]

/-- A contract that is found with static fields cannot be declared. -/
theorem declare_staticFieldsTable : (resolve? staticFieldsTable).isSome ∧
    (declare.runOn staticFieldsTable).1 =
      .error (.fieldConflict "Hookwright.Events.ActionEvent" "Subject") := by
  refine ⟨?_, by decide +kernel⟩
  have succeeds : (declare.runOn .empty).1.toOption.isSome := by decide +kernel
  have settled := declare_settled (Except.run_eq_ok_value succeeds)
  have found : resolve? contractTable = some _ := (settled_iff.mp settled).1
  have types : staticFieldsTable.typeNames = contractTable.typeNames := by rw [staticFieldsTable]
  have methods : staticFieldsTable.methods = contractTable.methods := by rw [staticFieldsTable]
  have fields (owner : TypeId) (name : String) :
      staticFieldsTable.fieldOf? owner name = contractTable.fieldOf? owner name := by
    rw [SymbolTable.fieldOf?, staticFieldsTable, List.findIdx?_map, SymbolTable.fieldOf?]
    exact congrArg (Option.map FieldId.mk) rfl
  have same := resolve?_congr types methods fields
  exact Option.isSome_of_eq_some (same.trans found)

end EventContract

end HookSplice
