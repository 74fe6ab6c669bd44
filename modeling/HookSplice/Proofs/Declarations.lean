import HookSplice.EventGate
import HookSplice.Proofs.Common

/-!
# What declarations leave behind

A symbol table only grows, and what has been declared in it is found by its handle from then on.
So the handles of an event contract name what the contract is about: the fields of each class have
the names of the payload fields, and no two of its methods have the same handle.
-/

namespace HookSplice

open Event (PayloadKind PayloadField)

/-- The second table holds everything that the first one holds, under the same handles. -/
structure SymbolTable.Extends (s s' : SymbolTable) : Prop where
  types : ∀ {i : Nat} {name : String}, s.typeNames[i]? = some name → s'.typeNames[i]? = some name
  fields : ∀ {i : Nat} {d : FieldDef}, s.fields[i]? = some d → s'.fields[i]? = some d
  methods : ∀ {i : Nat} {e : MethodEntry}, s.methods[i]? = some e → s'.methods[i]? = some e

namespace SymbolTable

variable {s s' s'' : SymbolTable}

theorem Extends.refl (s : SymbolTable) : s.Extends s :=
  ⟨id, id, id⟩

theorem Extends.trans (first : s.Extends s') (second : s'.Extends s'') : s.Extends s'' where
  types := fun here => second.types (first.types here)
  fields := fun here => second.fields (first.fields here)
  methods := fun here => second.methods (first.methods here)

theorem Extends.method? (grown : s.Extends s') {id : MethodId} {signature : MethodDef}
    (declared : s.method? id = some signature) : s'.method? id = some signature := by
  obtain ⟨e, here, rfl⟩ := Option.map_eq_some_iff.mp declared
  exact congrArg (Option.map MethodEntry.signature) (grown.methods here)

theorem Extends.field? (grown : s.Extends s') {id : FieldId} {d : FieldDef}
    (declared : s.field? id = some d) : s'.field? id = some d :=
  grown.fields declared

theorem typeName_eq {id : TypeId} {name : String} (here : s.typeNames[id.index]? = some name) :
    s.typeName id = name := by
  unfold typeName
  rw [here]
  rfl

theorem Extends.typeName (grown : s.Extends s') {id : TypeId} (known : s.hasType id) :
    s'.typeName id = s.typeName id := by
  have here := List.getElem?_eq_getElem (of_decide_eq_true known)
  rw [typeName_eq (grown.types here), typeName_eq here]

theorem getElem?_of_typeId? {name : String} {t : TypeId} (found : s.typeId? name = some t) :
    s.typeNames[t.index]? = some name := by
  obtain ⟨i, first, rfl⟩ := Option.map_eq_some_iff.mp found
  obtain ⟨below, same, -⟩ := List.findIdx?_eq_some_iff_getElem.mp first
  exact List.getElem?_eq_some_iff.mpr ⟨below, eq_of_beq same⟩

theorem internType_extends (s : SymbolTable) (name : String) :
    s.Extends (s.internType name).2 ∧
      (s.internType name).2.typeNames[(s.internType name).1.index]? = some name := by
  unfold internType
  cases known : s.typeId? name with
  | some t => exact ⟨.refl s, getElem?_of_typeId? known⟩
  | none =>
      refine ⟨⟨fun here => getElem?_append_of_eq_some here _, id, id⟩, ?_⟩
      simp

theorem internTypes_extends (s : SymbolTable) (names : List String) :
    s.Extends (s.internTypes names).2 ∧
      (s.internTypes names).1.map (s.internTypes names).2.typeName = names := by
  induction names generalizing s with
  | nil => exact ⟨.refl s, rfl⟩
  | cons name rest ih =>
      obtain ⟨first, here⟩ := s.internType_extends name
      obtain ⟨later, others⟩ := ih (s.internType name).2
      refine ⟨first.trans later, ?_⟩
      simp only [internTypes, List.map_cons]
      rw [typeName_eq (later.types here), others]

/-- A field that is declared was there before, or is added. -/
theorem declareField_steps {d : FieldDef} {f : FieldId} (success : s.declareField d = .ok (f, s')) :
    (s.fieldOf? d.owner d.name = some f ∧ s.field? f = some d ∧ s' = s) ∨
      (s.fieldOf? d.owner d.name = none ∧ f = ⟨s.fields.length⟩ ∧
        s' = { s with fields := s.fields ++ [d] }) := by
  unfold declareField at success
  split at success
  · next found =>
      split at success
      · next same =>
          cases success
          exact Or.inl ⟨found, same, rfl⟩
      · cases success
  · next absent =>
      split at success
      · cases success
        exact Or.inr ⟨absent, rfl, rfl⟩
      · cases success

/-- A method that is declared was there before, with the same result, or is added. -/
theorem declareMethod_steps {m : MethodDef} {id : MethodId}
    (success : s.declareMethod m = .ok (id, s')) :
    (∃ old, s.methodOfKey? (s.identity "," m) = some id ∧ s.method? id = some old ∧
      old.ret = m.ret ∧ old.isStatic = m.isStatic ∧ s' = s) ∨
      (s.methodOfKey? (s.identity "," m) = none ∧ id = ⟨s.methods.length⟩ ∧
        s' = { s with methods := s.methods ++ [⟨m, s.identity "," m⟩] }) := by
  unfold declareMethod at success
  split at success
  · simp only at success
    split at success
    · next old found =>
        split at success
        · next signature declared =>
            split at success
            · next same =>
                cases success
                exact Or.inl ⟨signature, found, declared, same.1, same.2, rfl⟩
            · cases success
        · cases success
    · next absent =>
        cases success
        exact Or.inr ⟨absent, rfl, rfl⟩
  · cases success

theorem declareField_eq_ok {field : FieldDef} {id : FieldId}
    (success : s.declareField field = .ok (id, s')) : s.Extends s' ∧ s'.field? id = some field := by
  rcases declareField_steps success with ⟨-, same, rfl⟩ | ⟨-, rfl, rfl⟩
  · exact ⟨.refl _, same⟩
  · refine ⟨⟨id, fun here => getElem?_append_of_eq_some here _, id⟩, ?_⟩
    simp [field?]

/-- A method that is found by a key has this key. -/
theorem getElem?_of_methodOfKey? {key : String} {id : MethodId}
    (found : s.methodOfKey? key = some id) : ∃ e, s.methods[id.index]? = some e ∧ e.key = key := by
  obtain ⟨i, first, rfl⟩ := Option.map_eq_some_iff.mp found
  obtain ⟨below, same, -⟩ := List.findIdx?_eq_some_iff_getElem.mp first
  exact ⟨_, List.getElem?_eq_getElem below, eq_of_beq same⟩

/-- A declared method is found by its handle, with its identity for a key. -/
theorem declareMethod_eq_ok {m : MethodDef} {id : MethodId}
    (success : s.declareMethod m = .ok (id, s')) : s.Extends s' ∧ ∃ e,
      s'.methods[id.index]? = some e ∧ e.key = s.identity "," m ∧ e.signature.ret = m.ret ∧
        e.signature.isStatic = m.isStatic := by
  rcases declareMethod_steps success with ⟨old, found, declared, ret, static, rfl⟩ | ⟨-, rfl, rfl⟩
  · obtain ⟨e, here, key⟩ := getElem?_of_methodOfKey? found
    have signed := congrArg (Option.map MethodEntry.signature) here
    obtain rfl := Option.some.inj (declared.symm.trans signed)
    exact ⟨.refl _, e, here, key, ret, static⟩
  · refine ⟨⟨id, id, fun here => getElem?_append_of_eq_some here _⟩,
      ⟨m, s.identity "," m⟩, ?_, rfl, rfl, rfl⟩
    simp

end SymbolTable

/-! ### Steps that declare -/

namespace Declaring

variable {ε δ α β : Type} {s s' : SymbolTable}

theorem runOn_bind_eq_ok {step : Declaring ε α} {next : α → Declaring ε β} {b : β}
    (success : (step >>= next).runOn s = (.ok b, s')) :
    ∃ a middle, step.runOn s = (.ok a, middle) ∧ (next a).runOn middle = (.ok b, s') := by
  have unfolded : (step >>= next).runOn s =
      (ExceptT.bindCont next (step.runOn s).1 : StateM SymbolTable (Except ε β)).run
        (step.runOn s).2 := rfl
  rw [unfolded] at success
  cases first : step.runOn s with
  | mk result middle =>
      rw [first] at success
      cases result with
      | error e => cases success
      | ok a => exact ⟨a, middle, rfl, success⟩

theorem runOn_lift_eq_ok {wrap : SymbolError → ε}
    {declare : SymbolTable → Except SymbolError (α × SymbolTable)} {a : α}
    (success : (lift wrap declare).runOn s = (.ok a, s')) : declare s = .ok (a, s') := by
  obtain ⟨here, middle, first, success⟩ := runOn_bind_eq_ok success
  cases first
  split at success
  · next found =>
      cases success
      exact found
  · cases success

theorem runOn_type_eq_ok {name : String} {id : TypeId}
    (success : (type name : Declaring ε TypeId).runOn s = (.ok id, s')) :
    s.Extends s' ∧ s'.typeNames[id.index]? = some name := by
  cases success
  exact s.internType_extends name

theorem runOn_types_eq_ok {names : List String} {ids : List TypeId}
    (success : (types names : Declaring ε (List TypeId)).runOn s = (.ok ids, s')) :
    s.Extends s' ∧ ids.map s'.typeName = names := by
  cases success
  exact s.internTypes_extends names

theorem runOn_adapt_eq_ok {f : ε → δ} {step : Declaring ε α} {a : α}
    (success : runOn (ExceptT.adapt f step) s = (.ok a, s')) : step.runOn s = (.ok a, s') := by
  have unfolded : runOn (ExceptT.adapt f step) s =
      ((step.runOn s).1.mapError f, (step.runOn s).2) := rfl
  rw [unfolded] at success
  obtain ⟨result, table⟩ := Prod.mk.inj success
  exact Prod.ext (Except.mapError_eq_ok.mp result) table

/-- What holds of no steps, and of one step in front of others if it holds of those, holds of a list
    of steps. -/
theorem runOn_mapM_induction (holds : SymbolTable → List α → List β → SymbolTable → Prop)
    {step : α → Declaring ε β} (nil : ∀ s, holds s [] [] s)
    (cons : ∀ {s m s' a b as bs}, (step a).runOn s = (.ok b, m) → holds m as bs s' →
      holds s (a :: as) (b :: bs) s')
    {as : List α} {bs : List β} (success : (as.mapM step).runOn s = (.ok bs, s')) :
    holds s as bs s' := by
  induction as generalizing s bs with
  | nil =>
      cases success
      exact nil _
  | cons a rest ih =>
      rw [List.mapM_cons] at success
      obtain ⟨b, middle, first, success⟩ := runOn_bind_eq_ok success
      obtain ⟨others, last, later, success⟩ := runOn_bind_eq_ok success
      cases success
      exact cons first (ih later)

/-- A list of steps relates each result to what it was made from as one step does, if declarations
    keep that. -/
theorem runOn_mapM_forall₂ (known : SymbolTable → α → β → Prop) {step : α → Declaring ε β}
    (keeps : ∀ {s s' a b}, s.Extends s' → known s a b → known s' a b)
    (gives : ∀ {s s' a b}, (step a).runOn s = (.ok b, s') → s.Extends s' ∧ known s' a b)
    {as : List α} {bs : List β} (success : (as.mapM step).runOn s = (.ok bs, s')) :
    s.Extends s' ∧ List.Forall₂ (known s') as bs := by
  refine runOn_mapM_induction (fun s as bs s' => s.Extends s' ∧ List.Forall₂ (known s') as bs)
    (fun s => ⟨.refl s, .nil⟩) (fun first later => ?_) success
  obtain ⟨grown, here⟩ := gives first
  obtain ⟨grown', there⟩ := later
  exact ⟨grown.trans grown', .cons (keeps grown' here) there⟩

/-- Every result of a list of steps has what one step gives its result, if declarations keep it. -/
theorem runOn_mapM_eq_ok (known : SymbolTable → β → Prop) {step : α → Declaring ε β}
    (keeps : ∀ {s s' b}, s.Extends s' → known s b → known s' b)
    (gives : ∀ {s s' a b}, (step a).runOn s = (.ok b, s') → s.Extends s' ∧ known s' b)
    {as : List α} {bs : List β} (success : (as.mapM step).runOn s = (.ok bs, s')) :
    s.Extends s' ∧ ∀ b ∈ bs, known s' b := by
  obtain ⟨grown, pairs⟩ := runOn_mapM_forall₂ (fun s _ => known s) keeps gives success
  refine ⟨grown, fun b member => ?_⟩
  obtain ⟨-, -, here⟩ := exists_of_mem_left pairs.flip member
  exact here

end Declaring

/-! ### The event contract -/

/-- The handles of an event class name its fields, which belong to instances, and its constructor,
    which returns nothing. -/
structure EventClass.DeclaredIn (c : EventClass) (s : SymbolTable) : Prop where
  fields : ∀ e ∈ c.fields, ∃ d, s.field? e.2 = some d ∧ d.name = e.1.name ∧ d.isStatic = false
  constructor : ∃ e, s.methods[c.constructor.index]? = some e ∧ e.key =
    EventContract.identityOf c.kind.className ".ctor"
      (c.kind.constructorFields.map PayloadField.typeName) ∧ e.signature.ret = none

/-- The handles of a contract name its classes and the dispatch method, which is static and returns
    nothing. -/
structure EventContract.DeclaredIn (contract : EventContract) (s : SymbolTable) : Prop where
  kinds : ∀ k, (contract.eventClass k).kind = k
  classes : ∀ k, (contract.eventClass k).DeclaredIn s
  dispatch : ∃ e, s.methods[contract.dispatch.index]? = some e ∧
    e.key = identityOf busName dispatchName ["string", "object"] ∧ e.signature.ret = none ∧
      e.signature.isStatic = true

theorem EventClass.DeclaredIn.grow {c : EventClass} {s s' : SymbolTable}
    (declared : c.DeclaredIn s) (grown : s.Extends s') : c.DeclaredIn s' where
  fields := fun e member => by
    obtain ⟨d, here, name⟩ := declared.fields e member
    exact ⟨d, grown.field? here, name⟩
  constructor := by
    obtain ⟨e, here, key⟩ := declared.constructor
    exact ⟨e, grown.methods here, key⟩

namespace EventContract

variable {s s' : SymbolTable}

theorem DeclaredIn.grow {contract : EventContract} (declared : contract.DeclaredIn s)
    (grown : s.Extends s') : contract.DeclaredIn s' where
  kinds := declared.kinds
  classes := fun k => (declared.classes k).grow grown
  dispatch := by
    obtain ⟨e, here, key⟩ := declared.dispatch
    exact ⟨e, grown.methods here, key⟩

/-- Declaring a field of an event class interns its type first. -/
theorem declareField_steps {owner : TypeId} {f : PayloadField} {e : PayloadField × FieldId}
    (success : (declareField owner f).runOn s = (.ok e, s')) : e.1 = f ∧ ∃ type s₁,
      (Declaring.type f.typeName : Declaring SymbolError TypeId).runOn s = (.ok type, s₁) ∧
      s₁.declareField ⟨owner, f.name, type, false⟩ = .ok (e.2, s') := by
  obtain ⟨type, s₁, typed, success⟩ := Declaring.runOn_bind_eq_ok success
  obtain ⟨id, s₂, lifted, success⟩ := Declaring.runOn_bind_eq_ok success
  cases success
  exact ⟨rfl, type, s₁, typed, Declaring.runOn_lift_eq_ok lifted⟩

/-- Declaring an event class declares its type, its fields and its constructor. -/
theorem declareClass_steps {kind : PayloadKind} {c : EventClass}
    (success : (declareClass kind).runOn s = (.ok c, s')) : c.kind = kind ∧ ∃ params s₁ s₂ s₃,
      (Declaring.type kind.className : Declaring SymbolError TypeId).runOn s = (.ok c.type, s₁) ∧
      (kind.fields.mapM (declareField c.type)).runOn s₁ = (.ok c.fields, s₂) ∧
      (Declaring.types (kind.constructorFields.map PayloadField.typeName) :
        Declaring SymbolError (List TypeId)).runOn s₂ = (.ok params, s₃) ∧
      s₃.declareMethod ⟨c.type, ".ctor", params, none, false⟩ = .ok (c.constructor, s') := by
  obtain ⟨type, s₁, typed, success⟩ := Declaring.runOn_bind_eq_ok success
  obtain ⟨fields, s₂, mapped, success⟩ := Declaring.runOn_bind_eq_ok success
  obtain ⟨params, s₃, listed, success⟩ := Declaring.runOn_bind_eq_ok success
  obtain ⟨constructor, s₄, lifted, success⟩ := Declaring.runOn_bind_eq_ok success
  cases success
  exact ⟨rfl, params, s₁, s₂, s₃, typed, mapped, listed, Declaring.runOn_lift_eq_ok lifted⟩

/-- Declaring the contract declares two types, the classes by kind, and the bus with its method. -/
theorem declare_steps {contract : EventContract}
    (success : declare.runOn s = (.ok contract, s')) : ∃ string object s₁ s₂ s₃ s₄ s₅ s₆ s₇,
      (Declaring.type "string" : Declaring SymbolError TypeId).runOn s = (.ok string, s₁) ∧
      (Declaring.type "object" : Declaring SymbolError TypeId).runOn s₁ = (.ok object, s₂) ∧
      (declareClass .action).runOn s₂ = (.ok contract.action, s₃) ∧
      (declareClass .targeted).runOn s₃ = (.ok contract.targeted, s₄) ∧
      (declareClass .amount).runOn s₄ = (.ok contract.amount, s₅) ∧
      (declareClass .substitute).runOn s₅ = (.ok contract.substitute, s₆) ∧
      (Declaring.type busName : Declaring SymbolError TypeId).runOn s₆ = (.ok contract.bus, s₇) ∧
      s₇.declareMethod ⟨contract.bus, dispatchName, [string, object], none, true⟩ =
        .ok (contract.dispatch, s') := by
  obtain ⟨string, s₁, first, success⟩ := Declaring.runOn_bind_eq_ok success
  obtain ⟨object, s₂, second, success⟩ := Declaring.runOn_bind_eq_ok success
  obtain ⟨action, s₃, third, success⟩ := Declaring.runOn_bind_eq_ok success
  obtain ⟨targeted, s₄, fourth, success⟩ := Declaring.runOn_bind_eq_ok success
  obtain ⟨amount, s₅, fifth, success⟩ := Declaring.runOn_bind_eq_ok success
  obtain ⟨substitute, s₆, sixth, success⟩ := Declaring.runOn_bind_eq_ok success
  obtain ⟨bus, s₇, seventh, success⟩ := Declaring.runOn_bind_eq_ok success
  obtain ⟨dispatch, s₈, lifted, success⟩ := Declaring.runOn_bind_eq_ok success
  cases success
  exact ⟨string, object, s₁, s₂, s₃, s₄, s₅, s₆, s₇, first, second, third, fourth, fifth, sixth,
    seventh, Declaring.runOn_lift_eq_ok lifted⟩

theorem declareField_runOn {owner : TypeId} {f : PayloadField} {e : PayloadField × FieldId}
    (success : (declareField owner f).runOn s = (.ok e, s')) :
    s.Extends s' ∧ ∃ d, s'.field? e.2 = some d ∧ d.name = e.1.name ∧ d.isStatic = false := by
  obtain ⟨rfl, type, s₁, typed, declared⟩ := declareField_steps success
  obtain ⟨grown, here⟩ := SymbolTable.declareField_eq_ok declared
  exact ⟨(Declaring.runOn_type_eq_ok typed).1.trans grown, _, here, rfl, rfl⟩

theorem declareClass_runOn {kind : PayloadKind} {c : EventClass}
    (success : (declareClass kind).runOn s = (.ok c, s')) :
    s.Extends s' ∧ c.kind = kind ∧ c.DeclaredIn s' := by
  obtain ⟨rfl, params, s₁, s₂, s₃, typed, mapped, listed, declared⟩ := declareClass_steps success
  obtain ⟨toFields, here⟩ := Declaring.runOn_type_eq_ok typed
  obtain ⟨toParams, names⟩ := Declaring.runOn_mapM_eq_ok
    (fun s e => ∃ d, s.field? e.2 = some d ∧ d.name = e.1.name ∧ d.isStatic = false)
    (fun grown declared => by
      obtain ⟨d, here, name⟩ := declared
      exact ⟨d, grown.field? here, name⟩)
    declareField_runOn mapped
  obtain ⟨toMethod, types⟩ := Declaring.runOn_types_eq_ok listed
  obtain ⟨toEnd, e, method, key, ret, -⟩ := SymbolTable.declareMethod_eq_ok declared
  have owner := SymbolTable.typeName_eq (toMethod.types (toParams.types here))
  refine ⟨toFields.trans (toParams.trans (toMethod.trans toEnd)), rfl, ?_, e, method, ?_, ret⟩
  · intro entry member
    obtain ⟨d, declared, name⟩ := names entry member
    exact ⟨d, toEnd.field? (toMethod.field? declared), name⟩
  · rw [key]
    unfold SymbolTable.identity identityOf
    simp only [owner, types]

/-- Declaring the contract only adds symbols, and leaves behind what its handles name. -/
theorem declare_runOn {contract : EventContract}
    (success : declare.runOn s = (.ok contract, s')) :
    s.Extends s' ∧ contract.DeclaredIn s' := by
  obtain ⟨string, object, s₁, s₂, s₃, s₄, s₅, s₆, s₇, first, second, third, fourth, fifth, sixth,
    seventh, declared⟩ := declare_steps success
  obtain ⟨toString, stringHere⟩ := Declaring.runOn_type_eq_ok first
  obtain ⟨toObject, objectHere⟩ := Declaring.runOn_type_eq_ok second
  obtain ⟨toAction, kind₁, class₁⟩ := declareClass_runOn third
  obtain ⟨toTargeted, kind₂, class₂⟩ := declareClass_runOn fourth
  obtain ⟨toAmount, kind₃, class₃⟩ := declareClass_runOn fifth
  obtain ⟨toSubstitute, kind₄, class₄⟩ := declareClass_runOn sixth
  obtain ⟨toBus, busHere⟩ := Declaring.runOn_type_eq_ok seventh
  obtain ⟨toEnd, e, method, key, ret⟩ := SymbolTable.declareMethod_eq_ok declared
  have later := toAction.trans (toTargeted.trans (toAmount.trans (toSubstitute.trans toBus)))
  have objectName := SymbolTable.typeName_eq (later.types objectHere)
  have stringName := SymbolTable.typeName_eq (later.types (toObject.types stringHere))
  refine ⟨toString.trans (toObject.trans (later.trans toEnd)), ?_, ?_, e, method, ?_, ret⟩
  · intro k
    cases k
    · exact kind₁
    · exact kind₂
    · exact kind₃
    · exact kind₄
  · intro k
    cases k
    · exact class₁.grow (toTargeted.trans (toAmount.trans (toSubstitute.trans (toBus.trans toEnd))))
    · exact class₂.grow (toAmount.trans (toSubstitute.trans (toBus.trans toEnd)))
    · exact class₃.grow (toSubstitute.trans (toBus.trans toEnd))
    · exact class₄.grow (toBus.trans toEnd)
  · rw [key]
    unfold SymbolTable.identity identityOf
    simp only [SymbolTable.typeName_eq busHere, List.map_cons, List.map_nil, objectName,
      stringName]

namespace DeclaredIn

variable {contract : EventContract} (declared : contract.DeclaredIn s)
include declared

theorem dispatch_void {d : MethodDef} (found : s.method? contract.dispatch = some d) :
    d.ret = none := by
  obtain ⟨e, here, -, void, -⟩ := declared.dispatch
  have signature : s.method? contract.dispatch = some e.signature :=
    congrArg (Option.map MethodEntry.signature) here
  obtain rfl := Option.some.inj (found.symm.trans signature)
  exact void

theorem constructor_void {k : PayloadKind} {d : MethodDef}
    (found : s.method? (contract.eventClass k).constructor = some d) : d.ret = none := by
  obtain ⟨e, here, -, void⟩ := (declared.classes k).constructor
  have signature : s.method? (contract.eventClass k).constructor = some e.signature :=
    congrArg (Option.map MethodEntry.signature) here
  obtain rfl := Option.some.inj (found.symm.trans signature)
  exact void

theorem constructor_ne_dispatch (k : PayloadKind) :
    (contract.eventClass k).constructor ≠ contract.dispatch := by
  intro same
  obtain ⟨e, here, key, -⟩ := (declared.classes k).constructor
  obtain ⟨e', here', key', -⟩ := declared.dispatch
  rw [same] at here
  obtain rfl := Option.some.inj (here.symm.trans here')
  rw [key, declared.kinds k] at key'
  revert key'
  cases k <;> decide

theorem constructor_inj {k k' : PayloadKind}
    (same : (contract.eventClass k).constructor = (contract.eventClass k').constructor) :
    k = k' := by
  obtain ⟨e, here, key, -⟩ := (declared.classes k).constructor
  obtain ⟨e', here', key', -⟩ := (declared.classes k').constructor
  rw [same] at here
  obtain rfl := Option.some.inj (here.symm.trans here')
  rw [key, declared.kinds k, declared.kinds k'] at key'
  revert key'
  cases k <;> cases k' <;> decide

end DeclaredIn

end EventContract

end HookSplice
