import HookSplice.Proofs.ReadSymbols

/-!
# Declarations keep tables proper

The declarations of the event contract leave a proper table proper: each class, field and method
that they add has a name of its own, which can be written down and read back.
-/

namespace HookSplice

open Event (PayloadField PayloadKind)

/-- The second table has grown from the first one, and is proper if that is. -/
structure SymbolTable.Develops (s s' : SymbolTable) : Prop where
  grown : s.Extends s'
  proper : s.Proper → s'.Proper

namespace SymbolTable

variable {s s' s'' : SymbolTable}

theorem Develops.refl (s : SymbolTable) : s.Develops s :=
  ⟨.refl s, id⟩

theorem Develops.trans (first : s.Develops s') (second : s'.Develops s'') : s.Develops s'' :=
  ⟨first.grown.trans second.grown, fun proper => second.proper (first.proper proper)⟩

theorem Widens.develops (wider : s.Widens s') : s.Develops s' :=
  ⟨wider.grown, fun proper => proper.widen wider⟩

end SymbolTable

namespace Declaring

variable {ε : Type} {s s' : SymbolTable}

theorem runOn_type_develops {name : String} (nonempty : name ≠ "") {t : TypeId}
    (success : (type name : Declaring ε TypeId).runOn s = (.ok t, s')) :
    s.Develops s' ∧ s'.hasType t ∧ s'.typeName t = name := by
  cases success
  exact ⟨(s.internType_widens nonempty).develops, s.internType_known name⟩

theorem runOn_types_develops {names : List String} (nonempty : ∀ name ∈ names, name ≠ "")
    {ts : List TypeId}
    (success : (types names : Declaring ε (List TypeId)).runOn s = (.ok ts, s')) :
    s.Develops s' ∧ ∀ t ∈ ts, s'.hasType t := by
  cases success
  exact ⟨(s.internTypes_widens nonempty).develops, s.internTypes_known names⟩

/-- A list of steps keeps what each step keeps under a condition that lasts. -/
theorem runOn_mapM_develops {α β : Type} (holds : SymbolTable → Prop) {step : α → Declaring ε β}
    (lasts : ∀ {s s'}, s.Develops s' → holds s → holds s')
    (keeps : ∀ {s s' a b}, holds s → (step a).runOn s = (.ok b, s') → s.Develops s')
    {as : List α} {bs : List β} (start : holds s)
    (success : (as.mapM step).runOn s = (.ok bs, s')) :
    s.Develops s' := by
  refine runOn_mapM_induction (fun s _ _ s' => holds s → s.Develops s')
    (fun s _ => .refl s) (fun first later start => ?_) success start
  have developed := keeps start first
  exact developed.trans (later (lasts developed start))

end Declaring

namespace EventContract

variable {s s' : SymbolTable}

theorem declareField_develops {owner : TypeId} (known : s.hasType owner) {f : PayloadField}
    {e : PayloadField × FieldId} (success : (declareField owner f).runOn s = (.ok e, s')) :
    s.Develops s' := by
  obtain ⟨-, type, s₁, typed, declared⟩ := declareField_steps success
  obtain ⟨toField, typeKnown, typeName⟩ := Declaring.runOn_type_develops
    (by cases f <;> decide) typed
  refine toField.trans ⟨(SymbolTable.declareField_eq_ok declared).1, fun proper => ?_⟩
  have named : f.name ≠ "" := by cases f <;> decide
  have other : f.typeName ≠ "static" := by cases f <;> decide
  exact proper.declareField (toField.grown.hasType known) typeKnown
    ⟨named, fun _ => by rwa [typeName]⟩ declared

theorem declareClass_develops {kind : PayloadKind} {c : EventClass}
    (success : (declareClass kind).runOn s = (.ok c, s')) :
    s.Develops s' ∧ s'.hasType c.type := by
  obtain ⟨-, params, s₁, s₂, s₃, typed, mapped, listed, declared⟩ := declareClass_steps success
  obtain ⟨toFields, known, -⟩ := Declaring.runOn_type_develops (by cases kind <;> decide) typed
  have toParams := Declaring.runOn_mapM_develops (fun s => s.hasType c.type)
    (fun developed here => developed.grown.hasType here)
    (fun here success => declareField_develops here success) known mapped
  obtain ⟨toMethod, paramsKnown⟩ := Declaring.runOn_types_develops (fun name member => by
    obtain ⟨f, -, rfl⟩ := List.mem_map.mp member
    cases f <;> decide) listed
  have owner := (toParams.trans toMethod).grown.hasType known
  have toEnd : s₃.Develops s' := by
    refine ⟨(SymbolTable.declareMethod_eq_ok declared).1, fun proper => ?_⟩
    refine proper.declareMethod (fun t member => ?_)
      ⟨show ".ctor" ≠ "" by decide, fun t returned => by cases returned⟩ declared
    rcases List.mem_cons.mp member with rfl | member
    · exact owner
    · exact paramsKnown t (by simpa using member)
  exact ⟨toFields.trans (toParams.trans (toMethod.trans toEnd)), toEnd.grown.hasType owner⟩

/-- Declaring the contract leaves a proper table proper, in which the event classes are types. -/
theorem declare_develops {contract : EventContract}
    (success : declare.runOn s = (.ok contract, s')) :
    s.Develops s' ∧ ∀ k, s'.hasType (contract.eventClass k).type := by
  obtain ⟨string, object, s₁, s₂, s₃, s₄, s₅, s₆, s₇, first, second, third, fourth, fifth, sixth,
    seventh, declared⟩ := declare_steps success
  obtain ⟨toString, stringKnown, -⟩ := Declaring.runOn_type_develops (by decide) first
  obtain ⟨toObject, objectKnown, -⟩ := Declaring.runOn_type_develops (by decide) second
  obtain ⟨toAction, actionKnown⟩ := declareClass_develops third
  obtain ⟨toTargeted, targetedKnown⟩ := declareClass_develops fourth
  obtain ⟨toAmount, amountKnown⟩ := declareClass_develops fifth
  obtain ⟨toSubstitute, substituteKnown⟩ := declareClass_develops sixth
  obtain ⟨toBus, busKnown, -⟩ := Declaring.runOn_type_develops (by decide) seventh
  have later := toAction.trans (toTargeted.trans (toAmount.trans (toSubstitute.trans toBus)))
  have toEnd : s₇.Develops s' := by
    refine ⟨(SymbolTable.declareMethod_eq_ok declared).1, fun proper => ?_⟩
    refine proper.declareMethod (fun t member => ?_)
      ⟨show dispatchName ≠ "" by decide, fun t returned => by cases returned⟩ declared
    have parts : t = contract.bus ∨ t = string ∨ t = object := by
      simpa [MethodDef.types] using member
    rcases parts with rfl | rfl | rfl
    · exact busKnown
    · exact (toObject.trans later).grown.hasType stringKnown
    · exact later.grown.hasType objectKnown
  refine ⟨toString.trans (toObject.trans (later.trans toEnd)), fun k => ?_⟩
  have afterAction := toTargeted.trans (toAmount.trans (toSubstitute.trans (toBus.trans toEnd)))
  have afterTargeted := toAmount.trans (toSubstitute.trans (toBus.trans toEnd))
  have afterAmount := toSubstitute.trans (toBus.trans toEnd)
  cases k with
  | action => exact afterAction.grown.hasType actionKnown
  | targeted => exact afterTargeted.grown.hasType targetedKnown
  | amount => exact afterAmount.grown.hasType amountKnown
  | substitute => exact (toBus.trans toEnd).grown.hasType substituteKnown

end EventContract

end HookSplice
