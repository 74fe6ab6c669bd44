import HookSplice.Symbols
import HookSplice.Value

/-!
# The heap

Objects addressed by handles, and the static fields.  A field that was never written reads as null.
-/

namespace HookSplice

/-- Fields with the values last written to them. -/
abbrev FieldStore := List (FieldId × Value)

namespace FieldStore

/-- The value of a field. -/
def load (fields : FieldStore) (field : FieldId) : Value :=
  (fields.lookup field).getD .null

/-- Writes a field. -/
def store : FieldStore → FieldId → Value → FieldStore
  | [], field, v => [(field, v)]
  | (f, old) :: rest, field, v =>
      if f = field then (field, v) :: rest else (f, old) :: store rest field v

theorem load_store_self (fields : FieldStore) (field : FieldId) (v : Value) :
    (fields.store field v).load field = v := by
  induction fields with
  | nil => simp [store, load]
  | cons entry rest ih =>
      obtain ⟨f, old⟩ := entry
      by_cases h : f = field
      · simp [store, load, h]
      · have h' : (field == f) = false := by simpa using fun e => h e.symm
        simp only [store, h, if_false, load, List.lookup_cons, h']
        exact ih

theorem load_store_of_ne (fields : FieldStore) {field other : FieldId} (v : Value)
    (hne : other ≠ field) : (fields.store field v).load other = fields.load other := by
  induction fields with
  | nil =>
      have h : (other == field) = false := by simpa using hne
      simp [store, load, List.lookup_cons, h]
  | cons entry rest ih =>
      obtain ⟨f, old⟩ := entry
      by_cases h : f = field
      · have h' : (other == field) = false := by simpa using hne
        simp [store, load, h, h', List.lookup_cons]
      · simp only [store, h, if_false, load, List.lookup_cons]
        cases other == f
        · exact ih
        · rfl

end FieldStore

/-- An object: its type and its fields. -/
structure Object where
  type : TypeId
  fields : FieldStore
  deriving DecidableEq

/-- The objects by handle, and the static fields. -/
structure Heap where
  objects : Array Object
  statics : FieldStore
  deriving DecidableEq

namespace Heap

/-- The heap without objects. -/
def empty : Heap := ⟨#[], []⟩

/-- A new object of a type. -/
def alloc (h : Heap) (type : TypeId) : ObjectId × Heap :=
  (⟨h.objects.size⟩, { h with objects := h.objects.push ⟨type, []⟩ })

/-- The object with a handle. -/
def object? (h : Heap) (id : ObjectId) : Option Object :=
  h.objects[id.index]?

/-- The value of a field of an object, if there is such an object. -/
def loadField? (h : Heap) (id : ObjectId) (field : FieldId) : Option Value :=
  (h.object? id).map fun o => o.fields.load field

/-- Writes a field of an object, if there is such an object. -/
def storeField? (h : Heap) (id : ObjectId) (field : FieldId) (v : Value) : Option Heap :=
  if id.index < h.objects.size then
    some { h with
      objects := h.objects.modify id.index fun o => { o with fields := o.fields.store field v } }
  else none

/-- Writes fields of an object one after the other, if there is such an object. -/
def storeFields? (h : Heap) (id : ObjectId) (fields : List (FieldId × Value)) : Option Heap :=
  fields.foldlM (fun h (field, v) => h.storeField? id field v) h

/-- The value of a static field. -/
def loadStatic (h : Heap) (field : FieldId) : Value :=
  h.statics.load field

/-- Writes a static field. -/
def storeStatic (h : Heap) (field : FieldId) (v : Value) : Heap :=
  { h with statics := h.statics.store field v }

/-- The number of objects. -/
def size (h : Heap) : Nat :=
  h.objects.size

end Heap

end HookSplice
