import HookSplice.Machine.Heap
import HookSplice.Proofs.Common

/-!
# Renamed values and heaps

Two heaps that agree up to the handles of their objects: a renaming lists the new handle of every
object of the first one.  The second heap may hold other objects, which nothing refers to from the
objects that the renaming covers.
-/

namespace HookSplice

/-- The values agree when the object with index `i` is renamed to the handle at place `i` of a
    list. -/
inductive Value.Renamed (ids : List ObjectId) : Value → Value → Prop
  | null : Renamed ids .null .null
  | int (n : Int64) : Renamed ids (.int n) (.int n)
  | text (s : String) : Renamed ids (.text s) (.text s)
  | object {id id' : ObjectId} (known : ids[id.index]? = some id') :
      Renamed ids (.object id) (.object id')

namespace Value.Renamed

variable {ids : List ObjectId} {v v' w w' : Value}

/-- New objects do not change what old values are renamed to. -/
theorem grow (same : v.Renamed ids v') (more : List ObjectId) : v.Renamed (ids ++ more) v' := by
  cases same with
  | null => exact .null
  | int n => exact .int n
  | text s => exact .text s
  | object known => exact .object (getElem?_append_of_eq_some known more)

theorem isTruthy_eq (same : v.Renamed ids v') : v'.isTruthy = v.isTruthy := by
  cases same <;> rfl

theorem ofBool (b : Bool) : (Value.ofBool b).Renamed ids (.ofBool b) :=
  .int _

/-- Equality survives a renaming that gives each object a handle of its own. -/
theorem beq_eq (distinct : ids.Nodup) (first : v.Renamed ids v') (second : w.Renamed ids w') :
    (v' == w') = (v == w) := by
  rw [Bool.eq_iff_iff, beq_iff_eq, beq_iff_eq]
  cases first with
  | object known =>
      cases second with
      | object known' =>
          rename_i a a' b b'
          simp only [Value.object.injEq]
          constructor
          · rintro rfl
            have below := (List.getElem?_eq_some_iff.mp known).1
            have index := (List.getElem?_inj below distinct).mp (known.trans known'.symm)
            cases a
            cases b
            exact congrArg ObjectId.mk index
          · rintro rfl
            exact Option.some.inj (known.symm.trans known')
      | _ => simp
  | _ => cases second <;> simp

end Value.Renamed

/-- The fields agree, those not written included. -/
def FieldStore.Renamed (ids : List ObjectId) (fields fields' : FieldStore) : Prop :=
  ∀ field, (fields.load field).Renamed ids (fields'.load field)

namespace FieldStore.Renamed

variable {ids : List ObjectId} {fields fields' : FieldStore}

theorem grow (same : fields.Renamed ids fields') (more : List ObjectId) :
    fields.Renamed (ids ++ more) fields' :=
  fun field => (same field).grow more

theorem empty : FieldStore.Renamed ids [] [] :=
  fun _ => .null

theorem store (same : fields.Renamed ids fields') (field : FieldId) {v v' : Value}
    (values : v.Renamed ids v') : (fields.store field v).Renamed ids (fields'.store field v') := by
  intro other
  by_cases equal : other = field
  · subst equal
    rw [load_store_self, load_store_self]
    exact values
  · rw [load_store_of_ne _ _ equal, load_store_of_ne _ _ equal]
    exact same other

end FieldStore.Renamed

/-- The objects of one heap appear in the other one under their new handles, each once, and the
    static fields agree. -/
structure Heap.Renamed (ids : List ObjectId) (h h' : Heap) : Prop where
  distinct : ids.Nodup
  length : ids.length = h.size
  objects : ∀ {id id' : ObjectId} {o : Object}, ids[id.index]? = some id' →
    h.object? id = some o → ∃ o', h'.object? id' = some o' ∧ o'.type = o.type ∧
      o.fields.Renamed ids o'.fields
  statics : h.statics.Renamed ids h'.statics

namespace Heap

theorem storeField?_eq_some_iff {h h' : Heap} {id : ObjectId} {field : FieldId} {v : Value} :
    h.storeField? id field v = some h' ↔ id.index < h.objects.size ∧ h' = { h with
      objects := h.objects.modify id.index fun o =>
        { o with fields := o.fields.store field v } } := by
  unfold storeField?
  split
  · next below => simp only [below, true_and, Option.some.injEq, eq_comm]
  · next beyond => simp [beyond]

theorem object?_store {h h' : Heap} {id : ObjectId} {field : FieldId} {v : Value}
    (stored : h.storeField? id field v = some h') (other : ObjectId) :
    h'.object? other = if other = id then
      (h.object? id).map fun o => { o with fields := o.fields.store field v }
      else h.object? other := by
  obtain ⟨-, rfl⟩ := storeField?_eq_some_iff.mp stored
  unfold object?
  rw [Array.getElem?_modify]
  by_cases equal : other = id
  · simp [equal]
  · have index : id.index ≠ other.index := by
      intro same
      apply equal
      cases other
      cases id
      exact congrArg ObjectId.mk same.symm
    rw [if_neg index, if_neg equal]

theorem storeField?_statics {h h' : Heap} {id : ObjectId} {field : FieldId} {v : Value}
    (stored : h.storeField? id field v = some h') : h'.statics = h.statics ∧ h'.size = h.size := by
  obtain ⟨-, rfl⟩ := storeField?_eq_some_iff.mp stored
  exact ⟨rfl, Array.size_modify⟩

theorem storeFields?_cons (h : Heap) (id : ObjectId) (field : FieldId) (v : Value)
    (rest : List (FieldId × Value)) : h.storeFields? id ((field, v) :: rest) =
      (h.storeField? id field v).bind fun h => h.storeFields? id rest :=
  rfl

theorem object?_alloc (h : Heap) (type : TypeId) (id : ObjectId) :
    (h.alloc type).2.object? id =
      if id = (h.alloc type).1 then some ⟨type, []⟩ else h.object? id := by
  unfold alloc object?
  rw [Array.getElem?_push]
  by_cases equal : id.index = h.objects.size
  · have same : id = ⟨h.objects.size⟩ := by
      cases id
      exact congrArg ObjectId.mk equal
    rw [if_pos equal, if_pos same]
  · have differs : id ≠ ⟨h.objects.size⟩ := by
      rintro rfl
      exact equal rfl
    rw [if_neg equal, if_neg differs]

theorem object?_lt {h : Heap} {id : ObjectId} {o : Object} (found : h.object? id = some o) :
    id.index < h.size :=
  (Array.getElem?_eq_some_iff.mp found).1

namespace Renamed

variable {ids : List ObjectId} {h h' : Heap}

/-- A renamed handle refers to an object in both heaps. -/
theorem object? (same : h.Renamed ids h') {id id' : ObjectId} (known : ids[id.index]? = some id') :
    ∃ o o', h.object? id = some o ∧ h'.object? id' = some o' ∧ o'.type = o.type ∧
      o.fields.Renamed ids o'.fields := by
  have below := (List.getElem?_eq_some_iff.mp known).1
  rw [same.length] at below
  have found : h.object? id = some h.objects[id.index] := Array.getElem?_eq_getElem below
  obtain ⟨o', rest⟩ := same.objects known found
  exact ⟨_, o', found, rest⟩

theorem mem_lt (same : h.Renamed ids h') {id' : ObjectId} (member : id' ∈ ids) :
    id'.index < h'.size := by
  obtain ⟨i, here⟩ := List.mem_iff_getElem?.mp member
  have known : ids[(ObjectId.mk i).index]? = some id' := here
  obtain ⟨-, o', -, found, -⟩ := same.object? known
  exact object?_lt found

theorem fresh_not_mem (same : h.Renamed ids h') (type : TypeId) : (h'.alloc type).1 ∉ ids :=
  fun member => Nat.lt_irrefl _ (same.mem_lt member)

/-- Both heaps make an object, which the renaming then covers. -/
theorem alloc (same : h.Renamed ids h') (type : TypeId) :
    (h.alloc type).2.Renamed (ids ++ [(h'.alloc type).1]) (h'.alloc type).2 ∧
      (ids ++ [(h'.alloc type).1])[(h.alloc type).1.index]? = some (h'.alloc type).1 := by
  have new : (h.alloc type).1.index = ids.length := same.length.symm
  refine ⟨⟨?_, ?_, fun {id id' o} known found => ?_, same.statics.grow _⟩, ?_⟩
  · refine List.nodup_append.mpr ⟨same.distinct, by simp, fun a old b fresh equal => ?_⟩
    obtain rfl := List.mem_singleton.mp fresh
    exact same.fresh_not_mem type (equal ▸ old)
  · have size : (h.alloc type).2.size = h.size + 1 := Array.size_push ..
    rw [List.length_append, same.length, size]
    rfl
  · rw [object?_alloc] at found
    rw [object?_alloc]
    split at found
    · next equal =>
        cases found
        rw [equal, new, List.getElem?_append_right (Nat.le_refl _), Nat.sub_self] at known
        cases known
        rw [if_pos rfl]
        exact ⟨_, rfl, rfl, .empty⟩
    · next differs =>
        have below : id.index < ids.length := by
          rw [same.length]
          exact object?_lt found
        rw [List.getElem?_append_left below] at known
        obtain ⟨o', found', type', fields⟩ := same.objects known found
        rw [if_neg, found']
        · exact ⟨o', rfl, type', fields.grow _⟩
        · rintro rfl
          exact same.fresh_not_mem type (List.mem_of_getElem? known)
  · rw [new, List.getElem?_append_right (Nat.le_refl _), Nat.sub_self]
    rfl

/-- An object more in the second heap makes no difference. -/
theorem alloc_apart (same : h.Renamed ids h') (type : TypeId) :
    h.Renamed ids (h'.alloc type).2 where
  distinct := same.distinct
  length := same.length
  objects := fun {id id' o} known found => by
    rw [object?_alloc, if_neg]
    · exact same.objects known found
    · rintro rfl
      exact same.fresh_not_mem type (List.mem_of_getElem? known)
  statics := same.statics

theorem loadField? (same : h.Renamed ids h') {id id' : ObjectId}
    (known : ids[id.index]? = some id') (field : FieldId) : ∃ v v', h.loadField? id field = some v ∧
      h'.loadField? id' field = some v' ∧ v.Renamed ids v' := by
  obtain ⟨o, o', found, found', -, fields⟩ := same.object? known
  refine ⟨o.fields.load field, o'.fields.load field, ?_, ?_, fields field⟩
  · rw [Heap.loadField?, found]
    rfl
  · rw [Heap.loadField?, found']
    rfl

theorem storeField? (same : h.Renamed ids h') {id id' : ObjectId}
    (known : ids[id.index]? = some id') (field : FieldId) {v v' : Value}
    (values : v.Renamed ids v') : ∃ k k', h.storeField? id field v = some k ∧
      h'.storeField? id' field v' = some k' ∧ k.Renamed ids k' := by
  obtain ⟨o, o', found, found', -⟩ := same.object? known
  obtain ⟨k, stored⟩ : ∃ k, h.storeField? id field v = some k :=
    ⟨_, if_pos (object?_lt found)⟩
  obtain ⟨k', stored'⟩ : ∃ k', h'.storeField? id' field v' = some k' :=
    ⟨_, if_pos (object?_lt found')⟩
  refine ⟨k, k', stored, stored', same.distinct, ?_, fun {other other' p} names there => ?_, ?_⟩
  · rw [same.length, (storeField?_statics stored).2]
  · rw [object?_store stored] at there
    rw [object?_store stored']
    split at there
    · next equal =>
        subst equal
        obtain rfl := Option.some.inj (known.symm.trans names)
        rw [found] at there
        cases there
        obtain ⟨p', there', type, fields⟩ := same.objects known found
        rw [if_pos rfl, there']
        exact ⟨_, rfl, type, fields.store field values⟩
    · next differs =>
        rw [if_neg]
        · exact same.objects names there
        · rintro rfl
          have below := (List.getElem?_eq_some_iff.mp names).1
          have index := (List.getElem?_inj below same.distinct).mp (names.trans known.symm)
          apply differs
          cases other
          cases id
          exact congrArg ObjectId.mk index
  · rw [(storeField?_statics stored).1, (storeField?_statics stored').1]
    exact same.statics

/-- Writing to an object that the renaming does not cover makes no difference. -/
theorem storeField?_apart (same : h.Renamed ids h') {id : ObjectId} (apart : id ∉ ids)
    {field : FieldId} {v : Value} {k' : Heap} (stored : h'.storeField? id field v = some k') :
    h.Renamed ids k' where
  distinct := same.distinct
  length := same.length
  objects := fun {other other' o} known found => by
    rw [object?_store stored, if_neg]
    · exact same.objects known found
    · rintro rfl
      exact apart (List.mem_of_getElem? known)
  statics := by
    rw [(storeField?_statics stored).1]
    exact same.statics

theorem storeFields? (same : h.Renamed ids h') {id id' : ObjectId}
    (known : ids[id.index]? = some id') {entries entries' : List (FieldId × Value)}
    (values : List.Forall₂ (fun e e' => e'.1 = e.1 ∧ e.2.Renamed ids e'.2) entries entries') :
    ∃ k k', h.storeFields? id entries = some k ∧ h'.storeFields? id' entries' = some k' ∧
      k.Renamed ids k' := by
  induction values generalizing h h' with
  | nil => exact ⟨h, h', rfl, rfl, same⟩
  | @cons e e' rest rest' first _ ih =>
      obtain ⟨field, v⟩ := e
      obtain ⟨field', v'⟩ := e'
      have equal : field' = field := first.1
      have value : v.Renamed ids v' := first.2
      subst equal
      obtain ⟨k, k', stored, stored', next⟩ := same.storeField? known field' value
      obtain ⟨l, l', later, later', final⟩ := ih next
      refine ⟨l, l', ?_, ?_, final⟩
      · rw [storeFields?_cons, stored]
        exact later
      · rw [storeFields?_cons, stored']
        exact later'

theorem storeFields?_apart (same : h.Renamed ids h') {id : ObjectId} (apart : id ∉ ids)
    {entries : List (FieldId × Value)} {k' : Heap}
    (stored : h'.storeFields? id entries = some k') : h.Renamed ids k' := by
  induction entries generalizing h' with
  | nil =>
      cases stored
      exact same
  | cons e rest ih =>
      obtain ⟨field, v⟩ := e
      rw [storeFields?_cons] at stored
      obtain ⟨next, first, later⟩ := Option.bind_eq_some_iff.mp stored
      exact ih (same.storeField?_apart apart first) later

theorem storeStatic (same : h.Renamed ids h') (field : FieldId) {v v' : Value}
    (values : v.Renamed ids v') :
    (h.storeStatic field v).Renamed ids (h'.storeStatic field v') where
  distinct := same.distinct
  length := same.length
  objects := fun known found => same.objects known found
  statics := same.statics.store field values

end Renamed

/-! ### Heaps without dangling handles -/

/-- The handles of all objects. -/
def handles (h : Heap) : List ObjectId :=
  (List.range h.size).map ObjectId.mk

end Heap

/-- The value is no handle of an object that does not exist. -/
def Value.ValidIn (h : Heap) : Value → Prop
  | .object id => id.index < h.size
  | _ => True

/-- Nothing in the heap refers to an object that does not exist. -/
structure Heap.Closed (h : Heap) : Prop where
  objects : ∀ {id : ObjectId} {o : Object}, h.object? id = some o →
    ∀ field, (o.fields.load field).ValidIn h
  statics : ∀ field, (h.loadStatic field).ValidIn h

namespace Heap

theorem handles_getElem? {h : Heap} {id : ObjectId} (below : id.index < h.size) :
    h.handles[id.index]? = some id := by
  unfold handles
  rw [List.getElem?_map, List.getElem?_range below]
  rfl

theorem renamed_of_validIn {h : Heap} {v : Value} (valid : v.ValidIn h) :
    v.Renamed h.handles v := by
  cases v with
  | null => exact .null
  | int n => exact .int n
  | text s => exact .text s
  | object id => exact .object (handles_getElem? valid)

/-- Every handle may stay as it is. -/
theorem Closed.renamed {h : Heap} (closed : h.Closed) : h.Renamed h.handles h where
  distinct := List.Pairwise.map _ (fun _ _ differs equal => differs (ObjectId.mk.inj equal))
    List.nodup_range
  length := by rw [handles, List.length_map, List.length_range]
  objects := fun {id id' o} known found => by
    rw [handles_getElem? (object?_lt found)] at known
    cases known
    refine ⟨o, found, rfl, ?_⟩
    intro field
    exact renamed_of_validIn (closed.objects found field)
  statics := fun field => renamed_of_validIn (closed.statics field)

end Heap

end HookSplice
