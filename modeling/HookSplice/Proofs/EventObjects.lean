import HookSplice.Proofs.EventSimulation

/-!
# Event objects

The constructor of an event class marks a new event as allowed, and a dispatch that leaves the
payload allowed leaves the mark on the object.  Neither writes to any other object.
-/

namespace HookSplice

open Event (BusState Payload PayloadField PayloadKind)

/-! ### Fields that were written -/

namespace Heap

theorem loadField?_store {h k : Heap} {id : ObjectId} {field : FieldId} {v : Value}
    (stored : h.storeField? id field v = some k) (other : FieldId) :
    k.loadField? id other = if other = field then some v else h.loadField? id other := by
  obtain ⟨o, found⟩ : ∃ o, h.object? id = some o :=
    ⟨_, Array.getElem?_eq_getElem (storeField?_eq_some_iff.mp stored).1⟩
  unfold loadField?
  rw [object?_store stored, if_pos rfl, found]
  simp only [Option.map_some]
  split
  · next equal => rw [equal, FieldStore.load_store_self]
  · next differs => rw [FieldStore.load_store_of_ne _ _ differs]

theorem loadField?_storeFields_of_not_mem {h k : Heap} {id : ObjectId}
    {entries : List (FieldId × Value)} (stored : h.storeFields? id entries = some k)
    {field : FieldId} (absent : field ∉ entries.map Prod.fst) :
    k.loadField? id field = h.loadField? id field := by
  induction entries generalizing h with
  | nil =>
      cases stored
      rfl
  | cons e rest ih =>
      obtain ⟨other, v⟩ := e
      rw [storeFields?_cons] at stored
      obtain ⟨next, first, later⟩ := Option.bind_eq_some_iff.mp stored
      rw [List.map_cons, List.mem_cons, not_or] at absent
      rw [ih later absent.2, loadField?_store first, if_neg absent.1]

/-- Fields of an object stay there. -/
theorem isSome_loadField?_storeFields {h k : Heap} {id : ObjectId}
    {entries : List (FieldId × Value)} (stored : h.storeFields? id entries = some k)
    {field : FieldId} (known : (h.loadField? id field).isSome) :
    (k.loadField? id field).isSome := by
  induction entries generalizing h with
  | nil =>
      cases stored
      exact known
  | cons e rest ih =>
      obtain ⟨other, v⟩ := e
      rw [storeFields?_cons] at stored
      obtain ⟨next, first, later⟩ := Option.bind_eq_some_iff.mp stored
      refine ih later ?_
      rw [loadField?_store first]
      split
      · rfl
      · exact known

/-- The field that was written last has the value written to it. -/
theorem loadField?_storeFields_last {h k : Heap} {id : ObjectId}
    {front : List (FieldId × Value)} {field : FieldId} {v : Value}
    (stored : h.storeFields? id (front ++ [(field, v)]) = some k) :
    k.loadField? id field = some v := by
  induction front generalizing h with
  | nil =>
      rw [List.nil_append, storeFields?_cons] at stored
      obtain ⟨next, first, later⟩ := Option.bind_eq_some_iff.mp stored
      cases later
      rw [loadField?_store first, if_pos rfl]
  | cons e rest ih =>
      obtain ⟨other, w⟩ := e
      rw [List.cons_append, storeFields?_cons] at stored
      obtain ⟨next, -, later⟩ := Option.bind_eq_some_iff.mp stored
      exact ih later

theorem loadField?_alloc (h : Heap) (type : TypeId) (field : FieldId) :
    (h.alloc type).2.loadField? (h.alloc type).1 field = some .null := by
  unfold loadField?
  rw [object?_alloc, if_pos rfl]
  rfl

end Heap

namespace EventClass

variable {c : EventClass} {allowed : FieldId}

theorem entries_append (c : EventClass) (xs ys : List (PayloadField × Value)) :
    c.entries (xs ++ ys) = c.entries xs ++ c.entries ys :=
  List.filterMap_append

theorem entries_flag (known : c.field? .allowed = some allowed) (v : Value) :
    c.entries [(.allowed, v)] = [(allowed, v)] := by
  rw [entries_cons, known]
  rfl

theorem mem_entries {values : List (PayloadField × Value)} {id : FieldId}
    (member : id ∈ (c.entries values).map Prod.fst) :
    ∃ f ∈ values.map Prod.fst, (f, id) ∈ c.fields := by
  induction values with
  | nil => cases member
  | cons e rest ih =>
      obtain ⟨f, v⟩ := e
      rw [entries_cons, List.map_append, List.mem_append] at member
      rcases member with first | later
      · cases known : c.field? f with
        | none =>
            rw [known] at first
            cases first
        | some id' =>
            rw [known] at first
            obtain rfl : id = id' := by simpa using first
            exact ⟨f, List.mem_cons_self .., mem_of_lookup known⟩
      · obtain ⟨f', listed, field⟩ := ih later
        exact ⟨f', List.mem_cons_of_mem _ listed, field⟩

end EventClass

/-! ### New events -/

/-- The event object is marked as allowed, and it has no other mark of that name. -/
structure EventMarked (s : SymbolTable) (h : Heap) (object : ObjectId) (allowed : FieldId) :
    Prop where
  marked : h.loadField? object allowed = some (.ofBool true)
  only : ∀ {id : FieldId} {d : FieldDef}, s.field? id = some d →
    d.name = PayloadField.allowed.name → id ≠ allowed → h.loadField? object id = some .null

/-- A mark of another class would still be null, which is no number. -/
theorem EventMarked.own {s : SymbolTable} {h : Heap} {object : ObjectId} {allowed id : FieldId}
    (event : EventMarked s h object allowed) {d : FieldDef} (field : s.field? id = some d)
    (name : d.name = PayloadField.allowed.name) {n : Int64}
    (loaded : h.loadField? object id = some (.int n)) : id = allowed := by
  by_contra differs
  have unset := event.only field name differs
  rw [loaded] at unset
  cases unset

theorem Event.PayloadKind.name_ne_allowed (k : PayloadKind) :
    ∀ f ∈ k.constructorFields, f.name ≠ PayloadField.allowed.name := by
  cases k <;> decide

/-- A constructor that succeeds marks the new object. -/
theorem constructorNative_marked {σ : Type} {s : SymbolTable} {c : EventClass} {allowed : FieldId}
    (declared : c.DeclaredIn s) (known : c.field? .allowed = some allowed) {h : Heap} {w : σ}
    {type : TypeId} {args : List Value} {v : Option Value}
    (success : (c.constructorNative (h.alloc type).2 w
      (.object (h.alloc type).1 :: args)).result = .ok v) : ∃ k,
      (h.alloc type).2.storeFields? (h.alloc type).1 (c.initialEntries args) = some k ∧
      c.constructorNative (h.alloc type).2 w (.object (h.alloc type).1 :: args) =
        ⟨.ok none, k, w⟩ ∧ EventMarked s k (h.alloc type).1 allowed := by
  cases stored : (h.alloc type).2.storeFields? (h.alloc type).1 (c.initialEntries args) with
  | none =>
      simp only [EventClass.constructorNative, stored] at success
      cases success
  | some k =>
      refine ⟨k, rfl, by simp only [EventClass.constructorNative, stored], ?_⟩
      have entries : c.initialEntries args =
          c.entries (c.kind.constructorFields.zip args) ++ [(allowed, .ofBool true)] := by
        rw [EventClass.initialEntries, EventClass.entries_append, EventClass.entries_flag known]
      rw [entries] at stored
      refine ⟨Heap.loadField?_storeFields_last stored, fun {id d} named called differs => ?_⟩
      rw [Heap.loadField?_storeFields_of_not_mem stored, Heap.loadField?_alloc]
      rw [List.map_append, List.mem_append, not_or]
      refine ⟨fun member => ?_, by simpa using differs⟩
      obtain ⟨f, listed, field⟩ := EventClass.mem_entries member
      obtain ⟨d', named', name, -⟩ := declared.fields _ field
      obtain rfl := Option.some.inj (named.symm.trans named')
      have captured : f ∈ c.kind.constructorFields := by
        obtain ⟨e, zipped, rfl⟩ := List.mem_map.mp listed
        exact (List.of_mem_zip zipped).1
      exact PayloadKind.name_ne_allowed c.kind f captured (name.symm.trans called)

/-! ### Dispatched events -/

open EventContract

variable {ρ : Type} {h : Heap} {w : EventWorld ρ} {allowed : FieldId}

theorem readField_eq_ok {c : EventClass} {object : ObjectId} {f : PayloadField} {v : Value}
    (success : readField c h object f = .ok v) :
    ∃ id, c.field? f = some id ∧ h.loadField? object id = some v := by
  unfold readField at success
  split at success
  · cases success
  next id known =>
    split at success
    · next loaded =>
        cases success
        exact ⟨id, known, loaded⟩
    · cases success

theorem Event.Payload.kind_ofValues {k : PayloadKind} {values : List Value} {p : Payload}
    (success : Payload.ofValues k values = .ok p) : p.kind = k := by
  unfold Payload.ofValues at success
  split at success
  · cases success
    rfl
  · cases success
    rfl
  · next s v =>
      cases number : Payload.numberFor .amount v with
      | error e =>
          rw [number] at success
          cases success
      | ok n =>
          rw [number] at success
          cases success
          rfl
  · cases success
    rfl
  · cases success

/-- A payload that was read is of the kind of the class, and allowed as the object is marked. -/
theorem readPayload_eq_ok {c : EventClass} {object : ObjectId} {p : Payload}
    (success : readPayload c h object = .ok p) : p.kind = c.kind ∧
      ∃ id n, c.field? .allowed = some id ∧ h.loadField? object id = some (.int n) ∧
        p.isAllowed = (n != 0) := by
  obtain ⟨captured, -, success⟩ := Except.bind_eq_ok success
  obtain ⟨made, built, success⟩ := Except.bind_eq_ok success
  obtain ⟨v, read, success⟩ := Except.bind_eq_ok success
  obtain ⟨id, known, loaded⟩ := readField_eq_ok read
  have set := Except.mapError_eq_ok.mp success
  rw [Payload.setField_allowed] at set
  have kind := Payload.kind_ofValues (Except.mapError_eq_ok.mp built)
  cases v with
  | null | text | object => cases set
  | int n =>
      cases set
      refine ⟨?_, id, n, known, loaded, ?_⟩
      · rw [← kind]
        cases made <;> rfl
      · cases made <;> rfl

theorem Event.Payload.values_eq (p : Payload) : ∃ front,
    front.length = p.kind.constructorFields.length ∧ p.values = front ++ [.ofBool p.isAllowed] := by
  cases p with
  | action s a => exact ⟨[s], rfl, rfl⟩
  | targeted s t a => exact ⟨[s, t], rfl, rfl⟩
  | amount s n a => exact ⟨[s, .int n], rfl, rfl⟩
  | substitute s v a => exact ⟨[s, v], rfl, rfl⟩

/-- What a dispatch writes back last is the mark, if the payload has as many fields as the class. -/
theorem entries_values {c : EventClass} (known : c.field? .allowed = some allowed) {p : Payload}
    (size : p.kind.fields.length = c.kind.fields.length) : ∃ front,
      c.entries (c.kind.fields.zip p.values) = front ++ [(allowed, .ofBool p.isAllowed)] := by
  obtain ⟨front, length, values⟩ := p.values_eq
  have same : c.kind.constructorFields.length = front.length := by
    rw [length]
    simpa [PayloadKind.fields] using size.symm
  refine ⟨c.entries (c.kind.constructorFields.zip front), ?_⟩
  rw [values, PayloadKind.fields, List.zip_append same, EventClass.entries_append,
    List.zip_cons_cons, List.zip_nil_left, EventClass.entries_flag known]

theorem dispatchNative_args {contract : EventContract} {depth : Nat} {args : List Value}
    {v : Option Value} (success : (contract.dispatchNative depth h w args).result = .ok v) :
    ∃ hook object, args = [.text hook, .object object] := by
  obtain ⟨r, d, b, k, i, asked, -⟩ := dispatchNative_eq_ok contract success
  exact ⟨r.hook, r.object, (readRequest_eq_ok asked).1⟩

/-- A dispatch of a marked event raises it as allowed.  When it stays so, the object keeps its
    mark. -/
theorem dispatchNative_marked {s : SymbolTable} {contract : EventContract}
    (declared : contract.DeclaredIn s) {object : ObjectId} (event : EventMarked s h object allowed)
    {depth : Nat} {hook : String} {v : Option Value}
    (success : (contract.dispatchNative depth h w [.text hook, .object object]).result = .ok v)
    {raises : String → Prop} {related : List ObjectId → BusState ρ → BusState ρ → Prop}
    (overlooks : Event.Overlooks depth hook raises related) {ids : List ObjectId} {b : BusState ρ}
    (buses : related ids b w.bus) : ∃ entries k u, h.storeFields? object entries = some k ∧
      contract.dispatchNative depth h w [.text hook, .object object] = ⟨.ok none, k, u⟩ ∧
      k.loadField? object allowed = some (.ofBool true) ∧ related ids b u.bus := by
  obtain ⟨r, delivery, c, k, i, asked, came, written, -, whole⟩ :=
    dispatchNative_eq_ok contract success
  obtain ⟨shape, ⟨kind, same⟩, read⟩ := readRequest_eq_ok asked
  obtain ⟨rfl, rfl⟩ : hook = r.hook ∧ object = r.object := by simpa using shape
  obtain ⟨ofKind, id, n, known, loaded, flag⟩ := readPayload_eq_ok read
  obtain ⟨d, field, name, -⟩ := (declared.classes kind).fields (.allowed, id)
    (mem_of_lookup (same ▸ known))
  obtain rfl := event.own field name loaded
  have marked : n = 1 := by
    have marked := event.marked
    rw [loaded] at marked
    cases marked
    rfl
  have allowed : r.payload.isAllowed := by
    rw [flag, marked]
    rfl
  obtain ⟨stays, kept, buses⟩ := overlooks.apart buses allowed delivery c came
  obtain ⟨front, entries⟩ := entries_values known
    (congrArg (fun k => k.fields.length) (kept.trans ofKind))
  refine ⟨_, k, _, written, whole, ?_, buses⟩
  rw [Request.entries, entries, stays] at written
  exact Heap.loadField?_storeFields_last written

end HookSplice
