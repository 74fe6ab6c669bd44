import HookSplice.Proofs.RecordedExits

/-!
# Atomic dispatches

Whether a dispatch can be made is known before its first subscriber runs: the arguments, the object
and the fields are all read first, and nothing behind them can fail.  So a dispatch is either
refused with the heap, the bus and the journal as they were, or it goes to the subscribers, and once
they have come back it writes the fields of its event and makes one record.  An event that has just
been constructed is written back as it is when nobody is subscribed.
-/

namespace HookSplice

open Event (BusState Delivery Invocation InvocationRecord Payload PayloadField PayloadKind Verdict)

/-! ### Writing to one object -/

namespace Heap

variable {h k l : Heap} {object : ObjectId} {fields : List FieldId}

/-- The second heap differs from the first one in nothing but some fields of an object. -/
structure WritesOnly (object : ObjectId) (fields : List FieldId) (h k : Heap) : Prop where
  statics : k.statics = h.statics
  size : k.size = h.size
  type : (k.object? object).map Object.type = (h.object? object).map Object.type
  others : ∀ other ≠ object, k.object? other = h.object? other
  kept : ∀ field ∉ fields, k.loadField? object field = h.loadField? object field

theorem WritesOnly.refl (object : ObjectId) (fields : List FieldId) (h : Heap) :
    WritesOnly object fields h h :=
  ⟨rfl, rfl, rfl, fun _ _ => rfl, fun _ _ => rfl⟩

theorem WritesOnly.trans (first : WritesOnly object fields h k)
    (second : WritesOnly object fields k l) : WritesOnly object fields h l where
  statics := second.statics.trans first.statics
  size := second.size.trans first.size
  type := second.type.trans first.type
  others := fun other differs => (second.others other differs).trans (first.others other differs)
  kept := fun field outside => (second.kept field outside).trans (first.kept field outside)

theorem storeField?_writesOnly {field : FieldId} {v : Value}
    (stored : h.storeField? object field v = some k) (inside : field ∈ fields) :
    WritesOnly object fields h k := by
  constructor
  case statics => exact (storeField?_statics stored).1
  case size => exact (storeField?_statics stored).2
  case type =>
    rw [object?_store stored, if_pos rfl]
    cases h.object? object <;> rfl
  case others =>
    intro other differs
    rw [object?_store stored, if_neg differs]
  case kept =>
    intro other outside
    have differs : other ≠ field := by
      rintro rfl
      exact outside inside
    rw [loadField?_store stored, if_neg differs]

theorem storeFields?_writesOnly {entries : List (FieldId × Value)}
    (stored : h.storeFields? object entries = some k)
    (inside : ∀ e ∈ entries, e.1 ∈ fields) : WritesOnly object fields h k := by
  induction entries generalizing h with
  | nil =>
      cases stored
      exact .refl object fields k
  | cons e rest ih =>
      obtain ⟨field, v⟩ := e
      obtain ⟨here, later⟩ := List.forall_mem_cons.mp inside
      rw [storeFields?_cons] at stored
      obtain ⟨next, first, rest⟩ := Option.bind_eq_some_iff.mp stored
      exact (storeField?_writesOnly first here).trans (ih rest later)

/-- Fields can be written as long as the object is there. -/
theorem exists_storeFields? {o : Object} (found : h.object? object = some o)
    (entries : List (FieldId × Value)) : ∃ k, h.storeFields? object entries = some k := by
  induction entries generalizing h o with
  | nil => exact ⟨h, rfl⟩
  | cons e rest ih =>
      obtain ⟨field, v⟩ := e
      have below : object.index < h.objects.size := (Array.getElem?_eq_some_iff.mp found).1
      obtain ⟨k, first⟩ : ∃ k, h.storeField? object field v = some k :=
        ⟨_, storeField?_eq_some_iff.mpr ⟨below, rfl⟩⟩
      have stays : k.object? object = some { o with fields := o.fields.store field v } := by
        rw [object?_store first, if_pos rfl, found]
        rfl
      obtain ⟨l, later⟩ := ih stays
      refine ⟨l, ?_⟩
      rw [storeFields?_cons, first]
      exact later

/-- Writing what a field holds already is not seen by any load. -/
theorem loadField?_storeField_loaded {field : FieldId} {v : Value}
    (stored : h.storeField? object field v = some k)
    (loaded : h.loadField? object field = some v) (id : ObjectId) (other : FieldId) :
    k.loadField? id other = h.loadField? id other := by
  by_cases same : id = object
  · subst same
    rw [loadField?_store stored]
    by_cases equal : other = field
    · rw [if_pos equal, equal, loaded]
    · rw [if_neg equal]
  · unfold loadField?
    rw [object?_store stored, if_neg same]

theorem loadField?_storeFields_loaded {entries : List (FieldId × Value)}
    (stored : h.storeFields? object entries = some k)
    (loaded : ∀ e ∈ entries, h.loadField? object e.1 = some e.2) (id : ObjectId)
    (field : FieldId) : k.loadField? id field = h.loadField? id field := by
  induction entries generalizing h with
  | nil =>
      cases stored
      rfl
  | cons e rest ih =>
      obtain ⟨other, v⟩ := e
      obtain ⟨here, others⟩ := List.forall_mem_cons.mp loaded
      rw [storeFields?_cons] at stored
      obtain ⟨next, first, later⟩ := Option.bind_eq_some_iff.mp stored
      have unseen := loadField?_storeField_loaded first here
      have still : ∀ e ∈ rest, next.loadField? object e.1 = some e.2 := by
        intro e member
        rw [unseen]
        exact others e member
      rw [ih later still, unseen]

end Heap

/-! ### Requests that can be made -/

namespace EventContract

variable {ρ : Type} {contract : EventContract} {depth : Nat} {h k : Heap} {w w' : EventWorld ρ}
  {args : List Value} {r : Request} {d : Delivery} {b : BusState ρ}

/-- The fields that are written back are declared for the class. -/
theorem mem_entries_fields {p : Payload} :
    ∀ e ∈ r.entries p, e.1 ∈ r.eventClass.fields.map Prod.snd := by
  intro e member
  obtain ⟨f, -, declared⟩ := EventClass.mem_entries (List.mem_map_of_mem member)
  exact List.mem_map_of_mem declared

theorem dispatched?_of_trap {trap : Trap} (refused : contract.readRequest h args = .error trap)
    (depth : Nat) (w : EventWorld ρ) :
    contract.dispatched? depth h w args = some ⟨.error trap, h, w⟩ := by
  simp only [dispatched?, refused]

theorem dispatched?_of_none (asked : contract.readRequest h args = .ok r)
    (lost : w.bus.dispatch? depth r.hook r.payload = none) :
    contract.dispatched? depth h w args = none := by
  simp only [dispatched?, asked, Invocation.run?, lost, Option.bind_eq_bind, Option.bind_none]

/-- A dispatch that succeeds has come back. -/
theorem dispatchNative_eq_ok_iff {v : Option Value} :
    contract.dispatchNative depth h w args = ⟨.ok v, k, w'⟩ ↔
      contract.dispatched? depth h w args = some ⟨.ok v, k, w'⟩ := by
  unfold dispatchNative
  cases contract.dispatched? depth h w args with
  | none => simp
  | some outcome => simp

/-- A request that can be read is carried out as soon as its dispatch has come back. -/
theorem dispatched?_of_request (asked : contract.readRequest h args = .ok r)
    (came : w.bus.dispatch? depth r.hook r.payload = some (d, b)) :
    ∃ k, h.storeFields? r.object (r.entries d.payload) = some k ∧
      contract.dispatched? depth h w args =
        some ⟨.ok none, k, ⟨b, w.journal ++ [r.record d]⟩⟩ := by
  obtain ⟨-, ⟨o, found, -⟩, -⟩ := readRequest_eq_ok_iff.mp asked
  obtain ⟨k, written⟩ := Heap.exists_storeFields? found (r.entries d.payload)
  exact ⟨k, written, dispatchNative_eq_ok_iff.mp (dispatchNative_records asked came written)⟩

/-! ### Events without subscribers -/

theorem dispatch?_unsubscribed {c : BusState ρ} {hook : String}
    (nobody : b.bus.subscribersOf hook = []) {p : Payload}
    (came : b.dispatch? depth hook p = some (d, c)) : d.payload = p := by
  obtain ⟨failures, delivered, -⟩ := Event.deliver_eq_some.mp came
  rw [nobody] at delivered
  cases delivered
  rfl

end EventContract

/-- The values of a payload are those that it was built from, and the flag. -/
theorem Event.Payload.values_setAllowed {kind : PayloadKind} {values : List Value} {p : Payload}
    (success : Payload.ofValues kind values = .ok p) (allowed : Bool) :
    (p.setAllowed allowed).values = values ++ [.ofBool allowed] := by
  unfold Payload.ofValues at success
  split at success
  · cases success
    rfl
  · cases success
    rfl
  · next subject v =>
      cases v with
      | int n =>
          cases success
          rfl
      | null | text | object => cases success
  · cases success
    rfl
  · cases success

namespace EventClass

open EventContract

variable {c : EventClass} {h k : Heap} {object : ObjectId}

/-- What would be written back of a payload that was read from an allowed event is there already. -/
theorem entries_loaded {p : Payload} (read : readPayload c h object = .ok p)
    (marked : ∀ allowed, c.field? .allowed = some allowed →
      h.loadField? object allowed = some (.ofBool true)) :
    ∀ e ∈ c.entries (c.kind.fields.zip p.values), h.loadField? object e.1 = some e.2 := by
  obtain ⟨captured, loads, success⟩ := Except.bind_eq_ok read
  obtain ⟨made, built, success⟩ := Except.bind_eq_ok success
  obtain ⟨v, flag, success⟩ := Except.bind_eq_ok success
  obtain ⟨allowed, known, loaded⟩ := readField_eq_ok flag
  obtain ⟨length, agree⟩ := List.forall₂_iff_zip.mp (Except.forall₂_of_mapM loads)
  have here : h.loadField? object allowed = some (.ofBool true) := marked allowed known
  have values : p.values = captured ++ [.ofBool true] := by
    have set := Except.mapError_eq_ok.mp success
    obtain rfl : Value.ofBool true = v := Option.some.inj (here.symm.trans loaded)
    rw [Event.Payload.setField_allowed] at set
    cases set
    exact Event.Payload.values_setAllowed (Except.mapError_eq_ok.mp built) true
  rw [values, PayloadKind.fields, List.zip_append length, entries_append, List.zip_cons_cons,
    List.zip_nil_left, entries_flag known]
  intro e member
  rcases List.mem_append.mp member with written | last
  · obtain ⟨⟨f, v'⟩, zipped, entry⟩ := List.mem_filterMap.mp written
    obtain ⟨id, found, rfl⟩ := Option.map_eq_some_iff.mp entry
    obtain ⟨id', found', loaded'⟩ := readField_eq_ok (agree zipped)
    obtain rfl := Option.some.inj (found.symm.trans found')
    exact loaded'
  · obtain rfl := List.mem_singleton.mp last
    exact here

/-- A constructor marks the object as allowed. -/
theorem constructorNative_loads {σ : Type} {w : σ} {values : List Value} {allowed : FieldId}
    (built : c.constructorNative h w (.object object :: values) = ⟨.ok none, k, w⟩)
    (known : c.field? .allowed = some allowed) :
    k.loadField? object allowed = some (.ofBool true) := by
  unfold constructorNative at built
  cases stored : h.storeFields? object (c.initialEntries values) with
  | none =>
      simp only [stored] at built
      cases built
  | some k' =>
      simp only [stored] at built
      cases built
      rw [initialEntries, entries_append, entries_flag known] at stored
      exact Heap.loadField?_storeFields_last stored

end EventClass

namespace EventContract

/-- An event as its constructor has left it looks the same behind a dispatch without subscribers. -/
theorem dispatched?_constructed {ρ : Type} {contract : EventContract} {depth : Nat} {h k l : Heap}
    {w₀ w w' : EventWorld ρ} {object : ObjectId} {o : Object} {c : EventClass}
    {values : List Value} {hook : String} {v : Option Value}
    (found : k.object? object = some o) (known : contract.classOfType? o.type = some c)
    (built : c.constructorNative h w₀ (.object object :: values) = ⟨.ok none, k, w₀⟩)
    (nobody : w.bus.bus.subscribersOf hook = [])
    (success : contract.dispatched? depth k w [.text hook, .object object] =
      some ⟨.ok v, l, w'⟩) :
    l.statics = k.statics ∧ ∀ id field, l.loadField? id field = k.loadField? id field := by
  have native := dispatchNative_eq_ok_iff.mpr success
  obtain ⟨r, d, b, k', asked, came, written, whole⟩ :=
    dispatchNative_recorded (congrArg NativeOutcome.result native)
  obtain ⟨shape, ⟨o', found', known'⟩, read⟩ := readRequest_eq_ok_iff.mp asked
  obtain ⟨rfl, rfl⟩ : hook = r.hook ∧ object = r.object := by simpa using shape
  obtain rfl : o = o' := Option.some.inj (found.symm.trans found')
  obtain rfl : c = r.eventClass := Option.some.inj (known.symm.trans known')
  obtain rfl : k' = l := congrArg NativeOutcome.heap (whole.symm.trans native)
  have loaded := EventClass.entries_loaded read fun allowed =>
    EventClass.constructorNative_loads built
  rw [Request.entries, dispatch?_unsubscribed nobody came] at written
  refine ⟨?_, Heap.loadField?_storeFields_loaded written loaded⟩
  exact (Heap.storeFields?_writesOnly written fun e member => List.mem_map_of_mem member).statics

/-- Dispatches are atomic.  Whatever the heap and the arguments are, either every dispatch of them
    traps, in the same way whoever is subscribed, and leaves the heap and the world as they were.
    Or the arguments are a hook and an object of an event class that a payload is read from, and
    every dispatch of them delivers the payload to the subscribers.  It comes back when their
    handlers do, and then it has succeeded: it has delivered the payload once, written nothing but
    declared fields of that object, and added one record, with the complete phases of an invocation
    of the hook.  If the constructor of its class has just filled in the object and nobody is
    subscribed, then every field of every object holds the same as before, and so do the static
    fields. -/
theorem dispatch_atomic {ρ : Type} (contract : EventContract) (h : Heap) (args : List Value) :
    ((∃ trap, ∀ (depth : Nat) (w : EventWorld ρ),
        contract.dispatched? depth h w args = some ⟨.error trap, h, w⟩) ∨
      ∃ hook object o c p, args = [.text hook, .object object] ∧ h.object? object = some o ∧
        contract.classOfType? o.type = some c ∧ readPayload c h object = .ok p ∧
        ∀ (depth : Nat) (w : EventWorld ρ),
          ((∀ s ∈ w.bus.bus.subscribersOf hook,
              s.handler.Returns (Event.dispatchWithin depth)) →
            (contract.dispatched? depth h w args).isSome) ∧
          (w.bus.dispatch? depth hook p = none → contract.dispatched? depth h w args = none) ∧
          ∀ d b, w.bus.dispatch? depth hook p = some (d, b) → ∃ k record,
            contract.dispatched? depth h w args =
              some ⟨.ok none, k, ⟨b, w.journal ++ [record]⟩⟩ ∧
            Heap.WritesOnly object (c.fields.map Prod.snd) h k ∧
            record.hook = hook ∧ record.report = d.report ∧
            record.exit = record.report.verdict.exit ∧
            record.phases = Invocation.complete (w.bus.bus.subscribersOf hook).length
              record.report.verdict) ∧
    ∀ (h₀ : Heap) (w₀ : EventWorld ρ) (object : ObjectId) (values : List Value) (o : Object)
      (c : EventClass), h.object? object = some o → contract.classOfType? o.type = some c →
      c.constructorNative h₀ w₀ (.object object :: values) = ⟨.ok none, h, w₀⟩ →
      ∀ (depth : Nat) (hook : String) (w w' : EventWorld ρ) (k : Heap) (v : Option Value),
        w.bus.bus.subscribersOf hook = [] →
        contract.dispatched? depth h w [.text hook, .object object] = some ⟨.ok v, k, w'⟩ →
        k.statics = h.statics ∧ ∀ id field, k.loadField? id field = h.loadField? id field := by
  constructor
  · cases asked : contract.readRequest h args with
    | error trap => exact Or.inl ⟨trap, dispatched?_of_trap asked⟩
    | ok r =>
        obtain ⟨shape, ⟨o, found, known⟩, read⟩ := readRequest_eq_ok_iff.mp asked
        refine Or.inr ⟨r.hook, r.object, o, r.eventClass, r.payload, shape, found, known, read, ?_⟩
        refine fun depth w => ⟨fun returns => ?_, dispatched?_of_none asked, fun d b came => ?_⟩
        · obtain ⟨⟨d, b⟩, came⟩ := Option.isSome_iff_exists.mp
            (BusState.isSome_dispatch? returns r.payload)
          obtain ⟨k, -, whole⟩ := dispatched?_of_request asked came
          exact Option.isSome_of_eq_some whole
        · obtain ⟨k, written, whole⟩ := dispatched?_of_request asked came
          obtain ⟨failures, -, report, -⟩ := Event.deliver_eq_some.mp came
          refine ⟨k, r.record d, whole, Heap.storeFields?_writesOnly written mem_entries_fields,
            rfl, rfl, rfl, ?_⟩
          rw [Request.record, report]
  · intro h₀ w₀ object values o c found known built depth hook w w' k v nobody success
    exact dispatched?_constructed found known built nobody success

/-- A contract over a table that holds nothing else. -/
def plainContract : EventContract where
  action := ⟨.action, ⟨0⟩, ⟨0⟩, [(.subject, ⟨0⟩), (.allowed, ⟨1⟩)]⟩
  targeted := ⟨.targeted, ⟨1⟩, ⟨1⟩, [(.subject, ⟨2⟩), (.target, ⟨3⟩), (.allowed, ⟨4⟩)]⟩
  amount := ⟨.amount, ⟨2⟩, ⟨2⟩, [(.subject, ⟨5⟩), (.amount, ⟨6⟩), (.allowed, ⟨7⟩)]⟩
  substitute := ⟨.substitute, ⟨3⟩, ⟨3⟩, [(.subject, ⟨8⟩), (.value, ⟨9⟩), (.allowed, ⟨10⟩)]⟩
  bus := ⟨4⟩
  dispatch := ⟨4⟩

/-- A heap with a new event of seven points of damage. -/
def damagedHeap : Heap :=
  (plainContract.amount.constructorNative (Heap.empty.alloc ⟨2⟩).2 (EventWorld.empty (ρ := Unit))
    [.object ⟨0⟩, .null, .int 7]).heap

/-- The damage is dispatched, and nobody changes it. -/
theorem damaged_dispatch : ∃ k w',
    plainContract.dispatched? 0 damagedHeap (EventWorld.empty (ρ := Unit))
      [.text "hit", .object ⟨0⟩] = some ⟨.ok none, k, w'⟩ ∧
    k.loadField? ⟨0⟩ ⟨6⟩ = some (.int 7) ∧ k.loadField? ⟨0⟩ ⟨7⟩ = some (.ofBool true) := by
  have asked : plainContract.readRequest damagedHeap [.text "hit", .object ⟨0⟩] =
      .ok ⟨"hit", ⟨0⟩, plainContract.amount, .amount .null 7 true⟩ := rfl
  have built : plainContract.amount.constructorNative (Heap.empty.alloc ⟨2⟩).2
      (EventWorld.empty (ρ := Unit)) (.object ⟨0⟩ :: [.null, .int 7]) =
        ⟨.ok none, damagedHeap, .empty⟩ := rfl
  have came : (EventWorld.empty (ρ := Unit)).bus.dispatch? 0 "hit" (.amount .null 7 true) =
      some (⟨⟨"hit", 0, [], .allowed⟩, .amount .null 7 true, []⟩, .empty) := rfl
  obtain ⟨k, -, whole⟩ := dispatched?_of_request asked came
  obtain ⟨-, loads⟩ := (dispatch_atomic plainContract damagedHeap []).2 _ _ ⟨0⟩ _ _
    plainContract.amount rfl rfl built 0 "hit" .empty _ k none rfl whole
  refine ⟨k, _, whole, ?_, ?_⟩
  · rw [loads]
    rfl
  · rw [loads]
    rfl

end EventContract

end HookSplice
