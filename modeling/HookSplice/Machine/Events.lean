import HookSplice.Event.Bus
import HookSplice.EventContract
import HookSplice.Machine.Run

/-!
# Events on the machine

The native code behind a declared event contract.  Constructors fill in the captured fields of an
event object and mark it as allowed.  Dispatch reads the object into a payload, runs one invocation
through the bus, writes every field back, so that the hook code sees what subscribers changed, and
notes the invocation in a journal.  Dispatches are followed down to a depth of nesting, and a run of
the machine no further than to one that has not come back within it.
-/

namespace HookSplice

open Event (BusState Invocation InvocationRecord Payload PayloadField PayloadKind)

/-- The world of a machine that raises events: the bus with the notes of its handlers, and the
    journal in the order of the dispatches. -/
structure EventWorld (ρ : Type) where
  bus : BusState ρ
  journal : List InvocationRecord

/-- The world before anything was subscribed or dispatched. -/
def EventWorld.empty {ρ : Type} : EventWorld ρ := ⟨.empty, []⟩

namespace EventClass

/-- The values of some fields with the handles of the fields. -/
def entries (c : EventClass) (values : List (PayloadField × Value)) : List (FieldId × Value) :=
  values.filterMap fun (f, v) => (c.field? f).map fun id => (id, v)

/-- The fields that a constructor writes. -/
def initialEntries (c : EventClass) (values : List Value) : List (FieldId × Value) :=
  c.entries (c.kind.constructorFields.zip values ++ [(.allowed, .ofBool true)])

/-- The constructor of an event class. -/
def constructorNative {σ : Type} (c : EventClass) : Native σ := fun heap world args =>
  match args with
  | .object object :: values =>
      match heap.storeFields? object (c.initialEntries values) with
      | some heap => ⟨.ok none, heap, world⟩
      | none => ⟨.error (.unknownObject object), heap, world⟩
  | _ =>
      ⟨.error (.native (c.kind.className ++ "::.ctor") "constructor called without an object"),
        heap, world⟩

end EventClass

namespace EventContract

/-- The trap of a dispatch that fails. -/
def dispatchTrap (reason : String) : Trap :=
  .native (busName ++ "::" ++ dispatchName) reason

/-- Reads a field of an event object. -/
def readField (c : EventClass) (heap : Heap) (object : ObjectId) (f : PayloadField) :
    Except Trap Value :=
  match c.field? f with
  | none => .error (dispatchTrap (c.kind.display ++ " events have no " ++ f.name ++ " field"))
  | some id =>
      match heap.loadField? object id with
      | some v => .ok v
      | none => .error (.unknownObject object)

/-- The payload that an event object stands for. -/
def readPayload (c : EventClass) (heap : Heap) (object : ObjectId) : Except Trap Payload := do
  let captured ← c.kind.constructorFields.mapM (readField c heap object)
  let payload ← (Payload.ofValues c.kind captured).mapError fun e => dispatchTrap e.message
  let allowed ← readField c heap object .allowed
  (payload.setField .allowed allowed).mapError fun e => dispatchTrap e.message

/-- A dispatch that is about to start. -/
structure Request where
  hook : String
  object : ObjectId
  eventClass : EventClass
  payload : Payload

/-- Reads the arguments of a dispatch: the hook and the event object. -/
def readRequest (contract : EventContract) (heap : Heap) (args : List Value) :
    Except Trap Request :=
  match args with
  | [.text hook, .object object] =>
      match heap.object? object with
      | none => .error (.unknownObject object)
      | some o =>
          match contract.classOfType? o.type with
          | none => .error (dispatchTrap "argument is not an event object")
          | some c => (readPayload c heap object).map fun payload => ⟨hook, object, c, payload⟩
  | _ =>
      .error (dispatchTrap ("expected (hook, event), got [" ++
        String.intercalate ", " (args.map Value.inspect) ++ "]"))

/-- What the dispatch method of a contract does, if the dispatch comes back within a depth. -/
def dispatched? {ρ : Type} (contract : EventContract) (depth : Nat) (heap : Heap)
    (world : EventWorld ρ) (args : List Value) : Option (NativeOutcome (EventWorld ρ)) :=
  match contract.readRequest heap args with
  | .error trap => some ⟨.error trap, heap, world⟩
  | .ok request => do
      let (invocation, delivery, bus) ← Invocation.run? depth world.bus request.hook request.payload
      let world := { world with bus := bus }
      let values := request.eventClass.kind.fields.zip delivery.payload.values
      match invocation, heap.storeFields? request.object (request.eventClass.entries values) with
      | .error e, _ => return ⟨.error (dispatchTrap e.message), heap, world⟩
      | .ok _, none => return ⟨.error (.unknownObject request.object), heap, world⟩
      | .ok i, some heap =>
          let record : InvocationRecord :=
            ⟨i.hook, i.history, i.exit?.getD .continuation, delivery.report⟩
          return ⟨.ok none, heap, { world with journal := world.journal ++ [record] }⟩

/-- The dispatch method of a contract, followed down to a depth. -/
def dispatchNative {ρ : Type} (contract : EventContract) (depth : Nat) : Native (EventWorld ρ) :=
  fun heap world args =>
    (contract.dispatched? depth heap world args).getD ⟨.error .unreturned, heap, world⟩

end EventContract

namespace Machine

variable {ρ : Type}

/-- Binds the constructors of a contract, and its dispatch method down to a depth. -/
def bindEvents (m : Machine (EventWorld ρ)) (contract : EventContract) (depth : Nat) :
    Machine (EventWorld ρ) :=
  let m := contract.classes.foldl (fun m c => m.bind c.constructor c.constructorNative) m
  m.bind contract.dispatch (contract.dispatchNative depth)

/-- A machine for a host, with events bound if the host declares the event contract. -/
def serving (host : Host) (depth : Nat) : Machine (EventWorld ρ) :=
  match EventContract.resolve? host.symbols with
  | some contract => (ofHost host).bindEvents contract depth
  | none => ofHost host

end Machine

end HookSplice
