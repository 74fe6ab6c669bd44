import HookSplice.Proofs.GatePassages
import HookSplice.Proofs.Hooking
import HookSplice.Proofs.Lifecycle

/-!
# Recorded exits

The journal and the hook code agree on what became of an event.  What a dispatch notes as the exit
of an invocation is what it leaves as the mark of the event object, if the subscribers leave a
payload with as many fields as they were given; and the last branch of the gate goes by that mark,
if the gate stores nothing else into the local that holds the event.
-/

namespace HookSplice

open Event (BusState Delivery Exit Invocation InvocationRecord Payload PayloadField Verdict)

/-! ### Sizes of payloads -/

namespace Event

variable {ρ : Type}

/-- A handler leaves payloads with as many fields as it is given. -/
def Script.KeepsSize (script : Script ρ) : Prop :=
  ∀ nested p b result, script.run nested p b = some result →
    result.2.1.kind.fields.length = p.kind.fields.length

theorem deliverFrom_size {subscribers : List (Subscriber ρ)}
    (keep : ∀ s ∈ subscribers, s.handler.KeepsSize) {nested : Dispatcher ρ} {position : Nat}
    {p : Payload} {b : BusState ρ} {result : List Failure × Payload × BusState ρ}
    (delivered : deliverFrom nested position subscribers p b = some result) :
    result.2.1.kind.fields.length = p.kind.fields.length := by
  induction subscribers generalizing position p b result with
  | nil =>
      cases delivered
      rfl
  | cons subscriber rest ih =>
      obtain ⟨first, others⟩ := List.forall_mem_cons.mp keep
      obtain ⟨ending, p', b', failures, ran, later, -⟩ := deliverFrom_cons.mp delivered
      exact (ih others later).trans (first nested p b _ ran)

/-- Subscribers that keep the sizes of payloads keep them together. -/
theorem BusState.dispatch?_size {b c : BusState ρ} {depth : Nat} {hook : String}
    (keep : ∀ s ∈ b.bus.subscribersOf hook, s.handler.KeepsSize) {p : Payload} {d : Delivery}
    (came : b.dispatch? depth hook p = some (d, c)) :
    d.payload.kind.fields.length = p.kind.fields.length := by
  obtain ⟨failures, delivered, -⟩ := deliver_eq_some.mp came
  exact deliverFrom_size keep delivered

theorem BusState.verdict_dispatch? {b c : BusState ρ} {depth : Nat} {hook : String} {p : Payload}
    {d : Delivery} (came : b.dispatch? depth hook p = some (d, c)) :
    d.report.verdict = d.payload.verdict := by
  obtain ⟨failures, -, report, -⟩ := deliver_eq_some.mp came
  rw [report]

end Event

/-! ### The record of a dispatch -/

theorem Event.Verdict.exit_eq_continuation {verdict : Verdict} :
    verdict.exit = .continuation ↔ verdict = .allowed := by
  cases verdict <;> decide

theorem Event.Verdict.exit_ofAllowed (allowed : Bool) :
    (Verdict.ofAllowed allowed).exit = if allowed then .continuation else .earlyExit := by
  cases allowed <;> rfl

theorem Value.isTruthy_ofBool (b : Bool) : (Value.ofBool b).isTruthy = b := by
  cases b <;> rfl

namespace EventContract

variable {ρ : Type} {contract : EventContract} {depth : Nat} {h k : Heap} {w : EventWorld ρ}
  {b c : BusState ρ} {r : Request} {d : Delivery}

/-- What the journal says about a dispatch. -/
def Request.record (r : Request) (d : Delivery) : InvocationRecord :=
  ⟨r.hook, Invocation.complete d.report.delivered d.report.verdict, d.report.verdict.exit, d.report⟩

/-- The subscribers leave a payload with as many fields as they were given. -/
def Request.KeepsSize (r : Request) (d : Delivery) : Prop :=
  d.payload.kind.fields.length = r.payload.kind.fields.length

theorem Request.exit_record (came : b.dispatch? depth r.hook r.payload = some (d, c)) :
    (r.record d).exit = if d.payload.isAllowed then .continuation else .earlyExit :=
  (congrArg Verdict.exit (BusState.verdict_dispatch? came)).trans (Verdict.exit_ofAllowed _)

/-- A dispatch that can be read, comes back and is written back is recorded. -/
theorem dispatchNative_records {args : List Value} (asked : contract.readRequest h args = .ok r)
    (came : w.bus.dispatch? depth r.hook r.payload = some (d, b))
    (written : h.storeFields? r.object (r.entries d.payload) = some k) :
    contract.dispatchNative depth h w args = ⟨.ok none, k, ⟨b, w.journal ++ [r.record d]⟩⟩ := by
  obtain ⟨i, followed, whole⟩ := dispatchNative_eq contract asked came written
  obtain ⟨hook, -, exit, history⟩ := Invocation.ofDelivery_complete came followed
  rw [whole, hook, history, exit]
  rfl

/-- A dispatch that succeeds is recorded. -/
theorem dispatchNative_recorded {args : List Value} {v : Option Value}
    (success : (contract.dispatchNative depth h w args).result = .ok v) : ∃ r d b k,
      contract.readRequest h args = .ok r ∧
      w.bus.dispatch? depth r.hook r.payload = some (d, b) ∧
      h.storeFields? r.object (r.entries d.payload) = some k ∧
      contract.dispatchNative depth h w args =
        ⟨.ok none, k, ⟨b, w.journal ++ [r.record d]⟩⟩ := by
  obtain ⟨r, d, b, k, -, asked, came, written, -⟩ := dispatchNative_eq_ok contract success
  exact ⟨r, d, b, k, asked, came, written, dispatchNative_records asked came written⟩

/-- What is left as the mark of an event object, if the payload has as many fields as before. -/
theorem Request.marks (read : readPayload r.eventClass h r.object = .ok r.payload)
    (size : r.KeepsSize d) (written : h.storeFields? r.object (r.entries d.payload) = some k) :
    ∃ allowed, r.eventClass.field? .allowed = some allowed ∧
      k.loadField? r.object allowed = some (.ofBool d.payload.isAllowed) := by
  obtain ⟨kind, allowed, -, known, -, -⟩ := readPayload_eq_ok read
  unfold KeepsSize at size
  rw [kind] at size
  obtain ⟨front, entries⟩ := entries_values known size
  rw [Request.entries, entries] at written
  exact ⟨allowed, known, Heap.loadField?_storeFields_last written⟩

/-- A dispatch of a new event leaves some mark on it. -/
theorem dispatchNative_leaves {s : SymbolTable} (declared : contract.DeclaredIn s)
    {object : ObjectId} {allowed : FieldId} (event : EventMarked s h object allowed) {hook : String}
    {v : Option Value}
    (success : (contract.dispatchNative depth h w [.text hook, .object object]).result = .ok v) :
    ∃ r d b k mark, contract.readRequest h [.text hook, .object object] = .ok r ∧
      w.bus.dispatch? depth r.hook r.payload = some (d, b) ∧
      contract.dispatchNative depth h w [.text hook, .object object] =
        ⟨.ok none, k, ⟨b, w.journal ++ [r.record d]⟩⟩ ∧
      k.loadField? object allowed = some mark ∧
      (r.KeepsSize d → mark = .ofBool d.payload.isAllowed) := by
  obtain ⟨r, d, b, k, asked, came, written, whole⟩ := dispatchNative_recorded success
  obtain ⟨shape, ⟨kind, same⟩, read⟩ := readRequest_eq_ok asked
  obtain ⟨rfl, rfl⟩ : hook = r.hook ∧ object = r.object := by simpa using shape
  obtain ⟨mark, left⟩ := Option.isSome_iff_exists.mp
    (Heap.isSome_loadField?_storeFields written (Option.isSome_of_eq_some event.marked))
  refine ⟨r, d, b, k, mark, asked, came, whole, left, fun size => ?_⟩
  obtain ⟨-, id, n, known, loaded, -⟩ := readPayload_eq_ok read
  obtain ⟨_, field, name, -⟩ := (declared.classes kind).fields (.allowed, id)
    (mem_of_lookup (same ▸ known))
  obtain rfl := event.own field name loaded
  obtain ⟨own, known', set⟩ := r.marks read size written
  obtain rfl := Option.some.inj (known.symm.trans known')
  exact Option.some.inj (left.symm.trans set)

end EventContract

/-! ### The gate as a whole -/

namespace Machine

section Gate

variable {ρ : Type} {m : Machine (EventWorld ρ)} {passes : Config (EventWorld ρ) → Prop} {b : Body}
  {point : Nat} {g : EventGate} {contract : EventContract} {allowed : FieldId} {slot : UInt16}
  {deny : Label} {c : Config (EventWorld ρ)} {stack locals : List Value} {h : Heap}
  {w : EventWorld ρ} {depth : Nat}

/-- The gate dispatches one event and goes on as the mark says that the dispatch has left. -/
theorem Inserted.decides {stores : List (FieldId × Slot)} {target : Nat}
    (inserted : m.Inserted passes b point (g.code contract allowed stores slot deny))
    (declared : contract.DeclaredIn m.host.symbols)
    (known : (contract.eventClass g.kind).field? .allowed = some allowed)
    (constructs : m.natives.lookup (contract.eventClass g.kind).constructor =
      some (contract.eventClass g.kind).constructorNative)
    (dispatches : m.natives.lookup contract.dispatch = some (contract.dispatchNative depth))
    (balanced : ∀ {s s' : MethodDef},
      m.host.symbols.method? (contract.eventClass g.kind).constructor = some s →
      m.host.symbols.method? contract.dispatch = some s' →
      s.params.length + s'.argCount = g.captures.length + 2)
    (apart : ∀ e ∈ stores, e.2 ≠ .slot slot) (found : b.position? deny = some target)
    (body : c.frame.body = b) (passed : passes (c.inside point stack locals h w)) :
    ∃ c' k object r d b' mark, passes c' ∧ c'.frame.body = b ∧ c'.callers = c.callers ∧
      contract.readRequest k [.text g.hook, .object object] = .ok r ∧
      w.bus.dispatch? depth r.hook r.payload = some (d, b') ∧
      c'.world = ⟨b', w.journal ++ [r.record d]⟩ ∧
      c'.heap.loadField? object allowed = some mark ∧
      c'.frame.pc =
        (if mark.isTruthy then point + (g.code contract allowed stores slot deny).length
          else target) ∧
      (r.KeepsSize d → mark = .ofBool d.payload.isAllowed) := by
  obtain ⟨n, type, entries, h₁, h₂, w₂, -, event, whole, room, -, passed₁⟩ :=
    inserted.dispatches declared known constructs dispatches balanced body passed
  obtain ⟨r, d, b', k, mark, asked, came, whole', left, kept⟩ :=
    EventContract.dispatchNative_leaves declared event (congrArg NativeOutcome.result whole)
  obtain ⟨rfl, rfl⟩ := (NativeOutcome.mk.inj (whole.symm.trans whole')).2
  obtain ⟨event', there, marked⟩ := Option.map_eq_some_iff.mp left
  obtain ⟨args, locals', passed₂, -, -⟩ :=
    inserted.leaves apart found body there (List.getElem?_set_self room) passed₁
  rw [marked] at passed₂
  exact ⟨_, h₁, (h.alloc type).1, r, d, b', mark, passed₂, body, rfl, asked, came, rfl, left, rfl,
    kept⟩

end Gate

end Machine

/-! ### Gates in bodies -/

/-- An event gate that was built for an event contract and spliced into a body.  No label stands
    twice in the new body. -/
structure Gating (symbols : SymbolTable) where
  gate : EventGate
  /-- The symbols before and after the declarations that the gate needs. -/
  before : SymbolTable
  after : SymbolTable
  contract : EventContract
  declared : EventContract.declare.runOn before = (.ok contract, after)
  template : Template
  built : gate.build.runOn before = (.ok template, after)
  grown : after.Extends symbols
  body : Body
  point : Nat
  options : SpliceOptions
  spliced : Spliced
  success : splice symbols options body point template = .ok spliced
  distinct : (Code.labels spliced.body.code).Nodup

namespace Gating

/-- No field of the event is stored into the local that the gate keeps the event in, which stands
    behind the locals of the body. -/
def StoresApart {symbols : SymbolTable} (k : Gating symbols) : Prop :=
  ∀ e ∈ k.gate.readBack, ∀ slot, e.2 = .slot slot → slot.toNat ≠ k.body.locals.length

variable {ρ : Type} {m : Machine (EventWorld ρ)} {depth : Nat}

/-- A passage through the gate gets from one configuration to another, with events bound. -/
def Crosses (k : Gating m.host.symbols) (depth : Nat) (c d : Config (EventWorld ρ)) : Prop :=
  (m.bindEvents k.contract depth).Crosses k.spliced.body k.point k.spliced.count c d

/-- The passage through the gate that starts at a configuration meets no trap, and its dispatch
    comes back. -/
def Untrapped (k : Gating m.host.symbols) (depth : Nat) (c : Config (EventWorld ρ)) : Prop :=
  ∀ d, k.Crosses depth c d → d.Within k.spliced.body k.point k.spliced.count →
    ∀ trap h w, (m.bindEvents k.contract depth).step d ≠ .ended (.error trap) h w

/-- The code of the gate stands in the new body, its last branch leads to the deny position, and a
    passage without traps stays in it until it comes out. -/
theorem inserted (k : Gating m.host.symbols) (apart : k.StoresApart) {c : Config (EventWorld ρ)}
    (untrapped : k.Untrapped depth c) : ∃ allowed stores, ∃ (slot : UInt16) (deny : Label),
      (k.contract.eventClass k.gate.kind).field? .allowed = some allowed ∧
      EventGate.Stores (k.contract.eventClass k.gate.kind) k.gate.readBack stores ∧
      (∀ e ∈ stores, e.2 ≠ .slot slot) ∧ slot.toNat = k.body.locals.length ∧
      k.spliced.count = (k.gate.code k.contract allowed stores slot deny).length ∧
      k.spliced.body.position? deny = some k.spliced.denyPosition ∧
      (∀ {made dispatched : MethodDef},
        m.host.symbols.method? (k.contract.eventClass k.gate.kind).constructor = some made →
        m.host.symbols.method? k.contract.dispatch = some dispatched →
        made.params.length + dispatched.argCount = k.gate.captures.length + 2) ∧
      (m.bindEvents k.contract depth).Inserted (k.Crosses depth c) k.spliced.body k.point
        (k.gate.code k.contract allowed stores slot deny) := by
  obtain ⟨d, -, -, spliced⟩ := Splice.splice_eq_ok k.success
  have result : k.spliced.body = d.result := congrArg Spliced.body spliced
  have count : k.spliced.count = d.run.length := congrArg Spliced.count spliced
  have deny : k.spliced.denyPosition = d.denyPosition := congrArg Spliced.denyPosition spliced
  obtain ⟨allowed, stores, slot, known, listed, place, code, balanced⟩ :=
    EventGate.run_eq_code d k.declared k.built k.grown
  refine ⟨allowed, stores, slot, d.site.label, known, listed, fun e member same => ?_, place,
    code ▸ count, ?_, balanced, ?_⟩
  · obtain ⟨e', inside, -, target⟩ := listed.exists_of_mem member
    exact apart e' inside slot (target.symm.trans same) place
  · rw [result, deny]
    exact d.position?_deny (result ▸ k.distinct)
  · rw [← code]
    refine ⟨result ▸ d.getElem?_inside, fun {e e'} crossed body above below moved => ?_,
      fun {e} crossed body above below => ?_⟩
    · exact .onward crossed ⟨body, above, count ▸ below⟩ moved
    · exact untrapped e crossed ⟨body, above, count ▸ below⟩

theorem crosses_inside (k : Gating m.host.symbols) {c : Config (EventWorld ρ)}
    (start : c.frame.pc = k.point) :
    k.Crosses depth c (c.inside k.point c.frame.stack c.frame.locals c.heap c.world) := by
  have entry : c.inside k.point c.frame.stack c.frame.locals c.heap c.world = c := by
    rw [← start]
    rfl
  rw [entry]
  exact .here

/-- Control that comes to the gate leaves it behind the gate or at the deny label, as the mark of
    the event says. -/
theorem decides (k : Gating m.host.symbols) (apart : k.StoresApart) {c : Config (EventWorld ρ)}
    (body : c.frame.body = k.spliced.body) (start : c.frame.pc = k.point)
    (untrapped : k.Untrapped depth c) : ∃ c' h object allowed r d b mark, k.Crosses depth c c' ∧
      c'.frame.body = c.frame.body ∧ c'.callers = c.callers ∧
      (k.contract.eventClass k.gate.kind).field? .allowed = some allowed ∧
      k.contract.readRequest h [.text k.gate.hook, .object object] = .ok r ∧
      c.world.bus.dispatch? depth r.hook r.payload = some (d, b) ∧
      c'.world = ⟨b, c.world.journal ++ [r.record d]⟩ ∧
      c'.heap.loadField? object allowed = some mark ∧
      c'.frame.pc =
        (if mark.isTruthy then k.point + k.spliced.count else k.spliced.denyPosition) ∧
      (r.KeepsSize d → mark = .ofBool d.payload.isAllowed) := by
  obtain ⟨allowed, stores, slot, deny, known, -, apart', -, count, found, balanced, inserted⟩ :=
    k.inserted apart untrapped
  have inTable := (EventContract.declare_runOn k.declared).2.grow k.grown
  obtain ⟨c', h, object, r, d, b, mark, crossed, body', callers, asked, came, noted, left, path,
    kept⟩ :=
    inserted.decides inTable known (Machine.lookup_constructor inTable k.gate.kind)
      Machine.lookup_dispatch balanced apart' found body (k.crosses_inside start)
  rw [← count] at path
  exact ⟨c', h, object, allowed, r, d, b, mark, crossed, body'.trans body.symm, callers, known,
    asked, came, noted, left, path, kept⟩

/-- Where control goes for an exit. -/
def leadsTo {symbols : SymbolTable} (k : Gating symbols) : Exit → Nat
  | .continuation => k.point + k.spliced.count
  | .earlyExit => k.spliced.denyPosition

theorem leadsTo_earlyExit {symbols : SymbolTable} (k : Gating symbols) :
    k.leadsTo .earlyExit = k.spliced.denyPosition :=
  rfl

/-- The recorded exit is the path taken.  A dispatch that succeeds has come back and is recorded
    with the exit that the verdict implies, and the mark that it leaves on the event says the same,
    if the subscribers leave a payload with as many fields as they were given.  Control that comes
    to a gate and meets no trap there then comes out where the recorded exit leads, if the gate
    stores nothing into the local of the event. -/
theorem exit_recorded (m : Machine (EventWorld ρ)) (depth : Nat) :
    (∀ (contract : EventContract) (h : Heap) (w : EventWorld ρ) (args : List Value)
      (v : Option Value), (contract.dispatchNative depth h w args).result = .ok v →
      ∃ r d b, contract.readRequest h args = .ok r ∧
        w.bus.dispatch? depth r.hook r.payload = some (d, b) ∧
        (contract.dispatchNative depth h w args).world = ⟨b, w.journal ++ [r.record d]⟩ ∧
        ((r.record d).exit = .continuation ↔ (r.record d).report.verdict = .allowed) ∧
        (r.KeepsSize d → ∃ allowed mark, r.eventClass.field? .allowed = some allowed ∧
          (contract.dispatchNative depth h w args).heap.loadField? r.object allowed = some mark ∧
          (mark.isTruthy ↔ (r.record d).exit = .continuation))) ∧
    ∀ (k : Gating m.host.symbols) (c : Config (EventWorld ρ)), k.StoresApart →
      c.frame.body = k.spliced.body → c.frame.pc = k.point → k.Untrapped depth c →
      ∃ c' h object r d b, k.Crosses depth c c' ∧
        c'.frame.body = c.frame.body ∧ c'.callers = c.callers ∧
        k.contract.readRequest h [.text k.gate.hook, .object object] = .ok r ∧
        c.world.bus.dispatch? depth r.hook r.payload = some (d, b) ∧
        c'.world = ⟨b, c.world.journal ++ [r.record d]⟩ ∧
        (r.KeepsSize d → c'.frame.pc = k.leadsTo (r.record d).exit) := by
  constructor
  · intro contract h w args v success
    obtain ⟨r, d, b, k, asked, came, written, whole⟩ :=
      EventContract.dispatchNative_recorded success
    rw [whole]
    refine ⟨r, d, b, asked, came, rfl, Verdict.exit_eq_continuation, fun size => ?_⟩
    obtain ⟨allowed, known, left⟩ := r.marks (readRequest_eq_ok asked).2.2 size written
    refine ⟨allowed, _, known, left, ?_⟩
    rw [Value.isTruthy_ofBool, r.exit_record came]
    cases d.payload.isAllowed <;> decide
  · intro k c apart body start untrapped
    obtain ⟨c', h, object, allowed, r, d, b, mark, crossed, body', callers, -, asked, came, noted,
      -, path, kept⟩ := k.decides apart body start untrapped
    refine ⟨c', h, object, r, d, b, crossed, body', callers, asked, came, noted, fun size => ?_⟩
    rw [path, kept size, Value.isTruthy_ofBool, r.exit_record came]
    split <;> rfl

/-- The gating of a gate in a body over symbols that hold no more than it has declared. -/
def ofGate (gate : EventGate) {before after : SymbolTable} {template : Template}
    (built : gate.build.runOn before = (.ok template, after)) (body : Body) (point : Nat)
    (options : SpliceOptions) (verify : options.verify = true) {spliced : Spliced}
    (success : splice after options body point template = .ok spliced) : Gating after :=
  have declares : (EventContract.declare.runOn before).1.toOption.isSome ∧
      (EventContract.declare.runOn before).2 = after := by
    obtain ⟨contract, declared, -⟩ := EventGate.build_templateOver built
    rw [declared]
    exact ⟨rfl, rfl⟩
  { gate, before, after, template, built, body, point, options, spliced, success
    contract := Except.value (EventContract.declare.runOn before).1 declares.1
    declared := Prod.ext (Except.eq_ok_value declares.1) declares.2
    grown := .refl after
    distinct := Splice.distinct_of_verify verify success }

/-- The symbols of a shop that sells any number of an article. -/
def shop : SymbolTable where
  typeNames := ["Shop", "object", "int"]
  fields := []
  methods := [⟨⟨⟨0⟩, "Sell", [⟨1⟩, ⟨2⟩], some ⟨2⟩, true⟩, "Shop::Sell(object,int)"⟩]

/-- A body that gives back the number. -/
def selling : Body :=
  .ofParts ⟨0⟩ [.of .ldarg (.arg 1), .plain .ret] [] []

/-- New bodies are verified, up to a small depth. -/
def verifying : SpliceOptions :=
  ⟨true, 8, .stops⟩

/-- A heap with one article. -/
def stock : Heap :=
  (Heap.empty.alloc ⟨0⟩).2

/-- Three of the article are asked for. -/
def order : List Value :=
  [.object ⟨0⟩, .int 3]

/-- A machine over a host with the new body only. -/
def machine {symbols : SymbolTable} (k : Gating symbols) : Machine (EventWorld String) where
  host := ⟨symbols, .single k.spliced.body, []⟩
  natives := []
  stepLimit := 100
  maxDepth := 2

/-- The gating, over the symbols of that machine. -/
def served {symbols : SymbolTable} (k : Gating symbols) : Gating k.machine.host.symbols :=
  k

/-- The machine is about to run the new body. -/
def atStart {symbols : SymbolTable} (k : Gating symbols) (world : EventWorld String) :
    Config (EventWorld String) :=
  ⟨.enter symbols k.spliced.body order, [], stock, world⟩

theorem untrapped_atStart {symbols : SymbolTable} (k : Gating symbols) {w : EventWorld String}
    {depth : Nat} (found : ((k.machine.bindEvents k.contract depth).implementation
      k.spliced.body.method order.length 0).toOption.bind Implementation.body? =
        some k.spliced.body)
    {r : Result} (finished : ((k.machine.bindEvents k.contract depth).ending k.spliced.body.method
      order stock w).1 = .ok r) : k.served.Untrapped depth (k.atStart w) := by
  have enters :
      (k.machine.bindEvents k.contract depth).enter k.spliced.body.method order [] stock w =
        .running (k.atStart w) := Machine.enter_of_body found
  exact fun d crossed _ => (crossed.visits (.entered enters)).untrapped finished

/-- A bus with one subscriber for sales. -/
def listening (script : Event.Script String) : EventWorld String :=
  ⟨⟨⟨[("sell", [⟨0, script⟩])], ["sell"]⟩, []⟩, []⟩

/-- A gate that lets subscribers change the amount that is sold. -/
def rationing : EventGate :=
  ⟨"sell", .amount, [.arg 0, .arg 1], [(.amount, .arg 1)], .returning (.int 0)⟩

/-- The gate in the body of the shop. -/
def rationed : Gating (rationing.build.runOn shop).2 :=
  .ofGate rationing (Except.run_eq_ok_value (by decide +kernel)) selling 0 verifying rfl
    (Except.eq_ok_value (by decide +kernel))

/-- A subscriber that denies every sale. -/
def closing : Event.Script String :=
  .read fun p => .write p.deny (.finish .done)

theorem closing_keepsSize : closing.KeepsSize := by
  rintro _ p _ _ ⟨⟩
  cases p <;> rfl

/-- What a subscriber that denies every sale makes of one. -/
theorem report_closing {depth : Nat} {p : Payload} {d : Delivery} {b : BusState String}
    (came : (listening closing).bus.dispatch? depth "sell" p = some (d, b)) :
    d.report = ⟨"sell", 1, [], .denied⟩ := by
  cases came
  cases p <;> rfl

theorem rationed_storesApart : rationed.served.StoresApart := by
  intro e member slot same
  obtain rfl := List.mem_singleton.mp member
  cases same

theorem rationed_untrapped :
    rationed.served.Untrapped 0 (rationed.atStart (listening closing)) :=
  rationed.untrapped_atStart (by decide +kernel) (r := .returned (some (.int 0)))
    (by decide +kernel)

theorem atStart_body {symbols : SymbolTable} (k : Gating symbols)
    (w : EventWorld String) : (k.atStart w).frame.body = k.served.spliced.body :=
  rfl

theorem rationed_point : (rationed.atStart (listening closing)).frame.pc =
    rationed.served.point :=
  rfl

/-- The sale is denied, and the journal says so. -/
theorem rationed_exit_recorded :
    rationed.served.StoresApart ∧
      rationed.served.Untrapped 0 (rationed.atStart (listening closing)) ∧
      ∃ c', rationed.served.Crosses 0 (rationed.atStart (listening closing)) c' ∧
        c'.world.journal.map InvocationRecord.exit = [.earlyExit] ∧
        c'.frame.pc = rationed.served.spliced.denyPosition := by
  refine ⟨rationed_storesApart, rationed_untrapped, ?_⟩
  obtain ⟨c', h, object, r, d, b, crossed, -, -, asked, came, noted, path⟩ :=
    (exit_recorded rationed.machine 0).2 rationed.served _ rationed_storesApart
      (rationed.atStart_body _) rationed_point rationed_untrapped
  have raised : "sell" = r.hook := Value.text.inj (List.cons.inj (readRequest_eq_ok asked).1).1
  rw [← raised] at came
  have exit : (r.record d).exit = .earlyExit := by
    show d.report.verdict.exit = _
    rw [report_closing came]
    rfl
  have size : r.KeepsSize d := by
    refine Event.BusState.dispatch?_size (fun s member => ?_) came
    obtain rfl := List.mem_singleton.mp member
    exact closing_keepsSize
  refine ⟨c', crossed, ?_, ?_⟩
  · rw [noted]
    exact congrArg (fun exit => [exit]) exit
  · rw [path size]
    exact (congrArg rationed.served.leadsTo exit).trans (leadsTo_earlyExit _)

/-! ### Where the journal and the hook code disagree -/

/-- A gate that raises an event without a further field. -/
def announcing : EventGate :=
  ⟨"sell", .action, [.arg 0], [], .returning (.int 0)⟩

/-- The gate in the body of the shop. -/
def announced : Gating (announcing.build.runOn shop).2 :=
  .ofGate announcing (Except.run_eq_ok_value (by decide +kernel)) selling 0 verifying rfl
    (Except.eq_ok_value (by decide +kernel))

/-- A subscriber that denies with a payload of another kind. -/
def swapping : Event.Script String :=
  .write (.amount .null 5 false) (.finish .done)

/-- A gate that stores a field of the event over the event. -/
def shadowing : EventGate :=
  ⟨"sell", .substitute, [.null, .arg 0], [(.value, .slot 0)], .returning (.int 0)⟩

/-- The gate in the body of the shop. -/
def shadowed : Gating (shadowing.build.runOn shop).2 :=
  .ofGate shadowing (Except.run_eq_ok_value (by decide +kernel)) selling 0 verifying rfl
    (Except.eq_ok_value (by decide +kernel))

/-- A sale, with one subscriber. -/
def sale {symbols : SymbolTable} (k : Gating symbols) (script : Event.Script String) :
    CallOutcome (EventWorld String) :=
  (k.machine.bindEvents k.contract 0).call k.spliced.body.method order stock (listening script)

/-- Without these conditions the recorded exit need not be the path taken.  A subscriber that denies
    with a payload of another kind leaves its amount as the mark, and the sale goes on.  A gate that
    stores a field over the event looks for the mark on the article, and an allowed sale does not go
    on. -/
theorem exit_not_taken :
    ((announced.sale swapping).world.journal.map InvocationRecord.exit = [.earlyExit] ∧
      (announced.contract.action.field? .allowed).bind
        ((announced.sale swapping).heap.loadField? ⟨1⟩) = some (.int 5) ∧
      (announced.sale swapping).result = .ok (some (.int 3))) ∧
    (shadowed.sale (.finish .done)).world.journal.map InvocationRecord.exit = [.continuation] ∧
      (shadowed.sale (.finish .done)).result = .ok (some (.int 0)) := by
  decide +kernel

end Gating

end HookSplice
