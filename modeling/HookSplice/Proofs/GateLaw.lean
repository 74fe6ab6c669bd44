import HookSplice.Proofs.RecordedExits
import HookSplice.Proofs.ReturnStubs
import HookSplice.Proofs.SplicedDepths
import HookSplice.Proofs.StackBounds

/-!
# The law of a gate

What a passage through an event gate changes, and nothing else: the program counter goes where the
event says, the event is the one new object on the heap, the scratch local holds it, and the slots
that are read back hold what the dispatch has left in its fields.  When the deny target is an early
return, a denied activation then returns its value.
-/

namespace HookSplice

open Event (PayloadField)

/-! ### Heaps with one more object -/

namespace Heap

/-- The heap with one more object. -/
def adding (h : Heap) (o : Object) : Heap :=
  { h with objects := h.objects.push o }

/-- The handle that the next object gets. -/
def next (h : Heap) : ObjectId :=
  ⟨h.objects.size⟩

theorem object?_adding (h : Heap) (o : Object) : (h.adding o).object? h.next = some o :=
  Array.getElem?_push_size

theorem storeField?_adding (h : Heap) (o : Object) (field : FieldId) (v : Value) :
    (h.adding o).storeField? h.next field v =
      some (h.adding { o with fields := o.fields.store field v }) := by
  have below : h.next.index < (h.adding o).objects.size := by
    simp [next, adding]
  have changed : (h.adding o).objects.modify h.next.index
      (fun o => { o with fields := o.fields.store field v }) =
        (h.adding { o with fields := o.fields.store field v }).objects := by
    apply Array.ext_getElem?
    intro i
    simp only [adding, next, Array.getElem?_modify, Array.getElem?_push]
    by_cases last : h.objects.size = i
    · simp [last]
    · simp [last, Ne.symm last]
  exact storeField?_eq_some_iff.mpr ⟨below, by rw [changed]; rfl⟩

/-- Writing fields of the new object changes nothing else. -/
theorem storeFields?_adding {h k : Heap} {o : Object} {entries : List (FieldId × Value)}
    (stored : (h.adding o).storeFields? h.next entries = some k) : ∃ o', k = h.adding o' := by
  induction entries generalizing o with
  | nil =>
      cases stored
      exact ⟨o, rfl⟩
  | cons e rest ih =>
      obtain ⟨field, v⟩ := e
      rw [storeFields?_cons, storeField?_adding] at stored
      exact ih stored

end Heap

/-- A dispatch writes to the object that it is given only. -/
theorem EventContract.dispatchNative_adding {ρ : Type} {contract : EventContract} {depth : Nat}
    {h k : Heap} {w u : EventWorld ρ} {o : Object} {hook : String}
    (whole : contract.dispatchNative depth (h.adding o) w [.text hook, .object h.next] =
      ⟨.ok none, k, u⟩) : ∃ event, k = h.adding event := by
  obtain ⟨r, d, b, k', asked, -, written, whole'⟩ :=
    dispatchNative_recorded (congrArg NativeOutcome.result whole)
  obtain ⟨rfl, -⟩ := (NativeOutcome.mk.inj (whole.symm.trans whole')).2
  obtain ⟨shape, -⟩ := readRequest_eq_ok asked
  obtain ⟨-, same⟩ : hook = r.hook ∧ h.next = r.object := by simpa using shape
  rw [← same] at written
  exact Heap.storeFields?_adding written

/-- A constructor gives no result. -/
theorem EventClass.constructorNative_none {σ : Type} {c : EventClass} {h : Heap} {w : σ}
    {args : List Value} {result : Option Value}
    (success : (c.constructorNative h w args).result = .ok result) : result = none := by
  unfold constructorNative at success
  split at success
  · split at success
    · cases success
      rfl
    · cases success
  · cases success

/-! ### What is read back -/

/-- The field that a gate reads back last into a slot with some property, as an object of the class
    has it. -/
def EventClass.readBack? (c : EventClass) (event : Object)
    (readBack : List (PayloadField × Slot)) (into : Slot → Bool) : Option Value :=
  (readBack.reverse.find? fun e => into e.2).bind fun e =>
    (c.field? e.1).map event.fields.load

theorem find?_map_of_forall₂ {α β γ : Type} {related : α → β → Prop} {p : α → Bool}
    {q : β → Bool} {f : α → Option γ} {g : β → γ}
    (agree : ∀ {a b}, related a b → p a = q b ∧ f a = some (g b)) {as : List α} {bs : List β}
    (listed : List.Forall₂ related as bs) : (bs.find? q).map g = (as.find? p).bind f := by
  induction listed with
  | nil => rfl
  | cons first _ ih =>
      obtain ⟨same, value⟩ := agree first
      rw [List.find?_cons, List.find?_cons, same]
      split
      · exact value.symm
      · exact ih

theorem EventGate.Stores.lastStored?_eq {c : EventClass} {readBack : List (PayloadField × Slot)}
    {stores : List (FieldId × Slot)} (listed : Stores c readBack stores) (event : Object)
    (into : Slot → Bool) : event.lastStored? stores into = c.readBack? event readBack into := by
  refine find?_map_of_forall₂ (fun {e s} same => ?_) (List.forall₂_reverse_iff.mpr listed)
  obtain ⟨known, slot⟩ := same
  exact ⟨congrArg into slot.symm, by rw [known]; rfl⟩

/-! ### The gate in a body -/

theorem Machine.distinct_of_implementation {σ : Type} {m : Machine σ} {method : MethodId}
    {n depth : Nat} {b : Body} (found : m.implementation method n depth = .ok (.body b)) :
    (Code.labels b.code).Nodup := by
  cases implementation_eq_iff.mp found with
  | body _ _ _ _ _ distinct => exact (Code.duplicate?_eq_none_iff _).mp distinct

theorem Splice.Sited.of_returning {body : Body} {signature : MethodDef} {point : Nat}
    {v : ReturnValue} {site : DenySite} (sited : Sited body signature point (.returning v) site) :
    site.target = none ∧ v.fits signature := by
  cases sited with
  | returning fits closed => exact ⟨rfl, fits⟩

namespace Gating

variable {symbols : SymbolTable}

/-- The value that an event object has in a field of the gate's event. -/
def value? (k : Gating symbols) (event : Object) (f : PayloadField) : Option Value :=
  ((k.contract.eventClass k.gate.kind).field? f).map event.fields.load

/-- The event object is marked as allowed. -/
def allows (k : Gating symbols) (event : Object) : Bool :=
  (k.value? event .allowed).any Value.isTruthy

/-- The value that the gate reads back last into a slot with some property. -/
def readBack? (k : Gating symbols) (event : Object) (into : Slot → Bool) : Option Value :=
  (k.contract.eventClass k.gate.kind).readBack? event k.gate.readBack into

variable {ρ : Type} {m : Machine (EventWorld ρ)} {depth : Nat}

/-- The second configuration is what the gate makes of the first one with an event object that the
    dispatch has left. -/
structure Makes (k : Gating m.host.symbols) (event : Object) (c c' : Config (EventWorld ρ)) :
    Prop where
  body : c'.frame.body = c.frame.body
  pc : c'.frame.pc =
    if k.allows event then k.point + k.spliced.count else k.spliced.denyPosition
  stack : c'.frame.stack = c.frame.stack
  pending : c'.frame.pending = c.frame.pending
  callers : c'.callers = c.callers
  args : ∀ i : Nat, c'.frame.args[i]? =
    (k.readBack? event (Slot.isArg i)).or c.frame.args[i]?
  locals : ∀ i : Nat, c'.frame.locals[i]? =
    if i = k.body.locals.length then some (.object c.heap.next)
    else (k.readBack? event (Slot.isLocal i)).or c.frame.locals[i]?
  heap : c'.heap = c.heap.adding event

theorem Makes.args_le {k : Gating m.host.symbols} {event : Object} {c c' : Config (EventWorld ρ)}
    (makes : k.Makes event c c') : c.frame.args.length ≤ c'.frame.args.length := by
  by_contra shorter
  have old := List.getElem?_eq_getElem (Nat.lt_of_not_le shorter)
  have new := makes.args c'.frame.args.length
  rw [old, List.getElem?_eq_none (Nat.le_refl _)] at new
  cases kept : k.readBack? event (Slot.isArg c'.frame.args.length) <;> simp [kept] at new

theorem exists_makes (k : Gating m.host.symbols) (apart : k.StoresApart)
    {c : Config (EventWorld ρ)} (body : c.frame.body = k.spliced.body)
    (start : c.frame.pc = k.point) (untrapped : k.Untrapped depth c) :
    ∃ c' event, k.Crosses depth c c' ∧ k.Makes event c c' := by
  obtain ⟨allowed, stores, slot, deny, known, listed, apart', place, count, found, balanced,
    inserted⟩ := k.inserted apart untrapped
  have inTable := (EventContract.declare_runOn k.declared).2.grow k.grown
  obtain ⟨n, type, entries, h₁, h₂, w₂, stored, -, whole, room, -, passed⟩ :=
    inserted.dispatches inTable known (Machine.lookup_constructor inTable k.gate.kind)
      Machine.lookup_dispatch balanced body (k.crosses_inside start)
  -- Neither the constructor nor the dispatch writes to another object.
  obtain ⟨made, rfl⟩ : ∃ made, h₁ = c.heap.adding made := Heap.storeFields?_adding stored
  obtain ⟨event, rfl⟩ := EventContract.dispatchNative_adding whole
  obtain ⟨args, locals', passed', given, set⟩ := inserted.leaves apart' found body
    (c.heap.object?_adding event) (List.getElem?_set_self room) passed
  refine ⟨_, event, passed', rfl, ?_, rfl, rfl, rfl, fun i => ?_, fun i => ?_, rfl⟩
  · have allows : k.allows event = (event.fields.load allowed).isTruthy := by
      rw [Gating.allows, value?, known]
      rfl
    rw [allows, count]
    rfl
  · exact (given i).trans (by rw [listed.lastStored?_eq]; rfl)
  · rw [← place]
    refine (set i).trans ?_
    split
    · next scratch =>
        rw [scratch, event.lastStored?_of_apart apart', Option.none_or,
          List.getElem?_set_self room]
    · next other =>
        rw [listed.lastStored?_eq, List.getElem?_set_ne (Ne.symm other)]
        rfl

/-! ### What stands around the gate -/

theorem template_eq (k : Gating symbols) : ∃ allowed stores,
    k.template.steps = k.gate.steps k.contract allowed stores ∧ k.template.delta = 0 ∧
      k.template.deny = k.gate.deny := by
  obtain ⟨contract, declared, templated⟩ := EventGate.build_templateOver k.built
  obtain rfl := Except.ok.inj (Prod.mk.inj (declared.symm.trans k.declared)).1
  obtain ⟨allowed, stores, -, -, template⟩ := EventGate.templateOver_steps templated
  exact ⟨allowed, stores, congrArg Template.steps template, congrArg Template.delta template,
    congrArg Template.deny template⟩

/-- Behind the gate stands the old instruction. -/
theorem getElem?_behind (k : Gating symbols) : ∃ old ins, k.body.code[k.point]? = some old ∧
    k.spliced.body.code[k.point + k.spliced.count]? = some ins ∧ ins.Alike old := by
  obtain ⟨d, -, -, spliced⟩ := Splice.splice_eq_ok k.success
  have here := List.getElem?_eq_getElem d.inside
  obtain ⟨ins, there, alike⟩ := d.getElem?_moved here
  rw [Splice.moved, if_pos (Nat.le_refl k.point)] at there
  rw [spliced]
  exact ⟨_, ins, here, there, alike⟩

/-- The deny position lies behind the gate. -/
theorem le_denyPosition (k : Gating symbols) :
    k.point + k.spliced.count ≤ k.spliced.denyPosition := by
  obtain ⟨d, -, -, spliced⟩ := Splice.splice_eq_ok k.success
  have inside := d.inside
  have position : d.denyPosition = (d.site.target.getD k.body.size) + d.run.length := by
    unfold Splice.Done.denyPosition
    cases d.site.target <;> rfl
  rw [spliced]
  show k.point + d.run.length ≤ d.denyPosition
  rw [position]
  cases target : d.site.target with
  | none =>
      show k.point + _ ≤ k.body.size + _
      omega
  | some t =>
      have distinct : (Code.labels d.result.code).Nodup := by
        have distinct := k.distinct
        rwa [spliced] at distinct
      obtain ⟨follows, -⟩ :=
        (Splice.denySite_eq_ok d.sited).target_found (d.distinct_site distinct) target
      show k.point + _ ≤ t + _
      omega

/-- An early return stands behind all the code of the body. -/
theorem stubAt (k : Gating symbols) {v : ReturnValue} (returns : k.gate.deny = .returning v) :
    ∃ signature, symbols.method? k.body.method = some signature ∧ v.fits signature ∧
      k.spliced.body.method = k.body.method ∧
      k.spliced.denyPosition = k.body.size + k.spliced.count ∧
      k.spliced.body.StubAt k.spliced.denyPosition k.spliced.depth v := by
  obtain ⟨d, -, -, spliced⟩ := Splice.splice_eq_ok k.success
  obtain ⟨allowed, stores, -, balanced, deny⟩ := k.template_eq
  have sited := Splice.denySite_eq_ok d.sited
  rw [deny, returns] at sited
  obtain ⟨target, fits⟩ := sited.of_returning
  have distinct : (Code.labels d.result.code).Nodup := by
    have distinct := k.distinct
    rwa [spliced] at distinct
  -- The deny branch leaves the gate with as many values as were there on entry.
  have level : d.delta = 0 := by
    obtain ⟨e, exit, leads, -, last⟩ := d.exists_exit distinct
    rw [← d.checks.exits e exit leads, last, d.checks.balance, balanced]
    rfl
  have position : d.denyPosition = k.body.size + d.run.length := by
    unfold Splice.Done.denyPosition
    rw [target]
  have stub : d.stub = Splice.returnStub d.depth v d.site.label := by
    unfold Splice.Done.stub Splice.stubFor
    rw [deny, returns, level]
    simp
  have code (j : Nat) : d.result.code[d.denyPosition + j]? =
      (Splice.returnStub d.depth v d.site.label)[j]? := by
    rw [position, d.getElem?_stub, stub]
  rw [spliced]
  exact ⟨d.signature, d.declared, fits, d.method_eq, position, Body.stubAt_of_code code⟩

/-- The native code of the events gives no results, as the signatures say. -/
theorem bindEvents_nativesReturn (k : Gating m.host.symbols) (natives : m.NativesReturn) :
    (m.bindEvents k.contract depth).NativesReturn := by
  have declared := (EventContract.declare_runOn k.declared).2.grow k.grown
  intro method code signature bound found heap world args result arity success
  obtain ⟨rfl, rfl⟩ | ⟨kind, rfl, rfl⟩ | bound := Machine.lookup_bindEvents bound
  · obtain ⟨r, d, b, k, -, -, -, whole⟩ := EventContract.dispatchNative_recorded success
    rw [whole] at success
    cases success
    rw [declared.dispatch_void found]
    rfl
  · rw [EventClass.constructorNative_none success, declared.constructor_void found]
    rfl
  · exact natives method code signature bound found heap world args result arity success

/-- On a run whose native code honours the signatures, the stack holds at the gate what the verifier
    has found at the splice point, if the new body verifies too, and there are as many arguments as
    the method takes. -/
theorem stack_at_gate (k : Gating m.host.symbols) {v : ReturnValue}
    (returns : k.gate.deny = .returning v) (natives : m.NativesReturn)
    {limit : Nat} {map : StackMap}
    (analyzed : StackMap.analyze m.host.symbols k.spliced.body limit = .ok map)
    {method : MethodId} {args : List Value} {h : Heap} {w : EventWorld ρ}
    {c : Config (EventWorld ρ)}
    (visited : (m.bindEvents k.contract depth).Visits method args h w c)
    (body : c.frame.body = k.spliced.body) (start : c.frame.pc = k.point) :
    c.frame.stack.length = k.spliced.depth ∧
      ∀ signature, m.host.symbols.method? k.body.method = some signature →
        c.frame.args.length = signature.argCount := by
  obtain ⟨d, -, -, spliced⟩ := Splice.splice_eq_ok k.success
  have result : k.spliced.body = d.result := congrArg Spliced.body spliced
  have level : k.spliced.depth = d.depth := congrArg Spliced.depth spliced
  obtain ⟨allowed, stores, steps, balanced, deny⟩ := k.template_eq
  obtain ⟨enclosing, declared, verified⟩ := StackMap.analyze_eq_ok analyzed
  have ready := (visited.keeps (k.bindEvents_nativesReturn natives) analyzed declared).frame body
  obtain rfl : enclosing = d.signature := by
    rw [result, d.method_eq] at declared
    exact Option.some.inj (declared.symm.trans d.declared)
  constructor
  · have distinct : (Code.labels d.result.code).Nodup := result ▸ k.distinct
    have sited := Splice.denySite_eq_ok d.sited
    rw [deny, returns] at sited
    obtain ⟨target, -⟩ := sited.of_returning
    have depths := d.depthMap distinct (fun t known => by rw [target] at known; cases known)
      balanced fun ins emitted => by
        rw [steps] at emitted
        exact EventGate.ne_ret_of_emit emitted
    rw [result] at analyzed declared verified
    have outcome := StackMap.analyze_overflows limit False verified.nonempty declared
      verified.structured depths False.elim
    rw [analyzed] at outcome
    have found := outcome _ _ ready.depth
    have known := d.depths_shiftBound d.known
    rw [start] at found
    rw [Splice.shiftBound_self, found] at known
    rw [level]
    exact Option.some.inj known
  · intro signature own
    obtain rfl := Option.some.inj (own.symm.trans d.declared)
    exact ready.args

/-! ### The law -/

/-- A denied activation that comes to the stub of an early return with enough values on its stack
    returns the value. -/
theorem Makes.returns {k : Gating m.host.symbols} {event : Object} {c c' : Config (EventWorld ρ)}
    (makes : k.Makes event c c') (body : c.frame.body = k.spliced.body)
    (denied : k.allows event = false) {v : ReturnValue} (deny : k.gate.deny = .returning v)
    (enough : k.spliced.depth ≤ c.frame.stack.length)
    (arity : ∀ signature, m.host.symbols.method? k.body.method = some signature →
      c.frame.args.length = signature.argCount) :
    ∃ d, (m.bindEvents k.contract depth).Crosses k.spliced.body
        (k.body.size + k.spliced.count) (k.spliced.depth + v.load.length + 1) c' d ∧
      d.Within k.spliced.body (k.body.size + k.spliced.count)
        (k.spliced.depth + v.load.length + 1) ∧
      (m.bindEvents k.contract depth).step d =
        Machine.giveBack (v.value? c'.frame.args) c'.callers c'.heap c'.world := by
  obtain ⟨signature, declared, fits, method, position, stub⟩ := k.stubAt deny
  have there : c'.frame.pc = k.spliced.denyPosition := by
    rw [makes.pc, denied]
    rfl
  have given : signature.argCount ≤ c'.frame.args.length := by
    rw [← arity signature declared]
    exact makes.args_le
  rw [← position]
  exact Machine.drains stub (makes.body.trans body) there (makes.stack ▸ enough)
    (method ▸ declared) fits given

/-- The local law of a gate.  Control that comes to a gate and meets no trap there comes out at the
    old instruction if the event is still marked as allowed, and at the deny position if not, with
    nothing changed but what `Makes` says.  If the deny target is an early return, and the stack
    holds the values that the verifier has found at the splice point, a denied activation then
    returns the value, and runs nothing but the stub before.  The stack holds as many values, and
    there are as many arguments as the method takes, on every run whose native code honours the
    signatures, if the new body verifies.  And no body in which a label stands twice is ever run. -/
theorem local_law (m : Machine (EventWorld ρ)) (depth : Nat) :
    (∀ (k : Gating m.host.symbols) (c : Config (EventWorld ρ)), k.StoresApart →
      c.frame.body = k.spliced.body → c.frame.pc = k.point → k.Untrapped depth c →
      ∃ c' event, k.Crosses depth c c' ∧ ¬ c'.Within k.spliced.body k.point k.spliced.count ∧
        k.Makes event c c' ∧
        (k.allows event = true → ∃ old ins, k.body.code[k.point]? = some old ∧
          c'.frame.body.code[c'.frame.pc]? = some ins ∧ ins.Alike old) ∧
        ∀ v, k.gate.deny = .returning v → k.allows event = false →
          k.spliced.depth ≤ c.frame.stack.length →
          (∀ signature, m.host.symbols.method? k.body.method = some signature →
            c.frame.args.length = signature.argCount) →
          ∃ d, (m.bindEvents k.contract depth).Crosses k.spliced.body
              (k.body.size + k.spliced.count) (k.spliced.depth + v.load.length + 1) c' d ∧
            d.Within k.spliced.body (k.body.size + k.spliced.count)
              (k.spliced.depth + v.load.length + 1) ∧
            (m.bindEvents k.contract depth).step d =
              Machine.giveBack (v.value? c'.frame.args) c'.callers c'.heap c'.world) ∧
    (∀ (k : Gating m.host.symbols) (v : ReturnValue) (limit : Nat) (map : StackMap)
      (method : MethodId) (args : List Value) (h : Heap) (w : EventWorld ρ)
      (c : Config (EventWorld ρ)), k.gate.deny = .returning v →
      m.NativesReturn →
      StackMap.analyze m.host.symbols k.spliced.body limit = .ok map →
      (m.bindEvents k.contract depth).Visits method args h w c →
      c.frame.body = k.spliced.body → c.frame.pc = k.point →
      c.frame.stack.length = k.spliced.depth ∧
        ∀ signature, m.host.symbols.method? k.body.method = some signature →
          c.frame.args.length = signature.argCount) ∧
    ∀ method n level b, m.implementation method n level = .ok (.body b) →
      (Code.labels b.code).Nodup := by
  refine ⟨fun k c apart body start untrapped => ?_,
    fun k v limit map method args h w c returns natives analyzed visited body start =>
      k.stack_at_gate returns natives analyzed visited body start,
    fun method n level b => Machine.distinct_of_implementation⟩
  obtain ⟨c', event, crossed, makes⟩ := k.exists_makes apart body start untrapped
  refine ⟨c', event, crossed, fun inside => ?_, makes, fun allowed => ?_,
    fun v deny denied enough arity => makes.returns body denied deny enough arity⟩
  · have upper := inside.2.2
    have behind := k.le_denyPosition
    rw [makes.pc] at upper
    split at upper <;> omega
  · rw [makes.body, body, makes.pc, if_pos allowed]
    exact k.getElem?_behind

theorem rationed_analyzed :
    ∃ map, StackMap.analyze rationed.machine.host.symbols rationed.served.spliced.body 8 =
      .ok map :=
  ⟨_, Except.eq_ok_value (by decide +kernel)⟩

theorem visits_atStart {symbols : SymbolTable} (k : Gating symbols) {w : EventWorld String}
    {depth : Nat} (found : ((k.machine.bindEvents k.contract depth).implementation
      k.spliced.body.method order.length 0).toOption.bind Implementation.body? =
        some k.spliced.body) :
    (k.machine.bindEvents k.contract depth).Visits k.spliced.body.method order stock w
      (k.atStart w) :=
  .entered (Machine.enter_of_body found)

theorem rationed_implementation :
    ((rationed.machine.bindEvents rationed.contract 0).implementation rationed.spliced.body.method
      order.length 0).toOption.bind Implementation.body? = some rationed.spliced.body := by
  decide +kernel

/-- The sale that is denied gives back that nothing was sold. -/
theorem rationed_local_law :
    rationed.served.StoresApart ∧
      rationed.served.Untrapped 0 (rationed.atStart (listening closing)) ∧
      (∃ c' event, rationed.served.Crosses 0 (rationed.atStart (listening closing)) c' ∧
        rationed.served.Makes event (rationed.atStart (listening closing)) c' ∧
        (rationed.served.allows event = false → ∃ d,
          (rationed.machine.bindEvents rationed.contract 0).step d =
            .ended (.ok (.returned (some (.int 0)))) c'.heap c'.world)) ∧
      (rationed.atStart (listening closing)).frame.stack.length = rationed.served.spliced.depth ∧
      (Code.labels rationed.served.spliced.body.code).Nodup := by
  obtain ⟨law, runs, -⟩ := local_law rationed.machine 0
  have active := (local_law (rationed.machine.bindEvents rationed.contract 0) 0).2.2
  obtain ⟨map, analyzed⟩ := rationed_analyzed
  obtain ⟨level, arity⟩ := runs rationed.served (.int 0) 8 map _ _ _ _ _ rfl
    (fun method code signature bound => by cases bound) analyzed
    (rationed.visits_atStart rationed_implementation)
    (rationed.atStart_body _) rationed_point
  obtain ⟨c', event, crossed, -, makes, -, returns⟩ := law rationed.served _ rationed_storesApart
    (rationed.atStart_body _) rationed_point rationed_untrapped
  refine ⟨rationed_storesApart, rationed_untrapped, ⟨c', event, crossed, makes, fun denied => ?_⟩,
    level, ?_⟩
  · obtain ⟨d, -, -, stepped⟩ := returns (.int 0) rfl denied (Nat.le_of_eq level.symm) arity
    rw [makes.callers] at stepped
    exact ⟨d, stepped⟩
  · exact active _ _ _ _ (Machine.implementation_of_body? rationed_implementation)

/-! ### An operand that is missing -/

/-- The symbols of a shop that draws lots before it sells. -/
def lottery : SymbolTable where
  typeNames := ["Shop", "object", "int"]
  fields := []
  methods := [⟨⟨⟨0⟩, "Sell", [], some ⟨2⟩, true⟩, "Shop::Sell()"⟩,
    ⟨⟨⟨0⟩, "Draw", [], some ⟨2⟩, true⟩, "Shop::Draw()"⟩]

/-- A body that draws a lot, and throws whatever it is. -/
def drawing : Body :=
  .ofParts ⟨0⟩ [.of .call (.method ⟨1⟩), .of .ldstr (.text "closed"), .plain .throw] [] []

/-- A gate that raises an event about nothing. -/
def warning : EventGate :=
  ⟨"sell", .action, [.null], [], .returning (.int 0)⟩

/-- The gate behind the draw, where one number is on the stack. -/
def warned : Gating (warning.build.runOn lottery).2 :=
  .ofGate warning (Except.run_eq_ok_value (by decide +kernel)) drawing 1 .default rfl
    (Except.eq_ok_value (by decide +kernel))

/-- The draw is bound to native code that gives no number. -/
def blank : Machine (EventWorld String) :=
  warned.machine.bind ⟨1⟩ fun h w _ => ⟨.ok none, h, w⟩

/-- When native code has not left the number on the stack that its signature promises, the denied
    activation does not return: it stops at the first instruction of the stub. -/
theorem warned_not_returned :
    warned.spliced.depth = 1 ∧ warned.spliced.denyPosition = 12 ∧
      ((blank.bindEvents warned.contract 0).call ⟨0⟩ [] stock (listening closing)).result =
        .error (.fault "Shop::Sell()" 12 .stackUnderflow) ∧
      ((blank.bindEvents warned.contract 0).call ⟨0⟩ [] stock
        (listening closing)).world.journal.map Event.InvocationRecord.exit = [.earlyExit] := by
  decide +kernel

end Gating

end HookSplice
