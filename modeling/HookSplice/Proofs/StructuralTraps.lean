import HookSplice.Proofs.HandlerEntries

/-!
# Traps of calls and of finally handlers

A call takes as many values from the stack as its callee expects, and the callee is there: the
verifier checks the operand, and the machine counts the arguments as the callee does.  So no call of
a verified body is refused for its number of arguments or for a method that is not declared.  An
`endfinally` finds something put off wherever it stands in a finally handler that control enters
only by way of its region.
-/

namespace HookSplice

/-- Whether a trap says that a method is not declared, or takes another number of arguments. -/
def Trap.ofCallee : Trap → Bool
  | unknownMethod _ | arity .. | fault _ _ (.symbol _) => true
  | _ => false

/-- Whether a trap says that an `endfinally` found nothing put off. -/
def Trap.ofStrayEnd : Trap → Bool
  | fault _ _ .endFinallyOutside => true
  | _ => false

/-- The instruction calls a method; if it makes an object, then with an instance method. -/
def Instruction.Invokes (symbols : SymbolTable) (ins : Instruction) : Prop :=
  ins.opcode = .call ∨ ins.opcode = .callvirt ∨
    ins.opcode = .newobj ∧ ∀ id signature, ins.operand = .method id →
      symbols.method? id = some signature → ¬ signature.isStatic

/-! ### Calls -/

/-- The callee of an instruction with a method operand is declared. -/
theorem Body.Structured.exists_callee {symbols : SymbolTable} {argCount p : Nat} {b : Body}
    {ins : Instruction} (sound : b.Structured symbols argCount) (here : b.code[p]? = some ins)
    (kind : ins.opcode.operandKind = .method) : ∃ id signature, ins.operand = .method id ∧
      symbols.method? id = some signature ∧ ins.callee symbols = .ok (id, signature) := by
  obtain ⟨fits, inRange⟩ := StackMap.operandFault?_eq_none_iff.mp (sound.operands here)
  cases operand : ins.operand with
  | method id =>
      simp only [Body.OperandInRange, operand] at inRange
      obtain ⟨signature, found⟩ := Option.isSome_iff_exists.mp inRange
      exact ⟨id, signature, rfl, found, by simp [Instruction.callee, operand, found]⟩
  | _ => simp [Instruction.operandFits, kind, operand, Operand.kind] at fits

theorem Frame.length_popMany {f g : Frame} {n : Nat} {args : List Value}
    (popped : f.popMany n = .ok (args, g)) : args.length = n := by
  unfold popMany at popped
  split at popped
  · cases popped
  next enough =>
    cases popped
    simp only [List.length_reverse, List.length_take]
    omega

theorem Frame.popMany_eq_error {f : Frame} {n : Nat} {mishap : Mishap}
    (stopped : f.popMany n = .error mishap) : mishap = .fault .stackUnderflow := by
  unfold popMany at stopped
  split at stopped
  · cases stopped
    rfl
  · cases stopped

namespace Action

variable {symbols : SymbolTable} {heap : Heap} {ins : Instruction} {f : Frame} {id : MethodId}
  {signature : MethodDef}

/-- What a call may lead to: the callee gets as many arguments as it takes, or there was something
    wrong with the values on the stack. -/
def Supplies (symbols : SymbolTable) : Except Mishap Action → Prop
  | .ok (call _ callee args _ _) => ∃ signature, symbols.method? callee = some signature ∧
      args.length = signature.argCount
  | .ok _ => False
  | .error mishap => mishap = .fault .stackUnderflow ∨ mishap = .nullReference

theorem callMethod_supplies (callee : ins.callee symbols = .ok (id, signature))
    (found : symbols.method? id = some signature) (needsReceiver : Bool) :
    Supplies symbols (callMethod symbols heap needsReceiver ins f) := by
  unfold callMethod
  rw [callee, Except.ok_bind]
  dsimp only
  cases popped : f.popMany signature.argCount with
  | error mishap => exact Or.inl (Frame.popMany_eq_error popped)
  | ok taken =>
      rw [Except.ok_bind]
      split
      · exact Or.inr rfl
      · exact ⟨signature, found, Frame.length_popMany popped⟩

theorem construct_supplies (callee : ins.callee symbols = .ok (id, signature))
    (found : symbols.method? id = some signature) (receiver : ¬ signature.isStatic) :
    Supplies symbols (construct symbols heap ins f) := by
  unfold construct
  rw [callee, Except.ok_bind]
  dsimp only
  cases popped : f.popMany signature.params.length with
  | error mishap => exact Or.inl (Frame.popMany_eq_error popped)
  | ok taken =>
      refine ⟨signature, found, ?_⟩
      rw [List.length_cons, Frame.length_popMany popped, MethodDef.argCount, if_neg receiver]

/-- A call in a verified body supplies its callee. -/
theorem ofInstruction_supplies {b : Body} {argCount p position : Nat}
    (sound : b.Structured symbols argCount) (here : b.code[p]? = some ins)
    (invokes : ins.Invokes symbols) :
    Supplies symbols (ofInstruction symbols heap position f ins) := by
  have kind : ins.opcode.operandKind = .method := by
    rcases invokes with op | op | ⟨op, -⟩ <;> rw [op] <;> rfl
  obtain ⟨id, signature, operand, found, callee⟩ := sound.exists_callee here kind
  unfold ofInstruction
  rcases invokes with op | op | ⟨op, receiver⟩
  · rw [op]
    exact callMethod_supplies callee found false
  · rw [op]
    exact callMethod_supplies callee found true
  · rw [op]
    exact construct_supplies callee found (receiver id signature operand found)

end Action

namespace Machine

variable {σ : Type} {m : Machine σ}

/-- A declared method that gets as many arguments as it takes is not refused for either. -/
theorem implementation_supplied {method : MethodId} {signature : MethodDef} {n depth : Nat}
    {trap : Trap} (found : m.host.symbols.method? method = some signature)
    (supplied : n = signature.argCount) (refused : m.implementation method n depth = .error trap) :
    ¬ trap.ofCallee := by
  intro blamed
  cases implementation_eq_iff.mp refused with
  | crowded | absent | repeated => cases blamed
  | unknown _ undeclared => cases found.symm.trans undeclared
  | misfit _ declared arity =>
      obtain rfl := Option.some.inj (found.symm.trans declared)
      exact absurd supplied arity

theorem enter_supplied {method : MethodId} {signature : MethodDef} {args : List Value}
    {callers : List Caller} {heap heap' : Heap} {world world' : σ} {trap : Trap}
    (found : m.host.symbols.method? method = some signature)
    (supplied : args.length = signature.argCount)
    (stopped : m.enter method args callers heap world = .ended (.error trap) heap' world')
    (blamed : trap.ofCallee) : m.NativeTraps method args callers.length heap world trap := by
  rcases enter_eq_error stopped with refusal | traps
  · exact absurd blamed (implementation_supplied found supplied refusal)
  · exact traps

/-- A call in a verified body. -/
theorem step_supplied (verifies : m.host.Verifies) {c : Config σ}
    (member : c.frame.body ∈ m.host.bodies) {ins : Instruction}
    (here : c.frame.body.code[c.frame.pc]? = some ins) (invokes : ins.Invokes m.host.symbols)
    {trap : Trap} {heap : Heap} {world : σ} (stopped : m.step c = .ended (.error trap) heap world)
    (blamed : trap.ofCallee) : m.HandsOn c trap := by
  obtain ⟨argCount, sound⟩ := verifies.structured member
  have supplies : Action.Supplies m.host.symbols (Action.ofInstruction m.host.symbols c.heap
      c.frame.pc { c.frame with pc := c.frame.pc + 1 } ins) :=
    Action.ofInstruction_supplies sound here invokes
  cases step_eq_error stopped with
  | beyond absent => cases here.symm.trans absent
  | stopped here' ran =>
      obtain rfl := Option.some.inj (here.symm.trans here')
      rw [ran] at supplies
      rcases supplies with rfl | rfl <;> cases blamed
  | refused here' ran refusal =>
      obtain rfl := Option.some.inj (here.symm.trans here')
      rw [ran] at supplies
      obtain ⟨signature, found, supplied⟩ := supplies
      exact absurd blamed (implementation_supplied found supplied refusal)
  | handed handsOn => exact handsOn

/-! ### Ends of finally handlers -/

/-- An `endfinally` that finds something put off goes on with it. -/
theorem step_put {c : Config σ} {ins : Instruction}
    (here : c.frame.body.code[c.frame.pc]? = some ins) (op : ins.opcode = .endfinally)
    (put : c.frame.pending ≠ []) {trap : Trap} {heap : Heap} {world : σ} :
    m.step c ≠ .ended (.error trap) heap world := by
  intro stopped
  unfold step at stopped
  simp only [here, Action.ofInstruction, op, Action.endFinally] at stopped
  cases pending : c.frame.pending with
  | nil => exact put pending
  | cons a rest =>
      rw [pending] at stopped
      cases a with
      | leave target regions => cases stopped
      | throw v regions =>
          dsimp only at stopped
          split at stopped
          · next mishap failed => split at failed <;> cases failed
          · next action led =>
              split at led
              · cases led
                cases stopped
              · cases led
                exact throwTo_ne_error stopped

/-! ### Whole runs -/

/-- Calls and ends of finally handlers in verified bodies.  A call of a declared method with as many
    arguments as it takes is not refused for either, and in no configuration of its run is any call:
    such a trap is what native code gives that is called there.  And no `endfinally` stops that
    stands in a finally handler of a body whose finally handlers are entered by way of their
    regions. -/
theorem calls_and_ends (m : Machine σ) (verifies : m.host.Verifies) (method : MethodId)
    (args : List Value) (heap : Heap) (world : σ) {signature : MethodDef}
    (declared : m.host.symbols.method? method = some signature)
    (supplied : args.length = signature.argCount) :
    (∀ trap heap' world', m.enter method args [] heap world = .ended (.error trap) heap' world' →
      trap.ofCallee → m.NativeTraps method args 0 heap world trap) ∧
    ∀ c, m.Visits method args heap world c → ∀ ins, c.frame.body.code[c.frame.pc]? = some ins →
      (ins.Invokes m.host.symbols → ∀ trap heap' world',
        m.step c = .ended (.error trap) heap' world' → trap.ofCallee → m.HandsOn c trap) ∧
      (ins.opcode = .endfinally → c.frame.body.EntersFinally →
        (∃ i, c.frame.body.FinallyAt c.frame.pc i) → ∀ trap heap' world',
          m.step c ≠ .ended (.error trap) heap' world') := by
  constructor
  · intro trap heap' world' stopped blamed
    exact enter_supplied declared supplied stopped blamed
  · intro c visited ins here
    constructor
    · intro invokes trap heap' world' stopped blamed
      exact step_supplied verifies visited.regular.1.member here invokes stopped blamed
    · intro op enters inside trap heap' world'
      obtain ⟨i, inside⟩ := inside
      exact step_put here op ((visited.covered verifies enters).ne_nil inside)

/-- A method that makes an object with a constructor that takes a number. -/
def maker : Machine Unit :=
  .ofHost {
    symbols := {
      typeNames := ["Main", "int"]
      fields := []
      methods := [⟨⟨⟨0⟩, "run", [], none, true⟩, "Main::run()"⟩,
        ⟨⟨⟨0⟩, ".ctor", [⟨1⟩], none, false⟩, "Main::.ctor(int)"⟩] }
    bodies := ⟨[.ofParts ⟨0⟩
        [.of .ldc (.int 5), .of .newobj (.method ⟨1⟩), .plain .pop, .plain .ret] [] [],
      .ofParts ⟨1⟩ [.plain .ret] [] []], by decide⟩
    applied := [] }

/-- The machine that makes an object, about to make it. -/
def making : Config Unit :=
  ⟨⟨.ofParts ⟨0⟩ [.of .ldc (.int 5), .of .newobj (.method ⟨1⟩), .plain .pop, .plain .ret] [] [],
    [], [], [.int 5], 1, []⟩, [], .empty, ()⟩

/-- The inner one of two finally handlers ends, and an object is made. -/
theorem tidyBody_ends_and_maker_calls :
    (ofBody tidyBody).host.Verifies ∧ maker.host.Verifies ∧
      (∃ c, (ofBody tidyBody).Visits ⟨0⟩ [] .empty () c ∧ tidyBody.EndsAt c.frame.pc ∧
        ∀ trap heap world, (ofBody tidyBody).step c ≠ .ended (.error trap) heap world) ∧
      maker.Visits ⟨0⟩ [] .empty () making ∧
        ∀ trap heap world, maker.step making = .ended (.error trap) heap world →
          ¬ trap.ofCallee := by
  have verifies : (ofBody tidyBody).host.Verifies := ofBody_verifies 2 rfl
  have verifies' : maker.host.Verifies := by
    intro b member
    rcases List.mem_cons.mp member with rfl | member
    · exact ⟨1, _, rfl⟩
    · obtain rfl := List.mem_singleton.mp member
      exact ⟨1, _, rfl⟩
  have start : (ofBody tidyBody).Visits ⟨0⟩ [] .empty () (alone tidyBody 0 [] []) := .entered rfl
  have outer : (ofBody tidyBody).Visits ⟨0⟩ [] .empty () (alone tidyBody 1 [] [.leave 7 []]) :=
    start.stepped rfl
  have left : (ofBody tidyBody).Visits ⟨0⟩ [] .empty () (alone tidyBody 2 [] [.leave 7 []]) :=
    outer.stepped rfl
  have inner : (ofBody tidyBody).Visits ⟨0⟩ [] .empty ()
      (alone tidyBody 3 [] [.leave 5 [], .leave 7 []]) := left.stepped rfl
  have ending : (ofBody tidyBody).Visits ⟨0⟩ [] .empty ()
      (alone tidyBody 4 [] [.leave 5 [], .leave 7 []]) := inner.stepped rfl
  have enters : tidyBody.EntersFinally := ⟨by decide, by decide⟩
  have entered : maker.Visits ⟨0⟩ [] .empty ()
      { making with frame := { making.frame with stack := [], pc := 0 } } := .entered rfl
  have visited : maker.Visits ⟨0⟩ [] .empty () making := entered.stepped rfl
  refine ⟨verifies, verifies', ⟨_, ending, by decide, ?_⟩, visited, ?_⟩
  · have ends :=
      (calls_and_ends (ofBody tidyBody) verifies ⟨0⟩ [] .empty () rfl rfl).2 _ ending _ rfl
    exact ends.2 rfl enters ⟨1, by decide⟩
  · intro trap heap world stopped blamed
    have calls := (calls_and_ends maker verifies' ⟨0⟩ [] .empty () rfl rfl).2 _ visited _ rfl
    have invokes : (Instruction.of .newobj (.method ⟨1⟩)).Invokes maker.host.symbols := by
      refine Or.inr (Or.inr ⟨rfl, ?_⟩)
      intro id signature operand found
      cases operand
      cases found
      decide
    obtain ⟨_, _, traps⟩ := calls.1 invokes trap heap world stopped blamed
    obtain ⟨_, _, _, _, _, bound, -⟩ := traps.exists_native
    cases bound

/-- No call of any run stops for its callee, and no `endfinally` for having nothing put off. -/
structure NeverStrays (m : Machine σ) : Prop where
  calls : ∀ {method : MethodId} {signature : MethodDef} {args : List Value} {heap heap' : Heap}
    {world world' : σ} {c : Config σ} {ins : Instruction} {trap : Trap},
    m.host.symbols.method? method = some signature → args.length = signature.argCount →
    m.Visits method args heap world c → c.frame.body.code[c.frame.pc]? = some ins →
    ins.opcode = .call ∨ ins.opcode = .callvirt ∨ ins.opcode = .newobj →
    m.step c = .ended (.error trap) heap' world' → ¬ trap.ofCallee
  ends : ∀ {method : MethodId} {signature : MethodDef} {args : List Value} {heap heap' : Heap}
    {world world' : σ} {c : Config σ} {ins : Instruction} {trap : Trap},
    m.host.symbols.method? method = some signature → args.length = signature.argCount →
    m.Visits method args heap world c → c.frame.body.code[c.frame.pc]? = some ins →
    ins.opcode = .endfinally →
    m.step c = .ended (.error trap) heap' world' → ¬ trap.ofStrayEnd

/-- An `endfinally` in no handler. -/
def bareEnd : Body :=
  .ofParts ⟨0⟩ [.plain .endfinally] [] []

/-- A body that starts in the finally handler of a range behind it. -/
def startsInside : Body :=
  .ofParts ⟨0⟩ [.plain .endfinally, .plain .ret] [] [⟨.finalizing, 1, 2, 0, 1⟩]

/-- A handler for numbers in the finally handler of another range. -/
def caughtInside : Body :=
  .ofParts ⟨0⟩ [.of .ldc (.int 7), .plain .throw, .plain .endfinally, .plain .pop,
      .plain .endfinally]
    [] [⟨.finalizing, 0, 1, 2, 5⟩, ⟨.catching ⟨1⟩, 1, 2, 3, 5⟩]

/-- A method that makes an object with a static method named `.ctor`. -/
def staticMaker : Machine Unit :=
  .ofHost {
    symbols := {
      typeNames := ["Main"]
      fields := []
      methods := [⟨⟨⟨0⟩, "run", [], none, true⟩, "Main::run()"⟩,
        ⟨⟨⟨0⟩, ".ctor", [], none, true⟩, "Main::.ctor()"⟩] }
    bodies := ⟨[.ofParts ⟨0⟩ [.of .newobj (.method ⟨1⟩), .plain .pop, .plain .ret] [] [],
      .ofParts ⟨1⟩ [.plain .ret] [] []], by decide⟩
    applied := [] }

/-- A method that calls native code, which says of itself that it takes another number of
    arguments. -/
def refusingNative : Machine Unit where
  host := {
    symbols := {
      typeNames := ["Main"]
      fields := []
      methods := [⟨⟨⟨0⟩, "run", [], none, true⟩, "Main::run()"⟩,
        ⟨⟨⟨0⟩, "refuse", [], none, true⟩, "Main::refuse()"⟩] }
    bodies := .single (.ofParts ⟨0⟩ [.of .call (.method ⟨1⟩), .plain .ret] [] [])
    applied := [] }
  natives := [(⟨1⟩, fun heap world _ => ⟨.error (.arity "Main::refuse()" 1 0), heap, world⟩)]
  stepLimit := 10
  maxDepth := 10

/-- Each of the conditions is needed: an `endfinally` in no handler, a body that starts in a
    handler, a handler entered from outside in a finally handler, an object made by a static method,
    and native code with such a trap as its result. -/
theorem strays_in_verified :
    ((ofBody bareEnd).host.Verifies ∧ ¬ (ofBody bareEnd).NeverStrays) ∧
    ((ofBody startsInside).host.Verifies ∧ startsInside.FinallyAt 0 0 ∧
      ¬ (ofBody startsInside).NeverStrays) ∧
    ((ofBody caughtInside).host.Verifies ∧ caughtInside.FinallyAt 4 0 ∧
      ¬ (ofBody caughtInside).NeverStrays) ∧
    (staticMaker.host.Verifies ∧ ¬ staticMaker.NeverStrays) ∧
    refusingNative.host.Verifies ∧ ¬ refusingNative.NeverStrays := by
  refine ⟨⟨ofBody_verifies 1 rfl, fun never => ?_⟩,
    ⟨ofBody_verifies 1 rfl, by decide, fun never => ?_⟩,
    ⟨ofBody_verifies 1 rfl, by decide, fun never => ?_⟩, ⟨?_, fun never => ?_⟩, ?_,
    fun never => ?_⟩
  · have visited : (ofBody bareEnd).Visits ⟨0⟩ [] .empty () (alone bareEnd 0 [] []) := .entered rfl
    exact never.ends rfl rfl visited rfl rfl rfl rfl
  · have visited : (ofBody startsInside).Visits ⟨0⟩ [] .empty () (alone startsInside 0 [] []) :=
      .entered rfl
    exact never.ends rfl rfl visited rfl rfl rfl rfl
  · have start : (ofBody caughtInside).Visits ⟨0⟩ [] .empty () (alone caughtInside 0 [] []) :=
      .entered rfl
    have raised : (ofBody caughtInside).Visits ⟨0⟩ [] .empty ()
        (alone caughtInside 1 [.int 7] []) := start.stepped rfl
    have handled : (ofBody caughtInside).Visits ⟨0⟩ [] .empty ()
        (alone caughtInside 3 [.int 7] []) := raised.stepped rfl
    have behind : (ofBody caughtInside).Visits ⟨0⟩ [] .empty () (alone caughtInside 4 [] []) :=
      handled.stepped rfl
    exact never.ends rfl rfl behind rfl rfl rfl rfl
  · intro b member
    rcases List.mem_cons.mp member with rfl | member
    · exact ⟨1, _, rfl⟩
    · obtain rfl := List.mem_singleton.mp member
      exact ⟨1, _, rfl⟩
  · have visited : staticMaker.Visits ⟨0⟩ [] .empty ()
        ⟨.enter staticMaker.host.symbols (.ofParts ⟨0⟩
          [.of .newobj (.method ⟨1⟩), .plain .pop, .plain .ret] [] []) [], [], .empty, ()⟩ :=
      .entered rfl
    exact never.calls rfl rfl visited rfl (Or.inr (Or.inr rfl)) rfl rfl
  · intro b member
    obtain rfl := List.mem_singleton.mp member
    exact ⟨1, _, rfl⟩
  · have visited : refusingNative.Visits ⟨0⟩ [] .empty ()
        ⟨.enter refusingNative.host.symbols (.ofParts ⟨0⟩
          [.of .call (.method ⟨1⟩), .plain .ret] [] []) [], [], .empty, ()⟩ := .entered rfl
    exact never.calls rfl rfl visited rfl (Or.inl rfl) rfl rfl

end Machine

end HookSplice
