import HookSplice.Machine.Run

/-!
# What a step of the machine can do

Each function that a step is made of gives one of a few outcomes, and each outcome comes with all
that was checked on the way to it.  What holds of every run is proved by cases of these outcomes:
`Selects` for what runs when a method is called, `Starts` for the call itself, `Performs` for an
instruction, and `TrapsAt` for an instruction that stops the run.
-/

namespace HookSplice

variable {σ : Type}

namespace Machine

variable {m : Machine σ} {method : MethodId} {heap : Heap} {world : σ}

/-! ### What runs when a method is called -/

/-- What a call with `n` arguments finds inside of `depth` other calls: native code goes before a
    body, and a body runs only if no label stands in it twice. -/
inductive Selects (m : Machine σ) (method : MethodId) (n depth : Nat) :
    Except Trap (Implementation σ) → Prop
  | crowded (deep : m.maxDepth ≤ depth) :
      Selects m method n depth (.error (.callDepth m.maxDepth))
  | unknown (shallow : depth < m.maxDepth)
      (undeclared : m.host.symbols.method? method = none) :
      Selects m method n depth (.error (.unknownMethod method.inspect))
  | misfit {signature : MethodDef} (shallow : depth < m.maxDepth)
      (declared : m.host.symbols.method? method = some signature)
      (arity : n ≠ signature.argCount) :
      Selects m method n depth
        (.error (.arity (m.host.methodName method) signature.argCount n))
  | native {signature : MethodDef} {code : Native σ} (shallow : depth < m.maxDepth)
      (declared : m.host.symbols.method? method = some signature)
      (arity : n = signature.argCount) (bound : m.natives.lookup method = some code) :
      Selects m method n depth (.ok (.native code))
  | absent {signature : MethodDef} (shallow : depth < m.maxDepth)
      (declared : m.host.symbols.method? method = some signature)
      (arity : n = signature.argCount) (unbound : m.natives.lookup method = none)
      (missing : m.host.body? method = none) :
      Selects m method n depth (.error (.noImplementation (m.host.methodName method)))
  | repeated {signature : MethodDef} {b : Body} {d : DuplicateLabel} (shallow : depth < m.maxDepth)
      (declared : m.host.symbols.method? method = some signature)
      (arity : n = signature.argCount) (unbound : m.natives.lookup method = none)
      (stored : m.host.body? method = some b) (twice : Code.duplicate? b.code = some d) :
      Selects m method n depth
        (.error (.fault (m.host.methodName b.method) 0 (.duplicateLabel d)))
  | body {signature : MethodDef} {b : Body} (shallow : depth < m.maxDepth)
      (declared : m.host.symbols.method? method = some signature)
      (arity : n = signature.argCount) (unbound : m.natives.lookup method = none)
      (stored : m.host.body? method = some b) (distinct : Code.duplicate? b.code = none) :
      Selects m method n depth (.ok (.body b))

theorem implementation_selects (m : Machine σ) (method : MethodId) (n depth : Nat) :
    m.Selects method n depth (m.implementation method n depth) := by
  unfold implementation
  split
  · next deep => exact .crowded deep
  next shallow =>
    have shallow := Nat.lt_of_not_le shallow
    dsimp only
    split
    · next undeclared => exact .unknown shallow undeclared
    next signature declared =>
      split
      · next arity => exact .misfit shallow declared arity
      next arity =>
        have arity := Decidable.not_not.mp arity
        split
        · next code bound => exact .native shallow declared arity bound
        next unbound =>
          split
          · next missing => exact .absent shallow declared arity unbound missing
          next b stored =>
            split
            · next d twice => exact .repeated shallow declared arity unbound stored twice
            · next distinct => exact .body shallow declared arity unbound stored distinct

theorem implementation_eq_iff {n depth : Nat} {r : Except Trap (Implementation σ)} :
    m.implementation method n depth = r ↔ m.Selects method n depth r := by
  constructor
  · rintro rfl
    exact m.implementation_selects method n depth
  · intro selects
    unfold implementation
    cases selects with
    | crowded deep => rw [if_pos deep]
    | unknown shallow undeclared => simp only [if_neg (Nat.not_le_of_lt shallow), undeclared]
    | misfit shallow declared arity =>
        simp only [if_neg (Nat.not_le_of_lt shallow), declared, if_pos arity]
    | native shallow declared arity bound =>
        simp only [if_neg (Nat.not_le_of_lt shallow), declared, if_neg (not_not_intro arity), bound]
    | absent shallow declared arity unbound missing =>
        simp only [if_neg (Nat.not_le_of_lt shallow), declared, if_neg (not_not_intro arity),
          unbound, missing]
    | repeated shallow declared arity unbound stored twice =>
        simp only [if_neg (Nat.not_le_of_lt shallow), declared, if_neg (not_not_intro arity),
          unbound, stored, twice]
    | body shallow declared arity unbound stored distinct =>
        simp only [if_neg (Nat.not_le_of_lt shallow), declared, if_neg (not_not_intro arity),
          unbound, stored, distinct]

/-- What runs when a call is admitted. -/
theorem implementation_eq_ok {n depth : Nat} {code : Implementation σ}
    (found : m.implementation method n depth = .ok code) :
    ∃ signature, m.host.symbols.method? method = some signature ∧ n = signature.argCount ∧
      match code with
      | .native native => m.natives.lookup method = some native
      | .body b => m.host.body? method = some b := by
  cases implementation_eq_iff.mp found with
  | native _ declared arity bound => exact ⟨_, declared, arity, bound⟩
  | body _ declared arity _ stored _ => exact ⟨_, declared, arity, stored⟩

/-! ### Calls -/

/-- What comes of a call: it is refused, the body starts in a frame of its own, or native code ends
    the run by a trap or gives its result to the innermost caller. -/
inductive Starts (m : Machine σ) (method : MethodId) (args : List Value) (callers : List Caller)
    (heap : Heap) (world : σ) : Progress σ → Prop
  | refused {trap : Trap}
      (refusal : m.implementation method args.length callers.length = .error trap) :
      Starts m method args callers heap world (.ended (.error trap) heap world)
  | body {b : Body} (found : m.implementation method args.length callers.length = .ok (.body b)) :
      Starts m method args callers heap world
        (.running ⟨Frame.enter m.host.symbols b args, callers, heap, world⟩)
  | trapped {code : Native σ} {trap : Trap}
      (found : m.implementation method args.length callers.length = .ok (.native code))
      (gives : (code heap world args).result = .error trap) :
      Starts m method args callers heap world
        (.ended (.error trap) (code heap world args).heap (code heap world args).world)
  | returned {code : Native σ} {result : Option Value} {p : Progress σ}
      (found : m.implementation method args.length callers.length = .ok (.native code))
      (gives : (code heap world args).result = .ok result)
      (back : giveBack result callers (code heap world args).heap (code heap world args).world =
        p) : Starts m method args callers heap world p

theorem enter_starts {args : List Value} {callers : List Caller} {p : Progress σ}
    (entered : m.enter method args callers heap world = p) :
    m.Starts method args callers heap world p := by
  subst entered
  unfold enter
  split
  · next refusal => exact .refused refusal
  · next found => exact .body found
  · next found =>
      dsimp only
      split
      · next gives => exact .trapped found gives
      · next gives => exact .returned found gives rfl

/-! ### Instructions -/

/-- What comes of fetching an instruction: there is none, it stops the run, or its action is
    followed. -/
inductive Performs (m : Machine σ) (c : Config σ) : Progress σ → Prop
  | beyond (absent : c.frame.body.code[c.frame.pc]? = none) :
      Performs m c
        (.ended (.error (.fellOffEnd (m.host.methodName c.frame.body.method))) c.heap c.world)
  | stopped {ins : Instruction} {mishap : Mishap}
      (here : c.frame.body.code[c.frame.pc]? = some ins)
      (ran : Action.ofInstruction m.host.symbols c.heap c.frame.pc
        { c.frame with pc := c.frame.pc + 1 } ins = .error mishap) :
      Performs m c
        (.ended (.error (mishap.toTrap (m.host.methodName c.frame.body.method) c.frame.pc)) c.heap
          c.world)
  | executed {ins : Instruction} {action : Action} {p : Progress σ}
      (here : c.frame.body.code[c.frame.pc]? = some ins)
      (ran : Action.ofInstruction m.host.symbols c.heap c.frame.pc
        { c.frame with pc := c.frame.pc + 1 } ins = .ok action)
      (followed : m.follow action c.callers c.heap c.world = p) : Performs m c p

theorem step_performs {c : Config σ} {p : Progress σ} (moved : m.step c = p) :
    m.Performs c p := by
  subst moved
  unfold step
  dsimp only
  split
  · next absent => exact .beyond absent
  · next here =>
      split
      · next ran => exact .stopped here ran
      · next ran => exact .executed here ran rfl

theorem step_of_action {c : Config σ} {ins : Instruction} {action : Action}
    (here : c.frame.body.code[c.frame.pc]? = some ins)
    (ran : Action.ofInstruction m.host.symbols c.heap c.frame.pc
      { c.frame with pc := c.frame.pc + 1 } ins = .ok action) :
    m.step c = m.follow action c.callers c.heap c.world := by
  simp only [step, here, ran]

/-! ### Ways back to the callers -/

/-- An exception is offered to the innermost caller first. -/
theorem throwTo_cons (v : Value) (w : Caller) (callers : List Caller) (heap : Heap) (world : σ) :
    m.throwTo v (w :: callers) heap world =
      match w.frame.throwThrough? m.host.symbols heap v
          (Frame.candidates w.frame.body (w.frame.pc - 1)) with
      | some g => .running ⟨g, callers, heap, world⟩
      | none => m.throwTo v callers heap world := by
  cases taken : w.frame.throwThrough? m.host.symbols heap v
    (Frame.candidates w.frame.body (w.frame.pc - 1)) <;> simp only [throwTo, unwind, taken]

/-- A result is given back without a trap. -/
theorem giveBack_ne_error {result : Option Value} {callers : List Caller} {heap heap' : Heap}
    {world world' : σ} {trap : Trap} :
    giveBack result callers heap world ≠ .ended (.error trap) heap' world' := by
  cases callers <;> exact nofun

/-- An exception ends in no trap of the machine. -/
theorem throwTo_ne_error {v : Value} {callers : List Caller} {heap heap' : Heap}
    {world world' : σ} {trap : Trap} :
    m.throwTo v callers heap world ≠ .ended (.error trap) heap' world' := by
  intro stopped
  unfold throwTo at stopped
  split at stopped <;> cases stopped

/-! ### Where traps come from -/

/-- A call runs native code, which gives a trap as its result. -/
def NativeTraps (m : Machine σ) (method : MethodId) (args : List Value) (depth : Nat) (heap : Heap)
    (world : σ) (trap : Trap) : Prop :=
  ∃ code, m.implementation method args.length depth = .ok (.native code) ∧
    (code heap world args).result = .error trap

/-- The next instruction calls native code, which gives a trap as its result. -/
inductive HandsOn (m : Machine σ) (c : Config σ) (trap : Trap) : Prop
  | call {ins : Instruction} {f : Frame} {callee : MethodId} {args : List Value}
      {created : Option ObjectId} {heap : Heap} (here : c.frame.body.code[c.frame.pc]? = some ins)
      (ran : Action.ofInstruction m.host.symbols c.heap c.frame.pc
        { c.frame with pc := c.frame.pc + 1 } ins = .ok (.call f callee args created heap))
      (traps : m.NativeTraps callee args (c.callers.length + 1) heap c.world trap) :
      HandsOn m c trap

/-- What stops a run at an instruction: there is none, it cannot work on what it finds, the method
    that it calls is refused, or native code that it calls gives the trap. -/
inductive TrapsAt (m : Machine σ) (c : Config σ) : Trap → Prop
  | beyond (absent : c.frame.body.code[c.frame.pc]? = none) :
      TrapsAt m c (.fellOffEnd (m.host.methodName c.frame.body.method))
  | stopped {ins : Instruction} {mishap : Mishap}
      (here : c.frame.body.code[c.frame.pc]? = some ins)
      (ran : Action.ofInstruction m.host.symbols c.heap c.frame.pc
        { c.frame with pc := c.frame.pc + 1 } ins = .error mishap) :
      TrapsAt m c (mishap.toTrap (m.host.methodName c.frame.body.method) c.frame.pc)
  | refused {ins : Instruction} {f : Frame} {callee : MethodId} {args : List Value}
      {created : Option ObjectId} {heap : Heap} {trap : Trap}
      (here : c.frame.body.code[c.frame.pc]? = some ins)
      (ran : Action.ofInstruction m.host.symbols c.heap c.frame.pc
        { c.frame with pc := c.frame.pc + 1 } ins = .ok (.call f callee args created heap))
      (refusal : m.implementation callee args.length (c.callers.length + 1) = .error trap) :
      TrapsAt m c trap
  | handed {trap : Trap} (handsOn : m.HandsOn c trap) : TrapsAt m c trap

theorem enter_eq_error {args : List Value} {callers : List Caller} {heap' : Heap} {world' : σ}
    {trap : Trap}
    (stopped : m.enter method args callers heap world = .ended (.error trap) heap' world') :
    m.implementation method args.length callers.length = .error trap ∨
      m.NativeTraps method args callers.length heap world trap := by
  cases enter_starts stopped with
  | refused refusal => exact Or.inl refusal
  | trapped found gives => exact Or.inr ⟨_, found, gives⟩
  | returned _ _ back => exact absurd back giveBack_ne_error

theorem step_eq_error {c : Config σ} {trap : Trap}
    (stopped : m.step c = .ended (.error trap) heap world) : m.TrapsAt c trap := by
  generalize ended : Progress.ended (.error trap) heap world = p at stopped
  cases step_performs stopped with
  | beyond absent =>
      cases ended
      exact .beyond absent
  | stopped here ran =>
      cases ended
      exact .stopped here ran
  | @executed _ action _ here ran followed =>
      subst ended
      cases action with
      | next f heap => cases followed
      | exit result => exact absurd followed giveBack_ne_error
      | raised f v => exact absurd followed throwTo_ne_error
      | escaped v => exact absurd followed throwTo_ne_error
      | call f callee args created heap' =>
          rcases enter_eq_error followed with refusal | traps
          · exact .refused here ran refusal
          · exact .handed (.call here ran traps)

/-! ### Whole runs -/

/-- The configurations that a call passes through, whatever the budget of instructions. -/
inductive Visits (m : Machine σ) (method : MethodId) (args : List Value) (heap : Heap)
    (world : σ) : Config σ → Prop
  | entered {c : Config σ} (started : m.enter method args [] heap world = .running c) :
      Visits m method args heap world c
  | stepped {c c' : Config σ} (visited : Visits m method args heap world c)
      (moved : m.step c = .running c') : Visits m method args heap world c'

/-- Native code that a call runs, itself or through the methods it calls, gives a trap as its
    result. -/
inductive PassesOn (m : Machine σ) (method : MethodId) (args : List Value) (heap : Heap) (world : σ)
    (trap : Trap) : Prop
  | outermost (traps : m.NativeTraps method args 0 heap world trap) :
      PassesOn m method args heap world trap
  | inner {c : Config σ} (visited : m.Visits method args heap world c)
      (handsOn : m.HandsOn c trap) : PassesOn m method args heap world trap

theorem NativeTraps.exists_native {args : List Value} {depth : Nat} {trap : Trap}
    (traps : m.NativeTraps method args depth heap world trap) :
    ∃ callee code heap world args, m.natives.lookup callee = some code ∧
      (code heap world args).result = .error trap := by
  obtain ⟨code, found, gives⟩ := traps
  obtain ⟨_, -, -, bound⟩ := implementation_eq_ok found
  exact ⟨_, code, _, _, _, bound, gives⟩

/-- A trap that a call passes on is what some native code of the machine gives. -/
theorem PassesOn.exists_native {args : List Value} {trap : Trap}
    (passesOn : m.PassesOn method args heap world trap) :
    ∃ callee code heap world args, m.natives.lookup callee = some code ∧
      (code heap world args).result = .error trap := by
  cases passesOn with
  | outermost traps => exact traps.exists_native
  | inner _ handsOn =>
      obtain ⟨_, _, traps⟩ := handsOn
      exact traps.exists_native

end Machine

end HookSplice
