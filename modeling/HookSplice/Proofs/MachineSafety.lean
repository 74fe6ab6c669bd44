import HookSplice.Proofs.FrameDepth
import HookSplice.Proofs.Hosts
import HookSplice.Proofs.MachineSteps

/-!
# Verified hosts run safely

On a host whose bodies are all verified, every frame keeps to the stack map of its body, through
calls, exceptions and finally handlers.  So no run stops at a fault that verification prevents, and
none runs off the end of a body.
-/

namespace HookSplice

/-- Every body of a host passes verification under some limit. -/
def Host.Verifies (h : Host) : Prop :=
  ∀ b ∈ h.bodies, ∃ limit m, StackMap.analyze h.symbols b limit = .ok m

/-- The frames that wait are sound, each behind the instruction that called, at the depth that the
    stack map has there once the call has given `results` values or the object it makes. -/
def CallersSound (host : Host) : Nat → List Caller → Prop
  | _, [] => True
  | results, c :: rest => ∃ m signature position, Frame.Sound host m signature c.frame ∧
      c.frame.pc = position + 1 ∧ (m.depthAt? position).isSome ∧
      m.depthAt? c.frame.pc =
        some (c.frame.stack.length + if c.created.isSome then 1 else results) ∧
      CallersSound host (StackEffect.results signature.ret) rest

variable {σ : Type}

/-- The running frame stands at the depth of its stack map, and the frames behind it wait for what
    its method gives. -/
def Config.Sound (host : Host) (c : Config σ) : Prop :=
  ∃ m signature, Frame.Ready host m signature c.frame ∧
    CallersSound host (StackEffect.results signature.ret) c.callers

theorem resume_ready {host : Host} {c : Caller} {m : StackMap} {signature : MethodDef}
    {result : Option Value} (sound : Frame.Sound host m signature c.frame)
    (waits : m.depthAt? c.frame.pc = some (c.frame.stack.length +
      if c.created.isSome then 1 else if result.isSome then 1 else 0)) :
    Frame.Ready host m signature (c.resume result) := by
  have unchanged := Frame.Reshaped.refl c.frame
  unfold Caller.resume
  split
  · next created => exact sound.ready (unchanged.push _) (by simpa [created] using waits)
  · next created => exact sound.ready (unchanged.push _) (by simpa [created] using waits)
  · next created => exact sound.ready unchanged (by simpa [created] using waits)

/-- A frame that takes an exception offered to it behind a position with a depth goes on at the
    depth of a handler. -/
theorem handler_ready {host : Host} {heap : Heap} {v : Value} {m : StackMap}
    {signature : MethodDef} {position : Nat} {f g : Frame} (sound : Frame.Sound host m signature f)
    (behind : f.pc = position + 1) (known : (m.depthAt? position).isSome)
    (taken : f.throwThrough? host.symbols heap v (Frame.candidates f.body (f.pc - 1)) = some g) :
    Frame.Ready host m signature g := by
  obtain ⟨k, known⟩ := Option.isSome_iff_exists.mp known
  rw [behind, Nat.add_sub_cancel] at taken
  exact Frame.throwThrough?_ready sound (Frame.candidates_sound sound known v) taken

/-- The frame of a call starts at the start of its body with no value on the stack. -/
theorem Frame.ready_enter {host : Host} {b : Body} {signature : MethodDef} {args : List Value}
    {limit : Nat} {m : StackMap} (member : b ∈ host.bodies)
    (declared : host.symbols.method? b.method = some signature)
    (arity : args.length = signature.argCount)
    (analyzed : StackMap.analyze host.symbols b limit = .ok m) :
    Frame.Ready host m signature (Frame.enter host.symbols b args) := by
  obtain ⟨enclosing, -, verified⟩ := StackMap.analyze_eq_ok analyzed
  exact {
    member := member
    declared := declared
    analyzed := ⟨limit, analyzed⟩
    args := arity
    locals := by simp [Frame.enter]
    pending := by simp [Frame.enter]
    depth := verified.map.entry }

/-- An exception that a waiting frame takes leaves a sound configuration. -/
theorem unwind_sound {host : Host} {heap : Heap} {v : Value} {callers rest : List Caller}
    {f : Frame} {results : Nat} (waiting : CallersSound host results callers)
    (taken : unwind host.symbols heap v callers = some (f, rest)) :
    ∃ m signature, Frame.Ready host m signature f ∧
      CallersSound host (StackEffect.results signature.ret) rest := by
  induction callers generalizing results with
  | nil => cases taken
  | cons c callers ih =>
      obtain ⟨m, signature, position, sound, behind, known, -, others⟩ := waiting
      unfold unwind at taken
      simp only at taken
      split at taken
      · next g handled =>
          cases taken
          exact ⟨m, signature, handler_ready sound behind known handled, others⟩
      · exact ih others taken

namespace Machine

variable {m : Machine σ}

/-- Native code gives a result exactly if the method it is bound to returns one. -/
def NativesReturn (m : Machine σ) : Prop :=
  ∀ method code signature, m.natives.lookup method = some code →
    m.host.symbols.method? method = some signature → ∀ heap world args result,
      args.length = signature.argCount → (code heap world args).result = .ok result →
        result.isSome = signature.ret.isSome

/-- If the run goes on, it does so soundly. -/
def SoundProgress (m : Machine σ) : Progress σ → Prop
  | .running c => c.Sound m.host
  | .ended .. => True

/-- A call of a verified host is refused for other reasons than those that verification
    prevents. -/
theorem implementation_error (verifies : m.host.Verifies) {method : MethodId} {n depth : Nat}
    {trap : Trap} (refused : m.implementation method n depth = .error trap) :
    trap.prevented = false := by
  cases implementation_eq_iff.mp refused with
  | crowded | unknown | misfit | absent => rfl
  | repeated _ _ _ _ stored twice =>
      obtain ⟨limit, map, analyzed⟩ := verifies _ (Host.body?_eq_some_iff.mp stored).1
      obtain ⟨enclosing, -, verified⟩ := StackMap.analyze_eq_ok analyzed
      rw [(Code.duplicate?_eq_none_iff _).mpr verified.structured.labels] at twice
      cases twice

theorem giveBack_sound {results : Nat} {result : Option Value} {callers : List Caller}
    {heap : Heap} {world : σ} (waiting : CallersSound m.host results callers)
    (gives : results = if result.isSome then 1 else 0) :
    m.SoundProgress (giveBack result callers heap world) := by
  subst gives
  cases callers with
  | nil => trivial
  | cons c rest =>
      obtain ⟨map, signature, position, sound, -, -, waits, others⟩ := waiting
      exact ⟨map, signature, resume_ready sound waits, others⟩

theorem throwTo_sound {results : Nat} {v : Value} {callers : List Caller} {heap : Heap}
    {world : σ} (waiting : CallersSound m.host results callers) :
    m.SoundProgress (m.throwTo v callers heap world) := by
  unfold throwTo
  split
  · next taken => exact unwind_sound waiting taken
  · trivial

theorem raise_sound {map : StackMap} {signature : MethodDef} {position : Nat} {f : Frame}
    {v : Value} {callers : List Caller} {heap : Heap} {world : σ}
    (sound : Frame.Sound m.host map signature f) (behind : f.pc = position + 1)
    (known : (map.depthAt? position).isSome)
    (waiting : CallersSound m.host (StackEffect.results signature.ret) callers) :
    m.SoundProgress (m.throwTo v (⟨f, none⟩ :: callers) heap world) := by
  rw [throwTo_cons]
  cases taken : f.throwThrough? m.host.symbols heap v (Frame.candidates f.body (f.pc - 1)) with
  | some g => exact ⟨map, signature, handler_ready sound behind known taken, waiting⟩
  | none => exact throwTo_sound waiting

/-- The frame of a call of a verified method is ready at the start of its body. -/
theorem enter_ready (verifies : m.host.Verifies) {method : MethodId} {signature : MethodDef}
    {b : Body} {args : List Value} (declared : m.host.symbols.method? method = some signature)
    (arity : args.length = signature.argCount) (stored : m.host.body? method = some b) :
    ∃ map, Frame.Ready m.host map signature (Frame.enter m.host.symbols b args) := by
  obtain ⟨member, rfl⟩ := Host.body?_eq_some_iff.mp stored
  obtain ⟨limit, map, analyzed⟩ := verifies b member
  exact ⟨map, Frame.ready_enter member declared arity analyzed⟩

theorem enter_sound (verifies : m.host.Verifies) (natives : m.NativesReturn) (method : MethodId)
    (args : List Value) (callers : List Caller) (heap : Heap) (world : σ)
    (waiting : ∀ s, m.host.symbols.method? method = some s →
      CallersSound m.host (StackEffect.results s.ret) callers) :
    m.SoundProgress (m.enter method args callers heap world) := by
  generalize entered : m.enter method args callers heap world = p
  cases enter_starts entered with
  | refused | trapped => trivial
  | body found =>
      obtain ⟨signature, declared, arity, stored⟩ := implementation_eq_ok found
      obtain ⟨map, ready⟩ := enter_ready verifies declared arity stored
      exact ⟨map, signature, ready, waiting signature declared⟩
  | returned found gives back =>
      obtain ⟨signature, declared, arity, bound⟩ := implementation_eq_ok found
      subst back
      refine giveBack_sound (waiting signature declared) ?_
      rw [natives _ _ _ bound declared _ _ _ _ arity gives]
      rfl

/-- A trap that verification prevents is not what a call is refused for. -/
theorem enter_prevented (verifies : m.host.Verifies) {method : MethodId} {args : List Value}
    {callers : List Caller} {heap heap' : Heap} {world world' : σ} {trap : Trap}
    (stopped : m.enter method args callers heap world = .ended (.error trap) heap' world')
    (prevented : trap.prevented) : m.NativeTraps method args callers.length heap world trap := by
  rcases enter_eq_error stopped with refusal | traps
  · rw [implementation_error verifies refusal] at prevented
    cases prevented
  · exact traps

/-- One step keeps a configuration sound. -/
theorem step_sound (verifies : m.host.Verifies) (natives : m.NativesReturn) {c : Config σ}
    (sound : c.Sound m.host) : m.SoundProgress (m.step c) := by
  obtain ⟨map, signature, ready, waiting⟩ := sound
  obtain ⟨ins, effect, here, executes⟩ := ready.executes
  have guarded := Action.ofInstruction_guarded executes c.heap
  generalize moved : m.step c = p
  cases step_performs moved with
  | beyond | stopped => trivial
  | @executed _ action _ here' ran followed =>
      obtain rfl := Option.some.inj (here.symm.trans here')
      subst followed
      rw [ran] at guarded
      have known : (map.depthAt? c.frame.pc).isSome := by simp [ready.depth]
      cases action with
      | next f heap => exact ⟨map, signature, guarded, waiting⟩
      | exit result =>
          refine giveBack_sound waiting ?_
          rw [show result.isSome = signature.ret.isSome from guarded]
          rfl
      | raised f v =>
          obtain ⟨sound, behind⟩ := guarded
          exact raise_sound sound behind known waiting
      | escaped v => exact throwTo_sound waiting
      | call f callee args created heap =>
          obtain ⟨sound, behind, waits⟩ := guarded
          exact enter_sound verifies natives callee args _ heap c.world fun s declared =>
            ⟨map, signature, c.frame.pc, sound, behind, known, waits s declared, waiting⟩

/-- From a sound configuration no instruction stops for what verification prevents. -/
theorem step_prevented (verifies : m.host.Verifies) {c : Config σ} (sound : c.Sound m.host)
    {trap : Trap} {heap : Heap} {world : σ} (stopped : m.step c = .ended (.error trap) heap world)
    (prevented : trap.prevented) : m.HandsOn c trap := by
  obtain ⟨map, signature, ready, -⟩ := sound
  obtain ⟨ins, effect, here, executes⟩ := ready.executes
  cases step_eq_error stopped with
  | beyond absent => cases here.symm.trans absent
  | stopped here' ran =>
      obtain rfl := Option.some.inj (here.symm.trans here')
      have guarded := Action.ofInstruction_guarded executes c.heap
      rw [ran] at guarded
      rw [Mishap.prevented_toTrap, guarded] at prevented
      cases prevented
  | refused _ _ refusal =>
      rw [implementation_error verifies refusal] at prevented
      cases prevented
  | handed handsOn => exact handsOn

/-! ### Whole runs -/

theorem Visits.sound (verifies : m.host.Verifies) (natives : m.NativesReturn) {method : MethodId}
    {args : List Value} {heap : Heap} {world : σ} {c : Config σ}
    (visited : m.Visits method args heap world c) : c.Sound m.host := by
  induction visited with
  | entered started =>
      have sound := enter_sound verifies natives method args [] heap world fun _ _ => trivial
      rwa [started] at sound
  | stepped _ moved ih =>
      have sound := step_sound verifies natives ih
      rwa [moved] at sound

/-- A run ends in no trap that verification prevents, unless native code has given it. -/
theorem Visits.passesOn (verifies : m.host.Verifies) (natives : m.NativesReturn)
    {method : MethodId} {args : List Value} {heap : Heap} {world : σ} {budget steps : Nat}
    {c : Config σ} (visited : m.Visits method args heap world c) {trap : Trap}
    (stopped : (m.runFrom budget steps c).1 = .error trap) (prevented : trap.prevented) :
    m.PassesOn method args heap world trap := by
  induction budget generalizing steps c with
  | zero =>
      cases stopped
      cases prevented
  | succ budget ih =>
      unfold runFrom at stopped
      split at stopped
      · next result heap world ended =>
          subst stopped
          have sound := visited.sound verifies natives
          exact .inner visited (step_prevented verifies sound ended prevented)
      · next c' moved => exact ih (visited.stepped moved) stopped

theorem resultOf_error {method : MethodId} {result : Except Trap Result} {trap : Trap}
    (stopped : m.resultOf method result = .error trap) (prevented : trap.prevented) :
    result = .error trap := by
  unfold resultOf at stopped
  split at stopped
  · cases stopped
  · cases stopped
    cases prevented
  · exact congrArg _ (Except.error.inj stopped)

/-- Verification is sound for the machine.  On a host whose bodies all verify, no call ends in a
    fault that verification prevents or by running off the end of a body; only native code that the
    call itself runs can give such a trap, as its own result, and so none comes of native code that
    gives no such traps.  And whenever an instruction is about to execute, the stack of the running
    frame holds as many values as the stack map of its body has there. -/
theorem call_sound (m : Machine σ) (verifies : m.host.Verifies) (natives : m.NativesReturn)
    (method : MethodId) (args : List Value) (heap : Heap) (world : σ) :
    (∀ trap, (m.call method args heap world).result = .error trap → trap.prevented →
      m.PassesOn method args heap world trap) ∧
    ((∀ callee code, m.natives.lookup callee = some code → ∀ heap world args trap,
        (code heap world args).result = .error trap → ¬ trap.prevented) →
      ∀ trap, (m.call method args heap world).result = .error trap → ¬ trap.prevented) ∧
    ∀ c, m.Visits method args heap world c → c.frame.body ∈ m.host.bodies ∧
      ∀ limit map, StackMap.analyze m.host.symbols c.frame.body limit = .ok map →
        map.depthAt? c.frame.pc = some c.frame.stack.length := by
  have passesOn (trap : Trap) (stopped : (m.call method args heap world).result = .error trap)
      (prevented : trap.prevented) : m.PassesOn method args heap world trap := by
    unfold call at stopped
    split at stopped
    · next result heap' world' ended =>
        rw [resultOf_error stopped prevented] at ended
        exact .outermost (enter_prevented verifies ended prevented)
    · next c running =>
        exact (Visits.entered running).passesOn verifies natives
          (resultOf_error stopped prevented) prevented
  refine ⟨passesOn, fun harmless trap stopped prevented => ?_, ?_⟩
  · obtain ⟨_, _, _, _, _, bound, gives⟩ := (passesOn trap stopped prevented).exists_native
    exact harmless _ _ bound _ _ _ _ gives prevented
  · intro c visited
    obtain ⟨map, signature, ready, -⟩ := visited.sound verifies natives
    refine ⟨ready.member, fun limit map' analyzed => ?_⟩
    obtain ⟨limit', analyzed'⟩ := ready.analyzed
    rw [StackMap.depthAt?_unique analyzed analyzed']
    exact ready.depth

/-- A machine with two methods: the body of the first one calls the second one, which is native,
    and drops the number that it gives. -/
def callingNative : Machine Unit where
  host := {
    symbols := {
      typeNames := ["Main", "int"]
      fields := []
      methods := [⟨⟨⟨0⟩, "run", [], none, true⟩, "Main::run()"⟩,
        ⟨⟨⟨0⟩, "roll", [], some ⟨1⟩, true⟩, "Main::roll()"⟩] }
    bodies := .single (.ofParts ⟨0⟩ [.of .call (.method ⟨1⟩), .plain .pop, .plain .ret] [] [])
    applied := [] }
  natives := [(⟨1⟩, fun heap world _ => ⟨.ok (some (.int 4)), heap, world⟩)]
  stepLimit := 3
  maxDepth := 2

theorem callingNative_sound :
    callingNative.host.Verifies ∧ callingNative.NativesReturn ∧
      (callingNative.call ⟨0⟩ [] .empty ()).result = .ok none ∧
      (∀ trap, (callingNative.call ⟨0⟩ [] .empty ()).result = .error trap → ¬ trap.prevented) ∧
      ∀ c, callingNative.Visits ⟨0⟩ [] .empty () c → c.frame.body ∈ callingNative.host.bodies ∧
        ∀ limit map, StackMap.analyze callingNative.host.symbols c.frame.body limit = .ok map →
          map.depthAt? c.frame.pc = some c.frame.stack.length := by
  have verifies : callingNative.host.Verifies := by
    intro b member
    obtain rfl := List.mem_singleton.mp member
    exact ⟨1, ⟨[some 0, some 1, some 0], 1⟩, by decide⟩
  have natives : callingNative.NativesReturn := by
    intro method code signature bound declared heap world args result arity returned
    simp only [callingNative, lookup_cons_eq] at bound
    split at bound
    · next equal =>
        subst equal
        cases bound
        cases declared
        cases returned
        rfl
    · cases bound
  have gives : ∀ callee code, callingNative.natives.lookup callee = some code →
      ∀ heap world args trap, (code heap world args).result = .error trap → ¬ trap.prevented := by
    intro callee code bound heap world args trap stopped
    simp only [callingNative, lookup_cons_eq] at bound
    split at bound <;> cases bound
    cases stopped
  obtain ⟨-, harmless, depths⟩ := call_sound callingNative verifies natives ⟨0⟩ [] .empty ()
  exact ⟨verifies, natives, by decide, harmless gives, depths⟩

end Machine

end HookSplice
