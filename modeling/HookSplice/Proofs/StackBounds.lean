import HookSplice.Proofs.FrameTurns
import HookSplice.Proofs.LargestDepth

/-!
# Bounds on the stack

On any host, the frames of a verified body keep to its stack map, whatever the other bodies are.  So
the stack of such a frame never holds more values than the largest depth of the map, unless the
frame has just caught an exception: the caught value counts for no instruction.
-/

namespace HookSplice

/-- How many values a call of a method gives. -/
def Host.results (h : Host) (method : MethodId) : Nat :=
  StackEffect.results ((h.symbols.method? method).bind MethodDef.ret)

theorem Host.results_eq {h : Host} {method : MethodId} {signature : MethodDef}
    (declared : h.symbols.method? method = some signature) :
    h.results method = StackEffect.results signature.ret := by
  simp [results, declared]

variable {σ : Type}

section Keeping

variable (host : Host) (b : Body) (map : StackMap) (signature : MethodDef)

/-- A frame of the body stands at the depth of the stack map. -/
def Frame.Keeps (f : Frame) : Prop :=
  f.body = b → f.Ready host map signature

/-- A frame of the body stands behind an instruction that the stack map has a depth for. -/
def Frame.StandsBehind (f : Frame) : Prop :=
  f.body = b → f.Sound host map signature ∧
    ∃ position, f.pc = position + 1 ∧ (map.depthAt? position).isSome

/-- A frame of the body waits for a call, behind which it stands at the depth of the stack map once
    the call has given `results` values or the object it makes. -/
structure Caller.Keeps (results : Nat) (w : Caller) : Prop where
  stands : w.frame.StandsBehind host b map signature
  waits : w.frame.body = b → map.depthAt? w.frame.pc =
    some (w.frame.stack.length + if w.created.isSome then 1 else results)

/-- All waiting frames do so, the innermost one for `results` values, each other one for what the
    method of the frame before gives. -/
def CallersKeep : Nat → List Caller → Prop
  | _, [] => True
  | results, w :: rest => w.Keeps host b map signature results ∧
      CallersKeep (host.results w.frame.body.method) rest

/-- All frames of the body keep to the stack map. -/
structure Config.Keeps (c : Config σ) : Prop where
  frame : c.frame.Keeps host b map signature
  callers : CallersKeep host b map signature (host.results c.frame.body.method) c.callers

/-- What follows an instruction of the frame `f` keeps to the stack map. -/
def Action.Keeps (f : Frame) : Action → Prop
  | next g _ => g.body = f.body ∧ g.Keeps host b map signature
  | exit result => host.results f.body.method = if result.isSome then 1 else 0
  | raised g _ => g.body = f.body ∧ g.StandsBehind host b map signature
  | escaped _ => True
  | call g callee _ created _ => g.body = f.body ∧
      ∀ s, host.symbols.method? callee = some s →
        Caller.Keeps host b map signature (StackEffect.results s.ret) ⟨g, created⟩

end Keeping

/-! ### One instruction -/

namespace Action

/-- A frame ends with a result if its method is declared with one, and only then. -/
def Gives (symbols : SymbolTable) (f : Frame) : Action → Prop
  | exit result => result.isSome = ((symbols.method? f.body.method).bind MethodDef.ret).isSome
  | _ => True

variable {symbols : SymbolTable} {heap : Heap} {position : Nat} {ins : Instruction} {f : Frame}

theorem ofInstruction_gives :
    Yields (Gives symbols f) (ofInstruction symbols heap position f ins) := by
  refine ofInstruction_outcome.imp fun action outcome => ?_
  cases action with
  | exit result => exact outcome
  | next | raised | escaped | call => trivial

end Action

section Analyzed

variable {host : Host} {b : Body} {map : StackMap} {signature : MethodDef} {limit : Nat}

/-- What follows an instruction keeps to the stack map, if the frame does that executes it. -/
theorem Frame.Keeps.action {f : Frame} (keeps : f.Keeps host b map signature)
    (regular : f.Regular host) {ins : Instruction} (here : f.body.code[f.pc]? = some ins)
    {heap : Heap} {action : Action} (ran : Action.ofInstruction host.symbols heap f.pc
      { f with pc := f.pc + 1 } ins = .ok action) : action.Keeps host b map signature f := by
  have leads : Yields (Action.Leads f.pc ins { f with pc := f.pc + 1 })
      (Action.ofInstruction host.symbols heap f.pc { f with pc := f.pc + 1 } ins) :=
    Action.ofInstruction_leads here rfl regular.begun
  have gives : Yields (Action.Gives host.symbols { f with pc := f.pc + 1 })
      (Action.ofInstruction host.symbols heap f.pc { f with pc := f.pc + 1 } ins) :=
    Action.ofInstruction_gives
  rw [ran] at leads gives
  -- Only a frame of the body says more than that it stays in its own one.
  have sound : f.body = b → action.Sound host map signature f.pc ∧ (map.depthAt? f.pc).isSome := by
    intro same
    have ready := keeps same
    obtain ⟨ins', effect, here', executes⟩ := ready.executes
    obtain rfl : ins = ins' := Option.some.inj (here.symm.trans here')
    have guarded := Action.ofInstruction_guarded executes heap
    rw [ran] at guarded
    exact ⟨guarded, by simp [ready.depth]⟩
  cases action with
  | next g heap =>
      obtain ⟨body, -⟩ := leads
      exact ⟨body, fun same => (sound (body.symm.trans same)).1⟩
  | exit result =>
      have given : result.isSome =
        ((host.symbols.method? f.body.method).bind MethodDef.ret).isSome := gives
      show host.results f.body.method = _
      rw [Host.results, StackEffect.results, given]
  | raised g v =>
      have body : g.body = f.body := leads.2.body
      refine ⟨body, fun same => ?_⟩
      obtain ⟨⟨ready, behind⟩, known⟩ := sound (body.symm.trans same)
      exact ⟨ready, f.pc, behind, known⟩
  | escaped v => trivial
  | call g callee args created heap =>
      have body : g.body = f.body := leads.2.body
      refine ⟨body, fun s declared => ⟨fun same => ?_, fun same => ?_⟩⟩
      · obtain ⟨⟨ready, behind, -⟩, known⟩ := sound (body.symm.trans same)
        exact ⟨ready, f.pc, behind, known⟩
      · obtain ⟨⟨-, -, waits⟩, -⟩ := sound (body.symm.trans same)
        exact waits s declared

/-! ### Waiting frames -/

theorem Caller.Keeps.resume {w : Caller} {results : Nat} {result : Option Value}
    (keeps : w.Keeps host b map signature results)
    (gives : results = if result.isSome then 1 else 0) :
    (w.resume result).Keeps host b map signature := by
  intro same
  have own : w.frame.body = b := (Machine.resume_level w result).body.symm.trans same
  exact resume_ready (keeps.stands own).1 (gives ▸ keeps.waits own)

theorem Frame.StandsBehind.catches {f g : Frame} {heap : Heap} {v : Value}
    (stands : f.StandsBehind host b map signature)
    (taken : f.throwThrough? host.symbols heap v (candidates f.body (f.pc - 1)) = some g) :
    g.Keeps host b map signature := by
  intro same
  have body := (throwThrough?_reaches taken).1
  obtain ⟨sound, position, behind, known⟩ := stands (body.symm.trans same)
  exact handler_ready sound behind known taken

/-- An exception that a waiting frame takes leaves frames that keep to the stack map. -/
theorem CallersKeep.unwind {heap : Heap} {v : Value} {callers rest : List Caller} {f : Frame}
    {results : Nat} (keep : CallersKeep host b map signature results callers)
    (taken : HookSplice.unwind host.symbols heap v callers = some (f, rest)) :
    f.Keeps host b map signature ∧
      CallersKeep host b map signature (host.results f.body.method) rest := by
  induction callers generalizing results with
  | nil => cases taken
  | cons w callers ih =>
      obtain ⟨keeps, others⟩ := keep
      unfold HookSplice.unwind at taken
      dsimp only at taken
      split at taken
      · next g handled =>
          cases taken
          rw [(Frame.throwThrough?_reaches handled).1]
          exact ⟨keeps.stands.catches handled, others⟩
      · exact ih others taken

theorem CallersKeep.mem {callers : List Caller} {results : Nat}
    (keep : CallersKeep host b map signature results callers) {w : Caller} (member : w ∈ callers) :
    ∃ results, w.Keeps host b map signature results := by
  induction callers generalizing results with
  | nil => cases member
  | cons first rest ih =>
      obtain ⟨keeps, others⟩ := keep
      rcases List.mem_cons.mp member with rfl | member
      · exact ⟨results, keeps⟩
      · exact ih others member

/-! ### Whole runs -/

namespace Machine

variable {m : Machine σ}

/-- The run goes on with frames that keep to the stack map, or it ends. -/
def KeepsProgress (m : Machine σ) (b : Body) (map : StackMap) (signature : MethodDef) :
    Progress σ → Prop
  | .running c => c.Keeps m.host b map signature
  | .ended _ _ _ => True

theorem giveBack_keeps {results : Nat} {result : Option Value} {callers : List Caller}
    {heap : Heap} {world : σ} (keep : CallersKeep m.host b map signature results callers)
    (gives : results = if result.isSome then 1 else 0) :
    m.KeepsProgress b map signature (giveBack result callers heap world) := by
  cases callers with
  | nil => trivial
  | cons w rest =>
      obtain ⟨keeps, others⟩ := keep
      refine ⟨keeps.resume gives, ?_⟩
      rwa [(resume_level w result).body]

theorem throwTo_keeps {results : Nat} {v : Value} {callers : List Caller} {heap : Heap}
    {world : σ} (keep : CallersKeep m.host b map signature results callers) :
    m.KeepsProgress b map signature (m.throwTo v callers heap world) := by
  unfold throwTo
  split
  · next taken =>
      obtain ⟨frame, callers⟩ := keep.unwind taken
      exact ⟨frame, callers⟩
  · trivial

theorem raise_keeps {f : Frame} {v : Value} {callers : List Caller} {heap : Heap} {world : σ}
    (stands : f.StandsBehind m.host b map signature)
    (keep : CallersKeep m.host b map signature (m.host.results f.body.method) callers) :
    m.KeepsProgress b map signature (m.throwTo v (⟨f, none⟩ :: callers) heap world) := by
  rw [throwTo_cons]
  cases taken : f.throwThrough? m.host.symbols heap v (Frame.candidates f.body (f.pc - 1)) with
  | some g =>
      refine ⟨stands.catches taken, ?_⟩
      rwa [(Frame.throwThrough?_reaches taken).1]
  | none => exact throwTo_keeps keep

variable (natives : m.NativesReturn)
  (analyzed : StackMap.analyze m.host.symbols b limit = .ok map)
  (declared : m.host.symbols.method? b.method = some signature)
include natives analyzed declared

theorem enter_keeps (method : MethodId) (args : List Value) (callers : List Caller) (heap : Heap)
    (world : σ) (keep : ∀ s, m.host.symbols.method? method = some s →
      CallersKeep m.host b map signature (StackEffect.results s.ret) callers) :
    m.KeepsProgress b map signature (m.enter method args callers heap world) := by
  generalize entered : m.enter method args callers heap world = p
  cases enter_starts entered with
  | refused | trapped => trivial
  | @body b' found =>
      obtain ⟨s, declared', arity, stored⟩ := implementation_eq_ok found
      obtain ⟨member, rfl⟩ := Host.body?_eq_some_iff.mp stored
      constructor
      · rintro (rfl : b' = b)
        obtain rfl := Option.some.inj (declared'.symm.trans declared)
        exact Frame.ready_enter member declared arity analyzed
      · show CallersKeep m.host b map signature (m.host.results b'.method) callers
        rw [Host.results_eq declared']
        exact keep s declared'
  | returned found gives back =>
      obtain ⟨s, declared', arity, bound⟩ := implementation_eq_ok found
      subst back
      refine giveBack_keeps (keep s declared') ?_
      rw [natives _ _ _ bound declared' _ _ _ _ arity gives]
      rfl

/-- One step keeps the frames of the body to its stack map. -/
theorem step_keeps {c : Config σ} (regular : c.frame.Regular m.host)
    (keeps : c.Keeps m.host b map signature) : m.KeepsProgress b map signature (m.step c) := by
  generalize moved : m.step c = p
  cases step_performs moved with
  | beyond | stopped => trivial
  | @executed ins action _ here ran followed =>
      have kept := keeps.frame.action regular here ran
      subst followed
      cases action with
      | next g heap =>
          obtain ⟨body, frame⟩ := kept
          exact ⟨frame, body ▸ keeps.callers⟩
      | exit result => exact giveBack_keeps keeps.callers kept
      | raised g v =>
          obtain ⟨body, stands⟩ := kept
          exact raise_keeps stands (body ▸ keeps.callers)
      | escaped v => exact throwTo_keeps keeps.callers
      | call g callee args created heap =>
          obtain ⟨body, waits⟩ := kept
          exact enter_keeps natives analyzed declared callee args _ heap c.world
            fun s found => ⟨waits s found, body ▸ keeps.callers⟩

theorem Visits.keeps {method : MethodId} {args : List Value} {heap : Heap} {world : σ}
    {c : Config σ} (visited : m.Visits method args heap world c) :
    c.Keeps m.host b map signature := by
  induction visited with
  | entered started =>
      have kept := enter_keeps natives analyzed declared method args [] heap world
        fun _ _ => trivial
      rwa [started] at kept
  | stepped before moved ih =>
      have kept := step_keeps natives analyzed declared before.regular.1 ih
      rwa [moved] at kept

end Machine

end Analyzed

/-! ### The bound -/

/-- The running frame or one that waits. -/
def Config.HasFrame (c : Config σ) (f : Frame) : Prop :=
  f = c.frame ∨ ∃ w ∈ c.callers, w.frame = f

/-- The stack holds at most `largest` values, unless it holds one at a handler that catches
    exceptions. -/
def Frame.Bounded (f : Frame) (largest : Nat) : Prop :=
  f.stack.length ≤ largest ∨ f.stack.length = 1 ∧ f.body.CatchesAt f.pc

namespace Machine

/-- The largest depth of a stack map bounds the stack but for caught exceptions.  It keeps to the
    limit of the verification; it is at least every depth of the map, except that a handler is
    entered with one value, which matters exactly if the largest depth is zero and such a handler
    can be entered; and no run of a machine ever has more values on the stack of a frame of the
    body, running or waiting, whatever else the host holds. -/
theorem stack_bounded (m : Machine σ) (natives : m.NativesReturn) {b : Body} {limit : Nat}
    {map : StackMap} (analyzed : StackMap.analyze m.host.symbols b limit = .ok map) :
    map.maxDepth ≤ limit ∧
      (∀ i k, map.depthAt? i = some k → k ≤ map.maxDepth ∨ k = 1 ∧ b.CatchesAt i) ∧
      ((∀ i k, map.depthAt? i = some k → k ≤ map.maxDepth) ↔
        (0 < map.maxDepth ∨ ∀ i, ¬ b.CatchesAt i)) ∧
      ∀ method args heap world c, m.Visits method args heap world c →
        ∀ f, c.HasFrame f → f.body = b → f.Bounded map.maxDepth := by
  have depths : ∀ i k, map.depthAt? i = some k → k ≤ map.maxDepth ∨ k = 1 ∧ b.CatchesAt i :=
    fun i k => StackMap.depth_le analyzed
  refine ⟨StackMap.maxDepth_le analyzed, depths, StackMap.depths_le_iff analyzed, ?_⟩
  rintro method args heap world c visited f among rfl
  obtain ⟨signature, declared, -⟩ := StackMap.analyze_eq_ok analyzed
  have keeps := visited.keeps natives analyzed declared
  rcases among with rfl | ⟨w, member, rfl⟩
  · exact depths _ _ (keeps.frame rfl).depth
  · obtain ⟨results, waits⟩ := keeps.callers.mem member
    rcases depths _ _ (waits.waits rfl) with below | ⟨one, catches⟩
    · exact Or.inl (by omega)
    · by_cases empty : w.frame.stack.length = 0
      · exact Or.inl (by omega)
      · exact Or.inr ⟨by omega, catches⟩

/-- Calls a method that throws, and drops the exception. -/
def catchingBody : Body :=
  .ofParts ⟨0⟩
    [.of .call (.method ⟨1⟩), .of .leave (.label ⟨0⟩), .plain .pop, .of .leave (.label ⟨0⟩),
      ⟨.ret, .none, [⟨0⟩]⟩]
    [] [⟨.catching ⟨1⟩, 0, 2, 2, 4⟩]

/-- A machine for that body and for the method that throws. -/
def catching : Machine Unit :=
  .ofHost {
    symbols := {
      typeNames := ["Main", "int"]
      fields := []
      methods := [⟨⟨⟨0⟩, "run", [], none, true⟩, "Main::run()"⟩,
        ⟨⟨⟨0⟩, "fail", [], none, true⟩, "Main::fail()"⟩] }
    bodies := ⟨[catchingBody, .ofParts ⟨1⟩ [.of .ldc (.int 7), .plain .throw] [] []], by decide⟩
    applied := [] }

/-- The frame of the first body, behind the exception that it has caught. -/
def caught : Config Unit :=
  ⟨⟨catchingBody, [], [], [.int 7], 2, []⟩, [], .empty, ()⟩

theorem catching_bounded :
    catching.NativesReturn ∧
      StackMap.analyze catching.host.symbols catchingBody 0 =
        .ok ⟨[some 0, some 0, some 1, some 0, some 0], 0⟩ ∧
      catching.Visits ⟨0⟩ [] .empty () caught ∧ caught.frame.Bounded 0 ∧
      ∀ method args heap world c, catching.Visits method args heap world c →
        ∀ f, c.HasFrame f → f.body = catchingBody → f.Bounded 0 := by
  have natives : catching.NativesReturn := by
    intro method code signature bound
    cases bound
  have analyzed : StackMap.analyze catching.host.symbols catchingBody 0 =
      .ok ⟨[some 0, some 0, some 1, some 0, some 0], 0⟩ := rfl
  have visited : catching.Visits ⟨0⟩ [] .empty () caught :=
    .stepped (.stepped (.stepped (.entered rfl) rfl) rfl) rfl
  obtain ⟨-, -, -, bounded⟩ := stack_bounded catching natives analyzed
  exact ⟨natives, analyzed, visited, bounded _ _ _ _ _ visited _ (Or.inl rfl) rfl, bounded⟩

/-- A body that passes verification with a limit of zero and a largest depth of zero, and in a run
    of which a value is on the stack. -/
theorem catching_exceeds :
    ∃ map, StackMap.analyze catching.host.symbols catchingBody 0 = .ok map ∧
      map.maxDepth = 0 ∧ map.depthAt? 2 = some 1 ∧
      ∃ c, catching.Visits ⟨0⟩ [] .empty () c ∧ c.frame.body = catchingBody ∧
        map.maxDepth < c.frame.stack.length :=
  ⟨_, rfl, rfl, rfl, caught, .stepped (.stepped (.stepped (.entered rfl) rfl) rfl) rfl, rfl,
    by decide⟩

end Machine

end HookSplice
