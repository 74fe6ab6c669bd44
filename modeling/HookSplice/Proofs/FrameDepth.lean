import HookSplice.Machine.Action
import HookSplice.Proofs.Propagation

/-!
# Depths in frames

A frame of a verified body keeps to the stack map of the body: an instruction that finds the depth
of its position leads to a position with the depth it leaves, and stops at no fault that
verification prevents.  Whatever a frame has put off leads to handlers and positions with the depth
at which they are entered.
-/

namespace HookSplice

/-! ### Faults that verification prevents -/

/-- Whether a fault cannot occur in a verified body.  What remains are faults of the values that an
    instruction works on, and `endfinally` outside of a finally handler. -/
def MachineFault.prevented : MachineFault → Bool
  | stackUnderflow | badTarget | noArgument _ | noLocal _ | symbol _ | duplicateLabel _
  | badOperand .. => true
  | notAnInt _ | notAnObject _ | endFinallyOutside => false

/-- Whether a mishap is a fault that cannot occur in a verified body. -/
def Mishap.prevented : Mishap → Bool
  | fault cause => cause.prevented
  | _ => false

/-- Whether a trap cannot stop a verified body: a fault of this sort, or running off the end. -/
def Trap.prevented : Trap → Bool
  | fault _ _ cause => cause.prevented
  | fellOffEnd _ => true
  | _ => false

theorem Mishap.prevented_toTrap (mishap : Mishap) (name : String) (position : Nat) :
    (mishap.toTrap name position).prevented = mishap.prevented := by
  cases mishap <;> rfl

/-- The result satisfies `post`, or is a mishap that verification does not prevent. -/
def Guarded {α : Type} (post : α → Prop) : Except Mishap α → Prop
  | .ok a => post a
  | .error mishap => mishap.prevented = false

theorem Guarded.bind {α β : Type} {p : α → Prop} {q : β → Prop} {x : Except Mishap α}
    {f : α → Except Mishap β} (first : Guarded p x) (next : ∀ a, p a → Guarded q (f a)) :
    Guarded q (x >>= f) := by
  cases x with
  | error mishap => exact first
  | ok a => exact next a first

theorem Guarded.map {α β : Type} {p : α → Prop} {q : β → Prop} {x : Except Mishap α} {f : α → β}
    (first : Guarded p x) (next : ∀ a, p a → q (f a)) : Guarded q (x.map f) := by
  cases x with
  | error mishap => exact first
  | ok a => exact next a first

theorem Guarded.mono {α : Type} {p q : α → Prop} {x : Except Mishap α} (first : Guarded p x)
    (weaker : ∀ a, p a → q a) : Guarded q x := by
  cases x with
  | error mishap => exact first
  | ok a => exact weaker a first

namespace Frame

/-! ### Changes within a frame -/

/-- The second frame is the first one at another position and with another stack and other values
    in its arguments and locals. -/
structure Reshaped (f f' : Frame) (pc depth : Nat) : Prop where
  body : f'.body = f.body
  args : f'.args.length = f.args.length
  locals : f'.locals.length = f.locals.length
  pending : f'.pending = f.pending
  pc : f'.pc = pc
  depth : f'.stack.length = depth

theorem Reshaped.refl (f : Frame) : Reshaped f f f.pc f.stack.length :=
  ⟨rfl, rfl, rfl, rfl, rfl, rfl⟩

theorem Reshaped.push {f g : Frame} {pc depth : Nat} (reshaped : Reshaped f g pc depth)
    (v : Value) : Reshaped f (g.push v) pc (depth + 1) :=
  { reshaped with depth := congrArg (· + 1) reshaped.depth }

variable {f g : Frame} {pc depth : Nat}

theorem pop_guarded (reshaped : Reshaped f g pc (depth + 1)) :
    Guarded (fun p => Reshaped f p.2 pc depth) g.pop := by
  have length := reshaped.depth
  unfold pop
  cases stack : g.stack with
  | nil => simp [stack] at length
  | cons v rest =>
      rw [stack] at length
      exact { reshaped with depth := Nat.succ.inj length }

theorem intOf_guarded (v : Value) : Guarded (fun _ => True) (intOf v) := by
  cases v <;> simp [intOf, Guarded, Mishap.prevented, MachineFault.prevented]

theorem objectOf_guarded (v : Value) : Guarded (fun _ => True) (objectOf v) := by
  cases v <;> simp [objectOf, Guarded, Mishap.prevented, MachineFault.prevented]

theorem popInt_guarded (reshaped : Reshaped f g pc (depth + 1)) :
    Guarded (fun p => Reshaped f p.2 pc depth) g.popInt :=
  (pop_guarded reshaped).bind fun p popped => (intOf_guarded p.1).bind fun _ _ => popped

theorem popObject_guarded (reshaped : Reshaped f g pc (depth + 1)) :
    Guarded (fun p => Reshaped f p.2 pc depth) g.popObject :=
  (pop_guarded reshaped).bind fun p popped => (objectOf_guarded p.1).bind fun _ _ => popped

theorem popMany_guarded {n : Nat} (reshaped : Reshaped f g pc depth) (enough : n ≤ depth) :
    Guarded (fun p => Reshaped f p.2 pc (depth - n)) (g.popMany n) := by
  have length := reshaped.depth
  unfold popMany
  rw [if_neg (by omega)]
  exact { reshaped with depth := by simp [length] }

theorem loadArg_guarded {i : UInt16} (inside : i.toNat < f.args.length) :
    Guarded (fun _ => True) (f.loadArg i) := by
  unfold loadArg
  rw [List.getElem?_eq_getElem inside]
  exact trivial

theorem loadLocal_guarded {i : UInt16} (inside : i.toNat < f.locals.length) :
    Guarded (fun _ => True) (f.loadLocal i) := by
  unfold loadLocal
  rw [List.getElem?_eq_getElem inside]
  exact trivial

theorem storeArg_guarded {i : UInt16} (reshaped : Reshaped f g pc depth)
    (inside : i.toNat < f.args.length) (v : Value) :
    Guarded (fun h => Reshaped f h pc depth) (g.storeArg i v) := by
  unfold storeArg
  rw [if_pos (by rw [reshaped.args]; exact inside)]
  exact { reshaped with args := by simp [reshaped.args] }

theorem storeLocal_guarded {i : UInt16} (reshaped : Reshaped f g pc depth)
    (inside : i.toNat < f.locals.length) (v : Value) :
    Guarded (fun h => Reshaped f h pc depth) (g.storeLocal i v) := by
  unfold storeLocal
  rw [if_pos (by rw [reshaped.locals]; exact inside)]
  exact { reshaped with locals := by simp [reshaped.locals] }

/-- A branch leads to the next position or to its target. -/
theorem branchIf_guarded {ins : Instruction} {t : Nat} (reshaped : Reshaped f g pc depth)
    (target : f.body.targetOf? ins = some t) (taken : Bool) :
    Guarded (fun h => (taken = false ∧ Reshaped f h pc depth) ∨ Reshaped f h t depth)
      (g.branchIf taken ins) := by
  have resolved : g.targetOf ins = .ok t := by
    simp [targetOf, reshaped.body, target]
  cases taken with
  | false => exact Or.inl ⟨rfl, reshaped⟩
  | true =>
      unfold branchIf
      rw [if_pos rfl, resolved]
      exact Or.inr { reshaped with pc := rfl }

/-! ### Frames that keep to a stack map -/

/-- What was put off goes on at positions with the depth it leaves there. -/
def PendingSound (body : Body) (m : StackMap) : Pending → Prop
  | .leave target rest => m.depthAt? target = some 0 ∧
      ∀ i ∈ rest, ∃ r, body.regions[i]? = some r ∧ m.depthAt? r.handlerStart = some 0
  | .throw _ rest =>
      ∀ i ∈ rest, ∃ r, body.regions[i]? = some r ∧ m.depthAt? r.handlerStart = some r.entryDepth

/-- A frame of a body that the host has and that was verified, with as many arguments and locals as
    the verifier has counted on. -/
structure Sound (host : Host) (m : StackMap) (signature : MethodDef) (f : Frame) : Prop where
  member : f.body ∈ host.bodies
  declared : host.symbols.method? f.body.method = some signature
  analyzed : ∃ limit, StackMap.analyze host.symbols f.body limit = .ok m
  args : f.args.length = signature.argCount
  locals : f.locals.length = f.body.locals.length
  pending : ∀ p ∈ f.pending, PendingSound f.body m p

/-- A sound frame that stands at a position with as many values as the stack map has there. -/
structure Ready (host : Host) (m : StackMap) (signature : MethodDef) (f : Frame) : Prop extends
    Sound host m signature f where
  depth : m.depthAt? f.pc = some f.stack.length

section

variable {host : Host} {m : StackMap} {signature : MethodDef}

theorem Sound.verified (sound : Sound host m signature f) :
    ∃ limit, StackMap.Verified host.symbols signature limit f.body m := by
  obtain ⟨limit, analyzed⟩ := sound.analyzed
  obtain ⟨enclosing, found, verified⟩ := StackMap.analyze_eq_ok analyzed
  obtain rfl : signature = enclosing := Option.some.inj (sound.declared.symm.trans found)
  exact ⟨limit, verified⟩

theorem Sound.reshaped (sound : Sound host m signature f) (reshaped : Reshaped f g pc depth) :
    Sound host m signature g where
  member := by rw [reshaped.body]; exact sound.member
  declared := by rw [reshaped.body]; exact sound.declared
  analyzed := by rw [reshaped.body]; exact sound.analyzed
  args := by rw [reshaped.args]; exact sound.args
  locals := by rw [reshaped.body, reshaped.locals]; exact sound.locals
  pending := by rw [reshaped.body, reshaped.pending]; exact sound.pending

theorem Sound.ready (sound : Sound host m signature f) (reshaped : Reshaped f g pc depth)
    (here : m.depthAt? pc = some depth) : Ready host m signature g :=
  { sound.reshaped reshaped with depth := by rw [reshaped.pc, reshaped.depth, here] }

/-- The frame of a sound one that starts over at a handler or a target with other things put
    off. -/
theorem Sound.moved (sound : Sound host m signature f) {stack : List Value}
    {pending : List Pending} (put : ∀ p ∈ pending, PendingSound f.body m p)
    (here : m.depthAt? pc = some stack.length) :
    Ready host m signature { f with stack := stack, pc := pc, pending := pending } :=
  { sound with pending := put, depth := here }

theorem throwThrough?_ready (sound : Sound host m signature f) {heap : Heap} {v : Value}
    {regions : List Nat} (offered : PendingSound f.body m (.throw v regions))
    (taken : throwThrough? host.symbols heap f v regions = some g) : Ready host m signature g := by
  fun_induction throwThrough? host.symbols heap f v regions with
  | case1 => cases taken
  | case2 i rest _ ih => exact ih (fun j member => offered j (List.mem_cons_of_mem _ member)) taken
  | case3 i rest r region type catching fits =>
      cases taken
      obtain ⟨r', region', entered⟩ := offered i (List.mem_cons_self ..)
      obtain rfl : r = r' := Option.some.inj (region.symm.trans region')
      exact sound.moved sound.pending (by simpa [Region.entryDepth, catching] using entered)
  | case4 i rest r region type catching fits ih =>
      exact ih (fun j member => offered j (List.mem_cons_of_mem _ member)) taken
  | case5 i rest r region finalizing =>
      cases taken
      obtain ⟨r', region', entered⟩ := offered i (List.mem_cons_self ..)
      obtain rfl : r = r' := Option.some.inj (region.symm.trans region')
      refine sound.moved (List.forall_mem_cons.mpr ⟨fun j member => ?_, sound.pending⟩)
        (by simpa [Region.entryDepth, finalizing] using entered)
      exact offered j (List.mem_cons_of_mem _ member)

theorem continueLeave_ready (sound : Sound host m signature f) {target : Nat} {regions : List Nat}
    (offered : PendingSound f.body m (.leave target regions)) :
    Ready host m signature (f.continueLeave target regions) := by
  obtain ⟨arrives, handlers⟩ := offered
  cases regions with
  | nil => exact sound.moved sound.pending arrives
  | cons i rest =>
      obtain ⟨r, region, entered⟩ := handlers i (List.mem_cons_self ..)
      have start : (f.body.regions[i]?.map Region.handlerStart).getD target = r.handlerStart := by
        simp [region]
      simp only [continueLeave, start]
      refine sound.moved (List.forall_mem_cons.mpr ⟨⟨arrives, fun j member => ?_⟩,
        sound.pending⟩) entered
      exact handlers j (List.mem_cons_of_mem _ member)

theorem mem_innermostFirst {body : Body} {keep : Region → Bool} {i : Nat} :
    i ∈ innermostFirst body keep ↔ ∃ r, body.regions[i]? = some r ∧ keep r := by
  unfold innermostFirst
  rw [List.mem_map]
  constructor
  · rintro ⟨⟨r, j⟩, member, rfl⟩
    obtain ⟨member, kept⟩ := List.mem_filter.mp (Order.mem_sortBy.mp member)
    exact ⟨r, List.mem_zipIdx_iff_getElem?.mp member, kept⟩
  · rintro ⟨r, region, kept⟩
    refine ⟨(r, i), Order.mem_sortBy.mpr (List.mem_filter.mpr ⟨?_, kept⟩), rfl⟩
    exact List.mem_zipIdx_iff_getElem?.mpr region

/-- The handlers to which an exception at a position is offered are entered with their depth. -/
theorem candidates_sound (sound : Sound host m signature f) {position k : Nat}
    (known : m.depthAt? position = some k) (v : Value) :
    PendingSound f.body m (.throw v (candidates f.body position)) := by
  intro i member
  obtain ⟨r, region, protects⟩ := mem_innermostFirst.mp member
  obtain ⟨limit, verified⟩ := sound.verified
  obtain ⟨ins, effect, -, -, passes⟩ := verified.map.step known
  exact ⟨r, region, passes _ _ (.handler (List.mem_of_getElem? region) protects)⟩

/-- The finally handlers between a position and the target of a `leave` are entered with an empty
    stack. -/
theorem exited_sound (sound : Sound host m signature f) {position target k : Nat}
    (known : m.depthAt? position = some k) (arrives : m.depthAt? target = some 0) :
    PendingSound f.body m (.leave target (exited f.body position target)) := by
  refine ⟨arrives, fun i member => ?_⟩
  obtain ⟨r, region, kept⟩ := mem_innermostFirst.mp member
  simp only [Bool.and_eq_true, beq_iff_eq] at kept
  obtain ⟨⟨finalizing, protects⟩, -⟩ := kept
  obtain ⟨limit, verified⟩ := sound.verified
  obtain ⟨ins, effect, -, -, passes⟩ := verified.map.step known
  have entered := passes _ _ (.handler (List.mem_of_getElem? region) protects)
  exact ⟨r, region, by simpa [Region.entryDepth, finalizing] using entered⟩

end

end Frame

/-! ### Operands of verified instructions -/

namespace Instruction

variable {ins : Instruction} {symbols : SymbolTable} {body : Body} {argCount : Nat}

theorem argument_guarded (fits : ins.operandFits)
    (inRange : body.OperandInRange symbols argCount ins) (kind : ins.opcode.operandKind = .arg) :
    Guarded (fun i => i.toNat < argCount) ins.argument := by
  unfold argument
  cases operand : ins.operand <;> simp [operandFits, kind, operand, Operand.kind] at fits
  simpa [Guarded, Body.OperandInRange, operand] using inRange

theorem localSlot_guarded (fits : ins.operandFits)
    (inRange : body.OperandInRange symbols argCount ins) (kind : ins.opcode.operandKind = .slot) :
    Guarded (fun i => i.toNat < body.locals.length) ins.localSlot := by
  unfold localSlot
  cases operand : ins.operand <;> simp [operandFits, kind, operand, Operand.kind] at fits
  simpa [Guarded, Body.OperandInRange, operand] using inRange

theorem number_guarded (fits : ins.operandFits) (kind : ins.opcode.operandKind = .int) :
    Guarded (fun _ => True) ins.number := by
  unfold number
  cases operand : ins.operand <;> simp [operandFits, kind, operand, Operand.kind] at fits
  trivial

theorem text_guarded (fits : ins.operandFits) (kind : ins.opcode.operandKind = .text) :
    Guarded (fun _ => True) ins.text := by
  unfold text
  cases operand : ins.operand <;> simp [operandFits, kind, operand, Operand.kind] at fits
  trivial

theorem field_guarded (fits : ins.operandFits) (kind : ins.opcode.operandKind = .field) :
    Guarded (fun _ => True) ins.field := by
  unfold field
  cases operand : ins.operand <;> simp [operandFits, kind, operand, Operand.kind] at fits
  trivial

theorem type_guarded (fits : ins.operandFits) (kind : ins.opcode.operandKind = .type) :
    Guarded (fun _ => True) ins.type := by
  unfold type
  cases operand : ins.operand <;> simp [operandFits, kind, operand, Operand.kind] at fits
  trivial

theorem callee_guarded (fits : ins.operandFits)
    (inRange : body.OperandInRange symbols argCount ins)
    (kind : ins.opcode.operandKind = .method) :
    Guarded (fun p => ins.operand = .method p.1 ∧ symbols.method? p.1 = some p.2)
      (ins.callee symbols) := by
  unfold callee
  cases operand : ins.operand <;> simp [operandFits, kind, operand, Operand.kind] at fits
  next id =>
    simp only [Body.OperandInRange, operand] at inRange
    obtain ⟨signature, found⟩ := Option.isSome_iff_exists.mp inRange
    simp [found, Guarded]

theorem exists_target (fits : ins.operandFits) (inRange : body.OperandInRange symbols argCount ins)
    (kind : ins.opcode.operandKind = .label) : ∃ t, body.targetOf? ins = some t := by
  cases operand : ins.operand <;> simp [operandFits, kind, operand, Operand.kind] at fits
  simp only [Body.OperandInRange, operand] at inRange
  simpa [Body.targetOf?, target?, operand] using Option.isSome_iff_exists.mp inRange

end Instruction

/-! ### Executing an instruction -/

/-- A sound frame about to execute an instruction of its body: it stands behind the instruction
    already, and the stack map knows the depth in front of it. -/
structure Frame.Executes (host : Host) (m : StackMap) (signature : MethodDef) (position : Nat)
    (ins : Instruction) (effect : StackEffect) (f : Frame) : Prop extends
    Frame.Sound host m signature f where
  here : f.body.code[position]? = some ins
  behind : f.pc = position + 1
  known : m.depthAt? position = some f.stack.length
  suits : StackEffect.Suits host.symbols signature ins f.stack.length effect
  fits : ins.operandFits
  inRange : f.body.OperandInRange host.symbols signature.argCount ins
  passes : ∀ {j k : Nat}, f.body.Passes position ins (effect.behind f.stack.length) j k →
    m.depthAt? j = some k

/-- A frame at a position with the depth of the stack map can execute the instruction there. -/
theorem Frame.Ready.executes {host : Host} {m : StackMap} {signature : MethodDef} {f : Frame}
    (ready : Frame.Ready host m signature f) : ∃ ins effect, f.body.code[f.pc]? = some ins ∧
      Frame.Executes host m signature f.pc ins effect { f with pc := f.pc + 1 } := by
  obtain ⟨limit, verified⟩ := ready.verified
  obtain ⟨ins, effect, here, suits, passes⟩ := verified.map.step ready.depth
  obtain ⟨fits, inRange⟩ := StackMap.operandFault?_eq_none_iff.mp
    (verified.structured.operands here)
  exact ⟨ins, effect, here, {
    ready.toSound with
    here := here
    behind := rfl
    known := ready.depth
    suits := suits
    fits := fits
    inRange := inRange
    passes := passes _ _ }⟩

namespace Action

variable {host : Host} {m : StackMap} {signature : MethodDef} {position : Nat}
  {ins : Instruction} {effect : StackEffect} {f : Frame} {heap : Heap}

/-- What an instruction of a sound frame leads to is sound: the frame goes on at a depth of the
    stack map, at once or when the call it waits for gives what its signature promises. -/
def Sound (host : Host) (m : StackMap) (signature : MethodDef) (position : Nat) : Action → Prop
  | next f _ => Frame.Ready host m signature f
  | exit result => result.isSome = signature.ret.isSome
  | raised f _ => Frame.Sound host m signature f ∧ f.pc = position + 1
  | escaped _ => True
  | call f callee _ created _ => Frame.Sound host m signature f ∧ f.pc = position + 1 ∧
      ∀ s, host.symbols.method? callee = some s → m.depthAt? f.pc =
        some (f.stack.length + if created.isSome then 1 else StackEffect.results s.ret)

section Reshaping

variable {g : Frame} {pc depth t : Nat}

theorem arithmetic_guarded (op : Opcode) (reshaped : Frame.Reshaped f g pc (depth + 2)) :
    Guarded (fun h => Frame.Reshaped f h pc (depth + 1)) (arithmetic op g) := by
  refine (Frame.popInt_guarded reshaped).bind fun ⟨b, g⟩ reshaped => ?_
  refine (Frame.popInt_guarded reshaped).bind fun ⟨a, g⟩ reshaped => ?_
  have computed : Guarded (fun _ => True) (op.binary a b) := by
    unfold Opcode.binary
    split <;> first | exact trivial | (split <;> first | exact rfl | exact trivial)
  exact computed.bind fun n _ => reshaped.push (.int n)

theorem negation_guarded (op : Int64 → Int64) (reshaped : Frame.Reshaped f g pc (depth + 1)) :
    Guarded (fun h => Frame.Reshaped f h pc (depth + 1)) (negation op g) :=
  (Frame.popInt_guarded reshaped).bind fun p reshaped => reshaped.push (.int (op p.1))

theorem popEqual_guarded (reshaped : Frame.Reshaped f g pc (depth + 2)) :
    Guarded (fun p => Frame.Reshaped f p.2 pc depth) (popEqual g) :=
  (Frame.pop_guarded reshaped).bind fun _ reshaped =>
    (Frame.pop_guarded reshaped).bind fun _ reshaped => reshaped

theorem branchIf_guarded (falls : ins.opcode.fallsThrough) (reshaped : Frame.Reshaped f g pc depth)
    (target : f.body.targetOf? ins = some t) (taken : Bool) :
    Guarded (fun h => (ins.opcode.fallsThrough ∧ Frame.Reshaped f h pc depth) ∨
      Frame.Reshaped f h t depth)
      (g.branchIf taken ins) :=
  (Frame.branchIf_guarded reshaped target taken).mono fun _ moved =>
    moved.imp_left fun stays => ⟨falls, stays.2⟩

theorem branchOnTruth_guarded (falls : ins.opcode.fallsThrough) (wanted : Bool)
    (reshaped : Frame.Reshaped f g pc (depth + 1)) (target : f.body.targetOf? ins = some t) :
    Guarded (fun h => (ins.opcode.fallsThrough ∧ Frame.Reshaped f h pc depth) ∨
      Frame.Reshaped f h t depth)
      (branchOnTruth wanted ins g) :=
  (Frame.pop_guarded reshaped).bind fun _ reshaped => branchIf_guarded falls reshaped target _

theorem branchOnEqual_guarded (falls : ins.opcode.fallsThrough) (wanted : Bool)
    (reshaped : Frame.Reshaped f g pc (depth + 2)) (target : f.body.targetOf? ins = some t) :
    Guarded (fun h => (ins.opcode.fallsThrough ∧ Frame.Reshaped f h pc depth) ∨
      Frame.Reshaped f h t depth)
      (branchOnEqual wanted ins g) :=
  (popEqual_guarded reshaped).bind fun _ reshaped => branchIf_guarded falls reshaped target _

theorem branchOnOrder_guarded (falls : ins.opcode.fallsThrough) (inOrder : Int64 → Int64 → Bool)
    (reshaped : Frame.Reshaped f g pc (depth + 2)) (target : f.body.targetOf? ins = some t) :
    Guarded (fun h => (ins.opcode.fallsThrough ∧ Frame.Reshaped f h pc depth) ∨
      Frame.Reshaped f h t depth)
      (branchOnOrder inOrder ins g) :=
  (Frame.popInt_guarded reshaped).bind fun _ reshaped =>
    (Frame.popInt_guarded reshaped).bind fun _ reshaped => branchIf_guarded falls reshaped target _

theorem loadField_guarded (fits : ins.operandFits) (kind : ins.opcode.operandKind = .field)
    (reshaped : Frame.Reshaped f g pc (depth + 1)) :
    Guarded (fun h => Frame.Reshaped f h pc (depth + 1)) (loadField heap ins g) := by
  refine (Instruction.field_guarded fits kind).bind fun field _ => ?_
  refine (Frame.popObject_guarded reshaped).bind fun ⟨object, g⟩ reshaped => ?_
  simp only
  split
  · next v _ => exact reshaped.push v
  · rfl

theorem testInstance_guarded (symbols : SymbolTable) (fits : ins.operandFits)
    (kind : ins.opcode.operandKind = .type) (reshaped : Frame.Reshaped f g pc (depth + 1)) :
    Guarded (fun h => Frame.Reshaped f h pc (depth + 1)) (testInstance symbols heap ins g) :=
  (Instruction.type_guarded fits kind).bind fun _ _ =>
    (Frame.pop_guarded reshaped).bind fun _ reshaped => reshaped.push _

end Reshaping

/-! The instructions that reach beyond the frame. -/

variable (executes : Frame.Executes host m signature position ins effect f)
include executes

theorem start : Frame.Reshaped f f (position + 1) f.stack.length :=
  { Frame.Reshaped.refl f with pc := executes.behind }

/-- An instruction after which control goes on in the frame. -/
theorem next_guarded (falls : ins.opcode.fallsThrough) {pops pushes : Nat}
    (effect_eq : (⟨pops, pushes⟩ : StackEffect) = effect) {x : Except Mishap Action}
    (ran : ∀ n, Frame.Reshaped f f (position + 1) (n + pops) →
      Guarded (fun a => ∃ g heap', a = next g heap' ∧
        Frame.Reshaped f g (position + 1) (n + pushes)) x) :
    Guarded (Sound host m signature position) x := by
  subst effect_eq
  obtain ⟨n, depth⟩ := Nat.exists_eq_add_of_le' executes.suits.enough
  have arrives := executes.passes (.onward falls)
  rw [StackEffect.behind, depth, Nat.add_sub_cancel] at arrives
  refine (ran n (depth ▸ start executes)).mono ?_
  rintro _ ⟨g, heap', rfl, reshaped⟩
  exact executes.ready reshaped arrives

/-- An instruction that only works on the frame, and after which control goes on. -/
theorem onward_guarded (falls : ins.opcode.fallsThrough) {pops pushes : Nat}
    (effect_eq : (⟨pops, pushes⟩ : StackEffect) = effect) {x : Except Mishap Frame}
    (ran : ∀ n, Frame.Reshaped f f (position + 1) (n + pops) →
      Guarded (fun g => Frame.Reshaped f g (position + 1) (n + pushes)) x) :
    Guarded (Sound host m signature position) (going heap x) :=
  next_guarded executes falls effect_eq fun n started =>
    (ran n started).map fun g reshaped => ⟨g, heap, rfl, reshaped⟩

/-- A branch that takes some values. -/
theorem branch_guarded (kind : ins.opcode.operandKind = .label) (stays : ins.opcode ≠ .leave)
    {pops : Nat} (effect_eq : (⟨pops, 0⟩ : StackEffect) = effect) {x : Except Mishap Frame}
    (ran : ∀ n t, Frame.Reshaped f f (position + 1) (n + pops) →
      f.body.targetOf? ins = some t →
      Guarded (fun g => (ins.opcode.fallsThrough ∧ Frame.Reshaped f g (position + 1) n) ∨
        Frame.Reshaped f g t n) x) :
    Guarded (Sound host m signature position) (going heap x) := by
  subst effect_eq
  obtain ⟨t, target⟩ := Instruction.exists_target executes.fits executes.inRange kind
  obtain ⟨n, depth⟩ := Nat.exists_eq_add_of_le' executes.suits.enough
  refine (ran n t (depth ▸ start executes) target).map fun g moved => ?_
  rcases moved with ⟨falls, reshaped⟩ | reshaped
  · have arrives := executes.passes (.onward falls)
    rw [StackEffect.behind, depth, Nat.add_sub_cancel] at arrives
    exact executes.ready reshaped arrives
  · have arrives := executes.passes (.branch target)
    rw [if_neg stays, StackEffect.behind, depth, Nat.add_sub_cancel] at arrives
    exact executes.ready reshaped arrives

theorem storeField_guarded (op : ins.opcode = .stfld) :
    Guarded (Sound host m signature position) (storeField heap ins f) := by
  have effect_eq : (⟨2, 0⟩ : StackEffect) = effect := by
    simpa [StackEffect.ofInstruction, op] using executes.suits.effect_eq
  refine next_guarded executes (by rw [op]; rfl) effect_eq fun n started => ?_
  refine (Instruction.field_guarded executes.fits (by rw [op]; rfl)).bind fun field _ => ?_
  refine (Frame.pop_guarded started).bind fun ⟨v, g⟩ reshaped => ?_
  refine (Frame.popObject_guarded reshaped).bind fun ⟨object, g⟩ reshaped => ?_
  simp only
  split
  · next heap' _ => exact ⟨g, heap', rfl, reshaped⟩
  · rfl

theorem callMethod_guarded (needsReceiver : Bool)
    (op : ins.opcode = .call ∨ ins.opcode = .callvirt) :
    Guarded (Sound host m signature position)
      (callMethod host.symbols heap needsReceiver ins f) := by
  have kind : ins.opcode.operandKind = .method := by
    rcases op with op | op <;> rw [op] <;> rfl
  have falls : ins.opcode.fallsThrough := by
    rcases op with op | op <;> rw [op] <;> rfl
  refine (Instruction.callee_guarded executes.fits executes.inRange kind).bind ?_
  rintro ⟨id, callee⟩ ⟨operand, found⟩
  have suits := executes.suits
  obtain rfl : effect = ⟨callee.argCount, StackEffect.results callee.ret⟩ := by
    have effect_eq := suits.effect_eq
    rcases op with op | op
    all_goals
      simp only [StackEffect.ofInstruction, StackEffect.ofCall, op, operand, found, reduceCtorEq,
        if_false, false_and, true_and] at effect_eq
    · exact (Except.ok.inj effect_eq).symm
    · split at effect_eq
      · cases effect_eq
      · exact (Except.ok.inj effect_eq).symm
  refine (Frame.popMany_guarded (start executes) suits.enough).bind fun ⟨args, g⟩ reshaped => ?_
  simp only
  split
  · rfl
  · refine ⟨executes.reshaped reshaped, reshaped.pc, fun s found' => ?_⟩
    obtain rfl : callee = s := Option.some.inj (found.symm.trans found')
    rw [reshaped.pc, reshaped.depth]
    exact executes.passes (.onward falls)

theorem construct_guarded (op : ins.opcode = .newobj) :
    Guarded (Sound host m signature position) (construct host.symbols heap ins f) := by
  refine (Instruction.callee_guarded executes.fits executes.inRange (by rw [op]; rfl)).bind ?_
  rintro ⟨id, callee⟩ ⟨operand, found⟩
  have suits := executes.suits
  obtain rfl : effect = ⟨callee.params.length, 1⟩ := by
    have effect_eq := suits.effect_eq
    simp only [StackEffect.ofInstruction, StackEffect.ofCall, op, operand, found, if_true]
      at effect_eq
    split at effect_eq
    · exact (Except.ok.inj effect_eq).symm
    · cases effect_eq
  refine (Frame.popMany_guarded (start executes) suits.enough).bind fun ⟨args, g⟩ reshaped => ?_
  refine ⟨executes.reshaped reshaped, reshaped.pc, fun s _ => ?_⟩
  rw [reshaped.pc, reshaped.depth]
  exact executes.passes (.onward (by rw [op]; rfl))

theorem ret_guarded (op : ins.opcode = .ret) :
    Guarded (Sound host m signature position) (ret host.symbols f) := by
  have suits := executes.suits
  obtain rfl : effect = ⟨StackEffect.results signature.ret, 0⟩ := by
    simpa [StackEffect.ofInstruction, op] using suits.effect_eq.symm
  have depth := suits.exact_at_ret op
  unfold ret
  rw [executes.declared]
  simp only
  split
  · next returns =>
      simp only [StackEffect.results, returns, if_true] at depth
      have started := start executes
      rw [depth] at started
      exact (Frame.pop_guarded started).map fun _ _ => returns.symm
  · next returns =>
      simp only [Guarded, Sound, Option.isSome_none]
      exact (Bool.eq_false_iff.mpr returns).symm

theorem raise_guarded (op : ins.opcode = .throw) :
    Guarded (Sound host m signature position) (raise f) := by
  have suits := executes.suits
  obtain rfl : effect = ⟨1, 0⟩ := by
    simpa [StackEffect.ofInstruction, op] using suits.effect_eq.symm
  obtain ⟨n, depth⟩ := Nat.exists_eq_add_of_le' suits.enough
  have started := depth ▸ start executes
  refine (Frame.pop_guarded started).bind fun ⟨v, g⟩ reshaped => ?_
  simp only
  split
  · rfl
  · exact ⟨executes.reshaped reshaped, reshaped.pc⟩

theorem leave_guarded (op : ins.opcode = .leave) :
    Guarded (Sound host m signature position) (leave heap position ins f) := by
  obtain ⟨t, target⟩ := Instruction.exists_target executes.fits executes.inRange (by rw [op]; rfl)
  have resolved : f.targetOf ins = .ok t := by
    simp [Frame.targetOf, target]
  have arrives := executes.passes (.branch target)
  rw [if_pos op] at arrives
  unfold leave
  rw [resolved]
  exact Frame.continueLeave_ready executes.toSound
    (Frame.exited_sound executes.toSound executes.known arrives)

theorem endFinally_guarded :
    Guarded (Sound host m signature position) (endFinally host.symbols heap f) := by
  have pending := executes.pending
  have popped : ∀ {rest : List Pending}, (∀ p ∈ rest, Frame.PendingSound f.body m p) →
      Frame.Sound host m signature { f with pending := rest } :=
    fun others => { executes.toSound with pending := others }
  unfold endFinally
  split
  · rfl
  · next target rest others put =>
      rw [put] at pending
      obtain ⟨first, others⟩ := List.forall_mem_cons.mp pending
      exact Frame.continueLeave_ready (popped others) first
  · next v rest others put =>
      rw [put] at pending
      obtain ⟨first, others⟩ := List.forall_mem_cons.mp pending
      split
      · next g taken => exact Frame.throwThrough?_ready (popped others) first taken
      · trivial

/-- An instruction of a sound frame, at the depth of the stack map, stops at no fault that
    verification prevents, and what follows it is sound. -/
theorem ofInstruction_guarded (heap : Heap) :
    Guarded (Sound host m signature position)
      (ofInstruction host.symbols heap position f ins) := by
  have effect_eq := executes.suits.effect_eq
  have fits := executes.fits
  have inRange := executes.inRange
  unfold ofInstruction
  unfold StackEffect.ofInstruction at effect_eq
  cases op : ins.opcode <;> rw [op] at effect_eq <;> simp only at effect_eq ⊢
  case call => exact callMethod_guarded executes false (Or.inl op)
  case callvirt => exact callMethod_guarded executes true (Or.inr op)
  case newobj => exact construct_guarded executes op
  case stfld => exact storeField_guarded executes op
  case ret => exact ret_guarded executes op
  case throw => exact raise_guarded executes op
  case leave => exact leave_guarded executes op
  case endfinally => exact endFinally_guarded executes
  all_goals have effect_eq := Except.ok.inj effect_eq
  case nop =>
    exact onward_guarded (x := .ok f) executes (by rw [op]; rfl) effect_eq fun n started => started
  case ldarg =>
    refine onward_guarded executes (by rw [op]; rfl) effect_eq fun n started => ?_
    refine (Instruction.argument_guarded fits inRange (by rw [op]; rfl)).bind fun i inside => ?_
    rw [← executes.args] at inside
    exact (Frame.loadArg_guarded inside).bind fun v _ => started.push v
  case starg =>
    refine onward_guarded executes (by rw [op]; rfl) effect_eq fun n started => ?_
    refine (Instruction.argument_guarded fits inRange (by rw [op]; rfl)).bind fun i inside => ?_
    rw [← executes.args] at inside
    exact (Frame.pop_guarded started).bind fun p reshaped =>
      Frame.storeArg_guarded reshaped inside p.1
  case ldloc =>
    refine onward_guarded executes (by rw [op]; rfl) effect_eq fun n started => ?_
    refine (Instruction.localSlot_guarded fits inRange (by rw [op]; rfl)).bind fun i inside => ?_
    rw [← executes.locals] at inside
    exact (Frame.loadLocal_guarded inside).bind fun v _ => started.push v
  case stloc =>
    refine onward_guarded executes (by rw [op]; rfl) effect_eq fun n started => ?_
    refine (Instruction.localSlot_guarded fits inRange (by rw [op]; rfl)).bind fun i inside => ?_
    rw [← executes.locals] at inside
    exact (Frame.pop_guarded started).bind fun p reshaped =>
      Frame.storeLocal_guarded reshaped inside p.1
  case ldc =>
    refine onward_guarded executes (by rw [op]; rfl) effect_eq fun n started => ?_
    exact (Instruction.number_guarded fits (by rw [op]; rfl)).bind fun i _ => started.push _
  case ldstr =>
    refine onward_guarded executes (by rw [op]; rfl) effect_eq fun n started => ?_
    exact (Instruction.text_guarded fits (by rw [op]; rfl)).bind fun s _ => started.push _
  case ldnull =>
    exact onward_guarded (x := .ok (f.push .null)) executes (by rw [op]; rfl) effect_eq
      fun n started => started.push .null
  case dup =>
    refine onward_guarded executes (by rw [op]; rfl) effect_eq fun n started => ?_
    exact (Frame.pop_guarded started).bind fun p reshaped => (reshaped.push p.1).push p.1
  case pop =>
    refine onward_guarded executes (by rw [op]; rfl) effect_eq fun n started => ?_
    exact (Frame.pop_guarded started).bind fun p reshaped => reshaped
  case ldfld =>
    exact onward_guarded executes (by rw [op]; rfl) effect_eq fun n started =>
      loadField_guarded fits (by rw [op]; rfl) started
  case isinst =>
    exact onward_guarded executes (by rw [op]; rfl) effect_eq fun n started =>
      testInstance_guarded host.symbols fits (by rw [op]; rfl) started
  case ldsfld =>
    refine onward_guarded executes (by rw [op]; rfl) effect_eq fun n started => ?_
    exact (Instruction.field_guarded fits (by rw [op]; rfl)).bind fun i _ => started.push _
  case ceq =>
    refine onward_guarded executes (by rw [op]; rfl) effect_eq fun n started => ?_
    exact (popEqual_guarded started).bind fun p reshaped => reshaped.push _
  case stsfld =>
    refine next_guarded executes (by rw [op]; rfl) effect_eq fun n started => ?_
    refine (Instruction.field_guarded fits (by rw [op]; rfl)).bind fun field _ => ?_
    exact (Frame.pop_guarded started).bind fun p reshaped => ⟨p.2, _, rfl, reshaped⟩
  case neg =>
    exact onward_guarded executes (by rw [op]; rfl) effect_eq fun n => negation_guarded _
  case not =>
    exact onward_guarded executes (by rw [op]; rfl) effect_eq fun n => negation_guarded _
  case br =>
    refine branch_guarded executes (by rw [op]; rfl) (by simp [op]) effect_eq
      fun n t started target => ?_
    exact (Frame.branchIf_guarded started target true).mono fun g moved =>
      moved.imp_left fun stays => absurd stays.1 (by simp)
  case brtrue =>
    exact branch_guarded executes (by rw [op]; rfl) (by simp [op]) effect_eq
      fun n t => branchOnTruth_guarded (by rw [op]; rfl) true
  case brfalse =>
    exact branch_guarded executes (by rw [op]; rfl) (by simp [op]) effect_eq
      fun n t => branchOnTruth_guarded (by rw [op]; rfl) false
  case beq =>
    exact branch_guarded executes (by rw [op]; rfl) (by simp [op]) effect_eq
      fun n t => branchOnEqual_guarded (by rw [op]; rfl) true
  case bne =>
    exact branch_guarded executes (by rw [op]; rfl) (by simp [op]) effect_eq
      fun n t => branchOnEqual_guarded (by rw [op]; rfl) false
  case bgt =>
    exact branch_guarded executes (by rw [op]; rfl) (by simp [op]) effect_eq
      fun n t => branchOnOrder_guarded (by rw [op]; rfl) _
  case blt =>
    exact branch_guarded executes (by rw [op]; rfl) (by simp [op]) effect_eq
      fun n t => branchOnOrder_guarded (by rw [op]; rfl) _
  all_goals
    exact onward_guarded executes (by rw [op]; rfl) effect_eq fun n => arithmetic_guarded _

end Action

end HookSplice
