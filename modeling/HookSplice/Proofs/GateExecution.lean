import HookSplice.Proofs.EventObjects
import HookSplice.Proofs.GateCode

/-!
# Executing a gate

Control that enters the code of a gate and meets no trap there comes out at its end.  The captured
values, the hook and the event have gone from the stack again; the event stands in the scratch local
of the gate; and as its subscribers have left it allowed, the last branch is not taken.
-/

namespace HookSplice

open Event (BusState)

variable {σ : Type}

/-! ### Straight code in a body -/

theorem Action.ofInstruction_alike {a b : Instruction} (alike : b.Alike a) (symbols : SymbolTable)
    (h : Heap) (i : Nat) (f : Frame) :
    ofInstruction symbols h i f b = ofInstruction symbols h i f a := by
  obtain ⟨opcode, operand, labels'⟩ := b
  obtain ⟨_, _, labels⟩ := a
  obtain ⟨rfl, rfl⟩ := alike
  cases opcode <;> rfl

theorem Action.going_eq_ok {h : Heap} {x : Except Mishap Frame} {action : Action}
    (success : going h x = .ok action) : ∃ f, x = .ok f ∧ action = .next f h := by
  cases x with
  | error e => cases success
  | ok f =>
      cases success
      exact ⟨f, rfl, rfl⟩

theorem Instruction.callee_eq_ok {symbols : SymbolTable} {opcode : Opcode} {method id : MethodId}
    {signature : MethodDef}
    (success : (Instruction.of opcode (.method method)).callee symbols = .ok (id, signature)) :
    id = method ∧ symbols.method? method = some signature := by
  unfold callee at success
  simp only [Instruction.of] at success
  split at success
  · next found =>
      cases success
      exact ⟨rfl, found⟩
  · cases success

theorem Frame.popMany_eq_ok {f f' : Frame} {n : Nat} {args : List Value}
    (success : f.popMany n = .ok (args, f')) :
    n ≤ f.stack.length ∧ args = (f.stack.take n).reverse ∧
      f' = { f with stack := f.stack.drop n } := by
  unfold popMany at success
  split at success
  · cases success
  · next enough =>
      cases success
      exact ⟨Nat.le_of_not_lt enough, rfl, rfl⟩

/-- An instruction that can only push a value. -/
def Instruction.Loads (ins : Instruction) : Prop :=
  ∀ {symbols : SymbolTable} {h : Heap} {i : Nat} {f : Frame} {action : Action},
    Action.ofInstruction symbols h i f ins = .ok action → ∃ v, action = .next (f.push v) h

theorem Instruction.loads_ldarg (i : UInt16) : (Instruction.of .ldarg (.arg i)).Loads := by
  intro symbols h position f action ran
  obtain ⟨f', success, rfl⟩ := Action.going_eq_ok ran
  obtain ⟨i', named, success⟩ := Except.bind_eq_ok success
  obtain ⟨v, -, success⟩ := Except.bind_eq_ok success
  cases success
  exact ⟨v, rfl⟩

theorem Instruction.loads_ldloc (slot : UInt16) : (Instruction.of .ldloc (.slot slot)).Loads := by
  intro symbols h position f action ran
  obtain ⟨f', success, rfl⟩ := Action.going_eq_ok ran
  obtain ⟨slot', named, success⟩ := Except.bind_eq_ok success
  obtain ⟨v, -, success⟩ := Except.bind_eq_ok success
  cases success
  exact ⟨v, rfl⟩

/-- A captured value is loaded as it is, or is a field of the object that is loaded. -/
theorem Capture.load_cases (k : Capture) : ∃ ins : Instruction, ins.Loads ∧
    (k.load = [ins] ∨ ∃ field, k.load = [ins, .of .ldfld (.field field)]) := by
  cases k with
  | arg i => exact ⟨_, Instruction.loads_ldarg i, Or.inl rfl⟩
  | slot i => exact ⟨_, Instruction.loads_ldloc i, Or.inl rfl⟩
  | argField i field => exact ⟨_, Instruction.loads_ldarg i, Or.inr ⟨field, rfl⟩⟩
  | slotField i field => exact ⟨_, Instruction.loads_ldloc i, Or.inr ⟨field, rfl⟩⟩
  | int n =>
      refine ⟨_, fun ran => ?_, Or.inl rfl⟩
      cases ran
      exact ⟨.int n, rfl⟩
  | text s =>
      refine ⟨_, fun ran => ?_, Or.inl rfl⟩
      cases ran
      exact ⟨.text s, rfl⟩
  | null =>
      refine ⟨_, fun ran => ?_, Or.inl rfl⟩
      cases ran
      exact ⟨.null, rfl⟩
  | staticField field =>
      refine ⟨_, fun {_ h _ _ _} ran => ?_, Or.inl rfl⟩
      cases ran
      exact ⟨h.loadStatic field, rfl⟩

/-- The configuration with control at a position of the running frame, and with the rest of what
    straight code can change. -/
def Config.inside (c : Config σ) (p : Nat) (stack locals : List Value) (heap : Heap) (world : σ) :
    Config σ :=
  { c with
    frame := { c.frame with stack := stack, locals := locals, pc := p }
    heap := heap
    world := world }

namespace Machine

/-- A method that is bound to native code runs that. -/
theorem implementation_native {m : Machine σ} {method : MethodId} {n depth : Nat}
    {code : Native σ} (bound : m.natives.lookup method = some code) {found : Implementation σ}
    (success : m.implementation method n depth = .ok found) : found = .native code := by
  cases implementation_eq_iff.mp success with
  | native _ _ _ known => rw [Option.some.inj (bound.symm.trans known)]
  | body _ _ _ unbound => cases bound.symm.trans unbound

/-- A call of native code that does not trap returns to its caller. -/
theorem enter_native {m : Machine σ} {method : MethodId} {args : List Value} {c : Caller}
    {callers : List Caller} {h : Heap} {w : σ} {code : Native σ}
    (bound : m.natives.lookup method = some code)
    (safe : ∀ trap k u, m.enter method args (c :: callers) h w ≠ .ended (.error trap) k u) :
    ∃ v, (code h w args).result = .ok v ∧ m.enter method args (c :: callers) h w =
      .running ⟨c.resume v, callers, (code h w args).heap, (code h w args).world⟩ := by
  generalize entered : m.enter method args (c :: callers) h w = p at safe ⊢
  cases enter_starts entered with
  | refused | trapped => exact absurd rfl (safe _ _ _)
  | body found => cases implementation_native bound found
  | returned found gives back =>
      cases implementation_native bound found
      exact ⟨_, gives, back.symm⟩

/-- Code that stands in a body from a point on.  No configuration that the run passes through traps
    at an instruction of it. -/
structure Inserted (m : Machine σ) (passes : Config σ → Prop) (b : Body) (point : Nat)
    (code : List Instruction) : Prop where
  here : ∀ {o : Nat} {ins : Instruction}, code[o]? = some ins →
    ∃ ins', b.code[point + o]? = some ins' ∧ ins'.Alike ins
  closed : ∀ {c c' : Config σ}, passes c → c.frame.body = b → point ≤ c.frame.pc →
    c.frame.pc < point + code.length → m.step c = .running c' → passes c'
  safe : ∀ {c : Config σ}, passes c → c.frame.body = b → point ≤ c.frame.pc →
    c.frame.pc < point + code.length → ∀ trap h w, m.step c ≠ .ended (.error trap) h w

namespace Inserted

variable {m : Machine σ} {passes : Config σ → Prop} {b : Body} {point o : Nat}
  {code : List Instruction} (inserted : m.Inserted passes b point code) {c : Config σ}
  (body : c.frame.body = b) {stack locals : List Value} {h : Heap} {w : σ} {ins : Instruction}
include inserted

include body

/-- The run passes through what follows an inserted instruction. -/
theorem next {d : Config σ} (passed : passes (c.inside (point + o) stack locals h w))
    (here : code[o]? = some ins)
    (moved : m.step (c.inside (point + o) stack locals h w) = .running d) : passes d :=
  inserted.closed passed body (Nat.le_add_right point o)
    (Nat.add_lt_add_left (List.getElem?_eq_some_iff.mp here).1 point) moved

/-- An inserted instruction succeeds, and so does what follows it. -/
theorem step (passed : passes (c.inside (point + o) stack locals h w))
    (here : code[o]? = some ins) : ∃ action,
      Action.ofInstruction m.host.symbols h (point + o)
        (c.inside (point + o + 1) stack locals h w).frame ins = .ok action ∧
      m.step (c.inside (point + o) stack locals h w) = m.follow action c.callers h w ∧
      ∀ trap k u, m.follow action c.callers h w ≠ .ended (.error trap) k u := by
  obtain ⟨ins', there, alike⟩ := inserted.here here
  have below := (List.getElem?_eq_some_iff.mp here).1
  have safe := inserted.safe passed body (Nat.le_add_right point o)
    (Nat.add_lt_add_left below point)
  generalize moved : m.step (c.inside (point + o) stack locals h w) = p at safe ⊢
  cases step_performs moved with
  | beyond | stopped => exact absurd rfl (safe _ _ _)
  | @executed found action _ located ran followed =>
      have same : found = ins' := by
        have located : c.frame.body.code[point + o]? = some found := located
        rw [body, there] at located
        exact (Option.some.inj located).symm
      rw [same, Action.ofInstruction_alike alike] at ran
      subst followed
      exact ⟨action, ran, rfl, safe⟩

/-- An instruction after which the frame goes on, on the heap as it is. -/
theorem step_going (passed : passes (c.inside (point + o) stack locals h w))
    (here : code[o]? = some ins) {x : Except Mishap Frame}
    (executes : Action.ofInstruction m.host.symbols h (point + o)
      (c.inside (point + o + 1) stack locals h w).frame ins = Action.going h x) :
    ∃ f, x = .ok f ∧ m.step (c.inside (point + o) stack locals h w) =
      .running ⟨f, c.callers, h, w⟩ := by
  obtain ⟨action, ran, moved, -⟩ := inserted.step body passed here
  rw [executes] at ran
  obtain ⟨f, success, rfl⟩ := Action.going_eq_ok ran
  exact ⟨f, success, moved⟩

theorem ldstr {s : String} (here : code[o]? = some (.of .ldstr (.text s)))
    (passed : passes (c.inside (point + o) stack locals h w)) :
    m.step (c.inside (point + o) stack locals h w) =
      .running (c.inside (point + o + 1) (.text s :: stack) locals h w) := by
  obtain ⟨f, success, moved⟩ := inserted.step_going body passed here rfl
  cases success
  exact moved

theorem ldloc {slot : UInt16} (here : code[o]? = some (.of .ldloc (.slot slot)))
    (passed : passes (c.inside (point + o) stack locals h w)) :
    ∃ v, locals[slot.toNat]? = some v ∧ m.step (c.inside (point + o) stack locals h w) =
      .running (c.inside (point + o + 1) (v :: stack) locals h w) := by
  obtain ⟨f, success, moved⟩ := inserted.step_going body passed here rfl
  obtain ⟨slot', named, success⟩ := Except.bind_eq_ok success
  cases named
  obtain ⟨v, loaded, success⟩ := Except.bind_eq_ok success
  cases success
  refine ⟨v, ?_, moved⟩
  unfold Frame.loadLocal at loaded
  split at loaded
  · next known =>
      cases loaded
      exact known
  · cases loaded

theorem stloc {slot : UInt16} {v : Value} (here : code[o]? = some (.of .stloc (.slot slot)))
    (passed : passes (c.inside (point + o) (v :: stack) locals h w)) :
    slot.toNat < locals.length ∧ m.step (c.inside (point + o) (v :: stack) locals h w) =
      .running (c.inside (point + o + 1) stack (locals.set slot.toNat v) h w) := by
  obtain ⟨f, success, moved⟩ := inserted.step_going body passed here rfl
  have stored : Frame.storeLocal (c.inside (point + o + 1) stack locals h w).frame slot v =
    .ok f := success
  unfold Frame.storeLocal at stored
  split at stored
  · next below =>
      cases stored
      exact ⟨below, moved⟩
  · cases stored

theorem ldfld {field : FieldId} {v : Value} (here : code[o]? = some (.of .ldfld (.field field)))
    (passed : passes (c.inside (point + o) (v :: stack) locals h w)) :
    ∃ object v', v = .object object ∧ h.loadField? object field = some v' ∧
      m.step (c.inside (point + o) (v :: stack) locals h w) =
        .running (c.inside (point + o + 1) (v' :: stack) locals h w) := by
  obtain ⟨f, success, moved⟩ := inserted.step_going body passed here rfl
  obtain ⟨field', named, success⟩ := Except.bind_eq_ok success
  cases named
  obtain ⟨⟨object, g⟩, popped, success⟩ := Except.bind_eq_ok success
  cases v with
  | null | int | text => cases popped
  | object object' =>
      cases popped
      cases loaded : h.loadField? object field with
      | none =>
          simp only [loaded] at success
          cases success
      | some v' =>
          simp only [loaded] at success
          cases success
          exact ⟨object, v', rfl, loaded, moved⟩

theorem brfalse {l : Label} {v : Value} (here : code[o]? = some (.of .brfalse (.label l)))
    (truthy : v.isTruthy) (passed : passes (c.inside (point + o) (v :: stack) locals h w)) :
    m.step (c.inside (point + o) (v :: stack) locals h w) =
      .running (c.inside (point + o + 1) stack locals h w) := by
  obtain ⟨f, success, moved⟩ := inserted.step_going body passed here rfl
  have branched : Frame.branchIf (c.inside (point + o + 1) stack locals h w).frame
    (v.isTruthy == false) (.of .brfalse (.label l)) = .ok f := success
  rw [truthy] at branched
  cases branched
  exact moved

theorem loads (loaded : ins.Loads) (here : code[o]? = some ins)
    (passed : passes (c.inside (point + o) stack locals h w)) :
    ∃ v, m.step (c.inside (point + o) stack locals h w) =
      .running (c.inside (point + o + 1) (v :: stack) locals h w) := by
  obtain ⟨action, ran, moved, -⟩ := inserted.step body passed here
  obtain ⟨v, rfl⟩ := loaded ran
  exact ⟨v, moved⟩

/-- The code of a captured value puts one value on the stack. -/
theorem capture (k : Capture)
    (located : ∀ {j : Nat} {ins : Instruction}, k.load[j]? = some ins → code[o + j]? = some ins)
    (passed : passes (c.inside (point + o) stack locals h w)) :
    ∃ n v, m.Reaches n (c.inside (point + o) stack locals h w)
        (c.inside (point + (o + k.load.length)) (v :: stack) locals h w) ∧
      passes (c.inside (point + (o + k.load.length)) (v :: stack) locals h w) := by
  obtain ⟨ins, loaded, code⟩ := k.load_cases
  have first : k.load[0]? = some ins := by
    rcases code with code | ⟨field, code⟩ <;> rw [code] <;> rfl
  obtain ⟨v, moved⟩ := inserted.loads body loaded (located first) passed
  have passed₁ := inserted.next body passed (located first) moved
  rcases code with code | ⟨field, code⟩
  · rw [code]
    exact ⟨1, v, .once moved, passed₁⟩
  · have second : k.load[1]? = some (.of .ldfld (.field field)) := by
      rw [code]
      rfl
    obtain ⟨object, v', -, -, moved'⟩ := inserted.ldfld body (o := o + 1) (located second) passed₁
    rw [code]
    exact ⟨2, v', .step moved (.once moved'),
      inserted.next body (o := o + 1) passed₁ (located second) moved'⟩

/-- The code of captured values puts one value for each of them on the stack. -/
theorem captures (captured : List Capture)
    (located : ∀ {j : Nat} {ins : Instruction},
      (captured.flatMap Capture.load)[j]? = some ins → code[o + j]? = some ins)
    (passed : passes (c.inside (point + o) stack locals h w)) :
    ∃ n vs, vs.length = captured.length ∧ m.Reaches n (c.inside (point + o) stack locals h w)
        (c.inside (point + (o + (captured.flatMap Capture.load).length)) (vs ++ stack) locals h w) ∧
      passes
        (c.inside (point + (o + (captured.flatMap Capture.load).length))
          (vs ++ stack) locals h w) := by
  induction captured generalizing o stack with
  | nil => exact ⟨0, [], rfl, .here _, passed⟩
  | cons k rest ih =>
      obtain ⟨n, v, reached, passed₁⟩ := inserted.capture body k (fun {j ins} here => by
        apply located
        rw [List.flatMap_cons]
        exact getElem?_append_of_eq_some here _) passed
      obtain ⟨n', vs, length, reached', passed'⟩ := ih (o := o + k.load.length)
        (fun {j ins} here => by
        rw [Nat.add_assoc]
        apply located
        rw [List.flatMap_cons, getElem?_append_add]
        exact here) passed₁
      refine ⟨n + n', vs ++ [v], ?_, ?_⟩
      · rw [List.length_append, length]
        rfl
      · rw [List.flatMap_cons, List.length_append, ← Nat.add_assoc o, List.append_assoc]
        exact ⟨reached.trans reached', passed'⟩

/-- Making an object and running its constructor leaves the object on the stack. -/
theorem newobj {method : MethodId} {native : Native σ}
    (here : code[o]? = some (.of .newobj (.method method)))
    (bound : m.natives.lookup method = some native)
    (passed : passes (c.inside (point + o) stack locals h w)) :
    ∃ signature args v, m.host.symbols.method? method = some signature ∧
      (native (h.alloc signature.owner).2 w
        (.object (h.alloc signature.owner).1 :: args)).result = .ok v ∧
      m.step (c.inside (point + o) stack locals h w) =
        .running (c.inside (point + o + 1)
          (.object (h.alloc signature.owner).1 :: stack.drop signature.params.length) locals
          (native (h.alloc signature.owner).2 w
            (.object (h.alloc signature.owner).1 :: args)).heap
          (native (h.alloc signature.owner).2 w
            (.object (h.alloc signature.owner).1 :: args)).world) := by
  obtain ⟨action, ran, moved, safe⟩ := inserted.step body passed here
  obtain ⟨⟨id, signature⟩, called, ran⟩ := Except.bind_eq_ok ran
  obtain ⟨⟨args, f⟩, taken, ran⟩ := Except.bind_eq_ok ran
  obtain ⟨rfl, declared⟩ := Instruction.callee_eq_ok called
  obtain ⟨-, rfl, rfl⟩ := Frame.popMany_eq_ok taken
  cases ran
  obtain ⟨v, result, entered⟩ := enter_native bound safe
  exact ⟨signature, _, v, declared, result, moved.trans entered⟩

/-- A call of native code takes its arguments from the stack and leaves its result there. -/
theorem call {method : MethodId} {native : Native σ}
    (here : code[o]? = some (.of .call (.method method)))
    (bound : m.natives.lookup method = some native)
    (passed : passes (c.inside (point + o) stack locals h w)) :
    ∃ signature v, m.host.symbols.method? method = some signature ∧
      signature.argCount ≤ stack.length ∧
      (native h w (stack.take signature.argCount).reverse).result = .ok v ∧
      m.step (c.inside (point + o) stack locals h w) =
        .running (c.inside (point + o + 1) (v.toList ++ stack.drop signature.argCount) locals
          (native h w (stack.take signature.argCount).reverse).heap
          (native h w (stack.take signature.argCount).reverse).world) := by
  obtain ⟨action, ran, moved, safe⟩ := inserted.step body passed here
  obtain ⟨⟨id, signature⟩, called, ran⟩ := Except.bind_eq_ok ran
  obtain ⟨⟨args, f⟩, taken, ran⟩ := Except.bind_eq_ok ran
  obtain ⟨rfl, declared⟩ := Instruction.callee_eq_ok called
  obtain ⟨enough, rfl, rfl⟩ := Frame.popMany_eq_ok taken
  cases ran
  obtain ⟨v, result, entered⟩ := enter_native bound safe
  refine ⟨signature, v, declared, enough, result, (moved.trans entered).trans ?_⟩
  cases v <;> rfl

end Inserted

/-! ### The gate as a whole -/

section Gate

variable {ρ : Type} {m : Machine (EventWorld ρ)} {passes : Config (EventWorld ρ) → Prop} {b : Body}
  {point : Nat} {g : EventGate} {contract : EventContract} {allowed : FieldId} {slot : UInt16}
  {deny : Label} {code : List Instruction} {c : Config (EventWorld ρ)} {stack locals : List Value}
  {h : Heap} {w : EventWorld ρ} {raises : String → Prop}
  {related : List ObjectId → BusState ρ → BusState ρ → Prop} {ids : List ObjectId} {k : Heap}
  {b' : BusState ρ} {depth : Nat}

/-- The event is made, put into the scratch local, and dispatched. -/
theorem Inserted.dispatches {behind : List Instruction}
    (inserted : m.Inserted passes b point
      (g.captures.flatMap Capture.load ++ g.dispatching contract slot ++ behind))
    (declared : contract.DeclaredIn m.host.symbols)
    (known : (contract.eventClass g.kind).field? .allowed = some allowed)
    (constructs : m.natives.lookup (contract.eventClass g.kind).constructor =
      some (contract.eventClass g.kind).constructorNative)
    (dispatches : m.natives.lookup contract.dispatch = some (contract.dispatchNative depth))
    (balanced : ∀ {s s' : MethodDef},
      m.host.symbols.method? (contract.eventClass g.kind).constructor = some s →
      m.host.symbols.method? contract.dispatch = some s' →
      s.params.length + s'.argCount = g.captures.length + 2)
    (body : c.frame.body = b) (passed : passes (c.inside point stack locals h w)) :
    ∃ n type entries h₁ h₂ w₂,
      (h.alloc type).2.storeFields? (h.alloc type).1 entries = some h₁ ∧
      EventMarked m.host.symbols h₁ (h.alloc type).1 allowed ∧
      contract.dispatchNative depth h₁ w [.text g.hook, .object (h.alloc type).1] =
        ⟨.ok none, h₂, w₂⟩ ∧
      slot.toNat < locals.length ∧
      m.Reaches n (c.inside point stack locals h w)
        (c.inside (point + (g.captures.flatMap Capture.load ++ g.dispatching contract slot).length)
          stack (locals.set slot.toNat (.object (h.alloc type).1)) h₂ w₂) ∧
      passes
        (c.inside (point + (g.captures.flatMap Capture.load ++ g.dispatching contract slot).length)
          stack (locals.set slot.toNat (.object (h.alloc type).1)) h₂ w₂) := by
  generalize start : (g.captures.flatMap Capture.load).length = o
  have located {j : Nat} {ins : Instruction} (here : (g.dispatching contract slot)[j]? = some ins) :
      (g.captures.flatMap Capture.load ++ g.dispatching contract slot ++ behind)[o + j]? =
        some ins := by
    refine getElem?_append_of_eq_some ?_ behind
    rw [← start, getElem?_append_add]
    exact here
  obtain ⟨n, vs, count, reached, passed₀⟩ := inserted.captures body (o := 0) g.captures
    (fun {j ins} here => by
      rw [Nat.zero_add, List.append_assoc]
      exact getElem?_append_of_eq_some here _) passed
  rw [Nat.zero_add, start] at reached passed₀
  -- The event is made and put into the scratch local.
  obtain ⟨signature, args, v, params, made, moved₀⟩ :=
    inserted.newobj body (located (j := 0) rfl) constructs passed₀
  obtain ⟨h₁, stored₁, whole₁, event⟩ :=
    constructorNative_marked (declared.classes g.kind) known made
  rw [whole₁] at moved₀
  have passed₁ := inserted.next body passed₀ (located (j := 0) rfl) moved₀
  obtain ⟨room, moved₁⟩ := inserted.stloc body (o := o + 1) (located (j := 1) rfl) passed₁
  have passed₂ := inserted.next body (o := o + 1) passed₁ (located (j := 1) rfl) moved₁
  -- The hook and the event are dispatched.
  have moved₂ := inserted.ldstr body (o := o + 2) (located (j := 2) rfl) passed₂
  have passed₃ := inserted.next body (o := o + 2) passed₂ (located (j := 2) rfl) moved₂
  obtain ⟨v₃, loaded₃, moved₃⟩ := inserted.ldloc body (o := o + 3) (located (j := 3) rfl) passed₃
  rw [List.getElem?_set_self room] at loaded₃
  cases loaded₃
  have passed₄ := inserted.next body (o := o + 3) passed₃ (located (j := 3) rfl) moved₃
  obtain ⟨signature', v₄, arguments, enough, dispatched, moved₄⟩ :=
    inserted.call body (o := o + 4) (located (j := 4) rfl) dispatches passed₄
  have passed₅ := inserted.next body (o := o + 4) passed₄ (located (j := 4) rfl) moved₄
  obtain ⟨hook, object, shape⟩ := dispatchNative_args dispatched
  have two : signature'.argCount = 2 := by
    have length := congrArg List.length shape
    rw [List.length_reverse, List.length_take, Nat.min_eq_left enough] at length
    exact length
  rw [two] at dispatched moved₄ passed₅
  obtain ⟨r, d, u, h₂, i, asked, came, written, -, whole₂⟩ :=
    dispatchNative_eq_ok contract dispatched
  rw [whole₂] at dispatched moved₄ passed₅
  cases dispatched
  have rest : (vs ++ stack).drop signature.params.length = stack := by
    have balance := balanced params arguments
    apply List.drop_left'
    omega
  rw [rest] at moved₀ moved₁ moved₂ moved₃ moved₄ passed₅
  refine ⟨n + 5, signature.owner, _, h₁, h₂, _, stored₁, event, whole₂, room, ?_⟩
  rw [List.length_append, start]
  exact ⟨reached.trans (.step moved₀ (.step moved₁ (.step moved₂ (.step moved₃ (.once moved₄))))),
    passed₅⟩

/-- The mark of the event in the scratch local is what the last branch depends on. -/
theorem Inserted.asks {code : List Instruction} (inserted : m.Inserted passes b point code)
    {o : Nat}
    (located : ∀ {j : Nat} {ins : Instruction},
      (EventGate.asking allowed slot deny)[j]? = some ins → code[o + j]? = some ins)
    (body : c.frame.body = b) {object : ObjectId} {v : Value}
    (scratch : locals[slot.toNat]? = some (.object object))
    (mark : h.loadField? object allowed = some v)
    (passed : passes (c.inside (point + o) stack locals h w)) :
    m.Reaches 2 (c.inside (point + o) stack locals h w)
        (c.inside (point + (o + 2)) (v :: stack) locals h w) ∧
      passes (c.inside (point + (o + 2)) (v :: stack) locals h w) := by
  obtain ⟨v', loaded, moved⟩ := inserted.ldloc body (located (j := 0) rfl) passed
  obtain rfl := Option.some.inj (loaded.symm.trans scratch)
  have passed₁ := inserted.next body passed (located (j := 0) rfl) moved
  obtain ⟨object', v', same, loaded, moved'⟩ := inserted.ldfld body (o := o + 1)
    (located (j := 1) rfl) passed₁
  cases same
  obtain rfl := Option.some.inj (loaded.symm.trans mark)
  exact ⟨.step moved (.once moved'),
    inserted.next body (o := o + 1) passed₁ (located (j := 1) rfl) moved'⟩

/-- When the event stays allowed, control passes through a gate that stores nothing away. -/
theorem Inserted.gate (inserted : m.Inserted passes b point (g.code contract allowed [] slot deny))
    (declared : contract.DeclaredIn m.host.symbols)
    (known : (contract.eventClass g.kind).field? .allowed = some allowed)
    (constructs : m.natives.lookup (contract.eventClass g.kind).constructor =
      some (contract.eventClass g.kind).constructorNative)
    (dispatches : m.natives.lookup contract.dispatch = some (contract.dispatchNative depth))
    (balanced : ∀ {s s' : MethodDef},
      m.host.symbols.method? (contract.eventClass g.kind).constructor = some s →
      m.host.symbols.method? contract.dispatch = some s' →
      s.params.length + s'.argCount = g.captures.length + 2)
    (overlooks : Event.Overlooks depth g.hook raises related) (body : c.frame.body = b)
    (passed : passes (c.inside point stack locals h w)) (heaps : k.Renamed ids h)
    (buses : related ids b' w.bus) : ∃ n object h' w',
      m.Reaches n (c.inside point stack locals h w)
        (c.inside (point + (g.code contract allowed [] slot deny).length) stack
          (locals.set slot.toNat (.object object)) h' w') ∧
      k.Renamed ids h' ∧ related ids b' w'.bus := by
  obtain ⟨n, type, entries, h₁, h₂, w₂, stored₁, event, whole, room, reached, passed₁⟩ :=
    inserted.dispatches declared known constructs dispatches balanced body passed
  have success :
      (contract.dispatchNative depth h₁ w [.text g.hook, .object (h.alloc type).1]).result =
        .ok none := by rw [whole]
  obtain ⟨entries', k', u, stored₂, whole', mark, buses'⟩ :=
    dispatchNative_marked declared event success overlooks buses
  obtain ⟨rfl, rfl⟩ : h₂ = k' ∧ w₂ = u := by
    have same := whole.symm.trans whole'
    injection same with _ heap world
    exact ⟨heap, world⟩
  -- The event is still allowed, and the branch is not taken.
  obtain ⟨reached', passed₂⟩ := inserted.asks EventGate.code_asking body
    (List.getElem?_set_self room) mark passed₁
  have moved := inserted.brfalse body (EventGate.code_asking (j := 2) rfl) rfl passed₂
  have apart := heaps.fresh_not_mem type
  refine ⟨n + (2 + 1), (h.alloc type).1, h₂, w₂, ?_, ?_, buses'⟩
  · rw [EventGate.length_code]
    exact reached.trans (reached'.trans (.once moved))
  · exact ((heaps.alloc_apart type).storeFields?_apart apart stored₁).storeFields?_apart apart
      stored₂

end Gate

end Machine

end HookSplice
